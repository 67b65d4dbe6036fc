import Hyperagents.Fallible
import Hyperagents.Pyvmi
/-!
# Reads of a task

The actuators that only read a task put `-1` where a read fails.  The words of a guest have no sign, so `-1` says just
that; and as `get_mm_stats` makes its six reads under one handler, one that fails takes the other five with it
(`mm_stats_iff`).
-/
namespace Hyperagents

structure TaskVmi extends Pyvmi where
  read64Va : (va pid : Int) → Except PyError Int

/-- Words are read without a sign. -/
structure TaskVmi.Unsigned (vmi : TaskVmi) : Prop where
  read64 : ∀ va pid w, vmi.read64Va va pid = .ok w → 0 ≤ w
  read32 : ∀ va pid w, vmi.read32Va va pid = .ok w → 0 ≤ w

/-- `except ValueError:` around a block, with what it leaves. -/
def onValueError {α : Type} (failed : α) : Except PyError α → Except PyError α
  | .error .valueError => .ok failed
  | r => r

structure MmStats where
  nrPtes : Int
  nrPmds : Int
  mapCount : Int
  execVm : Int
  stackVm : Int
  totalVm : Int
  deriving DecidableEq, Repr

def MmStats.fields (s : MmStats) : List Int := [s.nrPtes, s.nrPmds, s.mapCount, s.execVm, s.stackVm, s.totalVm]

section

variable (vmi : TaskVmi) (cfg : Cfg)

def readMmStats (mm : Int) : Except PyError MmStats := do
  let nrPtes ← vmi.read64Va (mm + cfg "u_nr_ptes") 0
  let nrPmds ← vmi.read64Va (mm + cfg "u_nr_pmds") 0
  let mapCount ← vmi.read64Va (mm + cfg "u_map_count") 0
  let execVm ← vmi.read64Va (mm + cfg "u_exec_vm") 0
  let stackVm ← vmi.read64Va (mm + cfg "u_stack_vm") 0
  let totalVm ← vmi.read64Va (mm + cfg "u_total_vm") 0
  return ⟨nrPtes, nrPmds, mapCount, execVm, stackVm, totalVm⟩

/-- The task's mm is read before the handler. -/
def getMmStats (tsAddr : Int) : Except PyError MmStats := do
  let mmOffset ← vmi.getOffset "linux_mm"
  let mm ← vmi.readAddrVa (tsAddr + mmOffset) 0
  onValueError ⟨-1, -1, -1, -1, -1, -1⟩ (readMmStats vmi cfg mm)

def getUid (tsAddr : Int) : Except PyError Int :=
  onValueError (-1) do
    let credPtr ← vmi.readAddrVa (tsAddr + cfg "u_cred") 0
    vmi.read32Va (credPtr + cfg "u_uid") 0

end

theorem onValueError_ok {α : Type} {failed a : α} {r : Except PyError α} (h : onValueError failed r = .ok a) :
    r = .ok a ∨ r = .error .valueError ∧ a = failed := by
  cases r with
  | ok b => exact .inl h
  | error e =>
    cases e with
    | valueError =>
      cases h
      exact .inr ⟨rfl, rfl⟩
    | _ => cases h

section

variable {vmi : TaskVmi} {cfg : Cfg} {mm tsAddr : Int} {s : MmStats} {uid : Int}

theorem readMmStats_nonneg (hvmi : vmi.Unsigned) (h : readMmStats vmi cfg mm = .ok s) : ∀ n ∈ s.fields, 0 ≤ n := by
  obtain ⟨nrPtes, h1, h⟩ := ok_of_bind h
  obtain ⟨nrPmds, h2, h⟩ := ok_of_bind h
  obtain ⟨mapCount, h3, h⟩ := ok_of_bind h
  obtain ⟨execVm, h4, h⟩ := ok_of_bind h
  obtain ⟨stackVm, h5, h⟩ := ok_of_bind h
  obtain ⟨totalVm, h6, h⟩ := ok_of_bind h
  cases h
  simp only [MmStats.fields, List.forall_mem_cons]
  exact ⟨hvmi.read64 _ _ _ h1, hvmi.read64 _ _ _ h2, hvmi.read64 _ _ _ h3, hvmi.read64 _ _ _ h4,
    hvmi.read64 _ _ _ h5, hvmi.read64 _ _ _ h6, List.forall_mem_nil _⟩

/-- **The statistics are lost together**: some one is `-1` exactly when all are, because one of the six reads failed. -/
theorem mm_stats_iff (hvmi : vmi.Unsigned) (h : getMmStats vmi cfg tsAddr = .ok s) :
    ((-1) ∈ s.fields ↔ ∀ n ∈ s.fields, n = -1) ∧
      ((-1) ∈ s.fields ↔ ∃ mmOffset mm, vmi.getOffset "linux_mm" = .ok mmOffset ∧
        vmi.readAddrVa (tsAddr + mmOffset) 0 = .ok mm ∧ readMmStats vmi cfg mm = .error .valueError) := by
  obtain ⟨mmOffset, hoffset, h⟩ := ok_of_bind h
  obtain ⟨mm, hmm, h⟩ := ok_of_bind h
  rcases onValueError_ok h with hread | ⟨hread, rfl⟩
  · have hpos := readMmStats_nonneg hvmi hread
    have hnot : (-1) ∉ s.fields := fun hmem => absurd (hpos _ hmem) (by decide)
    refine ⟨iff_of_false hnot fun hall => hnot ?_, iff_of_false hnot ?_⟩
    · have hfirst : s.nrPtes ∈ s.fields := List.mem_cons_self
      exact hall _ hfirst ▸ hfirst
    · rintro ⟨mmOffset', mm', hoffset', hmm', hfail⟩
      cases hoffset.symm.trans hoffset'
      cases hmm.symm.trans hmm'
      cases hread.symm.trans hfail
  · exact ⟨iff_of_true (by decide) (by decide), iff_of_true (by decide) ⟨mmOffset, mm, hoffset, hmm, hread⟩⟩

/-- The uid is `-1` exactly when one of the two reads failed. -/
theorem uid_iff (hvmi : vmi.Unsigned) (h : getUid vmi cfg tsAddr = .ok uid) :
    uid = -1 ↔ ∀ credPtr, vmi.readAddrVa (tsAddr + cfg "u_cred") 0 = .ok credPtr →
      vmi.read32Va (credPtr + cfg "u_uid") 0 = .error .valueError := by
  rcases onValueError_ok h with hread | ⟨hread, rfl⟩
  · obtain ⟨credPtr, hcred, huid⟩ := ok_of_bind hread
    have hpos := hvmi.read32 _ _ _ huid
    refine iff_of_false (by omega) fun hfail => ?_
    cases huid.symm.trans (hfail credPtr hcred)
  · refine iff_of_true rfl fun credPtr hcred => ?_
    rw [hcred] at hread
    exact hread

end

end Hyperagents
