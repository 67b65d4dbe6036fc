import Hyperagents.Records
import Hyperagents.Runs
/-!
# Threads in the syncmount

Any number of threads, each calling `request_mount` and `release_mount` in turn, take these steps in any order: a
lookup pass, with the count of a hit; one `try_lock`, with the filling of the record; `do_nbd_mount`; one victim pass
under `lk`; `do_nbd_unmount`; the reassignment of the victim; a release.  `Pc` says where in a request a thread is.

Two parts of the state are the model's own, and no step reads `nbd`: `refs` has one entry for each request that counted
itself in a record and was not released, which is what a release has to match; `nbd` says for which vmi a
`do_nbd_mount` of a device has completed with no `do_nbd_unmount` of it since.

The code does not check that a release matches a request.  `apiStep` adds the releases that match none.
-/
namespace Hyperagents

inductive Pc
  | idle
  | lookup (v : Vmi)
  | claiming (v : Vmi) (i : Slot)
  | mounting (v : Vmi) (i : Slot)
  | seeking (v : Vmi) (m : Int × Slot)
  | unmounting (v : Vmi) (i : Slot)
  | reassigning (v : Vmi) (i : Slot)
  | remounting (v : Vmi) (i : Slot)
  deriving DecidableEq, Repr

structure Ref (T : Type) where
  thread : T
  vmi : Vmi
  slot : Slot
  deriving DecidableEq, Repr

structure SmState (T : Type) where
  records : Records
  lk : Option T
  pc : T → Pc
  refs : List (Ref T)
  nbd : Slot → Option Vmi

/-- A thread enters `request_mount`, takes its next step there at a clock reading, or releases a mount of its own. -/
inductive SmLabel (T : Type)
  | request (t : T) (v : Vmi)
  | step (t : T) (now : Timeval)
  | release (t : T) (v : Vmi) (i : Slot)
  deriving DecidableEq, Repr

def SmState.init {T : Type} (clock : Slot → Timeval) : SmState T :=
  ⟨.init clock, none, fun _ => .idle, [], fun _ => none⟩

/-- After a `try_lock` that failed: the next slot, or the search for a victim. -/
def Pc.afterTaken (v : Vmi) (i : Slot) : Pc :=
  if h : i.val + 1 < DEVMAX then .claiming v ⟨i.val + 1, h⟩ else .seeking v (0, 0)

section

variable {T : Type} [DecidableEq T]

def SmState.goto (s : SmState T) (t : T) (p : Pc) : SmState T := { s with pc := Function.update s.pc t p }

/-- The next step of a thread inside `request_mount`. -/
def smNext (s : SmState T) (t : T) (now : Timeval) : Pc → Option (SmState T)
  | .idle => none
  | .lookup v =>
    match s.records.lookup v with
    | some i =>
      if s.records.canRemount i then
        some ({ s with records := s.records.remount i now, refs := ⟨t, v, i⟩ :: s.refs }.goto t .idle)
      else none
    | none => some (s.goto t (.claiming v 0))
  | .claiming v i =>
    if (s.records i).l then some (s.goto t (.afterTaken v i))
    else some ({ s with records := s.records.claim i v, refs := ⟨t, v, i⟩ :: s.refs }.goto t (.mounting v i))
  | .mounting v i =>
    some ({ s with records := s.records.stamp i now, nbd := Function.update s.nbd i (some v) }.goto t .idle)
  | .seeking v m =>
    if s.lk = none then
      let m := s.records.victimPass now m
      -- A thread with no luck gives `lk` up again before it sleeps.
      if m.1 < 10000 then some (s.goto t (.seeking v m)) else some ({ s with lk := some t }.goto t (.unmounting v m.2))
    else none
  | .unmounting v i => some ({ s with nbd := Function.update s.nbd i none }.goto t (.reassigning v i))
  | .reassigning v i =>
    some ({ s with records := s.records.reassign i v, refs := ⟨t, v, i⟩ :: s.refs }.goto t (.remounting v i))
  | .remounting v i =>
    some ({ s with
      records := s.records.stamp i now
      nbd := Function.update s.nbd i (some v)
      lk := none }.goto t .idle)

def smStep (s : SmState T) : SmLabel T → Option (SmState T)
  | .request t v => if s.pc t = .idle then some (s.goto t (.lookup v)) else none
  | .step t now => smNext s t now (s.pc t)
  | .release t v i =>
    if s.pc t = .idle ∧ ⟨t, v, i⟩ ∈ s.refs ∧ s.records.canRelease i = true then
      some { s with records := s.records.release i, refs := s.refs.erase ⟨t, v, i⟩ }
    else none

/-- Any step, or a release of any index by a thread with no request to match it. -/
inductive ApiLabel (T : Type)
  | sm (l : SmLabel T)
  | stray (t : T) (i : Slot)
  deriving DecidableEq, Repr

def apiStep (s : SmState T) : ApiLabel T → Option (SmState T)
  | .sm l => smStep s l
  | .stray t i =>
    if s.pc t = .idle ∧ s.records.canRelease i = true then some { s with records := s.records.release i } else none

/-- The VM and the index with which a step returns from `request_mount`, if it does. -/
def smReturns (s : SmState T) : SmLabel T → Option (Vmi × Slot)
  | .step t _ =>
    match s.pc t with
    | .lookup v => (s.records.lookup v).map (fun i => (v, i))
    | .mounting v i | .remounting v i => some (v, i)
    | .idle | .claiming _ _ | .seeking _ _ | .unmounting _ _ | .reassigning _ _ => none
  | .request _ _ | .release _ _ _ => none

def apiReturns (s : SmState T) : ApiLabel T → Option (Vmi × Slot)
  | .sm l => smReturns s l
  | .stray _ _ => none

/-! ## What one step does -/

/-- The ways a step goes, with what it found. -/
inductive SmCase (s : SmState T) : SmLabel T → SmState T → Prop
  | request (t : T) (v : Vmi) : s.pc t = .idle → SmCase s (.request t v) (s.goto t (.lookup v))
  | hit (t : T) (now : Timeval) (v : Vmi) (i : Slot) : s.pc t = .lookup v → s.records.lookup v = some i →
      s.records.canRemount i = true → SmCase s (.step t now)
        ({ s with records := s.records.remount i now, refs := ⟨t, v, i⟩ :: s.refs }.goto t .idle)
  | miss (t : T) (now : Timeval) (v : Vmi) : s.pc t = .lookup v → s.records.lookup v = none →
      SmCase s (.step t now) (s.goto t (.claiming v 0))
  | taken (t : T) (now : Timeval) (v : Vmi) (i : Slot) : s.pc t = .claiming v i → (s.records i).l = true →
      SmCase s (.step t now) (s.goto t (.afterTaken v i))
  | claim (t : T) (now : Timeval) (v : Vmi) (i : Slot) : s.pc t = .claiming v i → (s.records i).l = false →
      SmCase s (.step t now)
        ({ s with records := s.records.claim i v, refs := ⟨t, v, i⟩ :: s.refs }.goto t (.mounting v i))
  | mount (t : T) (now : Timeval) (v : Vmi) (i : Slot) : s.pc t = .mounting v i →
      SmCase s (.step t now)
        ({ s with records := s.records.stamp i now, nbd := Function.update s.nbd i (some v) }.goto t .idle)
  | unlucky (t : T) (now : Timeval) (v : Vmi) (m : Int × Slot) : s.pc t = .seeking v m → s.lk = none →
      (s.records.victimPass now m).1 < 10000 →
      SmCase s (.step t now) (s.goto t (.seeking v (s.records.victimPass now m)))
  | pick (t : T) (now : Timeval) (v : Vmi) (m : Int × Slot) : s.pc t = .seeking v m → s.lk = none →
      ¬ (s.records.victimPass now m).1 < 10000 →
      SmCase s (.step t now) ({ s with lk := some t }.goto t (.unmounting v (s.records.victimPass now m).2))
  | unmount (t : T) (now : Timeval) (v : Vmi) (i : Slot) : s.pc t = .unmounting v i →
      SmCase s (.step t now) ({ s with nbd := Function.update s.nbd i none }.goto t (.reassigning v i))
  | reassign (t : T) (now : Timeval) (v : Vmi) (i : Slot) : s.pc t = .reassigning v i →
      SmCase s (.step t now)
        ({ s with records := s.records.reassign i v, refs := ⟨t, v, i⟩ :: s.refs }.goto t (.remounting v i))
  | remount (t : T) (now : Timeval) (v : Vmi) (i : Slot) : s.pc t = .remounting v i →
      SmCase s (.step t now) ({ s with
        records := s.records.stamp i now
        nbd := Function.update s.nbd i (some v)
        lk := none }.goto t .idle)
  | release (t : T) (v : Vmi) (i : Slot) : s.pc t = .idle → ⟨t, v, i⟩ ∈ s.refs →
      s.records.canRelease i = true →
      SmCase s (.release t v i) { s with records := s.records.release i, refs := s.refs.erase ⟨t, v, i⟩ }

theorem smStep_cases {s s' : SmState T} {l : SmLabel T} (h : smStep s l = some s') : SmCase s l s' := by
  cases l with
  | request t v =>
    simp only [smStep] at h
    split at h
    · cases h
      exact .request t v ‹_›
    · cases h
  | release t v i =>
    simp only [smStep] at h
    split at h
    · rename_i hc
      cases h
      exact .release t v i hc.1 hc.2.1 hc.2.2
    · cases h
  | step t now =>
    change smNext s t now (s.pc t) = some s' at h
    cases hpc : s.pc t with
    | idle =>
      rw [hpc] at h
      cases h
    | lookup v =>
      rw [hpc] at h
      simp only [smNext] at h
      split at h
      · split at h
        · cases h
          exact .hit t now v _ hpc ‹_› ‹_›
        · cases h
      · cases h
        exact .miss t now v hpc ‹_›
    | claiming v i =>
      rw [hpc] at h
      simp only [smNext] at h
      split at h
      · cases h
        exact .taken t now v i hpc ‹_›
      · rename_i hl
        cases h
        exact .claim t now v i hpc (Bool.eq_false_iff.2 hl)
    | mounting v i =>
      rw [hpc] at h
      cases h
      exact .mount t now v i hpc
    | seeking v m =>
      rw [hpc] at h
      simp only [smNext] at h
      split at h
      · split at h
        · cases h
          exact .unlucky t now v m hpc ‹_› ‹_›
        · cases h
          exact .pick t now v m hpc ‹_› ‹_›
      · cases h
    | unmounting v i =>
      rw [hpc] at h
      cases h
      exact .unmount t now v i hpc
    | reassigning v i =>
      rw [hpc] at h
      cases h
      exact .reassign t now v i hpc
    | remounting v i =>
      rw [hpc] at h
      cases h
      exact .remount t now v i hpc

/-- A step returns from `request_mount` exactly when its thread is idle after it. -/
theorem smReturns_iff {s s' : SmState T} {t : T} {now : Timeval} (hs : smStep s (.step t now) = some s') :
    (∃ v i, smReturns s (.step t now) = some (v, i)) ↔ s'.pc t = .idle := by
  have hself : ∀ (s : SmState T) p, (s.goto t p).pc t = p := fun s p => Function.update_self _ _ _
  unfold smReturns
  cases smStep_cases hs with
  | hit t now v i hpc hl hcan => exact iff_of_true ⟨v, i, by simp only [hpc, hl]; rfl⟩ (hself _ _)
  | miss t now v hpc hl => exact iff_of_false (by simp [hpc, hl]) (by rw [hself]; exact nofun)
  | taken t now v i hpc hl =>
    apply iff_of_false (by simp [hpc])
    rw [hself, Pc.afterTaken]
    split <;> exact nofun
  | claim t now v i hpc hl => exact iff_of_false (by simp [hpc]) (by rw [hself]; exact nofun)
  | mount t now v i hpc => exact iff_of_true ⟨v, i, by simp only [hpc]⟩ (hself _ _)
  | unlucky t now v m hpc hlk hshort => exact iff_of_false (by simp [hpc]) (by rw [hself]; exact nofun)
  | pick t now v m hpc hlk hlong => exact iff_of_false (by simp [hpc]) (by rw [hself]; exact nofun)
  | unmount t now v i hpc => exact iff_of_false (by simp [hpc]) (by rw [hself]; exact nofun)
  | reassign t now v i hpc => exact iff_of_false (by simp [hpc]) (by rw [hself]; exact nofun)
  | remount t now v i hpc => exact iff_of_true ⟨v, i, by simp only [hpc]⟩ (hself _ _)

theorem apiStep_stray {s s' : SmState T} {t : T} {i : Slot} (h : apiStep s (.stray t i) = some s') :
    s.pc t = .idle ∧ s' = { s with records := s.records.release i } := by
  simp only [apiStep] at h
  split at h
  · rename_i hc
    cases h
    exact ⟨hc.1, rfl⟩
  · cases h

end

end Hyperagents
