import Hyperagents.SlotAccounting
import Hyperagents.VictimSearch
/-!
# Room for sixteen

A mount whose agent has no slot waits for one that is out of use and idle, at every clock reading until then
(`requestMount_spinning`).  In an orderly run the slots in use are those of the agents with mounts outstanding, one for
each, so at most sixteen agents have any, and a mount waits whatever the clock says exactly when sixteen others do
(`mount_waits_iff`).  The thread that waits is the one that would unmount.
-/
namespace Hyperagents

open Runs

section

variable {δ : Type} {shell : Shell δ} {env : MountEnv} {v : Vmi} {disk dev : String} {s : HaState δ}

theorem stealLoop_none (cs : List Timeval) (s : HaState δ) (m : Int × Slot) (hm : m.1 < 10000) :
    stealLoop s cs m = none ↔ ∀ c ∈ cs, ¬ s.records.Ripe c := by
  induction cs generalizing s m with
  | nil => exact iff_of_true rfl (List.forall_mem_nil _)
  | cons c cs ih =>
    have hlong := @Records.victimPass_long_iff s.records c m hm
    unfold stealLoop
    dsimp only
    change (if (s.records.victimPass c m).1 < 10000 then _ else _) = none ↔ _
    by_cases hshort : (s.records.victimPass c m).1 < 10000
    · have hrest := ih (((s.emit .lockLk).emit .unlockLk).emit (.sleep 1000)) (s.records.victimPass c m) hshort
      rw [if_pos hshort, List.forall_mem_cons]
      exact hrest.trans (and_iff_right fun hripe => hlong.2 hripe hshort).symm
    · rw [if_neg hshort]
      exact iff_of_false (Option.some_ne_none _) fun h => h c List.mem_cons_self (hlong.1 hshort)

theorem doNbdMount_ne_spinning : doNbdMount shell env dev v disk s ≠ .error .spinning := by
  unfold doNbdMount
  dsimp only
  intro h
  split at h
  · cases h
  · split at h <;> cases h

/-- **A request waits** past the last clock reading exactly where its VM has no slot, none is free, and none is out of
use for ten seconds at any of the readings. -/
theorem requestMount_spinning : requestMount shell env v disk s = .error .spinning ↔
    s.records.lookup v = none ∧ s.records.firstFree = none ∧ ∀ c ∈ env.clocks, ¬ s.records.Ripe c := by
  have hsteal : stealLoop (s.vmi v .getName) env.clocks (0, 0) = none ↔ ∀ c ∈ env.clocks, ¬ s.records.Ripe c :=
    stealLoop_none env.clocks (s.vmi v .getName) (0, 0) (by decide)
  unfold requestMount
  cases hl : s.records.lookup v with
  | some i =>
    refine iff_of_false (fun h => ?_) fun h => by cases h.1
    dsimp only at h
    split at h <;> cases h
  | none =>
    cases hf : s.records.firstFree with
    | some i =>
      refine iff_of_false (fun h => ?_) fun h => by cases h.2.1
      exact doNbdMount_ne_spinning (error_of_bind h fun _ e => by cases e)
    | none =>
      dsimp only
      rw [← hsteal]
      cases hfound : stealLoop (s.vmi v .getName) env.clocks (0, 0) with
      | none => exact iff_of_true rfl ⟨rfl, rfl, rfl⟩
      | some found =>
        refine iff_of_false (fun h => ?_) fun h => by cases h.2.2
        exact doNbdMount_ne_spinning (error_of_bind h fun _ e => by cases e)

end

/-! ## Which slots are in use -/

section

variable {δ : Type} {shell : Shell δ} {ops : List HaOp} {s : HaState δ} {n : String} {ha : HAConfig}

/-- The agents with mounts outstanding are as many as their handles. -/
theorem Accounts.ncard_out (h : Accounts ops s) :
    Set.ncard {k | 0 < out ops k} = Set.ncard {v | 0 < s.outOf (out ops) v} := by
  have hagent : ∀ k, 0 < out ops k → ∃ ha, s.agents k = some ha := fun k hk => by
    obtain ⟨ha, -, hk, -⟩ := h.owned hk
    exact ⟨ha, hk⟩
  refine Set.ncard_congr (fun k hk => (hagent k hk).choose.vmi) (fun k hk => ?_) (fun k k' hk hk' heq => ?_)
    fun v hv => ?_
  · show 0 < s.outOf (out ops) (hagent k hk).choose.vmi
    unfold HaState.outOf
    rw [h.handle k _ (hagent k hk).choose_spec]
    exact hk
  · exact h.vmi_inj (hagent k' hk').choose_spec (hagent k hk).choose_spec heq
  · change 0 < s.outOf (out ops) v at hv
    unfold HaState.outOf at hv
    cases hk : s.handles v with
    | none =>
      rw [hk] at hv
      exact absurd hv (Int.lt_irrefl 0)
    | some k =>
      rw [hk] at hv
      obtain ⟨ha, hka, hav⟩ := h.agent k v hk
      refine ⟨k, hv, ?_⟩
      rw [← hav, Option.some.inj ((hagent k hv).choose_spec.symm.trans hka)]

theorem Accounts.ncard_le (h : Accounts ops s) : Set.ncard {k | 0 < out ops k} ≤ DEVMAX := by
  rw [h.ncard_out]
  exact h.sound.ncard_busy_le.trans_eq (Nat.card_fin DEVMAX)

theorem Accounts.ncard_eq_iff (h : Accounts ops s) :
    Set.ncard {k | 0 < out ops k} = DEVMAX ↔ ∀ i, 0 < s.records.refcount i := by
  rw [h.ncard_out, ← h.sound.ncard_busy_eq_iff, Nat.card_fin]

/-- With every slot in use, an agent that owns one has mounts outstanding. -/
theorem Accounts.no_slot (h : Accounts ops s) (hn : s.agents n = some ha) (hfull : ∀ i, 0 < s.records.refcount i) :
    s.records.lookup ha.vmi = none ↔ out ops n = 0 := by
  have hout : s.outOf (out ops) ha.vmi = out ops n := by
    unfold HaState.outOf
    rw [h.handle n ha hn]
    rfl
  rw [Records.lookup_none]
  constructor
  · intro hnone
    rw [← hout]
    exact h.sound.out_eq_zero hnone
  · intro h0 i hi
    have hcount := h.sound.count_of_owner hi
    have hpos := hfull i
    omega

/-- The reading of the clock at which a slot has been idle for ten seconds. -/
theorem ripe_later {rs : Records} {i : Slot} (hi : rs.refcount i = 0) :
    rs.Ripe ⟨(rs i).lastUsed.sec + 10, (rs i).lastUsed.usec⟩ := by
  refine ⟨i, hi, ?_⟩
  unfold Records.idle timevalDiff
  dsimp only
  rw [Int.sub_self, Int.zero_tdiv]
  omega

theorem mountDisk_spinning {env : MountEnv} (hn : s.agents n = some ha) :
    mountDisk shell n env s = .error .spinning ↔ requestMount shell env ha.vmi ha.diskPath s = .error .spinning := by
  unfold mountDisk
  rw [hn]
  dsimp only
  cases requestMount shell env ha.vmi ha.diskPath s with
  | error e =>
    constructor <;> intro h <;> cases h <;> rfl
  | ok p => exact iff_of_false nofun nofun

/-- **Room for sixteen**: after an orderly run at most sixteen agents have mounts outstanding, and a mount waits for
ever, whatever the clock says, exactly when sixteen agents other than its own do. -/
theorem mount_waits_iff (shell : Shell δ) (mountPath ghostImage : String) (clock : Slot → Timeval) (g : Globals)
    (guests : String → Guest) (host : δ) (ops : List HaOp) (s : HaState δ) (hord : Orderly ops)
    (hrun : Run (stepOf (haStep shell)) (HaState.init mountPath ghostImage clock g guests host) ops s) (n : String)
    (ha : HAConfig) (hn : s.agents n = some ha) :
    Set.ncard {k | 0 < out ops k} ≤ 16 ∧
      ((∀ env, mountDisk shell n env s = .error .spinning) ↔ out ops n = 0 ∧ Set.ncard {k | 0 < out ops k} = 16) := by
  have hacc := accounts_run hord hrun
  refine ⟨hacc.ncard_le, ?_⟩
  rw [hacc.ncard_eq_iff]
  constructor
  · intro hwaits
    have hspin : ∀ env, _ := fun env => requestMount_spinning.1 ((mountDisk_spinning hn).1 (hwaits env))
    have hfull : ∀ i, 0 < s.records.refcount i := by
      intro i
      by_contra hidle
      have hnonneg : 0 ≤ s.records.refcount i := by
        rw [hacc.sound.count]
        cases s.records.owner i with
        | none => exact Int.le_refl 0
        | some v => exact hacc.sound.nonneg v
      -- At a later reading the slot is ripe, and the mount goes on.
      have hzero : s.records.refcount i = 0 := by omega
      have hripe := (hspin { quietMount 0 with
        clocks := [⟨(s.records i).lastUsed.sec + 10, (s.records i).lastUsed.usec⟩] }).2.2
      exact hripe _ List.mem_cons_self (ripe_later hzero)
    exact ⟨(hacc.no_slot hn hfull).1 (hspin (quietMount 0)).1, hfull⟩
  · rintro ⟨h0, hfull⟩ env
    rw [mountDisk_spinning hn, requestMount_spinning]
    refine ⟨(hacc.no_slot hn hfull).2 h0, ?_, ?_⟩
    · rw [Records.firstFree_none]
      intro i
      rw [hacc.locked]
      intro hnone
      have hcount := hacc.sound.count_of_none hnone
      have hpos := hfull i
      omega
    · rintro c - ⟨i, hi, -⟩
      have hpos := hfull i
      omega

/-- Sixteen agents mount their disks, and one more registers. -/
def sixteenMounts : List HaOp :=
  (List.range 16).flatMap (fun i => [.addAgent (toString i) "p" "d" true 0, .mountDisk (toString i) (quietMount 1)]) ++
    [.addAgent "late" "p" "d" true 0]

theorem mount_waits_iff_full : ∃ s, Run (stepOf (haStep idleShell)) (.small ()) sixteenMounts s ∧
    ∀ env, mountDisk idleShell "late" env s = .error .spinning := by
  have hfull : ((exec (haStep idleShell) (.small ()) sixteenMounts).map fun s =>
      ((s.agents "late").isSome, decide (∀ i, 0 < s.records.refcount i))) = some (true, true) := by decide +kernel
  obtain ⟨s, hs, heq⟩ := Option.map_eq_some_iff.1 hfull
  obtain ⟨hlate, hcounts⟩ := Prod.mk.inj heq
  obtain ⟨ha, hn⟩ := Option.isSome_iff_exists.1 hlate
  have hord : Orderly sixteenMounts := by decide +kernel
  have hrun := run_of_exec hs
  have hacc : Accounts sixteenMounts s := accounts_run hord hrun
  have hbusy := hacc.ncard_eq_iff.2 (of_decide_eq_true hcounts)
  exact ⟨s, hrun, (mount_waits_iff idleShell _ _ _ _ _ _ sixteenMounts s hord hrun "late" ha hn).2.2
    ⟨by decide +kernel, hbusy⟩⟩

end

end Hyperagents
