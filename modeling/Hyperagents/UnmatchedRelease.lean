import Hyperagents.SlotAccounting
/-!
# Unmatched releases

`unmount_disk` goes by the agent's `mountdev` alone: whether the agent has a mount it looks at nowhere.  So an unmatched
one is never without effect (`unmountDisk_not_alone`): where the slot has an owner, that owner's guest is resumed and
its count goes down.  Counts stay at zero or above exactly while every unmount finds its slot in use
(`nonneg_iff_releases_used`), and for that it is enough that none is unmatched.
-/
namespace Hyperagents

open Runs

variable {δ : Type} {shell : Shell δ}

/-- A call counted in: an unmount without a mount outstanding leaves none outstanding. -/
def countOutstanding (n : String) (k : Nat) (op : HaOp) : Nat :=
  if op.mounts n then k + 1 else if op.unmounts n then k - 1 else k

/-- The mounts of a name not unmounted since. -/
def outstanding (ops : List HaOp) (n : String) : Nat := ops.foldl (countOutstanding n) 0

/-- An unmount that leaves every record, and every guest running or paused, as it was. -/
def LeavesAlone (n : String) (s : HaState δ) : Prop :=
  ∃ s', unmountDisk n s = .ok s' ∧ s'.records = s.records ∧ ∀ k, (s'.guests k).paused = (s.guests k).paused

/-- An unmount with nothing outstanding leaves all as it was. -/
def HarmlessStep (p : List HaOp) (s : HaState δ) : HaOp → Prop
  | .unmountDisk n => outstanding p n = 0 → LeavesAlone n s
  | .addAgent _ _ _ _ _ | .mountDisk _ _ => True

def NonNeg (_ : List HaOp) (s : HaState δ) : Prop := ∀ i, 0 ≤ s.records.refcount i

/-- The slot in the agent's `mountdev` is in use. -/
def ReleasesUsed (_ : List HaOp) (s : HaState δ) : HaOp → Prop
  | .unmountDisk n => ∀ ha i, s.agents n = some ha → ((i : Slot).val : Int) = ha.mountdev → 0 < s.records.refcount i
  | .addAgent _ _ _ _ _ | .mountDisk _ _ => True

def RegistersNew (p : List HaOp) : HaOp → Prop
  | .addAgent n _ _ _ _ => ∀ op ∈ p, op.adds n = false
  | .mountDisk _ _ | .unmountDisk _ => True

/-- An unmount is of a mount outstanding. -/
def WithMount (p : List HaOp) : HaOp → Prop
  | .unmountDisk n => 0 < outstanding p n
  | .addAgent _ _ _ _ _ | .mountDisk _ _ => True

instance (p : List HaOp) : (op : HaOp) → Decidable (RegistersNew p op)
  | .addAgent n _ _ _ _ => inferInstanceAs (Decidable (∀ op ∈ p, op.adds n = false))
  | .mountDisk _ _ | .unmountDisk _ => inferInstanceAs (Decidable True)

instance (p : List HaOp) : (op : HaOp) → Decidable (WithMount p op)
  | .unmountDisk n => inferInstanceAs (Decidable (0 < outstanding p n))
  | .addAgent _ _ _ _ _ | .mountDisk _ _ => inferInstanceAs (Decidable True)

def RegisteredOnce (ops : List HaOp) : Prop := ∀ p op, p ++ [op] <+: ops → RegistersNew p op

def NoneUnmatched (ops : List HaOp) : Prop := ∀ p op, p ++ [op] <+: ops → WithMount p op

instance (ops : List HaOp) : Decidable (RegisteredOnce ops) := decidable_of_iff _ forall_prefix_iff.symm

instance (ops : List HaOp) : Decidable (NoneUnmatched ops) := decidable_of_iff _ forall_prefix_iff.symm

variable {ops : List HaOp} {s s' s₀ : HaState δ} {n : String}

/-! ## Counting -/

theorem outstanding_snoc (ops : List HaOp) (op : HaOp) (n : String) :
    outstanding (ops ++ [op]) n = countOutstanding n (outstanding ops n) op := by
  unfold outstanding
  rw [List.foldl_append]
  rfl

theorem NoneUnmatched.of_prefix {p : List HaOp} (h : NoneUnmatched ops) (hp : p <+: ops) : NoneUnmatched p :=
  fun q op hq => h q op (hq.trans hp)

/-- **With none unmatched, what is outstanding is the mounts less the unmounts.** -/
theorem NoneUnmatched.outstanding_eq_out (h : NoneUnmatched ops) (n : String) :
    (outstanding ops n : Int) = out ops n := by
  induction ops using List.reverseRecOn with
  | nil => rfl
  | append_singleton ops op ih =>
    have ih := ih (h.of_prefix (List.prefix_append _ _))
    have hop : WithMount ops op := h ops op List.prefix_rfl
    rw [outstanding_snoc]
    unfold countOutstanding
    cases op with
    | addAgent m r d ok i =>
      rw [out_addAgent, ← ih]
      rfl
    | mountDisk m env =>
      rw [out_mountDisk]
      by_cases hm : m = n
      · subst hm
        simp only [HaOp.mounts, beq_self_eq_true, if_true, Function.update_self]
        omega
      · simp [HaOp.mounts, HaOp.unmounts, hm, Function.update_of_ne (Ne.symm hm), ih]
    | unmountDisk m =>
      rw [out_unmountDisk]
      by_cases hm : m = n
      · subst hm
        have hpos : 0 < outstanding ops m := hop
        simp only [HaOp.mounts, HaOp.unmounts, beq_self_eq_true, Bool.false_eq_true, if_true, if_false,
          Function.update_self]
        omega
      · simp [HaOp.mounts, HaOp.unmounts, hm, Function.update_of_ne (Ne.symm hm), ih]

theorem NoneUnmatched.orderly (h : NoneUnmatched ops) (honce : RegisteredOnce ops) : Orderly ops := by
  intro p op hp
  cases op with
  | addAgent n r d ok m => exact honce p _ hp
  | mountDisk n env => trivial
  | unmountDisk n =>
    have hpos : 0 < outstanding p n := h p _ hp
    have heq := (h.of_prefix ((List.prefix_append _ _).trans hp)).outstanding_eq_out n
    show 0 < out p n
    omega

/-! ## One call -/

/-- **No unmount leaves all as it was**: one that returns has counted a record down. -/
theorem unmountDisk_not_alone (n : String) (s : HaState δ) : ¬ LeavesAlone n s := by
  rintro ⟨s', hs, hrecords, -⟩
  obtain ⟨ha, i, v, hu⟩ := unmountDisk_ok hs
  have hcount := congrArg (Records.refcount · i) hrecords
  rw [hu.records] at hcount
  change (s.records.release i).refcount i = s.records.refcount i at hcount
  rw [Records.refcount_release, Function.update_self] at hcount
  omega

theorem nonneg_update_iff {count : Slot → Int} (h : ∀ j, 0 ≤ count j) (i : Slot) (x : Int) :
    (∀ j, 0 ≤ Function.update count i x j) ↔ 0 ≤ x := by
  rw [Function.forall_update_iff count (p := fun _ y => 0 ≤ y)]
  exact and_iff_left fun j _ => h j

theorem RecordsAfter.nonneg {rs rs' : Records} {v : Vmi} {i : Slot} (hr : RecordsAfter rs v i rs')
    (h : ∀ j, 0 ≤ rs.refcount j) : ∀ j, 0 ≤ rs'.refcount j := by
  cases hr with
  | remount ho howner hcount hlocks =>
    have hi := h i
    rw [hcount, nonneg_update_iff h]
    omega
  | grant hnew hfree howner hcount hlocks =>
    rw [hcount, nonneg_update_iff h]
    decide

theorem Unmounted.used_iff {ha : HAConfig} {i : Slot} {v : Vmi} (hu : Unmounted n ha i v s s') :
    ReleasesUsed ops s (.unmountDisk n) ↔ 0 < s.records.refcount i := by
  constructor
  · exact fun h => h ha i hu.agent hu.slot
  · intro h ha' j hn hdev
    cases hu.agent.symm.trans hn
    obtain rfl : j = i := Fin.ext (Int.ofNat.inj (hdev.trans hu.slot.symm))
    exact h

/-- **A call keeps the counts at zero or above** exactly where an unmount finds its slot in use. -/
theorem nonneg_step_iff {op : HaOp} (h : NonNeg ops s) (hs : haStep shell s op = some s') :
    NonNeg (ops ++ [op]) s' ↔ ReleasesUsed ops s op := by
  unfold NonNeg
  cases op with
  | addAgent n r d ok m =>
    refine iff_of_true ?_ trivial
    rw [(haStep_addAgent hs).records]
    exact h
  | mountDisk n env =>
    obtain ⟨ha, i, s₁, -, hpath, rfl⟩ := haStep_mountDisk hs
    exact iff_of_true (hpath.records.nonneg h) trivial
  | unmountDisk n =>
    obtain ⟨ha, i, v, hu⟩ := haStep_unmountDisk hs
    rw [hu.records, Records.refcount_release, nonneg_update_iff h, hu.used_iff]
    omega

/-! ## Runs -/

section

variable {mountPath ghostImage : String} {clock : Slot → Timeval} {g : Globals} {guests : String → Guest} {host : δ}

theorem nonneg_init : NonNeg [] (HaState.init mountPath ghostImage clock g guests host) := fun _ => Int.le_refl 0

/-- **No count goes below zero in a run exactly while every unmount finds its slot in use.** -/
theorem nonneg_iff_releases_used
    (hrun : Run (stepOf (haStep shell)) (HaState.init mountPath ghostImage clock g guests host) ops s) :
    Throughout (stepOf (haStep shell)) (HaState.init mountPath ghostImage clock g guests host) NonNeg ops ↔
      EachStep (stepOf (haStep shell)) (HaState.init mountPath ghostImage clock g guests host) ReleasesUsed ops :=
  throughout_iff_eachStep (I := fun _ _ => True) (D := fun _ _ => True) trivial nonneg_init
    (fun _ _ _ _ _ _ _ _ => trivial) (fun _ _ _ _ _ h _ hs => nonneg_step_iff h hs) (fun _ _ _ => trivial) hrun

/-- **Without unmatched unmounts no count goes below zero.** -/
theorem NoneUnmatched.nonneg (h : NoneUnmatched ops) (honce : RegisteredOnce ops) :
    Throughout (stepOf (haStep shell)) (HaState.init mountPath ghostImage clock g guests host) NonNeg ops := by
  intro p t hp hr i
  have horderly : Orderly ops := h.orderly honce
  have hacc : Accounts p t := accounts_run (horderly.of_prefix hp) hr
  have hsound := hacc.sound
  cases howner : t.records.owner i with
  | none => exact Int.le_of_eq (hsound.count_of_none howner).symm
  | some v =>
    rw [hsound.count_of_owner howner]
    exact hsound.nonneg v

/-- An unmatched unmount in a run is not harmless. -/
theorem noneUnmatched_of_harmless (hrun : Run (stepOf (haStep shell)) s₀ ops s)
    (h : EachStep (stepOf (haStep shell)) s₀ HarmlessStep ops) : NoneUnmatched ops := by
  intro p op hp
  obtain ⟨t, t', ht, hs⟩ := hrun.step_of_prefix hp
  have hop : HarmlessStep p t op := h p op t hp ht
  cases op with
  | addAgent n r d ok m => trivial
  | mountDisk n env => trivial
  | unmountDisk n =>
    by_contra hnone
    exact unmountDisk_not_alone n t (hop (Nat.eq_zero_of_not_pos hnone))

end

/-- What unmatched unmounts do: none leaves all as it was, so a run is free of their effects, and its counts stay at
zero or above, exactly when it has none; the counts alone stay there while every unmount finds its slot in use. -/
structure UnmatchedReleases (shell : Shell δ) (s₀ : HaState δ) (ops : List HaOp) (s : HaState δ) : Prop where
  never : ∀ n, outstanding ops n = 0 → ¬ LeavesAlone n s
  run : EachStep (stepOf (haStep shell)) s₀ HarmlessStep ops ∧ Throughout (stepOf (haStep shell)) s₀ NonNeg ops ↔
    NoneUnmatched ops
  counts : Throughout (stepOf (haStep shell)) s₀ NonNeg ops ↔ EachStep (stepOf (haStep shell)) s₀ ReleasesUsed ops

theorem unmatched_releases (shell : Shell δ) (mountPath ghostImage : String) (clock : Slot → Timeval) (g : Globals)
    (guests : String → Guest) (host : δ) (ops : List HaOp) (s : HaState δ) (honce : RegisteredOnce ops)
    (hrun : Run (stepOf (haStep shell)) (HaState.init mountPath ghostImage clock g guests host) ops s) :
    UnmatchedReleases shell (HaState.init mountPath ghostImage clock g guests host) ops s := by
  refine ⟨fun n _ => unmountDisk_not_alone n s, ?_, nonneg_iff_releases_used hrun⟩
  constructor
  · exact fun h => noneUnmatched_of_harmless hrun h.1
  · intro h
    refine ⟨fun p op t hp _ => ?_, h.nonneg honce⟩
    cases op with
    | addAgent n r d ok m => trivial
    | mountDisk n env => trivial
    | unmountDisk n =>
      intro hnone
      have hpos : 0 < outstanding p n := h p _ hp
      omega

def mountedAndReleased : List HaOp :=
  [.addAgent "a" "p" "d" true 0, .mountDisk "a" (quietMount 1), .unmountDisk "a"]

theorem unmatched_releases_once : ∃ s, Run (stepOf (haStep idleShell)) (.small ()) mountedAndReleased s ∧
    UnmatchedReleases idleShell (.small ()) mountedAndReleased s := by
  obtain ⟨s, hrun⟩ := exists_run (show (exec (haStep idleShell) (.small ()) mountedAndReleased).isSome = true by decide)
  exact ⟨s, hrun, unmatched_releases idleShell _ _ _ _ _ _ mountedAndReleased s (by decide) hrun⟩

/-- **Released twice**: with nothing outstanding the second unmount leaves the slot a count of -1. -/
theorem released_twice : ∃ s s', Run (stepOf (haStep idleShell)) (.small ()) mountedAndReleased s ∧
    outstanding mountedAndReleased "a" = 0 ∧ unmountDisk "a" s = .ok s' ∧ s.records.refcount 0 = 0 ∧
      s'.records.refcount 0 = -1 := by
  obtain ⟨s, hs, hfound⟩ := Option.map_eq_some_iff.1 (show (exec (haStep idleShell) (.small ())
    mountedAndReleased).map (fun s => (s.records.refcount 0, ((unmountDisk "a" s).toOption.map
      fun s' => s'.records.refcount 0))) = some (0, some (-1)) by decide)
  simp only [Prod.mk.injEq] at hfound
  obtain ⟨s', hs', hcount⟩ := Option.map_eq_some_iff.1 hfound.2
  exact ⟨s, s', run_of_exec hs, by decide, toOption_eq_some.1 hs', hfound.1, hcount⟩

end Hyperagents
