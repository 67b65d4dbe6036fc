import Hyperagents.SlotAccounting
/-!
# Registering a name again

`add_agent` replaces the entry of a name without a look at the slots.  A slot in use is released by way of the agent
that mounted it (`Releasable`), by the handle and the `mountdev` it has; after its name is registered again there is no
such agent.  So all slots in use stay releasable exactly while no name is registered whose agent has one
(`re_registering`).
-/
namespace Hyperagents

open Runs

variable {δ : Type} {shell : Shell δ}

/-- Every slot in use is of an agent that has it in `mountdev`. -/
def Releasable (s : HaState δ) : Prop := ∀ i, 0 < s.records.refcount i →
  ∃ n ha, s.agents n = some ha ∧ s.records.owner i = some ha.vmi ∧ ha.mountdev = i.val

/-- The agent replaced, if any, has no slot in use. -/
def RegistersIdle (_ : List HaOp) (s : HaState δ) : HaOp → Prop
  | .addAgent n _ _ _ _ => ∀ ha i, s.agents n = some ha → s.records.owner i = some ha.vmi → ¬ 0 < s.records.refcount i
  | .mountDisk _ _ | .unmountDisk _ => True

/-- A name is unmounted only with a mount outstanding, and registered any number of times. -/
def MatchedStep (p : List HaOp) : HaOp → Prop
  | .addAgent _ _ _ _ _ | .mountDisk _ _ => True
  | .unmountDisk n => 0 < out p n

def Matched (ops : List HaOp) : Prop := ∀ p op, p ++ [op] <+: ops → MatchedStep p op

instance (p : List HaOp) : (op : HaOp) → Decidable (MatchedStep p op)
  | .addAgent _ _ _ _ _ | .mountDisk _ _ => inferInstanceAs (Decidable True)
  | .unmountDisk n => inferInstanceAs (Decidable (0 < out p n))

instance (ops : List HaOp) : Decidable (Matched ops) := decidable_of_iff _ forall_prefix_iff.symm

variable {ops : List HaOp} {s s' : HaState δ} {n : String}

theorem Leased.releasable {o : String → Int} (h : Leased o s) : Releasable s := fun _ hi => h.owner_of_used hi

/-! ## One call -/

/-- **A registration keeps the slots releasable exactly where it replaces no agent with one in use.** -/
theorem Handled.releasable_added_iff {r d : String} {m : Int} (h : Handled s) (hr : Releasable s)
    (hs : Added n r d m s s') : Releasable s' ↔
      ∀ ha i, s.agents n = some ha → s.records.owner i = some ha.vmi → ¬ 0 < s.records.refcount i := by
  unfold Releasable
  rw [hs.records]
  constructor
  · intro hr' ha i hn howner hused
    obtain ⟨k, ha', hk, howner', -⟩ := hr' i hused
    have hvmi : ha'.vmi = ha.vmi := Option.some.inj (howner'.symm.trans howner)
    rcases hs.agents_cases hk with ⟨-, rfl⟩ | ⟨hkn, hk⟩
    · -- No slot has the new handle.
      exact (h.fresh s.nextVmi (Nat.le_refl _)).2 i howner'
    · exact hkn (h.vmi_inj hn hk hvmi)
  · intro hidle i hused
    obtain ⟨k, ha, hk, howner, hdev⟩ := hr i hused
    have hkn : k ≠ n := fun e => by
      rw [e] at hk
      exact hidle ha i hk howner hused
    refine ⟨k, ha, ?_, howner, hdev⟩
    rw [hs.agents, Function.update_of_ne hkn]
    exact hk

theorem Leased.out_of_idle {o : String → Int} (h : Leased o s)
    (hidle : ∀ ha i, s.agents n = some ha → s.records.owner i = some ha.vmi → ¬ 0 < s.records.refcount i) :
    o n = 0 := by
  have hnonneg := h.out_nonneg n
  by_contra hne
  obtain ⟨ha, i, hn, -, howner, hcount, -⟩ := h.owned (n := n) (by omega)
  exact hidle ha i hn howner (by omega)

theorem Leased.step {op : HaOp} (h : Leased (out ops) s) (hm : MatchedStep ops op) (hidle : RegistersIdle ops s op)
    (hs : haStep shell s op = some s') : Leased (out (ops ++ [op])) s' := by
  cases op with
  | addAgent n r d ok m =>
    rw [out_addAgent]
    exact h.added (h.out_of_idle hidle) (haStep_addAgent hs)
  | mountDisk n env =>
    obtain ⟨ha, i, s₁, hmount⟩ := haStep_mountDisk hs
    rw [out_mountDisk]
    exact h.mounted hmount
  | unmountDisk n =>
    obtain ⟨ha, i, v, hu⟩ := haStep_unmountDisk hs
    rw [out_unmountDisk]
    exact (h.unmounted hm hu).2

theorem Leased.releasable_step_iff {op : HaOp} (h : Leased (out ops) s) (hm : MatchedStep ops op)
    (hs : haStep shell s op = some s') : Releasable s' ↔ RegistersIdle ops s op := by
  cases op with
  | addAgent n r d ok m => exact h.releasable_added_iff h.releasable (haStep_addAgent hs)
  | mountDisk n env =>
    obtain ⟨ha, i, s₁, hmount⟩ := haStep_mountDisk hs
    exact iff_of_true (h.mounted hmount).releasable trivial
  | unmountDisk n =>
    obtain ⟨ha, i, v, hu⟩ := haStep_unmountDisk hs
    exact iff_of_true (h.unmounted hm hu).2.releasable trivial

theorem releaseMount_slot {i : Slot} {v : Vmi} (hcan : s.records.canRelease i = true)
    (howner : s.records.owner i = some v) : releaseMount i.val s =
      .ok (((({ s with records := s.records.release i } : HaState δ).emit .lockVmi).resumeVm v).emit .unlockVmi) := by
  have hrange : 0 ≤ (i.val : Int) ∧ (i.val : Int).toNat < DEVMAX := ⟨Int.natCast_nonneg _, i.isLt⟩
  have hkept : (s.records.release i).owner i = some v := by
    rw [Records.owner_release]
    exact howner
  unfold releaseMount
  rw [dif_pos hrange]
  dsimp only [Int.toNat_natCast]
  rw [if_pos hcan, hkept]

/-- **A slot in use can be released** through its agent's unmount. -/
theorem Releasable.unmount (h : Releasable s) {i : Slot} (hi : 0 < s.records.refcount i) :
    ∃ n s', unmountDisk n s = .ok s' ∧ s'.records = s.records.release i := by
  obtain ⟨n, ha, hn, howner, hdev⟩ := h i hi
  have hcan : s.records.canRelease i = true := by
    have hi : 0 < (s.records i).refcount := hi
    exact decide_eq_true (by omega)
  have hunmount : unmountDisk n s = releaseMount i.val s := by
    unfold unmountDisk
    rw [hn, ← hdev]
  exact ⟨n, _, hunmount.trans (releaseMount_slot hcan howner), rfl⟩

/-! ## Runs -/

/-- All slots in use are releasable throughout a run exactly while no registration replaces an agent with one; and from
any state in which they are, reached whatever was registered before, the next registration decides. -/
structure ReRegistering (shell : Shell δ) (s₀ : HaState δ) (ops : List HaOp) (s : HaState δ) : Prop where
  run : Throughout (stepOf (haStep shell)) s₀ (fun _ s => Releasable s) ops ↔
    EachStep (stepOf (haStep shell)) s₀ RegistersIdle ops
  add : Releasable s → ∀ n r d ok m s', addAgent n r d ok m s = .ok s' →
    (Releasable s' ↔ RegistersIdle ops s (.addAgent n r d ok m))
  unmount : Releasable s → ∀ i, 0 < s.records.refcount i →
    ∃ n s', unmountDisk n s = .ok s' ∧ s'.records = s.records.release i

theorem re_registering (shell : Shell δ) (mountPath ghostImage : String) (clock : Slot → Timeval) (g : Globals)
    (guests : String → Guest) (host : δ) (ops : List HaOp) (s : HaState δ) (hmatched : Matched ops)
    (hrun : Run (stepOf (haStep shell)) (HaState.init mountPath ghostImage clock g guests host) ops s) :
    ReRegistering shell (HaState.init mountPath ghostImage clock g guests host) ops s := by
  have hinit : Leased (fun _ => 0) (HaState.init mountPath ghostImage clock g guests host) := leased_init _ _ _ _ _ _
  have hhandled : Handled s := by
    refine Run.invariant (P := fun _ s => Handled s) hinit.toHandled ?_ hrun
    exact fun _ _ _ _ _ h hs => h.step hs
  refine ⟨?_, fun hr n r d ok m s' hs => ?_, fun hr i hi => hr.unmount hi⟩
  · refine throughout_iff_eachStep (I := fun ops s => Leased (out ops) s) hinit hinit.releasable ?_ ?_ hmatched hrun
    · exact fun ops s op s' h hm hidle hs => h.step hm hidle hs
    · exact fun ops s op s' h _ hm hs => h.releasable_step_iff hm hs
  · have hstep : haStep shell s (.addAgent n r d ok m) = some s' := toOption_eq_some.2 hs
    exact hhandled.releasable_added_iff hr (haStep_addAgent hstep)

def registeredBetween : List HaOp :=
  [.addAgent "a" "p" "d" true 0, .mountDisk "a" (quietMount 1), .unmountDisk "a", .addAgent "a" "p" "d" true 0,
    .mountDisk "a" (quietMount 2)]

theorem re_registering_between : ∃ s, Run (stepOf (haStep idleShell)) (.small ()) registeredBetween s ∧
    ReRegistering idleShell (.small ()) registeredBetween s := by
  obtain ⟨s, hrun⟩ := exists_run (show (exec (haStep idleShell) (.small ()) registeredBetween).isSome = true by decide)
  exact ⟨s, hrun, re_registering idleShell _ _ _ _ _ _ registeredBetween s (by decide) hrun⟩

def mountedOnce : List HaOp := [.addAgent "a" "p" "d" true 0, .mountDisk "a" (quietMount 1)]

/-- **A name registered again under its mount**: its slot is in use, and no agent releases it. -/
theorem registered_under_mount : ∃ s s', Run (stepOf (haStep idleShell)) (.small ()) mountedOnce s ∧
    Matched mountedOnce ∧ Releasable s ∧ addAgent "a" "p" "d" true 0 s = .ok s' ∧ ¬ Releasable s' := by
  obtain ⟨s, hrun⟩ := exists_run (show (exec (haStep idleShell) (.small ()) mountedOnce).isSome = true by decide)
  have hacc : Accounts mountedOnce s := accounts_run (by decide) hrun
  have hleased := hacc.leased
  obtain ⟨ha, i, hn, -, howner, hcount, -⟩ := hacc.owned (n := "a") (by decide)
  have hadd : addAgent "a" "p" "d" true 0 s = .ok _ := rfl
  have hstep : haStep idleShell s (.addAgent "a" "p" "d" true 0) = some _ := toOption_eq_some.2 hadd
  refine ⟨s, _, hrun, by decide, hleased.releasable, hadd, fun hr => ?_⟩
  have hidle := (hleased.releasable_added_iff hleased.releasable (haStep_addAgent hstep)).1 hr
  apply hidle ha i hn howner
  rw [hcount]
  decide

end Hyperagents
