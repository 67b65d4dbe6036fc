import Hyperagents.SlotAccounting
/-!
# Which guests are paused

`do_nbd_mount` pauses the guest, `release_mount` resumes it, and a remount does neither: the reference count decides
none of this.  So a guest with mounts outstanding stays paused exactly while no mount finds a slot its agent still
holds with nothing out, and no unmount leaves another one out (`FreezeStep`).  A guest with nothing outstanding always
runs (`Thawed`): the last unmount resumed it, and nobody else's call touches it.
-/
namespace Hyperagents

open Runs

variable {δ : Type} {shell : Shell δ}

/-- Every agent with a mount outstanding has its guest paused. -/
def Frozen (ops : List HaOp) (s : HaState δ) : Prop := ∀ n, 0 < out ops n → (s.guests n).paused = true

/-- A mount is nested in another one or meets no slot of the agent's; an unmount is the last one out. -/
def FreezeStep (p : List HaOp) (s : HaState δ) : HaOp → Prop
  | .addAgent _ _ _ _ _ => True
  | .mountDisk n _ => 0 < out p n ∨ ∀ ha, s.agents n = some ha → s.records.lookup ha.vmi = none
  | .unmountDisk n => out p n = 1

/-- A guest whose agent holds a slot with nothing out was resumed. -/
def Resumed (ops : List HaOp) (s : HaState δ) : Prop :=
  ∀ n ha i, s.agents n = some ha → s.records.owner i = some ha.vmi → out ops n = 0 → (s.guests n).paused = false

variable {ops : List HaOp} {s s' : HaState δ} {n : String}

/-- What a call does to one guest, in terms of its agent's name. -/
theorem Accounts.onlyGuest {ha : HAConfig} {b : Bool} (h : Accounts ops s) (hn : s.agents n = some ha)
    (hh : s'.handles = s.handles) (hg : OnlyGuest ha.vmi b s s') :
    (s'.guests n).paused = b ∧ ∀ k, k ≠ n → s'.guests k = s.guests k := by
  have hown := hg.own
  have hothers := hg.others
  unfold HaState.guestOf at hown
  rw [hh] at hown
  rw [h.handle n ha hn] at hown hothers
  exact ⟨hown, hothers⟩

/-- A mount leaves the other guests as they were, and pauses its own where it finds no slot of the agent's. -/
theorem Accounts.mounted_guests {env : MountEnv} {ha : HAConfig} {i : Slot} {s₁ : HaState δ} (h : Accounts ops s)
    (hs : Mounted shell env n ha i s s₁ s') : (∀ k, k ≠ n → s'.guests k = s.guests k) ∧
      ((s.records.lookup ha.vmi ≠ none ∧ s'.guests n = s.guests n) ∨
        (s.records.lookup ha.vmi = none ∧ (s'.guests n).paused = true)) := by
  obtain ⟨hn, hpath, rfl⟩ := hs
  rcases hpath.guest with ⟨hl, hguests⟩ | ⟨hl, honly⟩
  · exact ⟨fun k _ => congrFun hguests k, .inl ⟨hl, congrFun hguests n⟩⟩
  · obtain ⟨hown, hothers⟩ := h.onlyGuest hn hpath.kept.handles honly
    exact ⟨hothers, .inr ⟨hl, hown⟩⟩

theorem Accounts.unmounted_guests {ha : HAConfig} {i : Slot} {v : Vmi} (h : Accounts ops s) (hout : 0 < out ops n)
    (hs : Unmounted n ha i v s s') : (s'.guests n).paused = false ∧ ∀ k, k ≠ n → s'.guests k = s.guests k := by
  obtain ⟨rfl, -⟩ := h.unmounted hout hs
  exact h.onlyGuest hs.agent hs.kept.handles hs.guest

/-! ## One call -/

theorem Resumed.step {op : HaOp} (h : Accounts ops s) (hr : Resumed ops s) (hord : OrderlyStep ops op)
    (hs : haStep shell s op = some s') : Resumed (ops ++ [op]) s' := by
  cases op with
  | addAgent n r d ok m =>
    have ha := haStep_addAgent hs
    intro k hk i hagent howner hzero
    rw [ha.agents] at hagent
    rw [ha.records] at howner
    rw [ha.guests]
    rw [out_addAgent] at hzero
    rcases Leases.update_some hagent with ⟨-, rfl⟩ | ⟨-, hold⟩
    · exact absurd howner ((h.fresh s.nextVmi (Nat.le_refl _)).2 i)
    · exact hr k hk i hold howner hzero
  | mountDisk n env =>
    obtain ⟨ha, i, s₁, hm⟩ := haStep_mountDisk hs
    obtain ⟨hothers, -⟩ := h.mounted_guests hm
    intro k hk j hagent howner hzero
    rw [out_mountDisk] at hzero
    have hkn : k ≠ n := fun e => by
      have := h.out_nonneg n
      rw [e, Function.update_self] at hzero
      omega
    rw [Function.update_of_ne hkn] at hzero
    rw [hothers k hkn]
    rcases hm.agents_cases hagent with ⟨e, -⟩ | ⟨-, hold⟩
    · exact absurd e hkn
    · rw [hm.owner] at howner
      rcases Leases.update_some howner with ⟨-, e⟩ | ⟨-, hj⟩
      · -- The slot granted is another agent's.
        exact absurd (h.vmi_inj hm.agent hold e) hkn
      · exact hr k hk j hold hj hzero
  | unmountDisk n =>
    obtain ⟨ha, i, v, hu⟩ := haStep_unmountDisk hs
    obtain ⟨hown, hothers⟩ := h.unmounted_guests hord hu
    intro k hk j hagent howner hzero
    by_cases hkn : k = n
    · rw [hkn]
      exact hown
    · rw [out_unmountDisk, Function.update_of_ne hkn] at hzero
      rw [hu.kept.agents] at hagent
      rw [hu.records, Records.owner_release] at howner
      rw [hothers k hkn]
      exact hr k hk j hagent howner hzero

/-- After a mount all is frozen if its own guest is. -/
theorem Frozen.mounted_iff {env : MountEnv} {ha : HAConfig} {i : Slot} {s₁ : HaState δ} (hf : Frozen ops s)
    (h : Accounts ops s) (hs : Mounted shell env n ha i s s₁ s') :
    Frozen (ops ++ [.mountDisk n env]) s' ↔ (s'.guests n).paused = true := by
  have hnonneg := h.out_nonneg n
  unfold Frozen
  rw [out_mountDisk]
  constructor
  · intro hfr
    apply hfr n
    rw [Function.update_self]
    omega
  · intro hp k hk
    by_cases hkn : k = n
    · rw [hkn]
      exact hp
    · rw [Function.update_of_ne hkn] at hk
      rw [(h.mounted_guests hs).1 k hkn]
      exact hf k hk

/-- After an unmount all is frozen if it was the last one out. -/
theorem Frozen.unmounted_iff {ha : HAConfig} {i : Slot} {v : Vmi} (hf : Frozen ops s) (h : Accounts ops s)
    (hpos : 0 < out ops n) (hs : Unmounted n ha i v s s') :
    Frozen (ops ++ [.unmountDisk n]) s' ↔ out ops n = 1 := by
  obtain ⟨hown, hothers⟩ := h.unmounted_guests hpos hs
  unfold Frozen
  rw [out_unmountDisk]
  constructor
  · intro hfr
    by_contra hne
    have hp := hfr n (by rw [Function.update_self]; omega)
    rw [hown] at hp
    cases hp
  · intro hone k hk
    by_cases hkn : k = n
    · rw [hkn, Function.update_self] at hk
      omega
    · rw [Function.update_of_ne hkn] at hk
      rw [hothers k hkn]
      exact hf k hk

/-- **A call keeps the guests frozen exactly when it meets the condition.** -/
theorem frozen_step_iff {op : HaOp} (h : Accounts ops s) (hr : Resumed ops s) (hf : Frozen ops s)
    (hord : OrderlyStep ops op) (hs : haStep shell s op = some s') : Frozen (ops ++ [op]) s' ↔ FreezeStep ops s op := by
  cases op with
  | addAgent n r d ok m =>
    have ha := haStep_addAgent hs
    unfold Frozen
    rw [out_addAgent, ha.guests]
    exact ⟨fun _ => trivial, fun _ => hf⟩
  | mountDisk n env =>
    obtain ⟨ha, i, s₁, hm⟩ := haStep_mountDisk hs
    have hnonneg := h.out_nonneg n
    rw [hf.mounted_iff h hm]
    rcases (h.mounted_guests hm).2 with ⟨hl, hsame⟩ | ⟨hl, hp⟩
    · -- A remount: the guest is as the earlier mounts left it.
      rw [hsame]
      constructor
      · intro hp
        refine .inl (by_contra fun hout => ?_)
        obtain ⟨j, hj⟩ := Option.ne_none_iff_exists'.1 hl
        rw [hr n ha j hm.agent (Records.lookup_some hj) (by omega)] at hp
        cases hp
      · rintro (hout | hnone)
        · exact hf n hout
        · exact absurd (hnone ha hm.agent) hl
    · refine ⟨fun _ => .inr fun ha' hn' => ?_, fun _ => hp⟩
      cases hm.agent.symm.trans hn'
      exact hl
  | unmountDisk n =>
    obtain ⟨ha, i, v, hu⟩ := haStep_unmountDisk hs
    exact hf.unmounted_iff h hord hu

/-! ## Guests with nothing outstanding -/

/-- Every guest whose agent has no mount outstanding runs. -/
def Thawed (ops : List HaOp) (s : HaState δ) : Prop := ∀ n, out ops n = 0 → (s.guests n).paused = false

/-- **One call leaves no such guest frozen.** -/
theorem Thawed.step {op : HaOp} (h : Accounts ops s) (ht : Thawed ops s) (hord : OrderlyStep ops op)
    (hs : haStep shell s op = some s') : Thawed (ops ++ [op]) s' := by
  cases op with
  | addAgent n r d ok m =>
    intro k hzero
    rw [out_addAgent] at hzero
    rw [(haStep_addAgent hs).guests]
    exact ht k hzero
  | mountDisk n env =>
    obtain ⟨ha, i, s₁, hm⟩ := haStep_mountDisk hs
    have hnonneg := h.out_nonneg n
    intro k hzero
    rw [out_mountDisk] at hzero
    -- The agent that mounts has something out now.
    have hkn : k ≠ n := fun e => by
      rw [e, Function.update_self] at hzero
      omega
    rw [Function.update_of_ne hkn] at hzero
    rw [(h.mounted_guests hm).1 k hkn]
    exact ht k hzero
  | unmountDisk n =>
    obtain ⟨ha, i, v, hu⟩ := haStep_unmountDisk hs
    obtain ⟨hown, hothers⟩ := h.unmounted_guests hord hu
    intro k hzero
    by_cases hkn : k = n
    · rw [hkn]
      exact hown
    · rw [out_unmountDisk, Function.update_of_ne hkn] at hzero
      rw [hothers k hkn]
      exact ht k hzero

/-! ## Runs -/

/-- **The guests with mounts outstanding stay paused through a run exactly when every call meets the condition.** -/
theorem frozen_iff (shell : Shell δ) (mountPath ghostImage : String) (clock : Slot → Timeval) (g : Globals)
    (guests : String → Guest) (host : δ) (ops : List HaOp) (s : HaState δ) (hord : Orderly ops)
    (hrun : Run (stepOf (haStep shell)) (HaState.init mountPath ghostImage clock g guests host) ops s) :
    Throughout (stepOf (haStep shell)) (HaState.init mountPath ghostImage clock g guests host) Frozen ops ↔
      EachStep (stepOf (haStep shell)) (HaState.init mountPath ghostImage clock g guests host) FreezeStep ops := by
  refine throughout_iff_eachStep (I := fun ops s => Accounts ops s ∧ Resumed ops s)
    ⟨accounts_init _ _ _ _ _ _, ?_⟩ ?_ ?_ ?_ hord hrun
  · intro n ha i hn
    cases hn
  · intro n hn
    exact absurd hn (Int.lt_irrefl 0)
  · rintro ops s op s' ⟨hacc, hres⟩ hop _ hs
    exact ⟨hacc.step hop hs, hres.step hacc hop hs⟩
  · rintro ops s op s' ⟨hacc, hres⟩ hf hop hs
    exact frozen_step_iff hacc hres hf hop hs

theorem frozen_iff_overlapping : Throughout (stepOf (haStep idleShell)) (.small ()) Frozen overlapping ↔
    EachStep (stepOf (haStep idleShell)) (.small ()) FreezeStep overlapping := by
  obtain ⟨s, hrun⟩ := exists_run (show (exec (haStep idleShell) (.small ()) overlapping).isSome = true by decide)
  exact frozen_iff idleShell _ _ _ _ _ _ overlapping s (by decide) hrun

/-- The first unmount of two overlapping mounts resumes the guest under the other one. -/
theorem overlapping_not_frozen : ∃ s, Run (stepOf (haStep idleShell)) (.small ()) overlapping s ∧
    Orderly overlapping ∧ 0 < out overlapping "a" ∧ (s.guests "a").paused = false := by
  obtain ⟨s, hs, hp⟩ := Option.map_eq_some_iff.1
    (show (exec (haStep idleShell) (.small ()) overlapping).map (fun s => (s.guests "a").paused) = some false by decide)
  exact ⟨s, run_of_exec hs, by decide, by decide, hp⟩

/-- **No guest is left frozen**: after any orderly run of calls, the guests with nothing outstanding run. -/
theorem thawed_run (shell : Shell δ) (mountPath ghostImage : String) (clock : Slot → Timeval) (g : Globals)
    (guests : String → Guest) (host : δ) (ops : List HaOp) (s : HaState δ) (hrunning : ∀ n, (guests n).paused = false)
    (hord : Orderly ops)
    (hrun : Run (stepOf (haStep shell)) (HaState.init mountPath ghostImage clock g guests host) ops s) :
    Thawed ops s := by
  have hboth : Accounts ops s ∧ Thawed ops s := by
    refine Run.invariant_under (I := fun ops s => Accounts ops s ∧ Thawed ops s)
      ⟨accounts_init _ _ _ _ _ _, fun n _ => hrunning n⟩ ?_ hord hrun
    rintro ops s op s' ⟨hacc, ht⟩ hop hs
    exact ⟨hacc.step hop hs, ht.step hacc hop hs⟩
  exact hboth.2

theorem thawed_run_overlapping : ∃ s,
    Run (stepOf (haStep idleShell)) (.small ()) (overlapping ++ [.unmountDisk "a"]) s ∧
      Thawed (overlapping ++ [.unmountDisk "a"]) s := by
  obtain ⟨s, hrun⟩ := exists_run
    (show (exec (haStep idleShell) (.small ()) (overlapping ++ [.unmountDisk "a"])).isSome = true by decide)
  exact ⟨s, hrun, thawed_run idleShell _ _ _ _ _ _ _ s (fun _ => rfl) (by decide) hrun⟩

end Hyperagents
