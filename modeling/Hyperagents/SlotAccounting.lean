import Hyperagents.HandleLeases
/-!
# Slot accounting

The records, the agents' `mountdev` and the slot mutexes after any orderly run (`Accounts`).  A client of the slots is
the handle of an agent, and what it has out is what its agent has mounted and not unmounted.
-/
namespace Hyperagents

open Runs

variable {δ : Type} {shell : Shell δ}

/-- What the client behind a handle has out, where `o` says it of the agents. -/
def HaState.outOf (s : HaState δ) (o : String → Int) (v : Vmi) : Int := ((s.handles v).map o).getD 0

/-- The invariant of an orderly run. -/
structure Accounts (ops : List HaOp) (s : HaState δ) : Prop where
  sound : Leases.Sound s.records.owner s.records.refcount (s.outOf (out ops))
  locked : ∀ i, (s.records i).l = true ↔ s.records.owner i ≠ none
  handle : ∀ n ha, s.agents n = some ha → s.handles ha.vmi = some n
  agent : ∀ n v, s.handles v = some n → ∃ ha, s.agents n = some ha ∧ ha.vmi = v
  fresh : ∀ v, s.nextVmi ≤ v → s.handles v = none ∧ ∀ i, s.records.owner i ≠ some v
  /-- An agent that owns a slot has it in `mountdev`; one whose slot was stolen still has the old one there. -/
  mountdev : ∀ n ha i, s.agents n = some ha → s.records.owner i = some ha.vmi → ha.mountdev = i.val
  outside : ∀ n, s.agents n = none → out ops n = 0
  registered : ∀ n, s.agents n ≠ none → ∃ op ∈ ops, op.adds n = true

section

variable {ops : List HaOp} {s s' : HaState δ} {n : String}

/-- Where every handle is still its agent's, all that is out counts. -/
theorem HaState.leaseOut_eq_outOf (hagent : ∀ n v, s.handles v = some n → ∃ ha, s.agents n = some ha ∧ ha.vmi = v)
    (o : String → Int) : s.leaseOut o = s.outOf o := by
  funext v
  unfold HaState.leaseOut HaState.outOf
  cases hv : s.handles v with
  | none => rfl
  | some n =>
    obtain ⟨ha, hn, rfl⟩ := hagent n v hv
    show (if (s.agents n).map HAConfig.vmi = some ha.vmi then o n else 0) = o n
    rw [hn]
    exact if_pos rfl

theorem Accounts.leased (h : Accounts ops s) : Leased (out ops) s where
  sound := by
    rw [HaState.leaseOut_eq_outOf h.agent]
    exact h.sound
  locked := h.locked
  handle := h.handle
  fresh := h.fresh
  mountdev := h.mountdev
  outside := h.outside

theorem Leased.accounts (h : Leased (out ops) s)
    (hagent : ∀ n v, s.handles v = some n → ∃ ha, s.agents n = some ha ∧ ha.vmi = v)
    (hregistered : ∀ n, s.agents n ≠ none → ∃ op ∈ ops, op.adds n = true) : Accounts ops s where
  sound := by
    rw [← HaState.leaseOut_eq_outOf hagent]
    exact h.sound
  locked := h.locked
  handle := h.handle
  agent := hagent
  fresh := h.fresh
  mountdev := h.mountdev
  outside := h.outside
  registered := hregistered

/-- Two agents have two handles. -/
theorem Accounts.vmi_inj (h : Accounts ops s) {k : String} {ha ha' : HAConfig} (hn : s.agents n = some ha)
    (hk : s.agents k = some ha') (hv : ha'.vmi = ha.vmi) : k = n :=
  h.leased.vmi_inj hn hk hv

/-- A name about to be registered is new. -/
theorem Accounts.unregistered {r d : String} {ok : Bool} {m : Int} (h : Accounts ops s)
    (hord : OrderlyStep ops (.addAgent n r d ok m)) : s.agents n = none := by
  by_contra hc
  obtain ⟨op, hop, hadds⟩ := h.registered n hc
  rw [hord op hop] at hadds
  cases hadds

/-- **An agent with mounts outstanding owns one slot**, the one in its `mountdev`. -/
theorem Accounts.owned (h : Accounts ops s) (hn : 0 < out ops n) : ∃ ha i, s.agents n = some ha ∧
    ha.mountdev = i.val ∧ s.records.owner i = some ha.vmi ∧ s.records.refcount i = out ops n ∧
      ∀ j, s.records.owner j = some ha.vmi → j = i :=
  h.leased.owned hn

theorem Accounts.out_nonneg (h : Accounts ops s) (n : String) : 0 ≤ out ops n := h.leased.out_nonneg n

theorem Accounts.unowned (h : Accounts ops s) {i : Slot} (hl : (s.records i).l = false) : s.records.owner i = none := by
  by_contra ho
  rw [(h.locked i).2 ho] at hl
  cases hl

/-! ## One call -/

theorem accounts_init (mountPath ghostImage : String) (clock : Slot → Timeval) (g : Globals) (guests : String → Guest)
    (host : δ) : Accounts [] (HaState.init mountPath ghostImage clock g guests host) := by
  refine Leased.accounts (leased_init _ _ _ _ _ _) ?_ ?_
  · intro n v h
    cases h
  · exact fun n h => absurd rfl h

theorem Accounts.added {r d : String} {ok : Bool} {m : Int} (h : Accounts ops s)
    (hord : OrderlyStep ops (.addAgent n r d ok m)) (hs : Added n r d m s s') :
    Accounts (ops ++ [.addAgent n r d ok m]) s' := by
  have hnone := h.unregistered hord
  refine Leased.accounts ?_ (fun k v hv => ?_) fun k hk => ?_
  · rw [out_addAgent]
    exact h.leased.added (h.outside n hnone) hs
  · rw [hs.handles] at hv
    rw [hs.agents]
    rcases Leases.update_some hv with ⟨rfl, rfl⟩ | ⟨-, hv⟩
    · exact ⟨_, Function.update_self _ _ _, rfl⟩
    · obtain ⟨ha, hk, hav⟩ := h.agent k v hv
      have hkn : k ≠ n := fun e => by
        rw [e, hnone] at hk
        cases hk
      exact ⟨ha, by rw [Function.update_of_ne hkn]; exact hk, hav⟩
  · by_cases hkn : k = n
    · exact ⟨_, List.mem_append_right _ List.mem_cons_self, by simp [HaOp.adds, hkn]⟩
    · rw [hs.agents, Function.update_of_ne hkn] at hk
      obtain ⟨op, hop, hadds⟩ := h.registered k hk
      exact ⟨op, List.mem_append_left _ hop, hadds⟩

theorem Accounts.mounted {env : MountEnv} {ha : HAConfig} {i : Slot} {s₁ : HaState δ} (h : Accounts ops s)
    (hs : Mounted shell env n ha i s s₁ s') : Accounts (ops ++ [.mountDisk n env]) s' := by
  refine Leased.accounts ?_ (fun k v hv => ?_) fun k hk => ?_
  · rw [out_mountDisk]
    exact h.leased.mounted hs
  · rw [hs.handles] at hv
    obtain ⟨ha', hk, rfl⟩ := h.agent k v hv
    have hvmi := hs.vmi k
    rw [hk] at hvmi
    obtain ⟨ha'', hk', hav⟩ := Option.map_eq_some_iff.1 hvmi
    exact ⟨ha'', hk', hav⟩
  · obtain ⟨op, hop, hadds⟩ := h.registered k (fun e => hk ((hs.agents_none k).2 e))
    exact ⟨op, List.mem_append_left _ hop, hadds⟩

theorem Accounts.unmounted {ha : HAConfig} {i : Slot} {v : Vmi} (h : Accounts ops s) (hout : 0 < out ops n)
    (hs : Unmounted n ha i v s s') : v = ha.vmi ∧ Accounts (ops ++ [.unmountDisk n]) s' := by
  obtain ⟨hv, hleased⟩ := h.leased.unmounted hout hs
  obtain ⟨hagents, hhandles, -, -, -⟩ := hs.kept
  refine ⟨hv, Leased.accounts ?_ ?_ fun k hk => ?_⟩
  · rw [out_unmountDisk]
    exact hleased
  · rw [hhandles, hagents]
    exact h.agent
  · rw [hagents] at hk
    obtain ⟨op, hop, hadds⟩ := h.registered k hk
    exact ⟨op, List.mem_append_left _ hop, hadds⟩

/-- **One call keeps the accounts.** -/
theorem Accounts.step {op : HaOp} (h : Accounts ops s) (hord : OrderlyStep ops op) (hs : haStep shell s op = some s') :
    Accounts (ops ++ [op]) s' := by
  cases op with
  | addAgent n r d ok m => exact h.added hord (haStep_addAgent hs)
  | mountDisk n env =>
    obtain ⟨ha, i, s₁, hm⟩ := haStep_mountDisk hs
    exact h.mounted hm
  | unmountDisk n =>
    obtain ⟨ha, i, v, hu⟩ := haStep_unmountDisk hs
    exact (h.unmounted hord hu).2

end

section

variable {mountPath ghostImage : String} {clock : Slot → Timeval} {g : Globals} {guests : String → Guest} {host : δ}

/-- **Every orderly run keeps the accounts.** -/
theorem accounts_run {ops : List HaOp} {s : HaState δ} (hord : Orderly ops)
    (h : Run (stepOf (haStep shell)) (HaState.init mountPath ghostImage clock g guests host) ops s) : Accounts ops s :=
  Run.invariant_under (accounts_init _ _ _ _ _ _) (fun _ _ _ _ hacc hop hs => hacc.step hop hs) hord h

end

/-! ## What the accounts say -/

structure Accounting (ops : List HaOp) (s : HaState δ) : Prop where
  exclusive : ∀ i j v, (s.records i).vmi = some v → (s.records j).vmi = some v → i = j
  owns : ∀ n, 0 < out ops n → ∃ ha i, s.agents n = some ha ∧ ha.mountdev = i.val ∧ (s.records i).vmi = some ha.vmi ∧
    (s.records i).refcount = out ops n ∧ ∀ j, (s.records j).vmi = some ha.vmi → j = i
  idle : ∀ i, (∀ n ha, s.agents n = some ha → 0 < out ops n → (s.records i).vmi ≠ some ha.vmi) →
    (s.records i).refcount = 0
  locked : ∀ i, (s.records i).l = true ↔ (s.records i).vmi ≠ none
  full : s.records.firstFree = none → ∀ i, (s.records i).vmi ≠ none

theorem Accounts.accounting {ops : List HaOp} {s : HaState δ} (h : Accounts ops s) : Accounting ops s where
  exclusive := h.sound.inj
  owns _ hn := h.owned hn
  idle i hi := by
    refine h.sound.count_eq_zero fun v hv hpos => ?_
    unfold HaState.outOf at hpos
    cases hn : s.handles v with
    | none =>
      rw [hn] at hpos
      exact absurd hpos (Int.lt_irrefl 0)
    | some n =>
      rw [hn] at hpos
      obtain ⟨ha, hagent, rfl⟩ := h.agent n v hn
      exact hi n ha hagent hpos hv
  locked := h.locked
  full hf i := (h.locked i).1 (Records.firstFree_none.1 hf i)

theorem slot_accounting (shell : Shell δ) (mountPath ghostImage : String) (clock : Slot → Timeval) (g : Globals)
    (guests : String → Guest) (host : δ) (ops : List HaOp) (s : HaState δ) (hord : Orderly ops)
    (hrun : Run (stepOf (haStep shell)) (HaState.init mountPath ghostImage clock g guests host) ops s) :
    Accounting ops s :=
  (accounts_run hord hrun).accounting

/-- Two agents hold a slot each, and the second has its disk mounted twice. -/
theorem slot_accounting_two : ∃ s,
    Run (stepOf (haStep idleShell)) (.small ()) (twoAgents ++ [.mountDisk "b" (quietMount 4)]) s ∧
      s.records.refcount 0 = 1 ∧ s.records.refcount 1 = 2 ∧
        Accounting (twoAgents ++ [.mountDisk "b" (quietMount 4)]) s := by
  obtain ⟨s, hs, hfound⟩ := Option.map_eq_some_iff.1 (show (exec (haStep idleShell) (.small ())
    (twoAgents ++ [.mountDisk "b" (quietMount 4)])).map (fun s => (s.records.refcount 0, s.records.refcount 1)) =
      some (1, 2) by decide)
  obtain ⟨hfirst, hsecond⟩ := Prod.mk.inj hfound
  exact ⟨s, run_of_exec hs, hfirst, hsecond, slot_accounting _ _ _ _ _ _ _ _ s (by decide) (run_of_exec hs)⟩

end Hyperagents
