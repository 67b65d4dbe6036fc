import Hyperagents.FrozenGuests
import Hyperagents.OwnDisk
import Hyperagents.Teardown
/-!
# What a HAMain leaves alone

The library connects and mounts at the devices and directories of its sixteen slots and nowhere else, and touches no
guest but those its caller mounts.  So what a host has elsewhere is through every orderly run as it was before the
HAMain was constructed (`SameElsewhere`), and after the destructors nothing is connected to the slots' devices or
mounted at their directories (`Bare`).  The partitions that `kpartx` mapped are never unmapped: each device that was
used keeps the one of the last disk connected to it (`Maps`).
-/
namespace Hyperagents

open Runs

variable {δ : Type} {shell : Shell δ}

/-- Two hosts differ at the slots' devices and directories alone. -/
structure SameElsewhere (nbd : NbdLaws shell) (base : String) (host host' : δ) : Prop where
  connected : ∀ dev, (∀ i : Slot, dev ≠ nbdDev i) → nbd.connected host' dev = nbd.connected host dev
  mapper : ∀ dev, (∀ i : Slot, dev ≠ nbdDev i) → nbd.mapper host' dev = nbd.mapper host dev
  mounted : ∀ dir, (∀ i : Slot, dir ≠ dirOf (base ++ nbdDev i)) → nbd.mounted host' dir = nbd.mounted host dir

/-- Nothing is connected to a slot's device, and nothing mounted at its directory. -/
structure Bare (nbd : NbdLaws shell) (base : String) (host : δ) (i : Slot) : Prop where
  connected : nbd.connected host (nbdDev i) = none
  mounted : nbd.mounted host (dirOf (base ++ nbdDev i)) = none

/-- What the partitions of the slots' devices are of, on what was `host` at first. -/
structure Maps (nbd : NbdLaws shell) (host : δ) (s : HaState δ) : Prop where
  free : ∀ i, s.records.owner i = none → nbd.mapper s.host (nbdDev i) = nbd.mapper host (nbdDev i)
  own : ∀ n ha i, s.agents n = some ha → s.records.owner i = some ha.vmi →
    nbd.mapper s.host (nbdDev i) = some ha.diskPath

variable {nbd : NbdLaws shell} {base : String} {host host' : δ} {ops : List HaOp} {s s' : HaState δ} {i : Slot}

theorem SameElsewhere.refl (nbd : NbdLaws shell) (base : String) (host : δ) : SameElsewhere nbd base host host :=
  ⟨fun _ _ => rfl, fun _ _ => rfl, fun _ _ => rfl⟩

theorem SameElsewhere.trans {host'' : δ} (h : SameElsewhere nbd base host host')
    (h' : SameElsewhere nbd base host' host'') : SameElsewhere nbd base host host'' where
  connected dev hdev := (h'.connected dev hdev).trans (h.connected dev hdev)
  mapper dev hdev := (h'.mapper dev hdev).trans (h.mapper dev hdev)
  mounted dir hdir := (h'.mounted dir hdir).trans (h.mounted dir hdir)

/-- One slot's device is connected and mapped anew, and its directory mounted anew. -/
theorem sameElsewhere_update {disk disk' disk'' : Option String}
    (hc : nbd.connected host' = Function.update (nbd.connected host) (nbdDev i) disk)
    (hp : nbd.mapper host' = Function.update (nbd.mapper host) (nbdDev i) disk'')
    (hm : nbd.mounted host' = Function.update (nbd.mounted host) (dirOf (base ++ nbdDev i)) disk') :
    SameElsewhere nbd base host host' where
  connected dev hdev := by rw [hc, Function.update_of_ne (hdev i)]
  mapper dev hdev := by rw [hp, Function.update_of_ne (hdev i)]
  mounted dir hdir := by rw [hm, Function.update_of_ne (hdir i)]

/-! ## One call -/

/-- A request that finds no slot of the agent's leaves the slot's partition mapped to the disk. -/
theorem RequestPath.mapper {env : MountEnv} {v : Vmi} {disk : String} (hmaps : OnlyKpartxMaps nbd)
    (h : RequestPath shell env v disk s i s')
    (hfree : s.records.firstFree = some i → nbd.connected s.host (nbdDev i) = none) :
    (s.records.owner i = some v ∧ s'.host = s.host) ∨
      nbd.mapper s'.host = Function.update (nbd.mapper s.host) (nbdDev i) (some disk) := by
  cases h with
  | remount hl hc => exact .inl ⟨Records.lookup_some hl, rfl⟩
  | fresh s₁ hl hf hm =>
    obtain ⟨t, check, hsync, hhost⟩ := hm.host
    have hxl := fun k hk => doSync_system (k := k) hsync hk
    have hconn : nbd.connected (runSystem shell t.trace s.host) (nbdDev i) = none := by
      rw [(nbd.runSystem t.trace s.host hxl).1]
      exact hfree hf
    have hmount := hmaps.mountHost s.baseMountpoint check disk hconn
    rw [hmaps.runSystem t.trace s.host hxl] at hmount
    exact .inr ((congrArg nbd.mapper hhost).trans hmount)
  | steal s₁ s₂ s₃ hl hf hi hlog hu hm =>
    obtain ⟨log, rfl⟩ := hlog
    obtain ⟨t, check, hsync, hhost⟩ := hm.host
    have hxl := fun k hk => doSync_system (k := k) hsync hk
    have hhu := hu.host
    dsimp only at hhu hhost
    have hconn : nbd.connected (runSystem shell t.trace s₂.host) (nbdDev i) = none := by
      rw [(nbd.runSystem t.trace s₂.host hxl).1, hhu, (nbd.unmountHost _ (nbdDev i) s.host).1, Function.update_self]
    have hkept : nbd.mapper (runSystem shell t.trace s₂.host) = nbd.mapper s.host := by
      rw [hmaps.runSystem t.trace s₂.host hxl, hhu, hmaps.unmountHost]
    have hmount := hmaps.mountHost s₂.baseMountpoint check disk hconn
    rw [hkept] at hmount
    exact .inr ((congrArg nbd.mapper hhost).trans hmount)

theorem Disks.mounted_elsewhere {n : String} {env : MountEnv} {ha : HAConfig} {s₁ : HaState δ}
    (hmaps : OnlyKpartxMaps nbd) (h : Disks nbd base s) (hacc : Accounts ops s)
    (hs : Mounted shell env n ha i s s₁ s') : SameElsewhere nbd base s.host s'.host := by
  obtain ⟨-, hpath, rfl⟩ := hs
  have hfree : s.records.firstFree = some i → nbd.connected s.host (nbdDev i) = none := fun hf =>
    h.free i (hacc.unowned (Records.firstFree_some hf))
  have hdisks := @RequestPath.disks δ shell nbd s s₁ env ha.vmi ha.diskPath i hpath hfree
  rw [h.baseMountpoint] at hdisks
  show SameElsewhere nbd base s.host s₁.host
  rcases hdisks with ⟨-, hhost⟩ | ⟨hc, hm⟩
  · rw [hhost]
    exact .refl nbd base s.host
  · rcases hpath.mapper hmaps hfree with ⟨-, hhost⟩ | hp
    · rw [hhost]
      exact .refl nbd base s.host
    · exact sameElsewhere_update hc hp hm

theorem Disks.step_elsewhere {op : HaOp} (hmaps : OnlyKpartxMaps nbd) (h : Disks nbd base s) (hacc : Accounts ops s)
    (hs : haStep shell s op = some s') : SameElsewhere nbd base s.host s'.host := by
  cases op with
  | addAgent n r d ok m =>
    rw [(haStep_addAgent hs).host]
    exact .refl nbd base s.host
  | mountDisk n env =>
    obtain ⟨ha, i, s₁, hm⟩ := haStep_mountDisk hs
    exact h.mounted_elsewhere hmaps hacc hm
  | unmountDisk n =>
    obtain ⟨ha, i, v, hu⟩ := haStep_unmountDisk hs
    rw [hu.host]
    exact .refl nbd base s.host

theorem Maps.mounted {n : String} {env : MountEnv} {ha : HAConfig} {s₁ : HaState δ} (h : Maps nbd host s)
    (hmaps : OnlyKpartxMaps nbd) (hd : Disks nbd base s) (hacc : Accounts ops s)
    (hs : Mounted shell env n ha i s s₁ s') : Maps nbd host s' := by
  have hn := hs.agent
  have howner := hs.owner
  have hagents := @Mounted.agents_cases δ shell s s' n env ha i s₁ hs
  obtain ⟨-, hpath, rfl⟩ := hs
  have hfree : s.records.firstFree = some i → nbd.connected s.host (nbdDev i) = none := fun hf =>
    hd.free i (hacc.unowned (Records.firstFree_some hf))
  have hmapper := hpath.mapper hmaps hfree
  change s₁.records.owner = _ at howner
  refine ⟨fun j hj => ?_, fun k ha' j hk hj => ?_⟩
  · change s₁.records.owner j = none at hj
    rw [howner] at hj
    have hji : j ≠ i := fun e => by
      rw [e, Function.update_self] at hj
      cases hj
    rw [Function.update_of_ne hji] at hj
    show nbd.mapper s₁.host (nbdDev j) = nbd.mapper host (nbdDev j)
    rcases hmapper with ⟨-, hhost⟩ | hp
    · rw [hhost]
      exact h.free j hj
    · rw [hp, Function.update_of_ne (fun e => hji (nbdDev_injective e))]
      exact h.free j hj
  · change s₁.records.owner j = some ha'.vmi at hj
    rw [howner] at hj
    obtain ⟨ha₀, hk₀, hv, hdisk⟩ :
        ∃ ha₀, s.agents k = some ha₀ ∧ ha₀.vmi = ha'.vmi ∧ ha₀.diskPath = ha'.diskPath := by
      rcases hagents hk with ⟨rfl, rfl⟩ | ⟨-, hk⟩
      · exact ⟨ha, hn, rfl, rfl⟩
      · exact ⟨ha', hk, rfl, rfl⟩
    rw [← hdisk]
    show nbd.mapper s₁.host (nbdDev j) = some ha₀.diskPath
    rcases hmapper with ⟨ho, hhost⟩ | hp
    · rw [← ho, Function.update_eq_self, ← hv] at hj
      rw [hhost]
      exact h.own k ha₀ j hk₀ hj
    · rw [hp]
      rcases Leases.update_some hj with ⟨rfl, hvv⟩ | ⟨hji, hj⟩
      · -- The slot granted: its owner is the agent that asked.
        rw [Function.update_self]
        obtain rfl := hacc.vmi_inj hn hk₀ (hv.trans hvv)
        cases hn.symm.trans hk₀
        rfl
      · rw [← hv] at hj
        rw [Function.update_of_ne (fun e => hji (nbdDev_injective e))]
        exact h.own k ha₀ j hk₀ hj

theorem Maps.step {op : HaOp} (h : Maps nbd host s) (hmaps : OnlyKpartxMaps nbd) (hd : Disks nbd base s)
    (hacc : Accounts ops s) (hs : haStep shell s op = some s') : Maps nbd host s' := by
  cases op with
  | addAgent n r d ok m =>
    have hadd := haStep_addAgent hs
    refine ⟨?_, fun k ha i hk hi => ?_⟩
    · rw [hadd.records, hadd.host]
      exact h.free
    · rw [hadd.agents] at hk
      rw [hadd.records] at hi
      rw [hadd.host]
      rcases Leases.update_some hk with ⟨-, rfl⟩ | ⟨-, hk⟩
      · exact absurd hi ((hacc.fresh s.nextVmi (Nat.le_refl _)).2 i)
      · exact h.own k ha i hk hi
  | mountDisk n env =>
    obtain ⟨ha, i, s₁, hm⟩ := haStep_mountDisk hs
    exact h.mounted hmaps hd hacc hm
  | unmountDisk n =>
    obtain ⟨ha, i, v, hu⟩ := haStep_unmountDisk hs
    refine ⟨?_, ?_⟩
    · rw [hu.records, Records.owner_release, hu.host]
      exact h.free
    · rw [hu.kept.agents, hu.records, Records.owner_release, hu.host]
      exact h.own

/-- The guests that the calls mount or unmount. -/
def HaOp.touches (n : String) (op : HaOp) : Bool := op.mounts n || op.unmounts n

theorem Accounts.step_guests {op : HaOp} (h : Accounts ops s) (hord : OrderlyStep ops op)
    (hs : haStep shell s op = some s') {n : String} (hn : op.touches n = false) : s'.guests n = s.guests n := by
  cases op with
  | addAgent k r d ok m => rw [(haStep_addAgent hs).guests]
  | mountDisk k env =>
    obtain ⟨ha, i, s₁, hm⟩ := haStep_mountDisk hs
    have hne : n ≠ k := fun e => by simp [HaOp.touches, HaOp.mounts, e] at hn
    exact (h.mounted_guests hm).1 n hne
  | unmountDisk k =>
    obtain ⟨ha, i, v, hu⟩ := haStep_unmountDisk hs
    have hne : n ≠ k := fun e => by simp [HaOp.touches, HaOp.mounts, HaOp.unmounts, e] at hn
    exact (h.unmounted_guests hord hu).2 n hne

/-! ## Runs -/

/-- What holds after every orderly run, of the slots and of everything else. -/
structure Isolated (nbd : NbdLaws shell) (base : String) (guests : String → Guest) (host : δ) (ops : List HaOp)
    (s : HaState δ) : Prop where
  accounts : Accounts ops s
  disks : Disks nbd base s
  maps : Maps nbd host s
  elsewhere : SameElsewhere nbd base host s.host
  guests : ∀ n, (∀ op ∈ ops, op.touches n = false) → s.guests n = guests n

theorem Isolated.step {guests : String → Guest} {op : HaOp} (hmaps : OnlyKpartxMaps nbd)
    (h : Isolated nbd base guests host ops s) (hord : OrderlyStep ops op) (hs : haStep shell s op = some s') :
    Isolated nbd base guests host (ops ++ [op]) s' := by
  refine ⟨h.accounts.step hord hs, h.disks.step h.accounts hs, h.maps.step hmaps h.disks h.accounts hs,
    h.elsewhere.trans (h.disks.step_elsewhere hmaps h.accounts hs), fun n hn => ?_⟩
  have hop := hn op (List.mem_append_right _ List.mem_cons_self)
  rw [h.accounts.step_guests hord hs hop]
  exact h.guests n fun op' hop' => hn op' (List.mem_append_left _ hop')

section

variable {ghostImage : String} {clock : Slot → Timeval} {g : Globals} {guests : String → Guest}

theorem isolated_init (hfree : ∀ i, nbd.connected host (nbdDev i) = none) :
    Isolated nbd base guests host [] (HaState.init base ghostImage clock g guests host) :=
  ⟨accounts_init _ _ _ _ _ _, ⟨rfl, fun i _ => hfree i, nofun⟩, ⟨fun _ _ => rfl, nofun⟩, .refl nbd base host,
    fun _ _ => rfl⟩

theorem isolated_run (hmaps : OnlyKpartxMaps nbd) (hfree : ∀ i, nbd.connected host (nbdDev i) = none)
    (hord : Orderly ops)
    (hrun : Run (stepOf (haStep shell)) (HaState.init base ghostImage clock g guests host) ops s) :
    Isolated nbd base guests host ops s :=
  Run.invariant_under (I := fun ops s => Isolated nbd base guests host ops s) (isolated_init hfree)
    (fun _ _ _ _ h hop hs => h.step hmaps hop hs) hord hrun

end

/-! ## The destructors -/

theorem dropMount_nbd (nbd : NbdLaws shell) (i : Slot) (s : HaState δ) :
    nbd.connected (dropMount shell s i).host = Function.update (nbd.connected s.host) (nbdDev i) none ∧
      nbd.mounted (dropMount shell s i).host =
        Function.update (nbd.mounted s.host) (dirOf (s.baseMountpoint ++ nbdDev i)) none := by
  obtain ⟨hm, hc, -⟩ := nbd.umount s.host (s.baseMountpoint ++ nbdDev i)
  obtain ⟨hc', hm'⟩ := nbd.disconnect (shell.system (.umount (s.baseMountpoint ++ nbdDev i)) s.host).2 (nbdDev i)
  constructor
  · rw [← hc]
    exact hc'
  · rw [← hm]
    exact hm'

theorem dropMount_mapper (hmaps : OnlyKpartxMaps nbd) (i : Slot) (s : HaState δ) :
    nbd.mapper (dropMount shell s i).host = nbd.mapper s.host :=
  (hmaps.other (fun _ => ShellCmd.noConfusion) _).trans (hmaps.other (fun _ => ShellCmd.noConfusion) s.host)

theorem dropMount_bare {j : Slot} (h : j = i ∨ Bare nbd s.baseMountpoint s.host j) :
    Bare nbd s.baseMountpoint (dropMount shell s i).host j := by
  obtain ⟨hc, hm⟩ := dropMount_nbd nbd i s
  by_cases hji : j = i
  · subst hji
    exact ⟨by rw [hc, Function.update_self], by rw [hm, Function.update_self]⟩
  · obtain ⟨hc', hm'⟩ := h.resolve_left hji
    refine ⟨?_, ?_⟩
    · rw [hc, Function.update_of_ne fun e => hji (nbdDev_injective e)]
      exact hc'
    · rw [hm, Function.update_of_ne fun e => hji (dirOf_nbdDev_injective e)]
      exact hm'

theorem dropMounts_guests (is : List Slot) (s : HaState δ) : (is.foldl (dropMount shell) s).guests = s.guests := by
  induction is generalizing s with
  | nil => rfl
  | cons i is ih => rw [List.foldl_cons, ih, dropMount, HaState.system, HaState.system]; rfl

/-- **Every slot in the list is bare afterwards**, and nothing else has changed. -/
theorem dropMounts_nbd (hmaps : OnlyKpartxMaps nbd) (is : List Slot) (s : HaState δ) :
    SameElsewhere nbd s.baseMountpoint s.host (is.foldl (dropMount shell) s).host ∧
      nbd.mapper (is.foldl (dropMount shell) s).host = nbd.mapper s.host ∧
      ∀ j, j ∈ is ∨ Bare nbd s.baseMountpoint s.host j →
        Bare nbd s.baseMountpoint (is.foldl (dropMount shell) s).host j := by
  induction is generalizing s with
  | nil => exact ⟨.refl nbd _ _, rfl, fun j h => h.resolve_left List.not_mem_nil⟩
  | cons i is ih =>
    obtain ⟨hrest, hmapper, hbare⟩ := ih (dropMount shell s i)
    obtain ⟨hc, hm⟩ := dropMount_nbd nbd i s
    have hkept : nbd.mapper (dropMount shell s i).host = nbd.mapper s.host := dropMount_mapper hmaps i s
    have hbase : (dropMount shell s i).baseMountpoint = s.baseMountpoint := rfl
    rw [hbase] at hrest hbare
    rw [List.foldl_cons]
    have hone : SameElsewhere nbd s.baseMountpoint s.host (dropMount shell s i).host :=
      sameElsewhere_update hc (hkept.trans (Function.update_eq_self (nbdDev i) _).symm) hm
    refine ⟨hone.trans hrest, hmapper.trans hkept, fun j hj => hbare j ?_⟩
    rcases hj with hj | hj
    · rcases List.mem_cons.1 hj with rfl | hj
      · exact .inr (dropMount_bare (.inl rfl))
      · exact .inl hj
    · exact .inr (dropMount_bare (.inr hj))

/-- What the destructors leave: all sixteen slots bare, and the rest of the host, every partition mapped and every guest
as they were. -/
structure Destroyed (nbd : NbdLaws shell) (s s' : HaState δ) : Prop where
  elsewhere : SameElsewhere nbd s.baseMountpoint s.host s'.host
  mapper : nbd.mapper s'.host = nbd.mapper s.host
  bare : ∀ i, Bare nbd s.baseMountpoint s'.host i
  guests : s'.guests = s.guests

theorem destroy_bare (hmaps : OnlyKpartxMaps nbd) (names : List String) (s : HaState δ) :
    Destroyed nbd s (s.destroy shell names) := by
  obtain ⟨-, hbase, hhost⟩ := destroyAgents_log names s
  obtain ⟨helse, hmapper, hbare⟩ := dropMounts_nbd hmaps (List.finRange DEVMAX) (names.foldl destroyAgent s)
  rw [hbase, hhost] at helse
  rw [hhost] at hmapper
  refine ⟨helse, hmapper, fun i => ?_, ?_⟩
  · have h := hbare i (.inl (List.mem_finRange i))
    rw [hbase] at h
    exact h
  · unfold HaState.destroy dropAllMounts
    rw [dropMounts_guests, destroyAgents_guests]

/-! ## A HAMain from its constructor to its destructors -/

/-- What a HAMain leaves behind, and what it has left alone all along. -/
structure SessionLeft (nbd : NbdLaws shell) (names : List String) (init : HaState δ) (ops : List HaOp)
    (s : HaState δ) : Prop where
  bare : ∀ i, Bare nbd init.baseMountpoint (s.destroy shell names).host i
  /-- No partition is unmapped: a slot that was taken leaves its last owner's. -/
  unmapped : ∀ i, s.records.owner i = none →
    nbd.mapper (s.destroy shell names).host (nbdDev i) = nbd.mapper init.host (nbdDev i)
  mapped : ∀ n ha i, s.agents n = some ha → s.records.owner i = some ha.vmi →
    nbd.mapper (s.destroy shell names).host (nbdDev i) = some ha.diskPath
  elsewhere : SameElsewhere nbd init.baseMountpoint init.host (s.destroy shell names).host
  /-- No destructor resumes a guest: one that runs is one with nothing outstanding. -/
  guests : (s.destroy shell names).guests = s.guests
  running : ∀ n, out ops n = 0 → (s.guests n).paused = false
  during : Throughout (stepOf (haStep shell)) init (fun p t => SameElsewhere nbd init.baseMountpoint init.host t.host ∧
    ∀ n, (∀ op ∈ p, op.touches n = false) → t.guests n = init.guests n) ops

/-- **A whole session**: on a host where the slots' devices are free at first, an orderly run followed by the
destructors leaves every slot bare and everything else as it was, but for the partitions mapped. -/
theorem session_left (nbd : NbdLaws shell) (hmaps : OnlyKpartxMaps nbd) (base ghostImage : String)
    (clock : Slot → Timeval) (g : Globals) (guests : String → Guest) (host : δ) (names : List String)
    (hfree : ∀ i, nbd.connected host (nbdDev i) = none)
    (hrunning : ∀ n, (guests n).paused = false) (ops : List HaOp) (s : HaState δ) (hord : Orderly ops)
    (hrun : Run (stepOf (haStep shell)) (HaState.init base ghostImage clock g guests host) ops s) :
    SessionLeft nbd names (HaState.init base ghostImage clock g guests host) ops s := by
  have hend := isolated_run hmaps hfree hord hrun
  obtain ⟨helse, hmapper, hbare, hguests⟩ := destroy_bare hmaps names s
  rw [hend.disks.baseMountpoint] at helse hbare
  refine ⟨hbare, ?_, ?_, hend.elsewhere.trans helse, hguests, ?_, fun p t hp ht => ?_⟩
  · rw [hmapper]
    exact hend.maps.free
  · rw [hmapper]
    exact hend.maps.own
  · have hboth : Accounts ops s ∧ Thawed ops s := by
      refine Run.invariant_under (I := fun ops s => Accounts ops s ∧ Thawed ops s)
        ⟨accounts_init _ _ _ _ _ _, fun n _ => hrunning n⟩ ?_ hord hrun
      rintro ops s op s' ⟨hacc, ht⟩ hop hs
      exact ⟨hacc.step hop hs, ht.step hacc hop hs⟩
    exact hboth.2
  · have hthere := isolated_run hmaps hfree (hord.of_prefix hp) ht
    exact ⟨hthere.elsewhere, hthere.guests⟩

/-- A host with a device of its own connected, two agents, and the destructors at the end. -/
def busyTable : NbdTable := { NbdTable.empty with connected := Function.update (fun _ => none) "nbd77" (some "own") }

theorem session_left_two : ∃ s, Run (stepOf (haStep nbdTable)) (.small busyTable) twoAgents s ∧
    SessionLeft nbdTableLaws ["a", "b"] (.small busyTable) twoAgents s := by
  have hsome : (exec (haStep nbdTable) (.small busyTable) twoAgents).isSome = true := by decide +kernel
  obtain ⟨s, hrun⟩ := exists_run hsome
  have hfree : ∀ i, nbdTableLaws.connected busyTable (nbdDev i) = none := by decide
  exact ⟨s, hrun, session_left nbdTableLaws nbdTable_onlyKpartxMaps _ _ _ _ _ busyTable ["a", "b"] hfree
    (fun _ => rfl) _ s (by decide) hrun⟩

end Hyperagents
