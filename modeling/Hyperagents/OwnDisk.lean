import Hyperagents.SlotAccounting
import Hyperagents.NbdHost
/-!
# Each agent reads its own disk

On a host that keeps the laws of `NbdLaws`, a slot nobody owns has its device unconnected, and a slot an agent owns
has the agent's disk connected and mounted (`Disks`): a steal unmounts the victim before the device is used again.
With the slots accounted for, what is mounted at the path a mount returned is the agent's disk until its last unmount.
-/
namespace Hyperagents

open Runs

variable {δ : Type} {shell : Shell δ} (nbd : NbdLaws shell)

/-- The host's side of the slots. -/
structure Disks (base : String) (s : HaState δ) : Prop where
  baseMountpoint : s.baseMountpoint = base
  free : ∀ i, s.records.owner i = none → nbd.connected s.host (nbdDev i) = none
  own : ∀ n ha i, s.agents n = some ha → s.records.owner i = some ha.vmi →
    nbd.connected s.host (nbdDev i) = some ha.diskPath ∧
      nbd.mounted s.host (dirOf (base ++ nbdDev i)) = some ha.diskPath

variable {nbd} {base : String} {ops : List HaOp} {s s' : HaState δ} {n : String}

/-! ## One call -/

/-- A request that finds no slot of the agent's leaves the disk connected and mounted at the slot it returns. -/
theorem RequestPath.disks {env : MountEnv} {v : Vmi} {disk : String} {i : Slot}
    (h : RequestPath shell env v disk s i s')
    (hfree : s.records.firstFree = some i → nbd.connected s.host (nbdDev i) = none) :
    (s.records.owner i = some v ∧ s'.host = s.host) ∨
      (nbd.connected s'.host = Function.update (nbd.connected s.host) (nbdDev i) (some disk) ∧
        nbd.mounted s'.host =
          Function.update (nbd.mounted s.host) (dirOf (s.baseMountpoint ++ nbdDev i)) (some disk)) := by
  cases h with
  | remount hl hc => exact .inl ⟨Records.lookup_some hl, rfl⟩
  | fresh s₁ hl hf hm =>
    obtain ⟨t, check, hsync, hhost⟩ := hm.host
    obtain ⟨hc, hmt⟩ := nbd.runSystem t.trace s.host (fun k hk => doSync_system hsync hk)
    obtain ⟨hc', hmt'⟩ := nbd.mountHost s.baseMountpoint check disk (hc ▸ hfree hf)
    rw [← hc, ← hmt]
    exact .inr ⟨(congrArg nbd.connected hhost).trans hc', (congrArg nbd.mounted hhost).trans hmt'⟩
  | steal s₁ s₂ s₃ hl hf hi hlog hu hm =>
    obtain ⟨log, rfl⟩ := hlog
    obtain ⟨t, check, hsync, hhost⟩ := hm.host
    obtain ⟨hc, hmt⟩ := nbd.runSystem t.trace s₂.host (fun k hk => doSync_system hsync hk)
    obtain ⟨hcu, hmu⟩ := nbd.unmountHost s.baseMountpoint (nbdDev i) s.host
    have hhu := hu.host
    dsimp only at hhu hhost
    rw [← hhu] at hcu hmu
    rw [hu.kept.baseMountpoint] at hhost
    have hfreed : nbd.connected (runSystem shell t.trace s₂.host) (nbdDev i) = none := by
      rw [hc, hcu, Function.update_self]
    obtain ⟨hc', hmt'⟩ := nbd.mountHost s.baseMountpoint check disk hfreed
    rw [hc, hcu, Function.update_idem] at hc'
    rw [hmt, hmu, Function.update_idem] at hmt'
    exact .inr ⟨(congrArg nbd.connected hhost).trans hc', (congrArg nbd.mounted hhost).trans hmt'⟩

theorem Disks.added {r d : String} {m : Int} (h : Disks nbd base s) (hacc : Accounts ops s)
    (hs : Added n r d m s s') : Disks nbd base s' := by
  refine ⟨hs.baseMountpoint.trans h.baseMountpoint, ?_, fun k ha i hk hi => ?_⟩
  · rw [hs.records, hs.host]
    exact h.free
  · rw [hs.agents] at hk
    rw [hs.records] at hi
    rw [hs.host]
    rcases Leases.update_some hk with ⟨-, rfl⟩ | ⟨-, hk⟩
    · exact absurd hi ((hacc.fresh s.nextVmi (Nat.le_refl _)).2 i)
    · exact h.own k ha i hk hi

theorem Disks.mounted {env : MountEnv} {ha : HAConfig} {i : Slot} {s₁ : HaState δ} (h : Disks nbd base s)
    (hacc : Accounts ops s) (hs : Mounted shell env n ha i s s₁ s') : Disks nbd base s' := by
  have hn := hs.agent
  have howner := hs.owner
  have hagents := @Mounted.agents_cases δ shell s s' n env ha i s₁ hs
  obtain ⟨-, hpath, rfl⟩ := hs
  have hdisks := @RequestPath.disks δ shell nbd s s₁ env ha.vmi ha.diskPath i hpath (fun hf =>
    h.free i (hacc.unowned (Records.firstFree_some hf)))
  rw [h.baseMountpoint] at hdisks
  change s₁.records.owner = _ at howner
  refine ⟨hpath.kept.baseMountpoint.trans h.baseMountpoint, fun j hj => ?_, fun k ha' j hk hj => ?_⟩
  · change s₁.records.owner j = none at hj
    rw [howner] at hj
    have hji : j ≠ i := fun e => by
      rw [e, Function.update_self] at hj
      cases hj
    rw [Function.update_of_ne hji] at hj
    show nbd.connected s₁.host (nbdDev j) = none
    rcases hdisks with ⟨-, hhost⟩ | ⟨hc, -⟩
    · rw [hhost]
      exact h.free j hj
    · rw [hc, Function.update_of_ne (fun e => hji (nbdDev_injective e))]
      exact h.free j hj
  · change s₁.records.owner j = some ha'.vmi at hj
    rw [howner] at hj
    obtain ⟨ha₀, hk₀, hv, hd⟩ : ∃ ha₀, s.agents k = some ha₀ ∧ ha₀.vmi = ha'.vmi ∧ ha₀.diskPath = ha'.diskPath := by
      rcases hagents hk with ⟨rfl, rfl⟩ | ⟨-, hk⟩
      · exact ⟨ha, hn, rfl, rfl⟩
      · exact ⟨ha', hk, rfl, rfl⟩
    rw [← hd]
    show nbd.connected s₁.host (nbdDev j) = some ha₀.diskPath ∧
      nbd.mounted s₁.host (dirOf (base ++ nbdDev j)) = some ha₀.diskPath
    rcases hdisks with ⟨ho, hhost⟩ | ⟨hc, hm⟩
    · rw [← ho, Function.update_eq_self, ← hv] at hj
      rw [hhost]
      exact h.own k ha₀ j hk₀ hj
    · rw [hc, hm]
      rcases Leases.update_some hj with ⟨rfl, hvv⟩ | ⟨hji, hj⟩
      · -- The slot granted: its owner is the agent that asked.
        rw [Function.update_self, Function.update_self]
        obtain rfl := hacc.vmi_inj hn hk₀ (hv.trans hvv)
        cases hn.symm.trans hk₀
        exact ⟨rfl, rfl⟩
      · rw [← hv] at hj
        rw [Function.update_of_ne (fun e => hji (nbdDev_injective e)),
          Function.update_of_ne (fun e => hji (dirOf_nbdDev_injective e))]
        exact h.own k ha₀ j hk₀ hj

theorem Disks.unmounted {ha : HAConfig} {i : Slot} {v : Vmi} (h : Disks nbd base s) (hs : Unmounted n ha i v s s') :
    Disks nbd base s' := by
  obtain ⟨hagents, -, -, hbase, -⟩ := hs.kept
  refine ⟨hbase.trans h.baseMountpoint, ?_, ?_⟩
  · rw [hs.records, Records.owner_release, hs.host]
    exact h.free
  · rw [hagents, hs.records, Records.owner_release, hs.host]
    exact h.own

theorem Disks.step {op : HaOp} (h : Disks nbd base s) (hacc : Accounts ops s) (hs : haStep shell s op = some s') :
    Disks nbd base s' := by
  cases op with
  | addAgent n r d ok m => exact h.added hacc (haStep_addAgent hs)
  | mountDisk n env =>
    obtain ⟨ha, i, s₁, hm⟩ := haStep_mountDisk hs
    exact h.mounted hacc hm
  | unmountDisk n =>
    obtain ⟨ha, i, v, hu⟩ := haStep_unmountDisk hs
    exact h.unmounted hu

/-- **No mount meets a busy device.** -/
theorem Disks.not_exited (h : Disks nbd base s) (hacc : Accounts ops s) (n : String) (env : MountEnv) :
    mountDisk shell n env s ≠ .error .exited := by
  intro hexit
  unfold mountDisk at hexit
  split at hexit
  · cases hexit
  · obtain ⟨i, host, g, guest, t, hhost, hsync, h256⟩ :=
      requestMount_exited (error_of_bind hexit (fun _ e => by cases e))
    have hc := (nbd.runSystem t.trace host (fun k hk => doSync_system hsync hk)).1
    have hfree : nbd.connected host (nbdDev i) = none := by
      rcases hhost with ⟨hf, rfl⟩ | rfl
      · exact h.free i (hacc.unowned (Records.firstFree_some hf))
      · rw [(nbd.unmountHost _ _ _).1, Function.update_self]
    rw [(nbd.connect _ (nbdDev i) _ (by rw [hc]; exact hfree)).1] at h256
    cases h256

/-- An agent with mounts outstanding keeps its slot and its disk. -/
theorem Accounts.step_mountdev {op : HaOp} {ha : HAConfig} (h : Accounts ops s) (hord : OrderlyStep ops op)
    (hs : haStep shell s op = some s') (hout : 0 < out ops n) (hn : s.agents n = some ha) :
    ∃ ha', s'.agents n = some ha' ∧ ha'.mountdev = ha.mountdev := by
  cases op with
  | addAgent k r d ok m =>
    have hadd := haStep_addAgent hs
    have hkn : n ≠ k := fun e => by
      rw [e, h.unregistered hord] at hn
      cases hn
    exact ⟨ha, by rw [hadd.agents, Function.update_of_ne hkn]; exact hn, rfl⟩
  | mountDisk k env =>
    obtain ⟨hk, i, s₁, hk', hpath, rfl⟩ := haStep_mountDisk hs
    by_cases hkn : n = k
    · subst hkn
      cases hn.symm.trans hk'
      refine ⟨_, Function.update_self _ _ _, ?_⟩
      obtain ⟨ha', j, hn', hdev, ho, -, huniq⟩ := h.owned hout
      cases hn.symm.trans hn'
      rcases hpath.records with ⟨ho', -⟩ | ⟨hnone, -⟩
      · rw [hdev, huniq i ho']
      · exact absurd ho (hnone j)
    · exact ⟨ha, by rw [← hn, ← hpath.kept.agents]; exact Function.update_of_ne hkn _ _, rfl⟩
  | unmountDisk k =>
    obtain ⟨hk, i, v, hu⟩ := haStep_unmountDisk hs
    exact ⟨ha, by rw [hu.kept.agents]; exact hn, rfl⟩

/-! ## Runs -/

theorem disks_init (mountPath ghostImage : String) (clock : Slot → Timeval) (g : Globals) (guests : String → Guest)
    {host : δ} (h : ∀ dev, nbd.connected host dev = none) :
    Disks nbd mountPath (HaState.init mountPath ghostImage clock g guests host) :=
  ⟨rfl, fun i _ => h (nbdDev i), fun n ha i hn => by cases hn⟩

section

variable {s₀ : HaState δ}

/-- While an agent has mounts outstanding its `mountdev` stays. -/
theorem mountdev_run {p q : List HaOp} {ha : HAConfig} (hord : Orderly (p ++ q)) (hacc : Accounts p s)
    (hn : s.agents n = some ha) (hout : ∀ q', q' <+: q → 0 < out (p ++ q') n)
    (hrun : Run (stepOf (haStep shell)) s q s') :
    Accounts (p ++ q) s' ∧ ∃ ha', s'.agents n = some ha' ∧ ha'.mountdev = ha.mountdev := by
  refine Run.invariant_under (I := fun q s' => Accounts (p ++ q) s' ∧ ∃ ha', s'.agents n = some ha' ∧
    ha'.mountdev = ha.mountdev) (D := fun q op => OrderlyStep (p ++ q) op ∧ 0 < out (p ++ q) n)
    ⟨by rw [List.append_nil]; exact hacc, ha, hn, rfl⟩ ?_ (fun q' op hq => ?_) hrun
  · rintro q t op t' ⟨hacc, ha', hn, hdev⟩ ⟨hop, hpos⟩ hs
    obtain ⟨ha'', hn', hdev'⟩ := hacc.step_mountdev hop hs hpos hn
    rw [← List.append_assoc]
    exact ⟨hacc.step hop hs, ha'', hn', hdev'.trans hdev⟩
  · refine ⟨hord _ _ ?_, hout q' ((List.prefix_append _ _).trans hq)⟩
    rw [List.append_assoc]
    exact (List.prefix_append_right_inj p).2 hq

end

/-- After a run no mount of any agent exits, as it would by `NbdLaws.connect_busy` if it connected a device still in
use; and at the path a mount returned the agent's disk is mounted while mounts of it are outstanding. -/
structure ReadsOwnDisk (nbd : NbdLaws shell) (init : HaState δ) (ops : List HaOp) (s : HaState δ) : Prop where
  not_exited : ∀ n env, mountDisk shell n env s ≠ .error .exited
  mounted : ∀ p n env q s₁ path s₂, ops = p ++ .mountDisk n env :: q → Run (stepOf (haStep shell)) init p s₁ →
    mountDisk shell n env s₁ = .ok (path, s₂) → (∀ q', q' <+: q → 0 < out (p ++ .mountDisk n env :: q') n) →
      ∃ ha, s.agents n = some ha ∧ nbd.mounted s.host (dirOf path) = some ha.diskPath

theorem own_disk_mounted (nbd : NbdLaws shell) (mountPath ghostImage : String) (clock : Slot → Timeval) (g : Globals)
    (guests : String → Guest) (host : δ) (hfree : ∀ dev, nbd.connected host dev = none) (ops : List HaOp)
    (s : HaState δ) (hord : Orderly ops)
    (hrun : Run (stepOf (haStep shell)) (HaState.init mountPath ghostImage clock g guests host) ops s) :
    ReadsOwnDisk nbd (HaState.init mountPath ghostImage clock g guests host) ops s := by
  have hboth : ∀ {ops s}, Orderly ops →
      Run (stepOf (haStep shell)) (HaState.init mountPath ghostImage clock g guests host) ops s →
        Accounts ops s ∧ Disks nbd mountPath s := by
    intro ops s hord hrun
    refine Run.invariant_under (I := fun ops s => Accounts ops s ∧ Disks nbd mountPath s)
      ⟨accounts_init _ _ _ _ _ _, disks_init _ _ _ _ _ hfree⟩ ?_ hord hrun
    rintro ops s op s' ⟨hacc, hd⟩ hop hs
    exact ⟨hacc.step hop hs, hd.step hacc hs⟩
  obtain ⟨hacc, hd⟩ := hboth hord hrun
  refine ⟨hd.not_exited hacc, ?_⟩
  rintro p n env q s₁ path s₂ rfl hp hm hout
  have happ : p ++ HaOp.mountDisk n env :: q = (p ++ [.mountDisk n env]) ++ q := (List.append_cons _ _ _)
  rw [happ] at hord hrun hacc
  obtain ⟨t, ht, htq⟩ := run_append_iff.1 hrun
  have hstep : haStep shell s₁ (.mountDisk n env) = some s₂ := by
    show (mountDisk shell n env s₁).toOption.map Prod.snd = some s₂
    rw [hm]
    rfl
  obtain rfl : t = s₂ := run_stepOf_unique ht (.snoc hp hstep)
  obtain ⟨ha, i, s₃, hmounted, rfl⟩ := mountDisk_ok hm
  obtain ⟨hacc₂, hd₂⟩ := hboth (hord.of_prefix (List.prefix_append _ _)) ht
  have hn₂ : t.agents n = some { ha with mountdev := i.val } := by
    rw [hmounted.state]
    exact Function.update_self _ _ _
  have hbase : s₃.baseMountpoint = mountPath := by
    have := hd₂.baseMountpoint
    rw [hmounted.state] at this
    exact this
  obtain ⟨-, ha', hn, hdev⟩ := mountdev_run hord hacc₂ hn₂ (fun q' hq => by
    rw [← List.append_cons]
    exact hout q' hq) htq
  obtain ⟨ha'', j, hn', hdev', ho, -⟩ := hacc.owned (n := n) (by
    rw [← List.append_cons]
    exact hout q List.prefix_rfl)
  cases hn.symm.trans hn'
  obtain rfl : j = i := Fin.ext (Int.ofNat.inj (hdev'.symm.trans hdev))
  refine ⟨ha', hn, ?_⟩
  rw [hbase, dirOf_getMountpoint]
  exact (hd.own n ha' j hn ho).2

/-- Two agents on a host that keeps its devices and directories only. -/
theorem own_disk_mounted_table : ∃ s, Run (stepOf (haStep nbdTable)) (.small NbdTable.empty) twoAgents s ∧
    ReadsOwnDisk nbdTableLaws (.small NbdTable.empty) twoAgents s := by
  obtain ⟨s, hrun⟩ := exists_run
    (show (exec (haStep nbdTable) (.small NbdTable.empty) twoAgents).isSome = true by decide)
  exact ⟨s, hrun, own_disk_mounted nbdTableLaws _ _ _ _ _ NbdTable.empty (fun _ => rfl) _ s (by decide) hrun⟩

end Hyperagents
