import Hyperagents.CommandLength
import Hyperagents.FlushedOnce
import Hyperagents.LeftAlone
import Hyperagents.MountFailure
import Hyperagents.ReRegister
/-!
# testmain

The test program constructs a HAMain, adds the VM of its arguments, mounts the VM's disk, lists the mount point and
unmounts the disk; then the destructors run.  `ls` says what a listing does to the host.  Its arguments go unbounded
into the buffers of the commands, and what comes after an overrun is undefined (`checked`).

On a host where the slots' devices are free, the program gets to its end exactly when its arguments fit the buffers
(`ArgsFit`), LibVMI takes the VM and `do_sync` returns.  The listing is of the VM's disk, with the VM paused; at the end
the VM runs and all slots are bare.
-/
namespace Hyperagents

open Runs

variable {δ : Type} (shell : Shell δ)

/-- What a program with one VM meets: whether `vmi_init_complete` succeeds, what the new object's uninitialised
`mountdev` holds, the one mount, and the state of the process and the guests at its start. -/
structure Meets where
  initOk : Bool
  mountdev : Int
  mount : MountEnv
  clock : Slot → Timeval
  globals : Globals
  guests : String → Guest

/-- A command that connects, maps and mounts nothing, and neither takes anything away. -/
structure OnlyReads {shell : Shell δ} (nbd : NbdLaws shell) (f : δ → δ) : Prop where
  connected : ∀ host, nbd.connected (f host) = nbd.connected host
  mapper : ∀ host, nbd.mapper (f host) = nbd.mapper host
  mounted : ∀ host, nbd.mounted (f host) = nbd.mounted host

variable {shell} {nbd : NbdLaws shell} {base : String} {guests : String → Guest} {host : δ} {ops : List HaOp}
  {s s' : HaState δ} {n : String}

/-! ## Calls that find the state isolated -/

/-- For the accounts neither the host nor the log counts. -/
theorem Accounts.of_host (h : Accounts ops s) (host : δ) (log : List HaAct) :
    Accounts ops { s with host := host, log := log } :=
  ⟨h.sound, h.locked, h.handle, h.agent, h.fresh, h.mountdev, h.outside, h.registered⟩

theorem Isolated.of_read (h : Isolated nbd base guests host ops s) {f : δ → δ} (hf : OnlyReads nbd f) :
    Isolated nbd base guests host ops { s with host := f s.host } := by
  obtain ⟨hc, hp, hm⟩ := hf
  refine ⟨h.accounts.of_host (f s.host) s.log, ⟨h.disks.baseMountpoint, ?_, ?_⟩, ⟨?_, ?_⟩, ⟨?_, ?_, ?_⟩, h.guests⟩
  · rw [hc]
    exact h.disks.free
  · rw [hc, hm]
    exact h.disks.own
  · rw [hp]
    exact h.maps.free
  · rw [hp]
    exact h.maps.own
  · rw [hc]
    exact h.elsewhere.connected
  · rw [hp]
    exact h.elsewhere.mapper
  · rw [hm]
    exact h.elsewhere.mounted

/-- An unmount with a mount outstanding returns. -/
theorem Accounts.unmountDisk_ok (h : Accounts ops s) (hout : 0 < out ops n) : ∃ s', unmountDisk n s = .ok s' := by
  obtain ⟨ha, i, hn, hdev, howner, hcount, -⟩ := h.owned hout
  have hcan : s.records.canRelease i = true := by
    have hi : (s.records i).refcount = out ops n := hcount
    exact decide_eq_true (by omega)
  have hunmount : unmountDisk n s = releaseMount i.val s := by
    unfold unmountDisk
    rw [hn, ← hdev]
  exact ⟨_, hunmount.trans (releaseMount_slot hcan howner)⟩

/-! ## Calls that fit -/

theorem fit_destroyMain {names : List String} (h : s.baseMountpoint.utf8ByteSize ≤ 179) :
    Fit (callTrace shell s (.destroyMain names)) := by
  intro k hk
  simp only [callTrace, commands_append, commands_destroyTraces, List.nil_append] at hk
  obtain ⟨i, rfl | rfl⟩ := mem_dropTrace _ _ hk
  · have hdev := nbdDev_size i
    rw [length_umount, String.utf8ByteSize_append]
    show _ ≤ 192
    omega
  · have hdev := nbdDev_size i
    rw [length_disconnect]
    show _ ≤ 192
    omega

/-! ## From the constructor to the mounted disk -/

section

variable {vmName rekallProfile diskPath ghost : String} {x : Meets}

/-- The calls that `openDisk` makes. -/
def opening (vmName rekallProfile diskPath : String) (x : Meets) : List HaOp :=
  [.addAgent vmName rekallProfile diskPath x.initOk x.mountdev, .mountDisk vmName x.mount]

theorem out_opening : out (opening vmName rekallProfile diskPath x) vmName = 1 := by
  simp [out, opening, HaOp.mounts, HaOp.unmounts]

/-- The VM's disk is mounted at the path, from the first slot, with the VM paused. -/
structure Opened (nbd : NbdLaws shell) (vmName rekallProfile diskPath base : String) (x : Meets) (host : δ)
    (path : String) (s : HaState δ) : Prop where
  isolated : Isolated nbd base x.guests host (opening vmName rekallProfile diskPath x) s
  first : path = getMountpoint base 0
  agent : s.agents vmName = some ⟨vmName, rekallProfile, diskPath, 1, (0 : Slot).val⟩
  owner : s.records.owner = Function.update (fun _ => none) 0 (some 1)
  mounted : nbd.mounted s.host (dirOf path) = some diskPath
  paused : (s.guests vmName).paused = true

/-- The state in which the mount is asked for. -/
structure Named (nbd : NbdLaws shell) (vmName rekallProfile diskPath base ghost : String) (x : Meets) (host : δ)
    (s : HaState δ) : Prop where
  isolated : Isolated nbd base x.guests host [.addAgent vmName rekallProfile diskPath x.initOk x.mountdev] s
  agent : s.agents vmName = some ⟨vmName, rekallProfile, diskPath, 1, x.mountdev⟩
  records : s.records = .init x.clock
  sync : s.ghostImage = ghost ∧ s.globals = x.globals ∧ s.guestOf 1 = x.guests vmName

theorem Named.lookup (h : Named nbd vmName rekallProfile diskPath base ghost x host s) :
    s.records.lookup 1 = none ∧ s.records.firstFree = some 0 := by
  rw [h.records]
  exact ⟨Records.lookup_none.2 fun _ => nofun, rfl⟩

theorem Named.opened {path : String} (hmaps : OnlyKpartxMaps nbd)
    (h : Named nbd vmName rekallProfile diskPath base ghost x host s)
    (hm : mountDisk shell vmName x.mount s = .ok (path, s')) :
    Opened nbd vmName rekallProfile diskPath base x host path s' := by
  obtain ⟨hl, hf⟩ := h.lookup
  have hs : haStep shell s (.mountDisk vmName x.mount) = some s' := by
    show (mountDisk shell vmName x.mount s).toOption.map Prod.snd = some s'
    rw [hm]
    rfl
  have hord : OrderlyStep [.addAgent vmName rekallProfile diskPath x.initOk x.mountdev]
      (.mountDisk vmName x.mount) := trivial
  have hisolated : Isolated nbd base x.guests host (opening vmName rekallProfile diskPath x) s' :=
    h.isolated.step hmaps hord hs
  obtain ⟨ha, i, s₁, hmounted, rfl⟩ := mountDisk_ok hm
  cases hmounted.agent.symm.trans h.agent
  obtain rfl : i = 0 := by
    cases hmounted.path with
    | remount hl' hc => cases hl.symm.trans hl'
    | fresh s₂ hl' hf' hm' => exact (Option.some.inj (hf.symm.trans hf')).symm
    | steal s₂ s₃ s₄ hl' hf' hi hlog hu hm' => cases hf.symm.trans hf'
  have hbase : s₁.baseMountpoint = base := by
    have hdisks := hisolated.disks.baseMountpoint
    rw [hmounted.state] at hdisks
    exact hdisks
  have hagent : s'.agents vmName = some ⟨vmName, rekallProfile, diskPath, 1, (0 : Slot).val⟩ := by
    rw [hmounted.state]
    exact Function.update_self _ _ _
  have howner : s'.records.owner = Function.update (fun _ => none) 0 (some 1) := by
    rw [hmounted.owner, h.records]
    rfl
  have howner₀ : s'.records.owner 0 = some 1 := by
    rw [howner]
    exact Function.update_self _ _ _
  obtain ⟨-, hm⟩ := hisolated.disks.own vmName _ 0 hagent howner₀
  refine ⟨hisolated, congrArg (getMountpoint · 0) hbase, hagent, howner, ?_, ?_⟩
  · rw [hbase, dirOf_getMountpoint]
    exact hm
  · rcases (h.isolated.accounts.mounted_guests hmounted).2 with ⟨hne, -⟩ | ⟨-, hp⟩
    · exact absurd hl hne
    · exact hp

/-- What a program leaves: nothing at the slots but the partition of the disk it mounted, the rest of the host and the
other guests as they were, the VM running. -/
structure ProgramLeft (nbd : NbdLaws shell) (vmName diskPath base : String) (x : Meets) (host : δ) (s : HaState δ) :
    Prop where
  bare : ∀ i, Bare nbd base s.host i
  mapped : nbd.mapper s.host (nbdDev 0) = some diskPath
  unmapped : ∀ i, i ≠ 0 → nbd.mapper s.host (nbdDev i) = nbd.mapper host (nbdDev i)
  elsewhere : SameElsewhere nbd base host s.host
  running : (s.guests vmName).paused = false
  guests : ∀ n, n ≠ vmName → s.guests n = x.guests n

/-- **From a disk that is open the program comes to its end.** -/
theorem Opened.close {path : String} {f : δ → δ} (hmaps : OnlyKpartxMaps nbd) (hf : OnlyReads nbd f)
    (hsize : base.utf8ByteSize ≤ 179) (h : Opened nbd vmName rekallProfile diskPath base x host path s) :
    ∃ s', unmountDisk vmName { s with host := f s.host } = .ok s' ∧
      Fit (callTrace shell s' (.destroyMain [vmName])) ∧
        ProgramLeft nbd vmName diskPath base x host (s'.destroy shell [vmName]) := by
  have hout : 0 < out (opening vmName rekallProfile diskPath x) vmName := by
    rw [out_opening]
    decide
  have hread := h.isolated.of_read hf
  obtain ⟨s', hs'⟩ := hread.accounts.unmountDisk_ok hout
  obtain ⟨ha, i, v, hu⟩ := unmountDisk_ok hs'
  have hs : haStep shell { s with host := f s.host } (.unmountDisk vmName) = some s' := by
    show (unmountDisk vmName { s with host := f s.host }).toOption = some s'
    rw [hs']
    rfl
  have hord : OrderlyStep (opening vmName rekallProfile diskPath x) (.unmountDisk vmName) := hout
  have hend := hread.step hmaps hord hs
  obtain ⟨hrunning, -⟩ := hread.accounts.unmounted_guests hout hu
  obtain ⟨hdrop, hkept, hbare, hsame⟩ := destroy_bare hmaps [vmName] s'
  rw [hend.disks.baseMountpoint] at hdrop hbare
  have hagent : s'.agents vmName = some ⟨vmName, rekallProfile, diskPath, 1, (0 : Slot).val⟩ := by
    rw [hu.kept.agents]
    exact h.agent
  have howner : s'.records.owner = Function.update (fun _ => none) 0 (some 1) := by
    rw [hu.records, Records.owner_release]
    exact h.owner
  refine ⟨s', hs', fit_destroyMain ?_, hbare, ?_, fun i hi => ?_, hend.elsewhere.trans hdrop, ?_, fun n hn => ?_⟩
  · rw [hend.disks.baseMountpoint]
    exact hsize
  · rw [hkept]
    refine hend.maps.own vmName _ 0 hagent ?_
    rw [howner]
    exact Function.update_self _ _ _
  · rw [hkept]
    refine hend.maps.free i ?_
    rw [howner]
    exact Function.update_of_ne hi _ _
  · rw [hsame]
    exact hrunning
  · rw [hsame]
    refine hend.guests n fun op hop => ?_
    simp only [opening, List.cons_append, List.nil_append, List.mem_cons, List.not_mem_nil, or_false] at hop
    rcases hop with rfl | rfl | rfl <;> simp [HaOp.touches, HaOp.mounts, HaOp.unmounts, Ne.symm hn]

end

end Hyperagents
