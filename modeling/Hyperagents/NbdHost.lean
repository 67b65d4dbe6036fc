import Hyperagents.RequestMount
import Hyperagents.SyncEffects
import Mathlib.Data.List.DropRight
/-!
# The host's nbd devices and mounts

What `qemu-nbd`, `kpartx`, `mount` and `umount` do to a host, as laws of its shell (`NbdLaws`): which disk image each
device is connected to, which one its partition in `/dev/mapper` is of, and which one is mounted at each directory.
`nbdTable` is a host that keeps just these three.
-/
namespace Hyperagents

/-- The directory a path names: slashes at its end do not count. -/
def dirOf (path : String) : List Char := path.toList.rdropWhile (· == '/')

structure NbdLaws {δ : Type} (shell : Shell δ) where
  connected : δ → String → Option String
  mapper : δ → String → Option String
  mounted : δ → List Char → Option String
  connect : ∀ h dev disk, connected h dev = none →
    (shell.system (.qemuNbdConnect dev disk) h).1 = 0 ∧
    connected (shell.system (.qemuNbdConnect dev disk) h).2 = Function.update (connected h) dev (some disk) ∧
    mounted (shell.system (.qemuNbdConnect dev disk) h).2 = mounted h
  connect_busy : ∀ h dev disk, connected h dev ≠ none → (shell.system (.qemuNbdConnect dev disk) h).1 = 256
  disconnect : ∀ h dev,
    connected (shell.system (.qemuNbdDisconnect dev) h).2 = Function.update (connected h) dev none ∧
    mounted (shell.system (.qemuNbdDisconnect dev) h).2 = mounted h
  kpartx : ∀ h dev,
    mapper (shell.system (.kpartxAdd dev) h).2 dev = connected h dev ∧
    connected (shell.system (.kpartxAdd dev) h).2 = connected h ∧
    mounted (shell.system (.kpartxAdd dev) h).2 = mounted h
  umount : ∀ h dir,
    mounted (shell.system (.umount dir) h).2 = Function.update (mounted h) (dirOf dir) none ∧
    connected (shell.system (.umount dir) h).2 = connected h ∧
    mapper (shell.system (.umount dir) h).2 = mapper h
  umountLazy : ∀ h dir,
    mounted (shell.system (.umountLazy dir) h).2 = Function.update (mounted h) (dirOf dir) none ∧
    connected (shell.system (.umountLazy dir) h).2 = connected h
  /-- A mount needs the partition device, and nothing mounted at the directory. -/
  mount : ∀ h check dev dir disk, mapper h dev = some disk → mounted h (dirOf dir) = none →
    mounted (shell.system (.mount check dev dir) h).2 = Function.update (mounted h) (dirOf dir) (some disk) ∧
    connected (shell.system (.mount check dev dir) h).2 = connected h
  xl : ∀ h c, c.isXl = true → connected (shell.system c h).2 = connected h ∧ mounted (shell.system c h).2 = mounted h

/-- What a device's partition is of changes with its `kpartx` only. -/
def OnlyKpartxMaps {δ : Type} {shell : Shell δ} (nbd : NbdLaws shell) : Prop :=
  ∀ h c dev, c ≠ .kpartxAdd dev → nbd.mapper (shell.system c h).2 dev = nbd.mapper h dev

/-! ## The names -/

theorem nbdDev_injective {i j : Slot} : nbdDev i = nbdDev j → i = j := by
  revert i j
  decide

theorem nbdDev_last (i : Slot) : (nbdDev i).toList ≠ [] ∧ (nbdDev i).toList.getLast? ≠ some '/' := by
  revert i
  decide

/-- A device's directory, and the path the caller of a mount gets, are one. -/
theorem dirOf_getMountpoint (base : String) (i : Slot) :
    dirOf (getMountpoint base i.val) = dirOf (base ++ nbdDev i) := by
  have h : (getMountpoint base i.val).toList = (base ++ nbdDev i).toList ++ ['/'] := by
    have hi : toString (i.val : Int) = toString i.val := rfl
    unfold getMountpoint nbdDev
    rw [hi, ← String.append_assoc, String.toList_append]
    rfl
  unfold dirOf
  rw [h, List.rdropWhile_concat_pos _ _ _ (by decide)]

theorem dirOf_nbdDev (base : String) (i : Slot) : dirOf (base ++ nbdDev i) = (base ++ nbdDev i).toList := by
  obtain ⟨hne, hlast⟩ := nbdDev_last i
  refine List.rdropWhile_eq_self_iff.2 fun hl hslash => hlast ?_
  rw [List.getLast?_eq_some_getLast hne]
  have h := eq_of_beq hslash
  simp only [String.toList_append] at h
  rw [List.getLast_append_of_ne_nil _ hne] at h
  rw [h]

theorem dirOf_nbdDev_injective {base : String} {i j : Slot} (h : dirOf (base ++ nbdDev i) = dirOf (base ++ nbdDev j)) :
    i = j := by
  rw [dirOf_nbdDev, dirOf_nbdDev, String.toList_append, String.toList_append] at h
  exact nbdDev_injective (String.toList_injective (List.append_cancel_left h))

/-! ## What a mount and an unmount of a device do -/

section

variable {δ : Type} {shell : Shell δ}

/-- What the commands of a flush leave alone. -/
theorem runSystem_xl {A : Type} {view : δ → A}
    (hview : ∀ c host, c.isXl = true → view (shell.system c host).2 = view host) : ∀ (t : List Act) (host : δ),
    (∀ k, .system k ∈ t → k.isXl = true) → view (runSystem shell t host) = view host
  | [], _, _ => rfl
  | a :: t, host, h => by
    have hrest := fun host => runSystem_xl hview t host (fun k hk => h k (List.mem_cons_of_mem a hk))
    cases a with
    | system k => exact (hrest (shell.system k host).2).trans (hview k host (h k List.mem_cons_self))
    | vmi c => exact hrest host
    | int3 e r => exact hrest host
    | step v => exact hrest host
    | guest a b => exact hrest host

variable (nbd : NbdLaws shell)

theorem NbdLaws.runSystem (t : List Act) (host : δ) (h : ∀ k, .system k ∈ t → k.isXl = true) :
    nbd.connected (runSystem shell t host) = nbd.connected host ∧
      nbd.mounted (runSystem shell t host) = nbd.mounted host :=
  ⟨runSystem_xl (fun c host hc => (nbd.xl host c hc).1) t host h,
    runSystem_xl (fun c host hc => (nbd.xl host c hc).2) t host h⟩

/-- **Mounting a free device** connects it to the disk and mounts the disk at its directory. -/
theorem NbdLaws.mountHost (base check disk : String) {dev : String} {host : δ} (h : nbd.connected host dev = none) :
    nbd.connected (mountHost shell base check dev disk host) = Function.update (nbd.connected host) dev (some disk) ∧
      nbd.mounted (mountHost shell base check dev disk host) =
        Function.update (nbd.mounted host) (dirOf (base ++ dev)) (some disk) := by
  obtain ⟨-, hc1, hm1⟩ := nbd.connect host dev disk h
  obtain ⟨hp2, hc2, hm2⟩ := nbd.kpartx (shell.system (.qemuNbdConnect dev disk) host).2 dev
  obtain ⟨hm3, hc3, hp3⟩ := nbd.umount
    (shell.system (.kpartxAdd dev) (shell.system (.qemuNbdConnect dev disk) host).2).2 (base ++ dev)
  unfold Hyperagents.mountHost
  dsimp only
  obtain ⟨hm4, hc4⟩ := nbd.mount _ check dev (base ++ dev) disk
    (by rw [hp3, hp2, hc1, Function.update_self]) (by rw [hm3, Function.update_self])
  exact ⟨by rw [hc4, hc3, hc2, hc1], by rw [hm4, hm3, hm2, hm1, Function.update_idem]⟩

theorem NbdLaws.unmountHost (base dev : String) (host : δ) :
    nbd.connected (unmountHost shell base dev host) = Function.update (nbd.connected host) dev none ∧
      nbd.mounted (unmountHost shell base dev host) =
        Function.update (nbd.mounted host) (dirOf (base ++ dev)) none := by
  obtain ⟨hm1, hc1⟩ := nbd.umountLazy host (base ++ dev)
  obtain ⟨hc2, hm2⟩ := nbd.disconnect (shell.system (.umountLazy (base ++ dev)) host).2 dev
  exact ⟨by rw [← hc1]; exact hc2, hm2.trans hm1⟩

variable {nbd}

theorem OnlyKpartxMaps.other (hmaps : OnlyKpartxMaps nbd) {c : ShellCmd} (hc : ∀ dev, c ≠ .kpartxAdd dev) (host : δ) :
    nbd.mapper (shell.system c host).2 = nbd.mapper host :=
  funext fun dev => hmaps host c dev (hc dev)

theorem OnlyKpartxMaps.kpartx (hmaps : OnlyKpartxMaps nbd) (dev : String) (host : δ) :
    nbd.mapper (shell.system (.kpartxAdd dev) host).2 =
      Function.update (nbd.mapper host) dev (nbd.connected host dev) := by
  funext d
  by_cases hd : d = dev
  · rw [hd, Function.update_self]
    exact (nbd.kpartx host dev).1
  · rw [Function.update_of_ne hd]
    exact hmaps host _ d fun e => hd (ShellCmd.kpartxAdd.inj e).symm

theorem OnlyKpartxMaps.runSystem (hmaps : OnlyKpartxMaps nbd) (t : List Act) (host : δ)
    (h : ∀ k, .system k ∈ t → k.isXl = true) :
    nbd.mapper (runSystem shell t host) = nbd.mapper host :=
  runSystem_xl (fun c host hc => hmaps.other (fun dev e => by rw [e] at hc; cases hc) host) t host h

/-- **The partition of a device mounted** is of its disk. -/
theorem OnlyKpartxMaps.mountHost (hmaps : OnlyKpartxMaps nbd) (base check disk : String) {dev : String} {host : δ}
    (h : nbd.connected host dev = none) : nbd.mapper (Hyperagents.mountHost shell base check dev disk host) =
      Function.update (nbd.mapper host) dev (some disk) := by
  obtain ⟨-, hc, -⟩ := nbd.connect host dev disk h
  unfold Hyperagents.mountHost
  dsimp only
  rw [hmaps.other, hmaps.other, hmaps.kpartx, hmaps.other, hc, Function.update_self]
  all_goals exact nofun

/-- An unmount leaves all partitions mapped. -/
theorem OnlyKpartxMaps.unmountHost (hmaps : OnlyKpartxMaps nbd) (base dev : String) (host : δ) :
    nbd.mapper (Hyperagents.unmountHost shell base dev host) = nbd.mapper host := by
  unfold Hyperagents.unmountHost
  rw [hmaps.other, hmaps.other] <;> exact nofun

end

/-! ## A host of devices and directories alone -/

structure NbdTable where
  connected : String → Option String
  mapper : String → Option String
  mounted : List Char → Option String

def NbdTable.empty : NbdTable := ⟨fun _ => none, fun _ => none, fun _ => none⟩

/-- A command whose precondition does not hold changes nothing. -/
def nbdTable : Shell NbdTable where
  system
    | .qemuNbdConnect dev disk, h =>
      if h.connected dev = none then (0, { h with connected := Function.update h.connected dev (some disk) })
      else (256, h)
    | .qemuNbdDisconnect dev, h => (0, { h with connected := Function.update h.connected dev none })
    | .kpartxAdd dev, h => (0, { h with mapper := Function.update h.mapper dev (h.connected dev) })
    | .umount dir, h | .umountLazy dir, h => (0, { h with mounted := Function.update h.mounted (dirOf dir) none })
    | .mount _ dev dir, h =>
      if h.mapper dev ≠ none ∧ h.mounted (dirOf dir) = none then
        (0, { h with mounted := Function.update h.mounted (dirOf dir) (h.mapper dev) })
      else (8192, h)
    | .xlBlockAttach _ _, h | .xlBlockList _, h | .xlBlockDetach _, h => (0, h)

def nbdTableLaws : NbdLaws nbdTable where
  connected := NbdTable.connected
  mapper := NbdTable.mapper
  mounted := NbdTable.mounted
  connect h dev disk hnone := by simp [nbdTable, hnone]
  connect_busy h dev disk hsome := by simp [nbdTable, hsome]
  disconnect _ _ := ⟨rfl, rfl⟩
  kpartx _ _ := ⟨Function.update_self _ _ _, rfl, rfl⟩
  umount _ _ := ⟨rfl, rfl, rfl⟩
  umountLazy _ _ := ⟨rfl, rfl⟩
  mount h check dev dir disk hmap hfree := by simp [nbdTable, hmap, hfree]
  xl h c hc := by cases c <;> first | exact ⟨rfl, rfl⟩ | cases hc

theorem nbdTable_onlyKpartxMaps : OnlyKpartxMaps nbdTableLaws := by
  intro h c dev hc
  cases c with
  | kpartxAdd d =>
    show Function.update h.mapper d (h.connected d) dev = h.mapper dev
    rw [Function.update_of_ne fun e => hc (by rw [e])]
  | qemuNbdConnect d disk =>
    simp only [nbdTable, nbdTableLaws]
    split <;> rfl
  | mount check d dir =>
    simp only [nbdTable, nbdTableLaws]
    split <;> rfl
  | _ => rfl

end Hyperagents
