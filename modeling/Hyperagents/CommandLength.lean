import Hyperagents.CallTrace
import Hyperagents.SyncEffects
/-!
# The commands and their buffers

`sprintf` formats each command into a buffer on the stack, 128 bytes in `do_sync` and 192 elsewhere, and nothing bounds
the strings it is given.  A `FormatSite` is a place in the code that formats one; what it formats with one configuration
fits exactly while the three strings of the configuration are short enough (`commands_fit_iff`).
-/
namespace Hyperagents

/-- What `%s` prints of a string: up to its first NUL. -/
def cStr (s : String) : String := String.ofList (s.toList.takeWhile (· != Char.ofNat 0))

/-- The places that format a command; `do_sync` formats the list twice. -/
inductive FormatSite
  | blockAttach
  | blockList
  | blockDetach
  | dropUmount
  | dropDisconnect
  | connect
  | kpartx
  | precautionaryUmount
  | mount
  | umount
  | disconnect
  deriving DecidableEq, Repr

structure FormatArgs where
  baseMountpoint : String
  diskPath : String
  ghostImage : String
  vmid : UInt64
  slot : Slot
  linux : Bool

namespace FormatArgs

variable (x : FormatArgs)

def check : String := if x.linux then "check=none," else ""

def dir : String := cStr x.baseMountpoint ++ nbdDev x.slot

def command : FormatSite → ShellCmd
  | .blockAttach => .xlBlockAttach x.vmid (cStr x.ghostImage)
  | .blockList => .xlBlockList x.vmid
  | .blockDetach => .xlBlockDetach x.vmid
  | .dropUmount => .umount x.dir
  | .dropDisconnect => .qemuNbdDisconnect (nbdDev x.slot)
  | .connect => .qemuNbdConnect (nbdDev x.slot) (cStr x.diskPath)
  | .kpartx => .kpartxAdd (nbdDev x.slot)
  | .precautionaryUmount => .umount x.dir
  | .mount => .mount x.check (nbdDev x.slot) x.dir
  | .umount => .umountLazy x.dir
  | .disconnect => .qemuNbdDisconnect (nbdDev x.slot)

end FormatArgs

/-- The size of `sysbuf`. -/
def FormatSite.buffer : FormatSite → Nat
  | .blockAttach | .blockList | .blockDetach => 128
  | .dropUmount | .dropDisconnect | .connect | .kpartx | .precautionaryUmount | .mount | .umount | .disconnect => 192

/-- The bytes `sprintf` writes, with the NUL at the end. -/
def ShellCmd.length (c : ShellCmd) : Nat := c.text.utf8ByteSize + 1

/-- The size of the buffer a command is formatted into. -/
def ShellCmd.buffer (c : ShellCmd) : Nat := if c.isXl then 128 else 192

/-- The strings of a configuration leave room for the fixed text. -/
structure ShortEnough (x : FormatArgs) : Prop where
  ghost : (toString x.vmid).utf8ByteSize + (cStr x.ghostImage).utf8ByteSize ≤ 98
  disk : (nbdDev x.slot).utf8ByteSize + (cStr x.diskPath).utf8ByteSize ≤ 163
  base : x.check.utf8ByteSize + 2 * (nbdDev x.slot).utf8ByteSize + (cStr x.baseMountpoint).utf8ByteSize ≤ 90

/-! ## The lengths -/

section

variable (dev disk dir check image : String) (vmid : UInt64)

theorem size_append {s t : String} {m n : Nat} (hs : s.utf8ByteSize = m) (ht : t.utf8ByteSize = n) :
    (s ++ t).utf8ByteSize = m + n :=
  String.utf8ByteSize_append.trans (congrArg₂ (· + ·) hs ht)

theorem length_umount : (ShellCmd.umount dir).length = 7 + dir.utf8ByteSize + 1 :=
  congrArg (· + 1) (size_append (s := "umount ") rfl rfl)

theorem length_umountLazy : (ShellCmd.umountLazy dir).length = 10 + dir.utf8ByteSize + 1 :=
  congrArg (· + 1) (size_append (s := "umount -l ") rfl rfl)

theorem length_disconnect : (ShellCmd.qemuNbdDisconnect dev).length = 17 + dev.utf8ByteSize + 1 :=
  congrArg (· + 1) (size_append (s := "qemu-nbd -d /dev/") rfl rfl)

theorem length_kpartx : (ShellCmd.kpartxAdd dev).length = 16 + dev.utf8ByteSize + 1 :=
  congrArg (· + 1) (size_append (s := "kpartx -av /dev/") rfl rfl)

theorem length_connect : (ShellCmd.qemuNbdConnect dev disk).length =
    27 + dev.utf8ByteSize + 1 + disk.utf8ByteSize + 1 :=
  congrArg (· + 1) (size_append (size_append (size_append (s := "qemu-nbd -nf qcow2 -c /dev/") rfl rfl) rfl) rfl)

theorem length_mount : (ShellCmd.mount check dev dir).length =
    9 + check.utf8ByteSize + 89 + dev.utf8ByteSize + 3 + dir.utf8ByteSize + 1 :=
  congrArg (· + 1)
    (size_append (size_append (size_append (size_append (size_append (s := "mount -o ") rfl rfl) rfl) rfl) rfl) rfl)

theorem length_blockAttach : (ShellCmd.xlBlockAttach vmid image).length =
    16 + (toString vmid).utf8ByteSize + 6 + image.utf8ByteSize + 7 + 1 :=
  congrArg (· + 1)
    (size_append (size_append (size_append (size_append (s := "xl block-attach ") rfl rfl) rfl) rfl) rfl)

theorem length_blockList : (ShellCmd.xlBlockList vmid).length = 14 + (toString vmid).utf8ByteSize + 1 :=
  congrArg (· + 1) (size_append (s := "xl block-list ") rfl rfl)

theorem length_blockDetach : (ShellCmd.xlBlockDetach vmid).length =
    16 + (toString vmid).utf8ByteSize + 5 + 1 :=
  congrArg (· + 1) (size_append (size_append (s := "xl block-detach ") rfl rfl) rfl)

end

theorem nbdDev_size (i : Slot) : (nbdDev i).utf8ByteSize ≤ 5 := by
  revert i
  decide

/-- A decimal number has one byte for each digit. -/
theorem repr_size_le : ∀ (k n : Nat), n < 10 ^ (k + 1) → n.repr.utf8ByteSize ≤ k + 1
  | k, n, h => by
    have hdigit : ∀ d, d < 10 → (String.singleton (Nat.digitChar d)).utf8ByteSize = 1 := by decide
    by_cases hn : n < 10
    · rw [Nat.repr_of_lt hn, hdigit n hn]
      omega
    · cases k with
      | zero => exact absurd h hn
      | succ k =>
        have hdiv : n / 10 < 10 ^ (k + 1) := by
          rw [Nat.pow_succ] at h
          omega
        have ih := repr_size_le k (n / 10) hdiv
        rw [Nat.repr_of_ge (Nat.le_of_not_lt hn), String.utf8ByteSize_append, hdigit _ (Nat.mod_lt _ (by decide))]
        omega

theorem vmid_size (vmid : UInt64) : (toString vmid).utf8ByteSize ≤ 20 := by
  have h := repr_size_le 19 vmid.toNat (Nat.lt_of_lt_of_le vmid.toNat_lt (by decide))
  exact h

theorem dir_size (x : FormatArgs) :
    x.dir.utf8ByteSize = (cStr x.baseMountpoint).utf8ByteSize + (nbdDev x.slot).utf8ByteSize :=
  String.utf8ByteSize_append

theorem commands_fit_of_short {x : FormatArgs} (h : ShortEnough x) (site : FormatSite) :
    (x.command site).length ≤ site.buffer := by
  have hdir := dir_size x
  have hdev := nbdDev_size x.slot
  have hvmid := vmid_size x.vmid
  obtain ⟨hghost, hdisk, hbase⟩ := h
  cases site <;> simp only [FormatArgs.command, FormatSite.buffer, length_blockAttach, length_blockList,
    length_blockDetach, length_umount, length_umountLazy, length_disconnect, length_kpartx, length_connect,
    length_mount] <;> omega

theorem short_of_commands_fit {x : FormatArgs} (h : ∀ site : FormatSite, (x.command site).length ≤ site.buffer) :
    ShortEnough x := by
  have hdir := dir_size x
  have hattach : _ ≤ 128 := h .blockAttach
  have hconnect : _ ≤ 192 := h .connect
  have hmount : _ ≤ 192 := h .mount
  simp only [FormatArgs.command, length_blockAttach, length_connect, length_mount] at hattach hconnect hmount
  exact ⟨by omega, by omega, by omega⟩

/-- **The commands fit their buffers exactly while the strings are short enough.** -/
theorem commands_fit_iff (x : FormatArgs) :
    (∀ site : FormatSite, (x.command site).length ≤ site.buffer) ↔ ShortEnough x :=
  ⟨short_of_commands_fit, commands_fit_of_short⟩

def longBase : String := "/var/lib/hyperagents/mounts/mmmmmmmmmmmmmmmmmmmmmmmmmmmmmmmmmmmmmmmmmmmmmmmmmmm/"

/-- **A base path of 80 characters overruns the buffer of the mount command**, for a Linux guest on the first slot. -/
theorem long_base_overruns : ¬ ∀ (x : FormatArgs) (site : FormatSite), (x.command site).length ≤ site.buffer := by
  intro h
  let x : FormatArgs := ⟨longBase, "", "", 1, 0, true⟩
  have hmount : (ShellCmd.mount x.check (nbdDev x.slot) x.dir).length ≤ 192 := h x .mount
  have hbase : (cStr longBase).utf8ByteSize = 80 := by decide
  have hdev : (nbdDev 0).utf8ByteSize = 4 := by decide
  have hcheck : x.check.utf8ByteSize = 11 := rfl
  have hdir : x.dir.utf8ByteSize = 80 + 4 := size_append hbase hdev
  rw [length_mount, hcheck, hdev, hdir] at hmount
  omega

/-! ## The commands of a call are those of the places -/

def HaAct.command : HaAct → Option ShellCmd
  | .system k _ | .sync _ (.system k) => some k
  | _ => none

def commands (t : List HaAct) : List ShellCmd := t.filterMap HaAct.command

/-- No command of the trace overruns its buffer. -/
def Fit (t : List HaAct) : Prop := ∀ k ∈ commands t, k.length ≤ k.buffer

instance : DecidablePred Fit := fun t => inferInstanceAs (Decidable (∀ k ∈ commands t, k.length ≤ k.buffer))

theorem commands_append (t u : List HaAct) : commands (t ++ u) = commands t ++ commands u := List.filterMap_append

theorem mem_commands_sync {v : Vmi} {t : List Act} {k : ShellCmd} :
    k ∈ commands (t.map (HaAct.sync v)) ↔ .system k ∈ t := by
  unfold commands
  rw [List.filterMap_map, List.mem_filterMap]
  constructor
  · rintro ⟨a, ha, hk⟩
    cases a with
    | system c =>
      cases hk
      exact ha
    | vmi c => cases hk
    | int3 e r => cases hk
    | step v => cases hk
    | guest a b => cases hk
  · exact fun h => ⟨_, h, rfl⟩

def Formatted (base ghost disk : String) (k : ShellCmd) : Prop :=
  ∃ (vmid : UInt64) (slot : Slot) (linux : Bool) (site : FormatSite),
    (FormatArgs.mk base disk ghost vmid slot linux).command site = k

section

variable {δ : Type} {shell : Shell δ} {env : MountEnv} {v : Vmi} {base ghost disk : String} {s : HaState δ}
  {k : ShellCmd}

theorem syncTrace_formatted {c : SyncCall} {g : Globals} {guest : Guest} (hghost : cStr ghost = ghost)
    (hk : .system k ∈ syncTrace ghost c g guest) : Formatted base ghost disk k := by
  have hattach : Formatted base ghost disk (.xlBlockAttach c.vmid ghost) :=
    ⟨c.vmid, 0, true, .blockAttach, congrArg _ hghost⟩
  have hlist : Formatted base ghost disk (.xlBlockList c.vmid) := ⟨c.vmid, 0, true, .blockList, rfl⟩
  unfold syncTrace at hk
  cases hsync : doSync ghost c g guest with
  | none =>
    rw [hsync] at hk
    rcases runTicks_system c.ticks (mem_effects.2 ⟨hk, rfl⟩) with hk | rfl | rfl
    · exact absurd hk (listening_system _ _ _ _)
    · exact hattach
    · exact hlist
  | some p =>
    obtain ⟨ret, t⟩ := p
    rw [hsync] at hk
    rcases doSync_commands hsync hk with rfl | rfl | rfl
    · exact hattach
    · exact hlist
    · exact ⟨c.vmid, 0, true, .blockDetach, rfl⟩

theorem partitionTrace_formatted {i : Slot} {host : δ} (hbase : cStr base = base)
    (hk : k ∈ commands (partitionTrace shell env base (nbdDev i) v host)) : Formatted base ghost disk k := by
  have hdir : cStr base ++ nbdDev i = base ++ nbdDev i := congrArg (· ++ nbdDev i) hbase
  have h : k ∈ [ShellCmd.kpartxAdd (nbdDev i), .umount (base ++ nbdDev i),
    .mount (if env.linux then "check=none," else "") (nbdDev i) (base ++ nbdDev i)] := hk
  simp only [List.mem_cons, List.not_mem_nil, or_false] at h
  rcases h with rfl | rfl | rfl
  · exact ⟨0, i, env.linux, .kpartx, rfl⟩
  · exact ⟨0, i, env.linux, .precautionaryUmount, congrArg _ hdir⟩
  · exact ⟨0, i, env.linux, .mount, congrArg _ hdir⟩

theorem nbdMountTrace_formatted {i : Slot} (hbase : cStr s.baseMountpoint = s.baseMountpoint)
    (hghost : cStr s.ghostImage = s.ghostImage) (hdisk : cStr disk = disk)
    (hk : k ∈ commands (nbdMountTrace shell env (nbdDev i) v disk s)) :
    Formatted s.baseMountpoint s.ghostImage disk k := by
  have hk : k ∈ commands ((syncTrace s.ghostImage env.sync s.globals (s.guestOf v)).map (HaAct.sync v) ++ _) := hk
  rw [commands_append, List.mem_append] at hk
  rcases hk with hk | hk
  · exact syncTrace_formatted hghost (mem_commands_sync.1 hk)
  · cases hsync : doSync s.ghostImage env.sync s.globals (s.guestOf v) with
    | none =>
      rw [hsync] at hk
      cases hk
    | some p =>
      rw [hsync] at hk
      rcases List.mem_cons.1 (show k ∈ _ :: commands _ from hk) with rfl | hk
      · exact ⟨0, i, env.linux, .connect, congrArg _ hdisk⟩
      · split at hk
        · cases hk
        · exact partitionTrace_formatted hbase hk

theorem nbdUnmountTrace_formatted {i : Slot} (hbase : cStr s.baseMountpoint = s.baseMountpoint)
    (hk : k ∈ commands (nbdUnmountTrace shell (nbdDev i) v s)) : Formatted s.baseMountpoint ghost disk k := by
  have h : k ∈ [ShellCmd.umountLazy (s.baseMountpoint ++ nbdDev i), .qemuNbdDisconnect (nbdDev i)] := hk
  simp only [List.mem_cons, List.not_mem_nil, or_false] at h
  rcases h with rfl | rfl
  · exact ⟨0, i, true, .umount, congrArg (ShellCmd.umountLazy <| · ++ nbdDev i) hbase⟩
  · exact ⟨0, i, true, .disconnect, rfl⟩

theorem commands_stealTrace (rs : Records) (cs : List Timeval) (m : Int × Slot) : commands (stealTrace rs cs m) = [] :=
  filterMap_stealTrace rfl rfl rfl rs cs m

theorem commands_releaseTrace (dev : Int) (s : HaState δ) : commands (releaseTrace dev s) = [] := by
  unfold releaseTrace
  split
  · dsimp only
    split
    · cases s.records.owner ⟨dev.toNat, ‹_›⟩ <;> rfl
    · rfl
  · rfl

theorem commands_statusTrace (s : HaState δ) : commands (statusTrace s) = [] := by
  unfold commands statusTrace
  rw [List.filterMap_filterMap, List.filterMap_eq_nil_iff]
  intro i _
  cases s.records.owner i <;> rfl

theorem commands_destroyTraces : ∀ has : List HAConfig, commands (has.flatMap destroyTrace) = []
  | [] => rfl
  | _ :: has => commands_destroyTraces has

theorem requestTrace_formatted (hbase : cStr s.baseMountpoint = s.baseMountpoint)
    (hghost : cStr s.ghostImage = s.ghostImage) (hdisk : cStr disk = disk)
    (hk : k ∈ commands (requestTrace shell env v disk s)) : Formatted s.baseMountpoint s.ghostImage disk k := by
  unfold requestTrace at hk
  cases hl : s.records.lookup v with
  | some j =>
    rw [hl] at hk
    cases hk
  | none =>
    rw [hl] at hk
    cases hf : s.records.firstFree with
    | some j =>
      rw [hf] at hk
      have h := nbdMountTrace_formatted (s := { s with records := s.records.claim j v }) hbase hghost hdisk hk
      exact h
    | none =>
      rw [hf] at hk
      have hk : k ∈ commands (stealTrace s.records env.clocks (0, 0) ++ _) := hk
      rw [commands_append, commands_stealTrace, List.nil_append] at hk
      cases hsteal : stealLoop (s.vmi v .getName) env.clocks (0, 0) with
      | none =>
        rw [hsteal] at hk
        cases hk
      | some found =>
        obtain ⟨i, u⟩ := found
        obtain ⟨-, log, rfl⟩ := stealLoop_some env.clocks _ (0, 0) (by decide) hsteal
        rw [hsteal] at hk
        dsimp only at hk
        rw [commands_append, commands_append, List.mem_append, List.mem_append] at hk
        rcases hk with (hk | hk) | hk
        · have h : Formatted s.baseMountpoint s.ghostImage disk k := nbdUnmountTrace_formatted hbase hk
          exact h
        · obtain ⟨hkept, -, -, -⟩ := @doNbdUnmount_effect δ shell (nbdDev i) v { s.vmi v .getName with log := log }
          have hb := hkept.baseMountpoint
          have hg := hkept.ghostImage
          have h := nbdMountTrace_formatted (by rw [hb]; exact hbase) (by rw [hg]; exact hghost) hdisk hk
          rw [hb, hg] at h
          exact h
        · cases hm : doNbdMount shell env (nbdDev i) v disk _ with
          | ok a =>
            rw [hm] at hk
            cases hk
          | error e =>
            rw [hm] at hk
            cases hk

theorem mem_dropTrace : ∀ (is : List Slot) (host : δ), k ∈ commands (dropTrace shell base is host) →
    ∃ i : Slot, k = .umount (base ++ nbdDev i) ∨ k = .qemuNbdDisconnect (nbdDev i)
  | [], _, hk => by cases hk
  | i :: is, host, hk => by
    rcases List.mem_cons.1 (show k ∈ _ :: _ :: commands _ from hk) with rfl | hk
    · exact ⟨i, .inl rfl⟩
    · rcases List.mem_cons.1 hk with rfl | hk
      · exact ⟨i, .inr rfl⟩
      · exact mem_dropTrace is _ hk

theorem dropTrace_formatted (hbase : cStr base = base) (is : List Slot) (host : δ)
    (hk : k ∈ commands (dropTrace shell base is host)) : Formatted base ghost disk k := by
  obtain ⟨i, rfl | rfl⟩ := mem_dropTrace is host hk
  · exact ⟨0, i, true, .dropUmount, congrArg (ShellCmd.umount <| · ++ nbdDev i) hbase⟩
  · exact ⟨0, i, true, .dropDisconnect, rfl⟩

end

/-- The strings of a HAMain are as its commands show them, up to their end. -/
structure NulFree {δ : Type} (s : HaState δ) : Prop where
  base : cStr s.baseMountpoint = s.baseMountpoint
  ghost : cStr s.ghostImage = s.ghostImage
  disk : ∀ n ha, s.agents n = some ha → cStr ha.diskPath = ha.diskPath

/-- **Every command of a call is one of the places', formatted with an agent's disk.** -/
theorem call_formatted {δ : Type} {shell : Shell δ} {s : HaState δ} (hs : NulFree s) (call : HaCall) {k : ShellCmd}
    (hk : k ∈ commands (callTrace shell s call)) :
    ∃ disk, (disk = "" ∨ ∃ n ha, s.agents n = some ha ∧ ha.diskPath = disk) ∧
      Formatted s.baseMountpoint s.ghostImage disk k := by
  cases call with
  | op o =>
    cases o with
    | addAgent n r d ok m => cases ok <;> cases hk
    | mountDisk n env =>
      simp only [callTrace] at hk
      cases ha : s.agents n with
      | none =>
        rw [ha] at hk
        cases hk
      | some ha' =>
        rw [ha] at hk
        exact ⟨ha'.diskPath, .inr ⟨n, ha', ha, rfl⟩,
          requestTrace_formatted hs.base hs.ghost (hs.disk n ha' ha) hk⟩
    | unmountDisk n =>
      simp only [callTrace] at hk
      cases ha : s.agents n with
      | none =>
        rw [ha] at hk
        cases hk
      | some ha' =>
        rw [ha, commands_releaseTrace] at hk
        cases hk
  | printStatus =>
    have hk : k ∈ commands (statusTrace s ++ [.unlockVmi]) := hk
    rw [commands_append, commands_statusTrace] at hk
    cases hk
  | destroyConfig ha => cases hk
  | destroyMain names =>
    simp only [callTrace, commands_append, commands_destroyTraces, List.nil_append] at hk
    exact ⟨"", .inl rfl, dropTrace_formatted hs.base _ _ hk⟩

/-- Short enough whatever the slot and the guest. -/
structure ShortStrings {δ : Type} (s : HaState δ) : Prop where
  base : s.baseMountpoint.utf8ByteSize ≤ 69
  ghost : s.ghostImage.utf8ByteSize ≤ 78
  disk : ∀ n ha, s.agents n = some ha → ha.diskPath.utf8ByteSize ≤ 158

theorem check_size (x : FormatArgs) : x.check.utf8ByteSize ≤ 11 := by
  unfold FormatArgs.check
  cases x.linux <;> decide

theorem buffer_eq (x : FormatArgs) (site : FormatSite) : site.buffer = (x.command site).buffer := by
  cases site <;> rfl

/-- **No command of a call overruns its buffer** where the strings are short. -/
theorem call_commands_fit {δ : Type} {shell : Shell δ} {s : HaState δ} (hs : NulFree s) (hshort : ShortStrings s)
    (call : HaCall) : Fit (callTrace shell s call) := by
  intro k hk
  obtain ⟨disk, hdisk, vmid, slot, linux, site, rfl⟩ := call_formatted hs call hk
  have hcheck := check_size ⟨s.baseMountpoint, disk, s.ghostImage, vmid, slot, linux⟩
  have hdev := nbdDev_size slot
  have hvmid := vmid_size vmid
  have hsize : (cStr disk).utf8ByteSize ≤ 158 := by
    rcases hdisk with rfl | ⟨n, ha, hn, rfl⟩
    · decide
    · rw [hs.disk n ha hn]
      exact hshort.disk n ha hn
  rw [← buffer_eq]
  refine commands_fit_of_short ⟨?_, ?_, ?_⟩ site
  · rw [hs.ghost]
    exact Nat.add_le_add hvmid hshort.ghost
  · exact Nat.add_le_add hdev hsize
  · rw [hs.base]
    exact Nat.add_le_add (Nat.add_le_add hcheck (Nat.mul_le_mul_left 2 hdev)) hshort.base

end Hyperagents
