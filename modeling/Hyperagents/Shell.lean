import Mathlib.Data.Nat.Notation
/-!
# The shell commands the library runs

Every command goes through `sprintf` into a stack buffer and from there to `system`.  `ShellCmd` is one constructor
for each format string, with the values it is given; `ShellCmd.text` is the string the format makes of them.  What a
command does is the host's affair (`Shell`): the library reads only the status `system` returns.
-/
namespace Hyperagents

inductive ShellCmd
  | umount (dir : String)
  | umountLazy (dir : String)
  | qemuNbdConnect (dev disk : String)
  | qemuNbdDisconnect (dev : String)
  | kpartxAdd (dev : String)
  | mount (check dev dir : String)
  | xlBlockAttach (vmid : UInt64) (image : String)
  | xlBlockList (vmid : UInt64)
  | xlBlockDetach (vmid : UInt64)
  deriving DecidableEq, Repr

/-- The formatted command, as `system` gets it. -/
def ShellCmd.text : ShellCmd → String
  | .umount dir => "umount " ++ dir
  | .umountLazy dir => "umount -l " ++ dir
  | .qemuNbdConnect dev disk => "qemu-nbd -nf qcow2 -c /dev/" ++ dev ++ " " ++ disk
  | .qemuNbdDisconnect dev => "qemu-nbd -d /dev/" ++ dev
  | .kpartxAdd dev => "kpartx -av /dev/" ++ dev
  | .mount check dev dir =>
    "mount -o " ++ check ++
      "ro,nodev,nodiratime,noexec,noiversion,nomand,norelatime,nostrictatime,nosuid /dev/mapper/" ++
      dev ++ "p1 " ++ dir
  | .xlBlockAttach vmid image => "xl block-attach " ++ toString vmid ++ " file:" ++ image ++ " xvdz r"
  | .xlBlockList vmid => "xl block-list " ++ toString vmid
  | .xlBlockDetach vmid => "xl block-detach " ++ toString vmid ++ " xvdz"

/-- A host: what a command does to its state, and the status `system` returns. -/
structure Shell (δ : Type) where
  system : ShellCmd → δ → Int × δ

end Hyperagents
