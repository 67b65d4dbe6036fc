import Hyperagents.ByteMemory
import Hyperagents.Pyvmi
/-!
# pyvmi on a guest it writes

Two actuators write the memory they read.  The calls of `PyvmiRw` are given the guest's memory, and those that write
return it as it is afterwards.
-/
namespace Hyperagents

open ByteMemory

structure PyvmiRw where
  readAddrVa : Memory → (va pid : Int) → Except PyError Int
  read64Va : Memory → (va pid : Int) → Except PyError Int
  write64Va : Memory → (va pid v : Int) → Except PyError Memory
  writeVa : Memory → (va pid : Int) → PyStr → Except PyError Memory

/-- Every read and write of the kernel's memory succeeds, of a number that eight bytes can hold. -/
structure PyvmiRw.Works (vmi : PyvmiRw) : Prop where
  readAddr : ∀ m va, vmi.readAddrVa m va 0 = .ok (word m va)
  write64 : ∀ m va v, v < 256 ^ 8 → vmi.write64Va m va 0 (v : Nat) = .ok (write m va (toBytes 8 v))

/-- Whether a read succeeds depends on its address, and so does whether a write that returns has had its effect. -/
structure PyvmiRw.ActsOn (vmi : PyvmiRw) (readable takes : Int → Bool) : Prop where
  readAddr : ∀ m va, vmi.readAddrVa m va 0 = if readable va then .ok (word m va : Int) else .error .valueError
  write : ∀ m va bs m', vmi.writeVa m va 0 bs = .ok m' → m' = if takes va then ByteMemory.write m va bs else m

/-- A guest that can be read at some addresses, and where writes to some take effect. -/
def byteGuest (readable takes : Int → Bool) : PyvmiRw where
  readAddrVa m va _ := if readable va then .ok (word m va : Int) else .error .valueError
  read64Va m va _ := if readable va then .ok (word m va : Int) else .error .valueError
  write64Va m va _ v :=
    if 0 ≤ v ∧ v < 18446744073709551616 then .ok (if takes va then write m va (toBytes 8 v.toNat) else m)
    else .error .valueError
  writeVa m va _ bs := .ok (if takes va then write m va bs else m)

theorem byteGuest_works : (byteGuest (fun _ => true) fun _ => true).Works := by
  refine ⟨fun _ _ => rfl, fun m va v hv => ?_⟩
  have hrange : 0 ≤ (v : Int) ∧ (v : Int) < 18446744073709551616 := by omega
  unfold byteGuest
  dsimp only
  rw [if_pos hrange, if_pos rfl, Int.toNat_natCast]

theorem byteGuest_actsOn (readable takes : Int → Bool) : (byteGuest readable takes).ActsOn readable takes := by
  refine ⟨fun _ _ => rfl, fun m va bs m' h => ?_⟩
  cases h
  rfl

end Hyperagents
