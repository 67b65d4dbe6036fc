import Mathlib.Data.Int.Notation
/-!
# pyvmi, as the actuators in Python use it

A Python 2 string is a list of bytes (`PyStr`), its integers have no bound.  `Pyvmi` is what the library answers for
one guest that does not change: the calls come from outside this repository, and one that fails raises a `ValueError`.
-/
namespace Hyperagents

abbrev PyStr := List UInt8

def py (s : String) : PyStr := s.toList.map Char.toUInt8

inductive PyError
  | valueError
  | attributeError
  | keyError
  deriving DecidableEq, Repr

structure Pyvmi where
  getOffset : String → Except PyError Int
  readAddrVa : (va pid : Int) → Except PyError Int
  read32Va : (va pid : Int) → Except PyError Int
  readStrVa : (va pid : Int) → Except PyError PyStr
  translateUv2p : (va pid : Int) → Except PyError Int
  readPa : (pa n : Int) → Except PyError PyStr

/-- The dictionary of OS offsets an actuator is given. -/
abbrev Cfg := String → Int

/-- All reads of the guest's memory succeed. -/
structure Pyvmi.Readable (vmi : Pyvmi) : Prop where
  addr : ∀ va pid, ∃ w, vmi.readAddrVa va pid = .ok w
  str : ∀ va pid, ∃ s, vmi.readStrVa va pid = .ok s

/-- A guest of which some words and strings are known, each by its address; all others are zero. -/
def tableGuest (words : List (Int × Int)) (strs : List (Int × PyStr)) : Pyvmi where
  getOffset _ := .error .valueError
  readAddrVa va _ := .ok ((words.lookup va).getD 0)
  read32Va va _ := .ok ((words.lookup va).getD 0)
  readStrVa va _ := .ok ((strs.lookup va).getD [])
  translateUv2p _ _ := .error .valueError
  readPa _ _ := .error .valueError

theorem tableGuest_readable (words : List (Int × Int)) (strs : List (Int × PyStr)) :
    (tableGuest words strs).Readable := ⟨fun _ _ => ⟨_, rfl⟩, fun _ _ => ⟨_, rfl⟩⟩

end Hyperagents
