import Hyperagents.ByteMemory
import Mathlib.Logic.Relation
/-!
# Sleds

A processor that knows three instructions of x86-64: `nop`, the move of an immediate to `rax`, and `syscall`, at which
it stops.  It comes through a stretch of `nop`s from wherever in it it starts (`Reaches.sled`), and so makes the system
call of the code at the stretch's end (`Calls.of_sled`).
-/
namespace Sleds

open ByteMemory Relation

structure Cpu where
  rip : Int
  rax : UInt64

inductive Insn
  | nop
  | movRax (imm : UInt32)
  | syscall
  deriving DecidableEq, Repr

def decode (m : Memory) (rip : Int) : Option Insn :=
  if m rip = 0x90 then some .nop
  else if bytesAt m rip 3 = [0x48, 0xc7, 0xc0] then some (.movRax (ofBytes (bytesAt m (rip + 3) 4)).toUInt32)
  else if bytesAt m rip 2 = [0x0f, 0x05] then some .syscall
  else none

/-- The immediate is sign-extended. -/
def signExtend (imm : UInt32) : UInt64 :=
  if imm < 0x80000000 then imm.toUInt64 else imm.toUInt64 ||| 0xffffffff00000000

/-- One instruction, other than a system call. -/
def step (m : Memory) (c : Cpu) : Option Cpu :=
  match decode m c.rip with
  | some .nop => some { c with rip := c.rip + 1 }
  | some (.movRax imm) => some ⟨c.rip + 7, signExtend imm⟩
  | some .syscall | none => none

def Reaches (m : Memory) : Cpu → Cpu → Prop := ReflTransGen fun c d => step m c = some d

/-- The processor comes to a system call, with this number. -/
def Calls (m : Memory) (c : Cpu) (number : UInt64) : Prop :=
  ∃ d, Reaches m c d ∧ decode m d.rip = some .syscall ∧ d.rax = number

/-- Nothing but `nop`s from `a` up to `b`. -/
def Sled (m : Memory) (a b : Int) : Prop := ∀ x, a ≤ x → x < b → m x = 0x90

variable {m : Memory} {a b rip : Int} {rax number : UInt64} {c d : Cpu}

theorem step_nop (h : m rip = 0x90) : step m ⟨rip, rax⟩ = some ⟨rip + 1, rax⟩ := by
  have hdecode : decode m rip = some .nop := if_pos h
  unfold step
  rw [hdecode]

/-- **Through a sled**, from anywhere in it to its end. -/
theorem Reaches.sled (hsled : Sled m a b) (k : Nat) (hk : b = rip + k) (ha : a ≤ rip) :
    Reaches m ⟨rip, rax⟩ ⟨b, rax⟩ := by
  induction k generalizing rip with
  | zero =>
    obtain rfl : b = rip := by omega
    exact .refl
  | succ k ih =>
    have hnop : m rip = 0x90 := hsled rip ha (by omega)
    exact .head (step_nop hnop) (ih (by omega) (by omega))

theorem Calls.of_reaches (h : Reaches m c d) (hd : Calls m d number) : Calls m c number := by
  obtain ⟨e, he, hcall⟩ := hd
  exact ⟨e, h.trans he, hcall⟩

/-- The code that makes one system call. -/
def callCode (number : Nat) : List UInt8 := [0x48, 0xc7, 0xc0] ++ toBytes 4 number ++ [0x0f, 0x05]

theorem length_callCode (number : Nat) : (callCode number).length = 9 := by
  simp [callCode, length_toBytes]

theorem bytesAt_add (m : Memory) (a : Int) (n k : Nat) :
    bytesAt m a (n + k) = bytesAt m a n ++ bytesAt m (a + n) k := by
  unfold bytesAt
  rw [List.range_add, List.map_append, List.map_map]
  congr 1
  apply List.map_congr_left
  intro j _
  simp [add_assoc]

/-- The three parts of the code, each at its address. -/
theorem parts_of_code {number : Nat} (h : bytesAt m rip 9 = callCode number) :
    bytesAt m rip 3 = [0x48, 0xc7, 0xc0] ∧ bytesAt m (rip + 3) 4 = toBytes 4 number ∧
      bytesAt m (rip + 7) 2 = [0x0f, 0x05] := by
  rw [show 9 = 3 + 4 + 2 from rfl, bytesAt_add, bytesAt_add] at h
  obtain ⟨hhead, hcall⟩ := List.append_inj h (by simp [length_bytesAt, length_toBytes])
  obtain ⟨hop, himm⟩ := List.append_inj hhead (by simp [length_bytesAt])
  exact ⟨hop, himm, hcall⟩

theorem head_bytesAt {x : UInt8} {xs : List UInt8} {n : Nat} (h : bytesAt m a (n + 1) = x :: xs) : m a = x := by
  rw [show n + 1 = 1 + n from Nat.add_comm n 1, bytesAt_add] at h
  have hone : bytesAt m a 1 = [m a] := by simp [bytesAt]
  rw [hone] at h
  exact (List.cons.inj h).1

theorem Calls.of_code {number : Nat} (hnumber : number < 256 ^ 4) (h : bytesAt m rip 9 = callCode number) :
    Calls m ⟨rip, rax⟩ (signExtend number.toUInt32) := by
  obtain ⟨hop, himm, hcall⟩ := parts_of_code h
  have hmov : decode m rip = some (.movRax number.toUInt32) := by
    have hnop : m rip ≠ 0x90 := by
      rw [head_bytesAt hop]
      decide
    unfold decode
    rw [if_neg hnop, if_pos hop, himm, ofBytes_toBytes, Nat.mod_eq_of_lt hnumber]
  have hsyscall : decode m (rip + 7) = some .syscall := by
    have hfirst : m (rip + 7) = 0x0f := head_bytesAt hcall
    have hnop : m (rip + 7) ≠ 0x90 := by
      rw [hfirst]
      decide
    have hmove : bytesAt m (rip + 7) 3 ≠ [0x48, 0xc7, 0xc0] := fun e => by
      rw [head_bytesAt e] at hfirst
      exact absurd hfirst (by decide)
    unfold decode
    rw [if_neg hnop, if_neg hmove, if_pos hcall]
  have hstep : step m ⟨rip, rax⟩ = some ⟨rip + 7, signExtend number.toUInt32⟩ := by
    unfold step
    rw [hmov]
  exact ⟨_, .single hstep, hsyscall, rfl⟩

/-- **The system call at the end of a sled** is made from anywhere in the sled. -/
theorem Calls.of_sled {number : Nat} (hnumber : number < 256 ^ 4) (hsled : Sled m a b)
    (hcode : bytesAt m b 9 = callCode number) (ha : a ≤ rip) (hb : rip ≤ b) :
    Calls m ⟨rip, rax⟩ (signExtend number.toUInt32) := by
  obtain ⟨k, hk⟩ := Int.le.dest hb
  exact (Calls.of_code hnumber hcode).of_reaches (.sled hsled k hk.symm ha)

end Sleds
