import Mathlib.Data.Nat.Notation
import Mathlib.Data.List.Defs
/-!
# Hexadecimal numbers as C prints and scans them

`printX` is `printf`'s `%0wx`, `scanX` is `scanf`'s `%x`: it skips white space and takes an optional sign, an optional
`0x` and as many digits as there are.  Two digits printed are scanned back, whatever follows that is no digit
(`scanX_printX`).
-/
namespace HexText

def printX (w n : Nat) : List Char := List.leftpad w '0' (Nat.toDigits 16 n)

def value (c : Char) : Option Nat :=
  if '0' ≤ c ∧ c ≤ '9' then some (c.toNat - 48)
  else if 'a' ≤ c ∧ c ≤ 'f' then some (c.toNat - 87)
  else if 'A' ≤ c ∧ c ≤ 'F' then some (c.toNat - 55)
  else none

def isSpace (c : Char) : Bool := [' ', '\t', '\n', '\x0b', '\x0c', '\r'].contains c

def skipSign (cs : List Char) : List Char := if cs.head? = some '-' ∨ cs.head? = some '+' then cs.tail else cs

def skipPrefix (cs : List Char) : List Char :=
  if cs.head? = some '0' ∧ (cs[1]? = some 'x' ∨ cs[1]? = some 'X') then cs.drop 2 else cs

/-- As many digits as there are, after the value of the digits before. -/
def scanDigits : Nat → List Char → Nat × List Char
  | v, [] => (v, [])
  | v, c :: cs =>
    match value c with
    | some d => scanDigits (16 * v + d) cs
    | none => (v, c :: cs)

/-- The value as `strtoul` returns it, stored in an `unsigned`. -/
def store (neg : Bool) (v : Nat) : UInt32 :=
  if 18446744073709551616 ≤ v then 4294967295 else if neg then -UInt32.ofNat v else UInt32.ofNat v

def scanX (cs : List Char) : Option (UInt32 × List Char) :=
  let cs := cs.dropWhile isSpace
  let neg := cs.head? = some '-'
  match skipPrefix (skipSign cs) with
  | [] => none
  | c :: cs => (value c).map fun d => (store neg (scanDigits d cs).1, (scanDigits d cs).2)

/-! ## A byte printed with two digits -/

/-- A digit is read as its value, and is neither white space nor part of a sign or a prefix. -/
theorem digitChar_fin : ∀ d : Fin 16, value (Nat.digitChar d) = some d.val ∧ isSpace (Nat.digitChar d) = false ∧
    Nat.digitChar d ≠ '-' ∧ Nat.digitChar d ≠ '+' ∧ Nat.digitChar d ≠ 'x' ∧ Nat.digitChar d ≠ 'X' := by
  decide

theorem value_digitChar {d : Nat} (h : d < 16) : value (Nat.digitChar d) = some d := (digitChar_fin ⟨d, h⟩).1

theorem printX_two {n : Nat} (h : n < 256) : printX 2 n = [Nat.digitChar (n / 16), Nat.digitChar (n % 16)] := by
  unfold printX
  by_cases hone : n < 16
  · rw [Nat.toDigits_of_lt_base hone, Nat.div_eq_of_lt hone, Nat.mod_eq_of_lt hone]
    rfl
  · have hhigh : n / 16 < 16 := by omega
    rw [Nat.toDigits_of_base_le (by decide) (by omega), Nat.toDigits_of_lt_base hhigh]
    rfl

variable {rest : List Char}

theorem scanDigits_stop (v : Nat) (h : ∀ c ∈ rest.head?, value c = none) : scanDigits v rest = (v, rest) := by
  cases rest with
  | nil => rfl
  | cons c cs =>
    unfold scanDigits
    rw [h c rfl]

theorem scanDigits_digit {d : Nat} (hd : d < 16) (v : Nat) (cs : List Char) :
    scanDigits v (Nat.digitChar d :: cs) = scanDigits (16 * v + d) cs := by
  conv => lhs; unfold scanDigits
  rw [value_digitChar hd]

/-- **Two digits printed are scanned back.** -/
theorem scanX_printX {n : Nat} (hn : n < 256) (h : ∀ c ∈ rest.head?, value c = none) :
    scanX (printX 2 n ++ rest) = some (UInt32.ofNat n, rest) := by
  have hhigh : n / 16 < 16 := by omega
  have hlow : n % 16 < 16 := by omega
  obtain ⟨hval, hspace, hminus, hplus, -, -⟩ := digitChar_fin ⟨n / 16, hhigh⟩
  obtain ⟨-, -, -, -, hx, hX⟩ := digitChar_fin ⟨n % 16, hlow⟩
  dsimp only at hval hspace hminus hplus hx hX
  have hcs : printX 2 n ++ rest = Nat.digitChar (n / 16) :: Nat.digitChar (n % 16) :: rest := by rw [printX_two hn]; rfl
  have hskip : (printX 2 n ++ rest).dropWhile isSpace = printX 2 n ++ rest := by
    rw [hcs, List.dropWhile_cons, hspace]
    rfl
  have hsign : skipSign (printX 2 n ++ rest) = printX 2 n ++ rest := by
    rw [hcs]
    unfold skipSign
    simp [hminus, hplus]
  have hprefix : skipPrefix (printX 2 n ++ rest) = printX 2 n ++ rest := by
    rw [hcs]
    unfold skipPrefix
    simp [hx, hX]
  have hneg : ¬ (printX 2 n ++ rest).head? = some '-' := by
    rw [hcs]
    simp [hminus]
  have hsum : 16 * (n / 16) + n % 16 = n := Nat.div_add_mod n 16
  have hstore : store false n = UInt32.ofNat n := if_neg (by omega)
  unfold scanX
  dsimp only
  rw [hskip, hsign, hprefix, decide_eq_false hneg, hcs]
  dsimp only
  rw [hval, Option.map_some, scanDigits_digit hlow, hsum, scanDigits_stop n h, hstore]

end HexText
