import Mathlib.Data.List.Basic
import Mathlib.Data.Nat.Digits.Defs
/-!
# Memory by bytes

A memory has a byte at each address; a word is eight bytes, the lowest first (`word`), and determines them
(`word_eq_iff`).  Writing bytes changes those they cover (`cover`) and no others.
-/
namespace ByteMemory

abbrev Memory := Int → UInt8

def bytesAt (m : Memory) (a : Int) (n : Nat) : List UInt8 := (List.range n).map fun k : Nat => m (a + k)

def ofBytes (bs : List UInt8) : Nat := Nat.ofDigits 256 (bs.map UInt8.toNat)

def word (m : Memory) (a : Int) : Nat := ofBytes (bytesAt m a 8)

/-- The lowest `n` bytes of a number. -/
def toBytes : Nat → Nat → List UInt8
  | 0, _ => []
  | n + 1, v => v.toUInt8 :: toBytes n (v / 256)

/-- What bytes written at `a` put at an address. -/
def cover (a : Int) (bs : List UInt8) (x : Int) : Option UInt8 := if a ≤ x then bs[(x - a).toNat]? else none

def write (m : Memory) (a : Int) (bs : List UInt8) : Memory := fun x => (cover a bs x).getD (m x)

/-- Some of the bytes written at `a` are there, and everything else is as it was. -/
def WrittenPart (m : Memory) (a : Int) (bs : List UInt8) (m' : Memory) : Prop :=
  ∀ x, m' x = m x ∨ cover a bs x = some (m' x)

/-- The words at the two addresses have no byte in common. -/
def Apart (a b : Int) : Prop := a + 8 ≤ b ∨ b + 8 ≤ a

instance (a b : Int) : Decidable (Apart a b) := inferInstanceAs (Decidable (_ ∨ _))

variable {m m' : Memory} {a b x : Int} {bs bs' : List UInt8} {n v : Nat}

theorem Apart.symm (h : Apart a b) : Apart b a := Or.symm h

theorem lt_of_mem_toNat (bs : List UInt8) : ∀ d ∈ bs.map UInt8.toNat, d < 256 := by
  intro d hd
  obtain ⟨b, -, rfl⟩ := List.mem_map.1 hd
  exact b.toNat_lt

theorem length_toBytes : ∀ n v, (toBytes n v).length = n
  | 0, _ => rfl
  | n + 1, v => congrArg (· + 1) (length_toBytes n (v / 256))

theorem length_bytesAt (m : Memory) (a : Int) (n : Nat) : (bytesAt m a n).length = n := by
  simp [bytesAt]

theorem getElem_bytesAt {k : Nat} (hk : k < (bytesAt m a n).length) : (bytesAt m a n)[k] = m (a + k) := by
  simp [bytesAt]

theorem ofBytes_toBytes : ∀ n v, ofBytes (toBytes n v) = v % 256 ^ n
  | 0, v => by simp [toBytes, ofBytes, Nat.mod_one]
  | n + 1, v => by
    have ih := ofBytes_toBytes n (v / 256)
    unfold ofBytes at ih ⊢
    rw [toBytes, List.map_cons, Nat.ofDigits_cons, ih, pow_succ', Nat.mod_mul]
    rfl

theorem ofBytes_lt : ofBytes bs < 256 ^ bs.length := by
  have h := Nat.ofDigits_lt_base_pow_length (by decide) (lt_of_mem_toNat bs)
  rwa [List.length_map] at h

theorem ofBytes_inj (h : bs.length = bs'.length) : ofBytes bs = ofBytes bs' ↔ bs = bs' := by
  constructor
  · intro heq
    have hlen : (bs.map UInt8.toNat).length = (bs'.map UInt8.toNat).length := by simp [h]
    have hbytes := Nat.ofDigits_inj_of_len_eq (by decide) hlen (lt_of_mem_toNat bs) (lt_of_mem_toNat bs') heq
    exact (List.map_inj_right fun _ _ => UInt8.toNat_inj.1).1 hbytes
  · rintro rfl
    rfl

/-- **A word determines its bytes.** -/
theorem word_eq_iff (hv : v < 256 ^ 8) : word m a = v ↔ bytesAt m a 8 = toBytes 8 v := by
  have hmod := ofBytes_toBytes 8 v
  rw [Nat.mod_eq_of_lt hv] at hmod
  unfold word
  rw [← ofBytes_inj (by rw [length_bytesAt, length_toBytes]), hmod]

theorem bytesAt_congr (h : ∀ k : Nat, k < n → m (a + k) = m' (a + k)) : bytesAt m a n = bytesAt m' a n :=
  List.map_congr_left fun k hk => h k (List.mem_range.1 hk)

theorem word_congr (h : ∀ k : Nat, k < 8 → m (a + k) = m' (a + k)) : word m a = word m' a :=
  congrArg ofBytes (bytesAt_congr h)

theorem word_eq_zero_iff : word m a = 0 ↔ ∀ k : Nat, k < 8 → m (a + k) = 0 := by
  rw [word_eq_iff (by decide)]
  constructor
  · intro h k hk
    have hmem : m (a + k) ∈ bytesAt m a 8 := List.mem_map_of_mem (List.mem_range.2 hk)
    rw [h] at hmem
    simpa [toBytes] using hmem
  · intro h
    have hzero : ∀ k : Nat, k < 8 → m (a + k) = (0 : Memory) (a + k) := h
    exact bytesAt_congr hzero

/-! ## Writing -/

theorem cover_none (h : x < a ∨ a + bs.length ≤ x) : cover a bs x = none := by
  unfold cover
  split
  · apply List.getElem?_eq_none
    omega
  · rfl

theorem cover_add {k : Nat} (hk : k < bs.length) : cover a bs (a + k) = some bs[k] := by
  have hindex : (a + k - a).toNat = k := by omega
  unfold cover
  rw [if_pos (by omega), hindex]
  exact List.getElem?_eq_getElem hk

theorem write_outside (h : x < a ∨ a + bs.length ≤ x) : write m a bs x = m x := by
  unfold write
  rw [cover_none h]
  rfl

theorem cover_take {k : Nat} {v : UInt8} (h : cover a (bs.take k) x = some v) : cover a bs x = some v := by
  unfold cover at h ⊢
  by_cases hx : a ≤ x
  · rw [if_pos hx, List.getElem?_take] at h
    rw [if_pos hx]
    split at h
    · exact h
    · cases h
  · rw [if_neg hx] at h
    cases h

theorem writtenPart_take (m : Memory) (a : Int) (bs : List UInt8) (k : Nat) :
    WrittenPart m a bs (write m a (bs.take k)) := by
  intro x
  unfold write
  cases hcover : cover a (bs.take k) x with
  | none => exact .inl rfl
  | some v => exact .inr (cover_take hcover)

theorem WrittenPart.write (m : Memory) (a : Int) (bs : List UInt8) : WrittenPart m a bs (write m a bs) := by
  have hall := writtenPart_take m a bs bs.length
  rwa [List.take_length] at hall

theorem bytesAt_write_self (m : Memory) (a : Int) (bs : List UInt8) : bytesAt (write m a bs) a bs.length = bs := by
  apply List.ext_getElem (length_bytesAt _ _ _)
  intro k hk hk'
  rw [getElem_bytesAt]
  unfold write
  rw [cover_add hk']
  rfl

theorem word_write_toBytes (hv : v < 256 ^ 8) : word (write m a (toBytes 8 v)) a = v := by
  rw [word_eq_iff hv]
  have h := bytesAt_write_self m a (toBytes 8 v)
  rwa [length_toBytes] at h

theorem word_write_apart (h : Apart a b) (hlen : bs.length = 8) : word (write m a bs) b = word m b := by
  apply word_congr
  intro k hk
  apply write_outside
  unfold Apart at h
  omega

end ByteMemory
