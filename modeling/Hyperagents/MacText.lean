import Hyperagents.ByteMemory
import Hyperagents.HexText
/-!
# A hardware address as text and as an integer

Actuator 13 prints the bytes of a network device's address as hexadecimal numbers with colons between them, scans the
text back into an array it fills from its end, and folds the array into one integer.  For six bytes that integer has the
first byte as its lowest (`macInt_of_six`), so it determines the address, and the text does.

Each number goes through an array of two characters, in which its NUL has no room: with one of three all would be as it
should (`mac_agrees_iff`), and as it is no address is printed in a way that C defines (`mac_never_agrees`).
-/
namespace Hyperagents

open ByteMemory HexText

/-- The source's `a` for one byte: a `char`, which is signed, to `unsigned int` and to `uint8_t`. -/
def charToUint8 (b : UInt8) : UInt8 := b.toInt8.toInt32.toUInt32.toUInt8

/-- `strncat` of a string without a NUL. -/
def strncat (dest src : List Char) (n : Nat) : List Char := dest ++ src.take n

/-- `sprintf` into an array of so many characters.  Where the text and its NUL do not fit it writes past the end, which
is undefined. -/
def sprintf (size : Nat) (text : List Char) : Option (List Char) := if text.length < size then some text else none

/-- The size of the source's `z`. -/
def zSize : Nat := 2

/-- The loop over the bytes read, `i` of them printed already, with `z` of so many characters. -/
def macLoop (size r : Nat) : Nat → List UInt8 → List Char → Option (List Char)
  | _, [], mac => some mac
  | i, b :: devAddr, mac => do
    let z ← sprintf size (printX 2 (charToUint8 b).toNat)
    let mac := strncat mac z 2
    macLoop size r (i + 1) devAddr (if i < r - 1 then strncat mac [':'] 1 else mac)

def macText (size : Nat) (devAddr : List UInt8) : Option (List Char) := macLoop size devAddr.length 0 devAddr []

/-- What `n` conversions `%x` with a colon between two of them take from a text. -/
def scanMac : Nat → List Char → List UInt32
  | 0, _ => []
  | n + 1, cs =>
    match scanX cs with
    | none => []
    | some (v, cs) => v :: (if cs.head? = some ':' then scanMac n cs.tail else [])

def foldInt (u : List UInt32) : UInt64 := u.foldl (fun res ui => (res <<< 8) + ui.toUInt64) 0

/-- The first number scanned is stored at `u+5`, the last at `u`.  With fewer than six the fold reads words not set. -/
def macInt (mac : List Char) : Option UInt64 :=
  let u := (scanMac 6 mac).reverse
  if u.length = 6 then some (foldInt u) else none

def twoDigits (b : UInt8) : List Char := [Nat.digitChar (b.toNat / 16), Nat.digitChar (b.toNat % 16)]

example : macText 3 [0xde, 0x0a, 0xff] = some "de:0a:ff".toList := by decide

/-! ## The text -/

/-- The sign extension is cut off again. -/
theorem charToUint8_eq (b : UInt8) : charToUint8 b = b := by
  apply UInt8.toBitVec_inj.1
  change BitVec.setWidth 8 (BitVec.signExtend 32 b.toBitVec) = b.toBitVec
  apply BitVec.eq_of_getLsbD_eq
  intro i hi
  have hi' : i < 32 := by omega
  rw [BitVec.getLsbD_setWidth, BitVec.getLsbD_signExtend]
  simp [hi, hi']

theorem printX_byte (b : UInt8) : printX 2 (charToUint8 b).toNat = twoDigits b := by
  rw [charToUint8_eq]
  exact printX_two b.toNat_lt

theorem text_cons_cons (b b' : UInt8) (devAddr : List UInt8) :
    [':'].intercalate ((b :: b' :: devAddr).map twoDigits) =
      twoDigits b ++ ':' :: [':'].intercalate ((b' :: devAddr).map twoDigits) := by
  rw [List.map_cons, List.map_cons, List.intercalate_cons_cons, List.append_assoc]
  rfl

theorem sprintf_byte {size : Nat} (hsize : 2 < size) (b : UInt8) :
    sprintf size (printX 2 (charToUint8 b).toNat) = some (twoDigits b) := by
  rw [printX_byte]
  exact if_pos hsize

/-- Two digits and a NUL are three characters. -/
theorem sprintf_overrun {size : Nat} (hsize : size ≤ 2) (b : UInt8) :
    sprintf size (printX 2 (charToUint8 b).toNat) = none := by
  rw [printX_byte]
  exact if_neg (Nat.not_lt.2 hsize)

/-- **The loop**: each byte two digits, with a colon after it if another one follows. -/
theorem macLoop_eq {size : Nat} (hsize : 2 < size) : ∀ (devAddr : List UInt8) (r i : Nat) (mac : List Char),
    r = i + devAddr.length →
      macLoop size r i devAddr mac = some (mac ++ [':'].intercalate (devAddr.map twoDigits))
  | [], _, _, mac, _ => congrArg some (List.append_nil mac).symm
  | [b], r, i, mac, hr => by
    have hlast : ¬ i < r - 1 := by
      rw [hr]
      simp
    unfold macLoop
    rw [sprintf_byte hsize]
    dsimp only [bind, Option.bind]
    rw [if_neg hlast]
    rfl
  | b :: b' :: devAddr, r, i, mac, hr => by
    rw [List.length_cons] at hr
    have hmore : i < r - 1 := by
      rw [hr]
      simp
    unfold macLoop
    rw [sprintf_byte hsize]
    dsimp only [bind, Option.bind]
    rw [if_pos hmore, macLoop_eq hsize (b' :: devAddr) r (i + 1) _ (by omega), text_cons_cons]
    simp [strncat, twoDigits]

theorem macText_eq {size : Nat} (hsize : 2 < size) (devAddr : List UInt8) :
    macText size devAddr = some ([':'].intercalate (devAddr.map twoDigits)) :=
  macLoop_eq hsize devAddr _ 0 [] (Nat.zero_add _).symm

/-- **The first byte overruns** an array of two characters. -/
theorem macText_overrun {size : Nat} (hsize : size ≤ 2) {devAddr : List UInt8} (hne : devAddr ≠ []) :
    macText size devAddr = none := by
  obtain ⟨b, devAddr, rfl⟩ := List.exists_cons_of_ne_nil hne
  unfold macText macLoop
  rw [sprintf_overrun hsize]
  rfl

/-! ## Scanned back -/

theorem scanX_twoDigits (b : UInt8) {rest : List Char} (h : ∀ c ∈ rest.head?, value c = none) :
    scanX (twoDigits b ++ rest) = some (b.toUInt32, rest) := by
  have hscan := scanX_printX b.toNat_lt h
  have hb : UInt32.ofNat b.toNat = b.toUInt32 := by simp
  rwa [printX_two b.toNat_lt, hb] at hscan

/-- **Scanning the text gives the bytes.** -/
theorem scanMac_text : ∀ devAddr : List UInt8,
    scanMac devAddr.length ([':'].intercalate (devAddr.map twoDigits)) = devAddr.map UInt8.toUInt32
  | [] => rfl
  | [b] => by
    have hend : ∀ c ∈ ([] : List Char).head?, value c = none := by simp
    have hscan := scanX_twoDigits b hend
    rw [List.append_nil] at hscan
    change scanMac 1 (twoDigits b) = [b.toUInt32]
    unfold scanMac
    rw [hscan]
    rfl
  | b :: b' :: devAddr => by
    have hcolon : ∀ cs : List Char, ∀ c ∈ (':' :: cs).head?, value c = none := by
      rintro cs c hc
      cases hc
      decide
    rw [text_cons_cons]
    change scanMac ((b' :: devAddr).length + 1) _ = _
    unfold scanMac
    rw [scanX_twoDigits b (hcolon _)]
    exact congrArg (List.cons b.toUInt32) ((if_pos rfl).trans (scanMac_text (b' :: devAddr)))

theorem foldInt_append (u : List UInt32) (ui : UInt32) : foldInt (u ++ [ui]) = (foldInt u <<< 8) + ui.toUInt64 := by
  unfold foldInt
  rw [List.foldl_append]
  rfl

/-- **The fold over bytes** stored from the end of the array: the first byte is the lowest. -/
theorem foldInt_bytes : ∀ bs : List UInt8, bs.length ≤ 8 →
    (foldInt (bs.map UInt8.toUInt32).reverse).toNat = ofBytes bs
  | [], _ => rfl
  | b :: bs, h => by
    rw [List.length_cons] at h
    have ih := foldInt_bytes bs (by omega)
    have hlt : ofBytes bs < 256 ^ 7 := ofBytes_lt.trans_le (Nat.pow_le_pow_right (by decide) (by omega))
    have hb := b.toNat_lt
    have hshift : (foldInt (bs.map UInt8.toUInt32).reverse <<< 8).toNat = ofBytes bs * 256 := by
      rw [UInt64.toNat_shiftLeft, ih]
      change ofBytes bs <<< 8 % 2 ^ 64 = _
      rw [Nat.shiftLeft_eq]
      omega
    have hcons : ofBytes (b :: bs) = b.toNat + 256 * ofBytes bs := Nat.ofDigits_cons
    rw [List.map_cons, List.reverse_cons, foldInt_append, UInt64.toNat_add, hshift, hcons]
    change (_ + b.toNat) % 2 ^ 64 = _
    rw [Nat.mod_eq_of_lt (by omega)]
    omega

/-! ## Six bytes -/

/-- The text of an address, if `z` has room for so many characters, and its integer. -/
def macOf (size : Nat) (devAddr : List UInt8) : Option UInt64 := (macText size devAddr).bind macInt

/-- The text of an address and its integer are as they should be, and each determines the address. -/
structure MacAgrees (size : Nat) (b0 b1 b2 b3 b4 b5 : UInt8) : Prop where
  length : (macText size [b0, b1, b2, b3, b4, b5]).map List.length = some 17
  text : macText size [b0, b1, b2, b3, b4, b5] = some (twoDigits b0 ++ ':' :: twoDigits b1 ++ ':' :: twoDigits b2 ++
    ':' :: twoDigits b3 ++ ':' :: twoDigits b4 ++ ':' :: twoDigits b5)
  int : ∃ res, macOf size [b0, b1, b2, b3, b4, b5] = some res ∧ res.toNat = b0.toNat + 256 * b1.toNat +
    256 ^ 2 * b2.toNat + 256 ^ 3 * b3.toNat + 256 ^ 4 * b4.toNat + 256 ^ 5 * b5.toNat
  text_inj : ∀ devAddr, devAddr.length = 6 → macText size devAddr = macText size [b0, b1, b2, b3, b4, b5] →
    devAddr = [b0, b1, b2, b3, b4, b5]
  int_inj : ∀ devAddr, devAddr.length = 6 → macOf size devAddr = macOf size [b0, b1, b2, b3, b4, b5] →
    devAddr = [b0, b1, b2, b3, b4, b5]

/-- **The integer of six bytes.** -/
theorem macInt_of_six {size : Nat} (hsize : 2 < size) {devAddr : List UInt8} (h : devAddr.length = 6) :
    ∃ res, macOf size devAddr = some res ∧ res.toNat = ofBytes devAddr := by
  have hscan := scanMac_text devAddr
  rw [h] at hscan
  refine ⟨_, ?_, foldInt_bytes devAddr (by omega)⟩
  unfold macOf
  rw [macText_eq hsize, Option.bind_some]
  unfold macInt
  rw [hscan]
  exact if_pos (by simp [h])

theorem macOf_injective {size : Nat} (hsize : 2 < size) {a a' : List UInt8} (h : a.length = 6) (h' : a'.length = 6)
    (heq : macOf size a = macOf size a') : a = a' := by
  obtain ⟨res, hres, hval⟩ := macInt_of_six hsize h
  obtain ⟨res', hres', hval'⟩ := macInt_of_six hsize h'
  rw [hres, hres'] at heq
  cases heq
  exact (ofBytes_inj (h.trans h'.symm)).1 (hval.symm.trans hval')

/-- **Text and integer agree exactly where `z` has room for the NUL.** -/
theorem mac_agrees_iff (size : Nat) (b0 b1 b2 b3 b4 b5 : UInt8) : MacAgrees size b0 b1 b2 b3 b4 b5 ↔ 2 < size := by
  constructor
  · intro h
    by_contra hle
    have htext := h.text
    rw [macText_overrun (Nat.not_lt.1 hle) (List.cons_ne_nil _ _)] at htext
    cases htext
  · intro hsize
    have hlen : [b0, b1, b2, b3, b4, b5].length = 6 := rfl
    constructor
    · rw [macText_eq hsize]
      rfl
    · rw [macText_eq hsize]
      rfl
    · obtain ⟨res, hres, hval⟩ := macInt_of_six hsize hlen
      refine ⟨res, hres, hval.trans ?_⟩
      unfold ofBytes
      simp only [List.map_cons, List.map_nil, Nat.ofDigits_cons, Nat.ofDigits_nil]
      omega
    · exact fun devAddr h heq => macOf_injective hsize h hlen (congrArg (Option.bind · macInt) heq)
    · exact fun devAddr h heq => macOf_injective hsize h hlen heq

theorem mac_never_agrees (b0 b1 b2 b3 b4 b5 : UInt8) : ¬ MacAgrees zSize b0 b1 b2 b3 b4 b5 := by
  rw [mac_agrees_iff]
  exact Nat.lt_irrefl 2

/-- The first byte of an address leaves no room for its NUL. -/
theorem mac_overruns : macText zSize [0xde, 0xad, 0xbe, 0xef, 0x00, 0x01] = none ∧
    ¬ MacAgrees zSize 0xde 0xad 0xbe 0xef 0x00 0x01 := by
  have hnone : macText zSize [0xde, 0xad, 0xbe, 0xef, 0x00, 0x01] = none := by decide
  refine ⟨hnone, fun h => ?_⟩
  have htext := h.text
  rw [hnone] at htext
  cases htext

end Hyperagents
