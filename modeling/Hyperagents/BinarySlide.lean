import Hyperagents.Pyvmi
import Hyperagents.Sleds
/-!
# Overwriting a process's binary

`do_binslide` in `12.py` takes the process's first VMA to be its binary, and writes a slide of `nop`s over it, from
0x3680 bytes in, with `sys_exit` after the slide.  Whatever becomes of the two writes, nothing but the slide and the
exit is put anywhere (`placeSlide_changes`), and they stay in the VMA exactly where the exit fits it
(`binslide_inside_iff`).  Where both are made the process exits from anywhere in the slide (`binslide_exits`).
-/
namespace Hyperagents

open ByteMemory Sleds

/-- `write_va`: the number of bytes written, or the exception, and the memory of the process afterwards. -/
abbrev WriteVa := Memory → (va pid : Int) → PyStr → Except PyError Int × Memory

/-- A call that returns has written all its bytes and counted them; one that raises may have written the first. -/
structure WriteVa.Lawful (writeVa : WriteVa) : Prop where
  returns : ∀ {m va pid bs n}, (writeVa m va pid bs).1 = .ok n →
    n = bs.length ∧ (writeVa m va pid bs).2 = write m va bs
  raises : ∀ {m va pid bs e}, (writeVa m va pid bs).1 = .error e →
    ∃ k, (writeVa m va pid bs).2 = write m va (bs.take k)

/-- What `do_binslide` takes from `target`. -/
structure Target where
  vaddr : Int
  pid : Int

/-- `sys_exit`, as the code spells it. -/
def exitCode : PyStr := [0x48, 0xc7, 0xc0, 0x3c, 0x00, 0x00, 0x00, 0x0f, 0x05]

section

variable (vmi : Pyvmi) (getVmaFile getPerms : Int → Except PyError PyStr) (writeVa : WriteVa) (target : Target)

/-- The first VMA's start and end.  Its path and permissions are asked for as well, and printed. -/
def binaryRange : Except PyError (Int × Int) := do
  let mmOffset ← vmi.getOffset "linux_mm"
  let mmAddr ← vmi.readAddrVa (target.vaddr + mmOffset) 0
  let currentVma ← vmi.readAddrVa mmAddr 0
  let start ← vmi.readAddrVa (currentVma + 0) 0
  let stop ← vmi.readAddrVa (currentVma + 8) 0
  let _ ← getVmaFile currentVma
  let _ ← getPerms currentVma
  return (start, stop)

/-- A `ValueError` of a write is printed, and -1 stands for the count. -/
def tryWrite (m : Memory) (va : Int) (buf : PyStr) : Except PyError Int × Memory :=
  match writeVa m va target.pid buf with
  | (.ok written, m') => (.ok written, m')
  | (.error e, m') => (if e = .valueError then .ok (-1) else .error e, m')

/-- A string times a number below 0 is empty. -/
def slideOf (slideSize : Int) : PyStr := List.replicate slideSize.toNat 0x90

def placeSlide (start stop : Int) (m : Memory) : Except PyError (Int × Int) × Memory :=
  let start := start + 0x3680
  let mappedSize := stop - start
  let slideSize := mappedSize - exitCode.length
  match tryWrite writeVa target m start (slideOf slideSize) with
  | (.error e, m') => (.error e, m')
  | (.ok slid, m') =>
    match tryWrite writeVa target m' (start + slideSize) exitCode with
    | (.error e, m'') => (.error e, m'')
    | (.ok exited, m'') => (.ok (slid, exited), m'')

/-- The two counts printed, and the process's memory afterwards. -/
def doBinslide (m : Memory) : Except PyError (Int × Int) × Memory :=
  match binaryRange vmi getVmaFile getPerms target with
  | .error e => (.error e, m)
  | .ok (start, stop) => placeSlide writeVa target start stop m

end

/-! ## What a write does -/

variable {vmi : Pyvmi} {getVmaFile getPerms : Int → Except PyError PyStr} {writeVa : WriteVa} {target : Target}
  {m m' : Memory} {va start stop : Int} {bs : PyStr}

theorem writtenPart_of_lawful (h : writeVa.Lawful) (m : Memory) (va pid : Int) (bs : PyStr) :
    WrittenPart m va bs (writeVa m va pid bs).2 := by
  cases hwrite : (writeVa m va pid bs).1 with
  | ok n =>
    rw [(h.returns hwrite).2]
    exact .write m va bs
  | error e =>
    obtain ⟨k, hk⟩ := h.raises hwrite
    rw [hk]
    exact writtenPart_take m va bs k

@[simp] theorem tryWrite_snd : (tryWrite writeVa target m va bs).2 = (writeVa m va target.pid bs).2 := by
  unfold tryWrite
  split
  · next h => rw [h]
  · next h => rw [h]

/-- **A count other than -1** is that of a write that was made. -/
theorem tryWrite_made (h : writeVa.Lawful) {n : Int} (hn : (tryWrite writeVa target m va bs).1 = .ok n)
    (hmade : n ≠ -1) :
    n = bs.length ∧ (tryWrite writeVa target m va bs).2 = write m va bs := by
  cases hwrite : (writeVa m va target.pid bs).1 with
  | ok k =>
    obtain ⟨rfl, hmem⟩ := h.returns hwrite
    have hcount : (tryWrite writeVa target m va bs).1 = .ok (bs.length : Int) := by
      unfold tryWrite
      rw [← Prod.mk.eta (p := writeVa m va target.pid bs), hwrite]
    refine ⟨?_, tryWrite_snd.trans hmem⟩
    rw [hcount] at hn
    exact (Except.ok.inj hn).symm
  | error e =>
    refine absurd ?_ hmade
    have hcount : (tryWrite writeVa target m va bs).1 = if e = .valueError then .ok (-1) else .error e := by
      unfold tryWrite
      rw [← Prod.mk.eta (p := writeVa m va target.pid bs), hwrite]
    rw [hcount] at hn
    split at hn
    · exact (Except.ok.inj hn).symm
    · cases hn

/-! ## What is written -/

/-- Where the exit is put: at the end of the VMA, however short it is. -/
theorem exit_at (start stop : Int) :
    start + 0x3680 + (stop - (start + 0x3680) - (exitCode.length : Int)) = stop - exitCode.length := by omega

/-- The slide, or part of it, and then the exit, or part of it, or nothing for a slide that raised. -/
theorem placeSlide_parts (h : writeVa.Lawful) (start stop : Int) (m : Memory) :
    ∃ m', WrittenPart m (start + 0x3680) (slideOf (stop - (start + 0x3680) - exitCode.length)) m' ∧
      WrittenPart m' (stop - exitCode.length) exitCode (placeSlide writeVa target start stop m).2 := by
  have hslide := writtenPart_of_lawful h m (start + 0x3680) target.pid
    (slideOf (stop - (start + 0x3680) - exitCode.length))
  rw [← @tryWrite_snd writeVa target] at hslide
  refine ⟨_, hslide, ?_⟩
  unfold placeSlide
  dsimp only
  split
  · next hwrite =>
    rw [hwrite]
    exact fun x => .inl rfl
  · next hwrite =>
    rw [exit_at, hwrite]
    have hexit := writtenPart_of_lawful h (tryWrite writeVa target m (start + 0x3680)
      (slideOf (stop - (start + 0x3680) - exitCode.length))).2 (stop - exitCode.length) target.pid exitCode
    rw [← @tryWrite_snd writeVa target, hwrite] at hexit
    split
    · next hwrite' => rwa [hwrite'] at hexit
    · next hwrite' => rwa [hwrite'] at hexit

theorem doBinslide_eq (hrange : binaryRange vmi getVmaFile getPerms target = .ok (start, stop)) :
    doBinslide vmi getVmaFile getPerms writeVa target m = placeSlide writeVa target start stop m := by
  unfold doBinslide
  rw [hrange]

theorem cover_slide {slideSize x : Int} {v : UInt8} (h : cover va (slideOf slideSize) x = some v) :
    va ≤ x ∧ x < va + slideSize ∧ v = 0x90 := by
  unfold cover slideOf at h
  split at h
  · rw [List.getElem?_replicate] at h
    split at h
    · exact ⟨by omega, by omega, (Option.some.inj h).symm⟩
    · cases h
  · cases h

theorem write_slide {slideSize x : Int} (hfrom : va ≤ x) (hto : x < va + slideSize) :
    write m va (slideOf slideSize) x = 0x90 := by
  have hindex : (x - va).toNat < slideSize.toNat := by omega
  unfold ByteMemory.write cover slideOf
  rw [if_pos hfrom, List.getElem?_replicate, if_pos hindex]
  rfl

theorem cover_within {x : Int} {v : UInt8} (h : cover va bs x = some v) : va ≤ x ∧ x < va + bs.length := by
  by_contra hout
  rw [cover_none (by omega)] at h
  cases h

/-- **What is changed** is the slide, or the exit after it. -/
theorem placeSlide_changes (h : writeVa.Lawful) {x : Int} (hx : (placeSlide writeVa target start stop m).2 x ≠ m x) :
    start + 0x3680 ≤ x ∧ x < stop - exitCode.length ∧ (placeSlide writeVa target start stop m).2 x = 0x90 ∨
      cover (stop - exitCode.length) exitCode x = some ((placeSlide writeVa target start stop m).2 x) := by
  obtain ⟨m', hslide, hexit⟩ := @placeSlide_parts writeVa target h start stop m
  rcases hexit x with hkept | hcode
  · rw [hkept] at hx ⊢
    rcases hslide x with hsame | hcover
    · exact absurd hsame hx
    · obtain ⟨hfrom, hto, hnop⟩ := cover_slide hcover
      exact .inl ⟨hfrom, by omega, hnop⟩
  · exact .inr hcode

/-! ## Inside the VMA -/

/-- Every write is made. -/
def wholeWrites : WriteVa := fun m va _ bs => (.ok bs.length, write m va bs)

theorem wholeWrites_lawful : wholeWrites.Lawful := by
  refine ⟨fun {m va pid bs n} h => ?_, fun h => by cases h⟩
  exact ⟨(Except.ok.inj h).symm, rfl⟩

/-- The exit's first byte, below the VMA's start where the exit does not fit. -/
theorem wholeWrites_exit (start stop : Int) :
    (placeSlide wholeWrites target start stop fun _ => 0).2 (stop - exitCode.length) = 0x48 := by
  have hexit : (placeSlide wholeWrites target start stop fun _ => 0).2 =
      write (write (fun _ => 0) (start + 0x3680) (slideOf (stop - (start + 0x3680) - exitCode.length)))
        (stop - exitCode.length) exitCode := by
    rw [← exit_at start stop]
    rfl
  have hfirst : cover (stop - exitCode.length) exitCode (stop - exitCode.length + (0 : Nat)) = some 0x48 :=
    cover_add (by decide)
  rw [Int.natCast_zero, Int.add_zero] at hfirst
  rw [hexit]
  unfold ByteMemory.write
  rw [hfirst]
  rfl

/-- **Nothing outside the VMA** is changed, whichever writes are made and however much of the others, exactly where the
VMA has room for the exit. -/
theorem binslide_inside_iff (hrange : binaryRange vmi getVmaFile getPerms target = .ok (start, stop)) :
    (∀ writeVa : WriteVa, writeVa.Lawful → ∀ m x, (doBinslide vmi getVmaFile getPerms writeVa target m).2 x ≠ m x →
      start ≤ x ∧ x < stop) ↔ exitCode.length ≤ stop - start := by
  constructor
  · intro hinside
    have hchanged : (doBinslide vmi getVmaFile getPerms wholeWrites target fun _ => 0).2 (stop - exitCode.length) ≠
        0 := by
      rw [doBinslide_eq hrange, wholeWrites_exit]
      decide
    have h := hinside wholeWrites wholeWrites_lawful _ _ hchanged
    omega
  · intro hfits writeVa hlaw m x hx
    rw [doBinslide_eq hrange] at hx
    rcases placeSlide_changes hlaw hx with ⟨hfrom, hto, -⟩ | hcode
    · omega
    · have hwithin := cover_within hcode
      omega

/-- A process whose task has an mm, that a first VMA, and that these bounds. -/
def binaryGuest (start stop : Int) : Pyvmi :=
  { tableGuest [(0x2008, 0x3000), (0x3000, 0x4000), (0x4000, start), (0x4008, stop)] [] with
    getOffset := fun _ => .ok 8 }

theorem binslide_inside_iff_page :
    binaryRange (binaryGuest 0x400000 0x401000) (fun _ => .ok []) (fun _ => .ok []) ⟨0x2000, 7⟩ =
        .ok (0x400000, 0x401000) ∧
      ∀ writeVa : WriteVa, writeVa.Lawful → ∀ m x,
        (doBinslide (binaryGuest 0x400000 0x401000) (fun _ => .ok []) (fun _ => .ok []) writeVa ⟨0x2000, 7⟩ m).2 x ≠
          m x → 0x400000 ≤ x ∧ x < 0x401000 :=
  ⟨rfl, (binslide_inside_iff rfl).2 (by decide)⟩

/-! ## The process afterwards -/

theorem exitCode_eq : exitCode = callCode 0x3c := by decide

theorem placeSlide_made (h : writeVa.Lawful) {slid exited : Int}
    (hrun : (placeSlide writeVa target start stop m).1 = .ok (slid, exited)) (hslid : slid ≠ -1)
    (hexited : exited ≠ -1) :
    slid = (slideOf (stop - (start + 0x3680) - exitCode.length)).length ∧ exited = exitCode.length ∧
      (placeSlide writeVa target start stop m).2 =
        write (write m (start + 0x3680) (slideOf (stop - (start + 0x3680) - exitCode.length)))
          (stop - exitCode.length) exitCode := by
  unfold placeSlide at hrun ⊢
  dsimp only at hrun ⊢
  split at hrun
  · cases hrun
  · next s m' hslide =>
    rw [exit_at] at hrun ⊢
    split at hrun
    · cases hrun
    · next e m'' hexit =>
      cases hrun
      have hcount : (tryWrite writeVa target m (start + 0x3680)
        (slideOf (stop - (start + 0x3680) - exitCode.length))).1 = .ok slid := congrArg Prod.fst hslide
      have hcount' : (tryWrite writeVa target m' (stop - exitCode.length) exitCode).1 = .ok exited :=
        congrArg Prod.fst hexit
      obtain ⟨hs, hm'⟩ := tryWrite_made h hcount hslid
      obtain ⟨he, hm''⟩ := tryWrite_made h hcount' hexited
      rw [hslide] at hm'
      rw [hexit] at hm''
      exact ⟨hs, he, by rw [← hm']; exact hm''⟩

/-- **The process exits**, from wherever in the slide or at the exit it is, once both writes are made. -/
theorem binslide_exits (h : writeVa.Lawful) (hrange : binaryRange vmi getVmaFile getPerms target = .ok (start, stop))
    {slid exited : Int} (hrun : (doBinslide vmi getVmaFile getPerms writeVa target m).1 = .ok (slid, exited))
    (hslid : slid ≠ -1) (hexited : exited ≠ -1) {rip : Int} (hfrom : min (start + 0x3680) (stop - 9) ≤ rip)
    (hto : rip ≤ stop - 9) (rax : UInt64) :
    Calls (doBinslide vmi getVmaFile getPerms writeVa target m).2 ⟨rip, rax⟩ 60 := by
  rw [doBinslide_eq hrange] at hrun ⊢
  obtain ⟨-, -, hmem⟩ := placeSlide_made h hrun hslid hexited
  rw [hmem]
  have hcode : bytesAt (write (write m (start + 0x3680) (slideOf (stop - (start + 0x3680) - exitCode.length)))
      (stop - exitCode.length) exitCode) (stop - 9) 9 = callCode 0x3c := by
    rw [← exitCode_eq]
    exact bytesAt_write_self _ _ exitCode
  have hsled : Sled (write (write m (start + 0x3680) (slideOf (stop - (start + 0x3680) - exitCode.length)))
      (stop - exitCode.length) exitCode) (min (start + 0x3680) (stop - 9)) (stop - 9) := by
    intro x hx hx'
    have hlength : (exitCode.length : Int) = 9 := rfl
    rw [write_outside (.inl (by omega))]
    exact write_slide (by omega) (by omega)
  exact Calls.of_sled (by decide) hsled hcode hfrom hto

theorem binslide_exits_page :
    Calls (doBinslide (binaryGuest 0x400000 0x404000) (fun _ => .ok []) (fun _ => .ok []) wholeWrites ⟨0x2000, 7⟩
      fun _ => 0).2 ⟨0x403700, 0⟩ 60 := by
  have hrange : binaryRange (binaryGuest 0x400000 0x404000) (fun _ => .ok []) (fun _ => .ok []) ⟨0x2000, 7⟩ =
      .ok (0x400000, 0x404000) := rfl
  have hrun : (doBinslide (binaryGuest 0x400000 0x404000) (fun _ => .ok []) (fun _ => .ok []) wholeWrites ⟨0x2000, 7⟩
      fun _ => 0).1 = .ok (((slideOf 0x977).length : Int), 9) := by
    rw [doBinslide_eq hrange]
    rfl
  exact binslide_exits wholeWrites_lawful hrange hrun (by omega) (by decide) (by decide) (by decide) 0

end Hyperagents
