import Mathlib.Data.List.Basic
/-!
# An address space over pages

A process sees its memory through pages of 4096 bytes, each mapped to some physical page or to none (`Space`).
Reading a virtual range physically, in one piece from where its first byte is, gives the bytes of the range exactly
where every later page agrees with the physical page as far after the first one's (`read_eq_virt_iff`).
-/
namespace Paging

structure Space (B : Type*) where
  phys : Int → B
  /-- The physical page of a virtual one. -/
  frame : Int → Option Int

variable {B : Type*} (g : Space B)

namespace Space

def translate (va : Int) : Option Int := (g.frame (va / 4096)).map fun f => f * 4096 + va % 4096

/-- The byte the process has at an address. -/
def byte (va : Int) : Option B := (g.translate va).map g.phys

/-- The bytes the process has from `a` up to, and without, `b`. -/
def virt (a b : Int) : List (Option B) := (List.range (b - a).toNat).map fun k : Nat => g.byte (a + k)

/-- The `n` physical bytes from `p` on. -/
def readPhys (p n : Int) : List B := (List.range n.toNat).map fun k : Nat => g.phys (p + k)

def Mapped (a b : Int) : Prop := ∀ va, a ≤ va → va < b → g.frame (va / 4096) ≠ none

/-- With the page of `a` mapped to `f`, the `j`-th page after it has the bytes of the physical page `f + j`, as far as
the range from `a` to `b` goes. -/
def Follows (f a b : Int) : Prop := ∀ j f', 0 < j → g.frame (a / 4096 + j) = some f' →
  ∀ o, 0 ≤ o → o < 4096 → (a / 4096 + j) * 4096 + o < b → g.phys ((f + j) * 4096 + o) = g.phys (f' * 4096 + o)

end Space

open Space

variable {g} {a b f : Int}

theorem byte_of_frame {va f' : Int} (h : g.frame (va / 4096) = some f') :
    g.byte va = some (g.phys (f' * 4096 + va % 4096)) := by
  unfold Space.byte Space.translate
  rw [h]
  rfl

/-- **Reading on from the first byte** gives the range exactly where its later pages follow the first. -/
theorem read_eq_virt_iff (hf : g.frame (a / 4096) = some f) (hm : g.Mapped a b) :
    (g.readPhys (f * 4096 + a % 4096) (b - a)).map some = g.virt a b ↔ g.Follows f a b := by
  unfold Space.readPhys Space.virt
  rw [List.map_map]
  constructor
  · intro h j f' hj hf' o h0 ho hb
    have hk : ((((a / 4096 + j) * 4096 + o - a).toNat : Nat) : Int) = (a / 4096 + j) * 4096 + o - a := by omega
    have hsame := List.map_inj_left.1 h ((a / 4096 + j) * 4096 + o - a).toNat (List.mem_range.2 (by omega))
    have hpage : (a + ((a / 4096 + j) * 4096 + o - a)) / 4096 = a / 4096 + j := by omega
    rw [Function.comp_apply, hk, byte_of_frame (by rw [hpage]; exact hf')] at hsame
    have hphys : f * 4096 + a % 4096 + ((a / 4096 + j) * 4096 + o - a) = (f + j) * 4096 + o := by omega
    have hvirt : (a + ((a / 4096 + j) * 4096 + o - a)) % 4096 = o := by omega
    rw [hphys, hvirt] at hsame
    exact Option.some.inj hsame
  · intro h
    refine List.map_congr_left fun k hk => ?_
    have hk := List.mem_range.1 hk
    obtain ⟨f', hf'⟩ := Option.ne_none_iff_exists'.1 (hm (a + k) (by omega) (by omega))
    rw [Function.comp_apply, byte_of_frame hf']
    refine congrArg some ?_
    by_cases hfirst : (a + k) / 4096 = a / 4096
    · -- Still in the first page.
      rw [hfirst, hf] at hf'
      cases hf'
      refine congrArg g.phys ?_
      omega
    · have hnext := h ((a + k) / 4096 - a / 4096) f' (by omega)
        (by rw [show a / 4096 + ((a + k) / 4096 - a / 4096) = (a + k) / 4096 by omega]; exact hf')
        ((a + k) % 4096) (by omega) (by omega) (by omega)
      rw [← hnext]
      refine congrArg g.phys ?_
      omega

theorem follows_of_one_page (h : b ≤ (a / 4096 + 1) * 4096) : g.Follows f a b := by
  intro j f' hj _ o h0 _ hb
  omega

theorem follows_of_consecutive (h : ∀ j, 0 < j → (a / 4096 + j) * 4096 < b → g.frame (a / 4096 + j) = some (f + j)) :
    g.Follows f a b := by
  intro j f' hj hf' o h0 _ hb
  rw [h j hj (by omega)] at hf'
  cases hf'
  rfl

end Paging
