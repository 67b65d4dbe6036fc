import Mathlib.Algebra.GroupWithZero.Nat
import Mathlib.Data.List.Basic
/-!
# Hashing the pages of a mapping

The snippet in `15.c` reads a VMA's bounds and hashes the pages between them, one `vmi_read_va` each.  It gets the
number of pages from a remainder, in an unsigned int, and a page's distance from the start in 32 bits.  That is the
whole mapping exactly where the end is below twice the start and the mapping no longer than 4 GiB
(`hash_exe_covers_iff`).
-/
namespace Hyperagents

/-- What LibVMI reads of the guest: an address in kernel space, and up to 4096 bytes of the process. -/
structure ExeVmi where
  readAddrVa : UInt64 → Option UInt64
  readVa : UInt64 → List UInt8

/-- One turn of the loop: the address read, and the hash printed; a page that was not read in full is printed as 0. -/
structure PageHash where
  va : UInt64
  hash : Option (List UInt8)
  deriving DecidableEq, Repr

/-- How the snippet ends: with `NULL` and the guest still paused, in a remainder by zero, or with the guest resumed. -/
inductive ExeRun
  | bailedOut
  | undefined
  | hashed (pages : List PageHash)
  deriving DecidableEq, Repr

/-- `n_pages`, an unsigned int; `stop` is the VMA's `end`. -/
def nPages (start stop : UInt64) : UInt32 := (stop % start / 4096).toUInt32

/-- The address of page `q`; the product is an unsigned int. -/
def pageVa (start : UInt64) (q : UInt32) : UInt64 := start + (q * 4096).toUInt64

def hashPage (vmi : ExeVmi) (sha256 : List UInt8 → List UInt8) (va : UInt64) : PageHash :=
  let pagebuf := vmi.readVa va
  ⟨va, if pagebuf.length / 4096 ≠ 0 then some (sha256 pagebuf) else none⟩

def hashExe (vmi : ExeVmi) (sha256 : List UInt8 → List UInt8) (mmPtr : UInt64) : ExeRun :=
  match vmi.readAddrVa mmPtr with
  | none => .bailedOut
  | some currentVma =>
    match vmi.readAddrVa (currentVma + 0) with
    | none => .bailedOut
    | some start =>
      match vmi.readAddrVa (currentVma + 8) with
      | none => .bailedOut
      | some stop =>
        if start = 0 then .undefined
        else .hashed ((List.range (nPages start stop).toNat).map fun q => hashPage vmi sha256 (pageVa start q.toUInt32))

/-! ## The pages of a mapping -/

/-- The addresses of the pages from `start` up to, and without, `stop`. -/
def mappingPages (start stop : Nat) : List Nat := (List.range ((stop - start) / 4096)).map fun k => start + 4096 * k

/-- The addresses the loop reads. -/
def loopPages (start stop : UInt64) : List Nat :=
  (List.range (nPages start stop).toNat).map fun q => (pageVa start q.toUInt32).toNat

theorem nPages_toNat (start stop : UInt64) :
    (nPages start stop).toNat = stop.toNat % start.toNat / 4096 % 2 ^ 32 := by
  unfold nPages
  rw [UInt64.toNat_toUInt32, UInt64.toNat_div, UInt64.toNat_mod]
  rfl

theorem pageVa_toNat (start : UInt64) (q : Nat) :
    (pageVa start q.toUInt32).toNat = (start.toNat + q * 4096 % 2 ^ 32) % 2 ^ 64 := by
  have hq : q.toUInt32.toNat = q % 2 ^ 32 := rfl
  unfold pageVa
  rw [UInt64.toNat_add, UInt32.toNat_toUInt64, UInt32.toNat_mul, hq]
  show (start.toNat + q % 2 ^ 32 * 4096 % 2 ^ 32) % 2 ^ 64 = _
  rw [Nat.mod_mul_mod]

variable {start stop : UInt64}

/-- A mapping that ends past twice its start gets too few pages. -/
theorem nPages_lt (hs : 4096 ∣ start.toNat) (h0 : 0 < start.toNat) (hlong : 2 * start.toNat ≤ stop.toNat) :
    (nPages start stop).toNat < (stop.toNat - start.toNat) / 4096 := by
  have hmod := Nat.mod_lt stop.toNat h0
  have hdiv : stop.toNat % start.toNat / 4096 < (stop.toNat - start.toNat) / 4096 := by
    obtain ⟨a, ha⟩ := hs
    omega
  rw [nPages_toNat]
  exact Nat.lt_of_le_of_lt (Nat.mod_le _ _) hdiv

theorem nPages_eq (hlt : start.toNat < stop.toNat) (hshort : stop.toNat < 2 * start.toNat) :
    (nPages start stop).toNat = (stop.toNat - start.toNat) / 4096 % 2 ^ 32 := by
  have hmod : stop.toNat % start.toNat = stop.toNat - start.toNat := by
    rw [Nat.mod_eq_sub_mod (Nat.le_of_lt hlt)]
    apply Nat.mod_eq_of_lt
    omega
  rw [nPages_toNat, hmod]

theorem pageVa_small {q : Nat} (hq : q < 2 ^ 20) (hmax : start.toNat + q * 4096 < 2 ^ 64) :
    (pageVa start q.toUInt32).toNat = start.toNat + 4096 * q := by
  rw [pageVa_toNat]
  omega

/-- Page 2^20 is the first page again. -/
theorem pageVa_wraps : (pageVa start (2 ^ 20 : Nat).toUInt32).toNat = start.toNat := by
  have := start.toNat_lt
  rw [pageVa_toNat]
  omega

/-- **The loop reads the mapping exactly where the end is below twice the start, and the mapping no longer than
4 GiB.** -/
theorem loopPages_iff (hs : 4096 ∣ start.toNat) (he : 4096 ∣ stop.toNat) (h0 : 0 < start.toNat)
    (hlt : start.toNat < stop.toNat) (hmax : stop.toNat < 2 ^ 47) :
    loopPages start stop = mappingPages start.toNat stop.toNat ↔
      stop.toNat < 2 * start.toNat ∧ stop.toNat - start.toNat ≤ 2 ^ 32 := by
  unfold loopPages mappingPages
  constructor
  · intro h
    have hlen := congrArg List.length h
    simp only [List.length_map, List.length_range] at hlen
    have hshort : stop.toNat < 2 * start.toNat := by
      by_contra hc
      have := nPages_lt hs h0 (Nat.le_of_not_lt hc)
      omega
    refine ⟨hshort, by_contra fun hbig => ?_⟩
    rw [hlen] at h
    have hmem : 2 ^ 20 < (stop.toNat - start.toNat) / 4096 := by omega
    have hpage := List.map_inj_left.1 h (2 ^ 20) (List.mem_range.2 hmem)
    rw [pageVa_wraps] at hpage
    omega
  · rintro ⟨hshort, hbig⟩
    have hn : (nPages start stop).toNat = (stop.toNat - start.toNat) / 4096 := by
      rw [nPages_eq hlt hshort]
      omega
    rw [hn]
    refine List.map_congr_left fun q hq => ?_
    have hq := List.mem_range.1 hq
    apply pageVa_small
    · omega
    · omega

/-- The bounds of the VMA that the snippet reads. -/
structure Bounds (vmi : ExeVmi) (mmPtr start stop : UInt64) : Prop where
  vma : ∃ currentVma, vmi.readAddrVa mmPtr = some currentVma ∧ vmi.readAddrVa (currentVma + 0) = some start ∧
    vmi.readAddrVa (currentVma + 8) = some stop

/-- The snippet reads the pages of the mapping, each once, in order, and no other. -/
def Covers (run : ExeRun) (start stop : UInt64) : Prop :=
  ∃ pages, run = .hashed pages ∧ pages.map (fun p => p.va.toNat) = mappingPages start.toNat stop.toNat

theorem hashExe_pages {vmi : ExeVmi} {sha256 : List UInt8 → List UInt8} {mmPtr : UInt64}
    (hb : Bounds vmi mmPtr start stop) (h0 : start ≠ 0) :
    ∃ pages, hashExe vmi sha256 mmPtr = .hashed pages ∧ pages.map (fun p => p.va.toNat) = loopPages start stop := by
  obtain ⟨currentVma, hvma, hstart, hstop⟩ := hb
  unfold hashExe
  simp only [hvma, hstart, hstop, if_neg h0]
  refine ⟨_, rfl, ?_⟩
  rw [List.map_map]
  rfl

theorem hash_exe_covers_iff (vmi : ExeVmi) (sha256 : List UInt8 → List UInt8) (mmPtr start stop : UInt64)
    (hb : Bounds vmi mmPtr start stop) (hs : 4096 ∣ start.toNat) (he : 4096 ∣ stop.toNat) (h0 : 0 < start.toNat)
    (hlt : start.toNat < stop.toNat) (hmax : stop.toNat < 2 ^ 47) :
    Covers (hashExe vmi sha256 mmPtr) start stop ↔
      stop.toNat < 2 * start.toNat ∧ stop.toNat - start.toNat ≤ 2 ^ 32 := by
  have hne : start ≠ 0 := fun e => by
    rw [e] at h0
    exact absurd h0 (Nat.lt_irrefl 0)
  obtain ⟨pages, hrun, hpages⟩ := @hashExe_pages start stop vmi sha256 mmPtr hb hne
  rw [← loopPages_iff hs he h0 hlt hmax, ← hpages]
  unfold Covers
  rw [hrun]
  constructor
  · rintro ⟨pages', heq, h⟩
    cases heq
    exact h
  · exact fun h => ⟨pages, rfl, h⟩

/-- A guest whose first VMA is at 8192, with these bounds. -/
def oneVma (start stop : UInt64) : ExeVmi where
  readAddrVa a := if a = 4096 then some 8192 else if a = 8192 then some start else if a = 8200 then some stop else none
  readVa _ := []

theorem oneVma_bounds (start stop : UInt64) : Bounds (oneVma start stop) 4096 start stop := ⟨8192, rfl, rfl, rfl⟩

theorem hash_exe_covers_iff_pages : Covers (hashExe (oneVma 0x400000 0x405000) id 4096) 0x400000 0x405000 ↔
    UInt64.toNat 0x405000 < 2 * UInt64.toNat 0x400000 ∧ UInt64.toNat 0x405000 - UInt64.toNat 0x400000 ≤ 2 ^ 32 :=
  hash_exe_covers_iff _ id 4096 0x400000 0x405000 (oneVma_bounds _ _) (by decide) (by decide) (by decide) (by decide)
    (by decide)

/-- A mapping of 32 pages from 64 KiB on: the loop reads none of them. -/
theorem low_mapping_skipped : Bounds (oneVma 0x10000 0x30000) 4096 0x10000 0x30000 ∧
    hashExe (oneVma 0x10000 0x30000) id 4096 = .hashed [] ∧
      ¬ Covers (hashExe (oneVma 0x10000 0x30000) id 4096) 0x10000 0x30000 := by
  have hnone : hashExe (oneVma 0x10000 0x30000) id 4096 = .hashed [] := by decide
  refine ⟨oneVma_bounds _ _, hnone, ?_⟩
  rintro ⟨pages, hrun, hpages⟩
  rw [hnone] at hrun
  cases hrun
  exact absurd hpages (by decide)

end Hyperagents
