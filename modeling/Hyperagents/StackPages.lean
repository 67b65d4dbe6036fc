import Hyperagents.Pyvmi
import Mathlib.Algebra.Ring.Nat
import Mathlib.Data.List.Basic
/-!
# Overwriting a process's stack

`handle_stack` in `3.py` takes the size of the stack's VMA, lists as many pages down from the page `start_stack` is in
(`bulk_va2pa_translate`), and writes to each that is mapped.  Those are the VMA's own pages exactly where `start_stack`
lies in its last one (`stays_inside_iff`).  A counter is to bound what is written, but the loop never counts: the bound
holds exactly where the pages need no counting (`overwrite_limit_iff`).
-/
namespace Hyperagents

/-- A page of the process, by number in the list and address, and the physical address it is at, -1 if there is none. -/
structure Vapa where
  ix : Int
  va : Int
  pa : Int
  deriving DecidableEq, Repr

/-- The names `handle_stack` uses and does not define; `PAGE_SIZE` is positive. -/
structure StackNames where
  metaOffset : String → Int
  currentVma : Int
  vmaStartOffset : Int
  vmaEndOffset : Int
  pid : Int
  stackOverwriteByte : UInt8
  stackOverwriteCtr : Int
  maxOverwrite : Int
  pageSize : Int

section

variable (vmi : Pyvmi) (s : StackNames)

/-- The physical address of a page, as the loop notes it. -/
def pagePa (va pid : Int) : Except PyError Int :=
  match vmi.translateUv2p va pid with
  | .error e => if e = .valueError then .ok (-1) else .error e
  | .ok pa => .ok pa

/-- The loop over `n` pages from number `i` on, each one `stride` below the one before. -/
def bulkLoop (stride pid : Int) : Int → Nat → Int → Except PyError (List Vapa)
  | _, 0, _ => .ok []
  | i, n + 1, ix => do
    let va := ix - stride
    let pa ← pagePa vmi va pid
    let ret ← bulkLoop stride pid (i + 1) n (ix - stride)
    return ⟨i, va, pa⟩ :: ret

/-- The divisions are those of Python 2, so that the two assertions always hold. -/
def bulkVa2paTranslate (vaStart memSize pid : Int) : Except PyError (List Vapa) :=
  let loops := Int.fdiv memSize s.pageSize
  let d := Int.fdiv vaStart s.pageSize
  let sw := (d + 1) * s.pageSize
  bulkLoop vmi s.pageSize pid 0 loops.toNat sw

def writeStride : Int :=
  if s.stackOverwriteCtr + s.pageSize > s.maxOverwrite then s.maxOverwrite - s.stackOverwriteCtr else s.pageSize

/-- What is passed to `write_pa` for these pages. -/
def overwriteLoop : List Vapa → List (Int × PyStr)
  | [] => []
  | page :: bulkMapping =>
    if page.pa = -1 then overwriteLoop bulkMapping
    else (page.pa, List.replicate (writeStride s).toNat s.stackOverwriteByte) :: overwriteLoop bulkMapping

def handleStack (taskAddress : Int) : Except PyError (List (Int × PyStr)) := do
  let mm ← vmi.readAddrVa (taskAddress + s.metaOffset "mm_offset") 0
  match vmi.readAddrVa mm 0 with
  | .error e => if e = .valueError then return [] else throw e
  | .ok _ =>
    let ss ← vmi.readAddrVa (mm + s.metaOffset "start_stack_offset") 0
    let start ← vmi.readAddrVa (s.currentVma + s.vmaStartOffset) 0
    let stop ← vmi.readAddrVa (s.currentVma + s.vmaEndOffset) 0
    let bulkMapping ← bulkVa2paTranslate vmi s ss (stop - start) s.pid
    return overwriteLoop s bulkMapping

end

/-! ## The pages listed -/

/-- `n` addresses, each one `stride` below the one before. -/
def pagesDown (stride : Int) : Nat → Int → List Int
  | 0, _ => []
  | n + 1, ix => (ix - stride) :: pagesDown stride n (ix - stride)

/-- A page carries its translation, or -1 where it has none. -/
def Carries (vmi : Pyvmi) (pid : Int) (p : Vapa) : Prop :=
  vmi.translateUv2p p.va pid = .ok p.pa ∨ vmi.translateUv2p p.va pid = .error .valueError ∧ p.pa = -1

/-- The call raises nothing but `ValueError`s. -/
def Translates (vmi : Pyvmi) : Prop := ∀ va pid e, vmi.translateUv2p va pid = .error e → e = .valueError

variable {vmi : Pyvmi} {s : StackNames} {stride pid : Int}

theorem pagePa_carries (h : Translates vmi) (i va pid : Int) :
    ∃ pa, pagePa vmi va pid = .ok pa ∧ Carries vmi pid ⟨i, va, pa⟩ := by
  unfold pagePa
  cases hva : vmi.translateUv2p va pid with
  | ok pa => exact ⟨pa, rfl, .inl hva⟩
  | error e =>
    cases h va pid e hva
    exact ⟨-1, if_pos rfl, .inr ⟨hva, rfl⟩⟩

/-- **The loop** lists the pages one below the other, each with its translation or -1. -/
theorem bulkLoop_ok (h : Translates vmi) : ∀ (n : Nat) (i ix : Int), ∃ pages,
    bulkLoop vmi stride pid i n ix = .ok pages ∧ pages.map Vapa.va = pagesDown stride n ix ∧
      ∀ p ∈ pages, Carries vmi pid p
  | 0, _, _ => ⟨[], rfl, rfl, fun p hp => by cases hp⟩
  | n + 1, i, ix => by
    obtain ⟨pa, hpa, hcarries⟩ := pagePa_carries h i (ix - stride) pid
    obtain ⟨pages, hpages, hva, hall⟩ := bulkLoop_ok h n (i + 1) (ix - stride)
    refine ⟨⟨i, ix - stride, pa⟩ :: pages, ?_, congrArg (List.cons (ix - stride)) hva, ?_⟩
    · unfold bulkLoop
      dsimp only
      rw [hpa, hpages]
      rfl
    · intro p hp
      rcases List.mem_cons.1 hp with rfl | hp
      · exact hcarries
      · exact hall p hp

theorem mem_pagesDown {va : Int} : ∀ {n : Nat} {c : Int},
    va ∈ pagesDown stride n (stride * c) ↔ ∃ j, c - n ≤ j ∧ j < c ∧ va = stride * j
  | 0, c => by
    apply iff_of_false List.not_mem_nil
    rintro ⟨j, hj, hjc, -⟩
    omega
  | n + 1, c => by
    have hprev : stride * c - stride = stride * (c - 1) := by rw [Int.mul_sub, Int.mul_one]
    unfold pagesDown
    rw [List.mem_cons, hprev, mem_pagesDown]
    constructor
    · rintro (rfl | ⟨j, hj, hjc, rfl⟩)
      · exact ⟨c - 1, by omega, by omega, rfl⟩
      · exact ⟨j, by omega, by omega, rfl⟩
    · rintro ⟨j, hj, hjc, rfl⟩
      by_cases hlast : j = c - 1
      · exact .inl (congrArg _ hlast)
      · exact .inr ⟨j, by omega, by omega, rfl⟩

theorem pagesDown_nodup (hs : 0 < stride) : ∀ (n : Nat) (c : Int), (pagesDown stride n (stride * c)).Nodup
  | 0, _ => List.nodup_nil
  | n + 1, c => by
    have hprev : stride * c - stride = stride * (c - 1) := by rw [Int.mul_sub, Int.mul_one]
    unfold pagesDown
    rw [hprev, List.nodup_cons, mem_pagesDown]
    refine ⟨?_, pagesDown_nodup hs n (c - 1)⟩
    rintro ⟨j, -, hj, heq⟩
    have := Int.eq_of_mul_eq_mul_left (by omega) heq
    omega

/-! ## The pages of the VMA -/

/-- `va` is the address of a page of the VMA from `start` to `stop`. -/
def InVma (pageSize start stop va : Int) : Prop := pageSize ∣ va ∧ start ≤ va ∧ va < stop

/-- The pages are those of the VMA, each once, with their translations, and only they are written. -/
structure StackInside (vmi : Pyvmi) (s : StackNames) (start stop : Int) (pages : List Vapa) : Prop where
  once : (pages.map Vapa.va).Nodup
  listed : ∀ va, va ∈ pages.map Vapa.va ↔ InVma s.pageSize start stop va
  carries : ∀ p ∈ pages, Carries vmi s.pid p
  written : ∀ w ∈ overwriteLoop s pages, ∃ va, InVma s.pageSize start stop va ∧ vmi.translateUv2p va s.pid = .ok w.1

/-- What `handle_stack` reads: the addresses of `start_stack` and of the VMA's bounds. -/
structure ReadsStack (vmi : Pyvmi) (s : StackNames) (taskAddress ss start stop : Int) : Prop where
  mm : ∃ mm vma, vmi.readAddrVa (taskAddress + s.metaOffset "mm_offset") 0 = .ok mm ∧ vmi.readAddrVa mm 0 = .ok vma ∧
    vmi.readAddrVa (mm + s.metaOffset "start_stack_offset") 0 = .ok ss
  start : vmi.readAddrVa (s.currentVma + s.vmaStartOffset) 0 = .ok start
  stop : vmi.readAddrVa (s.currentVma + s.vmaEndOffset) 0 = .ok stop

/-- `handle_stack` overwrites its own VMA: with the bounds read it lists pages as they should be, and writes to them. -/
def StaysInside (vmi : Pyvmi) (s : StackNames) (taskAddress ss start stop : Int) : Prop :=
  ∃ pages, bulkVa2paTranslate vmi s ss (stop - start) s.pid = .ok pages ∧
    handleStack vmi s taskAddress = .ok (overwriteLoop s pages) ∧ StackInside vmi s start stop pages

theorem handleStack_eq {taskAddress ss start stop : Int} {pages : List Vapa}
    (h : ReadsStack vmi s taskAddress ss start stop)
    (hpages : bulkVa2paTranslate vmi s ss (stop - start) s.pid = .ok pages) :
    handleStack vmi s taskAddress = .ok (overwriteLoop s pages) := by
  obtain ⟨mm, vma, hmm, hvma, hss⟩ := h.mm
  unfold handleStack
  simp only [hmm, hvma, hss, h.start, h.stop, hpages, bind, Except.bind, pure, Except.pure]

theorem overwriteLoop_eq : ∀ pages : List Vapa, overwriteLoop s pages = (pages.filter fun p => p.pa ≠ -1).map
    fun p => (p.pa, List.replicate (writeStride s).toNat s.stackOverwriteByte)
  | [] => rfl
  | page :: pages => by
    unfold overwriteLoop
    rw [overwriteLoop_eq pages]
    by_cases hpa : page.pa = -1 <;> simp [hpa]

/-- Each write is to where a page listed is mapped. -/
theorem mem_overwriteLoop {w : Int × PyStr} {pages : List Vapa} (hall : ∀ p ∈ pages, Carries vmi s.pid p)
    (hw : w ∈ overwriteLoop s pages) : ∃ p ∈ pages, vmi.translateUv2p p.va s.pid = .ok w.1 := by
  rw [overwriteLoop_eq] at hw
  obtain ⟨p, hp, rfl⟩ := List.mem_map.1 hw
  obtain ⟨hp, hpa⟩ := List.mem_filter.1 hp
  refine ⟨p, hp, ?_⟩
  rcases hall p hp with hva | ⟨-, hnone⟩
  · exact hva
  · simp [hnone] at hpa

/-- **What is listed**: as many pages as the VMA has, down from the one that `start_stack` is in. -/
theorem bulkVa2paTranslate_ok (h : Translates vmi) (hsize : 0 < s.pageSize) (a b ss : Int) : ∃ pages,
    bulkVa2paTranslate vmi s ss (s.pageSize * b - s.pageSize * a) s.pid = .ok pages ∧
      pages.map Vapa.va = pagesDown s.pageSize (b - a).toNat (s.pageSize * (ss / s.pageSize + 1)) ∧
        ∀ p ∈ pages, Carries vmi s.pid p := by
  have hloops : Int.fdiv (s.pageSize * b - s.pageSize * a) s.pageSize = b - a := by
    rw [← Int.mul_sub, Int.fdiv_eq_ediv_of_nonneg _ (Int.le_of_lt hsize), Int.mul_ediv_cancel_left _ (by omega)]
  have hd : Int.fdiv ss s.pageSize = ss / s.pageSize := Int.fdiv_eq_ediv_of_nonneg _ (Int.le_of_lt hsize)
  unfold bulkVa2paTranslate
  dsimp only
  rw [hloops, hd, Int.mul_comm (ss / s.pageSize + 1)]
  exact bulkLoop_ok h _ _ _

theorem mem_pagesDown_mul (hs : 0 < stride) {n : Nat} {c j : Int} :
    stride * j ∈ pagesDown stride n (stride * c) ↔ c - n ≤ j ∧ j < c := by
  rw [mem_pagesDown]
  constructor
  · rintro ⟨j', hj, hjc, heq⟩
    cases Int.eq_of_mul_eq_mul_left (by omega) heq
    exact ⟨hj, hjc⟩
  · rintro ⟨hj, hjc⟩
    exact ⟨j, hj, hjc, rfl⟩

theorem inVma_mul (hs : 0 < stride) {a b j : Int} :
    InVma stride (stride * a) (stride * b) (stride * j) ↔ a ≤ j ∧ j < b := by
  constructor
  · rintro ⟨-, ha, hb⟩
    exact ⟨Int.le_of_mul_le_mul_left ha hs, Int.lt_of_mul_lt_mul_left hb (Int.le_of_lt hs)⟩
  · rintro ⟨ha, hb⟩
    exact ⟨Int.dvd_mul_right _ _, Int.mul_le_mul_of_nonneg_left ha (Int.le_of_lt hs), Int.mul_lt_mul_of_pos_left hb hs⟩

/-- As many pages down from `c` as there are from `a` to `b` are just those, where `c` is `b`. -/
theorem pagesDown_inVma_iff (hs : 0 < stride) {a b c : Int} (hab : a < b) (hac : a < c) (hcb : c ≤ b) :
    (∀ va, va ∈ pagesDown stride (b - a).toNat (stride * c) ↔ InVma stride (stride * a) (stride * b) va) ↔ c = b := by
  constructor
  · intro h
    have hlast := (h (stride * (b - 1))).2 ((inVma_mul hs).2 ⟨by omega, by omega⟩)
    have := (mem_pagesDown_mul hs).1 hlast
    omega
  · rintro rfl va
    constructor
    · intro hva
      obtain ⟨j, hj, hjc, rfl⟩ := mem_pagesDown.1 hva
      exact (inVma_mul hs).2 ⟨by omega, hjc⟩
    · intro hva
      obtain ⟨j, rfl⟩ := hva.1
      have := (inVma_mul hs).1 hva
      exact (mem_pagesDown_mul hs).2 ⟨by omega, this.2⟩

/-- **The overwrite stays inside exactly where `start_stack` lies in the VMA's last page.** -/
theorem stays_inside_iff (vmi : Pyvmi) (s : StackNames) (taskAddress ss start stop : Int) (h : Translates vmi)
    (hreads : ReadsStack vmi s taskAddress ss start stop) (hsize : 0 < s.pageSize) (hstart : s.pageSize ∣ start)
    (hstop : s.pageSize ∣ stop) (hss : start ≤ ss) (hss' : ss < stop) :
    StaysInside vmi s taskAddress ss start stop ↔ stop - s.pageSize ≤ ss := by
  obtain ⟨a, rfl⟩ := hstart
  obtain ⟨b, rfl⟩ := hstop
  obtain ⟨pages, hpages, hva, hcarries⟩ := bulkVa2paTranslate_ok h hsize a b ss
  have ha : a ≤ ss / s.pageSize := (Int.le_ediv_iff_mul_le hsize).2 (by rwa [Int.mul_comm])
  have hb : ss / s.pageSize < b := (Int.ediv_lt_iff_lt_mul hsize).2 (by rwa [Int.mul_comm])
  have hlast : s.pageSize * b - s.pageSize ≤ ss ↔ ss / s.pageSize + 1 = b := by
    have hpage : s.pageSize * b - s.pageSize = (b - 1) * s.pageSize := by rw [Int.sub_mul, Int.mul_comm]; omega
    rw [hpage, ← Int.le_ediv_iff_mul_le hsize]
    omega
  rw [hlast, ← pagesDown_inVma_iff hsize (a := a) (by omega) (by omega) (by omega), ← hva]
  constructor
  · rintro ⟨pages', hpages', -, hinside⟩
    cases hpages.symm.trans hpages'
    exact hinside.listed
  · intro hlisted
    refine ⟨pages, hpages, handleStack_eq hreads hpages, ?_, hlisted, hcarries, ?_⟩
    · rw [hva]
      exact pagesDown_nodup hsize _ _
    · intro w hw
      obtain ⟨p, hp, hw⟩ := mem_overwriteLoop hcarries hw
      exact ⟨p.va, (hlisted p.va).1 (List.mem_map_of_mem hp), hw⟩

/-! ## The limit -/

/-- How many bytes are written to these pages. -/
def bytesWritten (s : StackNames) (pages : List Vapa) : Nat := ((overwriteLoop s pages).map fun w => w.2.length).sum

def mappedPages (pages : List Vapa) : Nat := (pages.filter fun p => p.pa ≠ -1).length

theorem writeStride_eq : writeStride s = min s.pageSize (s.maxOverwrite - s.stackOverwriteCtr) := by
  unfold writeStride
  split <;> omega

/-- **Every page mapped gets a write of the same length.** -/
theorem bytesWritten_eq (pages : List Vapa) : bytesWritten s pages = mappedPages pages * (writeStride s).toNat := by
  unfold bytesWritten mappedPages
  rw [overwriteLoop_eq, List.map_map]
  simp [Function.comp_def]

/-- The bytes written are within what the counter leaves of the limit. -/
def InLimit (s : StackNames) (pages : List Vapa) : Prop :=
  (bytesWritten s pages : Int) ≤ s.maxOverwrite - s.stackOverwriteCtr

/-- `k` times the smaller one of a page and what is left are within what is left. -/
theorem mul_min_le_iff {k : Nat} {page left : Int} (h : 0 ≤ left) :
    ((k * (min page left).toNat : Nat) : Int) ≤ left ↔ k ≤ 1 ∨ left = 0 ∨ k * page ≤ left := by
  rw [Int.natCast_mul]
  by_cases hpage : page ≤ left
  · rw [Int.min_eq_left hpage]
    by_cases hneg : page ≤ 0
    · have hmul : k * page ≤ 0 := Int.mul_nonpos_of_nonneg_of_nonpos (by omega) hneg
      rw [Int.toNat_of_nonpos hneg]
      refine iff_of_true ?_ (.inr (.inr (by omega)))
      simpa using h
    · rw [Int.toNat_of_nonneg (by omega)]
      constructor
      · exact fun hle => .inr (.inr hle)
      · rintro (hone | hzero | hle)
        · have := Int.mul_le_mul_of_nonneg_right (show (k : Int) ≤ 1 by omega) (show 0 ≤ page by omega)
          omega
        · omega
        · exact hle
  · rw [Int.min_eq_right (by omega), Int.toNat_of_nonneg h]
    constructor
    · intro hle
      by_cases hone : k ≤ 1
      · exact .inl hone
      · have := Int.mul_le_mul_of_nonneg_right (show (2 : Int) ≤ k by omega) h
        exact .inr (.inl (by omega))
    · rintro (hone | hzero | hle)
      · have := Int.mul_le_mul_of_nonneg_right (show (k : Int) ≤ 1 by omega) h
        omega
      · simp [hzero]
      · have := Int.mul_le_mul_of_nonneg_left (show left ≤ page by omega) (show (0 : Int) ≤ k by omega)
        omega

/-- **The limit holds exactly where the pages need no counting.** -/
theorem overwrite_limit_iff (s : StackNames) (pages : List Vapa) (h : s.stackOverwriteCtr ≤ s.maxOverwrite) :
    InLimit s pages ↔ mappedPages pages ≤ 1 ∨ s.maxOverwrite - s.stackOverwriteCtr = 0 ∨
      mappedPages pages * s.pageSize ≤ s.maxOverwrite - s.stackOverwriteCtr := by
  unfold InLimit
  rw [bytesWritten_eq, writeStride_eq]
  exact mul_min_le_iff (by omega)

/-! ## A stack of two pages -/

/-- Every page of the process is mapped, a mebibyte up; its stack is from 8192 to 16384, `start_stack` is 8208. -/
def stackGuest : Pyvmi :=
  { tableGuest [(8, 4096), (4112, 8208), (512, 8192), (520, 16384)] [] with
    translateUv2p := fun va _ => .ok (va + 1048576) }

def stackNames : StackNames where
  metaOffset name := if name = "mm_offset" then 8 else 16
  currentVma := 512
  vmaStartOffset := 0
  vmaEndOffset := 8
  pid := 42
  stackOverwriteByte := 0
  stackOverwriteCtr := 0
  maxOverwrite := 4096
  pageSize := 4096

theorem stackGuest_translates : Translates stackGuest := by
  intro va pid e h
  cases h

theorem stackGuest_reads : ReadsStack stackGuest stackNames 0 8208 8192 16384 :=
  ⟨⟨4096, 0, by decide, by decide, by decide⟩, by decide, by decide⟩

theorem stays_inside_iff_low :
    StaysInside stackGuest stackNames 0 8208 8192 16384 ↔ 16384 - stackNames.pageSize ≤ 8208 :=
  stays_inside_iff stackGuest stackNames 0 8208 8192 16384 stackGuest_translates stackGuest_reads (by decide)
    (by decide) (by decide) (by decide) (by decide)

/-- The second page listed is the one below the VMA, and it is overwritten. -/
theorem low_stack_leaves : ReadsStack stackGuest stackNames 0 8208 8192 16384 ∧
    bulkVa2paTranslate stackGuest stackNames 8208 (16384 - 8192) 42 = .ok [⟨0, 8192, 1056768⟩, ⟨1, 4096, 1052672⟩] ∧
      ¬ StaysInside stackGuest stackNames 0 8208 8192 16384 := by
  have hpages : bulkVa2paTranslate stackGuest stackNames 8208 (16384 - 8192) 42 =
      .ok [⟨0, 8192, 1056768⟩, ⟨1, 4096, 1052672⟩] := by decide
  refine ⟨stackGuest_reads, hpages, ?_⟩
  rintro ⟨pages, hpages', -, hinside⟩
  cases hpages.symm.trans hpages'
  have hbelow := (hinside.listed 4096).1 (by decide)
  exact absurd hbelow.2.1 (by decide)

def twoPages : List Vapa := [⟨0, 12288, 1060864⟩, ⟨1, 8192, 1056768⟩]

theorem overwrite_limit_iff_two : InLimit stackNames twoPages ↔ mappedPages twoPages ≤ 1 ∨
    stackNames.maxOverwrite - stackNames.stackOverwriteCtr = 0 ∨
      mappedPages twoPages * stackNames.pageSize ≤ stackNames.maxOverwrite - stackNames.stackOverwriteCtr :=
  overwrite_limit_iff stackNames twoPages (by decide)

/-- With 4096 bytes left to write both pages are written in full. -/
theorem two_pages_over_limit : bytesWritten stackNames twoPages = 8192 ∧ ¬ InLimit stackNames twoPages := by
  have hbytes : bytesWritten stackNames twoPages = 8192 := by
    rw [bytesWritten_eq]
    decide
  refine ⟨hbytes, ?_⟩
  unfold InLimit
  rw [hbytes]
  decide

end Hyperagents
