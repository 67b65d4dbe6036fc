import Mathlib.Data.List.Basic
import Mathlib.Order.Lattice
/-!
# The first greatest element of a list

A scan keeps the greatest key met so far and where it stood, and goes over to an element only if that is a candidate
with a greater key (`scan`).  So it starts from a key and a place of its own, and either no candidate beats that key
and the scan ends as it began, or it ends at the first of the candidates with the greatest key (`scan_cases`).
-/
namespace FirstMax

variable {I K : Type*} [LinearOrder K] (p : I → Prop) (key : I → K)

/-- The candidate `i` of the list beats the candidates before it, and no candidate after it beats `i`. -/
structure IsFirstMax (is : List I) (i : I) : Prop where
  candidate : p i
  split : ∃ front back, is = front ++ i :: back ∧ (∀ j ∈ front, p j → key j < key i) ∧
    ∀ j ∈ back, p j → key j ≤ key i

variable {p} {key}

theorem IsFirstMax.le {is : List I} {i : I} (h : IsFirstMax p key is i) : ∀ j ∈ is, p j → key j ≤ key i := by
  obtain ⟨-, front, back, rfl, hfront, hback⟩ := h
  intro j hj hp
  rcases List.mem_append.1 hj with hj | hj
  · exact le_of_lt (hfront j hj hp)
  · rcases List.mem_cons.1 hj with rfl | hj
    · exact le_rfl
    · exact hback j hj hp

/-- In an ascending list the candidates below the first greatest are smaller. -/
theorem IsFirstMax.lt_of_lt [LinearOrder I] {is : List I} {i : I} (h : IsFirstMax p key is i)
    (hs : is.Pairwise (· < ·)) : ∀ j ∈ is, j < i → p j → key j < key i := by
  obtain ⟨-, front, back, rfl, hfront, -⟩ := h
  intro j hj hji hp
  rcases List.mem_append.1 hj with hj | hj
  · exact hfront j hj hp
  · -- What comes after `i` is above it.
    have hback := (List.pairwise_cons.1 (List.pairwise_append.1 hs).2.1).1
    rcases List.mem_cons.1 hj with rfl | hj
    · exact absurd hji (lt_irrefl _)
    · exact absurd (hji.trans (hback j hj)) (lt_irrefl _)

theorem IsFirstMax.cons_of_lt {is : List I} {i j : I} (h : IsFirstMax p key is i) (hj : p j → key j < key i) :
    IsFirstMax p key (j :: is) i := by
  obtain ⟨hp, front, back, rfl, hfront, hback⟩ := h
  refine ⟨hp, j :: front, back, rfl, ?_, hback⟩
  intro k hk
  rcases List.mem_cons.1 hk with rfl | hk
  · exact hj
  · exact hfront k hk

variable (p) (key) [DecidablePred p]

def step (m : K × I) (i : I) : K × I := if p i ∧ m.1 < key i then (key i, i) else m

def scan (m : K × I) (is : List I) : K × I := is.foldl (step p key) m

variable {p} {key}

/-- **Where a scan ends**: as it began, if no candidate beats that, and else at the first greatest. -/
theorem scan_cases : ∀ (is : List I) (m : K × I),
    (scan p key m is = m ∧ ∀ j ∈ is, p j → key j ≤ m.1) ∨
      (m.1 < (scan p key m is).1 ∧ ∃ i, scan p key m is = (key i, i) ∧ IsFirstMax p key is i)
  | [], m => .inl ⟨rfl, by simp⟩
  | i :: is, m => by
    have hscan : scan p key m (i :: is) = scan p key (step p key m i) is := rfl
    rw [hscan]
    by_cases hi : p i ∧ m.1 < key i
    · have hstep : step p key m i = (key i, i) := if_pos hi
      rw [hstep]
      rcases scan_cases is (key i, i) with ⟨heq, hle⟩ | ⟨hlt, j, heq, hj⟩
      · rw [heq]
        exact .inr ⟨hi.2, i, rfl, hi.1, [], is, rfl, by simp, hle⟩
      · refine .inr ⟨hi.2.trans hlt, j, heq, hj.cons_of_lt fun _ => ?_⟩
        rw [heq] at hlt
        exact hlt
    · have hstep : step p key m i = m := if_neg hi
      rw [hstep]
      have hile : p i → key i ≤ m.1 := fun hp => not_lt.1 fun hlt => hi ⟨hp, hlt⟩
      rcases scan_cases is m with ⟨heq, hle⟩ | ⟨hlt, j, heq, hj⟩
      · refine .inl ⟨heq, fun k hk => ?_⟩
        rcases List.mem_cons.1 hk with rfl | hk
        · exact hile
        · exact hle k hk
      · refine .inr ⟨hlt, j, heq, hj.cons_of_lt fun hp => ?_⟩
        rw [heq] at hlt
        exact (hile hp).trans_lt hlt

/-- From below a bound, a scan gets to the bound exactly when some candidate does. -/
theorem le_scan_iff {is : List I} {m : K × I} {bound : K} (hm : m.1 < bound) :
    bound ≤ (scan p key m is).1 ↔ ∃ i ∈ is, p i ∧ bound ≤ key i := by
  rcases scan_cases (p := p) is m with ⟨heq, hle⟩ | ⟨-, i, heq, hi⟩
  · rw [heq]
    apply iff_of_false (not_le.2 hm)
    rintro ⟨i, hmem, hp, hb⟩
    exact absurd (hb.trans (hle i hmem hp)) (not_le.2 hm)
  · rw [heq]
    constructor
    · intro hb
      obtain ⟨hp, front, back, rfl, -, -⟩ := hi
      exact ⟨i, List.mem_append_right _ List.mem_cons_self, hp, hb⟩
    · rintro ⟨j, hmem, hp, hb⟩
      exact hb.trans (hi.le j hmem hp)

/-- A scan that gets to a bound it began below ends at the first greatest, wherever it began. -/
theorem isFirstMax_of_le {is : List I} {m : K × I} {bound : K} (hm : m.1 < bound)
    (h : bound ≤ (scan p key m is).1) : IsFirstMax p key is (scan p key m is).2 := by
  rcases scan_cases (p := p) is m with ⟨heq, -⟩ | ⟨-, i, heq, hi⟩
  · rw [heq] at h
    exact absurd h (not_le.2 hm)
  · rw [heq]
    exact hi

end FirstMax
