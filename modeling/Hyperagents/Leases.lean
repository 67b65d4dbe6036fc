import Mathlib.Logic.Function.Basic
import Mathlib.Algebra.Order.Group.Int
import Mathlib.Data.Set.Card
/-!
# Exclusive leases

A table of places: each is owned by at most one client (`owner`) and counts its uses (`count`); `out` says how many
uses a client has outstanding.  `Sound` ties the three together.  It is kept when the owner of a place takes another
use of it (`Sound.again`), when a place out of use goes to a client that owns none (`Sound.grant`), and when a use is
given back (`Sound.giveBack`).  A place keeps its owner after the last use, until it is granted again.
-/
namespace Leases

variable {I K : Type*}

structure Sound (owner : I → Option K) (count : I → Int) (out : K → Int) : Prop where
  nonneg : ∀ k, 0 ≤ out k
  /-- No two places have one owner. -/
  inj : ∀ i j k, owner i = some k → owner j = some k → i = j
  held : ∀ k, 0 < out k → ∃ i, owner i = some k
  /-- A place counts its owner's uses. -/
  count : ∀ i, count i = (owner i).elim 0 out

variable {owner : I → Option K} {count : I → Int} {out : K → Int}

/-- Nothing owned, nothing out. -/
theorem Sound.empty : Sound (fun _ : I => none) (fun _ => 0) (fun _ : K => 0) where
  nonneg _ := Int.le_refl 0
  inj _ _ _ h := by cases h
  held _ h := absurd h (Int.lt_irrefl 0)
  count _ := rfl

theorem Sound.count_of_owner (h : Sound owner count out) {i : I} {k : K} (hi : owner i = some k) : count i = out k := by
  rw [h.count, hi]
  rfl

theorem Sound.count_of_none (h : Sound owner count out) {i : I} (hi : owner i = none) : count i = 0 := by
  rw [h.count, hi]
  rfl

/-- **A client with uses out owns exactly one place**, and its count is what is out. -/
theorem Sound.existsUnique (h : Sound owner count out) {k : K} (hk : 0 < out k) :
    ∃ i, owner i = some k ∧ count i = out k ∧ ∀ j, owner j = some k → j = i := by
  obtain ⟨i, hi⟩ := h.held k hk
  exact ⟨i, hi, h.count_of_owner hi, fun j hj => h.inj j i k hj hi⟩

/-- A place whose owner has nothing out counts zero. -/
theorem Sound.count_eq_zero (h : Sound owner count out) {i : I} (hi : ∀ k, owner i = some k → ¬ 0 < out k) :
    count i = 0 := by
  cases ho : owner i with
  | none => exact h.count_of_none ho
  | some k =>
    have := hi k ho
    have := h.nonneg k
    rw [h.count_of_owner ho]
    omega

/-- A client without a place has nothing out. -/
theorem Sound.out_eq_zero (h : Sound owner count out) {k : K} (hk : ∀ i, owner i ≠ some k) : out k = 0 := by
  have h0 := h.nonneg k
  have h1 : ¬ 0 < out k := fun hpos => by
    obtain ⟨i, hi⟩ := h.held k hpos
    exact hk i hi
  omega

section

variable [DecidableEq I] [DecidableEq K]

/-- The uses of one client's place change, and nothing else does. -/
theorem Sound.change (h : Sound owner count out) {i : I} {k : K} (hi : owner i = some k) {x : Int} (hx : 0 ≤ x) :
    Sound owner (Function.update count i x) (Function.update out k x) where
  nonneg k' := by
    by_cases hk : k' = k
    · rw [hk, Function.update_self]
      exact hx
    · rw [Function.update_of_ne hk]
      exact h.nonneg k'
  inj := h.inj
  held k' hk' := by
    by_cases hk : k' = k
    · exact ⟨i, by rw [hk]; exact hi⟩
    · rw [Function.update_of_ne hk] at hk'
      exact h.held k' hk'
  count j := by
    by_cases hj : j = i
    · subst hj
      rw [Function.update_self, hi]
      exact (Function.update_self k x out).symm
    · rw [Function.update_of_ne hj, h.count]
      cases ho : owner j with
      | none => rfl
      | some k' =>
        have hk : k' ≠ k := fun e => hj (h.inj j i k (by rw [ho, e]) hi)
        exact (Function.update_of_ne hk x out).symm

/-- **Another use.** -/
theorem Sound.again (h : Sound owner count out) {i : I} {k : K} (hi : owner i = some k) :
    Sound owner (Function.update count i (count i + 1)) (Function.update out k (out k + 1)) := by
  have h0 := h.nonneg k
  rw [h.count_of_owner hi]
  exact h.change hi (by omega)

/-- **A use given back.** -/
theorem Sound.giveBack (h : Sound owner count out) {i : I} {k : K} (hi : owner i = some k) (hk : 0 < out k) :
    Sound owner (Function.update count i (count i - 1)) (Function.update out k (out k - 1)) := by
  rw [h.count_of_owner hi]
  exact h.change hi (by omega)

theorem update_some {A B : Type*} [DecidableEq A] {f : A → Option B} {a a' : A} {b b' : B}
    (h : Function.update f a (some b) a' = some b') : (a' = a ∧ b' = b) ∨ (a' ≠ a ∧ f a' = some b') := by
  by_cases ha : a' = a
  · rw [ha, Function.update_self] at h
    exact .inl ⟨ha, (Option.some.inj h).symm⟩
  · rw [Function.update_of_ne ha] at h
    exact .inr ⟨ha, h⟩

/-- **A place out of use goes to a client without one.** -/
theorem Sound.grant (h : Sound owner count out) {i : I} {k : K} (hi : count i = 0) (hk : ∀ j, owner j ≠ some k) :
    Sound (Function.update owner i (some k)) (Function.update count i 1) (Function.update out k (out k + 1)) := by
  have hout := h.out_eq_zero hk
  refine ⟨fun k' => ?_, fun j j' k' hj hj' => ?_, fun k' hk' => ?_, fun j => ?_⟩
  · by_cases hkk : k' = k
    · rw [hkk, Function.update_self]
      omega
    · rw [Function.update_of_ne hkk]
      exact h.nonneg k'
  · rcases update_some hj with ⟨rfl, rfl⟩ | ⟨-, ho⟩ <;> rcases update_some hj' with ⟨rfl, hkk⟩ | ⟨-, ho'⟩
    · rfl
    · exact absurd ho' (hk j')
    · exact absurd ho (by rw [hkk]; exact hk j)
    · exact h.inj j j' k' ho ho'
  · by_cases hkk : k' = k
    · exact ⟨i, by rw [Function.update_self, hkk]⟩
    · rw [Function.update_of_ne hkk] at hk'
      obtain ⟨j, hj⟩ := h.held k' hk'
      -- A client with uses out is not the one whose place is taken away.
      have hji : j ≠ i := fun e => by
        have := h.count_of_owner hj
        rw [e, hi] at this
        omega
      exact ⟨j, by rw [Function.update_of_ne hji]; exact hj⟩
  · by_cases hji : j = i
    · rw [hji, Function.update_self, Function.update_self]
      show 1 = Function.update out k (out k + 1) k
      rw [Function.update_self, hout]
      rfl
    · rw [Function.update_of_ne hji, Function.update_of_ne hji, h.count]
      cases ho : owner j with
      | none => rfl
      | some k' =>
        have hkk : k' ≠ k := fun e => hk j (by rw [ho, e])
        exact (Function.update_of_ne hkk _ out).symm

end

/-! ## How many clients there is room for -/

/-- As many clients have uses out as there are places in use. -/
theorem Sound.ncard_busy (h : Sound owner count out) :
    Set.ncard {k | 0 < out k} = Set.ncard {i | 0 < count i} := by
  have hplace : ∀ k, 0 < out k → ∃ i, owner i = some k := h.held
  refine Set.ncard_congr (fun k hk => (hplace k hk).choose) (fun k hk => ?_) (fun k k' hk hk' heq => ?_) fun i hi => ?_
  · show 0 < count (hplace k hk).choose
    rw [h.count_of_owner (hplace k hk).choose_spec]
    exact hk
  · have hk := (hplace k hk).choose_spec
    rw [heq, (hplace k' hk').choose_spec] at hk
    exact (Option.some.inj hk).symm
  · cases ho : owner i with
    | none =>
      have h0 := h.count_of_none ho
      change 0 < count i at hi
      omega
    | some k =>
      have hk : 0 < out k := by
        rw [← h.count_of_owner ho]
        exact hi
      exact ⟨k, hk, h.inj _ i k (hplace k hk).choose_spec ho⟩

variable [Finite I]

/-- **No more clients have uses out than there are places.** -/
theorem Sound.ncard_busy_le (h : Sound owner count out) : Set.ncard {k | 0 < out k} ≤ Nat.card I := by
  rw [h.ncard_busy]
  exact Set.ncard_le_card _

/-- As many as there are places only where every place is in use. -/
theorem Sound.ncard_busy_eq_iff (h : Sound owner count out) :
    Set.ncard {k | 0 < out k} = Nat.card I ↔ ∀ i, 0 < count i := by
  rw [h.ncard_busy, ← Set.ncard_univ]
  constructor
  · intro hcard i
    have huniv : {i | 0 < count i} = Set.univ := Set.eq_of_subset_of_ncard_le (Set.subset_univ _) hcard.ge
    have hi : i ∈ {i | 0 < count i} := huniv ▸ Set.mem_univ i
    exact hi
  · intro hall
    rw [Set.eq_univ_of_forall (s := {i | 0 < count i}) hall]

end Leases
