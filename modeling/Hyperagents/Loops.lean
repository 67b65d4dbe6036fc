import Mathlib.Order.Basic
/-!
# Loops without a bound of their own

The body of a `while True` loop either leaves the loop with a result or goes on with another state (`Turn`).  `run`
gives the result, if the loop leaves within so many turns; `Ends` says that it leaves in a certain turn.  A loop that
ends does so within any number of turns that is enough (`Ends.run`), and it never does while an invariant keeps it going
on (`run_of_invariant`).
-/
namespace Loops

inductive Turn (R S : Type*)
  | leave (r : R)
  | again (s : S)

variable {R S : Type*}

def run (body : S → Turn R S) : Nat → S → Option R
  | 0, _ => none
  | n + 1, s =>
    match body s with
    | .leave r => some r
    | .again s' => run body n s'

/-- From `s` the loop leaves with `r` after `k` turns that went on. -/
inductive Ends (body : S → Turn R S) : S → Nat → R → Prop
  | leave {s : S} {r : R} : body s = .leave r → Ends body s 0 r
  | again {s s' : S} {k : Nat} {r : R} : body s = .again s' → Ends body s' k r → Ends body s (k + 1) r

variable {body : S → Turn R S} {s : S} {r : R} {k : Nat}

theorem run_leave (h : body s = .leave r) (n : Nat) : run body (n + 1) s = some r := by
  unfold run
  rw [h]

theorem run_again {s' : S} (h : body s = .again s') (n : Nat) : run body (n + 1) s = run body n s' := by
  conv => lhs; unfold run
  rw [h]

/-- **A loop that ends** does so within any number of turns that is enough. -/
theorem Ends.run (h : Ends body s k r) : ∀ n, k < n → run body n s = some r := by
  induction h with
  | leave hb =>
    intro n hn
    obtain ⟨n, rfl⟩ := Nat.exists_eq_add_of_lt hn
    exact run_leave hb _
  | @again s s' k r hb _ ih =>
    intro n hn
    obtain ⟨n, rfl⟩ := Nat.exists_eq_add_of_lt hn
    rw [run_again hb]
    apply ih
    omega

/-- A result is that of a loop that ends. -/
theorem exists_ends_of_run : ∀ {n : Nat} {s : S}, Loops.run body n s = some r → ∃ k, Ends body s k r
  | n + 1, s, h => by
    cases hb : body s with
    | leave r' =>
      rw [run_leave hb] at h
      exact ⟨0, .leave (Option.some.inj h ▸ hb)⟩
    | again s' =>
      rw [run_again hb] at h
      obtain ⟨k, hends⟩ := exists_ends_of_run h
      exact ⟨k + 1, .again hb hends⟩

/-- It does not within fewer turns. -/
theorem Ends.run_none (h : Ends body s k r) : ∀ n, n ≤ k → Loops.run body n s = none := by
  induction h with
  | leave hb =>
    intro n hn
    rw [Nat.le_zero.1 hn]
    rfl
  | @again s s' k r hb _ ih =>
    intro n hn
    cases n with
    | zero => rfl
    | succ n =>
      rw [run_again hb]
      exact ih n (Nat.le_of_succ_le_succ hn)

/-- **A loop that an invariant keeps going on never ends.** -/
theorem run_of_invariant {I : S → Prop} (hI : ∀ s, I s → ∃ s', body s = .again s' ∧ I s') :
    ∀ (n : Nat) (s : S), I s → Loops.run body n s = none
  | 0, _, _ => rfl
  | n + 1, s, hs => by
    obtain ⟨s', hb, hs'⟩ := hI s hs
    rw [run_again hb]
    exact run_of_invariant hI n s' hs'

end Loops
