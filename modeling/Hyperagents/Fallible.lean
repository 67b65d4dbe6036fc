import Mathlib.Data.Int.Notation
/-!
# Calls that may fail

What the result of two calls in a row says of each.
-/
namespace Hyperagents

theorem ok_of_bind {ε α β : Type} {x : Except ε α} {f : α → Except ε β} {b : β} (h : (x >>= f) = .ok b) :
    ∃ a, x = .ok a ∧ f a = .ok b := by
  cases x with
  | error e => cases h
  | ok a => exact ⟨a, rfl, h⟩

theorem error_of_bind {ε α β : Type} {x : Except ε α} {f : α → Except ε β} {e : ε} (h : (x >>= f) = .error e)
    (hf : ∀ a, f a ≠ .error e) : x = .error e := by
  cases x with
  | error e' =>
    cases h
    rfl
  | ok a => exact absurd h (hf a)

end Hyperagents
