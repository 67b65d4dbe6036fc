import Hyperagents.VictimSearch
/-!
# Idle times

`timeval_diff` converts the seconds and the microseconds of a difference separately, and truncates the second part
toward zero: up when the microseconds go back, down when they go on.  Still a later time never gives a smaller
difference (`timevalDiff_mono`), so of two slots the one last used no later is idle at least as long.
-/
namespace Hyperagents

/-! ## Truncated division -/

section

variable {a k m : Int}

theorem tdiv_close (a : Int) (hk : 0 < k) : -k < k * a.tdiv k - a ∧ k * a.tdiv k - a < k := by
  rcases Int.le_total 0 a with ha | ha
  · have hle := Int.mul_tdiv_self_le (k := k) ha
    have hlt := Int.lt_mul_tdiv_self_add (x := a) hk
    omega
  · have hle := Int.mul_tdiv_self_le (k := k) (Int.neg_nonneg_of_nonpos ha)
    have hlt := Int.lt_mul_tdiv_self_add (x := -a) hk
    rw [Int.neg_tdiv, Int.mul_neg] at hle hlt
    omega

/-- Whole divisors added across zero are not all counted. -/
theorem add_mul_tdiv_le (hk : 0 < k) (h : 0 ≤ a + m * k) : (a + m * k).tdiv k ≤ a.tdiv k + m := by
  have hfloor : a / k ≤ a.tdiv k := by
    rw [Int.tdiv_eq_ediv]
    split
    · omega
    · rw [Int.sign_eq_one_of_pos hk]
      omega
  rw [Int.tdiv_eq_ediv_of_nonneg h, Int.add_mul_ediv_right a m (by omega)]
  omega

end

/-! ## The difference of two times -/

namespace Timeval

def micros (x : Timeval) : Int := x.sec * 1000000 + x.usec

structure Normal (x : Timeval) : Prop where
  nonneg : 0 ≤ x.usec
  lt : x.usec < 1000000

end Timeval

variable {x x' y : Timeval}

/-- **The difference is off by less than a millisecond.** -/
theorem timevalDiff_close (x y : Timeval) : (1000 * timevalDiff x y - (y.micros - x.micros)).natAbs < 1000 := by
  have h := tdiv_close (y.usec - x.usec) (show (0 : Int) < 1000 by decide)
  unfold timevalDiff Timeval.micros
  omega

/-- Across a second a microsecond counts for a whole millisecond. -/
example : timevalDiff ⟨0, 999999⟩ ⟨1, 0⟩ = 1 := by decide

theorem timevalDiff_antisymm (x y : Timeval) : timevalDiff y x = -timevalDiff x y := by
  unfold timevalDiff
  have h : x.usec - y.usec = -(y.usec - x.usec) := by omega
  rw [h, Int.neg_tdiv]
  omega

/-- **A later time gives no smaller difference.** -/
theorem timevalDiff_mono (hx : x.Normal) (hx' : x'.Normal) (hy : y.Normal) (h : x.micros ≤ x'.micros) :
    timevalDiff y x ≤ timevalDiff y x' := by
  have hx₀ := hx.nonneg
  have hx₁ := hx.lt
  have hx₂ := hx'.nonneg
  have hx₃ := hx'.lt
  have hy₁ := hy.lt
  unfold Timeval.micros at h
  unfold timevalDiff
  by_cases hsec : x.sec = x'.sec
  · have := Int.tdiv_le_tdiv (show (0 : Int) < 1000 by decide) (show x.usec - y.usec ≤ x'.usec - y.usec by omega)
    omega
  · -- Across a second boundary the microseconds go back by less than the second that is gained.
    have hback := Int.tdiv_le_tdiv (show (0 : Int) < 1000 by decide)
      (show x.usec - y.usec ≤ x'.usec - y.usec + 1000 * 1000 by omega)
    have hgain := add_mul_tdiv_le (a := x'.usec - y.usec) (m := 1000) (show (0 : Int) < 1000 by decide) (by omega)
    omega

theorem timevalDiff_anti (hx : x.Normal) (hx' : x'.Normal) (hy : y.Normal) (h : x.micros ≤ x'.micros) :
    timevalDiff x' y ≤ timevalDiff x y := by
  have := timevalDiff_mono hx hx' hy h
  rw [timevalDiff_antisymm x' y, timevalDiff_antisymm x y] at this
  omega

/-! ## In 64 bits -/

/-- `struct timeval`. -/
structure Timeval64 where
  tvSec : Int64
  tvUsec : Int64
  deriving DecidableEq, Repr

namespace Timeval64

def toTimeval (x : Timeval64) : Timeval := ⟨x.tvSec.toInt, x.tvUsec.toInt⟩

def diff (x y : Timeval64) : Int64 := (y.tvSec - x.tvSec) * 1000 + (y.tvUsec - x.tvUsec) / 1000

end Timeval64

def In64 (n : Int) : Prop := -9223372036854775808 ≤ n ∧ n < 9223372036854775808

instance (n : Int) : Decidable (In64 n) := inferInstanceAs (Decidable (_ ∧ _))

theorem In64.bmod {n : Int} (h : In64 n) : n.bmod (2 ^ 64) = n := by
  apply Int.bmod_eq_of_le_mul_two <;> unfold In64 at h <;> omega

/-- No step of the difference leaves 64 bits; that of the microseconds cannot. -/
structure NoOverflow (x y : Timeval) : Prop where
  sec : In64 (y.sec - x.sec)
  msec : In64 ((y.sec - x.sec) * 1000)
  sum : In64 (timevalDiff x y)

/-- **Without overflow the 64-bit difference is the exact one.** -/
theorem Timeval64.diff_exact {x y : Timeval64} (hx : x.toTimeval.Normal) (hy : y.toTimeval.Normal)
    (h : NoOverflow x.toTimeval y.toTimeval) : (x.diff y).toInt = timevalDiff x.toTimeval y.toTimeval := by
  have hx₀ := hx.nonneg
  have hx₁ := hx.lt
  have hy₀ := hy.nonneg
  have hy₁ := hy.lt
  have husec : In64 (y.toTimeval.usec - x.toTimeval.usec) := by
    unfold In64
    omega
  have hne : (1000 : Int64) ≠ -1 := by decide
  have hthousand : (1000 : Int64).toInt = 1000 := by decide
  unfold diff
  rw [Int64.toInt_add, Int64.toInt_mul, Int64.toInt_div_of_ne_right _ _ hne, Int64.toInt_sub, Int64.toInt_sub,
    hthousand]
  change (((y.toTimeval.sec - x.toTimeval.sec).bmod (2 ^ 64) * 1000).bmod (2 ^ 64) +
    ((y.toTimeval.usec - x.toTimeval.usec).bmod (2 ^ 64)).tdiv 1000).bmod (2 ^ 64) = _
  rw [h.sec.bmod, h.msec.bmod, husec.bmod]
  exact h.sum.bmod

/-! ## The order of the slots -/

/-- What the 64-bit differences to and from `y` say of the times `x` and `x'`, as far as they do not overflow. -/
structure OrdersTimes (x x' y : Timeval64) : Prop where
  close : NoOverflow x.toTimeval y.toTimeval →
    (1000 * (x.diff y).toInt - (y.toTimeval.micros - x.toTimeval.micros)).natAbs < 1000
  antisymm : NoOverflow x.toTimeval y.toTimeval → NoOverflow y.toTimeval x.toTimeval → y.diff x = -x.diff y
  mono : x.toTimeval.micros ≤ x'.toTimeval.micros → NoOverflow y.toTimeval x.toTimeval →
    NoOverflow y.toTimeval x'.toTimeval → y.diff x ≤ y.diff x'
  anti : x.toTimeval.micros ≤ x'.toTimeval.micros → NoOverflow x.toTimeval y.toTimeval →
    NoOverflow x'.toTimeval y.toTimeval → x'.diff y ≤ x.diff y

/-- Of two slots the one last used no later is idle at least as long. -/
def OrdersIdle (rs : Records) (now : Timeval) : Prop := now.Normal → ∀ i j, (rs i).lastUsed.Normal →
  (rs j).lastUsed.Normal → (rs i).lastUsed.micros ≤ (rs j).lastUsed.micros → rs.idle now j ≤ rs.idle now i

theorem idle_times_order (x x' y : Timeval64) (hx : x.toTimeval.Normal) (hx' : x'.toTimeval.Normal)
    (hy : y.toTimeval.Normal) : OrdersTimes x x' y ∧ ∀ rs now, OrdersIdle rs now := by
  refine ⟨⟨?_, ?_, ?_, ?_⟩, fun rs now hnow i j hi hj h => timevalDiff_anti hi hj hnow h⟩
  · intro h
    rw [Timeval64.diff_exact hx hy h]
    exact timevalDiff_close x.toTimeval y.toTimeval
  · intro h h'
    apply Int64.toInt_inj.1
    rw [Int64.toInt_neg, Timeval64.diff_exact hx hy h, Timeval64.diff_exact hy hx h', ← timevalDiff_antisymm]
    exact h'.sum.bmod.symm
  · intro hle h h'
    rw [Int64.le_iff_toInt_le, Timeval64.diff_exact hy hx h, Timeval64.diff_exact hy hx' h']
    exact timevalDiff_mono hx hx' hy hle
  · intro hle h h'
    rw [Int64.le_iff_toInt_le, Timeval64.diff_exact hx hy h, Timeval64.diff_exact hx' hy h']
    exact timevalDiff_anti hx hx' hy hle

theorem idle_times_order_across : OrdersTimes ⟨1, 999999⟩ ⟨2, 0⟩ ⟨3, 500000⟩ ∧ ∀ rs now, OrdersIdle rs now :=
  idle_times_order ⟨1, 999999⟩ ⟨2, 0⟩ ⟨3, 500000⟩ ⟨by decide, by decide⟩ ⟨by decide, by decide⟩ ⟨by decide, by decide⟩

/-- **The slot taken is the one used the longest ago**, but for two milliseconds. -/
theorem Records.LongestIdle.oldest {rs : Records} {now : Timeval} {i j : Slot} (h : rs.LongestIdle now i)
    (hj : rs.refcount j = 0) : (rs i).lastUsed.micros < (rs j).lastUsed.micros + 2000 := by
  have hidle := h.longest j hj
  have hi := timevalDiff_close (rs i).lastUsed now
  have hj := timevalDiff_close (rs j).lastUsed now
  unfold Records.idle at hidle
  omega

end Hyperagents
