/-
The fixed point format, in exact arithmetic.

A finite number is turned into a count of multiples of `2 ^ -16` by one division of its
mantissa, and the remainder tells on which side of a half the rest lies.  That count is the
integer nearest to the exact quotient, so turning a binary32 number into the format is what
exact arithmetic does with the number it stands for.
-/
import MotorControl.Proofs.Exact
import MotorControl.Proofs.Binary32.Value

namespace MotorControl.Binary32

open Float.Model (UnpackedFloat)
open Float.Model.UnpackedFloat

/-! ### The nearest integer -/

theorem isNearestEven_nearestEven (m : ℕ) (e : ℤ) :
    Exact.IsNearestEven (m * 2 ^ e) (nearestEven m e) := by
  unfold nearestEven
  by_cases he : 0 ≤ e
  · obtain ⟨k, rfl⟩ := Int.eq_ofNat_of_zero_le he
    left
    rw [if_pos he, Nat.shiftLeft_eq]
    push_cast
    norm_num
  obtain ⟨k, rfl⟩ : ∃ k : ℕ, e = -k := ⟨(-e).toNat, by omega⟩
  have hunit : 0 < 1 <<< (- -(k : ℤ)).toNat := by
    rw [Nat.shiftLeft_eq]
    positivity
  have hvalue : (m * 2 ^ (-k : ℤ) : ℝ) = m / (1 <<< (- -(k : ℤ)).toNat : ℕ) := by
    rw [neg_neg, Int.toNat_natCast, Nat.shiftLeft_eq, one_mul, zpow_neg, zpow_natCast]
    push_cast
    rfl
  rw [if_neg he, hvalue]
  generalize 1 <<< (- -(k : ℤ)).toNat = unit at hunit ⊢
  obtain ⟨hquot, hrem⟩ := div_eq_add_rem (K := ℝ) m hunit
  have hhalf := compares_half (K := ℝ) (m % unit) hunit
  have hnonneg : (0 : ℝ) ≤ ((m % unit : ℕ) : ℝ) / unit := by positivity
  dsimp only
  rw [hquot]
  generalize m / unit = below
  rcases hcompare : compare (2 * (m % unit)) unit with _ | _ | _ <;> rw [hcompare] at hhalf <;>
    dsimp only
  · rw [Ordering.compares_lt] at hhalf
    left
    rwa [Int.cast_natCast, add_sub_cancel_left, abs_of_nonneg hnonneg]
  · rw [Ordering.compares_eq] at hhalf
    right
    rw [hhalf]
    rcases Nat.mod_two_eq_zero_or_one below with heven | hodd
    · rw [heven]
      exact ⟨by norm_num, by omega⟩
    · rw [hodd]
      exact ⟨by norm_num, by omega⟩
  · rw [Ordering.compares_gt] at hhalf
    left
    rw [abs_lt]
    push_cast
    constructor <;> linarith

/-! ### The format -/

/-- **A number is turned into the format as the rational number that it is.** -/
theorem toFixed?_eq (x : Float32) :
    Scalar.toFixed? x = (value? x).bind fun v => Scalar.toFixed? (v : ℝ) := by
  have hcount (n : ℤ) (v : ℝ) (h : Exact.IsNearestEven (v * 65536) n) :
      Scalar.toFixed? v = if -2147483648 ≤ n ∧ n < 2147483648 then some n else none := by
    show Exact.toFixed? v = _
    rw [Exact.toFixed?, Exact.nearestEven_eq h]
  show Binary32.toFixed? x = (unpackedValue? (parts x)).bind _
  unfold Binary32.toFixed?
  rw [show x.toModel.unpack = parts x from rfl]
  cases parts x with
  | notANumber | infinity => rfl
  | zero s =>
      refine (hcount 0 _ (Or.inl ?_)).symm
      norm_num
  | finite s m e h =>
      refine (hcount _ _ ?_).symm
      have hvalue : ((factor s * (m * 2 ^ e) : ℚ) : ℝ) * 65536 = factor s * (m * 2 ^ (e + 16)) := by
        rw [zpow_add₀ two_ne_zero]
        push_cast
        ring
      have hnearest := isNearestEven_nearestEven m (e + 16)
      rw [hvalue]
      cases s with
      | positive =>
          rw [factor, Rat.cast_one, one_mul]
          exact hnearest
      | negative =>
          rw [factor, Rat.cast_neg, Rat.cast_one, neg_one_mul]
          exact hnearest.neg

end MotorControl.Binary32
