/-
Duties in exact arithmetic.

A fraction of a period that a half bridge cannot conduct is moved to the nearer end of
its range before it is told to the bridge.
-/
import MotorControl.Proofs.Exact
import MotorControl.Duty

namespace MotorControl

/-- A number is moved up to the lower end of a range or down to the upper one. -/
theorem Exact.clamp_eq (x : ℝ) {lo hi : ℝ} (h : lo ≤ hi) :
    Scalar.clamp x lo hi = max lo (min x hi) := by
  show (if x < lo then lo else if hi < x then hi else x) = max lo (min x hi)
  by_cases hlo : x < lo
  · rw [if_pos hlo, min_eq_left (hlo.le.trans h), max_eq_left hlo.le]
  rw [if_neg hlo]
  by_cases hhi : hi < x
  · rw [if_pos hhi, min_eq_right hhi.le, max_eq_right h]
  · rw [if_neg hhi, min_eq_left (not_lt.1 hhi), max_eq_right (not_lt.1 hlo)]

namespace Percent

theorem toNat_ofUInt8 {n : ℕ} (hn : n ≤ 100) : (ofUInt8 (.ofNat n)).value.toNat = n := by
  have hbyte : (UInt8.ofNat n).toNat = n :=
    UInt8.toNat_ofNat_of_lt' (Nat.lt_of_le_of_lt hn (by decide))
  have hle : UInt8.ofNat n ≤ 100 := by
    rw [UInt8.le_iff_toNat_le, hbyte]
    exact hn
  rw [ofUInt8, dif_pos hle, hbyte]

/-- A fraction is told as the whole percent that is nearest to it in the range. -/
theorem toNat_ofFraction (x : ℝ) :
    ((ofFraction x).value.toNat : ℤ) = max 0 (min (Exact.round (x * 100)) 100) := by
  obtain ⟨n, hn⟩ := Int.eq_ofNat_of_zero_le (le_max_left 0 (min (Exact.round (x * 100)) 100))
  have hle : n ≤ 100 := by omega
  have hclamp : Scalar.clamp (Scalar.round (x * 100)) 0 100 = (n : ℝ) :=
    calc Scalar.clamp (Scalar.round (x * 100)) 0 100
      _ = max 0 (min ((Exact.round (x * 100) : ℤ) : ℝ) 100) :=
        Exact.clamp_eq _ (by norm_num)
      _ = (n : ℝ) := by exact_mod_cast congrArg (Int.cast : ℤ → ℝ) hn
  rw [hn, ofFraction, Exact.zero_eq, hclamp, Exact.toUInt8_natCast (hle.trans (by decide)),
    toNat_ofUInt8 hle]

/-- A fraction of one or more is told as the whole period. -/
theorem ofFraction_of_one_le {x : ℝ} (hx : 1 ≤ x) : (ofFraction x).value.toNat = 100 := by
  have hround : (100 : ℤ) ≤ Exact.round (x * 100) := by
    rw [Exact.le_round_iff (by linarith)]
    push_cast
    linarith
  have := toNat_ofFraction x
  omega

/-- A fraction of zero or less is told as no time at all. -/
theorem ofFraction_of_nonpos {x : ℝ} (hx : x ≤ 0) : (ofFraction x).value.toNat = 0 := by
  have hround : Exact.round (x * 100) ≤ 0 := Exact.round_nonpos (by linarith)
  have := toNat_ofFraction x
  omega

/-- A share that is its fraction in whole percent: the fraction lies within the period, and nothing
but rounding came between the two. -/
structure Tells (p : Percent) (x : ℝ) : Prop where
  nonneg : 0 ≤ x
  le_one : x ≤ 1
  rounded : (p.value.toNat : ℤ) = Exact.round (x * 100)

theorem tells_ofFraction {x : ℝ} (hlo : 0 ≤ x) (hhi : x ≤ 1) : (ofFraction x).Tells x := by
  have hnonneg : (0 : ℤ) ≤ Exact.round (x * 100) := by
    rw [Exact.le_round_iff (by linarith)]
    push_cast
    linarith
  have hle : Exact.round (x * 100) ≤ 100 := by
    rw [← not_lt, ← Int.add_one_le_iff, Exact.le_round_iff (by linarith)]
    push_cast
    linarith
  refine ⟨hlo, hhi, ?_⟩
  rw [toNat_ofFraction, min_eq_left hle, max_eq_right hnonneg]

/-- Half a percent is lost at most. -/
theorem Tells.abs_sub_le {p : Percent} {x : ℝ} (h : p.Tells x) :
    |(p.value.toNat : ℝ) * 0.01 - x| ≤ 1 / 200 := by
  have hcast : ((p.value.toNat : ℤ) : ℝ) = (Exact.round (x * 100) : ℝ) := by
    exact_mod_cast h.rounded
  rw [Int.cast_natCast] at hcast
  have hround := Exact.abs_round_sub_le (x := x * 100) (by linarith [h.nonneg])
  rw [hcast]
  rw [abs_sub_le_iff] at hround ⊢
  constructor <;> norm_num at hround ⊢ <;> linarith

end Percent

end MotorControl
