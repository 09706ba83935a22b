/-
The direction of an angle, on binary32 numbers.

There is nothing between a direction and none at all.  An angle goes through one gate, the
conversion of the wrapped angle to the fixed point format, and it fails where the wrapped
angle is not finite or too large for a signed word.  Behind the gate all is whole numbers:
the rotations keep the vector to the length one, up to a thousandth, and what they end at
is small enough that binary32 has it, and its fraction of `2 ^ 16`, without rounding.
-/
import MotorControl.Proofs.Angle.Rotation
import MotorControl.Angle
import MotorControl.Proofs.Binary32.FixedPoint
import MotorControl.Proofs.Binary32.Undefined

namespace MotorControl.Angle

open Binary32

/-- The number is finite, and a signed word holds the count of multiples of `2 ^ -16` that is
nearest to it. -/
def Fits (x : Float32) : Prop :=
  ∃ v, value? x = some v ∧ -2147483648 ≤ Exact.nearestEven ((v : ℝ) * 65536) ∧
    Exact.nearestEven ((v : ℝ) * 65536) < 2147483648

theorem toFixed?_of_fits {x : Float32} (h : Fits x) : ∃ count, Scalar.toFixed? x = some count := by
  obtain ⟨v, hv, hrange⟩ := h
  refine ⟨Exact.nearestEven ((v : ℝ) * 65536), ?_⟩
  rw [toFixed?_eq, hv]
  exact if_pos hrange

theorem toFixed?_of_not_fits {x : Float32} (h : ¬ Fits x) : Scalar.toFixed? x = none := by
  rw [toFixed?_eq]
  cases hv : value? x with
  | none => rfl
  | some v => exact if_neg fun hrange => h ⟨v, hv, hrange⟩

/-- What does not fit has no direction. -/
theorem direction_of_not_fits {angle : Float32} (h : ¬ Fits (wrap angle)) :
    direction angle = ⟨Scalar.undefined, Scalar.undefined⟩ := by
  unfold direction
  rw [toFixed?_of_not_fits h]

/-- What fits has the direction that the rotations end at, without rounding. -/
theorem direction_of_fits {angle : Float32} (h : Fits (wrap angle)) :
    ∃ c s : ℤ, value? (direction angle).cos = some (c / 65536 : ℚ) ∧
      value? (direction angle).sin = some (s / 65536 : ℚ) ∧
      |(c / 65536 : ℚ) ^ 2 + (s / 65536 : ℚ) ^ 2 - 1| ≤ 1 / 1000 := by
  obtain ⟨count, hcount⟩ := toFixed?_of_fits h
  have hdirection : direction angle = ⟨Scalar.ofInt (Cordic.direction count).cos / 65536,
      Scalar.ofInt (Cordic.direction count).sin / 65536⟩ := by
    unfold direction
    rw [hcount]
  have hlength := Cordic.abs_normSq_direction_sub_le count
  generalize (Cordic.direction count).cos = c at hdirection hlength
  generalize (Cordic.direction count).sin = s at hdirection hlength
  have hlength : |(c : ℚ) ^ 2 + (s : ℚ) ^ 2 - 65536 ^ 2| ≤ 65536 ^ 2 / 1000 := by
    rw [← Rat.cast_le (K := ℝ)]
    push_cast
    exact hlength
  have hle := (abs_le.mp hlength).2
  have hsmall {n : ℤ} (hn : (n : ℚ) ^ 2 ≤ 65536 ^ 2 + 65536 ^ 2 / 1000) : n.natAbs < 2 ^ 23 := by
    have habs : (n : ℚ) ^ 2 < (2 ^ 23) ^ 2 := hn.trans_lt (by norm_num)
    have hlt := abs_lt_of_sq_lt_sq habs (by norm_num)
    rw [← Int.cast_abs, Int.abs_eq_natAbs] at hlt
    exact_mod_cast hlt
  rw [hdirection]
  refine ⟨c, s, value?_ofInt_div (hsmall ?_), value?_ofInt_div (hsmall ?_), ?_⟩
  · linarith [sq_nonneg (s : ℚ)]
  · linarith [sq_nonneg (c : ℚ)]
  · have hscaled : (c / 65536 : ℚ) ^ 2 + (s / 65536) ^ 2 - 1 =
        (c ^ 2 + s ^ 2 - 65536 ^ 2) / 65536 ^ 2 := by ring
    rw [hscaled, abs_div, div_le_iff₀ (by norm_num)]
    refine hlength.trans (le_of_eq ?_)
    norm_num

/--
**A direction is almost of length one or undefined, and nothing between.**  It is undefined, in
both components, exactly if the wrapped angle does not fit the fixed point format, as it does for
no angle that is infinite or undefined.  Otherwise both components are exact multiples of
`2 ^ -16`, and the sum of their squares is one up to a thousandth.
-/
theorem direction_near_unit_or_undefined (angle : Float32) :
    ((direction angle).cos.isNaN = true ∧ (direction angle).sin.isNaN = true ↔
      ¬ Fits (wrap angle)) ∧
    (angle.isFinite = false → ¬ Fits (wrap angle)) ∧
    (Fits (wrap angle) → ∃ c s : ℤ, value? (direction angle).cos = some (c / 65536 : ℚ) ∧
      value? (direction angle).sin = some (s / 65536 : ℚ) ∧
      |(c / 65536 : ℚ) ^ 2 + (s / 65536 : ℚ) ^ 2 - 1| ≤ 1 / 1000) := by
  refine ⟨⟨?_, ?_⟩, ?_, direction_of_fits⟩
  · rintro ⟨hcos, -⟩ hfits
    obtain ⟨c, s, hc, -, -⟩ := direction_of_fits hfits
    rw [isNaN_of_value? hc] at hcos
    cases hcos
  · intro hfits
    rw [direction_of_not_fits hfits]
    decide +kernel
  · rintro hangle ⟨v, hv, -⟩
    rw [isFinite_of_wrap (isFinite_of_value? hv)] at hangle
    cases hangle

/-- A quarter turn fits, and its direction is defined. -/
theorem direction_near_unit_at_quarter_turn :
    Fits (wrap 1.5707964) ∧ ∃ c s : ℤ, value? (direction 1.5707964).cos = some (c / 65536 : ℚ) ∧
      value? (direction 1.5707964).sin = some (s / 65536 : ℚ) ∧
      |(c / 65536 : ℚ) ^ 2 + (s / 65536 : ℚ) ^ 2 - 1| ≤ 1 / 1000 := by
  have hfits : Fits (wrap 1.5707964) := by
    by_contra hnot
    have hsome : (Scalar.toFixed? (wrap (1.5707964 : Float32))).isSome = true := by decide +kernel
    rw [toFixed?_of_not_fits hnot] at hsome
    cases hsome
  exact ⟨hfits, (direction_near_unit_or_undefined 1.5707964).2.2 hfits⟩

end MotorControl.Angle
