/-
What becomes of undefined numbers.

An undefined operand leaves a sum, a difference, a product or a quotient undefined, and
so do rounding and clamping.  Nothing compares with it.  Only where a number is turned
into a word does it become defined again, as zero.  A computation without comparisons
therefore ends undefined if one undefined number enters it, and stays so as long as the
result is fed back.
-/
import MotorControl.Angle
import MotorControl.Modulation
import MotorControl.Proofs.Binary32.Finite

namespace MotorControl

namespace Binary32

open Float.Model (Format UnpackedFloat)
open Float.Model.UnpackedFloat

variable {x y : Float32}

theorem isNaN_iff_parts : x.isNaN = true ↔ parts x = .notANumber := by
  rw [isNaN_eq]
  cases parts x <;> simp [UnpackedFloat.isNaN]

/-! ### Arithmetic -/

/-- An operation that an undefined operand on either side leaves undefined. -/
theorem isNaN_of_strict (f : UnpackedFloat → UnpackedFloat → UnpackedFloat)
    (hleft : ∀ b, f .notANumber b = .notANumber) (hright : ∀ a, f a .notANumber = .notANumber)
    (h : x.isNaN = true ∨ y.isNaN = true) :
    (unpack .binary32 (pack .binary32 (f (parts x) (parts y)))).isNaN = true := by
  rw [isNaN_iff_parts, isNaN_iff_parts] at h
  obtain hx | hy := h
  · rw [hx, hleft]
    rfl
  · rw [hy, hright]
    rfl

theorem isNaN_add (h : x.isNaN = true ∨ y.isNaN = true) : (x + y).isNaN = true :=
  isNaN_of_strict (UnpackedFloat.add .binary32) (fun _ => rfl) (fun a => by cases a <;> rfl) h

theorem isNaN_sub (h : x.isNaN = true ∨ y.isNaN = true) : (x - y).isNaN = true :=
  isNaN_of_strict (UnpackedFloat.sub .binary32) (fun _ => rfl) (fun a => by cases a <;> rfl) h

theorem isNaN_mul (h : x.isNaN = true ∨ y.isNaN = true) : (x * y).isNaN = true :=
  isNaN_of_strict (UnpackedFloat.mul .binary32) (fun _ => rfl) (fun a => by cases a <;> rfl) h

theorem isNaN_div (h : x.isNaN = true ∨ y.isNaN = true) : (x / y).isNaN = true :=
  isNaN_of_strict (UnpackedFloat.div .binary32) (fun _ => rfl) (fun a => by cases a <;> rfl) h

/-! ### Comparing, clamping and rounding -/

theorem not_le_of_isNaN (h : x.isNaN = true ∨ y.isNaN = true) : ¬ x ≤ y := by
  intro hle
  obtain ⟨hx, hy⟩ := isNaN_of_le hle
  rw [hx, hy] at h
  simp at h

/-- An undefined number lies on neither side of a range, so clamping leaves it. -/
theorem clamp_of_isNaN (hx : x.isNaN = true) (lo hi : Float32) : Scalar.clamp x lo hi = x := by
  unfold Scalar.clamp
  rw [if_neg (not_lt_of_isNaN (.inl hx)), if_neg (not_lt_of_isNaN (.inr hx))]

theorem round_of_isNaN (hx : x.isNaN = true) : Scalar.round x = x := by
  rw [isNaN_iff_parts] at hx
  show Binary32.round x = x
  unfold Binary32.round
  rw [show x.toModel.unpack = _ from hx]

/-! ### Words -/

theorem toFixed?_of_not_isFinite (hx : x.isFinite = false) : Scalar.toFixed? x = none := by
  rw [isFinite_eq] at hx
  show Binary32.toFixed? x = none
  unfold Binary32.toFixed?
  cases hparts : x.toModel.unpack with
  | notANumber | infinity => rfl
  | zero | finite => rw [show parts x = _ from hparts] at hx; cases hx

/-- An undefined number is turned into the word zero. -/
theorem toUInt8_of_isNaN (hx : x.isNaN = true) : Scalar.toUInt8 x = 0 := by
  rw [isNaN_iff_parts] at hx
  show (parts x).toUInt8 = 0
  rw [hx]
  rfl

end Binary32

namespace Percent

/-- No share at all. -/
def zero : Percent := ⟨0, by decide⟩

theorem ofFraction_of_isNaN {x : Float32} (hx : x.isNaN = true) : ofFraction x = zero := by
  have hscaled : (x * 100).isNaN = true := Binary32.isNaN_mul (.inl hx)
  unfold ofFraction
  rw [Binary32.round_of_isNaN hscaled, Binary32.clamp_of_isNaN hscaled,
    Binary32.toUInt8_of_isNaN hscaled]
  rfl

end Percent

/-- No share for any of the three: no voltage between any two phases. -/
def Duties.zero : Duties := ⟨.zero, .zero, .zero⟩

namespace Stationary

open Binary32

/-- A vector that is undefined across the first phase is put on the windings as none at all. -/
theorem modulate_of_isNaN {v : Stationary Float32} (hbeta : v.beta.isNaN = true) :
    v.modulate = .zero := by
  let scaled := Scalar.sqrtThree * v.alpha
  let y := (v.beta + scaled) / 2
  let z := (v.beta - scaled) / 2
  have hy : y.isNaN = true := isNaN_div (.inl (isNaN_add (.inl hbeta)))
  have hz : z.isNaN = true := isNaN_div (.inl (isNaN_sub (.inl hbeta)))
  -- No projection is known to be positive, which leaves the formulas of the second pair.
  have hpair : SectorPair.ofSigns (decide (0 ≤ v.beta)) (decide (0 ≤ y)) (decide (0 ≤ z)) =
      .second := by
    rw [decide_eq_false (not_le_of_isNaN (.inr hbeta)), decide_eq_false (not_le_of_isNaN (.inr hy)),
      decide_eq_false (not_le_of_isNaN (.inr hz))]
    rfl
  have hfractions : v.fractions = ⟨(1 + y - z) / 2, (1 + y + z) / 2, (1 - y - z) / 2⟩ := by
    unfold fractions
    dsimp only
    rw [hpair]
    rfl
  unfold modulate Duties.ofFractions Phases.map
  rw [hfractions, Percent.ofFraction_of_isNaN (isNaN_div (.inl (isNaN_sub (.inr hz)))),
    Percent.ofFraction_of_isNaN (isNaN_div (.inl (isNaN_add (.inr hz)))),
    Percent.ofFraction_of_isNaN (isNaN_div (.inl (isNaN_sub (.inr hz))))]
  rfl

end Stationary

namespace Angle

open Binary32

variable {angle : Float32}

/-- Wrapping passes an infinite or undefined angle on. -/
theorem isFinite_of_wrap (h : (wrap angle).isFinite = true) : angle.isFinite = true :=
  (isFinite_of_sub h).1

/-- An infinite or undefined angle has no direction. -/
theorem direction_of_not_isFinite (h : angle.isFinite = false) :
    direction angle = ⟨Scalar.undefined, Scalar.undefined⟩ := by
  have hwrap : (wrap angle).isFinite = false := by
    rw [← Bool.not_eq_true] at h ⊢
    exact mt isFinite_of_wrap h
  unfold direction
  rw [toFixed?_of_not_isFinite hwrap]

end Angle

end MotorControl
