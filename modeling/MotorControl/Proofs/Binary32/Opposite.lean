/-
Opposite numbers.

Rounding to nearest favours no side.  So sums and differences of opposite numbers are
opposite, and so are their products and quotients with one and the same number.  The sign
of a zero does not count here: a sum that cancels is a positive zero on either side.  An
undefined number is its own opposite.
-/
import MotorControl.Proofs.Binary32.Sign

namespace MotorControl.Binary32

open Float.Model (Format UnpackedFloat)
open Float.Model.UnpackedFloat

/-! ### Parts that differ in the sign -/

/-- Two numbers, as their parts, of which one is the other with the sign turned. -/
inductive Mirrored : UnpackedFloat → UnpackedFloat → Prop
  | notANumber : Mirrored .notANumber .notANumber
  | infinity (s : Sign) : Mirrored (.infinity s) (.infinity (-s))
  | zero (s s' : Sign) : Mirrored (.zero s) (.zero s')
  | finite (s : Sign) (m : ℕ) (e : ℤ) (h : 0 < m) : Mirrored (.finite s m e h) (.finite (-s) m e h)

theorem apply_neg (s : Sign) (n : ℤ) : (-s).apply n = -s.apply n := by
  cases s with
  | positive => rfl
  | negative => exact (neg_neg n).symm

namespace Mirrored

variable {spec : Format} {a a' b b' : UnpackedFloat}

theorem neg (a : UnpackedFloat) : Mirrored a a.neg := by
  cases a with
  | notANumber => exact .notANumber
  | infinity s => exact .infinity s
  | zero s => exact .zero s _
  | finite s m e h => exact .finite s m e h

theorem unpack_packComponents (s : Sign) (e : BitVec spec.exponentBits)
    (m : BitVec spec.mantissaBitsWithoutImplicit) :
    Mirrored (unpack spec (packComponents spec s e m)) (unpack spec (packComponents spec (-s) e m)) := by
  have hsign (s : Sign) : Sign.ofBitVec s.toBitVec = s := by cases s <;> rfl
  unfold unpack
  simp only [unpackSign_packComponents, unpackExponent_packComponents,
    unpackMantissa_packComponents, hsign]
  split
  · split
    · exact .infinity s
    · exact .notANumber
  · split
    · split
      · exact .zero s _
      · exact .finite s _ _ _
    · exact .finite s _ _ _

/-- Packing reads the sign into a field of its own. -/
theorem pack (h : Mirrored a b) :
    Mirrored (unpack .binary32 (UnpackedFloat.pack .binary32 a))
      (unpack .binary32 (UnpackedFloat.pack .binary32 b)) := by
  cases h with
  | notANumber => exact .notANumber
  | infinity s =>
      rw [unpack_pack_infinity, unpack_pack_infinity]
      exact .infinity s
  | zero s s' =>
      rw [unpack_pack_zero, unpack_pack_zero]
      exact .zero s s'
  | finite s m e h =>
      unfold UnpackedFloat.pack
      dsimp only
      split
      · exact unpack_packComponents s _ _
      · split
        · exact unpack_packComponents s _ _
        · exact unpack_packComponents s _ _

/-! ### Rounding -/

theorem roundWithAccuracy (s : Sign) (m : ℕ) (e : ℤ) (accuracy : Accuracy) :
    Mirrored (.roundWithAccuracy spec s m e accuracy) (.roundWithAccuracy spec (-s) m e accuracy) := by
  unfold UnpackedFloat.roundWithAccuracy
  dsimp only
  split
  · exact .zero s _
  · exact .finite s _ _ _

theorem normalize (n e : ℤ) (z : Sign) :
    Mirrored (.normalize spec n e z) (.normalize spec (-n) e z) := by
  unfold UnpackedFloat.normalize
  rcases lt_trichotomy n 0 with hneg | rfl | hpos
  · rw [Int.compare_eq_lt.mpr hneg, Int.compare_eq_gt.mpr (neg_pos.mpr hneg)]
    exact roundWithAccuracy .negative _ _ _
  · exact .zero z z
  · rw [Int.compare_eq_gt.mpr hpos, Int.compare_eq_lt.mpr (neg_neg_iff_pos.mpr hpos), neg_neg]
    exact roundWithAccuracy .positive _ _ _

/-! ### Operations -/

theorem add (ha : Mirrored a a') (hb : Mirrored b b') :
    Mirrored (a.add spec b) (a'.add spec b') := by
  cases ha with
  | notANumber => cases hb <;> exact .notANumber
  | infinity s =>
      cases hb with
      | notANumber => exact .notANumber
      | infinity s' =>
          cases s <;> cases s' <;> first | exact .notANumber | exact .infinity _
      | zero | finite => exact .infinity s
  | zero s s' =>
      cases hb with
      | notANumber => exact .notANumber
      | infinity t => exact .infinity t
      | zero t t' => cases s <;> cases s' <;> cases t <;> cases t' <;> exact .zero _ _
      | finite t m e h => exact .finite t m e h
  | finite s m e h =>
      cases hb with
      | notANumber => exact .notANumber
      | infinity t => exact .infinity t
      | zero => exact .finite s m e h
      | finite t m' e' h' =>
          simp only [UnpackedFloat.add, apply_neg, ← neg_add]
          exact normalize _ _ _

theorem mul_left (a : UnpackedFloat) (hb : Mirrored b b') :
    Mirrored (a.mul spec b) (a.mul spec b') := by
  have hsign (s t : Sign) : s * -t = -(s * t) := by cases s <;> cases t <;> rfl
  cases a with
  | notANumber => exact .notANumber
  | infinity s =>
      cases hb with
      | notANumber | zero => exact .notANumber
      | infinity | finite =>
          simp only [UnpackedFloat.mul, hsign]
          exact .infinity _
  | zero s =>
      cases hb with
      | notANumber | infinity => exact .notANumber
      | zero | finite => exact .zero _ _
  | finite s m e h =>
      cases hb with
      | notANumber => exact .notANumber
      | infinity =>
          simp only [UnpackedFloat.mul, hsign]
          exact .infinity _
      | zero => exact .zero _ _
      | finite =>
          simp only [UnpackedFloat.mul, hsign]
          exact roundWithAccuracy _ _ _ _

theorem div_right (ha : Mirrored a a') (b : UnpackedFloat) :
    Mirrored (a.div spec b) (a'.div spec b) := by
  have hsign (s t : Sign) : -s / t = -(s / t) := by cases s <;> cases t <;> rfl
  cases ha with
  | notANumber => exact .notANumber
  | infinity s =>
      cases b with
      | notANumber | infinity => exact .notANumber
      | zero | finite =>
          simp only [UnpackedFloat.div, hsign]
          exact .infinity _
  | zero s s' =>
      cases b with
      | notANumber | zero => exact .notANumber
      | infinity | finite => exact .zero _ _
  | finite s m e h =>
      cases b with
      | notANumber => exact .notANumber
      | infinity => exact .zero _ _
      | zero =>
          simp only [UnpackedFloat.div, hsign]
          exact .infinity _
      | finite =>
          simp only [UnpackedFloat.div, hsign]
          exact roundWithAccuracy _ _ _ _

theorem abs_eq (h : Mirrored a b) : a.abs = b.abs := by
  cases h <;> rfl

theorem isFinite_eq (h : Mirrored a b) : a.isFinite = b.isFinite := by
  cases h <;> rfl

theorem zero_compare (h : Mirrored a b) (s : Sign) :
    (UnpackedFloat.zero s).compare b = a.compare (.zero s) := by
  cases h with
  | notANumber | zero => rfl
  | infinity t | finite t => cases t <;> rfl

theorem neg_congr (h : Mirrored a b) : Mirrored a.neg b.neg := by
  cases h with
  | notANumber => exact .notANumber
  | infinity s => exact .infinity (-s)
  | zero s s' => exact .zero _ _
  | finite s m e h => exact .finite (-s) m e h

end Mirrored

/-! ### Opposite numbers -/

/-- Two numbers of which one is the other with the sign turned. -/
def Opposite (x y : Float32) : Prop := Mirrored (parts x) (parts y)

namespace Opposite

variable {x x' y y' : Float32}

theorem neg (x : Float32) : Opposite x (-x) := by
  rw [Opposite, parts_neg]
  exact .neg _

theorem zero : Opposite 0 0 := Mirrored.zero .positive .positive

theorem negZero : Opposite (-0) (-0) := Mirrored.zero .negative .negative

theorem add (h : Opposite x x') (h' : Opposite y y') : Opposite (x + y) (x' + y') :=
  (Mirrored.add h h').pack

theorem neg_congr (h : Opposite x x') : Opposite (-x) (-x') := by
  rw [Opposite, parts_neg, parts_neg]
  exact Mirrored.neg_congr h

theorem sub (h : Opposite x x') (h' : Opposite y y') : Opposite (x - y) (x' - y') := by
  rw [sub_eq_add_opposite, sub_eq_add_opposite]
  exact h.add h'.neg_congr

theorem mul_left (z : Float32) (h : Opposite x x') : Opposite (z * x) (z * x') :=
  (Mirrored.mul_left (parts z) h).pack

theorem mul_right (h : Opposite x x') (z : Float32) : Opposite (x * z) (x' * z) := by
  rw [Opposite, parts_mul, parts_mul, unpacked_mul_comm, unpacked_mul_comm (parts x')]
  exact (Mirrored.mul_left (parts z) h).pack

theorem div_right (h : Opposite x x') (z : Float32) : Opposite (x / z) (x' / z) :=
  (Mirrored.div_right h (parts z)).pack

theorem abs_eq (h : Opposite x x') : x.abs = x'.abs := by
  show Float32.ofModel (.pack (parts x).abs) = Float32.ofModel (.pack (parts x').abs)
  rw [Mirrored.abs_eq h]

theorem isFinite_eq (h : Opposite x x') : x.isFinite = x'.isFinite := Mirrored.isFinite_eq h

theorem zero_compare (h : Opposite x x') :
    (parts 0).compare (parts x') = (parts x).compare (parts 0) :=
  Mirrored.zero_compare h .positive

theorem pos_iff (h : Opposite x x') : 0 < x' ↔ x < 0 := by
  rw [lt_iff, lt_iff, h.zero_compare]

theorem nonneg_iff (h : Opposite x x') : 0 ≤ x' ↔ x ≤ 0 := by
  rw [le_iff, le_iff, h.zero_compare]

end Opposite

end MotorControl.Binary32
