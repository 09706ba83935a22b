/-
Where the numbers that are not finite come from, and where they go.

An infinite or undefined number stays one: no sum and no product of it is finite.  One
finite result therefore vouches for everything it was summed from, which is how a single
check at the end of a computation can stand for a check of each step.

An undefined number takes a stronger cause than an infinite one.  The product of a
finite number other than zero with any defined number is defined, whatever is rounded
on the way.
-/
import Mathlib
import MotorControl.Proofs.Binary32.Order

namespace MotorControl.Binary32

open Float.Model (Format UnpackedFloat)
open Float.Model.UnpackedFloat

variable {x y : Float32}

theorem isFinite_eq : x.isFinite = (parts x).isFinite := rfl

/-! ### Finite results -/

/-- Packing may overflow, but what was not finite before is not finite after it. -/
theorem isFinite_of_unpack_pack {a : UnpackedFloat}
    (h : (unpack .binary32 (pack .binary32 a)).isFinite = true) : a.isFinite = true := by
  cases a with
  | notANumber => exact absurd h (by decide)
  | infinity s => cases s <;> exact absurd h (by decide)
  | zero | finite => rfl

theorem isFinite_of_unpacked_add {spec : Format} {a b : UnpackedFloat}
    (h : (a.add spec b).isFinite = true) : a.isFinite = true ∧ b.isFinite = true := by
  cases a with
  | notANumber => cases h
  | infinity s =>
      cases b with
      | infinity s' => cases s <;> cases s' <;> cases h
      | notANumber | zero | finite => cases h
  | zero | finite =>
      cases b with
      | notANumber | infinity => cases h
      | zero | finite => exact ⟨rfl, rfl⟩

theorem isFinite_of_unpacked_sub {spec : Format} {a b : UnpackedFloat}
    (h : (a.sub spec b).isFinite = true) : a.isFinite = true ∧ b.isFinite = true := by
  cases a with
  | notANumber => cases h
  | infinity s =>
      cases b with
      | infinity s' => cases s <;> cases s' <;> cases h
      | notANumber | zero | finite => cases h
  | zero | finite =>
      cases b with
      | notANumber | infinity => cases h
      | zero | finite => exact ⟨rfl, rfl⟩

theorem isFinite_of_unpacked_mul {spec : Format} {a b : UnpackedFloat}
    (h : (a.mul spec b).isFinite = true) : a.isFinite = true ∧ b.isFinite = true := by
  cases a with
  | notANumber => cases h
  | infinity => cases b <;> cases h
  | zero | finite =>
      cases b with
      | notANumber | infinity => cases h
      | zero | finite => exact ⟨rfl, rfl⟩

theorem isFinite_of_add (h : (x + y).isFinite = true) :
    x.isFinite = true ∧ y.isFinite = true :=
  isFinite_of_unpacked_add (isFinite_of_unpack_pack h)

theorem isFinite_of_sub (h : (x - y).isFinite = true) :
    x.isFinite = true ∧ y.isFinite = true :=
  isFinite_of_unpacked_sub (isFinite_of_unpack_pack h)

theorem isFinite_of_mul (h : (x * y).isFinite = true) :
    x.isFinite = true ∧ y.isFinite = true :=
  isFinite_of_unpacked_mul (isFinite_of_unpack_pack h)

/-! ### Undefined results -/

theorem isNaN_iff : x.isNaN = true ↔ sign? (parts x) = none := by
  rw [isNaN_eq]
  cases parts x <;> simp [UnpackedFloat.isNaN, sign?]

theorem isNaN_eq_false_iff : x.isNaN = false ↔ ∃ s, sign? (parts x) = some s := by
  rw [isNaN_eq]
  cases parts x <;> simp [UnpackedFloat.isNaN, sign?]

theorem isNaN_of_isFinite (h : x.isFinite = true) : x.isNaN = false := by
  rw [isFinite_eq] at h
  rw [isNaN_eq]
  cases hx : parts x <;> rw [hx] at h <;> first | rfl | cases h

theorem isNaN_abs : x.abs.isNaN = x.isNaN := by
  have habs : sign? (parts x.abs) = sign? (parts x).abs := sign?_unpack_pack _
  rw [Bool.eq_iff_iff, isNaN_iff, isNaN_iff, habs]
  cases parts x <;> simp [UnpackedFloat.abs, sign?]

/-- Nothing lies below an undefined number or above it. -/
theorem not_lt_of_isNaN (h : x.isNaN = true ∨ y.isNaN = true) : ¬ x < y := by
  intro hlt
  obtain ⟨hx, hy⟩ := isNaN_of_le (le_of_lt hlt)
  rw [hx, hy] at h
  simp at h

/-! ### Signs of products -/

theorem sign?_roundWithAccuracy {spec : Format} {s : Sign} {m : Nat} {e : Int} {a : Accuracy} :
    sign? (roundWithAccuracy spec s m e a) = some s := by
  unfold roundWithAccuracy
  dsimp only
  split <;> rfl

section Finite

variable {spec : Format} {a : UnpackedFloat} {m : Nat} {e : Int} {h : 0 < m}

/-- A finite number above zero leaves the sign of what it is multiplied with alone. -/
theorem sign?_finite_mul : sign? ((UnpackedFloat.finite .positive m e h).mul spec a) = sign? a := by
  cases a with
  | notANumber => rfl
  | infinity s | zero s => cases s <;> rfl
  | finite s m' e' h' => cases s <;> exact sign?_roundWithAccuracy

theorem unpacked_mul_comm (a b : UnpackedFloat) : a.mul spec b = b.mul spec a := by
  have hsign (s s' : Sign) : s * s' = s' * s := by cases s <;> cases s' <;> rfl
  cases a with
  | notANumber => cases b <;> rfl
  | infinity s | zero s =>
      cases b with
      | notANumber => rfl
      | infinity s' | zero s' | finite s' => simp only [UnpackedFloat.mul, hsign s]
  | finite s m e h =>
      cases b with
      | notANumber => rfl
      | infinity s' | zero s' => simp only [UnpackedFloat.mul, hsign s]
      | finite s' m' e' h' =>
          simp only [UnpackedFloat.mul, hsign s, Nat.mul_comm m, Int.add_comm e]

end Finite

/-- A finite number above zero, as its parts. -/
theorem exists_parts_of_pos (hpos : 0 < x) (hx : x.isFinite = true) :
    ∃ m e h, parts x = .finite .positive m e h := by
  have hsign := sign?_of_pos hpos
  have hlt := lt_iff.mp hpos
  rw [isFinite_eq] at hx
  cases hpx : parts x with
  | notANumber | infinity => rw [hpx] at hx; cases hx
  | zero s => rw [hpx] at hlt; cases hlt
  | finite s m e h =>
      rw [hpx] at hsign
      cases hsign
      exact ⟨m, e, h, rfl⟩

theorem sign?_mul_of_pos_left (hpos : 0 < x) (hx : x.isFinite = true) :
    sign? (parts (x * y)) = sign? (parts y) := by
  obtain ⟨m, e, h, hparts⟩ := exists_parts_of_pos hpos hx
  show sign? (unpack .binary32 (pack .binary32 ((parts x).mul .binary32 (parts y)))) = _
  rw [sign?_unpack_pack, hparts, sign?_finite_mul]

theorem sign?_mul_of_pos_right (hpos : 0 < y) (hy : y.isFinite = true) :
    sign? (parts (x * y)) = sign? (parts x) := by
  have hcomm : x * y = y * x := by
    show Float32.ofModel (.pack ((parts x).mul .binary32 (parts y))) = _
    rw [unpacked_mul_comm]
    rfl
  rw [hcomm, sign?_mul_of_pos_left hpos hy]

/-! ### Natural numbers -/

theorem sign?_ofUInt64 {spec : Format} (w : UInt64) :
    sign? (UnpackedFloat.ofUInt64 spec w) = some .positive := by
  show sign? (UnpackedFloat.normalize spec w.toNat 0 .positive) = _
  unfold UnpackedFloat.normalize
  split
  · rename_i hneg
    rw [Int.compare_eq_lt] at hneg
    omega
  · rfl
  · exact sign?_roundWithAccuracy

theorem sign?_ofScientific {spec : Format} (m : Nat) (e : Int) :
    sign? (UnpackedFloat.ofScientific spec m e) = some .positive := by
  unfold UnpackedFloat.ofScientific
  split
  · rfl
  · split
    · rfl
    · split
      · rfl
      · split
        · exact sign?_roundWithAccuracy
        · exact sign?_roundWithAccuracy

/-- A natural number has the positive sign, also where it is zero or rounded to infinity. -/
theorem sign?_ofNat (n : Nat) : sign? (parts (Scalar.ofNat n : Float32)) = some .positive := by
  show sign? (parts (Float32.ofScientific n false 0)) = _
  unfold Float32.ofScientific
  split
  · -- A small one is converted as a word and multiplied by one.
    have hword : sign? (parts n.toUInt64.toFloat32) = some .positive := by
      show sign? (unpack .binary32 (pack .binary32 _)) = _
      rw [sign?_unpack_pack, sign?_ofUInt64]
    have hone : Float32.exactlyRepresentablePowersOfTen[0] = 1 := by decide +kernel
    rw [if_neg Bool.false_ne_true]
    simp only [hone]
    rw [sign?_mul_of_pos_right (by decide +kernel) (by decide +kernel), hword]
  · show sign? (unpack .binary32 (pack .binary32 _)) = _
    rw [sign?_unpack_pack, sign?_ofScientific]

end MotorControl.Binary32
