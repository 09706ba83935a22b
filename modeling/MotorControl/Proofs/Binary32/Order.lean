/-
The order of the binary32 numbers.

Two numbers compare unless one of them is undefined, and turning the two around turns
the answer around.  The order is therefore total on the numbers that are defined,
which is all that clamping needs: what is clamped into a range that is not empty is
undefined or lies within it.

The sign of a number survives packing, whatever else rounding may do to it, so the
negation of a number above zero is one that is not above zero.
-/
import MotorControl.Binary32

namespace MotorControl.Binary32

open Float.Model (Format UnpackedFloat)
open Float.Model.UnpackedFloat

/-! ### Comparing two numbers -/

theorem compare_swap (a b : UnpackedFloat) : b.compare a = (a.compare b).map Ordering.swap := by
  have hfinite (e e' : Int) (m m' : Nat) :
      (compare e e').then (compare m m') = ((compare e' e).then (compare m' m)).swap := by
    rw [Ordering.swap_then, ← Std.OrientedCmp.eq_swap, ← Std.OrientedCmp.eq_swap]
  cases a with
  | notANumber => cases b <;> rfl
  | infinity s =>
      cases b with
      | infinity s' => cases s <;> cases s' <;> rfl
      | notANumber | zero | finite => cases s <;> rfl
  | zero s =>
      cases b with
      | infinity s' | finite s' => cases s' <;> rfl
      | notANumber | zero => rfl
  | finite s m e h =>
      cases b with
      | infinity s' => cases s' <;> cases s <;> rfl
      | notANumber | zero => cases s <;> rfl
      | finite s' m' e' h' =>
          cases s with
          | positive =>
              cases s' with
              | positive => exact congrArg some (hfinite e' e m' m)
              | negative => rfl
          | negative =>
              cases s' with
              | positive => rfl
              | negative => exact congrArg some (congrArg Ordering.swap (hfinite e' e m' m))

theorem isSome_compare (a b : UnpackedFloat) :
    (a.compare b).isSome = (!a.isNaN && !b.isNaN) := by
  cases a with
  | notANumber => cases b <;> rfl
  | infinity s =>
      cases b with
      | infinity s' => cases s <;> cases s' <;> rfl
      | notANumber | zero | finite => cases s <;> rfl
  | zero s =>
      cases b with
      | infinity s' | finite s' => cases s' <;> rfl
      | notANumber | zero => rfl
  | finite s m e h =>
      cases b with
      | infinity s' | finite s' => cases s' <;> cases s <;> rfl
      | notANumber | zero => cases s <;> rfl

/-! ### The order -/

/-- A number as its parts. -/
def parts (x : Float32) : UnpackedFloat := x.toModel.unpack

variable {x y : Float32}

theorem lt_iff : x < y ↔ (parts x).compare (parts y) = some .lt := by
  show decide ((parts x).lt (parts y) = true) = true ↔ _
  rw [decide_eq_true_iff]
  exact beq_iff_eq

theorem le_iff : x ≤ y ↔ ∃ o, (parts x).compare (parts y) = some o ∧ o.isLE = true := by
  show decide ((parts x).le (parts y) = true) = true ↔ _
  rw [decide_eq_true_iff]
  exact Option.any_eq_true _ _

theorem isNaN_eq : x.isNaN = (parts x).isNaN := rfl

theorem exists_compare (hx : x.isNaN = false) (hy : y.isNaN = false) :
    ∃ o, (parts x).compare (parts y) = some o := by
  rw [isNaN_eq] at hx hy
  have hsome := isSome_compare (parts x) (parts y)
  rw [hx, hy] at hsome
  exact Option.isSome_iff_exists.mp hsome

theorem isNaN_of_le (h : x ≤ y) : x.isNaN = false ∧ y.isNaN = false := by
  obtain ⟨o, ho, -⟩ := le_iff.mp h
  have hsome := isSome_compare (parts x) (parts y)
  rw [ho, Option.isSome_some, eq_comm, Bool.and_eq_true, Bool.not_eq_true', Bool.not_eq_true']
    at hsome
  exact hsome

theorem le_of_lt (h : x < y) : x ≤ y := le_iff.mpr ⟨_, lt_iff.mp h, rfl⟩

/-- The order is total on the numbers that are defined. -/
theorem le_of_not_lt (hx : x.isNaN = false) (hy : y.isNaN = false) (h : ¬ x < y) : y ≤ x := by
  obtain ⟨o, ho⟩ := exists_compare hx hy
  refine le_iff.mpr ⟨o.swap, by rw [compare_swap, ho]; rfl, ?_⟩
  cases o with
  | lt => exact absurd (lt_iff.mpr ho) h
  | eq | gt => rfl

theorem not_lt_self : ¬ x < x := by
  intro h
  have hswap := compare_swap (parts x) (parts x)
  rw [lt_iff.mp h] at hswap
  cases hswap

theorem not_lt_of_le (h : x ≤ y) : ¬ y < x := by
  obtain ⟨o, ho, hle⟩ := le_iff.mp h
  intro hlt
  rw [compare_swap, lt_iff.mp hlt] at ho
  cases ho
  cases hle

theorem le_self (hx : x.isNaN = false) : x ≤ x := le_of_not_lt hx hx not_lt_self

/-! ### Signs -/

/-- The sign of a number, an undefined one apart. -/
def sign? : UnpackedFloat → Option Sign
  | .notANumber => none
  | .infinity s | .zero s | .finite s .. => some s

theorem unpackSign_packComponents {spec : Format} {sign exponent mantissa} :
    unpackSign (packComponents spec sign exponent mantissa) = sign.toBitVec := by
  ext i hi
  obtain rfl : i = 0 := by omega
  show (BitVec.cast _ (BitVec.extractLsb _ _ (sign.toBitVec ++ exponent ++ mantissa)))[0] = _
  simp [BitVec.getLsbD_eq_getElem, BitVec.getLsbD_append, BitVec.getElem_append]

/-- Unpacking reads the sign off its field, unless the fields are those of an undefined number. -/
theorem sign?_unpack {spec : Format} {b : BitVec spec.numBits}
    (h : unpackExponent b = -1#_ → unpackMantissa b = 0#_) :
    sign? (unpack spec b) = some (Sign.ofBitVec (unpackSign b)) := by
  unfold unpack
  by_cases he : unpackExponent b = -1#_
  · dsimp only
    rw [if_pos he, if_pos (h he)]
    rfl
  · dsimp only
    rw [if_neg he]
    by_cases hzero : unpackExponent b = 0#_
    · rw [if_pos hzero]
      by_cases hm : unpackMantissa b = 0#_
      · rw [dif_pos hm]
        rfl
      · rw [dif_neg hm]
        rfl
    · rw [if_neg hzero]
      rfl

theorem sign?_unpack_packComponents {spec : Format} (s : Sign) (e : BitVec spec.exponentBits)
    (m : BitVec spec.mantissaBitsWithoutImplicit) (h : e = -1#_ → m = 0#_) :
    sign? (unpack spec (packComponents spec s e m)) = some s := by
  have hsign : Sign.ofBitVec s.toBitVec = s := by cases s <;> rfl
  rw [sign?_unpack, unpackSign_packComponents, hsign]
  rwa [unpackExponent_packComponents, unpackMantissa_packComponents]

/-- Packing keeps the sign, and leaves a number undefined exactly if it was. -/
theorem sign?_unpack_pack (a : UnpackedFloat) :
    sign? (unpack .binary32 (pack .binary32 a)) = sign? a := by
  cases a with
  | notANumber => rfl
  | infinity s => exact sign?_unpack_packComponents s _ _ (fun _ => rfl)
  | zero s => exact sign?_unpack_packComponents s _ _ (fun _ => rfl)
  | finite s m e h =>
      show _ = some s
      unfold pack
      dsimp only
      split
      · exact sign?_unpack_packComponents s _ _ (fun _ => rfl)
      · split
        · refine sign?_unpack_packComponents s _ _ (fun hones => ?_)
          have := congrArg BitVec.toNat hones
          simp at this
          omega
        · exact sign?_unpack_packComponents s _ _ (fun hones => absurd hones (by decide))

theorem sign?_neg (x : Float32) : sign? (parts (-x)) = (sign? (parts x)).map (- ·) := by
  show sign? (unpack .binary32 (pack .binary32 (parts x).neg)) = _
  rw [sign?_unpack_pack]
  cases parts x <;> rfl

theorem sign?_of_pos (h : 0 < x) : sign? (parts x) = some .positive := by
  have hpos : (UnpackedFloat.zero .positive).compare (parts x) = some .lt := lt_iff.mp h
  cases hx : parts x with
  | notANumber => rw [hx] at hpos; cases hpos
  | infinity s | finite s =>
      rw [hx] at hpos
      cases s with
      | positive => rfl
      | negative => cases hpos
  | zero s => rw [hx] at hpos; cases hpos

theorem le_of_signs (hx : sign? (parts x) = some .negative) (hy : sign? (parts y) = some .positive) :
    x ≤ y := by
  refine le_iff.mpr ?_
  cases hpx : parts x <;> cases hpy : parts y <;> rw [hpx] at hx <;> rw [hpy] at hy <;>
    cases hx <;> cases hy <;> exact ⟨_, rfl, rfl⟩

/-- A number with a negative sign lies strictly below one that is above zero. -/
theorem lt_of_signs (hx : sign? (parts x) = some .negative) (hy : 0 < y) : x < y := by
  have hpos : (UnpackedFloat.zero .positive).compare (parts y) = some .lt := lt_iff.mp hy
  refine lt_iff.mpr ?_
  cases hpy : parts y with
  | notANumber | zero => rw [hpy] at hpos; cases hpos
  | infinity s | finite s =>
      rw [hpy] at hpos
      cases s with
      | negative => cases hpos
      | positive =>
          cases hpx : parts x with
          | notANumber => rw [hpx] at hx; cases hx
          | infinity s | zero s | finite s => rw [hpx] at hx; cases hx; rfl

/-! ### Symmetric ranges -/

theorem neg_le_zero (h : 0 < x) : -x ≤ 0 :=
  le_of_signs (by rw [sign?_neg, sign?_of_pos h]; rfl) rfl

theorem neg_le_self (h : 0 < x) : -x ≤ x :=
  le_of_signs (by rw [sign?_neg, sign?_of_pos h]; rfl) (sign?_of_pos h)

theorem neg_lt_self (h : 0 < x) : -x < x :=
  lt_of_signs (by rw [sign?_neg, sign?_of_pos h]; rfl) h

/-- What is clamped into a range is undefined or lies within it. -/
theorem clamp_within {lo hi : Float32} (h : lo ≤ hi) :
    (Scalar.clamp x lo hi).isNaN = true ∨
      lo ≤ Scalar.clamp x lo hi ∧ Scalar.clamp x lo hi ≤ hi := by
  obtain ⟨hlo, hhi⟩ := isNaN_of_le h
  unfold Scalar.clamp
  split
  · exact Or.inr ⟨le_self hlo, h⟩
  · rename_i hnotlt
    split
    · exact Or.inr ⟨h, le_self hhi⟩
    · rename_i hnotgt
      by_cases hx : x.isNaN = true
      · exact Or.inl hx
      · have hdefined : x.isNaN = false := Bool.eq_false_iff.mpr hx
        exact Or.inr ⟨le_of_not_lt hdefined hlo hnotlt, le_of_not_lt hhi hdefined hnotgt⟩

end MotorControl.Binary32
