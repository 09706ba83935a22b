/-
Signs that rounding keeps.

A sum or a difference of two numbers of the format is a whole multiple of `2 ^ -149`, so it
is not rounded to zero unless it is zero: it has the sign of the exact sum, and a difference
is below zero exactly if the first number lies below the second.  A quotient by a number
below one is no smaller than what was divided, so it is not rounded to zero either.

The lemmas hold for all numbers.  Where one of them is undefined nothing is below zero, and
the infinite ones follow their signs.
-/
import MotorControl.Proofs.Binary32.Undefined
import MotorControl.Proofs.Binary32.Value

namespace MotorControl.Binary32

open Float.Model (Format UnpackedFloat totalExponent)
open Float.Model.UnpackedFloat

/-! ### Numbers other than zero -/

/-- A number other than zero, infinite or finite, with a sign. -/
def HasSign (s : Sign) (a : UnpackedFloat) : Prop := a = .infinity s ∨ ∃ m e h, a = .finite s m e h

theorem HasSign.sign? {s : Sign} {a : UnpackedFloat} (h : HasSign s a) : sign? a = some s := by
  rcases h with rfl | ⟨_, _, _, rfl⟩ <;> rfl

variable {x y : Float32} {v w : ℚ}

theorem lt_zero_iff : x < 0 ↔ HasSign .negative (parts x) := by
  have hlt : x < 0 ↔ (parts x).compare (.zero .positive) = some .lt := lt_iff
  rw [hlt]
  cases parts x with
  | notANumber | zero => simp [UnpackedFloat.compare, HasSign]
  | infinity s => cases s <;> simp [UnpackedFloat.compare, HasSign]
  | finite s m e h => cases s <;> simp [UnpackedFloat.compare, HasSign, h]

theorem sign?_of_neg (h : x < 0) : sign? (parts x) = some .negative := (lt_zero_iff.mp h).sign?

theorem value?_zero : value? (0 : Float32) = some 0 := rfl

theorem lt_zero_iff_of_value? (hx : value? x = some v) : x < 0 ↔ v < 0 :=
  lt_iff_of_value? hx value?_zero

/-- Rounding a number above half the smallest one keeps its sign, also where it overflows. -/
theorem hasSign_round {s : Sign} {m : ℕ} {e : ℤ} {a : Accuracy} {t : ℚ} (hm : Ample m e)
    (ht : Within (.ofMantissaAndAccuracy m a) t) (hlarge : 2 ^ (-150 : ℤ) < t * 2 ^ e) :
    HasSign s (unpack .binary32 (pack .binary32 (roundWithAccuracy .binary32 s m e a))) := by
  have hu : Within (cut m e a) (t / 2 ^ shift m e) := ht.shiftRight _
  have hvalue : t * 2 ^ e = t / 2 ^ shift m e * 2 ^ (e + shift m e) := by
    rw [zpow_add₀ two_ne_zero, zpow_natCast]
    field_simp
  have hne : rounded m e a ≠ 0 := by
    rw [ne_eq, rounded_eq_zero_iff hm hu, ← hvalue, not_le]
    exact hlarge
  have hlo := le_add_shift m e
  have hfull := le_rounded hm a
  have hle := rounded_le m e a
  rw [roundWithAccuracy_eq, dif_neg hne]
  -- What was rounded fits the format, or its exponent is too large and it overflows.
  by_cases hcarry : rounded m e a = 2 ^ 24
  · rw [if_pos hcarry]
    by_cases hplace : e + shift m e ≤ 103
    · rw [unpack_pack_of_canonical ⟨by decide, by omega, by omega, Or.inl le_rfl⟩]
      exact Or.inr ⟨_, _, _, rfl⟩
    · exact Or.inl (unpack_pack_of_large (by omega))
  · rw [if_neg hcarry]
    by_cases hplace : e + shift m e ≤ 104
    · rw [unpack_pack_of_canonical ⟨by omega, hlo, hplace, hfull.symm⟩]
      exact Or.inr ⟨_, _, _, rfl⟩
    · exact Or.inl (unpack_pack_of_large (by omega))

/-! ### Sums and differences -/

/-- Before a sum is rounded its mantissa is given the bits to be rounded. -/
theorem ample_decreaseExponent {m : ℕ} {e : ℤ} (h : 0 < m) :
    let d := decreaseExponent m e (Format.binary32.targetExponent (totalExponent m e))
    Ample d.1 d.2 ∧ (d.1 * 2 ^ d.2 : ℚ) = m * 2 ^ e := by
  rw [targetExponent_totalExponent]
  obtain ⟨k, hk⟩ : ∃ k, k = (e - max (m.log2 + e - 23) (-149)).toNat := ⟨_, rfl⟩
  simp only [decreaseExponent, ← hk, Nat.shiftLeft_eq]
  constructor
  · by_cases hlow : e - k ≤ -149
    · exact Or.inr hlow
    · left
      calc 2 ^ 23
        _ ≤ 2 ^ (m.log2 + k) := Nat.pow_le_pow_right two_pos (by omega)
        _ = 2 ^ m.log2 * 2 ^ k := pow_add ..
        _ ≤ m * 2 ^ k := Nat.mul_le_mul_right _ (Nat.log2_self_le h.ne')
  · rw [zpow_sub₀ two_ne_zero, zpow_natCast]
    push_cast
    field_simp

theorem one_unit_le {m : ℕ} {e : ℤ} (h : 0 < m) (he : -149 ≤ e) :
    (2 : ℚ) ^ (-149 : ℤ) ≤ m * 2 ^ e := by
  have hone : (1 : ℚ) ≤ m := by exact_mod_cast h
  calc (2 : ℚ) ^ (-149 : ℤ)
    _ ≤ 2 ^ e := zpow_le_zpow_right₀ one_le_two he
    _ ≤ m * 2 ^ e := le_mul_of_one_le_left (by positivity) hone

/-- What is a whole number of units is not rounded to zero. -/
theorem hasSign_unpacked_round {s : Sign} {m : ℕ} {e : ℤ} (h : 0 < m) (he : -149 ≤ e) :
    HasSign s (unpack .binary32 (pack .binary32 (.round .binary32 s m e))) := by
  obtain ⟨hample, hvalue⟩ := ample_decreaseExponent (e := e) h
  have hhalf : (2 : ℚ) ^ (-150 : ℤ) < 2 ^ (-149 : ℤ) := zpow_lt_zpow_right₀ one_lt_two (by decide)
  exact hasSign_round hample (within_exact _) (hvalue ▸ hhalf.trans_le (one_unit_le h he))

theorem hasSign_negative_normalize_iff {n e : ℤ} {z : Sign} (he : -149 ≤ e) :
    HasSign .negative (unpack .binary32 (pack .binary32 (.normalize .binary32 n e z))) ↔ n < 0 := by
  unfold UnpackedFloat.normalize
  rcases lt_trichotomy n 0 with hneg | rfl | hpos
  · rw [Int.compare_eq_lt.mpr hneg]
    exact iff_of_true (hasSign_unpacked_round (by omega) he) hneg
  · refine iff_of_false ?_ (lt_irrefl 0)
    show ¬ HasSign _ (unpack .binary32 (pack .binary32 (.zero z)))
    rw [unpack_pack_zero]
    rintro (⟨⟨⟩⟩ | ⟨_, _, _, ⟨⟩⟩)
  · rw [Int.compare_eq_gt.mpr hpos]
    refine iff_of_false ?_ hpos.not_gt
    intro hsign
    have hpositive : HasSign .positive (unpack .binary32 (pack .binary32
      (.round .binary32 .positive n.toNat e))) := hasSign_unpacked_round (by omega) he
    cases hsign.sign?.symm.trans hpositive.sign?

theorem value_decreaseExponent (s : Sign) {m : ℕ} {e target : ℤ} (h : target ≤ e) :
    ((s.apply (decreaseExponent m e target).1 : ℤ) : ℚ) * 2 ^ target =
      factor s * (m * 2 ^ e) := by
  obtain ⟨k, rfl⟩ : ∃ k : ℕ, e = target + k := ⟨(e - target).toNat, by omega⟩
  have hshift : ((decreaseExponent m (target + k) target).1 : ℤ) = m * 2 ^ k := by
    simp [decreaseExponent, Nat.shiftLeft_eq]
  rw [hshift, zpow_add₀ two_ne_zero, zpow_natCast]
  cases s <;> simp only [Sign.apply, factor] <;> push_cast <;> ring

theorem unpacked_sub_eq {spec : Format} (a b : UnpackedFloat) : a.sub spec b = a.add spec b.neg := by
  have happly (s : Sign) (n : ℤ) : (-s).apply n = -s.apply n := by
    cases s with
    | positive => rfl
    | negative => exact (neg_neg n).symm
  cases a with
  | notANumber => rfl
  | infinity s =>
      cases b with
      | infinity s' => cases s <;> cases s' <;> rfl
      | notANumber | zero | finite => rfl
  | zero s =>
      cases b with
      | zero s' => cases s <;> cases s' <;> rfl
      | notANumber | infinity | finite => rfl
  | finite s m e h =>
      cases b with
      | finite s' m' e' h' =>
          simp only [UnpackedFloat.sub, UnpackedFloat.add, UnpackedFloat.neg, happly, sub_eq_add_neg]
      | notANumber | infinity | zero => rfl

/-- A difference is the sum with the opposite number. -/
theorem sub_eq_add_opposite (x y : Float32) : x - y = x + -y := by
  show Float32.ofModel (.pack ((parts x).sub .binary32 (parts y))) =
    Float32.ofModel (.pack ((parts x).add .binary32 (parts (-y))))
  rw [parts_neg, unpacked_sub_eq]

theorem unpacked_add_comm {spec : Format} (a b : UnpackedFloat) : a.add spec b = b.add spec a := by
  cases a with
  | notANumber => cases b <;> rfl
  | infinity s | zero s =>
      cases b with
      | infinity s' | zero s' => cases s <;> cases s' <;> rfl
      | notANumber | finite => rfl
  | finite s m e h =>
      cases b with
      | notANumber | infinity | zero => rfl
      | finite s' m' e' h' => simp only [UnpackedFloat.add, min_comm e e', Int.add_comm]

/-- A sum of finite numbers is below zero exactly if the sum of their values is. -/
theorem add_lt_zero_iff_of_value? (hx : value? x = some v) (hy : value? y = some w) :
    x + y < 0 ↔ v + w < 0 := by
  rw [lt_zero_iff, parts_add]
  rcases parts_of_value? hx with ⟨s, hpx, rfl⟩ | ⟨s, m, e, hm, hpx, rfl⟩
  · rw [zero_add, ← lt_zero_iff_of_value? hy, lt_zero_iff, hpx]
    rcases parts_of_value? hy with ⟨s', hpy, rfl⟩ | ⟨s', m', e', hm', hpy, rfl⟩
    · rw [hpy]
      cases s <;> cases s' <;> simp [UnpackedFloat.add, unpack_pack_zero, HasSign]
    · rw [hpy]
      show HasSign _ (unpack .binary32 (pack .binary32 (.finite s' m' e' hm'))) ↔ _
      rw [unpack_pack_of_canonical (canonical_of_parts hpy)]
  rcases parts_of_value? hy with ⟨s', hpy, rfl⟩ | ⟨s', m', e', hm', hpy, rfl⟩
  · rw [add_zero, ← lt_zero_iff_of_value? hx, lt_zero_iff, hpx, hpy]
    show HasSign _ (unpack .binary32 (pack .binary32 (.finite s m e hm))) ↔ _
    rw [unpack_pack_of_canonical (canonical_of_parts hpx)]
  · have hlo := (canonical_of_parts hpx).le_exponent
    have hlo' := (canonical_of_parts hpy).le_exponent
    rw [hpx, hpy]
    have hunit : (0 : ℚ) < 2 ^ min e e' := by positivity
    refine (hasSign_negative_normalize_iff (le_min hlo hlo')).trans ?_
    rw [← value_decreaseExponent s (min_le_left e e'),
      ← value_decreaseExponent s' (min_le_right e e'), ← add_mul]
    constructor
    · intro hneg
      exact mul_neg_of_neg_of_pos (by exact_mod_cast hneg) hunit
    · intro hneg
      exact_mod_cast neg_of_mul_neg_left hneg hunit.le

/-- A number is undefined, infinite or a rational number. -/
theorem parts_cases (x : Float32) :
    x.isNaN = true ∨ (∃ s, parts x = .infinity s) ∨ ∃ v, value? x = some v := by
  rw [isNaN_iff_parts, value?]
  cases parts x with
  | notANumber => exact Or.inl rfl
  | infinity s => exact Or.inr (Or.inl ⟨s, rfl⟩)
  | zero | finite => exact Or.inr (Or.inr ⟨_, rfl⟩)

theorem unpack_pack_notANumber :
    unpack .binary32 (pack .binary32 .notANumber) = .notANumber := rfl

theorem unpack_pack_infinity (s : Sign) :
    unpack .binary32 (pack .binary32 (.infinity s)) = .infinity s := by
  cases s <;> rfl

/-- A sum with an infinite number is infinite with its sign, or undefined. -/
theorem parts_infinity_add {s : Sign} (hx : parts x = .infinity s) :
    (x + y).isNaN = true ∨ parts (x + y) = .infinity s := by
  rw [isNaN_iff_parts, parts_add, hx]
  cases parts y with
  | notANumber => cases s <;> exact Or.inl rfl
  | infinity s' =>
      cases s with
      | positive =>
          cases s' with
          | positive => exact Or.inr rfl
          | negative => exact Or.inl rfl
      | negative =>
          cases s' with
          | positive => exact Or.inl rfl
          | negative => exact Or.inr rfl
  | zero | finite => exact Or.inr (unpack_pack_infinity s)

theorem add_comm (x y : Float32) : x + y = y + x := by
  show Float32.ofModel (.pack ((parts x).add .binary32 (parts y))) =
    Float32.ofModel (.pack ((parts y).add .binary32 (parts x)))
  rw [unpacked_add_comm]

/-- A sum of numbers none of which is below zero is not below zero. -/
theorem not_add_lt_zero (hx : ¬ x < 0) (hy : ¬ y < 0) : ¬ x + y < 0 := by
  have hinfinite {x y : Float32} (hx : ¬ x < 0) {s : Sign} (hinf : parts x = .infinity s) :
      ¬ x + y < 0 := by
    rcases parts_infinity_add (y := y) hinf with hnan | hsum
    · exact not_lt_of_isNaN (Or.inl hnan)
    · rwa [lt_zero_iff, hsum, ← hinf, ← lt_zero_iff]
  rcases parts_cases x with hnan | ⟨s, hinf⟩ | ⟨v, hv⟩
  · exact not_lt_of_isNaN (Or.inl (isNaN_add (Or.inl hnan)))
  · exact hinfinite hx hinf
  rcases parts_cases y with hnan | ⟨s, hinf⟩ | ⟨w, hw⟩
  · exact not_lt_of_isNaN (Or.inl (isNaN_add (Or.inr hnan)))
  · rw [add_comm]
    exact hinfinite hy hinf
  · rw [lt_zero_iff_of_value? hv] at hx
    rw [lt_zero_iff_of_value? hw] at hy
    rw [add_lt_zero_iff_of_value? hv hw]
    linarith

theorem value_nonpos (hx : sign? (parts x) = some .negative) (hv : value? x = some v) : v ≤ 0 := by
  rcases parts_of_value? hv with ⟨s, -, rfl⟩ | ⟨s, m, e, h, hpx, rfl⟩
  · exact le_rfl
  · rw [hpx] at hx
    cases hx
    rw [factor, neg_one_mul]
    exact neg_nonpos.mpr (by positivity)

/-- A number below zero, added to one with the negative sign, gives a number below zero. -/
theorem add_lt_zero (hx : sign? (parts x) = some .negative) (hy : y < 0) : x + y < 0 := by
  have hinfinity := unpack_pack_infinity .negative
  have hysign := lt_zero_iff.mp hy
  rcases parts_cases x with hnan | ⟨s, hpx⟩ | ⟨v, hv⟩
  · rw [isNaN_iff.mp hnan] at hx
    cases hx
  · rw [hpx] at hx
    cases hx
    rw [lt_zero_iff, parts_add, hpx]
    rcases hysign with hpy | ⟨m, e, h, hpy⟩ <;> rw [hpy] <;> exact Or.inl hinfinity
  rcases hysign with hpy | ⟨m, e, h, hpy⟩
  · rw [lt_zero_iff, parts_add, hpy]
    rcases parts_of_value? hv with ⟨_, hpx, -⟩ | ⟨_, _, _, _, hpx, -⟩ <;> rw [hpx] <;>
      exact Or.inl hinfinity
  · have hw : value? y = some (factor .negative * (m * 2 ^ e)) := congrArg unpackedValue? hpy
    have hvneg := value_nonpos hx hv
    have hwneg := (lt_zero_iff_of_value? hw).mp hy
    rw [add_lt_zero_iff_of_value? hv hw]
    linarith

/-- **A difference is below zero exactly if the first number lies below the second**, whatever was
rounded on the way. -/
theorem sub_lt_zero_iff (hx : x.isFinite = true) : x - y < 0 ↔ x < y := by
  obtain ⟨v, hv⟩ := exists_value? hx
  rcases parts_cases y with hnan | ⟨s, hpy⟩ | ⟨w, hw⟩
  · exact iff_of_false (not_lt_of_isNaN (Or.inl (isNaN_sub (Or.inr hnan))))
      (not_lt_of_isNaN (Or.inr hnan))
  · have hinfinity : (parts x).sub .binary32 (.infinity s) = .infinity (-s) := by
      rcases parts_of_value? hv with ⟨_, hpx, -⟩ | ⟨_, _, _, _, hpx, -⟩ <;> rw [hpx] <;> rfl
    rw [lt_zero_iff, parts_sub, lt_iff, hpy, hinfinity, unpack_pack_infinity]
    rcases parts_of_value? hv with ⟨_, hpx, -⟩ | ⟨_, _, _, _, hpx, -⟩ <;> rw [hpx] <;>
      cases s <;> simp [HasSign, UnpackedFloat.compare, Neg.neg]
  · rw [sub_eq_add_opposite, add_lt_zero_iff_of_value? hv (value?_neg hw), lt_iff_of_value? hv hw]
    constructor <;> intro h <;> linarith

/-! ### Products and quotients -/

/-- A product of numbers with the positive sign is not below zero, though it may be undefined. -/
theorem not_mul_lt_zero (hx : sign? (parts x) = some .positive)
    (hy : sign? (parts y) = some .positive) : ¬ x * y < 0 := by
  intro hneg
  have hsign := sign?_of_neg hneg
  rw [parts_mul, sign?_unpack_pack] at hsign
  cases hpx : parts x with
  | notANumber => rw [hpx] at hx; cases hx
  | infinity s | zero s =>
      rw [hpx] at hx hsign
      cases hx
      cases hpy : parts y <;> rw [hpy] at hy hsign <;> cases hy <;> cases hsign
  | finite s m e h =>
      rw [hpx] at hx hsign
      cases hx
      rw [sign?_finite_mul, hy] at hsign
      cases hsign

/-- Dividing by a number between zero and one keeps what is below zero there, and adds nothing to
it. -/
theorem div_lt_zero_iff (hpos : 0 < y) (hone : y < 1) : x / y < 0 ↔ x < 0 := by
  obtain ⟨hfinite, -⟩ := above_of_compare (sign?_of_pos hpos) (lt_iff.mp hone)
  obtain ⟨m', e', h', hpy⟩ := exists_parts_of_pos hpos hfinite
  have hle : (m' * 2 ^ e' : ℚ) < 1 := by
    have hone' : value? (1 : Float32) = some 1 := by decide +kernel
    have hy : value? y = some (factor .positive * (m' * 2 ^ e')) := congrArg unpackedValue? hpy
    have hlt := (lt_iff_of_value? hy hone').mp hone
    rwa [factor, one_mul] at hlt
  rw [lt_zero_iff, lt_zero_iff, parts_div, hpy]
  cases hpx : parts x with
  | notANumber => exact iff_of_eq (congrArg (HasSign .negative) unpack_pack_notANumber)
  | infinity s => cases s <;> exact iff_of_eq (congrArg _ (unpack_pack_infinity _))
  | zero s => cases s <;> exact iff_of_eq (congrArg _ (unpack_pack_zero _))
  | finite s m e h =>
      obtain ⟨t, ht, hvalue⟩ := within_divCore m e e' h'
      have hlarge : (2 : ℚ) ^ (-150 : ℤ) < t * 2 ^ (divCore .binary32 m e m' e').2.1 := by
        rw [hvalue, lt_div_iff₀ (by positivity)]
        calc (2 : ℚ) ^ (-150 : ℤ) * (m' * 2 ^ e')
          _ < 2 ^ (-150 : ℤ) * 1 := mul_lt_mul_of_pos_left hle (by positivity)
          _ ≤ 2 ^ (-149 : ℤ) := by norm_num
          _ ≤ m * 2 ^ e := one_unit_le h (canonical_of_parts hpx).le_exponent
      have hround (s : Sign) := hasSign_round (s := s) (ample_divCore h h') ht hlarge
      cases s with
      | negative => exact iff_of_true (hround .negative) (Or.inr ⟨m, e, h, rfl⟩)
      | positive =>
          refine iff_of_false ?_ (by simp [HasSign])
          intro hsign
          cases hsign.sign?.symm.trans (hround .positive).sign?

end MotorControl.Binary32
