/-
Rounding keeps the order.

A number is rounded in two steps.  Its magnitude is rounded to 24 bits, or to a multiple of
`2 ^ -149`, as if there were no largest number; if what comes of that does not fit the format
it is replaced by an infinite number.  Neither step turns two numbers around.  In the first
one a number that keeps more places than another is so much larger that rounding does not
bridge the gap, and with the same places it is rounded to the nearest whole number of units.

So a sum, a product with a number above zero and a quotient by one do not become smaller
where an operand becomes larger, whatever was rounded and also where they overflow.  What a
formula of such steps does to all numbers of a range can then be seen at its ends, and where
the formula takes a step itself, at the two neighbours it steps between.
-/
import MotorControl.Proofs.Binary32.Sign

namespace MotorControl.Binary32

open Float.Model (Format UnpackedFloat totalExponent)
open Float.Model.UnpackedFloat

variable {x x' y y' z : Float32} {v w r r' : ℚ}

/-! ### The order -/

theorem le_iff_of_value? (hx : value? x = some v) (hy : value? y = some w) : x ≤ y ↔ v ≤ w := by
  rw [← not_lt, ← lt_iff_of_value? hy hx]
  exact ⟨not_lt_of_le, le_of_not_lt (isNaN_of_value? hy) (isNaN_of_value? hx)⟩

theorem negInfinity_le (hx : parts x = .infinity .negative) (hy : y.isNaN = false) : x ≤ y := by
  rw [isNaN_eq] at hy
  rw [le_iff, hx]
  cases hpy : parts y with
  | notANumber => rw [hpy] at hy; cases hy
  | infinity s => cases s <;> exact ⟨_, rfl, rfl⟩
  | zero | finite => exact ⟨_, rfl, rfl⟩

theorem le_infinity (hx : x.isNaN = false) (hy : parts y = .infinity .positive) : x ≤ y := by
  rw [isNaN_eq] at hx
  rw [le_iff, hy]
  cases hpx : parts x with
  | notANumber => rw [hpx] at hx; cases hx
  | infinity s => cases s <;> exact ⟨_, rfl, rfl⟩
  | zero | finite => exact ⟨_, rfl, rfl⟩

/-- Of two numbers in order the first is the least, or the second the greatest, or both are rational
numbers. -/
theorem le_cases (h : x ≤ y) : parts x = .infinity .negative ∨ parts y = .infinity .positive ∨
    ∃ v w, value? x = some v ∧ value? y = some w ∧ v ≤ w := by
  obtain ⟨hx, hy⟩ := isNaN_of_le h
  rcases parts_cases x with hnan | ⟨s, hpx⟩ | ⟨v, hv⟩
  · cases hx.symm.trans hnan
  · cases s with
    | negative => exact Or.inl hpx
    | positive =>
        obtain ⟨o, ho, hle⟩ := le_iff.mp h
        rw [hpx] at ho
        cases hpy : parts y with
        | notANumber | zero | finite => rw [hpy] at ho; cases ho <;> cases hle
        | infinity s =>
            cases s with
            | positive => exact Or.inr (Or.inl rfl)
            | negative => rw [hpy] at ho; cases ho; cases hle
  · rcases parts_cases y with hnan | ⟨s, hpy⟩ | ⟨w, hw⟩
    · cases hy.symm.trans hnan
    · cases s with
      | positive => exact Or.inr (Or.inl hpy)
      | negative =>
          obtain ⟨o, ho, hle⟩ := le_iff.mp h
          rw [hpy] at ho
          rcases parts_of_value? hv with ⟨_, hpx, -⟩ | ⟨_, _, _, _, hpx, -⟩ <;>
            rw [hpx] at ho <;> cases ho <;> cases hle
    · exact Or.inr (Or.inr ⟨v, w, hv, hw, (le_iff_of_value? hv hw).mp h⟩)

theorem le_trans (h : x ≤ y) (h' : y ≤ z) : x ≤ z := by
  have hx := (isNaN_of_le h).1
  have hz := (isNaN_of_le h').2
  rcases le_cases h with hpx | hpy | ⟨v, w, hv, hw, hle⟩
  · exact negInfinity_le hpx hz
  · rcases le_cases h' with hpy' | hpz | ⟨w, u, hw, -, -⟩
    · cases hpy.symm.trans hpy'
    · exact le_infinity hx hpz
    · rw [value?, hpy] at hw
      cases hw
  · rcases le_cases h' with hpy' | hpz | ⟨w', u, hw', hu, hle'⟩
    · rw [value?, hpy'] at hw
      cases hw
    · exact le_infinity hx hpz
    · cases hw.symm.trans hw'
      exact (le_iff_of_value? hv hu).mpr (hle.trans hle')

theorem lt_of_le_of_lt (h : x ≤ y) (h' : y < z) : x < z := by
  by_contra hnot
  have hle := le_of_not_lt (isNaN_of_le h).1 (isNaN_of_le (le_of_lt h')).2 hnot
  exact not_lt_of_le (le_trans hle h) h'

/-- What lies between finite numbers is finite. -/
theorem isFinite_between (hx : x.isFinite = true) (hz : z.isFinite = true) (h : x ≤ y)
    (h' : y ≤ z) : y.isFinite = true := by
  rw [isFinite_eq] at hx hz
  rcases le_cases h with hpx | hpy | ⟨v, w, -, hw, -⟩
  · rw [hpx] at hx
    cases hx
  · rcases le_cases h' with hpy' | hpz | ⟨w, u, hw, -, -⟩
    · cases hpy.symm.trans hpy'
    · rw [hpz] at hz
      cases hz
    · exact isFinite_of_value? hw
  · exact isFinite_of_value? hw

/-! ### Magnitudes -/

theorem parts_abs (x : Float32) : parts x.abs = (parts x).abs := by
  show unpack .binary32 (pack .binary32 (parts x).abs) = _
  cases hx : parts x with
  | notANumber => rfl
  | infinity => exact unpack_pack_infinity .positive
  | zero => exact unpack_pack_zero _
  | finite s m e h => exact unpack_pack_of_canonical (canonical_of_parts hx)

theorem isFinite_abs (x : Float32) : x.abs.isFinite = x.isFinite := by
  rw [isFinite_eq, isFinite_eq, parts_abs]
  cases parts x <;> rfl

theorem value?_abs (h : value? x = some v) : value? x.abs = some |v| := by
  rw [value?, parts_abs]
  rcases parts_of_value? h with ⟨s, hpx, rfl⟩ | ⟨s, m, e, hm, hpx, rfl⟩
  · rw [hpx, abs_zero]
    rfl
  · rw [hpx, abs_mul, abs_factor, one_mul, abs_of_nonneg (by positivity)]
    exact congrArg some (one_mul _)

/-- A number with a bounded magnitude is within the bound on both sides. -/
theorem between_of_abs_le (h : x.abs ≤ y) (hy : y.isFinite = true) : -y ≤ x ∧ x ≤ y := by
  rcases le_cases h with hneg | hpos | ⟨v, w, hv, hw, hle⟩
  · rw [parts_abs] at hneg
    cases hpx : parts x <;> rw [hpx] at hneg <;> cases hneg
  · rw [isFinite_eq, hpos] at hy
    cases hy
  · obtain ⟨u, hu⟩ := exists_value? ((isFinite_abs x).symm.trans (isFinite_of_value? hv))
    cases (value?_abs hu).symm.trans hv
    rw [le_iff_of_value? (value?_neg hw) hu, le_iff_of_value? hu hw]
    exact abs_le.mp hle

/-- A number with a large magnitude is a multiple of the last place of the least such magnitude. -/
theorem exists_multiple {e : ℤ} (hx : value? x = some v) (h : 2 ^ (23 + e) ≤ |v|) :
    ∃ n : ℤ, v = n * 2 ^ e := by
  rcases parts_of_value? hx with ⟨s, -, rfl⟩ | ⟨s, m, e', hm, hpx, rfl⟩
  · exact ⟨0, by simp⟩
  · have hfit : (m : ℚ) < 2 ^ 24 := by exact_mod_cast (canonical_of_parts hpx).mantissa_lt
    rw [abs_mul, abs_factor, one_mul, abs_of_nonneg (by positivity)] at h
    have hlt : (2 : ℚ) ^ (23 + e) < 2 ^ (24 + e') := by
      calc (2 : ℚ) ^ (23 + e)
        _ ≤ m * 2 ^ e' := h
        _ < 2 ^ 24 * 2 ^ e' := mul_lt_mul_of_pos_right hfit (by positivity)
        _ = 2 ^ (24 + e') := by rw [zpow_add₀ two_ne_zero]; norm_num
    have hplace := (zpow_lt_zpow_iff_right₀ one_lt_two).mp hlt
    obtain ⟨d, hd⟩ := Int.eq_ofNat_of_zero_le (show 0 ≤ e' - e by omega)
    obtain ⟨f, hf⟩ : ∃ f : ℤ, factor s = f := by
      cases s with
      | positive => exact ⟨1, Int.cast_one.symm⟩
      | negative => exact ⟨-1, by rw [factor]; norm_num⟩
    refine ⟨f * (m * 2 ^ d), ?_⟩
    rw [hf, show e' = d + e by omega, zpow_add₀ two_ne_zero, zpow_natCast]
    push_cast
    ring

/-! ### Rounding a magnitude -/

/-- What a mantissa and an exponent are rounded to, before it is seen whether that overflows. -/
def magnitude (m : ℕ) (e : ℤ) (a : Accuracy) : ℚ := rounded m e a * 2 ^ (e + shift m e)

section Magnitude

variable {m m' : ℕ} {e e' : ℤ} {a a' : Accuracy} {t t' : ℚ}

/-- The exact number, in units of the last place that is kept. -/
theorem exists_cut (ht : Within (.ofMantissaAndAccuracy m a) t) :
    ∃ u, Within (cut m e a) u ∧ t * 2 ^ e = u * 2 ^ (e + shift m e) := by
  refine ⟨t / 2 ^ shift m e, ht.shiftRight _, ?_⟩
  rw [zpow_add₀ two_ne_zero, zpow_natCast]
  field_simp

theorem exact_nonneg (ht : Within (.ofMantissaAndAccuracy m a) t) : 0 ≤ t * 2 ^ e :=
  mul_nonneg ((Nat.cast_nonneg _).trans ht.mantissa_le) (by positivity)

theorem magnitude_nonneg (m : ℕ) (e : ℤ) (a : Accuracy) : 0 ≤ magnitude m e a := by
  unfold magnitude
  positivity

/-- With more places kept, a magnitude is the larger one before rounding and after it. -/
theorem rounded_mul_le (hm' : Ample m' e') (hlt : e + shift m e < e' + shift m' e') :
    magnitude m e a ≤ magnitude m' e' a' := by
  have hplace := le_add_shift m e
  have hle : (rounded m e a : ℚ) ≤ 2 ^ 24 := by exact_mod_cast rounded_le m e a
  have hfull : (2 : ℚ) ^ 23 ≤ rounded m' e' a' := by
    exact_mod_cast (le_rounded hm' a').resolve_left (by omega)
  calc rounded m e a * (2 : ℚ) ^ (e + shift m e)
    _ ≤ 2 ^ 24 * 2 ^ (e + shift m e) := mul_le_mul_of_nonneg_right hle (by positivity)
    _ = 2 ^ 23 * 2 ^ (e + shift m e + 1) := by rw [zpow_add_one₀ two_ne_zero]; ring
    _ ≤ 2 ^ 23 * 2 ^ (e' + shift m' e') :=
      mul_le_mul_of_nonneg_left (zpow_le_zpow_right₀ one_le_two hlt) (by positivity)
    _ ≤ rounded m' e' a' * 2 ^ (e' + shift m' e') :=
      mul_le_mul_of_nonneg_right hfull (by positivity)

theorem lt_of_place_lt {u u' : ℚ} (hm' : Ample m' e') (hu : Within (cut m e a) u)
    (hu' : Within (cut m' e' a') u') (hlt : e + shift m e < e' + shift m' e') :
    u * 2 ^ (e + shift m e) < u' * 2 ^ (e' + shift m' e') := by
  have hplace := le_add_shift m e
  have hcut : ((cut m e a).mantissa : ℚ) + 1 ≤ 2 ^ 24 := by exact_mod_cast mantissa_cut_lt m e a
  have hfull : (2 : ℚ) ^ 23 ≤ (cut m' e' a').mantissa := by
    exact_mod_cast (le_mantissa_cut hm' a').resolve_left (by omega)
  have hbelow : u < 2 ^ 24 := hu.lt_mantissa_add_one.trans_le hcut
  calc u * 2 ^ (e + shift m e)
    _ < 2 ^ 24 * 2 ^ (e + shift m e) := mul_lt_mul_of_pos_right hbelow (by positivity)
    _ = 2 ^ 23 * 2 ^ (e + shift m e + 1) := by rw [zpow_add_one₀ two_ne_zero]; ring
    _ ≤ 2 ^ 23 * 2 ^ (e' + shift m' e') :=
      mul_le_mul_of_nonneg_left (zpow_le_zpow_right₀ one_le_two hlt) (by positivity)
    _ ≤ u' * 2 ^ (e' + shift m' e') :=
      mul_le_mul_of_nonneg_right (hfull.trans hu'.mantissa_le) (by positivity)

theorem magnitude_mono (hm : Ample m e) (hm' : Ample m' e')
    (ht : Within (.ofMantissaAndAccuracy m a) t) (ht' : Within (.ofMantissaAndAccuracy m' a') t')
    (h : t * 2 ^ e ≤ t' * 2 ^ e') : magnitude m e a ≤ magnitude m' e' a' := by
  obtain ⟨u, hu, hvalue⟩ := exists_cut (e := e) ht
  obtain ⟨u', hu', hvalue'⟩ := exists_cut (e := e') ht'
  rw [hvalue, hvalue'] at h
  rcases lt_trichotomy (e + shift m e : ℤ) (e' + shift m' e') with hlt | heq | hgt
  · exact rounded_mul_le hm' hlt
  · have hpos : (0 : ℚ) < 2 ^ (e + shift m e) := by positivity
    rw [← heq, mul_le_mul_iff_left₀ hpos] at h
    have hrounded : rounded m e a ≤ rounded m' e' a' := by
      refine (hu.rounded_le_iff _).mpr ?_
      rcases (hu'.rounded_le_iff _).mp le_rfl with hlt | ⟨htie, heven⟩
      · exact Or.inl (h.trans_lt hlt)
      · exact (htie ▸ h).lt_or_eq.imp_right fun heq => ⟨heq, heven⟩
    unfold magnitude
    rw [← heq]
    exact mul_le_mul_of_nonneg_right (by exact_mod_cast hrounded) hpos.le
  · exact absurd h (not_le.mpr (lt_of_place_lt hm hu' hu hgt))

theorem magnitude_zero : magnitude 0 (-149) .exact = 0 := by
  rw [magnitude, show rounded 0 (-149) .exact = 0 from rfl, Nat.cast_zero, zero_mul]

theorem magnitude_eq_zero (hm : Ample m e) (ht : Within (.ofMantissaAndAccuracy m a) t)
    (h : t * 2 ^ e ≤ 0) : magnitude m e a = 0 := by
  have hzero : Ample 0 (-149) := Or.inr le_rfl
  have hle := magnitude_mono hm hzero ht (within_exact 0) (by simpa using h)
  exact le_antisymm (magnitude_zero ▸ hle) (magnitude_nonneg m e a)

end Magnitude

/-! ### Rounding a number -/

/-- The first number is rounded to the second, as long as that does not overflow. -/
inductive Nearest : ℚ → ℚ → Prop
  | intro (s : Sign) {m : ℕ} {e : ℤ} {a : Accuracy} {t : ℚ} (ample : Ample m e)
      (within : Within (.ofMantissaAndAccuracy m a) t) :
      Nearest (factor s * (t * 2 ^ e)) (factor s * magnitude m e a)

theorem Nearest.mono (h : Nearest v r) (h' : Nearest w r') (hle : v ≤ w) : r ≤ r' := by
  obtain @⟨s, m, e, a, t, hm, ht⟩ := h
  obtain @⟨s', m', e', a', t', hm', ht'⟩ := h'
  have hpos := magnitude_nonneg m e a
  have hpos' := magnitude_nonneg m' e' a'
  have hnonneg := exact_nonneg (e := e) ht
  have hnonneg' := exact_nonneg (e := e') ht'
  cases s with
  | positive =>
      cases s' with
      | positive =>
          simp only [factor, one_mul] at hle ⊢
          exact magnitude_mono hm hm' ht ht' hle
      | negative =>
          -- Both are zero.
          simp only [factor, one_mul, neg_one_mul] at hle ⊢
          rw [magnitude_eq_zero hm ht (by linarith), magnitude_eq_zero hm' ht' (by linarith)]
          exact neg_zero.ge
  | negative =>
      cases s' with
      | positive =>
          simp only [factor, one_mul, neg_one_mul]
          linarith
      | negative =>
          simp only [factor, neg_one_mul, neg_le_neg_iff] at hle ⊢
          exact magnitude_mono hm' hm ht' ht hle

/-- The number of the format that stands for a rounded one: that number itself, or an infinite one
if it does not fit. -/
inductive Denotes (r : ℚ) (x : Float32) : Prop
  | value (value_eq : value? x = some r)
  | overflow (s : Sign) (large : 2 ^ 128 ≤ factor s * r) (parts_eq : parts x = .infinity s)

theorem abs_lt_of_value? (h : value? x = some v) : |v| < 2 ^ 128 := by
  rcases parts_of_value? h with ⟨s, -, rfl⟩ | ⟨s, m, e, hm, hpx, rfl⟩
  · rw [abs_zero]
    positivity
  · have hcanonical := canonical_of_parts hpx
    have hfit : (m : ℚ) < 2 ^ 24 := by exact_mod_cast hcanonical.mantissa_lt
    rw [abs_mul, abs_factor, one_mul, abs_of_nonneg (by positivity)]
    calc (m : ℚ) * 2 ^ e
      _ < 2 ^ 24 * 2 ^ e := mul_lt_mul_of_pos_right hfit (by positivity)
      _ ≤ 2 ^ 24 * 2 ^ (104 : ℤ) := mul_le_mul_of_nonneg_left
        (zpow_le_zpow_right₀ one_le_two hcanonical.exponent_le) (by positivity)
      _ = 2 ^ 128 := by norm_num

namespace Denotes

theorem isNaN_eq_false (h : Denotes r x) : x.isNaN = false := by
  cases h with
  | value hvalue => exact isNaN_of_value? hvalue
  | overflow s _ hparts => rw [isNaN_eq, hparts]; rfl

theorem le (h : Denotes r x) (h' : Denotes r' y) (hle : r ≤ r') : x ≤ y := by
  have hx := h.isNaN_eq_false
  have hy := h'.isNaN_eq_false
  cases h with
  | overflow s hlarge hparts =>
      cases s with
      | negative => exact negInfinity_le hparts hy
      | positive =>
          rw [factor, one_mul] at hlarge
          cases h' with
          | value hvalue =>
              have hbound := (abs_lt.mp (abs_lt_of_value? hvalue)).2
              linarith
          | overflow s' hlarge' hparts' =>
              cases s' with
              | positive => exact le_infinity hx hparts'
              | negative =>
                  rw [factor, neg_one_mul] at hlarge'
                  linarith
  | value hvalue =>
      cases h' with
      | value hvalue' => exact (le_iff_of_value? hvalue hvalue').mpr hle
      | overflow s hlarge hparts =>
          cases s with
          | positive => exact le_infinity hx hparts
          | negative =>
              have hbound := (abs_lt.mp (abs_lt_of_value? hvalue)).1
              rw [factor, neg_one_mul] at hlarge
              linarith

/-- Packing what was rounded is where it overflows. -/
theorem of_round {s : Sign} {m : ℕ} {e : ℤ} {a : Accuracy} (hm : Ample m e)
    (hx : parts x = unpack .binary32 (pack .binary32 (roundWithAccuracy .binary32 s m e a))) :
    Denotes (factor s * magnitude m e a) x := by
  have hlo := le_add_shift m e
  have hfull := le_rounded hm a
  have hle := rounded_le m e a
  have hsign : factor s * (factor s * magnitude m e a) = magnitude m e a := by
    cases s <;> simp [factor]
  have hlarge (h : 104 < e + shift m e ∨ e + shift m e = 104 ∧ rounded m e a = 2 ^ 24) :
      (2 ^ 128 : ℚ) ≤ magnitude m e a := by
    unfold magnitude
    rcases h with hgt | ⟨heq, hcarry⟩
    · have hmantissa : (2 : ℚ) ^ 23 ≤ rounded m e a := by
        exact_mod_cast hfull.resolve_left (by omega)
      calc (2 ^ 128 : ℚ)
        _ = 2 ^ 23 * 2 ^ (105 : ℤ) := by norm_num
        _ ≤ rounded m e a * 2 ^ (e + shift m e) := mul_le_mul hmantissa
          (zpow_le_zpow_right₀ one_le_two hgt) (by positivity) (by positivity)
    · rw [heq, hcarry]
      norm_num
  rw [roundWithAccuracy_eq] at hx
  by_cases hzero : rounded m e a = 0
  · rw [dif_pos hzero, unpack_pack_zero] at hx
    refine .value ?_
    rw [value?, hx, magnitude, hzero, Nat.cast_zero, zero_mul, mul_zero]
    rfl
  rw [dif_neg hzero] at hx
  by_cases hcarry : rounded m e a = 2 ^ 24
  · rw [if_pos hcarry] at hx
    by_cases hplace : e + shift m e ≤ 103
    · refine .value ?_
      rw [value?, hx, unpackedValue?_pack ⟨by decide, by omega, by omega, Or.inl le_rfl⟩, magnitude,
        hcarry, zpow_add_one₀ two_ne_zero]
      congr 2
      push_cast
      ring
    · rw [unpack_pack_of_large (by omega)] at hx
      exact .overflow s (by rw [hsign]; exact hlarge (by omega)) hx
  · rw [if_neg hcarry] at hx
    by_cases hplace : e + shift m e ≤ 104
    · refine .value ?_
      rw [value?, hx, unpackedValue?_pack ⟨by omega, hlo, hplace, hfull.symm⟩, magnitude]
    · rw [unpack_pack_of_large (by omega)] at hx
      exact .overflow s (by rw [hsign]; exact hlarge (by omega)) hx

end Denotes

/-! ### Operations -/

/-- A number of the format is what the exact one is rounded to. -/
def Rounds (v : ℚ) (x : Float32) : Prop := ∃ r, Nearest v r ∧ Denotes r x

namespace Rounds

/-- Rounding does not turn two numbers around. -/
theorem le (h : Rounds v x) (h' : Rounds w y) (hle : v ≤ w) : x ≤ y := by
  obtain ⟨r, hnearest, hdenotes⟩ := h
  obtain ⟨r', hnearest', hdenotes'⟩ := h'
  exact hdenotes.le hdenotes' (hnearest.mono hnearest' hle)

theorem of_round {s : Sign} {m : ℕ} {e : ℤ} {a : Accuracy} {t : ℚ} (hm : Ample m e)
    (ht : Within (.ofMantissaAndAccuracy m a) t) (hv : v = factor s * (t * 2 ^ e))
    (hx : parts x = unpack .binary32 (pack .binary32 (roundWithAccuracy .binary32 s m e a))) :
    Rounds v x :=
  ⟨_, hv ▸ .intro s hm ht, .of_round hm hx⟩

theorem zero (hx : value? x = some 0) : Rounds 0 x := by
  have hnearest := Nearest.intro .positive (m := 0) (e := -149) (Or.inr le_rfl) (within_exact 0)
  rw [magnitude_zero, Nat.cast_zero, zero_mul, mul_zero] at hnearest
  exact ⟨0, hnearest, .value hx⟩

/-- A number of the format is rounded to itself. -/
theorem of_value? (hx : value? x = some v) : Rounds v x := by
  rcases parts_of_value? hx with ⟨s, -, rfl⟩ | ⟨s, m, e, hm, hpx, rfl⟩
  · exact zero hx
  · have hcanonical := canonical_of_parts hpx
    refine of_round (hcanonical.full.imp_right le_of_eq) (within_exact m) rfl ?_
    rw [round_canonical hcanonical hm, hpx, unpack_pack_of_canonical hcanonical]

theorem normalize {n e : ℤ} {s : Sign} (hv : v = n * 2 ^ e)
    (hx : parts x = unpack .binary32 (pack .binary32 (.normalize .binary32 n e s))) :
    Rounds v x := by
  unfold UnpackedFloat.normalize at hx
  rcases lt_trichotomy n 0 with hneg | rfl | hpos
  · rw [Int.compare_eq_lt.mpr hneg] at hx
    obtain ⟨hample, hvalue⟩ := ample_decreaseExponent (m := (-n).toNat) (e := e) (by omega)
    refine of_round hample (within_exact _) ?_ hx
    have hcast : ((-n).toNat : ℚ) = -n := by exact_mod_cast Int.toNat_of_nonneg (by omega)
    rw [hvalue, hcast, hv, factor]
    ring
  · have hzero : value? x = some 0 := by
      rw [value?, hx]
      exact unpackedValue?_pack_zero s
    rw [hv, Int.cast_zero, zero_mul]
    exact zero hzero
  · rw [Int.compare_eq_gt.mpr hpos] at hx
    obtain ⟨hample, hvalue⟩ := ample_decreaseExponent (m := n.toNat) (e := e) (by omega)
    refine of_round hample (within_exact _) ?_ hx
    have hcast : (n.toNat : ℚ) = n := by exact_mod_cast Int.toNat_of_nonneg hpos.le
    rw [hvalue, hcast, hv, factor, one_mul]

theorem add (hx : value? x = some v) (hy : value? y = some w) : Rounds (v + w) (x + y) := by
  rcases parts_of_value? hx with ⟨s, hpx, rfl⟩ | ⟨s, m, e, hm, hpx, rfl⟩
  · rw [zero_add]
    rcases parts_of_value? hy with ⟨s', hpy, rfl⟩ | ⟨s', m', e', hm', hpy, rfl⟩
    · refine zero ?_
      rw [value?, parts_add, hpx, hpy]
      cases s <;> cases s' <;> exact unpackedValue?_pack_zero _
    · refine of_value? ?_
      rw [value?, parts_add, hpx, hpy]
      exact unpackedValue?_pack (canonical_of_parts hpy)
  rcases parts_of_value? hy with ⟨s', hpy, rfl⟩ | ⟨s', m', e', hm', hpy, rfl⟩
  · refine of_value? ?_
    rw [value?, parts_add, hpx, hpy, add_zero]
    exact unpackedValue?_pack (canonical_of_parts hpx)
  · rw [← value_decreaseExponent s (min_le_left e e'),
      ← value_decreaseExponent s' (min_le_right e e'), ← add_mul, ← Int.cast_add]
    exact normalize rfl (by rw [parts_add, hpx, hpy]; rfl)

theorem sub (hx : value? x = some v) (hy : value? y = some w) : Rounds (v - w) (x - y) := by
  rw [sub_eq_add_opposite, sub_eq_add_neg]
  exact add hx (value?_neg hy)

theorem mul (hx : value? x = some v) (hy : value? y = some w) : Rounds (v * w) (x * y) := by
  rcases parts_of_value? hx with ⟨s, hpx, rfl⟩ | ⟨s, m, e, hm, hpx, rfl⟩
  · rw [zero_mul]
    refine zero ?_
    rw [value?, parts_mul, hpx]
    rcases parts_of_value? hy with ⟨_, hpy, -⟩ | ⟨_, _, _, _, hpy, -⟩ <;> rw [hpy] <;>
      exact unpackedValue?_pack_zero _
  rcases parts_of_value? hy with ⟨s', hpy, rfl⟩ | ⟨s', m', e', hm', hpy, rfl⟩
  · rw [mul_zero]
    refine zero ?_
    rw [value?, parts_mul, hpx, hpy]
    exact unpackedValue?_pack_zero _
  · refine of_round (s := s * s')
      (ample_mul (canonical_of_parts hpx) (canonical_of_parts hpy) hm hm') (within_exact _) ?_
      (by rw [parts_mul, hpx, hpy]; rfl)
    rw [factor_mul, zpow_add₀ two_ne_zero]
    push_cast
    ring

theorem div (hx : value? x = some v) (hy : value? y = some w) (hw : w ≠ 0) :
    Rounds (v / w) (x / y) := by
  rcases parts_of_value? hy with ⟨s', hpy, rfl⟩ | ⟨s', m', e', hm', hpy, rfl⟩
  · exact absurd rfl hw
  rcases parts_of_value? hx with ⟨s, hpx, rfl⟩ | ⟨s, m, e, hm, hpx, rfl⟩
  · rw [zero_div]
    refine zero ?_
    rw [value?, parts_div, hpx, hpy]
    exact unpackedValue?_pack_zero _
  · obtain ⟨t, ht, hcore⟩ := within_divCore m e e' hm'
    refine of_round (s := s / s') (ample_divCore hm hm') ht ?_ (by rw [parts_div, hpx, hpy]; rfl)
    rw [factor_div, hcore, mul_div_mul_comm]

end Rounds

/-! ### Operations that keep the order -/

theorem add_le_add_right (h : x ≤ y) (hx : x.isFinite = true) (hy : y.isFinite = true)
    (hz : z.isFinite = true) : x + z ≤ y + z := by
  obtain ⟨v, hv⟩ := exists_value? hx
  obtain ⟨w, hw⟩ := exists_value? hy
  obtain ⟨u, hu⟩ := exists_value? hz
  have hle := (le_iff_of_value? hv hw).mp h
  exact (Rounds.add hv hu).le (Rounds.add hw hu) (by linarith)

/-- A difference does not become smaller where more is left, or less taken away. -/
theorem sub_le_sub (h : x ≤ y) (h' : y' ≤ x') (hx : x.isFinite = true) (hy : y.isFinite = true)
    (hx' : x'.isFinite = true) (hy' : y'.isFinite = true) : x - x' ≤ y - y' := by
  obtain ⟨v, hv⟩ := exists_value? hx
  obtain ⟨w, hw⟩ := exists_value? hy
  obtain ⟨v', hv'⟩ := exists_value? hx'
  obtain ⟨w', hw'⟩ := exists_value? hy'
  have hle := (le_iff_of_value? hv hw).mp h
  have hle' := (le_iff_of_value? hw' hv').mp h'
  exact (Rounds.sub hv hv').le (Rounds.sub hw hw') (by linarith)

theorem mul_le_mul_left (h : x ≤ y) (hx : x.isFinite = true) (hy : y.isFinite = true)
    (hpos : 0 < z) (hz : z.isFinite = true) : z * x ≤ z * y := by
  obtain ⟨v, hv⟩ := exists_value? hx
  obtain ⟨w, hw⟩ := exists_value? hy
  obtain ⟨u, hu⟩ := exists_value? hz
  have hle := (le_iff_of_value? hv hw).mp h
  have hu_pos := (lt_iff_of_value? value?_zero hu).mp hpos
  exact (Rounds.mul hu hv).le (Rounds.mul hu hw) (mul_le_mul_of_nonneg_left hle hu_pos.le)

/-- A quotient keeps the order also of infinite numbers, since it is infinite with them. -/
theorem div_le_div_right (h : x ≤ y) (hpos : 0 < z) (hz : z.isFinite = true) :
    x / z ≤ y / z := by
  obtain ⟨m, e, hm, hpz⟩ := exists_parts_of_pos hpos hz
  have hsign (a : Float32) : sign? (parts (a / z)) = sign? (parts a) := by
    rw [parts_div, sign?_unpack_pack, hpz, sign?_div_finite]
  have hdefined {a : Float32} (ha : a.isNaN = false) : (a / z).isNaN = false := by
    rwa [isNaN_eq_false_iff, hsign, ← isNaN_eq_false_iff]
  have hinfinite {a : Float32} {s : Sign} (ha : parts a = .infinity s) :
      parts (a / z) = .infinity s := by
    rw [parts_div, ha, hpz]
    cases s <;> exact unpack_pack_infinity _
  rcases le_cases h with hpx | hpy | ⟨v, w, hv, hw, hle⟩
  · exact negInfinity_le (hinfinite hpx) (hdefined (isNaN_of_le h).2)
  · exact le_infinity (hdefined (isNaN_of_le h).1) (hinfinite hpy)
  · have hu : value? z = some (factor .positive * (m * 2 ^ e)) := congrArg unpackedValue? hpz
    have hu_pos : (0 : ℚ) < factor .positive * (m * 2 ^ e) := by
      rw [factor, one_mul]
      positivity
    exact (Rounds.div hv hu hu_pos.ne').le (Rounds.div hw hu hu_pos.ne')
      (div_le_div_of_nonneg_right hle hu_pos.le)

/-! ### Neighbours -/

/-- The parts of two numbers of one sign and one exponent with nothing between them, the smaller
number first. -/
def IsNext : UnpackedFloat → UnpackedFloat → Prop
  | .finite .positive m e _, .finite .positive m' e' _ => m' = m + 1 ∧ e' = e
  | .finite .negative m e _, .finite .negative m' e' _ => m = m' + 1 ∧ e' = e
  | _, _ => False

instance (a b : UnpackedFloat) : Decidable (IsNext a b) := by
  unfold IsNext
  split <;> infer_instance

theorem IsNext.cases {a b : UnpackedFloat} (h : IsNext a b) :
    (∃ m e hm hm', a = .finite .positive m e hm ∧ b = .finite .positive (m + 1) e hm') ∨
      ∃ m e hm hm', a = .finite .negative (m + 1) e hm ∧ b = .finite .negative m e hm' := by
  cases a with
  | notANumber | infinity | zero => cases h
  | finite s m e hm =>
      cases b with
      | notANumber | infinity | zero => cases s <;> cases h
      | finite s' m' e' hm' =>
          cases s with
          | positive =>
              cases s' with
              | positive =>
                  obtain ⟨rfl, rfl⟩ := h
                  exact Or.inl ⟨m, e', hm, hm', rfl, rfl⟩
              | negative => cases h
          | negative =>
              cases s' with
              | positive => cases h
              | negative =>
                  obtain ⟨rfl, rfl⟩ := h
                  exact Or.inr ⟨m', e', hm, hm', rfl, rfl⟩

theorem isFinite_of_isNext (h : IsNext (parts x) (parts y)) :
    x.isFinite = true ∧ y.isFinite = true := by
  rw [isFinite_eq, isFinite_eq]
  rcases h.cases with ⟨m, e, _, _, hx, hy⟩ | ⟨m, e, _, _, hx, hy⟩ <;> rw [hx, hy] <;>
    exact ⟨rfl, rfl⟩

theorem le_or_le_of_canonical {m m' : ℕ} {e e' : ℤ} (hm : Canonical m e)
    (hnext : Canonical (m + 1) e) (hm' : Canonical m' e') :
    (m' * 2 ^ e' : ℚ) ≤ m * 2 ^ e ∨ ((m + 1 : ℕ) * 2 ^ e : ℚ) ≤ m' * 2 ^ e' := by
  rw [← not_lt, ← not_lt, ← compare_canonical_iff hm hm', ← compare_canonical_iff hm' hnext]
  simp only [Ordering.then_eq_lt, Int.compare_eq_lt, Int.compare_eq_eq, Nat.compare_eq_lt]
  omega

theorem le_or_le_of_next {m : ℕ} {e : ℤ} (hm : Canonical m e) (hnext : Canonical (m + 1) e)
    (hz : value? z = some v) : v ≤ m * 2 ^ e ∨ (m + 1 : ℕ) * 2 ^ e ≤ v := by
  have hpos : (0 : ℚ) ≤ m * 2 ^ e := by positivity
  rcases parts_of_value? hz with ⟨s, -, rfl⟩ | ⟨s, m', e', hm', hpz, rfl⟩
  · exact Or.inl hpos
  · cases s with
    | negative =>
        have hpos' : (0 : ℚ) < m' * 2 ^ e' := by positivity
        rw [factor, neg_one_mul]
        exact Or.inl (by linarith)
    | positive =>
        rw [factor, one_mul]
        exact le_or_le_of_canonical hm hnext (canonical_of_parts hpz)

/-- A finite number is not above the first of two neighbours or not below the second. -/
theorem le_or_le_of_isNext (h : IsNext (parts x) (parts y)) (hz : z.isFinite = true) :
    z ≤ x ∨ y ≤ z := by
  obtain ⟨u, hu⟩ := exists_value? hz
  obtain ⟨v, hv⟩ := exists_value? (isFinite_of_isNext h).1
  obtain ⟨w, hw⟩ := exists_value? (isFinite_of_isNext h).2
  rw [le_iff_of_value? hu hv, le_iff_of_value? hw hu]
  rcases h.cases with ⟨m, e, _, _, hpx, hpy⟩ | ⟨m, e, _, _, hpx, hpy⟩
  · have hx := canonical_of_parts hpx
    have hy := canonical_of_parts hpy
    rw [value?, hpx] at hv
    rw [value?, hpy] at hw
    cases hv
    cases hw
    rw [factor, one_mul, one_mul]
    exact le_or_le_of_next hx hy hu
  · have hx := canonical_of_parts hpx
    have hy := canonical_of_parts hpy
    rw [value?, hpx] at hv
    rw [value?, hpy] at hw
    cases hv
    cases hw
    rw [factor, neg_one_mul, neg_one_mul, neg_le, le_neg, or_comm]
    exact le_or_le_of_next hy hx (value?_neg hu)

end MotorControl.Binary32
