/-
Which operations are exact.

A finite number is a rational one, and the format has those that are whole multiples of a
power of two, with 24 bits and within its range of exponents.  Where the exact product or
quotient of two finite numbers is one of these, nothing is rounded: the mantissa and the
exponent that the operation arrives at are the ones the format writes that number with.

So the small whole numbers are exact, and so are their fractions with a power of two below.
-/
import MotorControl.Proofs.Binary32.Decimal

namespace MotorControl.Binary32

open Float.Model (Format UnpackedFloat)
open Float.Model.UnpackedFloat

/-! ### The parts of a result -/

theorem parts_add (x y : Float32) :
    parts (x + y) = unpack .binary32 (pack .binary32 ((parts x).add .binary32 (parts y))) := rfl

theorem parts_sub (x y : Float32) :
    parts (x - y) = unpack .binary32 (pack .binary32 ((parts x).sub .binary32 (parts y))) := rfl

theorem parts_mul (x y : Float32) :
    parts (x * y) = unpack .binary32 (pack .binary32 ((parts x).mul .binary32 (parts y))) := rfl

theorem parts_div (x y : Float32) :
    parts (x / y) = unpack .binary32 (pack .binary32 ((parts x).div .binary32 (parts y))) := rfl

theorem parts_neg (x : Float32) : parts (-x) = (parts x).neg := by
  show unpack .binary32 (pack .binary32 (parts x).neg) = _
  cases hx : parts x with
  | notANumber => rfl
  | infinity s => cases s <;> rfl
  | zero s => exact unpack_pack_zero _
  | finite s m e h => exact unpack_pack_of_canonical (canonical_of_parts hx)

/-! ### The value of a number -/

/-- A sign, as the number it multiplies with. -/
def factor : Sign → ℚ
  | .positive => 1
  | .negative => -1

theorem factor_mul (s s' : Sign) : factor (s * s') = factor s * factor s' := by
  cases s with
  | positive => cases s' <;> exact (one_mul (_ : ℚ)).symm
  | negative =>
      cases s' with
      | positive => exact (mul_one (-1 : ℚ)).symm
      | negative => exact ((neg_mul_neg (1 : ℚ) 1).trans (mul_one 1)).symm

theorem factor_neg (s : Sign) : factor (-s) = -factor s := by
  cases s with
  | positive => rfl
  | negative => exact (neg_neg (1 : ℚ)).symm

theorem factor_div (s s' : Sign) : factor (s / s') = factor s / factor s' := by
  cases s' with
  | positive => cases s <;> exact (div_one (_ : ℚ)).symm
  | negative =>
      cases s with
      | positive => exact (one_div_neg_one_eq_neg_one : (1 : ℚ) / -1 = -1).symm
      | negative => exact (div_self (neg_ne_zero.mpr one_ne_zero) : (-1 : ℚ) / -1 = 1).symm

theorem abs_factor (s : Sign) : |factor s| = 1 := by
  cases s <;> simp [factor]

/-- The rational number that the parts of a finite number stand for. -/
def unpackedValue? : UnpackedFloat → Option ℚ
  | .notANumber | .infinity _ => none
  | .zero _ => some 0
  | .finite s m e _ => some (factor s * (m * 2 ^ e))

/-- The rational number that a number is, if it is finite. -/
def value? (x : Float32) : Option ℚ := unpackedValue? (parts x)

variable {x y : Float32} {v w : ℚ}

theorem isSome_value? (x : Float32) : (value? x).isSome = x.isFinite := by
  rw [isFinite_eq, value?]
  cases parts x <;> rfl

theorem isFinite_of_value? (h : value? x = some v) : x.isFinite = true := by
  rw [← isSome_value?, h]
  rfl

theorem exists_value? (h : x.isFinite = true) : ∃ v, value? x = some v :=
  Option.isSome_iff_exists.mp ((isSome_value? x).trans h)

theorem isNaN_of_value? (h : value? x = some v) : x.isNaN = false :=
  isNaN_of_isFinite (isFinite_of_value? h)

/-- A finite number is a zero, or a sign, a mantissa and an exponent. -/
theorem parts_of_value? (h : value? x = some v) :
    (∃ s, parts x = .zero s ∧ v = 0) ∨
      ∃ s m e hm, parts x = .finite s m e hm ∧ v = factor s * (m * 2 ^ e) := by
  unfold value? at h
  cases hx : parts x with
  | notANumber | infinity => rw [hx] at h; cases h
  | zero s =>
      rw [hx] at h
      exact Or.inl ⟨s, rfl, (Option.some.inj h).symm⟩
  | finite s m e hm =>
      rw [hx] at h
      exact Or.inr ⟨s, m, e, hm, rfl, (Option.some.inj h).symm⟩

theorem unpackedValue?_pack_zero (s : Sign) :
    unpackedValue? (unpack .binary32 (pack .binary32 (.zero s))) = some 0 := by
  rw [unpack_pack_zero]
  rfl

theorem unpackedValue?_pack {s : Sign} {m : ℕ} {e : ℤ} {h : 0 < m} (hm : Canonical m e) :
    unpackedValue? (unpack .binary32 (pack .binary32 (.finite s m e h))) =
      some (factor s * (m * 2 ^ e)) := by
  rw [unpack_pack_of_canonical hm]
  rfl

theorem value?_neg (h : value? x = some v) : value? (-x) = some (-v) := by
  rw [value?, parts_neg]
  rcases parts_of_value? h with ⟨s, hpx, rfl⟩ | ⟨s, m, e, hm, hpx, rfl⟩
  · rw [hpx, neg_zero]
    rfl
  · rw [hpx, ← neg_mul, ← factor_neg]
    rfl

/-! ### The order -/

/-- The magnitudes of two numbers compare by exponent first, since no bit is wasted. -/
theorem lt_of_canonical {m m' : ℕ} {e e' : ℤ} (hm : Canonical m e) (hm' : Canonical m' e')
    (h : e < e' ∨ e = e' ∧ m < m') : (m * 2 ^ e : ℚ) < m' * 2 ^ e' := by
  rcases h with hlt | ⟨rfl, hlt⟩
  · have hfit : (m : ℚ) < 2 ^ 24 := by exact_mod_cast hm.mantissa_lt
    have hfull : (2 : ℚ) ^ 23 ≤ m' := by exact_mod_cast full_of_lt hm hm' hlt
    calc (m * 2 ^ e : ℚ)
      _ < 2 ^ 24 * 2 ^ e := mul_lt_mul_of_pos_right hfit (by positivity)
      _ = 2 ^ 23 * 2 ^ (e + 1) := by rw [zpow_add₀ two_ne_zero]; ring
      _ ≤ 2 ^ 23 * 2 ^ e' :=
        mul_le_mul_of_nonneg_left (zpow_le_zpow_right₀ one_le_two hlt) (by positivity)
      _ ≤ m' * 2 ^ e' := mul_le_mul_of_nonneg_right hfull (by positivity)
  · exact mul_lt_mul_of_pos_right (by exact_mod_cast hlt) (by positivity)

theorem compare_canonical_iff {m m' : ℕ} {e e' : ℤ} (hm : Canonical m e) (hm' : Canonical m' e') :
    (compare e e').then (compare m m') = .lt ↔ (m * 2 ^ e : ℚ) < m' * 2 ^ e' := by
  rw [Ordering.then_eq_lt, Int.compare_eq_lt, Int.compare_eq_eq, Nat.compare_eq_lt]
  refine ⟨lt_of_canonical hm hm', ?_⟩
  intro hlt
  by_contra hnot
  by_cases heq : e = e' ∧ m = m'
  · rw [heq.1, heq.2] at hlt
    exact lt_irrefl _ hlt
  · exact lt_asymm hlt (lt_of_canonical hm' hm (by omega))

/-- Finite numbers are ordered as the rational numbers that they are. -/
theorem lt_iff_of_value? (hx : value? x = some v) (hy : value? y = some w) : x < y ↔ v < w := by
  rw [lt_iff]
  rcases parts_of_value? hx with ⟨s, hpx, rfl⟩ | ⟨s, m, e, hm, hpx, rfl⟩
  · rcases parts_of_value? hy with ⟨s', hpy, rfl⟩ | ⟨s', m', e', hm', hpy, rfl⟩
    · simp [hpx, hpy, UnpackedFloat.compare]
    · have hpos : (0 : ℚ) < m' * 2 ^ e' := by positivity
      cases s' <;> simp [hpx, hpy, UnpackedFloat.compare, factor, hpos, hpos.le]
  have hpos : (0 : ℚ) < m * 2 ^ e := by positivity
  rcases parts_of_value? hy with ⟨s', hpy, rfl⟩ | ⟨s', m', e', hm', hpy, rfl⟩
  · cases s <;> simp [hpx, hpy, UnpackedFloat.compare, factor, hpos, hpos.le]
  have hpos' : (0 : ℚ) < m' * 2 ^ e' := by positivity
  have hcompare := compare_canonical_iff (canonical_of_parts hpx) (canonical_of_parts hpy)
  have hswapped := compare_canonical_iff (canonical_of_parts hpy) (canonical_of_parts hpx)
  rw [hpx, hpy]
  cases s with
  | positive =>
      cases s' with
      | positive =>
          rw [factor, one_mul, one_mul, ← hcompare]
          exact Option.some_inj
      | negative =>
          refine iff_of_false nofun ?_
          rw [factor, factor]
          linarith
  | negative =>
      cases s' with
      | positive =>
          refine iff_of_true rfl ?_
          rw [factor, factor]
          linarith
      | negative =>
          have hflip : (UnpackedFloat.finite .negative m e hm).compare
              (.finite .negative m' e' hm') = some ((compare e' e).then (compare m' m)) :=
            (compare_swap (.finite .positive m e hm) (.finite .positive m' e' hm')).symm
          rw [factor, neg_one_mul, neg_one_mul, neg_lt_neg_iff, ← hswapped, hflip]
          exact Option.some_inj

/-! ### The numbers of the format -/

/-- The format has the whole multiples of a power of two, with 24 bits. -/
def Representable (v : ℚ) : Prop :=
  ∃ (n : ℤ) (e : ℤ), n.natAbs < 2 ^ 24 ∧ -149 ≤ e ∧ e ≤ 104 ∧ v = n * 2 ^ e

theorem Representable.neg (h : Representable v) : Representable (-v) := by
  obtain ⟨n, e, hn, hlo, hhi, rfl⟩ := h
  refine ⟨-n, e, by rwa [Int.natAbs_neg], hlo, hhi, ?_⟩
  push_cast
  ring

theorem Representable.of_factor {s : Sign} (h : Representable (factor s * v)) : Representable v := by
  cases s with
  | positive => rwa [factor, one_mul] at h
  | negative =>
      rw [factor, neg_one_mul] at h
      exact neg_neg v ▸ h.neg

/-- A mantissa of fewer bits is shifted up until it has 24, or its exponent is the smallest. -/
theorem exists_canonical {m : ℕ} {e : ℤ} (h : 0 < m) (hm : m < 2 ^ 24) (hlo : -149 ≤ e)
    (hhi : e ≤ 104) : ∃ m' e', 0 < m' ∧ Canonical m' e' ∧ (m' * 2 ^ e' : ℚ) = m * 2 ^ e := by
  have hlog : m.log2 < 24 := (Nat.log2_lt h.ne').mpr hm
  obtain ⟨k, hk⟩ : ∃ k, k = min (23 - m.log2) (e + 149).toNat := ⟨_, rfl⟩
  refine ⟨m * 2 ^ k, e - k, by positivity, ⟨?_, by omega, by omega, ?_⟩, ?_⟩
  · calc m * 2 ^ k
      _ < 2 ^ (m.log2 + 1) * 2 ^ k := Nat.mul_lt_mul_of_pos_right Nat.lt_log2_self (Nat.two_pow_pos k)
      _ = 2 ^ (m.log2 + 1 + k) := (pow_add ..).symm
      _ ≤ 2 ^ 24 := Nat.pow_le_pow_right two_pos (by omega)
  · by_cases hfull : m.log2 + k = 23
    · left
      calc 2 ^ 23
        _ = 2 ^ m.log2 * 2 ^ k := by rw [← pow_add, hfull]
        _ ≤ m * 2 ^ k := Nat.mul_le_mul_right _ (Nat.log2_self_le h.ne')
    · exact Or.inr (by omega)
  · rw [zpow_sub₀ two_ne_zero, zpow_natCast]
    push_cast
    field_simp

/-- A positive number of the format is rounded to itself, with whatever sign. -/
theorem unpackedValue?_round {s : Sign} {m : ℕ} {e : ℤ} {a : Accuracy} {t : ℚ} (hm : Ample m e)
    (ht : Within (.ofMantissaAndAccuracy m a) t) (hpos : 0 < t * 2 ^ e)
    (hv : Representable (t * 2 ^ e)) :
    unpackedValue? (unpack .binary32 (pack .binary32 (roundWithAccuracy .binary32 s m e a))) =
      some (factor s * (t * 2 ^ e)) := by
  obtain ⟨n, f, hn, hlo, hhi, hvalue⟩ := hv
  have hnpos : 0 < n := by
    rw [hvalue] at hpos
    exact_mod_cast pos_of_mul_pos_left hpos (by positivity)
  obtain ⟨p, hp⟩ := Int.eq_ofNat_of_zero_le hnpos.le
  rw [hp, Int.cast_natCast] at hvalue
  obtain ⟨m', e', hm', hcanonical, heq⟩ :=
    exists_canonical (m := p) (e := f) (by omega) (by omega) hlo hhi
  rw [roundWithAccuracy_of_canonical hm ht hcanonical hm' (hvalue.trans heq.symm),
    unpackedValue?_pack hcanonical, heq, hvalue]

/-! ### Products and quotients -/

theorem ample_mul {m m' : ℕ} {e e' : ℤ} (hm : Canonical m e) (hm' : Canonical m' e') (h : 0 < m)
    (h' : 0 < m') : Ample (m * m') (e + e') := by
  rcases hm.full with hfull | hlow
  · exact Or.inl (hfull.trans (Nat.le_mul_of_pos_right m h'))
  · rcases hm'.full with hfull' | hlow'
    · exact Or.inl (hfull'.trans (Nat.le_mul_of_pos_left m' h))
    · exact Or.inr (by omega)

/-- A product that the format has is the product. -/
theorem value?_mul (hx : value? x = some v) (hy : value? y = some w) (h : Representable (v * w)) :
    value? (x * y) = some (v * w) := by
  rw [value?, parts_mul]
  rcases parts_of_value? hx with ⟨s, hpx, rfl⟩ | ⟨s, m, e, hm, hpx, rfl⟩
  · rw [hpx, zero_mul]
    rcases parts_of_value? hy with ⟨s', hpy, -⟩ | ⟨s', m', e', hm', hpy, -⟩
    · rw [hpy]
      exact unpackedValue?_pack_zero _
    · rw [hpy]
      exact unpackedValue?_pack_zero _
  · rcases parts_of_value? hy with ⟨s', hpy, rfl⟩ | ⟨s', m', e', hm', hpy, rfl⟩
    · rw [hpx, hpy, mul_zero]
      exact unpackedValue?_pack_zero _
    · have hvalue : factor s * (m * 2 ^ e) * (factor s' * (m' * 2 ^ e')) =
          factor (s * s') * ((m * m' : ℕ) * 2 ^ (e + e')) := by
        rw [factor_mul, zpow_add₀ two_ne_zero]
        push_cast
        ring
      rw [hvalue] at h ⊢
      rw [hpx, hpy]
      exact unpackedValue?_round
        (ample_mul (canonical_of_parts hpx) (canonical_of_parts hpy) hm hm')
        (within_exact _) (by positivity) h.of_factor

/-- A quotient that the format has is the quotient. -/
theorem value?_div (hx : value? x = some v) (hy : value? y = some w) (hw : w ≠ 0)
    (h : Representable (v / w)) : value? (x / y) = some (v / w) := by
  rw [value?, parts_div]
  rcases parts_of_value? hy with ⟨s', hpy, rfl⟩ | ⟨s', m', e', hm', hpy, rfl⟩
  · exact absurd rfl hw
  rcases parts_of_value? hx with ⟨s, hpx, rfl⟩ | ⟨s, m, e, hm, hpx, rfl⟩
  · rw [hpx, hpy, zero_div]
    exact unpackedValue?_pack_zero _
  · obtain ⟨t, ht, hcore⟩ := within_divCore m e e' hm'
    have hvalue : factor s * (m * 2 ^ e) / (factor s' * (m' * 2 ^ e')) =
        factor (s / s') * (t * 2 ^ (divCore .binary32 m e m' e').2.1) := by
      rw [factor_div, hcore, mul_div_mul_comm]
    rw [hvalue] at h ⊢
    rw [hpx, hpy]
    have hpos : 0 < t * 2 ^ (divCore .binary32 m e m' e').2.1 := by
      rw [hcore]
      positivity
    exact unpackedValue?_round (ample_divCore hm hm') ht hpos h.of_factor

/-! ### Whole numbers -/

/-- A natural number of 23 bits is itself. -/
theorem value?_ofNat {n : ℕ} (hn : n < 2 ^ 23) : value? (Scalar.ofNat n) = some (n : ℚ) := by
  have hword : value? n.toUInt64.toFloat32 = some (n : ℚ) := by
    rcases n.eq_zero_or_pos with rfl | hpos
    · decide +kernel
    · obtain ⟨m, e, h, hparts, -, hvalue⟩ := parts_toFloat32 hpos hn
      rw [value?, hparts, ← hvalue, ← one_mul (_ * _ : ℚ)]
      rfl
  have hone : value? (powerOfTen 0) = some (1 : ℚ) := by decide +kernel
  have hproduct : Scalar.ofNat n = n.toUInt64.toFloat32 * powerOfTen 0 := by
    show Float32.ofScientific n false 0 = _
    unfold Float32.ofScientific
    rw [dif_pos ⟨hn, by decide⟩]
    rfl
  rw [hproduct]
  have hfit : Representable ((n : ℚ) * 1) := ⟨n, 0, by omega, by decide, by decide, by simp⟩
  exact (value?_mul hword hone hfit).trans (congrArg some (mul_one _))

theorem value?_ofInt {n : ℤ} (hn : n.natAbs < 2 ^ 23) : value? (Scalar.ofInt n) = some (n : ℚ) := by
  cases n with
  | ofNat n => exact value?_ofNat hn
  | negSucc n =>
      rw [Int.cast_negSucc]
      exact value?_neg (value?_ofNat hn)

/-- So is every fraction of a whole number of 23 bits with the denominator `2 ^ 16`. -/
theorem value?_ofInt_div {n : ℤ} (hn : n.natAbs < 2 ^ 23) :
    value? (Scalar.ofInt n / 65536) = some (n / 65536 : ℚ) := by
  have hunit : value? (65536 : Float32) = some (65536 : ℚ) := value?_ofNat (by decide)
  refine value?_div (value?_ofInt hn) hunit (by norm_num) ?_
  exact ⟨n, -16, by omega, by decide, by decide, by norm_num; ring⟩

/-- A negative quotient is rounded down by rounding its magnitude up. -/
theorem floor_neg_div (m : ℕ) {d : ℕ} (hd : 0 < d) :
    ⌊-((m : ℚ) / d)⌋ = -((m + (d - 1)) / d : ℕ) := by
  obtain ⟨q, hq⟩ : ∃ q, q = (m + (d - 1)) / d := ⟨_, rfl⟩
  have hpos : (0 : ℚ) < d := by exact_mod_cast hd
  have hlo : q * d ≤ m + (d - 1) := hq ▸ Nat.div_mul_le_self _ d
  have hhi : m + (d - 1) < q * d + d := hq ▸ Nat.lt_div_mul_add hd
  rw [← hq, Int.floor_eq_iff]
  push_cast
  constructor
  · have hle : (m : ℚ) ≤ q * d := by exact_mod_cast (by omega : m ≤ q * d)
    rw [neg_le_neg_iff, div_le_iff₀ hpos]
    exact hle
  · have hlt : (q * d : ℚ) < m + d := by exact_mod_cast (by omega : q * d < m + d)
    have hquotient : (q : ℚ) < m / d + 1 := by
      rw [div_add_one hpos.ne', lt_div_iff₀ hpos]
      exact hlt
    linarith

/-- Rounding down is exact where the whole number that it arrives at is. -/
theorem value?_floor (hx : value? x = some v) (hfit : ⌊v⌋.natAbs < 2 ^ 23) :
    value? (Scalar.floor x) = some (⌊v⌋ : ℚ) := by
  show value? (floor x) = _
  unfold floor
  rcases parts_of_value? hx with ⟨s, hpx, rfl⟩ | ⟨s, m, e, hm, hpx, rfl⟩
  · rw [show x.toModel.unpack = _ from hpx, Int.floor_zero]
    exact hx
  rw [show x.toModel.unpack = _ from hpx]
  dsimp only
  by_cases he : 0 ≤ e
  · obtain ⟨k, rfl⟩ := Int.eq_ofNat_of_zero_le he
    have hwhole : factor s * (m * 2 ^ (k : ℤ)) = (s.apply (m * 2 ^ k) : ℤ) := by
      cases s <;> simp [factor, Sign.apply]
    rw [if_pos he, hx, hwhole, Int.floor_intCast]
  · obtain ⟨k, rfl⟩ : ∃ k : ℕ, e = -k := ⟨(-e).toNat, by omega⟩
    have hunit : 1 <<< (- -(k : ℤ)).toNat = 2 ^ k := by
      rw [Nat.one_shiftLeft, neg_neg, Int.toNat_natCast]
    have hvalue : (m : ℚ) * 2 ^ (-k : ℤ) = m / (2 ^ k : ℕ) := by
      rw [zpow_neg, zpow_natCast, ← div_eq_mul_inv]
      push_cast
      rfl
    rw [if_neg he, hunit]
    rw [hvalue] at hfit ⊢
    cases s with
    | positive =>
        rw [factor, one_mul] at hfit ⊢
        rw [Rat.floor_natCast_div_natCast] at hfit ⊢
        exact value?_ofNat hfit
    | negative =>
        rw [factor, neg_one_mul] at hfit ⊢
        rw [floor_neg_div m (Nat.two_pow_pos k)] at hfit ⊢
        rw [Int.natAbs_neg, Int.natAbs_natCast] at hfit
        rw [Int.cast_neg]
        exact value?_neg (value?_ofNat hfit)

end MotorControl.Binary32
