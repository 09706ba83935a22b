/-
The range of the format.

A number is rounded to the nearest one that the format has, and to the even one of two
that are equally near.  So what is rounded ends as a finite number above zero exactly if
it lies above `2 ^ -150`, which is half the smallest number above zero, and below
`2 ^ 128 - 2 ^ 103`, which is half a unit above the largest one.  Both of these are ties
and go to the even side: to zero and to infinity.

`Within` says what a mantissa that was cut off and the two bits that are kept of the rest
tell of the exact number.  Shifting keeps it, and rounding reads it.
-/
import MotorControl.Proofs.Binary32.Scaling

namespace MotorControl.Binary32

open Float.Model (Format UnpackedFloat totalExponent)
open Float.Model.UnpackedFloat

/-! ### What is left of an exact number -/

/-- A number, in units of the last place of the mantissa that was cut off from it. -/
def Within (em : ExtendedMantissa) (t : ℚ) : Prop :=
  match em.roundBit, em.stickyBit with
  | false, false => t = em.mantissa
  | false, true => em.mantissa < t ∧ t < em.mantissa + 1 / 2
  | true, false => t = em.mantissa + 1 / 2
  | true, true => em.mantissa + 1 / 2 < t ∧ t < em.mantissa + 1

namespace Within

variable {em : ExtendedMantissa} {t : ℚ}

theorem mantissa_le (h : Within em t) : em.mantissa ≤ t := by
  obtain ⟨m, round, sticky⟩ := em
  cases round <;> cases sticky <;> simp only [Within] at h ⊢ <;> linarith

theorem lt_mantissa_add_one (h : Within em t) : t < em.mantissa + 1 := by
  obtain ⟨m, round, sticky⟩ := em
  cases round <;> cases sticky <;> simp only [Within] at h ⊢ <;> linarith

theorem shiftRightOne (h : Within em t) : Within em.shiftRightOne (t / 2) := by
  obtain ⟨m, round, sticky⟩ := em
  have hm : (2 * (m / 2 : ℕ) + (m % 2 : ℕ) : ℚ) = m := by exact_mod_cast Nat.div_add_mod m 2
  rcases Nat.mod_two_eq_zero_or_one m with hbit | hbit <;> rw [hbit] at hm <;>
    cases round <;> cases sticky <;>
    simp [Within, ExtendedMantissa.shiftRightOne, hbit] at h hm ⊢ <;>
    first | linarith | (constructor <;> linarith)

theorem shiftRight (h : Within em t) (k : ℕ) : Within (em >>> k) (t / 2 ^ k) := by
  induction k with
  | zero => rwa [pow_zero, div_one]
  | succ k ih =>
      rw [shiftRight_succ, pow_succ, ← div_div]
      exact ih.shiftRightOne

/-- Rounding down is rounding to the nearest whole number, or from half way to an even one. -/
theorem rounded_eq_mantissa_iff (h : Within em t) :
    em.roundedMantissa = em.mantissa ↔
      t < em.mantissa + 1 / 2 ∨ t = em.mantissa + 1 / 2 ∧ em.mantissa % 2 = 0 := by
  obtain ⟨m, round, sticky⟩ := em
  cases round <;> cases sticky <;>
    simp only [Within, ExtendedMantissa.roundedMantissa, ExtendedMantissa.accuracy,
      Accuracy.roundToNearestEven] at h ⊢
  · exact iff_of_true trivial (Or.inl (by linarith))
  · exact iff_of_true trivial (Or.inl h.2)
  · rw [or_iff_right (by linarith), and_iff_right h]
    omega
  · refine iff_of_false (by omega) ?_
    rintro (hlt | ⟨heq, -⟩) <;> linarith

theorem mantissa_le_rounded (em : ExtendedMantissa) : em.mantissa ≤ em.roundedMantissa := by
  obtain ⟨m, round, sticky⟩ := em
  cases round <;> cases sticky <;>
    simp [ExtendedMantissa.roundedMantissa, ExtendedMantissa.accuracy,
      Accuracy.roundToNearestEven]

/-- What is rounded to `n` at most lies nearer to `n` than to the next whole number, or half way
from an even `n`. -/
theorem rounded_le_iff (h : Within em t) (n : ℕ) :
    em.roundedMantissa ≤ n ↔ t < n + 1 / 2 ∨ t = n + 1 / 2 ∧ n % 2 = 0 := by
  have hlo := mantissa_le_rounded em
  have hhi := roundedMantissa_le em
  rcases lt_trichotomy em.mantissa n with hlt | rfl | hgt
  · have hle : (em.mantissa : ℚ) + 1 ≤ n := by exact_mod_cast hlt
    have ht := h.lt_mantissa_add_one
    exact iff_of_true (by omega) (Or.inl (by linarith))
  · rw [← h.rounded_eq_mantissa_iff]
    omega
  · have hle : (n : ℚ) + 1 ≤ em.mantissa := by exact_mod_cast hgt
    have ht := h.mantissa_le
    refine iff_of_false (by omega) ?_
    rintro (hlt | ⟨heq, -⟩) <;> linarith

theorem rounded_eq_of_natCast {n : ℕ} (h : Within em n) : em.roundedMantissa = n := by
  refine le_antisymm ((h.rounded_le_iff n).2 (Or.inl (by linarith))) ?_
  by_contra hlt
  have hn : ((n - 1 : ℕ) : ℚ) + 1 = n := by exact_mod_cast Nat.sub_add_cancel (by omega)
  rcases (h.rounded_le_iff (n - 1)).1 (by omega) with hclose | ⟨htie, -⟩ <;> linarith

theorem rounded_eq_zero_iff (h : Within em t) : em.roundedMantissa = 0 ↔ t ≤ 1 / 2 := by
  have hround := h.rounded_le_iff 0
  rw [Nat.le_zero, Nat.cast_zero, zero_add, and_iff_left (Nat.zero_mod 2)] at hround
  exact hround.trans le_iff_lt_or_eq.symm

end Within

theorem within_exact (m : ℕ) : Within (.ofMantissaAndAccuracy m .exact) m := rfl

/-- Twice the remainder and the divisor compare as the rest of the quotient and a half. -/
theorem compares_half {K : Type*} [Field K] [LinearOrder K] [IsStrictOrderedRing K] (r : ℕ) {d : ℕ}
    (hd : 0 < d) : (compare (2 * r) d).Compares ((r : K) / d) (1 / 2) := by
  have hpos : (0 : K) < d := by exact_mod_cast hd
  rcases hcompare : compare (2 * r) d with _ | _ | _
  · rw [Nat.compare_eq_lt] at hcompare
    rw [Ordering.compares_lt, div_lt_div_iff₀ hpos two_pos]
    norm_cast
    omega
  · rw [Nat.compare_eq_eq] at hcompare
    rw [Ordering.compares_eq, div_eq_div_iff hpos.ne' two_ne_zero]
    norm_cast
    omega
  · rw [Nat.compare_eq_gt] at hcompare
    rw [Ordering.compares_gt, gt_iff_lt, div_lt_div_iff₀ two_pos hpos]
    norm_cast
    omega

/-- A quotient is the whole one and the rest, which is less than one. -/
theorem div_eq_add_rem {K : Type*} [Field K] [LinearOrder K] [IsStrictOrderedRing K] (m : ℕ) {d : ℕ}
    (hd : 0 < d) :
    (m : K) / d = (m / d : ℕ) + ((m % d : ℕ) : K) / d ∧ ((m % d : ℕ) : K) / d < 1 := by
  have hpos : (0 : K) < d := by exact_mod_cast hd
  constructor
  · rw [div_eq_iff hpos.ne', add_mul, div_mul_cancel₀ _ hpos.ne', mul_comm]
    exact_mod_cast (Nat.div_add_mod m d).symm
  · rw [div_lt_one hpos]
    exact_mod_cast Nat.mod_lt m hd

/-- A quotient, cut off to a whole number. -/
theorem within_div (m : ℕ) {d : ℕ} (hd : 0 < d) :
    Within (.ofMantissaAndAccuracy (m / d) (accuracyOfFraction (m % d) d)) ((m : ℚ) / d) := by
  obtain ⟨hquot, hrem⟩ := div_eq_add_rem (K := ℚ) m hd
  rw [hquot]
  unfold accuracyOfFraction
  by_cases hzero : m % d = 0
  · rw [if_pos hzero, hzero]
    simp [Within, ExtendedMantissa.ofMantissaAndAccuracy]
  · have hpos : (0 : ℚ) < (m % d : ℕ) / d := by
      have hrpos : 0 < m % d := Nat.pos_of_ne_zero hzero
      positivity
    have hhalf := compares_half (K := ℚ) (m % d) hd
    rw [if_neg hzero]
    rcases hcompare : compare (2 * (m % d)) d with _ | _ | _ <;> rw [hcompare] at hhalf
    · exact ⟨lt_add_of_pos_right _ hpos, add_lt_add_right hhalf _⟩
    · exact congrArg _ hhalf
    · exact ⟨add_lt_add_right hhalf _, add_lt_add_right hrem _⟩

/-! ### Packing -/

/-- A finite number above zero. -/
def IsPositive (a : UnpackedFloat) : Prop := ∃ m e h, a = .finite .positive m e h

theorem isPositive_parts_iff {x : Float32} : IsPositive (parts x) ↔ x.isFinite = true ∧ 0 < x := by
  constructor
  · rintro ⟨m, e, h, hx⟩
    rw [isFinite_eq, lt_iff, hx]
    exact ⟨rfl, rfl⟩
  · rintro ⟨hfinite, hpos⟩
    exact exists_parts_of_pos hpos hfinite

theorem unpack_pack_of_canonical {s : Sign} {m : ℕ} {e : ℤ} {h : 0 < m} (hm : Canonical m e) :
    unpack .binary32 (pack .binary32 (.finite s m e h)) = .finite s m e h := by
  obtain ⟨hlt, hlo, hhi, hfull⟩ := hm
  have hsign := sign?_unpack_pack (.finite s m e h)
  have hlog : m.log2 ≤ 23 := Nat.le_of_lt_succ (log2_lt_of_lt (by decide) hlt)
  rcases unpack_pack_spec (s := s) (h := h) hlo hhi with
    ⟨-, s', h', hfinite⟩ | ⟨hne, hsubnormal⟩
  · rw [hfinite] at hsign ⊢
    cases hsign
    rfl
  · have hlow : m < 2 ^ 23 := (Nat.log2_lt h.ne').mp (by omega)
    obtain rfl : e = -149 := hfull.resolve_left (by omega)
    rw [Nat.mod_eq_of_lt hlow] at hsubnormal
    rcases hsubnormal with ⟨hzero, -⟩ | ⟨s', h', hfinite⟩
    · omega
    · rw [hfinite] at hsign ⊢
      cases hsign
      rfl

theorem unpack_pack_of_large {s : Sign} {m : ℕ} {e : ℤ} {h : 0 < m} (he : 105 ≤ e) :
    unpack .binary32 (pack .binary32 (.finite s m e h)) = .infinity s := by
  have hbias : (Format.binary32.exponentBias : ℤ) = 127 := rfl
  unfold pack
  dsimp only
  rw [hbias, if_pos (by omega)]
  cases s <;> rfl

theorem not_isPositive_zero (s : Sign) :
    ¬ IsPositive (unpack .binary32 (pack .binary32 (.zero s))) := by
  rw [unpack_pack_zero]
  rintro ⟨_, _, _, ⟨⟩⟩

theorem not_isPositive_infinity (s : Sign) : ¬ IsPositive (.infinity s) := by
  rintro ⟨_, _, _, ⟨⟩⟩

/-! ### Rounding -/

/-- A mantissa that has the bits to be rounded, be it 24 of them or all down to `2 ^ -149`. -/
def Ample (m : ℕ) (e : ℤ) : Prop := 2 ^ 23 ≤ m ∨ e ≤ -149

/-- What rounds neither to zero nor to infinity. -/
def InRange (v : ℚ) : Prop := 2 ^ (-150 : ℤ) < v ∧ v < 2 ^ 128 - 2 ^ 103

/-- What is left of a mantissa after the first shift, which `rounded` rounds. -/
def cut (m : ℕ) (e : ℤ) (a : Accuracy) : ExtendedMantissa :=
  ExtendedMantissa.ofMantissaAndAccuracy m a >>> shift m e

section Rounding

variable {m : ℕ} {e : ℤ} {a : Accuracy}

/-- The last place that is kept is the smallest one, or 24 bits are kept. -/
theorem place_cases (hm : Ample m e) :
    e + shift m e = -149 ∨ e + shift m e = m.log2 + e - 23 := by
  have hlog : 2 ^ 23 ≤ m → 23 ≤ m.log2 := fun hle => (Nat.le_log2 (by omega)).mpr hle
  unfold shift
  rcases hm with hfull | hlow
  · have := hlog hfull
    omega
  · omega

theorem le_mantissa_cut (hm : Ample m e) (a : Accuracy) :
    e + shift m e = -149 ∨ 2 ^ 23 ≤ (cut m e a).mantissa := by
  refine (place_cases hm).imp_right fun hplace => ?_
  have hlog : m.log2 = 23 + shift m e := by omega
  have hm0 : m ≠ 0 := by
    rintro rfl
    rw [Nat.log2_zero] at hlog
    omega
  calc 2 ^ 23
    _ ≤ m / 2 ^ shift m e := by
      rw [Nat.le_div_iff_mul_le (Nat.two_pow_pos _), ← Nat.pow_add, ← hlog]
      exact Nat.log2_self_le hm0
    _ = (cut m e a).mantissa := by rw [cut, mantissa_shiftRight, mantissa_ofMantissaAndAccuracy]

theorem le_rounded (hm : Ample m e) (a : Accuracy) :
    e + shift m e = -149 ∨ 2 ^ 23 ≤ rounded m e a :=
  (le_mantissa_cut hm a).imp_right fun hle => hle.trans (Within.mantissa_le_rounded _)

/-- A mantissa that rounding carried to `2 ^ 24` loses the last of its bits, and no other changes. -/
theorem roundWithAccuracy_eq (s : Sign) (m : ℕ) (e : ℤ) (a : Accuracy) :
    roundWithAccuracy .binary32 s m e a =
      if h : rounded m e a = 0 then .zero s
      else if rounded m e a = 2 ^ 24 then .finite s (2 ^ 23) (e + shift m e + 1) (by decide)
      else .finite s (rounded m e a) (e + shift m e) (Nat.pos_of_ne_zero h) := by
  have hplace := le_add_shift m e
  have hle := rounded_le m e a
  unfold roundWithAccuracy
  rw [shiftToTargetExponent_eq]
  dsimp only
  rw [shiftToTargetExponent_eq]
  have hrounded : (ExtendedMantissa.ofMantissaAndAccuracy m a >>> shift m e).roundedMantissa =
      rounded m e a := rfl
  simp only [mantissa_shiftRight, mantissa_ofMantissaAndAccuracy, hrounded]
  by_cases hcarry : rounded m e a = 2 ^ 24
  · have hshift : shift (2 ^ 24) (e + shift m e) = 1 := by
      rw [shift.eq_def (2 ^ 24), Nat.log2_two_pow]
      omega
    simp only [hcarry, hshift]
    rfl
  · have hshift : shift (rounded m e a) (e + shift m e) = 0 := by
      have hlog : (rounded m e a).log2 < 24 := log2_lt_of_lt (by decide) (by omega)
      rw [shift.eq_def (rounded m e a)]
      omega
    simp only [hshift, hcarry, pow_zero, Nat.div_one, Nat.cast_zero, add_zero, if_false]

theorem mantissa_cut_lt (m : ℕ) (e : ℤ) (a : Accuracy) : (cut m e a).mantissa < 2 ^ 24 := by
  rw [cut, mantissa_shiftRight, mantissa_ofMantissaAndAccuracy]
  refine Nat.div_lt_of_lt_mul ?_
  rw [← Nat.pow_add]
  refine Nat.lt_log2_self.trans_le (Nat.pow_le_pow_right two_pos ?_)
  unfold shift
  omega

section

variable {m' : ℕ} {e' : ℤ}

/-- The last place that is kept of a number that the format has is the one it has there. -/
theorem place_eq_of_canonical (hm : Ample m e) (hc : Canonical m' e')
    (hu : Within (cut m e a) (m' * 2 ^ (e' - (e + shift m e)))) : e + shift m e = e' := by
  have hlo := le_add_shift m e
  have hle := hc.le_exponent
  have hm' : (0 : ℚ) ≤ m' := Nat.cast_nonneg m'
  rcases lt_trichotomy (e + shift m e) e' with hlt | heq | hgt
  · have hfull : (2 : ℚ) ^ 23 ≤ m' := by exact_mod_cast hc.full.resolve_right (by omega)
    have hcut : ((cut m e a).mantissa : ℚ) + 1 ≤ 2 ^ 24 := by exact_mod_cast mantissa_cut_lt m e a
    have hstep : (2 : ℚ) ≤ 2 ^ (e' - (e + shift m e)) := by
      rw [← zpow_one (2 : ℚ)]
      exact zpow_le_zpow_right₀ one_le_two (by omega)
    have htwice := mul_le_mul_of_nonneg_left hstep hm'
    linarith [hu.lt_mantissa_add_one]
  · exact heq
  · have hcut : (2 : ℚ) ^ 23 ≤ (cut m e a).mantissa := by
      exact_mod_cast (le_mantissa_cut hm a).resolve_left (by omega)
    have hfit : (m' : ℚ) < 2 ^ 24 := by exact_mod_cast hc.mantissa_lt
    have hstep : (2 : ℚ) ^ (e' - (e + shift m e)) ≤ 2⁻¹ := by
      rw [← zpow_neg_one (2 : ℚ)]
      exact zpow_le_zpow_right₀ one_le_two (by omega)
    have hhalf := mul_le_mul_of_nonneg_left hstep hm'
    linarith [hu.mantissa_le]

/-- A number that the format has is rounded to itself. -/
theorem roundWithAccuracy_of_canonical {s : Sign} {t : ℚ} (hm : Ample m e)
    (ht : Within (.ofMantissaAndAccuracy m a) t) (hc : Canonical m' e') (h' : 0 < m')
    (hvalue : t * 2 ^ e = m' * 2 ^ e') :
    roundWithAccuracy .binary32 s m e a = .finite s m' e' h' := by
  have hu : Within (cut m e a) (t / 2 ^ shift m e) := ht.shiftRight _
  have hscaled : t / 2 ^ shift m e = m' * 2 ^ (e' - (e + shift m e)) := by
    rw [zpow_sub₀ two_ne_zero, mul_div_assoc', ← hvalue, zpow_add₀ two_ne_zero, zpow_natCast]
    field_simp
  rw [hscaled] at hu
  have hplace := place_eq_of_canonical hm hc hu
  have hrounded : rounded m e a = m' := by
    rw [hplace, sub_self, zpow_zero, mul_one] at hu
    exact hu.rounded_eq_of_natCast
  rw [roundWithAccuracy_eq]
  simp only [hrounded, hplace, h'.ne', hc.mantissa_lt.ne, dif_neg, if_false, not_false_eq_true]

end

theorem isPositive_round_iff_rounded (hm : Ample m e) :
    IsPositive (unpack .binary32 (pack .binary32 (roundWithAccuracy .binary32 .positive m e a))) ↔
      rounded m e a ≠ 0 ∧ e + shift m e ≤ 104 ∧ (rounded m e a = 2 ^ 24 → e + shift m e ≤ 103) := by
  have hlo := le_add_shift m e
  have hfull := le_rounded hm a
  rw [roundWithAccuracy_eq]
  by_cases hzero : rounded m e a = 0
  · rw [dif_pos hzero]
    exact iff_of_false (not_isPositive_zero _) fun h => h.1 hzero
  by_cases hcarry : rounded m e a = 2 ^ 24
  · rw [dif_neg hzero, if_pos hcarry]
    by_cases hplace : e + shift m e ≤ 103
    · rw [unpack_pack_of_canonical ⟨by decide, by omega, by omega, Or.inl le_rfl⟩]
      exact iff_of_true ⟨_, _, _, rfl⟩ ⟨hzero, by omega, fun _ => hplace⟩
    · rw [unpack_pack_of_large (by omega)]
      exact iff_of_false (not_isPositive_infinity _) fun h => hplace (h.2.2 hcarry)
  · rw [dif_neg hzero, if_neg hcarry]
    have hle := rounded_le m e a
    by_cases hplace : e + shift m e ≤ 104
    · rw [unpack_pack_of_canonical ⟨by omega, hlo, hplace, hfull.symm⟩]
      exact iff_of_true ⟨_, _, _, rfl⟩ ⟨hzero, hplace, fun h => absurd h hcarry⟩
    · rw [unpack_pack_of_large (by omega)]
      exact iff_of_false (not_isPositive_infinity _) fun h => hplace h.2.1

section

variable {u : ℚ}

/-- Half the smallest number above zero is the largest that is rounded to zero. -/
theorem rounded_eq_zero_iff (hm : Ample m e) (hu : Within (cut m e a) u) :
    rounded m e a = 0 ↔ u * 2 ^ (e + shift m e) ≤ 2 ^ (-150 : ℤ) := by
  have hround : rounded m e a = 0 ↔ u ≤ 1 / 2 := hu.rounded_eq_zero_iff
  have hunit : (2 : ℚ) ^ (-150 : ℤ) = 1 / 2 * 2 ^ (-149 : ℤ) := by norm_num
  constructor
  · intro hzero
    have hplace : e + shift m e = -149 := (le_rounded hm a).resolve_right (by omega)
    rw [hplace, hunit]
    exact mul_le_mul_of_nonneg_right (hround.mp hzero) (by positivity)
  · intro hle
    by_contra hne
    have hhalf : 1 / 2 < u := not_le.mp (mt hround.mpr hne)
    refine absurd hle (not_le.mpr ?_)
    calc (2 : ℚ) ^ (-150 : ℤ)
      _ = 1 / 2 * 2 ^ (-149 : ℤ) := hunit
      _ ≤ 1 / 2 * 2 ^ (e + shift m e) :=
        mul_le_mul_of_nonneg_left (zpow_le_zpow_right₀ one_le_two (le_add_shift m e)) (by norm_num)
      _ < u * 2 ^ (e + shift m e) := mul_lt_mul_of_pos_right hhalf (by positivity)

/-- Half a unit above the largest number is the smallest that is rounded to infinity. -/
theorem place_le_iff (hm : Ample m e) (hu : Within (cut m e a) u) :
    (e + shift m e ≤ 104 ∧ (rounded m e a = 2 ^ 24 → e + shift m e ≤ 103)) ↔
      u * 2 ^ (e + shift m e) < 2 ^ 128 - 2 ^ 103 := by
  have hcarry : rounded m e a ≠ 2 ^ 24 ↔ u < 2 ^ 24 - 1 / 2 := by
    have hround := hu.rounded_le_iff (2 ^ 24 - 1)
    have hle := rounded_le m e a
    change rounded m e a ≤ _ ↔ _ at hround
    norm_num at hround ⊢
    rw [← hround]
    omega
  have hpos : (0 : ℚ) < 2 ^ (e + shift m e) := by positivity
  rcases lt_trichotomy (e + shift m e : ℤ) 104 with hlt | heq | hgt
  · refine iff_of_true ⟨by omega, fun _ => by omega⟩ ?_
    have hbound : u < 2 ^ 24 + 1 := by
      have hmantissa : (cut m e a).mantissa ≤ 2 ^ 24 :=
        (Within.mantissa_le_rounded _).trans (rounded_le m e a)
      have hcast : ((cut m e a).mantissa : ℚ) ≤ 2 ^ 24 := by exact_mod_cast hmantissa
      exact hu.lt_mantissa_add_one.trans_le (by linarith)
    calc u * 2 ^ (e + shift m e)
      _ < (2 ^ 24 + 1) * 2 ^ (e + shift m e) := mul_lt_mul_of_pos_right hbound hpos
      _ ≤ (2 ^ 24 + 1) * 2 ^ (103 : ℤ) := by
        refine mul_le_mul_of_nonneg_left (zpow_le_zpow_right₀ one_le_two ?_) (by norm_num)
        omega
      _ < 2 ^ 128 - 2 ^ 103 := by norm_num
  · rw [heq] at hpos ⊢
    have hscaled : (2 ^ 128 - 2 ^ 103 : ℚ) = (2 ^ 24 - 1 / 2) * 2 ^ (104 : ℤ) := by norm_num
    rw [hscaled, mul_lt_mul_iff_left₀ hpos, ← hcarry]
    exact ⟨fun h hr => absurd (h.2 hr) (by decide), fun h => ⟨le_rfl, fun hr => absurd hr h⟩⟩
  · refine iff_of_false (by omega) (not_lt.mpr ?_)
    have hmantissa := (le_mantissa_cut hm a).resolve_left (by omega)
    have hbound : (2 : ℚ) ^ 23 ≤ u := by
      have hcast : (2 : ℚ) ^ 23 ≤ (cut m e a).mantissa := by exact_mod_cast hmantissa
      exact hcast.trans hu.mantissa_le
    calc (2 ^ 128 - 2 ^ 103 : ℚ)
      _ ≤ 2 ^ 23 * 2 ^ (105 : ℤ) := by norm_num
      _ ≤ 2 ^ 23 * 2 ^ (e + shift m e) :=
        mul_le_mul_of_nonneg_left (zpow_le_zpow_right₀ one_le_two hgt) (by norm_num)
      _ ≤ u * 2 ^ (e + shift m e) := mul_le_mul_of_nonneg_right hbound hpos.le

end

/-- **A number is rounded to a finite one above zero exactly if it is in range.** -/
theorem isPositive_round_iff (hm : Ample m e) {t : ℚ}
    (ht : Within (.ofMantissaAndAccuracy m a) t) :
    IsPositive (unpack .binary32 (pack .binary32 (roundWithAccuracy .binary32 .positive m e a))) ↔
      InRange (t * 2 ^ e) := by
  have hu : Within (cut m e a) (t / 2 ^ shift m e) := ht.shiftRight _
  have hvalue : t * 2 ^ e = t / 2 ^ shift m e * 2 ^ (e + shift m e) := by
    rw [zpow_add₀ two_ne_zero, zpow_natCast]
    field_simp
  rw [isPositive_round_iff_rounded hm, place_le_iff hm hu, ne_eq, rounded_eq_zero_iff hm hu,
    not_le, hvalue, InRange]

end Rounding

end MotorControl.Binary32
