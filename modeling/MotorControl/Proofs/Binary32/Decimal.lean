/-
Which decimal numbers are read as finite numbers above zero.

A decimal number is read by one product or one quotient: a short one from two numbers
of the format, a long one from two integers of any size.  Either has the bits to be
rounded, so what is read is a finite number above zero exactly if the exact value of the
decimal number is in range.
-/
import MotorControl.Binary32.Text
import MotorControl.Proofs.Binary32.Range

namespace MotorControl.Binary32

open Float.Model (Format UnpackedFloat totalExponent)
open Float.Model.UnpackedFloat

/-! ### Products and quotients -/

section

variable {m m' : ℕ} {e e' : ℤ} {h : 0 < m} {h' : 0 < m'}

theorem isPositive_mul_iff (hm : 2 ^ 23 ≤ m * m') :
    IsPositive (unpack .binary32 (pack .binary32
      ((UnpackedFloat.finite .positive m e h).mul .binary32 (.finite .positive m' e' h')))) ↔
      InRange (m * 2 ^ e * (m' * 2 ^ e')) := by
  have hvalue : (m * 2 ^ e * (m' * 2 ^ e') : ℚ) = (m * m' : ℕ) * 2 ^ (e + e') := by
    rw [zpow_add₀ two_ne_zero]
    push_cast
    ring
  rw [hvalue]
  exact isPositive_round_iff (Or.inl hm) (within_exact _)

/-- A quotient is taken to 24 bits, or down to `2 ^ -149`. -/
theorem ample_divCore (h : 0 < m) (h' : 0 < m') :
    Ample (divCore .binary32 m e m' e').1 (divCore .binary32 m e m' e').2.1 := by
  simp only [divCore, Format.targetExponent, totalExponent, Format.mantissaBits, Format.minExponent]
  by_cases hlow : (m.log2 + 1 + e - (m'.log2 + 1 + e') - 24 : ℤ) ≤ -149
  · exact Or.inr (by omega)
  · refine Or.inl ((Nat.le_div_iff_mul_le h').mpr ?_)
    generalize hshift : Int.toNat _ = k
    have hle : m'.log2 + 24 ≤ m.log2 + k := by omega
    calc 2 ^ 23 * m'
      _ ≤ 2 ^ 23 * 2 ^ (m'.log2 + 1) := Nat.mul_le_mul_left _ Nat.lt_log2_self.le
      _ = 2 ^ (m'.log2 + 24) := by rw [← pow_add]; congr 1; omega
      _ ≤ 2 ^ (m.log2 + k) := Nat.pow_le_pow_right two_pos hle
      _ = 2 ^ m.log2 * 2 ^ k := pow_add ..
      _ ≤ m * 2 ^ k := Nat.mul_le_mul_right _ (Nat.log2_self_le h.ne')
      _ = m <<< k := (Nat.shiftLeft_eq ..).symm

/-- What the division keeps of a quotient tells the exact one. -/
theorem within_divCore (m : ℕ) (e e' : ℤ) (h' : 0 < m') : ∃ t : ℚ,
    Within (.ofMantissaAndAccuracy (divCore .binary32 m e m' e').1 (divCore .binary32 m e m' e').2.2)
      t ∧ t * 2 ^ (divCore .binary32 m e m' e').2.1 = m * 2 ^ e / (m' * 2 ^ e') := by
  let target := (divCore .binary32 m e m' e').2.1
  let k := (e - e' - target).toNat
  refine ⟨(m <<< k : ℕ) / m', within_div _ h', ?_⟩
  have hk : e - e' = target + k := by
    have hle : target ≤ e - e' := Int.min_le_left _ _
    omega
  show ((m <<< k : ℕ) / m' * 2 ^ target : ℚ) = _
  rw [mul_div_mul_comm, ← zpow_sub₀ two_ne_zero, hk, zpow_add₀ two_ne_zero, zpow_natCast,
    Nat.shiftLeft_eq]
  push_cast
  ring

theorem isPositive_div_iff :
    IsPositive (unpack .binary32 (pack .binary32
      ((UnpackedFloat.finite .positive m e h).div .binary32 (.finite .positive m' e' h')))) ↔
      InRange (m * 2 ^ e / (m' * 2 ^ e')) := by
  obtain ⟨t, ht, hvalue⟩ := within_divCore m e e' h'
  rw [← hvalue]
  exact isPositive_round_iff (ample_divCore h h') ht

end

/-! ### Long decimal numbers -/

section

variable {m : ℕ} {x : ℤ}

/-- Powers of ten that large are not looked at. -/
theorem not_inRange_of_large (hm : 0 < m) (hx : 256 < x) : ¬ InRange (m * 10 ^ x) := by
  rintro ⟨-, hlt⟩
  refine absurd hlt (not_lt.mpr ?_)
  have hone : (1 : ℚ) ≤ m := by exact_mod_cast hm
  calc (2 ^ 128 - 2 ^ 103 : ℚ)
    _ ≤ 1 * 10 ^ (256 : ℤ) := by norm_num
    _ ≤ m * 10 ^ x := mul_le_mul hone (zpow_le_zpow_right₀ (by norm_num) hx.le) (by norm_num)
      (by positivity)

/-- Nor are those that are so small that the digits cannot make up for it. -/
theorem not_inRange_of_small (hx : x < -(256 + m.log2)) : ¬ InRange (m * 10 ^ x) := by
  rintro ⟨hlt, -⟩
  refine absurd hlt (not_lt.mpr ?_)
  have hpow : (10 : ℚ) ^ x ≤ 2 ^ x := by
    obtain ⟨n, rfl⟩ : ∃ n : ℕ, x = -n := ⟨(-x).toNat, by omega⟩
    rw [zpow_neg, zpow_neg, zpow_natCast, zpow_natCast]
    exact inv_anti₀ (by positivity) (pow_le_pow_left₀ two_pos.le (by norm_num) n)
  have hm : (m : ℚ) ≤ 2 ^ ((m.log2 : ℤ) + 1) := by exact_mod_cast Nat.lt_log2_self.le
  calc (m * 10 ^ x : ℚ)
    _ ≤ 2 ^ ((m.log2 : ℤ) + 1) * 2 ^ x := mul_le_mul hm hpow (by positivity) (by positivity)
    _ = 2 ^ ((m.log2 : ℤ) + 1 + x) := (zpow_add₀ two_ne_zero ..).symm
    _ ≤ 2 ^ (-150 : ℤ) := zpow_le_zpow_right₀ one_le_two (by omega)

theorem isPositive_ofScientific_iff (hm : 0 < m) :
    IsPositive (unpack .binary32 (pack .binary32 (UnpackedFloat.ofScientific .binary32 m x))) ↔
      InRange (m * 10 ^ x) := by
  unfold UnpackedFloat.ofScientific
  rw [dif_neg hm.ne']
  by_cases hlarge : x > 2 ^ Format.binary32.exponentBits
  · rw [if_pos hlarge]
    exact iff_of_false (not_isPositive_infinity .positive) (not_inRange_of_large hm hlarge)
  rw [if_neg hlarge]
  by_cases hsmall : x < -((2 ^ Format.binary32.exponentBits : ℤ) + m.log2)
  · rw [if_pos hsmall]
    exact iff_of_false (not_isPositive_zero .positive) (not_inRange_of_small hsmall)
  rw [if_neg hsmall]
  by_cases hsign : 0 ≤ x
  · obtain ⟨n, rfl⟩ := Int.eq_ofNat_of_zero_le hsign
    have hample : 2 ^ 23 ≤ m <<< Format.binary32.mantissaBits * 10 ^ (n : ℤ).toNat := by
      rw [Nat.shiftLeft_eq]
      calc 2 ^ 23
        _ ≤ 1 * 2 ^ 24 * 1 := by norm_num
        _ ≤ m * 2 ^ 24 * 10 ^ (n : ℤ).toNat :=
          Nat.mul_le_mul (Nat.mul_le_mul_right _ hm) (Nat.one_le_pow _ _ (by norm_num))
    have hvalue : (m * 10 ^ (n : ℤ) : ℚ) = (m <<< Format.binary32.mantissaBits : ℕ) *
        2 ^ (-Format.binary32.mantissaBits : ℤ) * ((10 ^ (n : ℤ).toNat : ℕ) * 2 ^ (0 : ℤ)) := by
      rw [Nat.shiftLeft_eq, zpow_neg, zpow_natCast, zpow_natCast, Int.toNat_natCast]
      push_cast
      field_simp
    rw [if_pos hsign, isPositive_mul_iff hample, hvalue]
  · obtain ⟨n, rfl⟩ : ∃ n : ℕ, x = -n := ⟨(-x).toNat, by omega⟩
    have hvalue : (m * 10 ^ (-n : ℤ) : ℚ) =
        m * 2 ^ (0 : ℤ) / ((10 ^ (- -(n : ℤ)).toNat : ℕ) * 2 ^ (0 : ℤ)) := by
      rw [neg_neg, Int.toNat_natCast, zpow_neg, zpow_natCast]
      push_cast
      field_simp
    rw [if_neg hsign, isPositive_div_iff, hvalue]

end

/-! ### Short decimal numbers -/

/-- A number of the format is rounded to itself. -/
theorem round_canonical {s : Sign} {m : ℕ} {e : ℤ} (hm : Canonical m e) (h : 0 < m) :
    roundWithAccuracy .binary32 s m e .exact = .finite s m e h :=
  roundWithAccuracy_of_canonical (hm.full.imp_right le_of_eq) (within_exact m) hm h rfl

/-- A natural number of 23 bits is one of the format. -/
theorem parts_toFloat32 {m : ℕ} (h : 0 < m) (hlt : m < 2 ^ 23) :
    ∃ (m' : ℕ) (e : ℤ) (h' : 0 < m'), parts m.toUInt64.toFloat32 = .finite .positive m' e h' ∧
      2 ^ 23 ≤ m' ∧ (m' * 2 ^ e : ℚ) = m := by
  have hlog : m.log2 < 23 := (Nat.log2_lt h.ne').mpr hlt
  let k := 23 - m.log2
  have hfull : 2 ^ 23 ≤ m * 2 ^ k := by
    calc 2 ^ 23
      _ = 2 ^ m.log2 * 2 ^ k := by rw [← pow_add]; congr 1; omega
      _ ≤ m * 2 ^ k := Nat.mul_le_mul_right _ (Nat.log2_self_le h.ne')
  have hfit : m * 2 ^ k < 2 ^ 24 := by
    calc m * 2 ^ k
      _ < 2 ^ (m.log2 + 1) * 2 ^ k := Nat.mul_lt_mul_of_pos_right Nat.lt_log2_self (Nat.two_pow_pos k)
      _ = 2 ^ 24 := by rw [← pow_add]; congr 1; omega
  have hpos : 0 < m * 2 ^ k := by positivity
  have hcanonical : Canonical (m * 2 ^ k) (-k) := ⟨hfit, by omega, by omega, Or.inl hfull⟩
  have hvalue : ((m * 2 ^ k : ℕ) * 2 ^ (-k : ℤ) : ℚ) = m := by
    rw [zpow_neg, zpow_natCast]
    push_cast
    field_simp
  refine ⟨m * 2 ^ k, -k, hpos, ?_, hfull, hvalue⟩
  have hword : m.toUInt64.toNat = m := UInt64.toNat_ofNat_of_lt (hlt.trans (by decide))
  have hnormalize : UnpackedFloat.normalize .binary32 m 0 .positive =
      .finite .positive (m * 2 ^ k) (-k) hpos := by
    have hcompare : compare (m : ℤ) 0 = .gt := Int.compare_eq_gt.mpr (by exact_mod_cast h)
    have htarget : Format.binary32.targetExponent (totalExponent m 0) = -k := by
      rw [targetExponent_totalExponent]
      omega
    simp only [UnpackedFloat.normalize, hcompare, UnpackedFloat.round, Int.toNat_natCast, htarget,
      decreaseExponent]
    rw [show (0 - -(k : ℤ)).toNat = k by omega, Nat.shiftLeft_eq, zero_sub]
    exact round_canonical hcanonical hpos
  show unpack .binary32 (pack .binary32 (.normalize .binary32 m.toUInt64.toNat 0 .positive)) = _
  rw [hword, hnormalize, unpack_pack_of_canonical hcanonical]

/-- The power of ten that the table has in the place `n`. -/
def powerOfTen (n : Fin 11) : Float32 :=
  have hn : n.val < Float32.exactlyRepresentablePowersOfTen.size := n.isLt
  Float32.exactlyRepresentablePowersOfTen[n.val]

theorem parts_powerOfTen (n : Fin 11) : ∃ (m : ℕ) (e : ℤ) (h : 0 < m),
    parts (powerOfTen n) = .finite .positive m e h ∧ (m * 2 ^ e : ℚ) = 10 ^ n.val := by
  have hlog : (5 ^ n.val).log2 ≤ 23 := by
    refine Nat.le_of_lt_succ (log2_lt_of_lt (by decide) ?_)
    exact (Nat.pow_le_pow_right (by decide) (Nat.le_of_lt_succ n.isLt)).trans_lt (by decide)
  refine ⟨5 ^ n.val * 2 ^ (23 - (5 ^ n.val).log2), n.val + (5 ^ n.val).log2 - 23, by positivity,
    by fin_cases n <;> rfl, ?_⟩
  have hexponent : (n.val + (5 ^ n.val).log2 - 23 : ℤ) = n.val - (23 - (5 ^ n.val).log2 : ℕ) := by
    omega
  rw [hexponent, zpow_sub₀ two_ne_zero, zpow_natCast, zpow_natCast]
  push_cast
  rw [show (10 : ℚ) = 5 * 2 by norm_num, mul_pow]
  field_simp

section

variable {m : ℕ} {n : Fin 11}

theorem not_inRange_zero : ¬ InRange 0 := fun h =>
  absurd h.1 (not_lt.mpr (by positivity))

theorem isPositive_short_mul_iff (hlt : m < 2 ^ 23) :
    IsPositive (parts (m.toUInt64.toFloat32 * powerOfTen n)) ↔ InRange (m * 10 ^ n.val) := by
  obtain ⟨m', e', h', hten, hvalue'⟩ := parts_powerOfTen n
  show IsPositive (unpack .binary32 (pack .binary32
    ((parts m.toUInt64.toFloat32).mul .binary32 (parts (powerOfTen n))))) ↔ _
  rw [hten, ← hvalue']
  rcases m.eq_zero_or_pos with rfl | hm
  · rw [Nat.cast_zero, zero_mul]
    exact iff_of_false (not_isPositive_zero _) not_inRange_zero
  · obtain ⟨m₀, e, h, hm₀, hfull, hvalue⟩ := parts_toFloat32 hm hlt
    rw [hm₀, ← hvalue]
    exact isPositive_mul_iff (hfull.trans (Nat.le_mul_of_pos_right m₀ h'))

theorem isPositive_short_div_iff (hlt : m < 2 ^ 23) :
    IsPositive (parts (m.toUInt64.toFloat32 / powerOfTen n)) ↔ InRange (m / 10 ^ n.val) := by
  obtain ⟨m', e', h', hten, hvalue'⟩ := parts_powerOfTen n
  show IsPositive (unpack .binary32 (pack .binary32
    ((parts m.toUInt64.toFloat32).div .binary32 (parts (powerOfTen n))))) ↔ _
  rw [hten, ← hvalue']
  rcases m.eq_zero_or_pos with rfl | hm
  · rw [Nat.cast_zero, zero_div]
    exact iff_of_false (not_isPositive_zero _) not_inRange_zero
  · obtain ⟨m₀, e, h, hm₀, -, hvalue⟩ := parts_toFloat32 hm hlt
    rw [hm₀, ← hvalue]
    exact isPositive_div_iff

theorem sign?_div_finite {spec : Format} {a : UnpackedFloat} {m : ℕ} {e : ℤ} {h : 0 < m} :
    sign? (a.div spec (.finite .positive m e h)) = sign? a := by
  cases a with
  | notANumber => rfl
  | infinity s | zero s => cases s <;> rfl
  | finite s m' e' h' => cases s <;> exact sign?_roundWithAccuracy

theorem sign?_toFloat32 (w : UInt64) : sign? (parts w.toFloat32) = some .positive :=
  (sign?_unpack_pack _).trans (sign?_ofUInt64 w)

theorem sign?_short_mul : sign? (parts (m.toUInt64.toFloat32 * powerOfTen n)) = some .positive := by
  obtain ⟨m', e', h', hten, -⟩ := parts_powerOfTen n
  show sign? (unpack .binary32 (pack .binary32
    ((parts m.toUInt64.toFloat32).mul .binary32 (parts (powerOfTen n))))) = _
  rw [sign?_unpack_pack, hten, unpacked_mul_comm, sign?_finite_mul, sign?_toFloat32]

theorem sign?_short_div : sign? (parts (m.toUInt64.toFloat32 / powerOfTen n)) = some .positive := by
  obtain ⟨m', e', h', hten, -⟩ := parts_powerOfTen n
  show sign? (unpack .binary32 (pack .binary32
    ((parts m.toUInt64.toFloat32).div .binary32 (parts (powerOfTen n))))) = _
  rw [sign?_unpack_pack, hten, sign?_div_finite, sign?_toFloat32]

end

/-! ### Every decimal number -/

/-- No decimal number is read with the negative sign, whether or not it is in range. -/
theorem sign?_ofDecimal (m : ℕ) (x : ℤ) : sign? (parts (ofDecimal m x)) = some .positive := by
  unfold ofDecimal Float32.ofScientific
  by_cases hshort : m < 2 ^ 23 ∧ x.natAbs ≤ 10
  · rw [dif_pos hshort]
    split
    · exact sign?_short_div (n := ⟨x.natAbs, Nat.lt_succ_of_le hshort.2⟩)
    · exact sign?_short_mul (n := ⟨x.natAbs, Nat.lt_succ_of_le hshort.2⟩)
  · rw [dif_neg hshort]
    exact (sign?_unpack_pack _).trans (sign?_ofScientific _ _)

/-- **A decimal number is read as a finite number above zero exactly if it is in range.** -/
theorem isPositive_ofDecimal_iff (m : ℕ) (x : ℤ) :
    IsPositive (parts (ofDecimal m x)) ↔ InRange (m * 10 ^ x) := by
  unfold ofDecimal Float32.ofScientific
  by_cases hshort : m < 2 ^ 23 ∧ x.natAbs ≤ 10
  · rw [dif_pos hshort]
    by_cases hneg : x < 0
    · have hvalue : (m * 10 ^ x : ℚ) = m / 10 ^ x.natAbs := by
        rw [← zpow_natCast, Int.natCast_natAbs, abs_of_neg hneg, zpow_neg, div_inv_eq_mul]
      rw [if_pos (decide_eq_true hneg), hvalue]
      exact isPositive_short_div_iff (n := ⟨x.natAbs, Nat.lt_succ_of_le hshort.2⟩) hshort.1
    · have hvalue : (m * 10 ^ x : ℚ) = m * 10 ^ x.natAbs := by
        rw [← zpow_natCast, Int.natCast_natAbs, abs_of_nonneg (not_lt.mp hneg)]
      rw [if_neg (by simpa using hneg), hvalue]
      exact isPositive_short_mul_iff (n := ⟨x.natAbs, Nat.lt_succ_of_le hshort.2⟩) hshort.1
  · rw [dif_neg hshort]
    have hexponent : (if decide (x < 0) then Int.negOfNat x.natAbs else Int.ofNat x.natAbs) = x := by
      by_cases hneg : x < 0
      · rw [if_pos (decide_eq_true hneg), Int.negOfNat_eq]
        show -(x.natAbs : ℤ) = x
        omega
      · rw [if_neg (by simpa using hneg)]
        show (x.natAbs : ℤ) = x
        omega
    show IsPositive (unpack .binary32 (pack .binary32 (UnpackedFloat.ofScientific .binary32 m _))) ↔ _
    rw [hexponent]
    rcases m.eq_zero_or_pos with rfl | hm
    · rw [Nat.cast_zero, zero_mul]
      exact iff_of_false (not_isPositive_zero .positive) not_inRange_zero
    · exact isPositive_ofScientific_iff hm

end MotorControl.Binary32
