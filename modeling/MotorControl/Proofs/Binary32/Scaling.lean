/-
Scaling down does not overflow.

A quotient of two positive numbers, the smaller by the larger, is rounded to one at
most, and a finite number times such a quotient is finite.  Both come from what
rounding does to a mantissa: it shifts it right and adds one at most, and it adds
nothing where only zeros are shifted out.  So a mantissa that was not above a whole
number of the last place it keeps is not above that number after rounding.
-/
import MotorControl.Proofs.Binary32.Finite

namespace MotorControl.Binary32

open Float.Model (Format UnpackedFloat totalExponent)
open Float.Model.UnpackedFloat

/-! ### Shifting and rounding a mantissa -/

theorem shiftRight_succ (em : ExtendedMantissa) (k : Nat) :
    em >>> (k + 1) = (em >>> k).shiftRightOne := rfl

theorem mantissa_shiftRight (em : ExtendedMantissa) (k : Nat) :
    (em >>> k).mantissa = em.mantissa / 2 ^ k := by
  induction k with
  | zero => exact (Nat.div_one _).symm
  | succ k ih =>
      rw [shiftRight_succ, Nat.pow_succ, ← Nat.div_div_eq_div_mul, ← ih]
      rfl

theorem mantissa_ofMantissaAndAccuracy (m : Nat) (a : Accuracy) :
    (ExtendedMantissa.ofMantissaAndAccuracy m a).mantissa = m := by
  cases a with
  | exact => rfl
  | inexact o => cases o <;> rfl

/-- Where only zeros are shifted out, nothing is left to round. -/
theorem shiftRight_mul (q k : Nat) :
    (⟨q * 2 ^ k, false, false⟩ : ExtendedMantissa) >>> k = ⟨q, false, false⟩ := by
  induction k generalizing q with
  | zero => rw [Nat.pow_zero, Nat.mul_one]; rfl
  | succ k ih =>
      rw [shiftRight_succ, Nat.pow_succ', ← Nat.mul_assoc, ih (q * 2)]
      simp [ExtendedMantissa.shiftRightOne]

theorem roundedMantissa_le (em : ExtendedMantissa) : em.roundedMantissa ≤ em.mantissa + 1 := by
  obtain ⟨m, round, sticky⟩ := em
  show Accuracy.roundToNearestEven m _ ≤ m + 1
  cases round <;> cases sticky <;>
    simp only [ExtendedMantissa.accuracy, Accuracy.roundToNearestEven] <;> omega

/-- Rounding does not pass a whole number. -/
theorem roundedMantissa_shiftRight_le {m q k : Nat} (h : m ≤ q * 2 ^ k) :
    ((⟨m, false, false⟩ : ExtendedMantissa) >>> k).roundedMantissa ≤ q := by
  have hfloor : m / 2 ^ k ≤ q := Nat.div_le_of_le_mul (by rwa [Nat.mul_comm])
  rcases Nat.lt_or_eq_of_le hfloor with hlt | heq
  · have hround := roundedMantissa_le ((⟨m, false, false⟩ : ExtendedMantissa) >>> k)
    rw [mantissa_shiftRight] at hround
    exact Nat.le_trans hround hlt
  · have hm : m = q * 2 ^ k := Nat.le_antisymm h (heq ▸ Nat.div_mul_le_self m (2 ^ k))
    rw [hm, shiftRight_mul]
    exact Nat.le_refl q

theorem log2_lt_of_lt {m k : Nat} (hk : 0 < k) (h : m < 2 ^ k) : m.log2 < k := by
  by_cases hm : m = 0
  · rw [hm]
    exact hk
  · exact (Nat.log2_lt hm).mpr h

/-! ### Rounding to the format -/

/-- By how much a mantissa is shifted to have at most 24 bits and no bit below `2 ^ -149`. -/
def shift (m : Nat) (e : Int) : Nat := (max (m.log2 + e - 23) (-149) - e).toNat

theorem le_add_shift (m : Nat) (e : Int) : -149 ≤ e + shift m e := by
  unfold shift
  omega

theorem targetExponent_totalExponent (m : Nat) (e : Int) :
    Format.binary32.targetExponent (totalExponent m e) = max (m.log2 + e - 23) (-149) := by
  simp only [Format.targetExponent, totalExponent, Format.mantissaBits, Format.minExponent]
  omega

theorem shiftToTargetExponent_eq (m : Nat) (e : Int) (a : Accuracy) :
    shiftToTargetExponent .binary32 m e a =
      (ExtendedMantissa.ofMantissaAndAccuracy m a >>> shift m e, e + shift m e) := by
  unfold shiftToTargetExponent
  rw [targetExponent_totalExponent]
  rfl

/-- The mantissa that is left after rounding, before the last shift. -/
def rounded (m : Nat) (e : Int) (a : Accuracy) : Nat :=
  (ExtendedMantissa.ofMantissaAndAccuracy m a >>> shift m e).roundedMantissa

/-- A mantissa keeps 24 bits, and rounding may carry it to the next power of two. -/
theorem rounded_le (m : Nat) (e : Int) (a : Accuracy) : rounded m e a ≤ 2 ^ 24 := by
  refine Nat.le_trans (roundedMantissa_le _) ?_
  rw [mantissa_shiftRight, mantissa_ofMantissaAndAccuracy]
  refine Nat.div_lt_of_lt_mul ?_
  rw [← Nat.pow_add]
  refine Nat.lt_of_lt_of_le Nat.lt_log2_self (Nat.pow_le_pow_right (by decide) ?_)
  unfold shift
  omega

/-- What is rounded becomes zero, or a mantissa that was shifted once more. -/
theorem roundWithAccuracy_cases (s : Sign) (m : Nat) (e : Int) (a : Accuracy) :
    let r := rounded m e a
    let k := shift r (e + shift m e)
    roundWithAccuracy .binary32 s m e a = .zero s ∨
      ∃ h, roundWithAccuracy .binary32 s m e a = .finite s (r / 2 ^ k) (e + shift m e + k) h := by
  intro r k
  unfold roundWithAccuracy
  rw [shiftToTargetExponent_eq]
  dsimp only
  rw [shiftToTargetExponent_eq]
  dsimp only
  rw [mantissa_shiftRight]
  split
  · exact Or.inl rfl
  · rename_i hpos
    exact Or.inr ⟨Nat.pos_of_ne_zero hpos, rfl⟩

/-! ### Packed numbers -/

theorem toNat_cons_one (m : BitVec 23) : (1#1 ++ m).toNat = 2 ^ 23 + m.toNat := by
  rw [BitVec.toNat_append, ← Nat.shiftLeft_add_eq_or_of_lt m.isLt]
  rfl

/-- What the fields of a packed number say: with an exponent of all ones it is not finite, with the
exponent zero the field holds the whole mantissa, and otherwise all of it but the highest bit. -/
theorem unpack_cases (b : BitVec Format.binary32.numBits) :
    ((unpackExponent b).toNat = 255 ∧ (unpack .binary32 b).isFinite = false) ∨
    ((unpackExponent b).toNat = 0 ∧
      (((unpackMantissa b).toNat = 0 ∧ ∃ s, unpack .binary32 b = .zero s) ∨
      ∃ s h, unpack .binary32 b = .finite s (unpackMantissa b).toNat (-149) h)) ∨
    (0 < (unpackExponent b).toNat ∧ (unpackExponent b).toNat < 255 ∧
      ∃ s h, unpack .binary32 b =
        .finite s (2 ^ 23 + (unpackMantissa b).toNat) ((unpackExponent b).toNat - 150) h) := by
  have hbias : (Format.binary32.exponentBias : Int) = 127 := rfl
  have hwidth : (unpackExponent b).toNat < 256 := (unpackExponent b).isLt
  unfold unpack
  dsimp only
  rw [hbias]
  by_cases hones : unpackExponent b = -1#_
  · refine Or.inl ⟨congrArg BitVec.toNat hones, ?_⟩
    rw [if_pos hones]
    split <;> rfl
  · rw [if_neg hones]
    refine Or.inr ?_
    by_cases hzero : unpackExponent b = 0#_
    · refine Or.inl ⟨congrArg BitVec.toNat hzero, ?_⟩
      rw [if_pos hzero]
      split
      · rename_i hmantissa
        exact Or.inl ⟨congrArg BitVec.toNat hmantissa, _, rfl⟩
      · rename_i hmantissa
        rw [hzero]
        exact Or.inr ⟨_, Nat.pos_of_ne_zero fun heq => hmantissa (BitVec.eq_of_toNat_eq heq), rfl⟩
    · rw [if_neg hzero]
      have hne : (unpackExponent b).toNat ≠ 255 := fun heq => hones (BitVec.eq_of_toNat_eq heq)
      have hpos : (unpackExponent b).toNat ≠ 0 := fun heq => hzero (BitVec.eq_of_toNat_eq heq)
      refine Or.inr ⟨by omega, by omega, Sign.ofBitVec (unpackSign b), by omega, ?_⟩
      simp only [toNat_cons_one]
      rfl

/-- Packing a finite number whose exponent fits keeps it if the highest of its 24 bits is set.
Otherwise the lower 23 bits are kept, and the smallest exponent is read with them. -/
theorem unpack_pack_spec {s : Sign} {m : Nat} {e : Int} {h : 0 < m} (hlo : -149 ≤ e)
    (hhi : e ≤ 104) :
    let b := pack .binary32 (.finite s m e h)
    (m.log2 = 23 ∧ ∃ s' h', unpack .binary32 b = .finite s' m e h') ∨
      (m.log2 ≠ 23 ∧ ((m % 2 ^ 23 = 0 ∧ ∃ s', unpack .binary32 b = .zero s') ∨
        ∃ s' h', unpack .binary32 b = .finite s' (m % 2 ^ 23) (-149) h')) := by
  intro b
  have hbias : (Format.binary32.exponentBias : Int) = 127 := rfl
  unfold b pack
  dsimp only
  rw [hbias]
  split
  · omega
  · split
    · rename_i hnormal
      have hlog : m.log2 = 23 := Nat.succ.inj hnormal
      have hlow : 2 ^ 23 ≤ m := hlog ▸ Nat.log2_self_le (Nat.ne_of_gt h)
      have hhigh : m < 2 ^ (23 + 1) := hlog ▸ Nat.lt_log2_self
      have hexponent : (BitVec.ofNat 8 (e + 127 + 23).toNat).toNat = (e + 150).toNat := by
        rw [BitVec.toNat_ofNat]
        omega
      have hmantissa : 2 ^ 23 + (BitVec.ofNat 23 m).toNat = m := by
        rw [BitVec.toNat_ofNat]
        omega
      have hcases := unpack_cases
        (packComponents .binary32 s (.ofNat 8 (e + 127 + 23).toNat) (.ofNat 23 m))
      rw [unpackExponent_packComponents, unpackMantissa_packComponents, hexponent] at hcases
      rcases hcases with ⟨hones, -⟩ | ⟨hzero, -⟩ | ⟨-, -, s', h', hfinite⟩
      · omega
      · omega
      · have hunbiased : ((e + 150).toNat : Int) - 150 = e := by omega
        simp only [hmantissa, hunbiased] at hfinite
        exact Or.inl ⟨hlog, s', h, hfinite⟩
    · rename_i hsubnormal
      have hlog : m.log2 ≠ 23 := fun hlog => hsubnormal (congrArg Nat.succ hlog)
      have hcases := unpack_cases (packComponents .binary32 s 0#_ (.ofNat 23 m))
      rw [unpackExponent_packComponents, unpackMantissa_packComponents, BitVec.toNat_ofNat]
        at hcases
      rcases hcases with ⟨hones, -⟩ | ⟨-, hzero | hfinite⟩ | ⟨hpos, -⟩
      · exact absurd hones (by decide)
      · exact Or.inr ⟨hlog, Or.inl hzero⟩
      · exact Or.inr ⟨hlog, Or.inr hfinite⟩
      · exact absurd hpos (by decide)

/-- Packing a finite number whose exponent fits leaves one that is not larger. -/
theorem unpack_pack_cases {s : Sign} {m : Nat} {e : Int} {h : 0 < m} (hlo : -149 ≤ e)
    (hhi : e ≤ 104) :
    (∃ s', unpack .binary32 (pack .binary32 (.finite s m e h)) = .zero s') ∨
      ∃ s' m' e' h', unpack .binary32 (pack .binary32 (.finite s m e h)) = .finite s' m' e' h' ∧
        m' ≤ m ∧ e' ≤ e := by
  rcases unpack_pack_spec (s := s) (h := h) hlo hhi with
    ⟨-, s', h', hfinite⟩ | ⟨-, ⟨-, hzero⟩ | ⟨s', h', hfinite⟩⟩
  · exact Or.inr ⟨s', m, e, h', hfinite, Nat.le_refl m, Int.le_refl e⟩
  · exact Or.inl hzero
  · exact Or.inr ⟨s', _, _, h', hfinite, Nat.mod_le m _, hlo⟩

/-- The mantissa and the exponent of a number are within the format, and no bit is wasted. -/
structure Canonical (m : Nat) (e : Int) : Prop where
  mantissa_lt : m < 2 ^ 24
  le_exponent : -149 ≤ e
  exponent_le : e ≤ 104
  full : 2 ^ 23 ≤ m ∨ e = -149

theorem canonical_of_parts {x : Float32} {s : Sign} {m : Nat} {e : Int} {h : 0 < m}
    (hx : parts x = .finite s m e h) : Canonical m e := by
  have hwidth (b : BitVec Format.binary32.numBits) : (unpackMantissa b).toNat < 2 ^ 23 :=
    (unpackMantissa b).isLt
  have hmantissa := hwidth x.toModel.toBits.toBitVec
  have hcases := unpack_cases x.toModel.toBits.toBitVec
  rw [show unpack .binary32 x.toModel.toBits.toBitVec = _ from hx] at hcases
  rcases hcases with ⟨-, hinfinite⟩ | ⟨-, ⟨-, _, hzero⟩ | ⟨_, _, hfinite⟩⟩ |
    ⟨hpos, hlt, _, _, hfinite⟩
  · cases hinfinite
  · cases hzero
  · cases hfinite
    exact ⟨by omega, by omega, by omega, Or.inr rfl⟩
  · cases hfinite
    exact ⟨by omega, by omega, by omega, Or.inl (Nat.le_add_right _ _)⟩

/-! ### What does not overflow -/

theorem log2_lt_of_le_largest {m k : Nat} (h : m ≤ (2 ^ 24 - 1) * 2 ^ k) : m.log2 < 24 + k := by
  refine log2_lt_of_lt (by omega) (Nat.lt_of_le_of_lt h ?_)
  rw [Nat.pow_add]
  exact Nat.mul_lt_mul_of_pos_right (by decide) (Nat.two_pow_pos k)

/-- An exact number that is not above the largest of the format does not overflow. -/
theorem isFinite_round {s : Sign} {m : Nat} {e : Int} (he : e ≤ 104)
    (hm : m ≤ (2 ^ 24 - 1) * 2 ^ (104 - e).toNat) :
    (unpack .binary32 (pack .binary32 (roundWithAccuracy .binary32 s m e .exact))).isFinite
      = true := by
  have hlog := log2_lt_of_le_largest hm
  have hfirst : e + shift m e ≤ 104 := by
    unfold shift
    omega
  -- In units of the last place kept, the largest number is a whole one.
  have hround : rounded m e .exact ≤ (2 ^ 24 - 1) * 2 ^ (104 - (e + shift m e)).toNat := by
    refine roundedMantissa_shiftRight_le ?_
    rw [Nat.mul_assoc, ← Nat.pow_add]
    have hsum : (104 - (e + shift m e)).toNat + shift m e = (104 - e).toNat := by omega
    rwa [hsum]
  have hrlog := log2_lt_of_le_largest hround
  rcases roundWithAccuracy_cases s m e .exact with hzero | ⟨h, hfinite⟩
  · rw [hzero]
    cases s <;> rfl
  · have hlo := le_add_shift m e
    have hlast : e + shift m e + shift (rounded m e .exact) (e + shift m e) ≤ 104 := by
      rw [shift.eq_def (rounded m e .exact)]
      omega
    rw [hfinite]
    rcases unpack_pack_cases (s := s) (h := h) (by omega) hlast with
      ⟨_, hzero⟩ | ⟨_, _, _, _, heq, -⟩
    · rw [hzero]
      rfl
    · rw [heq]
      rfl

/-! ### At most one -/

/-- The magnitude is one at most. -/
def AtMostOne : UnpackedFloat → Prop
  | .zero _ => True
  | .finite _ m e _ => e ≤ 0 ∧ m ≤ 2 ^ (-e).toNat
  | _ => False

theorem atMostOne_pack {s : Sign} {m : Nat} {e : Int} {h : 0 < m} (hlo : -149 ≤ e) (he : e ≤ 0)
    (hm : m ≤ 2 ^ (-e).toNat) :
    AtMostOne (unpack .binary32 (pack .binary32 (.finite s m e h))) := by
  rcases unpack_pack_cases (s := s) (h := h) hlo (by omega) with
    ⟨_, hzero⟩ | ⟨_, m', e', _, heq, hm', he'⟩
  · rw [hzero]
    exact trivial
  · rw [heq]
    refine ⟨by omega, Nat.le_trans hm' (Nat.le_trans hm ?_)⟩
    exact Nat.pow_le_pow_right (by decide) (by omega)

/-- Units of `2 ^ -24` or smaller are kept, and rounding makes `2 ^ 24` of them at most. -/
theorem atMostOne_round {s : Sign} {m : Nat} {e : Int} {a : Accuracy} (he : e ≤ -24)
    (hm : m < 2 ^ (-e).toNat) :
    AtMostOne (unpack .binary32 (pack .binary32 (roundWithAccuracy .binary32 s m e a))) := by
  have hlog : m.log2 < (-e).toNat := log2_lt_of_lt (by omega) hm
  have hlo := le_add_shift m e
  have hfirst : e + shift m e ≤ -24 := by
    unfold shift
    omega
  have hround := rounded_le m e a
  rcases roundWithAccuracy_cases s m e a with hzero | ⟨h, hfinite⟩
  · rw [hzero]
    cases s <;> exact trivial
  · have hrlog : (rounded m e a).log2 < 25 :=
      log2_lt_of_lt (by decide) (Nat.lt_of_le_of_lt hround (by decide))
    have hlast : shift (rounded m e a) (e + shift m e) ≤ 1 := by
      rw [shift.eq_def (rounded m e a)]
      omega
    have hshifted : rounded m e a / 2 ^ shift (rounded m e a) (e + shift m e) ≤
        2 ^ (-(e + shift m e + shift (rounded m e a) (e + shift m e))).toNat := by
      refine Nat.le_trans (Nat.div_le_div_right hround) ?_
      rw [Nat.pow_div (by omega) (by decide)]
      exact Nat.pow_le_pow_right (by decide) (by omega)
    rw [hfinite]
    exact atMostOne_pack (by omega) (by omega) hshifted

theorem unpack_pack_zero (s : Sign) : unpack .binary32 (pack .binary32 (.zero s)) = .zero s := by
  cases s <;> rfl

/-! ### Quotients -/

section Quotient

variable {m m' : Nat} {e e' : Int}

/-- Where the exponents differ, the larger number has its full mantissa. -/
theorem full_of_lt (hm : Canonical m e) (hm' : Canonical m' e') (he : e < e') : 2 ^ 23 ≤ m' := by
  have hlo := hm.le_exponent
  have hfull := hm'.full
  omega

variable (hm : Canonical m e) (hm' : Canonical m' e') (hlt : e < e' ∨ e = e' ∧ m < m')

include hm hm' hlt

theorem log2_add_le : m.log2 + e ≤ m'.log2 + e' := by
  by_cases he : e < e'
  · have hfull := full_of_lt hm hm' he
    have hlog : m.log2 < 24 := log2_lt_of_lt (by decide) hm.mantissa_lt
    have hlog' : 23 ≤ m'.log2 := (Nat.le_log2 (by omega)).mpr hfull
    omega
  · have hle : m ≤ m' := by omega
    have hlog : m.log2 < m'.log2 + 1 :=
      log2_lt_of_lt (Nat.succ_pos _) (Nat.lt_of_le_of_lt hle Nat.lt_log2_self)
    omega

/-- Shifting the smaller number up to an exponent below does not take it past the larger. -/
theorem shiftLeft_lt {f : Int} (hf : f < 0) (hle : f ≤ e - e') :
    m <<< (e - e' - f).toNat < m' * 2 ^ (-f).toNat := by
  rw [Nat.shiftLeft_eq]
  by_cases he : e < e'
  · have hfull := full_of_lt hm hm' he
    have hlt24 := hm.mantissa_lt
    calc m * 2 ^ (e - e' - f).toNat
      _ < 2 ^ 24 * 2 ^ (e - e' - f).toNat := Nat.mul_lt_mul_of_pos_right hlt24 (Nat.two_pow_pos _)
      _ = 2 ^ (24 + (e - e' - f).toNat) := (Nat.pow_add ..).symm
      _ ≤ 2 ^ (23 + (-f).toNat) := Nat.pow_le_pow_right (by decide) (by omega)
      _ = 2 ^ 23 * 2 ^ (-f).toNat := Nat.pow_add ..
      _ ≤ m' * 2 ^ (-f).toNat := Nat.mul_le_mul_right _ hfull
  · have hexponent : (e - e' - f).toNat = (-f).toNat := by omega
    rw [hexponent]
    exact Nat.mul_lt_mul_of_pos_right (by omega) (Nat.two_pow_pos _)

theorem divCore_lt : (divCore .binary32 m e m' e').2.1 ≤ -24 ∧
    (divCore .binary32 m e m' e').1 < 2 ^ (-(divCore .binary32 m e m' e').2.1).toNat := by
  have hexponent : (divCore .binary32 m e m' e').2.1 ≤ -24 := by
    have hlog := log2_add_le hm hm' hlt
    simp only [divCore, Format.targetExponent, totalExponent, Format.mantissaBits,
      Format.minExponent]
    omega
  refine ⟨hexponent, Nat.div_lt_of_lt_mul ?_⟩
  exact shiftLeft_lt hm hm' hlt (Int.lt_of_le_of_lt hexponent (by decide)) (Int.min_le_left _ _)

end Quotient

/-- A number with the positive sign that has another above it is finite, and the one above it is
larger than zero. -/
theorem above_of_compare {a b : UnpackedFloat} (hsign : sign? a = some .positive)
    (hlt : a.compare b = some .lt) :
    a.isFinite = true ∧ (b = .infinity .positive ∨ ∃ m e h, b = .finite .positive m e h) := by
  cases a with
  | notANumber => cases hsign
  | infinity s =>
      cases hsign
      cases b with
      | infinity s' => cases s' <;> cases hlt
      | notANumber | zero | finite => cases hlt
  | zero s | finite s =>
      cases hsign
      refine ⟨rfl, ?_⟩
      cases b with
      | notANumber | zero => cases hlt
      | infinity s' =>
          cases s' with
          | positive => exact Or.inl rfl
          | negative => cases hlt
      | finite s' m' e' h' =>
          cases s' with
          | positive => exact Or.inr ⟨m', e', h', rfl⟩
          | negative => cases hlt

/-- The smaller of two positive numbers, divided by the larger, is one at most. -/
theorem atMostOne_div {x y : Float32} (hx : sign? (parts x) = some .positive) (h : x < y) :
    AtMostOne (parts (x / y)) := by
  have hlt := lt_iff.mp h
  have hzero : AtMostOne (unpack .binary32 (pack .binary32 (.zero .positive))) := by
    rw [unpack_pack_zero]
    exact trivial
  obtain ⟨hfinite, hy⟩ := above_of_compare hx hlt
  show AtMostOne (unpack .binary32 (pack .binary32 ((parts x).div .binary32 (parts y))))
  cases hpx : parts x with
  | notANumber | infinity => rw [hpx] at hfinite; cases hfinite
  | zero s =>
      rw [hpx] at hx
      cases hx
      rcases hy with hpy | ⟨m', e', hm', hpy⟩
      · rw [hpy]
        exact hzero
      · rw [hpy]
        exact hzero
  | finite s m e hm =>
      rw [hpx] at hx hlt
      cases hx
      rcases hy with hpy | ⟨m', e', hm', hpy⟩
      · rw [hpy]
        exact hzero
      · rw [hpy] at hlt
        have hcompare : (compare e e').then (compare m m') = .lt := Option.some.inj hlt
        rw [Ordering.then_eq_lt, Int.compare_eq_lt, Int.compare_eq_eq, Nat.compare_eq_lt]
          at hcompare
        have hquotient := divCore_lt (canonical_of_parts hpx) (canonical_of_parts hpy) hcompare
        rw [hpy]
        exact atMostOne_round hquotient.1 hquotient.2

/-! ### Scaling -/

/-- A finite number stays finite where it is scaled down. -/
theorem isFinite_mul {x y : Float32} (hx : x.isFinite = true) (hy : AtMostOne (parts y)) :
    (x * y).isFinite = true := by
  have hzero (s : Sign) : (unpack .binary32 (pack .binary32 (.zero s))).isFinite = true := by
    rw [unpack_pack_zero]
    rfl
  show (unpack .binary32 (pack .binary32 ((parts x).mul .binary32 (parts y)))).isFinite = true
  rw [isFinite_eq] at hx
  cases hpx : parts x with
  | notANumber | infinity => rw [hpx] at hx; cases hx
  | zero s =>
      cases hpy : parts y with
      | notANumber | infinity => rw [hpy] at hy; cases hy
      | zero | finite => exact hzero _
  | finite s m e hm =>
      cases hpy : parts y with
      | notANumber | infinity => rw [hpy] at hy; cases hy
      | zero => exact hzero _
      | finite s' m' e' hm' =>
          rw [hpy] at hy
          obtain ⟨he', hfraction⟩ := hy
          have hcanonical := canonical_of_parts hpx
          have hlargest : m * m' ≤ (2 ^ 24 - 1) * 2 ^ (104 - (e + e')).toNat := by
            have hexponent := hcanonical.exponent_le
            refine Nat.mul_le_mul (Nat.le_sub_one_of_lt hcanonical.mantissa_lt) ?_
            exact Nat.le_trans hfraction (Nat.pow_le_pow_right (by decide) (by omega))
          have hexponent := hcanonical.exponent_le
          exact isFinite_round (by omega) hlargest

end MotorControl.Binary32
