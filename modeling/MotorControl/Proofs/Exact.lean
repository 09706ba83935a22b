/-
The exact reading of the library: its scalars are the real numbers.

Every formula of the library is stated over any type of scalars.  Here that type is
the field of real numbers with exact operations, so a theorem about these scalars
says what a formula computes before any rounding.  The conversions follow their
binary32 counterparts on the numbers both can hold, and no number is ever infinite
or undefined.
-/
import Mathlib.Analysis.SpecialFunctions.Trigonometric.Basic
import MotorControl.Scalar

namespace MotorControl

namespace Exact

/-- The nearest integer; a half goes away from zero. -/
noncomputable def round (x : ℝ) : ℤ := if 0 ≤ x then ⌊x + 1 / 2⌋ else ⌈x - 1 / 2⌉

/-- The nearest integer; a tie goes to the even neighbour. -/
noncomputable def nearestEven (x : ℝ) : ℤ :=
  if Int.fract x < 1 / 2 then ⌊x⌋
  else if 1 / 2 < Int.fract x then ⌊x⌋ + 1
  else ⌊x⌋ + ⌊x⌋ % 2

/-- The nearest multiple of `2 ^ -16`, as a count of them, if a signed word holds it. -/
noncomputable def toFixed? (x : ℝ) : Option Int :=
  let count := nearestEven (x * 65536)
  if -2147483648 ≤ count ∧ count < 2147483648 then some count else none

end Exact

noncomputable instance : Scalar ℝ where
  ofNat n := n
  decideLT := inferInstance
  decideLE := inferInstance
  pi := Real.pi
  tau := 2 * Real.pi
  sqrtThree := √3
  invSqrtThree := (√3)⁻¹
  undefined := 0
  abs x := |x|
  floor x := ⌊x⌋
  round x := Exact.round x
  isFinite _ := true
  toUInt8 x := .ofNat (min ⌊x⌋₊ 255)
  toUInt32 x := .ofNat (min ⌊x⌋₊ 4294967295)
  toFixed? := Exact.toFixed?

namespace Exact

@[simp] theorem zero_eq : @OfNat.ofNat ℝ 0 Scalar.instOfNat = 0 := Nat.cast_zero

@[simp] theorem one_eq : @OfNat.ofNat ℝ 1 Scalar.instOfNat = 1 := Nat.cast_one

theorem ofInt_eq (k : ℤ) : (Scalar.ofInt k : ℝ) = k := by
  cases k with
  | ofNat n => rfl
  | negSucc n => exact (Int.cast_negSucc n).symm

@[simp] theorem isFinite_eq (x : ℝ) : Scalar.isFinite x = true := rfl

theorem epsilon_eq : (Scalar.epsilon : ℝ) = 1 / 8388608 := by
  rw [Scalar.epsilon, one_eq]

theorem epsilon_pos : 0 < (Scalar.epsilon : ℝ) := by
  rw [epsilon_eq]
  norm_num

/-- From a half below an integer on, a number is rounded to no less than it. -/
theorem le_round_iff {x : ℝ} (hx : 0 ≤ x) (n : ℤ) : n ≤ round x ↔ n - 1 / 2 ≤ x := by
  rw [round, if_pos hx, Int.le_floor, sub_le_iff_le_add]

/-- A number is rounded to the integer that lies within a half of it. -/
theorem round_eq_iff {x : ℝ} (hx : 0 ≤ x) (n : ℤ) :
    round x = n ↔ n - 1 / 2 ≤ x ∧ x < n + 1 / 2 := by
  rw [round, if_pos hx, Int.floor_eq_iff]
  constructor
  · rintro ⟨hlo, hhi⟩
    constructor <;> linarith
  · rintro ⟨hlo, hhi⟩
    constructor <;> linarith

theorem abs_round_sub_le {x : ℝ} (hx : 0 ≤ x) : |(round x : ℝ) - x| ≤ 1 / 2 := by
  obtain ⟨hlo, hhi⟩ := (round_eq_iff hx (round x)).1 rfl
  rw [abs_sub_le_iff]
  constructor <;> linarith

theorem round_nonpos {x : ℝ} (hx : x ≤ 0) : round x ≤ 0 := by
  obtain rfl | hneg := hx.eq_or_lt
  · rw [← not_lt, ← Int.add_one_le_iff, le_round_iff le_rfl]
    norm_num
  · rw [round, if_neg (not_le.2 hneg), Int.ceil_le]
    push_cast
    linarith

/-- An integer that no other is nearer to, and an even one if another is as near. -/
def IsNearestEven (x : ℝ) (n : ℤ) : Prop := |x - n| < 1 / 2 ∨ |x - n| = 1 / 2 ∧ n % 2 = 0

theorem IsNearestEven.neg {x : ℝ} {n : ℤ} (h : IsNearestEven x n) : IsNearestEven (-x) (-n) := by
  have habs : |-x - (-n : ℤ)| = |x - n| := by
    rw [← abs_neg]
    push_cast
    ring_nf
  unfold IsNearestEven at h ⊢
  rwa [habs, Int.neg_emod_two]

theorem nearestEven_eq {x : ℝ} {n : ℤ} (h : IsNearestEven x n) : nearestEven x = n := by
  have hle : |x - n| ≤ 1 / 2 := h.elim le_of_lt fun htie => htie.1.le
  rw [abs_sub_le_iff] at hle
  by_cases hside : (n : ℝ) ≤ x
  · have hfloor : ⌊x⌋ = n := by
      rw [Int.floor_eq_iff]
      constructor <;> linarith
    rw [IsNearestEven, abs_of_nonneg (sub_nonneg.mpr hside)] at h
    rw [nearestEven, Int.fract, hfloor]
    rcases h with hclose | ⟨htie, heven⟩
    · rw [if_pos hclose]
    · rw [if_neg (by linarith), if_neg (by linarith), heven, add_zero]
  · have hfloor : ⌊x⌋ = n - 1 := by
      rw [Int.floor_eq_iff]
      push_cast
      constructor <;> linarith
    rw [IsNearestEven, abs_of_neg (sub_neg.mpr (not_le.mp hside))] at h
    rw [nearestEven, Int.fract, hfloor]
    push_cast
    rcases h with hclose | ⟨htie, heven⟩
    · rw [if_neg (by linarith), if_pos (by linarith), sub_add_cancel]
    · rw [if_neg (by linarith), if_neg (by linarith)]
      omega

/-- A number that a byte holds is turned into that byte. -/
theorem toUInt8_natCast {n : ℕ} (hn : n ≤ 255) : Scalar.toUInt8 (n : ℝ) = .ofNat n := by
  show UInt8.ofNat (min ⌊(n : ℝ)⌋₊ 255) = .ofNat n
  rw [Nat.floor_natCast, Nat.min_eq_left hn]

end Exact

end MotorControl
