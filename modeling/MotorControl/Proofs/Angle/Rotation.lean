/-
How long a vector is after it was rotated by shifts and additions.

Rotating by the angle with tangent `2 ^ -i` multiplies a vector, as a complex number, with
`1 + 2 ^ -i * I`, whichever way it turns, and so lengthens it by a factor that depends on
`i` alone.  The shifts round either component down, which moves the vector by less than the
diagonal of a unit square.

A run of rotations carries both along: its length is the product of the factors times that
of the start, and the error of every rotation is lengthened by the rotations after it, hence
by no more than the whole product.  Nothing here depends on the angles that are taken off,
so nothing depends on the angle that is asked for.
-/
import Mathlib
import MotorControl.Angle.Cordic

namespace MotorControl.Cordic

/-! ### One rotation -/

/-- A shift rounds a quotient down. -/
theorem abs_shiftRight_sub_le (a : ℤ) (i : ℕ) : |((a >>> i : ℤ) : ℝ) - a / 2 ^ i| ≤ 1 := by
  have hpos : (0 : ℝ) < 2 ^ i := by positivity
  have hdiv : (2 : ℝ) ^ i * (a >>> i : ℤ) + (a % 2 ^ i : ℤ) = a := by
    rw [Int.shiftRight_eq_div_pow]
    exact_mod_cast Int.mul_ediv_add_emod a (2 ^ i)
  have hlo : (0 : ℝ) ≤ (a % 2 ^ i : ℤ) := by
    exact_mod_cast Int.emod_nonneg a (by positivity)
  have hhi : ((a % 2 ^ i : ℤ) : ℝ) ≤ 2 ^ i := by
    exact_mod_cast (Int.emod_lt_of_pos a (by positivity)).le
  have hrest : (a : ℝ) / 2 ^ i - (a >>> i : ℤ) = (a % 2 ^ i : ℤ) / 2 ^ i := by
    rw [← hdiv]
    field_simp
    ring
  rw [abs_sub_comm, hrest, abs_of_nonneg (by positivity), div_le_one hpos]
  exact hhi

namespace State

/-- The vector of a state. -/
def vector (s : State) : ℂ := ⟨s.x, s.y⟩

/-- The number that a vector is multiplied with where it is turned by the angle with tangent `t`. -/
def turn (t : ℝ) : ℂ := ⟨1, t⟩

theorem norm_turn (t : ℝ) : ‖turn t‖ = √(1 + t ^ 2) := by
  rw [Complex.norm_eq_sqrt_sq_add_sq]
  norm_num [turn]

/-- Whichever way a state is rotated, its vector is multiplied and moved by a diagonal at most. -/
theorem norm_vector_rotate_sub_le (s : State) (i : ℕ) (angle : ℤ) :
    ∃ t : ℝ, t ^ 2 = (1 / 4) ^ i ∧ ‖(s.rotate i angle).vector - s.vector * turn t‖ ≤ √2 := by
  have hx := abs_shiftRight_sub_le s.x i
  have hy := abs_shiftRight_sub_le s.y i
  have hsquare : ((1 : ℝ) / 2 ^ i) ^ 2 = (1 / 4) ^ i := by
    rw [div_pow, div_pow, ← pow_mul, mul_comm, pow_mul]
    norm_num
  have hdiagonal {z : ℂ} (hre : |z.re| ≤ 1) (him : |z.im| ≤ 1) : ‖z‖ ≤ √2 := by
    calc ‖z‖
      _ ≤ √2 * max |z.re| |z.im| := Complex.norm_le_sqrt_two_mul_max z
      _ ≤ √2 * 1 := mul_le_mul_of_nonneg_left (max_le hre him) (Real.sqrt_nonneg 2)
      _ = √2 := mul_one _
  unfold rotate
  by_cases hrest : 0 ≤ s.rest
  · rw [if_pos hrest]
    refine ⟨1 / 2 ^ i, hsquare, hdiagonal ?_ ?_⟩
    · rw [abs_sub_comm] at hy
      convert hy using 2
      simp [vector, turn]
      ring
    · convert hx using 2
      simp [vector, turn]
      ring
  · rw [if_neg hrest]
    refine ⟨-(1 / 2 ^ i), (neg_sq _).trans hsquare, hdiagonal ?_ ?_⟩
    · convert hy using 2
      simp [vector, turn]
      ring
    · rw [abs_sub_comm] at hx
      convert hx using 2
      simp [vector, turn]
      ring

/-- One rotation lengthens a vector by its factor, up to a diagonal. -/
theorem abs_norm_rotate_sub_le (s : State) (i : ℕ) (angle : ℤ) :
    |‖(s.rotate i angle).vector‖ - √(1 + (1 / 4) ^ i) * ‖s.vector‖| ≤ √2 := by
  obtain ⟨t, ht, hmoved⟩ := s.norm_vector_rotate_sub_le i angle
  have hexact : ‖s.vector * turn t‖ = √(1 + (1 / 4) ^ i) * ‖s.vector‖ := by
    rw [norm_mul, norm_turn, ht, mul_comm]
  rw [← hexact]
  exact (abs_norm_sub_norm_le _ _).trans hmoved

end State

/-! ### A run of rotations -/

/-- The square of the factor by which `n` rotations, the first of which has tangent `2 ^ -i`,
lengthen a vector. -/
noncomputable def stretch : (i n : ℕ) → ℝ
  | _, 0 => 1
  | i, n + 1 => (1 + (1 / 4) ^ i) * stretch (i + 1) n

theorem one_le_stretch (i n : ℕ) : 1 ≤ stretch i n := by
  induction n generalizing i with
  | zero => exact le_rfl
  | succ n ih =>
      have hfactor : (1 : ℝ) ≤ 1 + (1 / 4) ^ i := le_add_of_nonneg_right (by positivity)
      exact one_le_mul_of_one_le_of_one_le hfactor (ih (i + 1))

namespace State

/-- A run of rotations lengthens a vector by its factor, up to as many diagonals, lengthened. -/
theorem abs_norm_rotateAll_sub_le (s : State) (i : ℕ) (angles : List ℤ) :
    |‖(s.rotateAll i angles).vector‖ - √(stretch i angles.length) * ‖s.vector‖| ≤
      √2 * angles.length * √(stretch i angles.length) := by
  induction angles generalizing s i with
  | nil => simp [rotateAll, stretch]
  | cons angle more ih =>
      have hstep := s.abs_norm_rotate_sub_le i angle
      have hrun := ih (s.rotate i angle) (i + 1)
      have hgain := Real.sqrt_nonneg (stretch (i + 1) more.length)
      have hstretch : √(stretch i (more.length + 1)) =
          √(1 + (1 / 4) ^ i) * √(stretch (i + 1) more.length) :=
        Real.sqrt_mul (by positivity) _
      have hone : 1 ≤ √(1 + (1 / 4 : ℝ) ^ i) :=
        Real.one_le_sqrt.mpr (le_add_of_nonneg_right (by positivity))
      -- The error of the first rotation is lengthened by all the others.
      have hcarried : |√(stretch (i + 1) more.length) * ‖(s.rotate i angle).vector‖ -
          √(stretch (i + 1) more.length) * (√(1 + (1 / 4) ^ i) * ‖s.vector‖)| ≤
          √(stretch (i + 1) more.length) * √2 := by
        rw [← mul_sub, abs_mul, abs_of_nonneg hgain]
        exact mul_le_mul_of_nonneg_left hstep hgain
      have hsum := (abs_sub_le _ _ _).trans (add_le_add hrun hcarried)
      show |‖((s.rotate i angle).rotateAll (i + 1) more).vector‖ -
        √(stretch i (more.length + 1)) * ‖s.vector‖| ≤
          √2 * (more.length + 1 : ℕ) * √(stretch i (more.length + 1))
      rw [hstretch]
      calc |‖((s.rotate i angle).rotateAll (i + 1) more).vector‖ -
          √(1 + (1 / 4) ^ i) * √(stretch (i + 1) more.length) * ‖s.vector‖|
        _ ≤ √2 * more.length * √(stretch (i + 1) more.length) +
            √(stretch (i + 1) more.length) * √2 := by
          rw [mul_comm √(1 + _), mul_assoc]
          exact hsum
        _ = √2 * (more.length + 1 : ℕ) * (1 * √(stretch (i + 1) more.length)) := by
          push_cast
          ring
        _ ≤ √2 * (more.length + 1 : ℕ) *
            (√(1 + (1 / 4) ^ i) * √(stretch (i + 1) more.length)) :=
          mul_le_mul_of_nonneg_left (mul_le_mul_of_nonneg_right hone hgain) (by positivity)

end State

/-! ### The direction of an angle -/

/-- The first rotation shifts nothing and is exact. -/
theorem norm_vector_rotate_start (rest angle : ℤ) :
    ‖((⟨startLength, 0, rest⟩ : State).rotate 0 angle).vector‖ = √2 * 39796 := by
  have hsquare : ((39796 : ℝ) ^ 2 + 39796 ^ 2) = 2 * 39796 ^ 2 := by ring
  unfold State.rotate
  by_cases hrest : 0 ≤ rest
  · rw [if_pos hrest]
    simp [State.vector, startLength, Complex.norm_eq_sqrt_sq_add_sq, hsquare]
  · rw [if_neg hrest]
    simp [State.vector, startLength, Complex.norm_eq_sqrt_sq_add_sq, hsquare]

/-- The fifteen rotations that shift move a vector of length `39796` by fifteen units at most before
they lengthen it. -/
theorem norm_vector_rotateAll_start (rest : ℤ) :
    39781 * (√2 * √(stretch 1 15)) ≤
        ‖(State.rotateAll ⟨startLength, 0, rest⟩ 0 angles).vector‖ ∧
      ‖(State.rotateAll ⟨startLength, 0, rest⟩ 0 angles).vector‖ ≤
        39811 * (√2 * √(stretch 1 15)) := by
  have hrun := ((⟨startLength, 0, rest⟩ : State).rotate 0 51471).abs_norm_rotateAll_sub_le 1
    angles.tail
  have hlength : angles.tail.length = 15 := rfl
  have hangles : angles = 51471 :: angles.tail := rfl
  rw [norm_vector_rotate_start, hlength, abs_le] at hrun
  rw [hangles, State.rotateAll]
  push_cast at hrun
  constructor <;> linarith

theorem stretch_bounds : 1.35590 < stretch 1 15 ∧ stretch 1 15 < 1.35592 := by
  norm_num [stretch]

/-- The direction is the vector that the rotations end at, or the opposite one. -/
theorem normSq_direction (angle : ℤ) :
    ((direction angle).cos : ℝ) ^ 2 + (direction angle).sin ^ 2 =
      ‖(State.rotateAll ⟨startLength, 0, angle.bmod halfTurn⟩ 0 angles).vector‖ ^ 2 := by
  rw [Complex.sq_norm, Complex.normSq_apply]
  unfold direction
  by_cases heven : angle.bdiv halfTurn % 2 = 0
  · simp only [if_pos heven, State.vector]
    ring
  · simp only [if_neg heven, State.vector]
    push_cast
    ring

/-- **Every direction has almost the length one**, whatever the angle. -/
theorem abs_normSq_direction_sub_le (angle : ℤ) :
    |((direction angle).cos : ℝ) ^ 2 + (direction angle).sin ^ 2 - 65536 ^ 2| ≤
      65536 ^ 2 / 1000 := by
  obtain ⟨hlo, hhi⟩ := norm_vector_rotateAll_start (angle.bmod halfTurn)
  have hstretch : (√2 * √(stretch 1 15)) ^ 2 = 2 * stretch 1 15 := by
    rw [mul_pow, Real.sq_sqrt zero_le_two, Real.sq_sqrt (zero_le_one.trans (one_le_stretch 1 15))]
  have hlo := pow_le_pow_left₀ (by positivity) hlo 2
  have hhi := pow_le_pow_left₀ (norm_nonneg _) hhi 2
  rw [mul_pow, hstretch] at hlo hhi
  obtain ⟨hlower, hupper⟩ := stretch_bounds
  rw [normSq_direction, abs_le]
  constructor <;> linarith

end MotorControl.Cordic
