/-
What an update of a linear model does, over exact numbers.

The inverse of the covariance is the information a model has gathered.  A sample with
the regressor `x` lets the old information fade by the forgetting factor and adds
`x xᵀ` to it; subtracting the rank-one term from the covariance is that same step,
taken on the inverse.  So a covariance that was positive definite stays so: the new
information is a positive definite matrix plus a positive semidefinite one.  The
limit on windup then multiplies the covariance by one positive number.
-/
import Mathlib.Algebra.Order.Star.Real
import Mathlib.LinearAlgebra.Matrix.PosDef
import MotorControl.Proofs.Exact.Matrix

namespace MotorControl

open Matrix

variable {n : ℕ}

/-! ### The rank-one downdate -/

section Downdate

variable {P : Matrix (Fin n) (Fin n) ℝ} {l : ℝ}

theorem le_forgetting_add (hP : P.PosDef) (x : Fin n → ℝ) : l ≤ l + x ⬝ᵥ P *ᵥ x := by
  have h : 0 ≤ x ⬝ᵥ P *ᵥ x := by simpa using hP.posSemidef.dotProduct_mulVec_nonneg x
  linarith

/-- The downdated covariance is the inverse of the information with one more sample. -/
theorem downdate_eq_inv (hP : P.PosDef) (hl : 0 < l) (x : Fin n → ℝ) :
    l⁻¹ • (P - (l + x ⬝ᵥ P *ᵥ x)⁻¹ • vecMulVec (P *ᵥ x) (P *ᵥ x)) =
      (l • P⁻¹ + vecMulVec x x)⁻¹ := by
  have hd : l + x ⬝ᵥ P *ᵥ x ≠ 0 := (hl.trans_le (le_forgetting_add hP x)).ne'
  have hsymm : Pᵀ = P := isHermitian_iff_isSymm.1 hP.isHermitian
  have hinv : P * P⁻¹ = 1 := mul_nonsing_inv P ((isUnit_iff_isUnit_det P).1 hP.isUnit)
  have hback : (P *ᵥ x) ᵥ* P⁻¹ = x := by
    rw [← vecMul_transpose, hsymm, vecMul_vecMul, hinv, vecMul_one]
  have hold : vecMulVec (P *ᵥ x) (P *ᵥ x) * P⁻¹ = vecMulVec (P *ᵥ x) x := by
    rw [vecMulVec_mul, hback]
  have hnew : vecMulVec (P *ᵥ x) (P *ᵥ x) * vecMulVec x x =
      (x ⬝ᵥ P *ᵥ x) • vecMulVec (P *ᵥ x) x := by
    rw [vecMulVec_mul_vecMulVec, dotProduct_comm, vecMulVec_smul]
  refine (inv_eq_left_inv ?_).symm
  -- all that is left besides `l • 1` is a multiple of `(P x) xᵀ`, and the gain makes it vanish
  calc l⁻¹ • (P - (l + x ⬝ᵥ P *ᵥ x)⁻¹ • vecMulVec (P *ᵥ x) (P *ᵥ x)) * (l • P⁻¹ + vecMulVec x x)
    _ = l⁻¹ • (l • 1 + (1 - (l + x ⬝ᵥ P *ᵥ x)⁻¹ * (l + x ⬝ᵥ P *ᵥ x)) • vecMulVec (P *ᵥ x) x) := by
      simp only [smul_mul_assoc, sub_mul, mul_add, mul_smul_comm, hinv, mul_vecMulVec, hold, hnew]
      module
    _ = 1 := by
      rw [inv_mul_cancel₀ hd, sub_self, zero_smul, add_zero, smul_smul, inv_mul_cancel₀ hl.ne',
        one_smul]

theorem posDef_information (hP : P.PosDef) (hl : 0 < l) (x : Fin n → ℝ) :
    (l • P⁻¹ + vecMulVec x x).PosDef := by
  have hsample : (vecMulVec x x).PosSemidef := by simpa using posSemidef_vecMulVec_self_star x
  exact (hP.inv.smul hl).add_posSemidef hsample

end Downdate

/-! ### What an update leaves alone -/

namespace LeastSquares

section Settings

variable {α : Type} [Scalar α]

/-- A model that was just started has nothing to forget. -/
theorem reset_of_check {seed forgetting : α} {start : LeastSquares α n}
    (h : check seed forgetting = .ok start) : start.reset = start := by
  obtain ⟨-, rfl⟩ := start_of_check h
  rfl

/-- The covariance is scaled back to the trace of the seed, or nothing happens. -/
theorem limitWindup_cases (ls : LeastSquares α n) :
    (ls.seed * Scalar.ofNat n < ls.covariance.trace ∧
      ls.limitWindup = (ls.seed * Scalar.ofNat n, { ls with
        covariance := ls.covariance.scale (ls.seed * Scalar.ofNat n / ls.covariance.trace) })) ∨
    (¬ ls.seed * Scalar.ofNat n < ls.covariance.trace ∧
      ls.limitWindup = (ls.covariance.trace, ls)) := by
  by_cases h : ls.seed * Scalar.ofNat n < ls.covariance.trace
  · exact Or.inl ⟨h, if_pos h⟩
  · exact Or.inr ⟨h, if_neg h⟩

theorem coefficients_limitWindup (ls : LeastSquares α n) :
    ls.limitWindup.2.coefficients = ls.coefficients := by
  rcases ls.limitWindup_cases with ⟨-, heq⟩ | ⟨-, heq⟩ <;> rw [heq]

/-- A model keeps the seed and the forgetting factor it was made with. -/
def SameSettings (old new : LeastSquares α n) : Prop :=
  new.seed = old.seed ∧ new.forgetting = old.forgetting

theorem limitWindup_sameSettings (ls : LeastSquares α n) : SameSettings ls ls.limitWindup.2 := by
  rcases ls.limitWindup_cases with ⟨-, heq⟩ | ⟨-, heq⟩
  · rw [heq]
    exact ⟨rfl, rfl⟩
  · rw [heq]
    exact ⟨rfl, rfl⟩

theorem update_sameSettings (ls : LeastSquares α n) (x : Vector α n) (target : α) :
    SameSettings ls (ls.update x target).result.2 := by
  dsimp only [update]
  split
  · split
    · exact limitWindup_sameSettings (ls.absorb ..)
    · exact ⟨rfl, rfl⟩
  · exact ⟨rfl, rfl⟩

end Settings

/-! ### A sample -/

variable {ls : LeastSquares ℝ n} {x : Vector ℝ n}

/-- The model after a sample, before its covariance is kept from growing. -/
noncomputable def absorbed (ls : LeastSquares ℝ n) (x : Vector ℝ n) (target : ℝ) :
    LeastSquares ℝ n :=
  ls.absorb x (ls.innovation x target) (ls.denominator x)

theorem denominator_eq (ls : LeastSquares ℝ n) (x : Vector ℝ n) :
    ls.denominator x = ls.forgetting + x.get ⬝ᵥ ls.covariance.toMatrix *ᵥ x.get := by
  rw [denominator, dot_eq, Square.get_mulVec]

theorem innovation_eq (ls : LeastSquares ℝ n) (x : Vector ℝ n) (target : ℝ) :
    ls.innovation x target = target - x.get ⬝ᵥ ls.coefficients.get := by
  rw [innovation, dot_eq]

theorem coefficients_reset (ls : LeastSquares ℝ n) : ls.reset.coefficients.get = 0 := by
  funext i
  show (Vector.replicate n _)[i] = 0
  rw [Exact.zero_eq, Fin.getElem_fin, Vector.getElem_replicate]

theorem innovation_reset (ls : LeastSquares ℝ n) (x : Vector ℝ n) (target : ℝ) :
    ls.reset.innovation x target = target := by
  rw [innovation_eq, coefficients_reset, dotProduct_zero, sub_zero]

/-- The coefficients move along the covariance times the regressor. -/
theorem get_absorbed (ls : LeastSquares ℝ n) (x : Vector ℝ n) (target : ℝ) :
    (ls.absorbed x target).coefficients.get = ls.coefficients.get +
      (ls.innovation x target / ls.denominator x) • ls.covariance.toMatrix *ᵥ x.get := by
  funext i
  have hgain : (ls.covariance.mulVec x).get i = (ls.covariance.toMatrix *ᵥ x.get) i :=
    congrFun (Square.get_mulVec ls.covariance x) i
  rw [Pi.add_apply, Pi.smul_apply, smul_eq_mul, ← hgain]
  show (ls.absorbed x target).coefficients[i] =
    ls.coefficients[i] + _ * (ls.covariance.mulVec x)[i]
  simp only [absorbed, absorb, Fin.getElem_fin, Vector.getElem_ofFn]
  ring

/-- The error that is left after a sample is the old one times the part of the gain that
comes from forgetting. -/
theorem innovation_absorbed (h : ls.denominator x ≠ 0) (target : ℝ) :
    (ls.absorbed x target).innovation x target =
      ls.innovation x target * ls.forgetting / ls.denominator x := by
  have hd := denominator_eq ls x
  have he := innovation_eq ls x target
  rw [innovation_eq, get_absorbed, dotProduct_add, dotProduct_smul, smul_eq_mul]
  field_simp
  linear_combination (ls.denominator x) * (-he) + ls.innovation x target * hd

theorem toMatrix_downdate (ls : LeastSquares ℝ n) (px : Vector ℝ n) (d : ℝ) :
    (ls.downdate px d).toMatrix =
      ls.forgetting⁻¹ • (ls.covariance.toMatrix - d⁻¹ • vecMulVec px.get px.get) := by
  ext i j
  rw [Matrix.smul_apply, Matrix.sub_apply, Matrix.smul_apply, vecMulVec_apply, smul_eq_mul,
    smul_eq_mul]
  show (ls.downdate px d)[i][j] =
    ls.forgetting⁻¹ * (ls.covariance[i][j] - d⁻¹ * (px[i] * px[j]))
  simp only [downdate, Fin.getElem_fin, Vector.getElem_ofFn]
  ring

/-- A sample lets the information fade and adds its regressor to it. -/
theorem toMatrix_absorbed (hP : ls.covariance.toMatrix.PosDef) (hl : 0 < ls.forgetting)
    (x : Vector ℝ n) (target : ℝ) :
    (ls.absorbed x target).covariance.toMatrix =
      (ls.forgetting • ls.covariance.toMatrix⁻¹ + vecMulVec x.get x.get)⁻¹ := by
  have hdown : (ls.downdate (ls.covariance.mulVec x) (ls.denominator x)).toMatrix =
      (ls.forgetting • ls.covariance.toMatrix⁻¹ + vecMulVec x.get x.get)⁻¹ := by
    rw [toMatrix_downdate, Square.get_mulVec, denominator_eq, downdate_eq_inv hP hl]
  have hsymm : (ls.downdate (ls.covariance.mulVec x) (ls.denominator x)).toMatrix.IsSymm := by
    rw [hdown]
    exact isHermitian_iff_isSymm.1 (posDef_information hP hl x.get).inv.isHermitian
  exact (Square.toMatrix_symmetrize hsymm).trans hdown

theorem posDef_absorbed (hP : ls.covariance.toMatrix.PosDef) (hl : 0 < ls.forgetting)
    (x : Vector ℝ n) (target : ℝ) : (ls.absorbed x target).covariance.toMatrix.PosDef := by
  rw [toMatrix_absorbed hP hl]
  exact (posDef_information hP hl x.get).inv

/-! ### The limit on windup -/

/-- The trace that is reported is the one of the covariance that is kept. -/
theorem trace_limitWindup (hseed : 0 ≤ ls.seed) :
    ls.limitWindup.2.covariance.trace = ls.limitWindup.1 := by
  rcases ls.limitWindup_cases with ⟨h, heq⟩ | ⟨-, heq⟩
  · have hmaximum : 0 ≤ ls.seed * n := by positivity
    have htrace : ls.covariance.trace ≠ 0 := (hmaximum.trans_lt h).ne'
    rw [heq, Square.trace_eq, Square.toMatrix_scale, Matrix.trace_smul, smul_eq_mul,
      ← Square.trace_eq, div_mul_cancel₀ _ htrace]
  · rw [heq]

theorem limitWindup_le (ls : LeastSquares ℝ n) : ls.limitWindup.1 ≤ ls.seed * n := by
  rcases ls.limitWindup_cases with ⟨-, heq⟩ | ⟨h, heq⟩
  · rw [heq]
    exact le_rfl
  · rw [heq]
    exact not_lt.1 h

theorem posDef_limitWindup (hn : 0 < n) (hseed : 0 < ls.seed)
    (hP : ls.covariance.toMatrix.PosDef) : ls.limitWindup.2.covariance.toMatrix.PosDef := by
  rcases ls.limitWindup_cases with ⟨h, heq⟩ | ⟨-, heq⟩
  · have hmaximum : 0 < ls.seed * n := by positivity
    have hscale : 0 < ls.seed * n / ls.covariance.trace := div_pos hmaximum (hmaximum.trans h)
    rw [heq, Square.toMatrix_scale]
    exact hP.smul hscale
  · rw [heq]
    exact hP

/-! ### Updates -/

/-- With a denominator above the smallest that is accepted, a sample is absorbed and nothing is
logged. -/
theorem update_eq (h : Scalar.epsilon < ls.denominator x) (target : ℝ) :
    ls.update x target =
      pure (⟨ls.innovation x target, (ls.absorbed x target).limitWindup.2.innovation x target,
        (ls.absorbed x target).limitWindup.1, false⟩, (ls.absorbed x target).limitWindup.2) := by
  have hsound : isSound (ls.innovation x target) (ls.denominator x) = true := by
    simp [isSound, h]
  have hfinite (limited : ℝ × LeastSquares ℝ n) : limited.2.isFinite limited.1 = true := by
    simp [isFinite]
  rw [update, if_pos hsound, if_pos (hfinite _)]
  rfl

end LeastSquares

end MotorControl
