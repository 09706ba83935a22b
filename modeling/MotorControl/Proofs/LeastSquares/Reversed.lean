/-
Least squares with the targets reversed.

The covariance depends on the regressors alone, and the coefficients are linear in the
targets.  Rounding respects the sign, so this holds of the rounded updates as well: of two
models that know the same and have learned the opposite, shown opposite targets, both absorb
the sample or neither does, and they are again two such models.  Convergence looks at the
magnitude of the error and at the trace, so it cannot tell the two apart.
-/
import MotorControl.Proofs.Binary32.Opposite
import MotorControl.Proofs.LeastSquares.Rounded

namespace MotorControl

open Binary32

variable {n : ℕ}

/-! ### Sums -/

theorem opposite_sum {f f' : Fin n → Float32} {a a' : Float32} (ha : Opposite a a')
    (h : ∀ i, Opposite (f i) (f' i)) :
    Opposite (Fin.foldl n (fun sum i => sum + f i) a) (Fin.foldl n (fun sum i => sum + f' i) a') := by
  induction n with
  | zero => exact ha
  | succ n ih =>
      rw [Fin.foldl_succ_last, Fin.foldl_succ_last]
      exact (ih fun i => h i.castSucc).add (h (Fin.last n))

theorem opposite_dot (x : Vector Float32 n) {y y' : Vector Float32 n}
    (h : ∀ i : Fin n, Opposite (y.get i) (y'.get i)) : Opposite (dot x y) (dot x y') :=
  opposite_sum .negZero fun i => (h i).mul_left (x.get i)

/-! ### Metrics -/

/-- What two updates say if one erred by the opposite of what the other did. -/
structure Metrics.Reversed (m m' : Metrics Float32) : Prop where
  innovation : Opposite m.innovation m'.innovation
  residual : Opposite m.residual m'.residual
  uncertainty : m'.uncertainty = m.uncertainty
  degraded : m'.degraded = m.degraded

/-- Convergence does not see the sign of an error. -/
theorem Metrics.Reversed.converged_eq {m m' : Metrics Float32} (h : m.Reversed m')
    (innovationBound uncertaintyBound : Float32) :
    m'.converged innovationBound uncertaintyBound = m.converged innovationBound uncertaintyBound := by
  have habs : Scalar.abs m'.innovation = Scalar.abs m.innovation := h.innovation.abs_eq.symm
  rw [converged, converged, habs, h.uncertainty, h.degraded]

namespace LeastSquares

/-- Two models that know the same, and have learned the opposite. -/
structure Reversed (ls ls' : LeastSquares Float32 n) : Prop where
  coefficients : ∀ i : Fin n, Opposite (ls.coefficients.get i) (ls'.coefficients.get i)
  covariance : ls'.covariance = ls.covariance
  seed : ls'.seed = ls.seed
  forgetting : ls'.forgetting = ls.forgetting

namespace Reversed

variable {ls ls' : LeastSquares Float32 n} {target target' : Float32}

/-- A model that has learned nothing is its own reversal. -/
theorem of_check {seed forgetting : Float32} (h : check seed forgetting = .ok ls) :
    ls.Reversed ls := by
  obtain ⟨-, rfl⟩ := start_of_check h
  refine ⟨fun i => ?_, rfl, rfl, rfl⟩
  show Opposite (Vector.replicate n (0 : Float32))[i] (Vector.replicate n (0 : Float32))[i]
  rw [Fin.getElem_fin, Vector.getElem_replicate]
  exact .zero

/-! ### The parts of an update -/

theorem innovation (h : ls.Reversed ls') (x : Vector Float32 n) (ht : Opposite target target') :
    Opposite (ls.innovation x target) (ls'.innovation x target') :=
  ht.sub (opposite_dot x h.coefficients)

theorem denominator_eq (h : ls.Reversed ls') (x : Vector Float32 n) :
    ls'.denominator x = ls.denominator x := by
  rw [denominator, denominator, h.forgetting, h.covariance]

theorem degrade (h : ls.Reversed ls') {innovation innovation' : Float32}
    (hi : Opposite innovation innovation') :
    (ls.degrade innovation).result.1.Reversed (ls'.degrade innovation').result.1 ∧
      (ls.degrade innovation).result.2.Reversed (ls'.degrade innovation').result.2 := by
  have hcovariance : (Square.diagonal ls'.seed : Square Float32 n) = .diagonal ls.seed := by
    rw [h.seed]
  exact ⟨⟨hi, hi, congrArg Square.trace hcovariance, rfl⟩,
    ⟨h.coefficients, hcovariance, h.seed, h.forgetting⟩⟩

theorem absorb (h : ls.Reversed ls') (x : Vector Float32 n) {innovation innovation' : Float32}
    (hi : Opposite innovation innovation') (denominator : Float32) :
    (ls.absorb x innovation denominator).Reversed (ls'.absorb x innovation' denominator) where
  coefficients := by
    intro i
    show Opposite (ls.absorb x innovation denominator).coefficients[i]
      (ls'.absorb x innovation' denominator).coefficients[i]
    simp only [LeastSquares.absorb, Fin.getElem_fin, Vector.getElem_ofFn, h.covariance]
    exact (h.coefficients i).add (hi.mul_left _)
  covariance := by
    simp only [LeastSquares.absorb, LeastSquares.downdate, h.covariance, h.forgetting]
  seed := h.seed
  forgetting := h.forgetting

theorem limitWindup (h : ls.Reversed ls') :
    ls'.limitWindup.1 = ls.limitWindup.1 ∧ ls.limitWindup.2.Reversed ls'.limitWindup.2 := by
  unfold LeastSquares.limitWindup
  rw [h.seed, h.covariance]
  dsimp only
  split
  · exact ⟨rfl, h.coefficients, rfl, rfl, h.forgetting⟩
  · exact ⟨rfl, h⟩

theorem isFinite_eq (h : ls.Reversed ls') (trace : Float32) :
    ls'.isFinite trace = ls.isFinite trace := by
  have hcoefficients (i : Fin n) :
      (ls.coefficients.get i).isFinite = (ls'.coefficients.get i).isFinite :=
    (h.coefficients i).isFinite_eq
  rw [Bool.eq_iff_iff, isFinite_iff, isFinite_iff]
  simp only [hcoefficients]

/-! ### Updates -/

/-- Opposite targets keep two such models apart by the sign alone. -/
theorem update (h : ls.Reversed ls') (x : Vector Float32 n) (ht : Opposite target target') :
    (ls.update x target).result.1.Reversed (ls'.update x target').result.1 ∧
      (ls.update x target).result.2.Reversed (ls'.update x target').result.2 := by
  have hinnovation := h.innovation x ht
  have hdenominator := h.denominator_eq x
  have hsound : isSound (ls'.innovation x target') (ls'.denominator x) =
      isSound (ls.innovation x target) (ls.denominator x) := by
    have hfinite := hinnovation.isFinite_eq
    rw [hdenominator, Bool.eq_iff_iff, isSound_iff, isSound_iff, hfinite]
  obtain ⟨hlimited, hnext⟩ := (h.absorb x hinnovation (ls.denominator x)).limitWindup
  unfold LeastSquares.update
  dsimp only
  rw [hsound, hdenominator, hlimited, hnext.isFinite_eq]
  split
  · split
    · exact ⟨⟨hinnovation, hnext.innovation x ht, rfl, rfl⟩, hnext⟩
    · exact h.degrade hinnovation
  · exact h.degrade hinnovation

end Reversed

end LeastSquares

end MotorControl
