/-
The covariance of a linear model stays positive definite.

Over exact numbers, whatever samples a model is shown and however often it is reset,
its covariance is symmetric and positive definite and its trace is at most the one of
the seed.  The gain is then always divided by at least the forgetting factor, so no
update is given up, and none leaves a larger error than the one it corrects.

The invariant is `Regular`.  A reset establishes it and an update keeps it, because
the update is a step on the information, the inverse of the covariance.
-/
import MotorControl.Proofs.LeastSquares.Update

namespace MotorControl.LeastSquares

open Matrix

variable {n : ℕ}

/-! ### Models in use -/

section Uses

variable {α : Type} [Scalar α]

/-- What is done with a model. -/
inductive Use (α : Type) (n : ℕ) where
  /-- A sample is taken. -/
  | update (x : Vector α n) (target : α)
  | reset

/-- The model after one use of it. -/
def use (ls : LeastSquares α n) : Use α n → LeastSquares α n
  | .update x target => (ls.update x target).result.2
  | .reset => ls.reset

/-- The model after a list of uses, the oldest first. -/
def after (ls : LeastSquares α n) (uses : List (Use α n)) : LeastSquares α n := uses.foldl use ls

theorem use_sameSettings (ls : LeastSquares α n) (u : Use α n) : SameSettings ls (ls.use u) := by
  cases u with
  | update x target => exact update_sameSettings ls x target
  | reset => exact ⟨rfl, rfl⟩

theorem after_sameSettings (ls : LeastSquares α n) (uses : List (Use α n)) :
    SameSettings ls (ls.after uses) := by
  induction uses generalizing ls with
  | nil => exact ⟨rfl, rfl⟩
  | cons u uses ih =>
      have hstep := use_sameSettings ls u
      have hrest := ih (ls.use u)
      exact ⟨hrest.1.trans hstep.1, hrest.2.trans hstep.2⟩

end Uses

/-! ### The invariant -/

/-- What stays true of a model while it is used. -/
structure Regular (ls : LeastSquares ℝ n) : Prop where
  seed_pos : 0 < ls.seed
  epsilon_lt : Scalar.epsilon < ls.forgetting
  posDef : ls.covariance.toMatrix.PosDef
  /-- The covariance has not grown beyond that of the seed. -/
  trace_le : ls.covariance.trace ≤ ls.seed * n

namespace Regular

variable {ls : LeastSquares ℝ n}

theorem forgetting_pos (h : ls.Regular) : 0 < ls.forgetting :=
  Exact.epsilon_pos.trans h.epsilon_lt

theorem forgetting_le_denominator (h : ls.Regular) (x : Vector ℝ n) :
    ls.forgetting ≤ ls.denominator x := by
  rw [denominator_eq]
  exact le_forgetting_add h.posDef x.get

theorem denominator_pos (h : ls.Regular) (x : Vector ℝ n) : 0 < ls.denominator x :=
  h.forgetting_pos.trans_le (h.forgetting_le_denominator x)

theorem of_seeded (hseed : 0 < ls.seed) (hforgetting : Scalar.epsilon < ls.forgetting)
    (hcovariance : ls.covariance = .diagonal ls.seed) : ls.Regular where
  seed_pos := hseed
  epsilon_lt := hforgetting
  posDef := by
    rw [hcovariance, Square.toMatrix_diagonal]
    exact PosDef.one.smul hseed
  trace_le := by
    rw [hcovariance, Square.trace_eq, Square.toMatrix_diagonal]
    simp

theorem reset (h : ls.Regular) : ls.reset.Regular := of_seeded h.seed_pos h.epsilon_lt rfl

/-- An update is never given up, and reports the trace of the covariance it leaves. -/
theorem update_spec (hn : 0 < n) (h : ls.Regular) (x : Vector ℝ n) (target : ℝ) :
    ∃ next : LeastSquares ℝ n, next.Regular ∧
      ls.update x target =
        pure (⟨ls.innovation x target, ls.innovation x target * ls.forgetting / ls.denominator x,
          next.covariance.trace, false⟩, next) := by
  have habsorbed := posDef_absorbed h.posDef h.forgetting_pos x target
  obtain ⟨hseed, hforgetting⟩ := limitWindup_sameSettings (ls.absorbed x target)
  have htrace : (ls.absorbed x target).limitWindup.2.covariance.trace =
      (ls.absorbed x target).limitWindup.1 := trace_limitWindup h.seed_pos.le
  have hresidual : (ls.absorbed x target).limitWindup.2.innovation x target =
      ls.innovation x target * ls.forgetting / ls.denominator x := by
    rw [← innovation_absorbed (h.denominator_pos x).ne', innovation, coefficients_limitWindup,
      innovation]
  refine ⟨(ls.absorbed x target).limitWindup.2, ?_, ?_⟩
  · exact {
      seed_pos := hseed ▸ h.seed_pos
      epsilon_lt := hforgetting ▸ h.epsilon_lt
      posDef := posDef_limitWindup hn h.seed_pos habsorbed
      trace_le := by
        rw [htrace, hseed]
        exact limitWindup_le (ls.absorbed x target) }
  · rw [update_eq (h.epsilon_lt.trans_le (h.forgetting_le_denominator x)), hresidual, htrace]

/-- The first sample after a reset moves the coefficients along its regressor. -/
theorem get_update_reset (h : ls.Regular) (x : Vector ℝ n)
    (target : ℝ) : (ls.reset.update x target).result.2.coefficients.get =
      (target * ls.seed / ls.reset.denominator x) • x.get := by
  have hcovariance : ls.reset.covariance.toMatrix = ls.seed • 1 := Square.toMatrix_diagonal ls.seed
  rw [update_eq (h.reset.epsilon_lt.trans_le (h.reset.forgetting_le_denominator x)),
    Traced.pure_result, coefficients_limitWindup, get_absorbed, coefficients_reset,
    innovation_reset, hcovariance, smul_mulVec, one_mulVec, zero_add, smul_smul, div_mul_eq_mul_div]

theorem use (hn : 0 < n) (h : ls.Regular) (u : Use ℝ n) : (ls.use u).Regular := by
  cases u with
  | update x target =>
      obtain ⟨next, hnext, hupdate⟩ := h.update_spec hn x target
      simpa [LeastSquares.use, hupdate] using hnext
  | reset => exact h.reset

theorem after (hn : 0 < n) (h : ls.Regular) (uses : List (Use ℝ n)) :
    (ls.after uses).Regular := by
  induction uses generalizing ls with
  | nil => exact h
  | cons u uses ih => exact ih (h.use hn u)

theorem trace_pos (hn : 0 < n) (h : ls.Regular) : 0 < ls.covariance.trace := by
  have : Nonempty (Fin n) := ⟨⟨0, hn⟩⟩
  rw [Square.trace_eq]
  exact h.posDef.trace_pos

/-- What is left of an error is the part of it that forgetting lets back in. -/
theorem abs_residual_le (h : ls.Regular) (x : Vector ℝ n) (e : ℝ) :
    |e * ls.forgetting / ls.denominator x| ≤ |e| := by
  have hpart : ls.forgetting / ls.denominator x ≤ 1 :=
    (div_le_one (h.denominator_pos x)).2 (h.forgetting_le_denominator x)
  calc |e * ls.forgetting / ls.denominator x|
    _ = |e| * (ls.forgetting / ls.denominator x) := by
      rw [mul_div_assoc, abs_mul, abs_of_pos (div_pos h.forgetting_pos (h.denominator_pos x))]
    _ ≤ |e| := mul_le_of_le_one_right (abs_nonneg e) hpart

end Regular

/-! ### From the start -/

theorem exists_start {seed forgetting : ℝ} (hseed : 0 < seed)
    (hepsilon : Scalar.epsilon < forgetting) (hone : forgetting < 1) :
    ∃ start : LeastSquares ℝ n, check seed forgetting = .ok start ∧ start.Regular ∧
      start.seed = seed ∧ start.forgetting = forgetting := by
  have hpos : 0 < forgetting := Exact.epsilon_pos.trans hepsilon
  refine ⟨_, check_eq_ok ?_ ?_ ?_, .of_seeded hseed hepsilon rfl, rfl, rfl⟩
  · simpa using hseed
  · simpa using hpos
  · simpa using hone

/--
**The covariance stays positive definite.**  A model can be started on every positive
seed and every forgetting factor below one that is above the smallest accepted
denominator.  After any uses its covariance is symmetric and positive definite, with
a trace above zero and at most that of the seed.  Whatever sample comes next, the gain
is divided by at least the forgetting factor, the sample is absorbed without a word
in the log, the reported uncertainty is the trace of the new covariance, and of the
error of the prediction the part `forgetting / denominator` is left.
-/
theorem covariance_stays_posDef (hn : 0 < n) {seed forgetting : ℝ} (hseed : 0 < seed)
    (hepsilon : Scalar.epsilon < forgetting) (hone : forgetting < 1) :
    ∃ start : LeastSquares ℝ n, check seed forgetting = .ok start ∧
      ∀ uses : List (Use ℝ n),
        (start.after uses).covariance.toMatrix.IsSymm ∧
        (start.after uses).covariance.toMatrix.PosDef ∧
        0 < (start.after uses).covariance.trace ∧
        (start.after uses).covariance.trace ≤ seed * n ∧
        ∀ (x : Vector ℝ n) (target : ℝ),
          forgetting ≤ (start.after uses).denominator x ∧
          ∃ (metrics : Metrics ℝ) (next : LeastSquares ℝ n),
            (start.after uses).update x target = pure (metrics, next) ∧
            metrics.degraded = false ∧
            metrics.uncertainty = next.covariance.trace ∧
            metrics.innovation = (start.after uses).innovation x target ∧
            metrics.residual =
              metrics.innovation * forgetting / (start.after uses).denominator x ∧
            |metrics.residual| ≤ |metrics.innovation| := by
  obtain ⟨start, hcheck, hstart, rfl, rfl⟩ := exists_start (n := n) hseed hepsilon hone
  refine ⟨start, hcheck, ?_⟩
  intro uses
  have hnow := hstart.after hn uses
  obtain ⟨hsame, hforgets⟩ := after_sameSettings start uses
  refine ⟨isHermitian_iff_isSymm.1 hnow.posDef.isHermitian, hnow.posDef, hnow.trace_pos hn,
    hsame ▸ hnow.trace_le, ?_⟩
  intro x target
  obtain ⟨next, -, hupdate⟩ := hnow.update_spec hn x target
  have hshrinks := hnow.abs_residual_le x ((start.after uses).innovation x target)
  rw [hforgets] at hupdate hshrinks
  exact ⟨hforgets ▸ hnow.forgetting_le_denominator x, _, next, hupdate, rfl, rfl, rfl, rfl,
    hshrinks⟩

/-- Two coefficients, with a reset between two samples. -/
theorem two_coefficients_stay_posDef :
    (0 < 2 ∧ (0 : ℝ) < 1000 ∧ (Scalar.epsilon : ℝ) < 1 / 2 ∧ (1 / 2 : ℝ) < 1) ∧
    ∃ start : LeastSquares ℝ 2, check 1000 (1 / 2) = .ok start ∧
      let ls := start.after [.update #v[1, 1] 3, .reset, .update #v[1, 0] (-2)]
      ls.covariance.toMatrix.PosDef ∧ ls.covariance.trace ≤ 1000 * 2 ∧
      1 / 2 ≤ ls.denominator #v[3, 4] := by
  have hepsilon : (Scalar.epsilon : ℝ) < 1 / 2 := by
    rw [Exact.epsilon_eq]
    norm_num
  have hseed : (0 : ℝ) < 1000 := by norm_num
  have hone : (1 / 2 : ℝ) < 1 := by norm_num
  obtain ⟨start, hcheck, hall⟩ := covariance_stays_posDef Nat.two_pos hseed hepsilon hone
  obtain ⟨-, hposDef, -, htrace, hnext⟩ :=
    hall [.update #v[1, 1] 3, .reset, .update #v[1, 0] (-2)]
  exact ⟨⟨Nat.two_pos, hseed, hepsilon, hone⟩, start, hcheck, hposDef, htrace,
    (hnext #v[3, 4] 0).1⟩

end MotorControl.LeastSquares
