/-
When the trace of a covariance is reported below zero.

A sample takes away from the variance of a coefficient what it explains of it.  Over exact
numbers that is never more than there is.  Over binary32 numbers it is a square that was
divided by a number that was rounded too, and it can come out larger than the variance: the
variance is then overdrawn, and rounding keeps the sign of the difference.  Dividing by the
forgetting factor and making the matrix symmetric change no sign on the diagonal, so the
trace is below zero if every variance is overdrawn, and it is not if none is.

Nothing looks at the sign.  An update of which all is finite is not given up, and a trace
below zero lies below every bound that an uncertainty is compared with.
-/
import MotorControl.Proofs.Binary32.Sign
import MotorControl.Proofs.LeastSquares.Rounded

namespace MotorControl

open Binary32

variable {n : ℕ}

/-! ### Signs of sums -/

section Sums

variable {f : Fin n → Float32}

theorem not_sum_lt_zero (h : ∀ i, ¬ f i < 0) : ¬ Fin.foldl n (fun sum i => sum + f i) (-0) < 0 := by
  induction n with
  | zero =>
      rw [Fin.foldl_zero]
      decide +kernel
  | succ n ih =>
      rw [Fin.foldl_succ_last]
      exact not_add_lt_zero (ih fun i => h i.castSucc) (h (Fin.last n))

/-- A sum starts from negative zero, so it has the negative sign also before the first term. -/
theorem sign?_sum (h : ∀ i, f i < 0) :
    sign? (parts (Fin.foldl n (fun sum i => sum + f i) (-0))) = some .negative := by
  induction n with
  | zero =>
      rw [Fin.foldl_zero]
      rfl
  | succ n ih =>
      rw [Fin.foldl_succ_last]
      exact sign?_of_neg (add_lt_zero (ih fun i => h i.castSucc) (h (Fin.last n)))

theorem sum_lt_zero (hn : 0 < n) (h : ∀ i, f i < 0) :
    Fin.foldl n (fun sum i => sum + f i) (-0) < 0 := by
  cases n with
  | zero => exact absurd hn (lt_irrefl 0)
  | succ n =>
      rw [Fin.foldl_succ_last]
      exact add_lt_zero (sign?_sum fun i => h i.castSucc) (h (Fin.last n))

end Sums

namespace LeastSquares

/-! ### What a sample explains -/

theorem forgetting_of_check {α : Type} [Scalar α] {seed forgetting : α} {start : LeastSquares α n}
    (h : check seed forgetting = .ok start) : 0 < forgetting ∧ forgetting < 1 := by
  unfold check at h
  split at h
  · split at h
    · assumption
    · cases h
  · cases h

section Variance

variable {α : Type} [Scalar α]

/-- What a sample explains of the variance of a coefficient, as it is computed. -/
def explained (ls : LeastSquares α n) (x : Vector α n) (i : Fin n) : α :=
  let px := ls.covariance.mulVec x
  px.get i * px.get i / ls.denominator x

/-- A sample explains more of the variance of a coefficient than there is. -/
def Overdraws (ls : LeastSquares α n) (x : Vector α n) (i : Fin n) : Prop :=
  (ls.covariance.get i).get i < ls.explained x i

instance (ls : LeastSquares α n) (x : Vector α n) (i : Fin n) : Decidable (ls.Overdraws x i) :=
  inferInstanceAs (Decidable ((ls.covariance.get i).get i < ls.explained x i))

/-- Making a covariance symmetric leaves its diagonal alone. -/
theorem diagonal_absorb (ls : LeastSquares α n) (x : Vector α n) (innovation : α) (i : Fin n) :
    ((ls.absorb x innovation (ls.denominator x)).covariance.get i).get i =
      ((ls.covariance.get i).get i - ls.explained x i) / ls.forgetting := by
  show (ls.absorb x innovation (ls.denominator x)).covariance[i][i] =
    (ls.covariance[i][i] - (ls.covariance.mulVec x)[i] * (ls.covariance.mulVec x)[i] /
      ls.denominator x) / ls.forgetting
  simp [absorb, Square.symmetrize, downdate]

/-- Over exact numbers no variance is overdrawn: the new covariance is positive definite again. -/
theorem not_overdraws {ls : LeastSquares ℝ n} (hP : ls.covariance.toMatrix.PosDef)
    (hl : 0 < ls.forgetting) (x : Vector ℝ n) (i : Fin n) : ¬ ls.Overdraws x i := by
  have hvariance : 0 < ((ls.absorbed x 0).covariance.get i).get i :=
    (posDef_absorbed hP hl x 0).diag_pos
  rw [absorbed, diagonal_absorb, div_pos_iff_of_pos_right hl, sub_pos] at hvariance
  exact hvariance.not_gt

end Variance

variable {ls : LeastSquares Float32 n} {x : Vector Float32 n}

/-- A variance ends below zero exactly if it was overdrawn. -/
theorem diagonal_absorb_lt_zero_iff (hpos : 0 < ls.forgetting) (hone : ls.forgetting < 1)
    (hfinite : ls.covariance.IsFinite) (innovation : Float32) (i : Fin n) :
    ((ls.absorb x innovation (ls.denominator x)).covariance.get i).get i < 0 ↔
      ls.Overdraws x i := by
  have hentry : ((ls.covariance.get i).get i).isFinite = true := hfinite i i
  rw [diagonal_absorb, div_lt_zero_iff hpos hone, sub_lt_zero_iff hentry]
  rfl

namespace Absorbs

variable {target uncertainty : Float32} {next : LeastSquares Float32 n}

/-- Where no variance is overdrawn, neither the trace nor that of the seed is below zero. -/
theorem not_uncertainty_lt_zero (h : ls.Absorbs x target uncertainty next) (hls : ls.Intact)
    (hpos : 0 < ls.forgetting) (hone : ls.forgetting < 1) (hnone : ∀ i, ¬ ls.Overdraws x i) :
    ¬ uncertainty < 0 := by
  have hfinite := isFinite_of_denominator (isSound_iff.1 h.sound).2.1
  rcases limitWindup_cases (ls.absorb x (ls.innovation x target) (ls.denominator x)) with
    ⟨-, heq⟩ | ⟨-, heq⟩
  · rw [h.limited] at heq
    cases heq
    exact not_mul_lt_zero (sign?_of_pos hls.seed_pos) (sign?_ofNat n)
  · rw [h.limited] at heq
    cases heq
    refine not_sum_lt_zero fun i => ?_
    exact mt (diagonal_absorb_lt_zero_iff hpos hone hfinite _ i).1 (hnone i)

/-- Where every variance is overdrawn the trace is below zero, so it has not passed that of the
seed and is reported as it is. -/
theorem uncertainty_lt_zero (h : ls.Absorbs x target uncertainty next) (hls : ls.Intact)
    (hpos : 0 < ls.forgetting) (hone : ls.forgetting < 1) (hn : 0 < n)
    (hall : ∀ i, ls.Overdraws x i) : uncertainty < 0 := by
  obtain ⟨-, hdenominator, -⟩ := isSound_iff.1 h.sound
  have hfinite := isFinite_of_denominator hdenominator
  have htrace : (ls.absorb x (ls.innovation x target) (ls.denominator x)).covariance.trace < 0 :=
    sum_lt_zero hn fun i => (diagonal_absorb_lt_zero_iff hpos hone hfinite _ i).2 (hall i)
  have hmaximum : sign? (parts (ls.seed * Scalar.ofNat n)) = some .positive := by
    rw [sign?_mul_of_pos_left hls.seed_pos (hls.isFinite_seed hn hdenominator), sign?_ofNat]
  rcases limitWindup_cases (ls.absorb x (ls.innovation x target) (ls.denominator x)) with
    ⟨hlt, -⟩ | ⟨-, heq⟩
  · exact absurd hlt (not_lt_of_le (le_of_signs (sign?_of_neg htrace) hmaximum))
  · rw [h.limited] at heq
    cases heq
    exact htrace

end Absorbs

/--
**An uncertainty is reported below zero where rounding overdraws the variances.**  An update that is
not given up reports none below zero if it overdraws no variance, and one below zero if it overdraws
every one of them.  What is below zero counts as low enough for any bound above zero, so such an
update has converged as soon as its error is small.
-/
theorem uncertainty_of_overdrawn {seed forgetting : Float32} {start : LeastSquares Float32 n}
    (h : check seed forgetting = .ok start) (uses : List (Use Float32 n)) (x : Vector Float32 n)
    (target : Float32) :
    let now := start.after uses
    let metrics := (now.update x target).result.1
    metrics.degraded = false →
      ((∀ i, ¬ now.Overdraws x i) → 0 ≤ metrics.uncertainty) ∧
      (0 < n → (∀ i, now.Overdraws x i) → metrics.uncertainty < 0) ∧
      (metrics.uncertainty < 0 → ∀ innovationBound uncertaintyBound, 0 < uncertaintyBound →
        metrics.converged innovationBound uncertaintyBound =
          decide (Scalar.abs metrics.innovation < innovationBound)) := by
  intro now metrics hkept
  obtain ⟨uncertainty, next, habsorbs, hupdate⟩ := update_of_not_degraded hkept
  have hsaid : metrics.uncertainty = uncertainty :=
    congrArg (·.result.1.uncertainty) hupdate
  have hnow := intact_after h uses
  obtain ⟨hpos, hone⟩ : 0 < now.forgetting ∧ now.forgetting < 1 := by
    rw [(settings_after h uses).2]
    exact forgetting_of_check h
  rw [hsaid]
  refine ⟨?_, habsorbs.uncertainty_lt_zero hnow hpos hone, ?_⟩
  · intro hnone
    exact le_of_not_lt (isNaN_of_isFinite (isFinite_iff.1 habsorbs.finite).1) (by decide +kernel)
      (habsorbs.not_uncertainty_lt_zero hnow hpos hone hnone)
  · intro hneg innovationBound uncertaintyBound hbound
    have hlow : metrics.uncertainty < uncertaintyBound :=
      hsaid ▸ lt_of_signs (sign?_of_neg hneg) hbound
    unfold Metrics.converged
    rw [hkept, decide_eq_true hlow]
    simp

/-- A sample that overdraws the only variance there is, by its first update. -/
theorem overdrawn_sample_converges :
    ∃ start : LeastSquares Float32 1, check 1000 0.99 = .ok start ∧
      (start.update #v[3000] 0).result.1.degraded = false ∧
      (start.update #v[3000] 0).result.1.uncertainty < 0 ∧
      (start.update #v[3000] 0).result.1.converged 0.001 0.1 = true := by
  refine ⟨_, check_eq_ok ?_ ?_ ?_, ?_, ?_, ?_⟩ <;> decide +kernel

/-- Its uncertainty is below zero for that reason, and all that its bound asks for. -/
theorem uncertainty_of_overdrawn_sample :
    let metrics := ((⟨.replicate 1 0, .diagonal 1000, 1000, 0.99⟩ : LeastSquares Float32 1).update
      #v[3000] 0).result.1
    metrics.degraded = false ∧ metrics.uncertainty < 0 ∧
      ∀ innovationBound, metrics.converged innovationBound 0.1 =
        decide (Scalar.abs metrics.innovation < innovationBound) := by
  intro metrics
  have hkept : metrics.degraded = false := by decide +kernel
  have hstart : check 1000 0.99 =
      .ok (⟨.replicate 1 0, .diagonal 1000, 1000, 0.99⟩ : LeastSquares Float32 1) :=
    check_eq_ok (by decide +kernel) (by decide +kernel) (by decide +kernel)
  obtain ⟨-, hoverdrawn, hconverged⟩ := uncertainty_of_overdrawn hstart [] #v[3000] 0 hkept
  have hneg : metrics.uncertainty < 0 := hoverdrawn (by decide) (by decide +kernel)
  exact ⟨hkept, hneg, fun innovationBound => hconverged hneg innovationBound 0.1 (by decide +kernel)⟩

end LeastSquares

end MotorControl
