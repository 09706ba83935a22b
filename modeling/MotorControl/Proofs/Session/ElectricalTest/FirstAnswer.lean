/-
A test that is content with its first answer.

The search ends early where the bounds of the fit are wide: in exact arithmetic the
first answer moves the coefficients along its regressor, so a voltage above zero and a
current that rises give a resistance and an inductance above zero at once.
-/
import MotorControl.Proofs.LeastSquares.Covariance
import MotorControl.Proofs.Exact.Duty
import MotorControl.Proofs.Session.ElectricalTest.Schedule

namespace MotorControl

/-- A time that is a whole number of samples takes as many, and one at least. -/
theorem Hertz.samplesIn_of_mul_eq {f : Hertz} {seconds : ℝ} {n : ℕ}
    (h : seconds * f.value.toNat = n) (hn : n ≤ 4294967295) :
    f.samplesIn seconds = max (.ofNat n) 1 := by
  have hround : Exact.round (seconds * f.value.toNat) = n := by
    rw [h, Exact.round_eq_iff n.cast_nonneg, Int.cast_natCast]
    constructor <;> linarith
  show max (UInt32.ofNat (min ⌊((Exact.round (seconds * f.value.toNat) : ℤ) : ℝ)⌋₊ 4294967295)) 1 =
    max (.ofNat n) 1
  rw [hround, Int.cast_natCast, Nat.floor_natCast, Nat.min_eq_left hn]

namespace ElectricalTest

open Real

/-- Every forgetting factor that is not too small is accepted, and the fit of the test starts from a
model that knows nothing. -/
theorem exists_begun (board : Board) (vdc : Quantity .volt ℝ) {config : Config ℝ}
    (hepsilon : Scalar.epsilon < config.forgetting) (hone : config.forgetting < 1) :
    ∃ begun, begin board vdc config = .ok begun ∧ begun.result.model.Regular ∧
      begun.result.model.reset = begun.result.model ∧ begun.result.model.seed = 1000 := by
  have hseed : (0 : ℝ) < LeastSquares.motorSeed := by
    show (0 : ℝ) < ((1000 : ℕ) : ℝ)
    norm_num
  obtain ⟨start, hcheck, hregular, hstart, -⟩ :=
    LeastSquares.exists_start (n := 3) hseed hepsilon hone
  unfold begin
  rw [hcheck]
  exact ⟨_, rfl, hregular, LeastSquares.reset_of_check hcheck, hstart⟩

/-! ### What is put out and what answers -/

/-- A vector along the axis raises the first phase and lowers the other two. -/
theorem alongAxis_eq {v : ℝ} (hv : 0 < v) : alongAxis v = .ofFractions
    ⟨(1 + √3 / 2 * v) / 2, (1 - √3 / 2 * v) / 2, (1 - √3 / 2 * v) / 2⟩ := by
  have hpos : 0 < √3 * v := mul_pos (by positivity) hv
  have hy : 0 ≤ (0 + Scalar.sqrtThree * v) / 2 := by
    show 0 ≤ (0 + √3 * v) / 2
    linarith
  have hz : ¬ 0 ≤ (0 - Scalar.sqrtThree * v) / 2 := by
    show ¬ 0 ≤ (0 - √3 * v) / 2
    linarith
  rw [alongAxis, Stationary.modulate, Stationary.fractions]
  simp only [Exact.zero_eq, Exact.one_eq]
  rw [decide_eq_true hy, decide_eq_false hz, decide_eq_true le_rfl]
  simp only [SectorPair.ofSigns, Phases.map]
  have hsqrt : (Scalar.sqrtThree : ℝ) = √3 := rfl
  rw [hsqrt]
  congr 2
  · ring
  · ring
  · ring

/-- The voltage along the axis, from the shares in percent. -/
theorem alpha_appliedVoltage (d : Duties) (vdc : ℝ) : (appliedVoltage d vdc).alpha =
    (2 * d.a.value.toNat - d.b.value.toNat - d.c.value.toNat) / 300 * vdc := by
  show (2 * (((d.a.value.toNat : ℕ) : ℝ) * 0.01 * vdc) - (d.b.value.toNat : ℕ) * 0.01 * vdc
    - (d.c.value.toNat : ℕ) * 0.01 * vdc) / 3 = _
  ring

/-- The longest vector along the axis puts two thirds of the bus voltage on it. -/
theorem alpha_saturated {v vdc : ℝ} (hv : 2 ≤ v) :
    (appliedVoltage (alongAxis v) vdc).alpha = 2 / 3 * vdc := by
  have hroot : 1 ≤ √3 := one_le_sqrt.2 (by norm_num)
  have hlong : 1 ≤ √3 / 2 * v := by nlinarith
  rw [alpha_appliedVoltage, alongAxis_eq (by linarith)]
  simp only [Duties.ofFractions, Phases.map]
  rw [Percent.ofFraction_of_one_le (by linarith), Percent.ofFraction_of_nonpos (by linarith)]
  push_cast
  ring

/-- A fit that knows nothing is content with its first answer, if its bounds are wide, and finds
values above zero for a voltage and regressors above zero. -/
theorem fits_at_once {ls : LeastSquares ℝ 3} (h : ls.Regular) (hreset : ls.reset = ls)
    {x : Vector ℝ 3} {y innovationBound uncertaintyBound : ℝ} (hfirst : 0 < x.get 0)
    (hsecond : 0 < x.get 1) (hy : 0 < y) (hinnovation : y < innovationBound)
    (huncertainty : ls.seed * 3 < uncertaintyBound) :
    (ls.update x y).result.1.converged innovationBound uncertaintyBound = true ∧
      0 < (ls.update x y).result.2.first ∧ 0 < (ls.update x y).result.2.second := by
  have hgain : 0 < y * ls.seed / ls.denominator x :=
    div_pos (mul_pos hy h.seed_pos) (h.denominator_pos x)
  have hget := h.get_update_reset x y
  rw [hreset] at hget
  obtain ⟨next, hnext, hupdate⟩ := h.update_spec (by decide) x y
  have hseed : next.seed = ls.seed := by
    have := (LeastSquares.update_sameSettings ls x y).1
    rwa [hupdate] at this
  refine ⟨?_, ?_, ?_⟩
  · have htrace : next.covariance.trace < uncertaintyBound :=
      hnext.trace_le.trans_lt (by rw [hseed]; exact huncertainty)
    have herror := ls.innovation_reset x y
    rw [hreset] at herror
    rw [hupdate, Traced.pure_result, Metrics.converged, herror]
    simp only [Bool.and_eq_true, decide_eq_true_eq]
    exact ⟨⟨rfl, (abs_of_pos hy).trans_lt hinnovation⟩, htrace⟩
  · have := congrFun hget 0
    exact (mul_pos hgain hfirst).trans_eq this.symm
  · have := congrFun hget 1
    exact (mul_pos hgain hsecond).trans_eq this.symm

/-- The first answer to the square wave is enough for a fit that is content with any, if the voltage
and the current that answers to it rise. -/
theorem firstFinds_two {t : ElectricalTest ℝ} {samples : ℕ → Phases ℝ × ℝ}
    (hmodel : t.model.Regular) (hreset : t.model.reset = t.model) (hfrequency : 0 < t.frequency)
    (hvoltage : 0 < (appliedVoltage (t.wave 1) t.vdc).alpha)
    (hinnovation : (appliedVoltage (t.wave 1) t.vdc).alpha < t.config.innovationBound)
    (huncertainty : t.model.seed * 3 < t.config.uncertaintyBound)
    (hcurrent : 0 ≤ current samples 1) (hrise : current samples 1 < current samples 2) :
    t.FirstFinds samples 2 := by
  have hmean : 0 < 0.5 * (current samples 2 + current samples 1) :=
    mul_pos (by norm_num) (by linarith)
  have hslope : 0 < (current samples 2 - current samples 1) * t.frequency :=
    mul_pos (by linarith) hfrequency
  refine ⟨?_, fun i hi => ?_⟩
  · unfold finds
    simp only [fitted, Option.any_some, Exact.zero_eq, Bool.and_eq_true, decide_eq_true_eq,
      and_assoc]
    exact fits_at_once hmodel hreset hmean hslope hvoltage hinnovation huncertainty
  · obtain rfl | rfl : i = 0 ∨ i = 1 := by omega
    · rfl
    · rfl

end ElectricalTest

end MotorControl
