/-
Gains of a speed loop from the rotor it turns.

On every tick an estimator of the rotor takes a sample.  Once its estimate has
converged the gains are set so that the loop is as fast as it is sampled: with the
bandwidth `ω`, the proportional gain is `ω J` and the integral gain `ω B`.
-/
import MotorControl.RotorFit
import MotorControl.SpeedLoop

namespace MotorControl

namespace Tuner

/-- When an estimate is taken as converged, and what is known of the loop. -/
structure Config (α : Type) where
  innovationBound : α
  uncertaintyBound : α
  /-- Ticks per second. -/
  frequency : α
  torqueConstant : Quantity .newtonMeterPerAmpere α
  forgetting : α

/-- The configuration where none is given. -/
def Config.standard {α : Type} [Scalar α] : Config α where
  innovationBound := 0.001
  uncertaintyBound := 0.1
  frequency := 1000
  torqueConstant := ⟨0.1⟩
  forgetting := RotorFit.defaultForgetting

end Tuner

/-- A tuner with an estimator of the type `E`. -/
structure Tuner (α E : Type) where
  estimator : E
  config : Tuner.Config α
  bandwidth : α
  /-- The gains of the last estimate that converged. -/
  tunings : Option (Tunings α)

namespace Tuner

variable {α E : Type} [Scalar α]

/-- A tuner that has not seen an estimate yet. -/
def ofEstimator (config : Config α) (estimator : E) : Tuner α E :=
  ⟨estimator, config, config.frequency * Scalar.tau, none⟩

/-- A tuner that fits the rotor itself. -/
def check (config : Config α) : Except Fault (Tuner α (RotorFit α)) := do
  let fit ← RotorFit.check config.forgetting config.frequency
  return .ofEstimator config fit

/-- The gains for a rotor. -/
def gains (t : Tuner α E) (e : RotorEstimate α) : Tunings α :=
  ⟨t.bandwidth * e.inertia, t.bandwidth * e.friction, 0⟩

variable [RotorEstimator E α]

/-- Takes one sample and answers gains if the estimate has converged. -/
def observe (t : Tuner α E) (s : LoopSample α) :
    Traced α (Option (Tunings α) × Tuner α E) := do
  let torqueConstant := t.config.torqueConstant.value
  Traced.emit (.estimate s torqueConstant)
  let (e, estimator) ← RotorEstimator.estimate s torqueConstant t.estimator
  if e.metrics.converged t.config.innovationBound t.config.uncertaintyBound then
    let gains := t.gains e
    Traced.emit (.notice (.speedTuned e.inertia e.friction gains))
    return (some gains, { t with estimator := estimator, tunings := some gains })
  else return (none, { t with estimator := estimator })

/-- A tuner asks nothing of the board or of the encoder, since its estimator does not. -/
theorem observe_detached (t : Tuner α E) (s : LoopSample α) : (t.observe s).Detached := by
  unfold observe
  simp only [Traced.bind_detached_iff, Traced.emit_detached_iff]
  refine ⟨rfl, RotorEstimator.estimate_detached _ _ _, ?_⟩
  split
  · simp [Event.isPeripheral]
  · exact Traced.pure_detached _

instance : LoopObserver (Tuner α E) α where
  tick s t := t.observe s
  tick_detached s t := t.observe_detached s

end Tuner

/-- A speed loop that tunes itself at the rate it ticks. -/
def SpeedLoop.checkSelfTuning {α : Type} [Scalar α] (maxCurrent : Quantity .ampere α)
    (pwm : Hertz) (ratio : OuterRatio) : Except Fault (SpeedLoop α (Tuner α (RotorFit α))) := do
  let tuner ← Tuner.check { Tuner.Config.standard with frequency := ratio.outerFrequency pwm }
  SpeedLoop.check tuner maxCurrent pwm ratio

end MotorControl
