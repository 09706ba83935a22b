/-
Friction and inertia of a rotor from its motion.

The torque of the windings accelerates the rotor and overcomes its friction and a
constant load.  The model `torque = J acceleration + B speed + load` is fitted by
recursive least squares, with the torque taken from the current across the rotor.
-/
import MotorControl.Angle
import MotorControl.LeastSquares
import MotorControl.Script

namespace MotorControl

/-- What an estimator says about a rotor. -/
structure RotorEstimate (α : Type) where
  inertia : α
  friction : α
  metrics : Metrics α

/-- Estimators of a rotor. -/
class RotorEstimator (E α : Type) where
  /-- Takes one sample, for a motor of the given torque constant. -/
  estimate : LoopSample α → α → E → Traced α (RotorEstimate α × E)
  /-- An estimator asks nothing of the board or of the encoder. -/
  estimate_detached (s : LoopSample α) (torqueConstant : α) (e : E) :
    (estimate s torqueConstant e).Detached

/-- The model under estimation, and the speed of the last sample. -/
structure RotorFit (α : Type) where
  model : LeastSquares α 3
  /-- Samples per second. -/
  frequency : α
  previousSpeed : α

namespace RotorFit

variable {α : Type} [Scalar α]

/-- The forgetting factor where none is given. -/
def defaultForgetting : α := 0.99

/-- A model that knows nothing of a rotor at rest. -/
def check (forgetting frequency : α) : Except Fault (RotorFit α) := do
  let model ← LeastSquares.check LeastSquares.motorSeed forgetting
  return ⟨model, frequency, 0⟩

/-- Forgets everything. -/
def reset (f : RotorFit α) : RotorFit α := { f with model := f.model.reset, previousSpeed := 0 }

/-- Takes one sample. -/
def update (f : RotorFit α) (s : LoopSample α) (torqueConstant : α) :
    Traced α (RotorEstimate α × RotorFit α) := do
  let q := (s.currents.toRotating (Angle.direction s.electricalAngle)).q
  let acceleration := (s.speed - f.previousSpeed) * f.frequency
  let (metrics, model) ← f.model.update (regressor acceleration s.speed 1) (q * torqueConstant)
  return (⟨model.first, model.second, metrics⟩,
    { f with model := model, previousSpeed := s.speed })

theorem update_detached (f : RotorFit α) (s : LoopSample α) (torqueConstant : α) :
    (f.update s torqueConstant).Detached := by
  unfold update
  exact (Traced.bind_detached_iff _ _).mpr ⟨f.model.update_detached _ _, Traced.pure_detached _⟩

instance : RotorEstimator (RotorFit α) α where
  estimate s torqueConstant f := f.update s torqueConstant
  estimate_detached s torqueConstant f := f.update_detached s torqueConstant

/-- A script of estimates; after its end it answers nothing but zeros. -/
instance : RotorEstimator (Script (RotorEstimate α)) α where
  estimate _ _ s := return (s.next.1.getD ⟨0, 0, ⟨0, 0, 0, false⟩⟩, s.next.2)
  estimate_detached _ _ _ := Traced.pure_detached _

end RotorFit

end MotorControl
