/-
Identification of friction and inertia.

The motor is spun under speed control, and the model of the rotor is fitted to the
speeds and the currents of the samples.  The controller runs on every sample; what it
leaves for later has still to be asked for.
-/
import MotorControl.Controller
import MotorControl.Drive
import MotorControl.RotorFit

namespace MotorControl

namespace MechanicalTest

/-- When the session ends. -/
structure Config (α : Type) where
  /-- The time after which the session gives up, in seconds. -/
  timeout : α
  forgetting : α
  innovationBound : α
  uncertaintyBound : α

/-- The configuration where none is given. -/
def Config.standard {α : Type} [Scalar α] : Config α := ⟨5, 0.999, 0.0001, 0.01⟩

/-- What is to be done, and what is known of the motor. -/
structure Task (α : Type) where
  targetSpeed : Quantity .radianPerSecond α
  torqueConstant : Quantity .newtonMeterPerAmpere α
  polePairs : UInt8

end MechanicalTest

/-- An identification of the rotor under way, with a controller of the type `C`. -/
structure MechanicalTest (α C : Type) where
  drive : Drive
  controller : C
  fit : RotorFit α
  config : MechanicalTest.Config α
  torqueConstant : α
  polePairs : α
  /-- Samples per second. -/
  frequency : α
  previousAngle : α
  elapsed : UInt32
  timeoutSamples : UInt32
  completion : Completion (MechanicalParameters α)

namespace MechanicalTest

variable {α C : Type} [Scalar α]

/-- Starts to spin the motor, at which the encoder reads `position`. -/
def begin [Controller C α α] (board : Board) (controller : C) (task : Task α) (config : Config α)
    (position : α) : Except Fault (Traced α (MechanicalTest α C)) := do
  let rate := board.baseFrequency
  let fit ← RotorFit.check config.forgetting rate.toScalar
  return do
    Traced.emit .read
    let controller ← instruct .enable controller
    let controller ← instruct (.setPoint task.targetSpeed.value) controller
    let drive ← Drive.subscribe board
    drive.start
    Traced.emit (.notice (.mechanicalStarted task.targetSpeed.value))
    return {
      drive := drive
      controller := controller
      fit := fit
      config := config
      torqueConstant := task.torqueConstant.value
      polePairs := Scalar.ofNat task.polePairs.toNat
      frequency := rate.toScalar
      previousAngle := position
      elapsed := 0
      timeoutSamples := rate.samplesIn config.timeout
      completion := .pending }

variable {σ : Type} [Controller C α σ]

/-- Does what the controller left for later. -/
def service (t : MechanicalTest α C) : Traced α (MechanicalTest α C) := do
  let controller ← instruct .service t.controller
  return { t with controller := controller }

/-- Ends the session with a result, or without one. -/
def finish (t : MechanicalTest α C) (result : Option (MechanicalParameters α)) :
    Traced α (MechanicalTest α C) := do
  let drive ← t.drive.release
  let controller ← instruct .disable t.controller
  return { t with drive := drive, controller := controller, completion := .done result }

/-- Takes one sample, at which the encoder reads `position`. -/
def sample (t : MechanicalTest α C) (currents : Phases α) (position : α) :
    Traced α (MechanicalTest α C) := do
  if t.drive.active then
    Traced.emit .read
    let (duties, controller) ← Controller.calculate currents position t.controller
    Traced.emit (.pwm duties)
    let speed := Angle.difference position t.previousAngle * t.frequency
    let (estimate, fit) ← t.fit.update ⟨currents, speed, position * t.polePairs⟩ t.torqueConstant
    let t := { t with
      controller := controller
      fit := fit
      previousAngle := position
      elapsed := t.elapsed + 1 }
    if estimate.metrics.converged t.config.innovationBound t.config.uncertaintyBound then
      let found : MechanicalParameters α := ⟨⟨estimate.friction⟩, ⟨estimate.inertia⟩⟩
      Traced.emit (.notice (.mechanicalFinished found t.elapsed))
      t.finish (some found)
    else if t.timeoutSamples < t.elapsed then
      Traced.emit (.notice .mechanicalTimedOut)
      t.finish none
    else return t
  else return t

/-- Ends the session and hands the board and the disabled controller back. -/
def intoParts (t : MechanicalTest α C) : Traced α (Board × C) := do
  let board ← t.drive.intoBoard
  let controller ← instruct .disable t.controller
  return (board, controller)

end MechanicalTest

end MotorControl
