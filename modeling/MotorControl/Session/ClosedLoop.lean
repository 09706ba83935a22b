/-
A motor under control.

Every sample reads the encoder, runs the controller and puts its duties out.  The
controller is armed before the bridge is switched on, and disarmed after it is
switched off.
-/
import MotorControl.Controller
import MotorControl.Drive

namespace MotorControl

/-- A board and a controller of the type `C` at work. -/
structure ClosedLoop (C : Type) where
  board : Board
  controller : C
  enabled : Bool

namespace ClosedLoop

variable {C α σ : Type} [Controller C α σ]

/-- Asks for samples at the base frequency.  The bridge stays off. -/
def begin (board : Board) (controller : C) : Traced α (ClosedLoop C) := do
  Traced.emit (.subscribe board.baseFrequency)
  return ⟨board, controller, false⟩

/-- Arms the controller and switches the bridge on. -/
def enable (l : ClosedLoop C) : Traced α (ClosedLoop C) := do
  let controller ← instruct .enable l.controller
  Traced.emit .start
  Traced.emit (.notice .loopEnabled)
  return { l with controller := controller, enabled := true }

/-- Switches the bridge off and disarms the controller. -/
def disable (l : ClosedLoop C) : Traced α (ClosedLoop C) := do
  Traced.emit .stop
  let controller ← instruct .disable l.controller
  if l.enabled then Traced.emit (.notice .loopDisabled)
  return { l with controller := controller, enabled := false }

/-- Gives an instruction to the controller. -/
def order (l : ClosedLoop C) (call : Instruction α σ) : Traced α (ClosedLoop C) := do
  let controller ← instruct call l.controller
  return { l with controller := controller }

/-- Takes one sample, at which the encoder reads `position`. -/
def sample (l : ClosedLoop C) (currents : Phases α) (position : α) : Traced α (ClosedLoop C) := do
  Traced.emit .read
  let (duties, controller) ← Controller.calculate currents position l.controller
  Traced.emit (.pwm duties)
  return { l with controller := controller }

/-- Stops, and hands the board and the disarmed controller back.  A loop that goes out of use does
the same. -/
def intoParts (l : ClosedLoop C) : Traced α (Board × C) := do
  let stopped ← l.disable
  Traced.emit .unsubscribe
  return (stopped.board, stopped.controller)

end ClosedLoop

end MotorControl
