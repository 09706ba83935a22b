/-
Who has the motor.

The board and the controller of a motor have one user at a time: nobody, a session, or
the closed loop.  Whoever it is can be dismantled, which stops what runs and gives the
board and the controller back.
-/
import MotorControl.Binary32
import MotorControl.Session.Alignment
import MotorControl.Session.ClosedLoop
import MotorControl.Session.ElectricalTest
import MotorControl.Session.MechanicalTest

namespace MotorControl

/-- The user of the board and of the controller, which is of the type `C`. -/
inductive Occupant (C : Type) where
  | idle (board : Board) (controller : C)
  | aligning (session : Alignment Float32) (controller : C)
  | identifyingElectrical (session : ElectricalTest Float32) (controller : C)
  | identifyingMechanical (session : MechanicalTest Float32 C)
  | running (loop : ClosedLoop C)

namespace Occupant

variable {C σ : Type} [Controller C Float32 σ]

/-- What the motor is busy with. -/
def activity : Occupant C → Activity
  | .idle .. => .idle
  | .aligning .. => .aligning
  | .identifyingElectrical .. => .identifyingElectrical
  | .identifyingMechanical _ => .identifyingMechanical
  | .running _ => .running

/-- The controller, wherever it is. -/
def controller : Occupant C → C
  | .idle _ controller | .aligning _ controller | .identifyingElectrical _ controller => controller
  | .identifyingMechanical session => session.controller
  | .running loop => loop.controller

/-- Stops whatever runs and gives the board and the controller back. -/
def dismantle : Occupant C → Traced Float32 (Board × C)
  | .idle board controller => return (board, controller)
  | .aligning session controller => do
    let controller ← instruct .disable controller
    let board ← session.intoBoard
    return (board, controller)
  | .identifyingElectrical session controller => do
    let controller ← instruct .disable controller
    let board ← session.intoBoard
    return (board, controller)
  | .identifyingMechanical session => session.intoParts
  | .running loop => loop.intoParts

end Occupant

end MotorControl
