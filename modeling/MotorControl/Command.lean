/-
The commands a motor is given, and why one is refused.

Commands that carry numbers carry them as text: exactly two positive numbers with
blanks between them.
-/
import MotorControl.Binary32
import MotorControl.Binary32.Text
import MotorControl.Text.Fields

namespace MotorControl

/-- The reasons for which a command is refused. -/
inductive CommandError where
  | invalidNumberOfArguments (expected actual : Nat)
  | invalidResistance
  | invalidInductance
  | invalidTargetSpeed
  | invalidTorqueConstant
  | notRunning
  deriving DecidableEq, Repr

/-- The sentence an error is reported with. -/
def CommandError.message : CommandError → String
  | .invalidNumberOfArguments expected actual =>
    "invalid number of arguments: expected " ++ toString expected ++ ", got " ++ toString actual
  | .invalidResistance => "invalid resistance value. It should be a positive float."
  | .invalidInductance => "invalid inductance value. It should be a positive float."
  | .invalidTargetSpeed => "invalid target speed. It should be a positive float in rpm."
  | .invalidTorqueConstant => "invalid torque constant. It should be a positive float in Nm/A."
  | .notRunning => "the motor is not running"

namespace Command

/-- The positive finite number a field stands for. -/
def positive? (field : List Char) : Option Float32 :=
  (Binary32.read? field).filter fun x => x.isFinite && decide (0 < x)

/-- Two positive numbers.  Their count is looked at first, then the first, then the second. -/
def twoPositive (params : String) (first second : CommandError) :
    Except CommandError (Float32 × Float32) :=
  match Text.fields params.toList with
  | [x, y] =>
    match positive? x, positive? y with
    | some x, some y => .ok (x, y)
    | none, _ => .error first
    | some _, none => .error second
  | fields => .error (.invalidNumberOfArguments 2 fields.length)

end Command

end MotorControl
