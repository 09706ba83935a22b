/-
What can be learned about a motor.
-/
import MotorControl.Quantity

namespace MotorControl

/-- The winding of a motor. -/
structure ElectricalParameters (α : Type) where
  resistance : Quantity .ohm α
  inductance : Quantity .millihenry α
  /-- How often the field turns in one turn of the rotor. -/
  polePairs : UInt8

/-- The rotor of a motor. -/
structure MechanicalParameters (α : Type) where
  friction : Quantity .newtonMeterSecondPerRadian α
  inertia : Quantity .newtonMeterSecondSquared α

/-- The winding on one line. -/
def ElectricalParameters.text (p : ElectricalParameters Float32) : String :=
  "ElectricalParameters \x7b resistance: " ++ p.resistance.text ++ ", inductance: "
    ++ p.inductance.text ++ ", pole_pairs: " ++ toString p.polePairs.toNat ++ " \x7d"

/-- The rotor on one line. -/
def MechanicalParameters.text (p : MechanicalParameters Float32) : String :=
  "MechanicalParameters \x7b friction: " ++ p.friction.text ++ ", inertia: "
    ++ p.inertia.text ++ " \x7d"

end MotorControl
