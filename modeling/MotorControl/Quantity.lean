/-
Numbers that carry their unit.

A `Quantity u α` is a scalar measured in the unit `u`.  Sums are taken within one
unit and scaling is by plain numbers, so a resistance cannot be added to an
inductance.
-/
import MotorControl.Binary32.Text
import MotorControl.Scalar

namespace MotorControl

/-- The units of the quantities that describe a motor and its supply. -/
inductive PhysicalUnit where
  | volt
  | ampere
  | ohm
  | millihenry
  | radian
  | radianPerSecond
  | newtonMeter
  | newtonMeterPerAmpere
  | newtonMeterSecondPerRadian
  | newtonMeterSecondSquared
  deriving DecidableEq, Repr

/-- Every unit. -/
def PhysicalUnit.all : List PhysicalUnit :=
  [.volt, .ampere, .ohm, .millihenry, .radian, .radianPerSecond, .newtonMeter,
    .newtonMeterPerAmpere, .newtonMeterSecondPerRadian, .newtonMeterSecondSquared]

/-- The name of a unit, as it stands in front of a number. -/
def PhysicalUnit.name : PhysicalUnit → String
  | .volt => "Volts"
  | .ampere => "Ampere"
  | .ohm => "Ohm"
  | .millihenry => "MilliHenry"
  | .radian => "Radians"
  | .radianPerSecond => "RadiansPerSecond"
  | .newtonMeter => "NewtonMeter"
  | .newtonMeterPerAmpere => "NewtonMeterPerAmpere"
  | .newtonMeterSecondPerRadian => "NewtonMeterSecondPerRadian"
  | .newtonMeterSecondSquared => "NewtonMeterSecondSquared"

/-- A scalar in a unit. -/
structure Quantity (u : PhysicalUnit) (α : Type) where
  value : α

namespace Quantity

variable {u : PhysicalUnit} {α : Type} [Scalar α]

/-- No amount at all. -/
def zero : Quantity u α := ⟨0⟩

instance : Add (Quantity u α) := ⟨fun a b => ⟨a.value + b.value⟩⟩

instance : Sub (Quantity u α) := ⟨fun a b => ⟨a.value - b.value⟩⟩

instance : Neg (Quantity u α) := ⟨fun a => ⟨-a.value⟩⟩

instance : HMul (Quantity u α) α (Quantity u α) := ⟨fun a x => ⟨a.value * x⟩⟩

instance : HDiv (Quantity u α) α (Quantity u α) := ⟨fun a x => ⟨a.value / x⟩⟩

/-- How two amounts of one unit compare; an undefined amount compares with none. -/
def compare? (a b : Quantity u α) : Option Ordering :=
  if a.value < b.value then some .lt
  else if b.value < a.value then some .gt
  else if a.value ≤ b.value then some .eq
  else none

/-- An inductance in henry. -/
def henry (l : Quantity .millihenry α) : α := l.value * 0.001

/-- The speed of a rotor that turns `rpm` times a minute. -/
def ofRpm (rpm : α) : Quantity .radianPerSecond α := ⟨rpm * Scalar.tau / 60⟩

/-- The amount with the name of its unit. -/
def text (a : Quantity u Float32) : String :=
  u.name ++ "(" ++ Binary32.text .pointed a.value ++ ")"

end Quantity

end MotorControl
