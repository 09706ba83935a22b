/-
The three frames a motor's currents and voltages are described in.

Three phases, 120 degrees apart; a stationary frame of two axes at a right angle;
and a frame of two axes that turns with the rotor.  The transform from three phases
keeps amplitudes and uses all three values, so an offset common to the phases has
no part in the result.
-/
import MotorControl.Duty

namespace MotorControl

/-- A vector in the stationary frame. -/
structure Stationary (α : Type) where
  alpha : α
  beta : α
  deriving DecidableEq, Repr

/-- A vector in the frame of the rotor. -/
structure Rotating (α : Type) where
  d : α
  q : α
  deriving DecidableEq, Repr

/-- The direction of a rotor, as the cosine and the sine of its angle. -/
structure Direction (α : Type) where
  cos : α
  sin : α
  deriving DecidableEq, Repr

variable {α : Type} [Scalar α]

/-- The vector of three phases in the stationary frame. -/
def Phases.toStationary (p : Phases α) : Stationary α where
  alpha := (2 * p.a - p.b - p.c) / 3
  beta := Scalar.invSqrtThree * (p.b - p.c)

/-- The three phases of a vector in the stationary frame; they add up to nothing. -/
def Stationary.toPhases (v : Stationary α) : Phases α where
  a := v.alpha
  b := (-v.alpha + Scalar.sqrtThree * v.beta) / 2
  c := (-v.alpha - Scalar.sqrtThree * v.beta) / 2

/-- The vector as the rotor sees it. -/
def Stationary.toRotating (v : Stationary α) (r : Direction α) : Rotating α where
  d := r.cos * v.alpha + r.sin * v.beta
  q := r.cos * v.beta - r.sin * v.alpha

/-- The vector as it stands outside the rotor. -/
def Rotating.toStationary (v : Rotating α) (r : Direction α) : Stationary α where
  alpha := r.cos * v.d - r.sin * v.q
  beta := r.sin * v.d + r.cos * v.q

/-- The vector of three phases as the rotor sees it. -/
def Phases.toRotating (p : Phases α) (r : Direction α) : Rotating α :=
  p.toStationary.toRotating r

end MotorControl
