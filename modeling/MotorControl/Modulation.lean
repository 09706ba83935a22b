/-
Space vector modulation.

A voltage vector of the stationary frame is turned into the fractions of a period
that the three half bridges conduct.  Vectors are measured so that length one is
the largest that the bridge produces in every direction without saturation, the bus
voltage over the square root of three; longer ones give fractions outside the range
from zero to one, and the duties move those to its ends.

The signs of three projections name the sector the vector lies in, and each pair of
opposite sectors shares its formulas.
-/
import MotorControl.Frame

namespace MotorControl

/-- The six sectors of the stationary frame, by opposite pairs. -/
inductive SectorPair where
  | first
  | second
  | third
  deriving DecidableEq, Repr

/-- The pair of sectors of a vector, from the signs of its three projections. -/
def SectorPair.ofSigns : (x y z : Bool) → SectorPair
  | true, true, false => .first
  | _, true, true => .second
  | true, false, true => .third
  | false, false, true => .first
  | _, false, false => .second
  | false, true, false => .third

namespace Stationary

variable {α : Type} [Scalar α]

/-- The fractions that put a voltage vector on the windings. -/
def fractions (v : Stationary α) : Phases α :=
  let scaled := Scalar.sqrtThree * v.alpha
  let x := v.beta
  let y := (v.beta + scaled) / 2
  let z := (v.beta - scaled) / 2
  let twice : Phases α :=
    match SectorPair.ofSigns (decide (0 ≤ x)) (decide (0 ≤ y)) (decide (0 ≤ z)) with
    | .first => ⟨1 + x - z, 1 + x + z, 1 - x + z⟩
    | .second => ⟨1 + y - z, 1 + y + z, 1 - y - z⟩
    | .third => ⟨1 + y - x, 1 - y + x, 1 - y - x⟩
  twice.map (· / 2)

/-- The duties that put a voltage vector on the windings. -/
def modulate (v : Stationary α) : Duties := .ofFractions v.fractions

end Stationary

end MotorControl
