/-
Sine and cosine by shifts and additions.

Angles and results are counted in units of `2 ^ -16`.  An angle is first brought
within a quarter turn by taking off half turns, each of which turns the direction
around; then a vector of fixed length is rotated by smaller and smaller angles whose
tangents are powers of two, towards whatever part of the angle is left.
-/
import MotorControl.Frame

namespace MotorControl.Cordic

/-- Half a turn. -/
def halfTurn : Nat := 205887

/-- The angles whose tangents are `1`, `1/2`, `1/4` and so on. -/
def angles : List Int :=
  [51471, 30385, 16054, 8149, 4090, 2047, 1023, 511, 255, 127, 63, 31, 15, 7, 3, 1]

/-- The length of the starting vector: the rotations lengthen it to one. -/
def startLength : Int := 39796

/-- A vector on its way, and the part of the angle that is left. -/
structure State where
  x : Int
  y : Int
  rest : Int
  deriving DecidableEq, Repr

/-- Rotates by the angle with tangent `2 ^ -i`, forwards if some angle is left and backwards
otherwise. -/
def State.rotate (s : State) (i : Nat) (angle : Int) : State :=
  if 0 ≤ s.rest then ⟨s.x - s.y >>> i, s.y + s.x >>> i, s.rest - angle⟩
  else ⟨s.x + s.y >>> i, s.y - s.x >>> i, s.rest + angle⟩

/-- Rotates by a list of angles, the first of which has tangent `2 ^ -i`. -/
def State.rotateAll (s : State) : (i : Nat) → List Int → State
  | _, [] => s
  | i, angle :: more => (s.rotate i angle).rotateAll (i + 1) more

/-- The direction of an angle. -/
def direction (angle : Int) : Direction Int :=
  let s := State.rotateAll ⟨startLength, 0, angle.bmod halfTurn⟩ 0 angles
  if angle.bdiv halfTurn % 2 = 0 then ⟨s.x, s.y⟩ else ⟨-s.x, -s.y⟩

end MotorControl.Cordic
