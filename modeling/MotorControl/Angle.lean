/-
Angles of a rotor, in radians.
-/
import MotorControl.Angle.Cordic

namespace MotorControl.Angle

variable {α : Type} [Scalar α]

/-- The angle less the whole turns in it, from minus half a turn to half a turn. -/
def wrap (angle : α) : α :=
  angle - Scalar.tau * Scalar.floor ((angle + Scalar.pi) / Scalar.tau)

/-- How far a rotor turned from one reading to another, the shorter way around. -/
def difference (current previous : α) : α :=
  let turned := current - previous
  if Scalar.pi < turned then turned - Scalar.tau
  else if turned < -Scalar.pi then turned + Scalar.tau
  else turned

/-- The direction of an angle.  It is undefined where the wrapped angle is no number or too large
for the fixed point format. -/
def direction (angle : α) : Direction α :=
  match Scalar.toFixed? (wrap angle) with
  | some fixed =>
    let r := Cordic.direction fixed
    ⟨Scalar.ofInt r.cos / 65536, Scalar.ofInt r.sin / 65536⟩
  | none => ⟨Scalar.undefined, Scalar.undefined⟩

end MotorControl.Angle
