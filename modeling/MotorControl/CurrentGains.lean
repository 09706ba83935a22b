/-
Gains of the current loop from the winding.

The loop is made as fast as an outer loop of the given ratio would be sampled.  The
inductance then sets the proportional gain and the resistance the integral one, which
cancels the pole of the winding.
-/
import MotorControl.Controller

namespace MotorControl.CurrentGains

variable {α : Type} [Scalar α]

/-- The bandwidth of the current loop, in radians per second. -/
def bandwidth (base : Hertz) (ratio : OuterRatio) : α :=
  ratio.outerFrequency base * Scalar.tau

/-- The gains for a winding. -/
def ofWinding (resistance : Quantity .ohm α) (inductance : Quantity .millihenry α)
    (base : Hertz) (ratio : OuterRatio) : AxisTunings α :=
  let ω := bandwidth base ratio
  .both ⟨inductance.henry * ω, resistance.value * ω, 0⟩

end MotorControl.CurrentGains
