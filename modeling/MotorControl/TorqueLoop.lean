/-
The torque loop, the innermost and fastest of the loops.

The currents along and across the rotor are regulated apart, each by a regulator
whose output is a voltage measured in the largest one the bridge can produce in
every direction.  The gains are given for true voltages and scaled by the bus
voltage, so they do not depend on it.
-/
import MotorControl.Angle
import MotorControl.Controller

namespace MotorControl

/-- The two current regulators and the ratio of electrical to mechanical turns. -/
structure TorqueLoop (α : Type) where
  d : Regulator α
  q : Regulator α
  polePairs : α
  deriving DecidableEq, Repr

namespace TorqueLoop

variable {α : Type} [Scalar α]

/-- An enabled loop without gains, for one pole pair and no current. -/
def new : TorqueLoop α :=
  let idle : Regulator α := .new .zero (.symmetric 1)
  ⟨idle.enable, idle.enable, 1⟩

/-- The gains as they are applied, scaled by the bus voltage. -/
def currentTunings (t : TorqueLoop α) : AxisTunings α := ⟨t.d.tunings, t.q.tunings⟩

/-- The currents to be kept. -/
def setPoint (t : TorqueLoop α) : Rotating α := ⟨t.d.setPoint, t.q.setPoint⟩

/-- Whether both regulators are enabled. -/
def isEnabled (t : TorqueLoop α) : Bool := t.d.enabled && t.q.enabled

/-- The ratio of electrical to mechanical turns. -/
def setPolePairs (t : TorqueLoop α) (n : UInt8) : TorqueLoop α :=
  { t with polePairs := Scalar.ofNat n.toNat }

/-- Changes the gains, given for a bus voltage. -/
def setCurrentTunings (t : TorqueLoop α) (vdc : α) (gains : AxisTunings α) : TorqueLoop α :=
  let scale := 1 / (Scalar.invSqrtThree * vdc)
  { t with
    d := t.d.setTunings (gains.d.scaled scale)
    q := t.q.setTunings (gains.q.scaled scale) }

/-- Changes the currents to be kept. -/
def setSetPoint (t : TorqueLoop α) (target : Rotating α) : TorqueLoop α :=
  { t with d := t.d.setSetPoint target.d, q := t.q.setSetPoint target.q }

/-- Enables both regulators. -/
def enable (t : TorqueLoop α) : TorqueLoop α := { t with d := t.d.enable, q := t.q.enable }

/-- Disables both regulators. -/
def disable (t : TorqueLoop α) : TorqueLoop α := { t with d := t.d.disable, q := t.q.disable }

/-- Arms both regulators with a clean history. -/
def reset (t : TorqueLoop α) : TorqueLoop α := t.disable.enable

/-- Takes one sample: the voltage to be put on the windings, and the loop after it. -/
def voltage (t : TorqueLoop α) (currents : Phases α) (angle : α) : Stationary α × TorqueLoop α :=
  let direction := Angle.direction (angle * t.polePairs)
  let measured := currents.toRotating direction
  let (d, dNext) := t.d.process measured.d
  let (q, qNext) := t.q.process measured.q
  ((⟨d, q⟩ : Rotating α).toStationary direction, { t with d := dNext, q := qNext })

/-- Takes one sample: the duties of the bridge, and the loop after it. -/
def calculate (t : TorqueLoop α) (currents : Phases α) (angle : α) : Duties × TorqueLoop α :=
  let (v, next) := t.voltage currents angle
  (v.modulate, next)

/-- Carries an instruction out.  Nothing is ever left for later, and there is no speed to tune. -/
def obey (t : TorqueLoop α) : Instruction α (Rotating α) → TorqueLoop α
  | .enable => t.enable
  | .disable => t.disable
  | .reset => t.reset
  | .polePairs n => t.setPolePairs n
  | .setPoint target => t.setSetPoint target
  | .currentTunings vdc gains => t.setCurrentTunings vdc gains
  | .service | .speedTunings _ => t

instance : Controller (TorqueLoop α) α (Rotating α) where
  reference := .currents
  obey call t := t.obey call
  calculate currents angle t := pure (t.calculate currents angle)
  calculate_detached _ _ _ := Traced.pure_detached _

end TorqueLoop

end MotorControl
