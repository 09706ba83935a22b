/-
The speed loop, cascaded on the torque loop.

Once in as many samples as the outer ratio says, the loop ticks: it measures the
speed of the rotor over the samples since the last tick, regulates it, and leaves
the current that this takes in a handoff.  The handler of low priority takes the
current from there to the torque loop, which runs on every sample.
-/
import MotorControl.Handoff
import MotorControl.SpeedLoop.Observer
import MotorControl.TorqueLoop

namespace MotorControl

/-- A speed loop with an observer of the type `O`. -/
structure SpeedLoop (α O : Type) where
  observer : O
  torque : TorqueLoop α
  regulator : Regulator α
  /-- The current across the rotor that the last tick asked for. -/
  target : Handoff α
  ratio : OuterRatio
  /-- The samples left up to the next tick, that sample included. -/
  countdown : UInt8
  /-- The time between two ticks, in seconds. -/
  period : α
  /-- The angle of the rotor at the last tick. -/
  previousAngle : α
  polePairs : α
  /-- The speed measured at the last tick. -/
  speed : α

namespace SpeedLoop

variable {α O : Type} [Scalar α]

/-- An enabled loop without gains, at rest.  The current limit must be above zero. -/
def check (observer : O) (maxCurrent : Quantity .ampere α) (pwm : Hertz) (ratio : OuterRatio) :
    Except Fault (SpeedLoop α O) :=
  if 0 < maxCurrent.value then
    .ok {
      observer := observer
      torque := .new
      regulator := (Regulator.new .zero (.symmetric maxCurrent.value)).enable
      target := .empty
      ratio := ratio
      countdown := ratio.value
      period := ratio.outerPeriod pwm
      previousAngle := 0
      polePairs := 1
      speed := 0 }
  else .error .nonPositiveMaxCurrent

/-! ### Instructions -/

/-- Changes the gains of the speed regulator, given for continuous time. -/
def setSpeedTunings (s : SpeedLoop α O) (t : Tunings α) : SpeedLoop α O :=
  { s with regulator := s.regulator.setTunings ⟨t.kp, t.ki * s.period, t.kd / s.period⟩ }

/-- Enables the torque loop and the speed regulator. -/
def enable (s : SpeedLoop α O) : SpeedLoop α O :=
  { s with torque := s.torque.enable, regulator := s.regulator.enable }

/-- Disables the speed regulator and the torque loop. -/
def disable (s : SpeedLoop α O) : SpeedLoop α O :=
  { s with torque := s.torque.disable, regulator := s.regulator.disable }

/-- Arms every regulator with a clean history and forgets what was measured. -/
def reset (s : SpeedLoop α O) : SpeedLoop α O :=
  { s with
    regulator := s.regulator.disable.enable
    torque := s.torque.reset
    target := s.target.clear
    previousAngle := 0
    countdown := s.ratio.value
    speed := 0 }

/-- Takes the current of the last tick to the torque loop, if that was not done yet. -/
def service (s : SpeedLoop α O) : SpeedLoop α O :=
  match s.target.take with
  | (some q, target) => { s with target := target, torque := s.torque.setSetPoint ⟨0, q⟩ }
  | (none, target) => { s with target := target }

/-- Carries an instruction out. -/
def obey (s : SpeedLoop α O) : Instruction α α → SpeedLoop α O
  | .enable => s.enable
  | .disable => s.disable
  | .reset => s.reset
  | .service => s.service
  | .polePairs n =>
    { s with polePairs := Scalar.ofNat n.toNat, torque := s.torque.setPolePairs n }
  | .setPoint target => { s with regulator := s.regulator.setSetPoint target }
  | .currentTunings vdc t => { s with torque := s.torque.setCurrentTunings vdc t }
  | .speedTunings t => s.setSpeedTunings t

/-! ### Samples -/

variable [LoopObserver O α]

/-- Measures and regulates the speed.  Gains that the observer answers hold from the next tick
on. -/
def tick (s : SpeedLoop α O) (currents : Phases α) (angle : α) : Traced α (SpeedLoop α O) := do
  let speed := Angle.difference angle s.previousAngle / s.period
  let (current, regulator) := s.regulator.process speed
  Traced.emit .interrupt
  let sample : LoopSample α := ⟨currents, speed, angle * s.polePairs⟩
  Traced.emit (.tick sample)
  let (tunings?, observer) ← LoopObserver.tick sample s.observer
  let next := { s with
    observer := observer
    regulator := regulator
    target := s.target.store current
    previousAngle := angle
    speed := speed }
  return (tunings?.elim next next.setSpeedTunings)

/-- Takes one sample.  A tick, if one is due, comes before the torque loop. -/
def calculate (s : SpeedLoop α O) (currents : Phases α) (angle : α) :
    Traced α (Duties × SpeedLoop α O) := do
  let counted := if s.countdown ≤ 1 then s.ratio.value else s.countdown - 1
  let s' := { s with countdown := counted }
  let ticked ← if s.countdown ≤ 1 then s'.tick currents angle else pure s'
  let (duties, torque) := ticked.torque.calculate currents angle
  return (duties, { ticked with torque := torque })

/-- A tick asks nothing of the board or of the encoder, since its observer does not. -/
theorem tick_detached (s : SpeedLoop α O) (currents : Phases α) (angle : α) :
    (s.tick currents angle).Detached := by
  unfold tick
  simp only [Traced.bind_detached_iff, Traced.emit_detached_iff]
  exact ⟨rfl, rfl, LoopObserver.tick_detached _ _, Traced.pure_detached _⟩

theorem calculate_detached (s : SpeedLoop α O) (currents : Phases α) (angle : α) :
    (s.calculate currents angle).Detached := by
  unfold calculate
  dsimp only
  split
  · exact (Traced.bind_detached_iff _ _).mpr
      ⟨tick_detached _ currents angle, Traced.pure_detached _⟩
  · exact (Traced.bind_detached_iff _ _).mpr ⟨Traced.pure_detached _, Traced.pure_detached _⟩

instance : Controller (SpeedLoop α O) α α where
  reference := .speed
  obey call s := s.obey call
  calculate currents angle s := s.calculate currents angle
  calculate_detached currents angle s := s.calculate_detached currents angle

end SpeedLoop

end MotorControl
