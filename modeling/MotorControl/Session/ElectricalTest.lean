/-
Identification of the winding and of the number of pole pairs.

With the rotor held at electrical angle zero a square wave of voltage is put along
that axis, and `v = R i + L di/dt + c` is fitted to the currents it causes.  Each
current is the answer to the voltage that was put out after the sample before.  Once
the fit has converged to a resistance and an inductance above zero, the voltage
vector is held for a while, turned once around, and held again.  The rotor follows
through as much of a turn as one pole pair takes.
-/
import MotorControl.Angle
import MotorControl.Drive
import MotorControl.LeastSquares

namespace MotorControl

namespace ElectricalTest

/-- How the winding is tested. -/
structure Config (α : Type) where
  /-- The height of the square wave. -/
  testVoltage : α
  /-- The samples in half a period of the square wave. -/
  halfPeriod : UInt32
  /-- The length of the turning vector. -/
  rotationVoltage : α
  /-- The time the vector is held before and after it turns, in seconds. -/
  settleTime : α
  /-- The time of one electrical turn, in seconds. -/
  rotationTime : α
  /-- The time after which the session gives up, in seconds. -/
  timeout : α
  forgetting : α
  innovationBound : α
  uncertaintyBound : α

/-- The configuration where none is given. -/
def Config.standard {α : Type} [Scalar α] : Config α where
  testVoltage := 0.1
  halfPeriod := 10
  rotationVoltage := 0.2
  settleTime := 0.2
  rotationTime := 1
  timeout := 3
  forgetting := 0.999
  innovationBound := 0.01
  uncertaintyBound := 0.05

/-- The phases of the session. -/
inductive Phase (α : Type) where
  /-- The square wave, with the samples taken so far and what was measured and put out at the last
  of them. -/
  | winding (samples : UInt32) (previousCurrent previousVoltage : α)
  /-- The vector held at angle zero. -/
  | settle (remaining : UInt32)
  /-- The vector turning, and held at the end, with the angle the rotor has covered. -/
  | rotation (step : UInt32) (previousAngle travelled : α)

/-- What one sample leads to. -/
inductive Step (α : Type) where
  | output (duties : Duties)
  | finish (result : Option (ElectricalParameters α))

/-- The voltage that duties put along the stationary axes. -/
def appliedVoltage {α : Type} [Scalar α] (duties : Duties) (vdc : α) : Stationary α :=
  (duties.map fun share => Scalar.ofNat share.value.toNat * 0.01 * vdc).toStationary

end ElectricalTest

/-- An identification of the winding under way. -/
structure ElectricalTest (α : Type) where
  drive : Drive
  config : ElectricalTest.Config α
  vdc : α
  /-- Samples per second. -/
  frequency : α
  model : LeastSquares α 3
  phase : ElectricalTest.Phase α
  /-- The resistance and the inductance, once the fit has converged. -/
  winding : Option (Quantity .ohm α × Quantity .millihenry α)
  elapsed : UInt32
  timeoutSamples : UInt32
  settleSamples : UInt32
  rotationSamples : UInt32
  completion : Completion (ElectricalParameters α)

namespace ElectricalTest

variable {α : Type} [Scalar α]

/-- Starts the session. -/
def begin (board : Board) (vdc : Quantity .volt α) (config : Config α) :
    Except Fault (Traced α (ElectricalTest α)) := do
  let model ← LeastSquares.check LeastSquares.motorSeed config.forgetting
  let rate := board.baseFrequency
  return do
    let drive ← Drive.subscribe board
    drive.start
    Traced.emit (.notice .electricalStarted)
    return {
      drive := drive
      config := config
      vdc := vdc.value
      frequency := rate.toScalar
      model := model
      phase := .winding 0 0 0
      winding := none
      elapsed := 0
      timeoutSamples := rate.samplesIn config.timeout
      settleSamples := rate.samplesIn config.settleTime
      rotationSamples := rate.samplesIn config.rotationTime
      completion := .pending }

/-! ### What is put out -/

/-- The square wave after `samples` samples. -/
def squareWave (t : ElectricalTest α) (samples : UInt32) : Duties :=
  let level :=
    if samples / max t.config.halfPeriod 1 % 2 = 0 then t.config.testVoltage
    else -t.config.testVoltage
  (⟨level, 0⟩ : Stationary α).modulate

/-- The vector at a step of its turn.  It stays where it is after the last one. -/
def rotatingVector (t : ElectricalTest α) (step : UInt32) : Duties :=
  let part : α :=
    Scalar.ofNat (min step t.rotationSamples).toNat / Scalar.ofNat t.rotationSamples.toNat
  let direction := Angle.direction (Scalar.tau * part)
  ((⟨t.config.rotationVoltage, 0⟩ : Rotating α).toStationary direction).modulate

/-! ### What a sample does -/

/-- Fits the winding to one answer, and tells the resistance and the inductance in henry if the fit
has converged to values above zero. -/
def fit (t : ElectricalTest α) (current previousCurrent previousVoltage : α) :
    Traced α (Option (α × α) × ElectricalTest α) := do
  let x := regressor (0.5 * (current + previousCurrent))
    ((current - previousCurrent) * t.frequency) 1
  let updated ← t.model.update x previousVoltage
  let model := updated.2
  let isFound := updated.1.converged t.config.innovationBound t.config.uncertaintyBound
    && decide (0 < model.first) && decide (0 < model.second)
  return (if isFound then some (model.first, model.second) else none, { t with model := model })

/-- One sample of the square wave. -/
def windingStep (t : ElectricalTest α) (currents : Phases α) (samples : UInt32)
    (previousCurrent previousVoltage : α) : Traced α (Step α × ElectricalTest α) := do
  let current := currents.toStationary.alpha
  let (found, t) ←
    if 0 < samples then t.fit current previousCurrent previousVoltage else pure (none, t)
  match found with
  | some (resistance, inductance) =>
    let millihenry := inductance * 1000
    Traced.emit (.notice (.windingIdentified resistance millihenry samples))
    return (.output (t.rotatingVector 0), { t with
      winding := some (⟨resistance⟩, ⟨millihenry⟩), phase := .settle t.settleSamples })
  | none =>
    let duties := t.squareWave samples
    let voltage := (appliedVoltage duties t.vdc).alpha
    return (.output duties, { t with phase := .winding (samples + 1) current voltage })

/-- What is known of the motor at the end of the turn, in which the rotor has covered an angle. -/
def parameters (t : ElectricalTest α) (travelled : α) :
    Traced α (Option (ElectricalParameters α)) := do
  match t.winding with
  | none => return none
  | some (resistance, inductance) =>
    let polePairs := Scalar.round (Scalar.tau / Scalar.abs travelled)
    if 1 ≤ polePairs ∧ polePairs ≤ 255 then
      return some ⟨resistance, inductance, Scalar.toUInt8 polePairs⟩
    else
      Traced.emit (.notice (.noPolePairCount travelled))
      return none

/-- One sample within the time of the session. -/
def advance (t : ElectricalTest α) (currents : Phases α) (position : α) :
    Traced α (Step α × ElectricalTest α) :=
  match t.phase with
  | .winding samples previousCurrent previousVoltage =>
    t.windingStep currents samples previousCurrent previousVoltage
  | .settle remaining =>
    if remaining = 0 then
      return (.output (t.rotatingVector 1), { t with phase := .rotation 1 position 0 })
    else
      return (.output (t.rotatingVector 0), { t with phase := .settle (remaining - 1) })
  | .rotation step previousAngle travelled => do
    let travelled := travelled + Angle.difference position previousAngle
    if t.rotationSamples + t.settleSamples ≤ step then
      let result ← t.parameters travelled
      return (.finish result, t)
    else
      return (.output (t.rotatingVector (step + 1)),
        { t with phase := .rotation (step + 1) position travelled })

/-- Takes one sample, at which the encoder reads `position`. -/
def sample (t : ElectricalTest α) (currents : Phases α) (position : α) :
    Traced α (ElectricalTest α) := do
  if t.drive.active then
    Traced.emit .read
    let t := { t with elapsed := t.elapsed + 1 }
    let (step, t) ←
      if t.timeoutSamples < t.elapsed then do
        Traced.emit (.notice .electricalTimedOut)
        pure (.finish none, t)
      else t.advance currents position
    match step with
    | .output duties =>
      Traced.emit (.pwm duties)
      return t
    | .finish result =>
      let drive ← t.drive.release
      if let some p := result then Traced.emit (.notice (.electricalFinished p))
      return { t with drive := drive, completion := .done result }
  else return t

/-- Ends the session and hands the board back. -/
def intoBoard (t : ElectricalTest α) : Traced α Board := t.drive.intoBoard

end ElectricalTest

end MotorControl
