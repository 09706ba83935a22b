/-
A motor and its commands.

A motor has one occupant at a time.  Every command that starts something dismantles
the occupant first and then builds the next one; a command that is refused is refused
before that and leaves the motor as it was.  A session that ends leaves the motor
idle, and what it found is kept.
-/
import MotorControl.CurrentGains
import MotorControl.Motor.Occupant

namespace MotorControl

namespace Motor

/-- What is known of the supply, and how the sessions are run. -/
structure Config where
  vdc : Quantity .volt Float32
  /-- The samples of the bridge in one of a loop as fast as the current loop. -/
  currentRatio : UInt8
  alignment : Alignment.Config Float32
  electrical : ElectricalTest.Config Float32
  mechanical : MechanicalTest.Config Float32

/-- The configuration where none is given. -/
def Config.standard : Config := ⟨⟨24⟩, 15, .standard, .standard, .standard⟩

/-- Whether a command was accepted. -/
abbrev Verdict := Except CommandError Unit

end Motor

/-- A motor with a controller of the type `C`. -/
structure Motor (C : Type) where
  occupant : Occupant C
  config : Motor.Config
  currentRatio : OuterRatio
  polePairs : UInt8
  /-- What the encoder reads at electrical angle zero, from the last alignment. -/
  rotorOffset : Option Float32
  electrical : Option (ElectricalParameters Float32)
  mechanical : Option (MechanicalParameters Float32)

namespace Motor

variable {C σ : Type}

/-- An idle motor of which nothing is known. -/
def check (board : Board) (controller : C) (config : Config) : Except Fault (Motor C) := do
  let ratio ← OuterRatio.check config.currentRatio
  return ⟨.idle board controller, config, ratio, 1, none, none, none⟩

/-- Gives the motor to an occupant. -/
def enter (m : Motor C) (next : Occupant C) : Traced Float32 (Motor C) := do
  Traced.emit (.notice (.entered next.activity))
  return { m with occupant := next }

/-- Refuses a command. -/
def reject (m : Motor C) (e : CommandError) : Traced Float32 (Verdict × Motor C) := do
  Traced.emit (.notice (.commandRejected e))
  Traced.emit (.report (.error e))
  return (.error e, m)

variable [Controller C Float32 σ]

/-! ### Commands -/

/-- Starts an alignment. -/
def align (m : Motor C) : Traced Float32 (Motor C) := do
  let (board, controller) ← m.occupant.dismantle
  let session ← Alignment.begin board m.config.alignment
  m.enter (.aligning session controller)

/-- Starts to identify resistance, inductance and pole pairs. -/
def identifyElectrical (m : Motor C) : Except Fault (Traced Float32 (Motor C)) := do
  let parts := m.occupant.dismantle
  let begun ← ElectricalTest.begin parts.result.1 m.config.vdc m.config.electrical
  return do
    let (_, controller) ← parts
    let session ← begun
    m.enter (.identifyingElectrical session controller)

/-- Sets the gains of the current loop for a winding. -/
def tuneCurrentLoop (m : Motor C) (board : Board) (controller : C)
    (resistance : Quantity .ohm Float32) (inductance : Quantity .millihenry Float32) :
    Traced Float32 (AxisTunings Float32 × C) := do
  let gains := CurrentGains.ofWinding resistance inductance board.baseFrequency m.currentRatio
  let controller ← instruct (.currentTunings m.config.vdc.value gains) controller
  return (gains, controller)

/-- Closes the loop, with current gains for the winding that `params` gives, in ohm and
millihenry. -/
def start (m : Motor C) (params : String) : Traced Float32 (Verdict × Motor C) := do
  match Command.twoPositive params .invalidResistance .invalidInductance with
  | .error e => m.reject e
  | .ok (resistance, inductance) =>
    let (board, controller) ← m.occupant.dismantle
    let controller ← instruct .reset controller
    let (gains, controller) ← m.tuneCurrentLoop board controller ⟨resistance⟩ ⟨inductance⟩
    Traced.emit (.report (.currentLoop gains.q.kp gains.q.ki))
    let loop ← ClosedLoop.begin board controller
    let loop ← loop.enable
    let m ← m.enter (.running loop)
    return (.ok (), m)

/-- Passes a set point on to the running controller. -/
def setPoint (m : Motor C) (target : σ) : Traced Float32 (Verdict × Motor C) := do
  match m.occupant with
  | .running loop =>
    let loop ← loop.order (.setPoint target)
    return (.ok (), { m with occupant := .running loop })
  | _ => m.reject .notRunning

/-! ### Samples and the end of sessions -/

/-- Does what the controller in use left for later. -/
def service (m : Motor C) : Traced Float32 (Motor C) := do
  match m.occupant with
  | .running loop =>
    let loop ← loop.order .service
    return { m with occupant := .running loop }
  | .identifyingMechanical session =>
    let session ← session.service
    return { m with occupant := .identifyingMechanical session }
  | _ => return m

/-- Keeps what an ended session found, and leaves the motor idle. -/
def finish (m : Motor C) : Traced Float32 (Motor C) := do
  match m.occupant with
  | .aligning session controller =>
    let m ←
      match session.completion with
      | .done (some offset) => do
        Traced.emit (.report (.alignmentDone offset))
        pure { m with rotorOffset := some offset }
      | _ => do
        Traced.emit (.report .alignmentFailed)
        pure m
    let board ← session.intoBoard
    m.enter (.idle board controller)
  | .identifyingElectrical session controller =>
    let (m, controller) ←
      match session.completion with
      | .done (some found) => do
        let controller ← instruct (.polePairs found.polePairs) controller
        Traced.emit (.report (.electricalDone found))
        pure ({ m with polePairs := found.polePairs, electrical := some found }, controller)
      | _ => do
        Traced.emit (.report .electricalFailed)
        pure (m, controller)
    let board ← session.intoBoard
    m.enter (.idle board controller)
  | .identifyingMechanical session =>
    let m ←
      match session.completion with
      | .done (some found) => do
        Traced.emit (.report (.mechanicalDone found))
        pure { m with mechanical := some found }
      | _ => do
        Traced.emit (.report .mechanicalFailed)
        pure m
    let (board, controller) ← session.intoParts
    m.enter (.idle board controller)
  | occupant => m.enter occupant

/-- Gives the motor back to its session, or ends the session if it is done. -/
def resume (m : Motor C) (occupant : Occupant C) (isDone : Bool) : Traced Float32 (Motor C) :=
  let m := { m with occupant := occupant }
  if isDone then m.finish else pure m

/-- Takes one sample, at which the encoder would read `position`. -/
def sample (m : Motor C) (currents : Phases Float32) (position : Float32) :
    Traced Float32 (Motor C) := do
  match m.occupant with
  | .idle .. => return m
  | .aligning session controller =>
    let session ← session.sample position
    m.resume (.aligning session controller) session.completion.isDone
  | .identifyingElectrical session controller =>
    let session ← session.sample currents position
    m.resume (.identifyingElectrical session controller) session.completion.isDone
  | .identifyingMechanical session =>
    let session ← session.sample currents position
    m.resume (.identifyingMechanical session) session.completion.isDone
  | .running loop =>
    let loop ← loop.sample currents position
    return { m with occupant := .running loop }

/-- Stops everything.  A motor that goes out of use does the same. -/
def shutDown (m : Motor C) : Traced Float32 Unit := do
  let (board, _) ← m.occupant.dismantle
  board.shutDown

end Motor

/-! ### Motors under speed control -/

namespace Motor

variable {C : Type} [Controller C Float32 Float32]

/-- Sets the gains of the speed loop that runs, or of the idle one, so that the next session starts
with them. -/
def setSpeedTunings (m : Motor C) (t : Tunings Float32) : Traced Float32 (Verdict × Motor C) := do
  match m.occupant with
  | .idle board controller =>
    let controller ← instruct (.speedTunings t) controller
    return (.ok (), { m with occupant := .idle board controller })
  | .running loop =>
    let loop ← loop.order (.speedTunings t)
    return (.ok (), { m with occupant := .running loop })
  | _ => m.reject .notRunning

/-- Readies the controller for a mechanical test: reset, and with gains for the winding if that is
known. -/
def readyForTest (m : Motor C) (board : Board) (controller : C) : Traced Float32 C := do
  let controller ← instruct .reset controller
  match m.electrical with
  | none => return controller
  | some found =>
    let (_, controller) ← m.tuneCurrentLoop board controller found.resistance found.inductance
    return controller

/-- Starts to identify friction and inertia, at the speed in turns per minute and with the torque
constant that `params` gives. -/
def identifyMechanical (m : Motor C) (params : String) (position : Float32) :
    Except Fault (Traced Float32 (Verdict × Motor C)) := do
  match Command.twoPositive params .invalidTargetSpeed .invalidTorqueConstant with
  | .error e => return m.reject e
  | .ok (rpm, torqueConstant) =>
    let ready := do
      let (board, controller) ← m.occupant.dismantle
      let controller ← m.readyForTest board controller
      pure (board, controller)
    let task : MechanicalTest.Task Float32 := ⟨.ofRpm rpm, ⟨torqueConstant⟩, m.polePairs⟩
    let (board, controller) := ready.result
    let begun ← MechanicalTest.begin board controller task m.config.mechanical position
    return do
      let _ ← ready
      let session ← begun
      let m ← m.enter (.identifyingMechanical session)
      return (.ok (), m)

end Motor

end MotorControl
