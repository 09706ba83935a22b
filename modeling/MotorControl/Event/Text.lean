/-
The lines of the log and of the terminal, and traces of all events.

In a trace every event is one line, and its numbers are given by their bits, so that
two traces are equal as texts only if the events are equal.
-/
import MotorControl.Event

namespace MotorControl

/-- How much a line of the log matters. -/
inductive Level where
  | info
  | warn
  | debug
  deriving DecidableEq, Repr

/-- The name of a level. -/
def Level.name : Level → String
  | .info => "INFO"
  | .warn => "WARN"
  | .debug => "DEBUG"

/-- The name of an activity. -/
def Activity.name : Activity → String
  | .idle => "Idle"
  | .aligning => "Aligning"
  | .identifyingElectrical => "IdentifyingElectricalParameters"
  | .identifyingMechanical => "IdentifyingMechanicalParameters"
  | .running => "Running"

/-- A number in a line of text. -/
def number (x : Float32) : String := Binary32.text .plain x

/-- How much a line matters. -/
def Notice.level {α : Type} : Notice α → Level
  | .covarianceReseeded | .electricalTimedOut | .noPolePairCount _ | .mechanicalTimedOut
  | .commandRejected _ => .warn
  | .speedTuned .. => .debug
  | _ => .info

/-- A line of the log. -/
def Notice.text : Notice Float32 → String
  | .covarianceReseeded => "rls: ill-conditioned update, covariance re-seeded"
  | .speedTuned inertia friction t =>
    "speed tune: J = " ++ number inertia ++ " B = " ++ number friction ++ " -> kp = " ++ number t.kp
      ++ " ki = " ++ number t.ki
  | .loopEnabled => "runner: enabled"
  | .loopDisabled => "runner: disabled"
  | .alignmentStarted duties samples =>
    "alignment: holding " ++ duties.text ++ " for " ++ toString samples.toNat ++ " samples"
  | .alignmentFinished offset => "alignment: rotor offset " ++ number offset ++ " rad"
  | .electricalStarted => "electrical identification: started"
  | .electricalTimedOut => "electrical identification: timed out"
  | .windingIdentified resistance inductance samples =>
    "electrical identification: R = " ++ number resistance ++ " ohm, L = " ++ number inductance
      ++ " mH after " ++ toString samples.toNat ++ " samples"
  | .noPolePairCount travelled =>
    "electrical identification: rotor travelled " ++ number travelled
      ++ " rad, no pole pair count"
  | .electricalFinished p => "electrical identification: " ++ p.text
  | .mechanicalStarted speed =>
    "mechanical identification: spinning at " ++ number speed ++ " rad/s"
  | .mechanicalTimedOut => "mechanical identification: timed out"
  | .mechanicalFinished p samples =>
    "mechanical identification: " ++ p.text ++ " after " ++ toString samples.toNat ++ " samples"
  | .entered activity => "motor state: " ++ activity.name
  | .commandRejected e => "command rejected: " ++ e.message

/-- A line for the terminal. -/
def Report.text : Report Float32 → String
  | .alignmentDone offset => "Alignment done, offset " ++ number offset ++ " rad"
  | .alignmentFailed => "Alignment failed"
  | .electricalDone p =>
    "Resistance: " ++ number p.resistance.value ++ " ohm, inductance: "
      ++ number p.inductance.value ++ " mH, pole pairs: " ++ toString p.polePairs.toNat
  | .electricalFailed => "Electrical parameters identification failed"
  | .mechanicalDone p =>
    "Friction: " ++ number p.friction.value ++ " Nm·s/rad, inertia: " ++ number p.inertia.value
      ++ " Nm·s²"
  | .mechanicalFailed => "Mechanical parameters identification failed"
  | .currentLoop kp ki => "Current loop: Kp = " ++ number kp ++ ", Ki = " ++ number ki
  | .error e => "Error: " ++ e.message

/-! ### Traces -/

/-- A word and the bits of some numbers. -/
def withBits (word : String) (xs : List Float32) : String :=
  " ".intercalate (word :: xs.map Binary32.bitText)

/-- The three gains in order. -/
def Tunings.toList {α : Type} (t : Tunings α) : List α := [t.kp, t.ki, t.kd]

/-- The three phases in order. -/
def Phases.toList {α : Type} (p : Phases α) : List α := [p.a, p.b, p.c]

/-- The numbers of a sample in order. -/
def LoopSample.toList {α : Type} (s : LoopSample α) : List α :=
  s.currents.toList ++ [s.speed, s.electricalAngle]

/-- The three shares in order. -/
def Duties.shares (d : Duties) : List Nat := d.toList.map (·.value.toNat)

/-- An instruction as a line of a trace. -/
def Instruction.line : Instruction Float32 (Reference Float32) → String
  | .enable => "ctl enable"
  | .disable => "ctl disable"
  | .reset => "ctl reset"
  | .service => "ctl service"
  | .polePairs n => "ctl pole_pairs " ++ toString n.toNat
  | .setPoint (.currents target) => withBits "ctl set_point" [target.d, target.q]
  | .setPoint (.speed target) => withBits "ctl set_point" [target]
  | .currentTunings vdc t =>
    withBits "ctl current_tunings" (vdc :: t.d.toList ++ t.q.toList)
  | .speedTunings t => withBits "ctl speed_tunings" t.toList

/-- An event as a line of a trace. -/
def Event.line : Event Float32 → String
  | .subscribe rate => "subscribe " ++ toString rate.value.toNat
  | .unsubscribe => "unsubscribe"
  | .start => "start"
  | .stop => "stop"
  | .pwm duties => " ".intercalate ("pwm" :: duties.shares.map toString)
  | .read => "read"
  | .interrupt => "irq"
  | .instruct call => call.line
  | .tick s => withBits "tick" s.toList
  | .estimate s torqueConstant => withBits "estimate" (s.toList ++ [torqueConstant])
  | .notice n => "log " ++ n.level.name ++ " " ++ n.text
  | .report r => "trace " ++ r.text

end MotorControl
