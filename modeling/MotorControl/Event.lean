/-
What a controller does to the world, in the order it does it.

Operations are functions: they answer a result and the list of the events that led
to it, the oldest first.  An event is a call on the board, the encoder or the
controller, a sample handed to an observer or an estimator, or a line for the people
who watch.  Nothing else leaves an operation, so the law of a session is a statement
about its events.
-/
import MotorControl.Command
import MotorControl.Modulation
import MotorControl.Parameters
import MotorControl.Rate
import MotorControl.Regulator

namespace MotorControl

/-! ### Instructions -/

/-- The gains of the two current regulators. -/
structure AxisTunings (α : Type) where
  d : Tunings α
  q : Tunings α
  deriving DecidableEq, Repr

/-- The same gains on both axes. -/
def AxisTunings.both {α : Type} (t : Tunings α) : AxisTunings α := ⟨t, t⟩

/-- A call on a controller whose set points are of the type `σ`. -/
inductive Instruction (α σ : Type) where
  | enable
  | disable
  /-- Arm every regulator anew, with a clean history. -/
  | reset
  /-- Do the work that a sample left for later. -/
  | service
  | polePairs (n : UInt8)
  | setPoint (target : σ)
  | currentTunings (vdc : α) (t : AxisTunings α)
  | speedTunings (t : Tunings α)

/-- What a controller is asked to keep. -/
inductive Reference (α : Type) where
  | currents (target : Rotating α)
  | speed (target : α)

/-- The same call, with its set point told in another way. -/
def Instruction.map {α σ τ : Type} (f : σ → τ) : Instruction α σ → Instruction α τ
  | .enable => .enable
  | .disable => .disable
  | .reset => .reset
  | .service => .service
  | .polePairs n => .polePairs n
  | .setPoint target => .setPoint (f target)
  | .currentTunings vdc t => .currentTunings vdc t
  | .speedTunings t => .speedTunings t

/-! ### Samples and lines -/

/-- What a speed loop saw on one of its ticks. -/
structure LoopSample (α : Type) where
  currents : Phases α
  speed : α
  electricalAngle : α

/-- What a motor is busy with. -/
inductive Activity where
  | idle
  | aligning
  | identifyingElectrical
  | identifyingMechanical
  | running
  deriving DecidableEq, Repr

/-- The lines of the log. -/
inductive Notice (α : Type) where
  | covarianceReseeded
  | speedTuned (inertia friction : α) (t : Tunings α)
  | loopEnabled
  | loopDisabled
  | alignmentStarted (duties : Duties) (samples : UInt32)
  | alignmentFinished (offset : α)
  | electricalStarted
  | electricalTimedOut
  | windingIdentified (resistance inductance : α) (samples : UInt32)
  | noPolePairCount (travelled : α)
  | electricalFinished (p : ElectricalParameters α)
  | mechanicalStarted (speed : α)
  | mechanicalTimedOut
  | mechanicalFinished (p : MechanicalParameters α) (samples : UInt32)
  | entered (activity : Activity)
  | commandRejected (e : CommandError)

/-- The lines for the person at the terminal. -/
inductive Report (α : Type) where
  | alignmentDone (offset : α)
  | alignmentFailed
  | electricalDone (p : ElectricalParameters α)
  | electricalFailed
  | mechanicalDone (p : MechanicalParameters α)
  | mechanicalFailed
  | currentLoop (kp ki : α)
  | error (e : CommandError)

/-! ### Events and traces -/

/-- What can be seen of an operation from outside. -/
inductive Event (α : Type) where
  /-- Samples are asked for at a rate. -/
  | subscribe (rate : Hertz)
  | unsubscribe
  /-- The bridge is switched on. -/
  | start
  | stop
  /-- The bridge is told its duties. -/
  | pwm (duties : Duties)
  /-- The encoder is read. -/
  | read
  /-- The handler of low priority is asked to run. -/
  | interrupt
  | instruct (call : Instruction α (Reference α))
  /-- An observer of a speed loop is shown a tick. -/
  | tick (sample : LoopSample α)
  /-- An estimator of the rotor is shown a sample. -/
  | estimate (sample : LoopSample α) (torqueConstant : α)
  | notice (line : Notice α)
  | report (line : Report α)

/-- Whether an event is a call on the board or on the encoder. -/
def Event.isPeripheral {α : Type} : Event α → Bool
  | .subscribe _ | .unsubscribe | .start | .stop | .pwm _ | .read => true
  | .interrupt | .instruct _ | .tick _ | .estimate .. | .notice _ | .report _ => false

/-- A result, and the events that led to it. -/
structure Traced (α β : Type) where
  result : β
  events : List (Event α)

namespace Traced

variable {α β γ : Type}

instance : Monad (Traced α) where
  pure x := ⟨x, []⟩
  bind m f := ⟨(f m.result).result, m.events ++ (f m.result).events⟩

/-- One event and no result. -/
def emit (e : Event α) : Traced α Unit := ⟨(), [e]⟩

@[simp] theorem pure_result (x : β) : (pure x : Traced α β).result = x := rfl

@[simp] theorem pure_events (x : β) : (pure x : Traced α β).events = [] := rfl

@[simp] theorem bind_result (m : Traced α β) (f : β → Traced α γ) :
    (m >>= f).result = (f m.result).result := rfl

@[simp] theorem bind_events (m : Traced α β) (f : β → Traced α γ) :
    (m >>= f).events = m.events ++ (f m.result).events := rfl

@[simp] theorem map_result (f : β → γ) (m : Traced α β) : (f <$> m).result = f m.result := rfl

@[simp] theorem map_events (f : β → γ) (m : Traced α β) : (f <$> m).events = m.events := by
  show m.events ++ [] = m.events
  simp

/-- Events are appended in the order of the operations, however these are grouped. -/
instance : LawfulMonad (Traced α) :=
  LawfulMonad.mk' _
    (fun m => by cases m; change Traced.mk _ (_ ++ []) = _; rw [List.append_nil]; rfl)
    (fun _ _ => rfl)
    (fun _ _ _ => congrArg (Traced.mk _) (List.append_assoc ..))

/-- What follows a program is only ever asked about its result. -/
theorem bind_congr_result {m : Traced α β} {f g : β → Traced α γ} (h : f m.result = g m.result) :
    m >>= f = m >>= g := by
  show Traced.mk (f m.result).result (m.events ++ (f m.result).events) = _
  rw [h]
  rfl

@[simp] theorem emit_events (e : Event α) : (emit e).events = [e] := rfl

/-- Nothing was asked of the board or of the encoder. -/
def Detached (m : Traced α β) : Prop := ∀ e ∈ m.events, e.isPeripheral = false

@[simp] theorem pure_detached (x : β) : (pure x : Traced α β).Detached := by
  simp [Detached]

@[simp] theorem emit_detached_iff (e : Event α) : (emit e).Detached ↔ e.isPeripheral = false := by
  simp [Detached]

@[simp] theorem bind_detached_iff (m : Traced α β) (f : β → Traced α γ) :
    (m >>= f).Detached ↔ m.Detached ∧ (f m.result).Detached := by
  simp [Detached, or_imp, forall_and]

@[simp] theorem map_detached_iff (f : β → γ) (m : Traced α β) :
    (f <$> m).Detached ↔ m.Detached := by
  simp [Detached]

end Traced

end MotorControl
