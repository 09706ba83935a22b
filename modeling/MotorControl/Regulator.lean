/-
The regulator of a single signal.

Each sample computes the change of the output and not the output itself: the three
terms of a proportional, integral and derivative regulator in their differences.
The output is kept within limits after every change, so no excess is remembered and
nothing else is needed against windup.  The gains are per sample.
-/
import MotorControl.Fault
import MotorControl.Scalar

namespace MotorControl

/-- The gains of a regulator: proportional, integral and derivative. -/
structure Tunings (α : Type) where
  kp : α
  ki : α
  kd : α
  deriving DecidableEq, Repr

/-- The range of an output. -/
structure Limits (α : Type) where
  min : α
  max : α
  deriving DecidableEq, Repr

variable {α : Type} [Scalar α]

/-- No gain at all. -/
def Tunings.zero : Tunings α := ⟨0, 0, 0⟩

/-- The three gains times a factor. -/
def Tunings.scaled (t : Tunings α) (factor : α) : Tunings α :=
  ⟨t.kp * factor, t.ki * factor, t.kd * factor⟩

/-- The range from `min` to `max`, which must not be empty or a single number. -/
def Limits.check (min max : α) : Except Fault (Limits α) :=
  if min < max then .ok ⟨min, max⟩ else .error .emptyLimits

/-- The range from `-limit` to `limit`. -/
def Limits.symmetric (limit : α) : Limits α := ⟨-limit, limit⟩

/-- The range from `-limit` to `limit`, which must not be empty or a single number. -/
def Limits.checkSymmetric (limit : α) : Except Fault (Limits α) :=
  Limits.check (-limit) limit

/-- A regulator and what it remembers of the samples before. -/
structure Regulator (α : Type) where
  tunings : Tunings α
  limits : Limits α
  setPoint : α
  /-- The error of the last sample. -/
  previousError : α
  /-- The error of the sample before the last. -/
  secondPreviousError : α
  output : α
  enabled : Bool
  deriving DecidableEq, Repr

namespace Regulator

/-- A disabled regulator with set point zero. -/
def new (tunings : Tunings α) (limits : Limits α) : Regulator α where
  tunings := tunings
  limits := limits
  setPoint := 0
  previousError := 0
  secondPreviousError := 0
  output := 0
  enabled := false

/-- The regulator without memory of earlier samples. -/
def clearHistory (r : Regulator α) : Regulator α :=
  { r with previousError := 0, secondPreviousError := 0, output := 0 }

/-- Regulates from a clean history.  A regulator that is enabled already keeps its state. -/
def enable (r : Regulator α) : Regulator α :=
  if r.enabled then r else { r.clearHistory with enabled := true }

/-- Stops regulating and forgets the history. -/
def disable (r : Regulator α) : Regulator α :=
  { r with enabled := false }.clearHistory

/-- Changes the gains. -/
def setTunings (r : Regulator α) (t : Tunings α) : Regulator α := { r with tunings := t }

/-- Changes the set point. -/
def setSetPoint (r : Regulator α) (x : α) : Regulator α := { r with setPoint := x }

/-- Changes the limits and moves the output into them. -/
def setLimits (r : Regulator α) (l : Limits α) : Regulator α :=
  { r with limits := l, output := Scalar.clamp r.output l.min l.max }

/-- The change of the output for an error. -/
def increment (r : Regulator α) (error : α) : α :=
  r.tunings.kp * (error - r.previousError)
    + r.tunings.ki * error
    + r.tunings.kd * (error - 2 * r.previousError + r.secondPreviousError)

/-- Takes one sample: the new output, and the regulator after it.  A disabled regulator answers zero
and stays as it is. -/
def process (r : Regulator α) (measurement : α) : α × Regulator α :=
  if r.enabled then
    let error := r.setPoint - measurement
    let output := Scalar.clamp (r.output + r.increment error) r.limits.min r.limits.max
    (output, { r with
      output := output, previousError := error, secondPreviousError := r.previousError })
  else (0, r)

end Regulator

end MotorControl
