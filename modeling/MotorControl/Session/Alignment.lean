/-
Alignment of the rotor.

A voltage is held along the axis of electrical angle zero until the rotor has settled
there.  What the encoder then reads is the offset between its zero and the electrical
one.
-/
import MotorControl.Drive

namespace MotorControl

namespace Alignment

/-- How the rotor is held. -/
structure Config (α : Type) where
  /-- The voltage, measured in the largest one the bridge produces in every direction. -/
  voltage : α
  /-- The time the rotor needs to settle, in seconds. -/
  settleTime : α

/-- The configuration where none is given. -/
def Config.standard {α : Type} [Scalar α] : Config α := ⟨0.2, 0.5⟩

end Alignment

/-- An alignment under way. -/
structure Alignment (α : Type) where
  drive : Drive
  duties : Duties
  /-- The samples left until the rotor has settled. -/
  remaining : UInt32
  completion : Completion α

namespace Alignment

variable {α : Type} [Scalar α]

/-- Starts to hold the rotor. -/
def begin (board : Board) (config : Config α) : Traced α (Alignment α) := do
  let drive ← Drive.subscribe board
  let samples := board.baseFrequency.samplesIn config.settleTime
  let duties := (⟨config.voltage, 0⟩ : Stationary α).modulate
  drive.start
  Traced.emit (.notice (.alignmentStarted duties samples))
  return ⟨drive, duties, samples, .pending⟩

/-- Takes one sample, at which the encoder would read `position`. -/
def sample (a : Alignment α) (position : α) : Traced α (Alignment α) := do
  if a.drive.active then
    Traced.emit (.pwm a.duties)
    let remaining := a.remaining - 1
    if remaining = 0 then
      Traced.emit .read
      let drive ← a.drive.release
      Traced.emit (.notice (.alignmentFinished position))
      return { a with drive := drive, remaining := remaining, completion := .done (some position) }
    else return { a with remaining := remaining }
  else return a

/-- Ends the session and hands the board back. -/
def intoBoard (a : Alignment α) : Traced α Board := a.drive.intoBoard

end Alignment

end MotorControl
