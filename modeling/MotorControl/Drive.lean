/-
The board, and its use by a session.

A board has a bridge and samples the phase currents.  A `Drive` is a board that
samples on behalf of a session of bounded length.  It stops the bridge and ends the
sampling when it is released, which happens once however often it is asked for.
-/
import MotorControl.Event

namespace MotorControl

/-- The board of one motor. -/
structure Board where
  /-- The rate at which the bridge switches. -/
  baseFrequency : Hertz
  deriving DecidableEq, Repr

/-- Stops the bridge and the sampling. -/
def Board.shutDown {α : Type} (_ : Board) : Traced α Unit := do
  Traced.emit .stop
  Traced.emit .unsubscribe

/-- How far a session of bounded length has come. -/
inductive Completion (β : Type) where
  | pending
  /-- The session ended; without a result if it gave up. -/
  | done (result : Option β)
  deriving DecidableEq, Repr

/-- Whether the session ended. -/
def Completion.isDone {β : Type} : Completion β → Bool
  | .pending => false
  | .done _ => true

/-- A board in use by a session. -/
structure Drive where
  board : Board
  /-- Whether the drive was not released yet. -/
  active : Bool
  deriving DecidableEq, Repr

namespace Drive

variable {α : Type}

/-- Asks for samples at the base frequency.  The bridge stays off. -/
def subscribe (board : Board) : Traced α Drive := do
  Traced.emit (.subscribe board.baseFrequency)
  return ⟨board, true⟩

/-- Switches the bridge on. -/
def start (_ : Drive) : Traced α Unit := Traced.emit .start

/-- Stops the bridge and the sampling, unless that was done before. -/
def release (d : Drive) : Traced α Drive := do
  if d.active then
    d.board.shutDown
    return { d with active := false }
  else return d

/-- A released drive is not active. -/
@[simp] theorem release_active (d : Drive) :
    (d.release : Traced α Drive).result.active = false := by
  unfold release
  split <;> simp_all

/-- Releasing an active drive stops the bridge, then the sampling. -/
theorem release_events (d : Drive) :
    (d.release : Traced α Drive).events = if d.active then [.stop, .unsubscribe] else [] := by
  unfold release
  split <;> simp_all [Board.shutDown]

/-- Releases the drive and hands the board back.  A drive that goes out of use does the same. -/
def intoBoard (d : Drive) : Traced α Board := do
  let released ← d.release
  return released.board

end Drive

end MotorControl
