/-
Observers of a speed loop.
-/
import MotorControl.Event
import MotorControl.Script

namespace MotorControl

/-- Things that watch the ticks of a speed loop and may answer new gains for it. -/
class LoopObserver (O α : Type) where
  /-- Shows a tick to the observer. -/
  tick : LoopSample α → O → Traced α (Option (Tunings α) × O)
  /-- An observer asks nothing of the board or of the encoder. -/
  tick_detached (s : LoopSample α) (o : O) : (tick s o).Detached

/-- Nobody watches. -/
instance {α : Type} : LoopObserver Unit α where
  tick _ o := return (none, o)
  tick_detached _ _ := Traced.pure_detached _

/-- A script of gains; after its end it has none. -/
instance {α : Type} : LoopObserver (Script (Option (Tunings α))) α where
  tick _ s := return (s.next.1.join, s.next.2)
  tick_detached _ _ := Traced.pure_detached _

end MotorControl
