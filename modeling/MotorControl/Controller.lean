/-
Controllers.

A controller is told what to do by instructions and turns each sample of the phase
currents and the rotor angle into the duties of the bridge.  Whoever owns a
controller gives its instructions through `instruct`, which lets them be seen before
they are carried out.
-/
import MotorControl.Event

namespace MotorControl

/-- Controllers of the type `C`, over scalars `α`, with set points of the type `σ`. -/
class Controller (C : Type) (α σ : outParam Type) where
  /-- How a set point is told. -/
  reference : σ → Reference α
  /-- Carries an instruction out. -/
  obey : Instruction α σ → C → C
  /-- Takes one sample: the phase currents and the mechanical angle. -/
  calculate : Phases α → α → C → Traced α (Duties × C)
  /-- A controller holds neither the board nor the encoder, so it asks nothing of them. -/
  calculate_detached (currents : Phases α) (angle : α) (c : C) :
    (calculate currents angle c).Detached

/-- Gives an instruction to a controller. -/
def instruct {C α σ : Type} [Controller C α σ] (call : Instruction α σ) (c : C) : Traced α C := do
  Traced.emit (.instruct (call.map (Controller.reference C)))
  return Controller.obey call c

end MotorControl
