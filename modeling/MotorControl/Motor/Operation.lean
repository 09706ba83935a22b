/-
Everything that can happen to a motor.

A run is a list of operations: commands, samples and calls of the handler of low
priority.  Where an operation reads the encoder, it carries what the encoder reads.
-/
import MotorControl.Motor

namespace MotorControl

/-- The operations on a motor whose set points are of the type `σ`. -/
inductive Operation (σ : Type) where
  | align
  | identifyElectrical
  | start (params : String)
  | setPoint (target : σ)
  | service
  | sample (currents : Phases Float32) (position : Float32)
  /-- Only motors whose set points are speeds have speed gains. -/
  | setSpeedTunings (isSpeed : σ = Float32) (t : Tunings Float32)
  /-- Only motors whose set points are speeds can be spun. -/
  | identifyMechanical (isSpeed : σ = Float32) (params : String) (position : Float32)

namespace Motor

variable {C σ : Type} [inst : Controller C Float32 σ]

/-- The end of an operation that answers nothing. -/
def silently (m : Traced Float32 (Motor C)) :
    Except Fault (Traced Float32 (Option Verdict × Motor C)) :=
  .ok ((none, ·) <$> m)

/-- The end of an operation that answers whether it was accepted. -/
def answering (m : Traced Float32 (Verdict × Motor C)) :
    Except Fault (Traced Float32 (Option Verdict × Motor C)) :=
  .ok ((fun r => (some r.1, r.2)) <$> m)

/-- Carries one operation out.  Commands that can be refused answer whether they were accepted. -/
def step (m : Motor C) : Operation σ → Except Fault (Traced Float32 (Option Verdict × Motor C))
  | .align => silently m.align
  | .identifyElectrical => m.identifyElectrical >>= silently
  | .start params => answering (m.start params)
  | .setPoint target => answering (m.setPoint target)
  | .service => silently m.service
  | .sample currents position => silently (m.sample currents position)
  | .setSpeedTunings isSpeed t =>
    match σ, isSpeed, inst with
    | _, rfl, _ => answering (m.setSpeedTunings t)
  | .identifyMechanical isSpeed params position =>
    match σ, isSpeed, inst with
    | _, rfl, _ => m.identifyMechanical params position >>= answering

/-- Carries a list of operations out, up to the first that fails. -/
def run (m : Motor C) : List (Operation σ) → Except Fault (Traced Float32 (Motor C))
  | [] => .ok (pure m)
  | op :: ops => do
    let done ← m.step op
    let rest ← done.result.2.run ops
    return ⟨rest.result, done.events ++ rest.events⟩

end Motor

end MotorControl
