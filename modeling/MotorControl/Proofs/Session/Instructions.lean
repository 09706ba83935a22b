/-
The instructions that sessions give.

An alignment and an electrical test have no controller, so they give it none.  A
mechanical test hands its samples to the controller, which says nothing itself, and
disables it with the sample that ends the test.  Whoever runs the loop gives what it is
told to give.
-/
import MotorControl.Proofs.Instructions
import MotorControl.Proofs.Session.Alignment
import MotorControl.Proofs.Session.ElectricalTest
import MotorControl.Proofs.Session.MechanicalTest

namespace MotorControl

/-! ### An alignment and an electrical test give none -/

theorem Alignment.instructions_sample {α : Type} {board : Board} {a : Alignment α}
    (h : Session.Open board a) (position : α) : (a.sample position).instructions = [] := by
  by_cases hlast : a.remaining = 1
  · rw [sample_of_last h.drive_eq hlast]
    rfl
  · rw [sample_of_not_last h.drive_eq hlast]
    rfl

namespace ElectricalTest

variable {α : Type} [Scalar α]

theorem instructions_windingStep (t : ElectricalTest α) (currents : Phases α) (samples : UInt32)
    (previousCurrent previousVoltage : α) :
    (t.windingStep currents samples previousCurrent previousVoltage).instructions = [] := by
  have hanswer (t : ElectricalTest α) (found : Option (α × α)) :
      (t.answer currents samples found).instructions = [] := by
    cases found <;> rfl
  rw [windingStep_eq, Traced.instructions_bind, hanswer]
  split
  · rw [fit, Traced.instructions_bind, LeastSquares.instructions_update]
    rfl
  · rfl

theorem instructions_parameters (t : ElectricalTest α) (travelled : α) :
    (t.parameters travelled).instructions = [] := by
  unfold parameters
  split
  · rfl
  · dsimp only
    split <;> rfl

theorem instructions_judge (t : ElectricalTest α) (currents : Phases α) (position : α) :
    (t.judge currents position).instructions = [] := by
  unfold judge advance
  split
  · rfl
  · split
    · exact t.instructions_windingStep _ _ _ _
    · split <;> rfl
    · dsimp only
      split
      · rw [Traced.instructions_bind, instructions_parameters]
        rfl
      · rfl

omit [Scalar α] in
theorem instructions_carryOut (t : ElectricalTest α) (step : Step α) :
    (t.carryOut step).instructions = [] := by
  cases step with
  | output duties => rfl
  | finish result =>
      rw [carryOut, Traced.instructions_bind, Drive.instructions_release]
      cases result <;> rfl

theorem instructions_sample {board : Board} {t : ElectricalTest α} (h : Session.Open board t)
    (currents : Phases α) (position : α) : (t.sample currents position).instructions = [] := by
  rw [sample_eq h.drive_eq, Traced.instructions_bind, Traced.instructions_bind, instructions_judge,
    instructions_carryOut]
  rfl

end ElectricalTest

/-! ### A mechanical test gives one, at its end -/

namespace MechanicalTest

variable {α C σ : Type} [Scalar α] [Controller C α σ] [Controller.Reticent C α σ] {board : Board}
  {t : MechanicalTest α C}

theorem instructions_take (t : MechanicalTest α C) (currents : Phases α) (position : α) :
    (t.take currents position).instructions = [] := by
  simp only [take, Traced.instructions_bind, Traced.instructions_emit, Traced.instructions_pure,
    Controller.Reticent.instructions_calculate, RotorFit.instructions_update]
  rfl

omit [Scalar α] [Controller.Reticent C α σ] in
theorem instructions_finish (t : MechanicalTest α C) (result : Option (MechanicalParameters α)) :
    (t.finish result).instructions = [.disable] := by
  unfold finish
  rw [Traced.instructions_bind, Drive.instructions_release]
  rfl

theorem instructions_sample (h : Session.Open board t) (currents : Phases α) (position : α) :
    (t.sample currents position).instructions =
      if (t.sample currents position).result.completion.isDone then [.disable] else [] := by
  have hpending : (t.take currents position).result.2.completion = .pending := h.pending
  rw [sample_eq h.drive_eq, Traced.instructions_bind, Traced.bind_result, instructions_take]
  unfold judge
  split
  · exact instructions_finish ..
  · split
    · exact instructions_finish ..
    · rw [Traced.pure_result, hpending]
      rfl

end MechanicalTest

end MotorControl
