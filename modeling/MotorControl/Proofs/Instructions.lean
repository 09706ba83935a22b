/-
The instructions of a trace.

Whoever owns a controller gives its instructions through `instruct`, which lets them be
seen.  A controller carries them out and gives none itself, and neither does what it is
made of: an observer answers gains, an estimator answers an estimate.  `Reticent` says
so of each of the three, so the instructions of a program are those of its owner.
-/
import MotorControl.Drive
import MotorControl.SpeedLoop.Tuner

namespace MotorControl

/-! ### The instructions of a trace -/

/-- The instruction that an event shows. -/
def Event.instruction? {α : Type} : Event α → Option (Instruction α (Reference α))
  | .instruct call => some call
  | _ => none

namespace Traced

variable {α β γ : Type}

/-- The instructions that were given, in their order. -/
def instructions (m : Traced α β) : List (Instruction α (Reference α)) :=
  m.events.filterMap Event.instruction?

@[simp] theorem instructions_pure (x : β) : (pure x : Traced α β).instructions = [] := rfl

@[simp] theorem instructions_bind (m : Traced α β) (f : β → Traced α γ) :
    (m >>= f).instructions = m.instructions ++ (f m.result).instructions :=
  List.filterMap_append

@[simp] theorem instructions_map (f : β → γ) (m : Traced α β) :
    (f <$> m).instructions = m.instructions := by
  rw [instructions, map_events, instructions]

@[simp] theorem instructions_emit (e : Event α) :
    (emit e).instructions = e.instruction?.toList := by
  rw [instructions, emit_events]
  cases h : e.instruction? <;> simp [h]

end Traced

@[simp] theorem instructions_instruct {C α σ : Type} [Controller C α σ] (call : Instruction α σ)
    (c : C) : (instruct call c).instructions = [call.map (Controller.reference C)] := rfl

/-! ### Controllers, observers and estimators give none -/

theorem LeastSquares.instructions_update {α : Type} [Scalar α] {n : Nat} (ls : LeastSquares α n)
    (x : Vector α n) (target : α) : (ls.update x target).instructions = [] := by
  unfold update
  dsimp only
  split
  · split <;> rfl
  · rfl

theorem Drive.instructions_release {α : Type} (d : Drive) :
    (d.release : Traced α Drive).instructions = [] := by
  rw [Traced.instructions, release_events]
  split <;> rfl

/-- An estimator that gives no instruction. -/
class RotorEstimator.Reticent (E α : Type) [RotorEstimator E α] : Prop where
  instructions_estimate (s : LoopSample α) (torqueConstant : α) (e : E) :
    (RotorEstimator.estimate s torqueConstant e).instructions = []

/-- An observer that gives no instruction. -/
class LoopObserver.Reticent (O α : Type) [LoopObserver O α] : Prop where
  instructions_tick (s : LoopSample α) (o : O) : (LoopObserver.tick s o).instructions = []

/-- A controller whose samples give no instruction. -/
class Controller.Reticent (C : Type) (α σ : outParam Type) [Controller C α σ] : Prop where
  instructions_calculate (currents : Phases α) (angle : α) (c : C) :
    (Controller.calculate currents angle c).instructions = []

section

variable {α : Type} [Scalar α]

instance : RotorEstimator.Reticent (Script (RotorEstimate α)) α where
  instructions_estimate _ _ _ := rfl

theorem RotorFit.instructions_update (f : RotorFit α) (s : LoopSample α) (torqueConstant : α) :
    (f.update s torqueConstant).instructions = [] := by
  unfold update
  rw [Traced.instructions_bind, LeastSquares.instructions_update]
  rfl

instance : RotorEstimator.Reticent (RotorFit α) α where
  instructions_estimate s torqueConstant f := f.instructions_update s torqueConstant

instance : LoopObserver.Reticent Unit α where
  instructions_tick _ _ := rfl

instance : LoopObserver.Reticent (Script (Option (Tunings α))) α where
  instructions_tick _ _ := rfl

/-- All that a tuner tells is what it shows to its estimator and a line of the log. -/
instance {E : Type} [RotorEstimator E α] [RotorEstimator.Reticent E α] :
    LoopObserver.Reticent (Tuner α E) α where
  instructions_tick s t := by
    show (t.observe s).instructions = []
    unfold Tuner.observe
    simp only [Traced.instructions_bind, Traced.instructions_emit,
      RotorEstimator.Reticent.instructions_estimate]
    split <;> rfl

instance : Controller.Reticent (TorqueLoop α) α (Rotating α) where
  instructions_calculate _ _ _ := rfl

variable {O : Type} [LoopObserver O α] [LoopObserver.Reticent O α]

theorem SpeedLoop.instructions_tick (s : SpeedLoop α O) (currents : Phases α) (angle : α) :
    (s.tick currents angle).instructions = [] := by
  unfold tick
  simp only [Traced.instructions_bind, Traced.instructions_emit, Traced.instructions_pure,
    LoopObserver.Reticent.instructions_tick]
  rfl

instance : Controller.Reticent (SpeedLoop α O) α α where
  instructions_calculate currents angle s := by
    show (s.calculate currents angle).instructions = []
    unfold SpeedLoop.calculate
    dsimp only
    split
    · rw [Traced.instructions_bind, SpeedLoop.instructions_tick]
      rfl
    · rfl

end

end MotorControl
