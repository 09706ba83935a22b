/-
What the operations of a regulator leave alone.

Nothing but `setTunings` changes the gains of a regulator, nothing but `setSetPoint`
its set point, and nothing but `setLimits` its limits.  Disabling and enabling again
clears all the rest, so a regulator that was armed anew is given by these three.
-/
import MotorControl.Regulator

namespace MotorControl.Regulator

variable {α : Type} [Scalar α] (r : Regulator α)

@[simp] theorem tunings_enable : r.enable.tunings = r.tunings := by
  unfold enable
  split <;> rfl

@[simp] theorem limits_enable : r.enable.limits = r.limits := by
  unfold enable
  split <;> rfl

@[simp] theorem setPoint_enable : r.enable.setPoint = r.setPoint := by
  unfold enable
  split <;> rfl

@[simp] theorem tunings_disable : r.disable.tunings = r.tunings := rfl

@[simp] theorem limits_disable : r.disable.limits = r.limits := rfl

@[simp] theorem setPoint_disable : r.disable.setPoint = r.setPoint := rfl

@[simp] theorem tunings_process (x : α) : (r.process x).2.tunings = r.tunings := by
  unfold process
  split <;> rfl

@[simp] theorem limits_process (x : α) : (r.process x).2.limits = r.limits := by
  unfold process
  split <;> rfl

@[simp] theorem setPoint_process (x : α) : (r.process x).2.setPoint = r.setPoint := by
  unfold process
  split <;> rfl

@[simp] theorem enabled_enable : r.enable.enabled = true := by
  unfold enable
  split
  · assumption
  · rfl

@[simp] theorem enabled_process (x : α) : (r.process x).2.enabled = r.enabled := by
  unfold process
  split <;> rfl

/-- A disabled regulator takes no notice of a sample. -/
theorem process_of_disabled {r : Regulator α} (h : r.enabled = false) (x : α) :
    r.process x = (0, r) := by
  unfold process
  rw [h]
  rfl

/-- The answer is zero, or within the limits as far as clamping takes it there. -/
theorem process_cases (x : α) :
    (r.process x).1 = 0 ∨ ∃ y, (r.process x).1 = Scalar.clamp y r.limits.min r.limits.max := by
  unfold process
  split
  · exact Or.inr ⟨_, rfl⟩
  · exact Or.inl rfl

/-- An enabled regulator with a clean history. -/
def armed (tunings : Tunings α) (limits : Limits α) (setPoint : α) : Regulator α where
  tunings := tunings
  limits := limits
  setPoint := setPoint
  previousError := 0
  secondPreviousError := 0
  output := 0
  enabled := true

theorem enable_of_disabled {r : Regulator α} (h : r.enabled = false) :
    r.enable = armed r.tunings r.limits r.setPoint := by
  unfold enable
  rw [h]
  rfl

/-- Arming a regulator anew leaves nothing of its history. -/
theorem enable_disable : r.disable.enable = armed r.tunings r.limits r.setPoint := rfl

end MotorControl.Regulator
