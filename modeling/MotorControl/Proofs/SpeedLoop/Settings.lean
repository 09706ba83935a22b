/-
The settings of the two loops.

The pole pairs, the gains and the set point of a loop are written by one kind of
instruction each and by nothing else.  No sample changes them, and neither does anything
that arms a loop anew or switches it off, except that the observer of a speed loop may
answer new gains for it.
-/
import MotorControl.Proofs.Controller.Setting
import MotorControl.Proofs.SpeedLoop

namespace MotorControl

open Controller

/-! ### What instructions say -/

namespace Instruction

variable {α σ : Type}

/-- The number of pole pairs that an instruction sets. -/
def pairs? : Instruction α σ → Option UInt8
  | .polePairs n => some n
  | _ => none

/-- The set point that an instruction sets. -/
def target? : Instruction α σ → Option σ
  | .setPoint target => some target
  | _ => none

variable [Scalar α]

/-- The gains of the current regulators that an instruction sets, as they are applied. -/
def currentGains? : Instruction α σ → Option (AxisTunings α)
  | .currentTunings vdc gains =>
    let scale := 1 / (Scalar.invSqrtThree * vdc)
    some ⟨gains.d.scaled scale, gains.q.scaled scale⟩
  | _ => none

/-- The gains of the speed regulator that an instruction sets, as they are applied. -/
def speedGains? (period : α) : Instruction α σ → Option (Tunings α)
  | .speedTunings t => some ⟨t.kp, t.ki * period, t.kd / period⟩
  | _ => none

end Instruction

open Instruction

/-! ### The torque loop -/

namespace TorqueLoop

variable {α : Type} [Scalar α]

theorem isSetting_polePairs :
    IsSetting (fun _ : TorqueLoop α => True) (·.polePairs)
      (fun i => i.pairs?.map fun n => Scalar.ofNat n.toNat) where
  keeps_call _ _ _ := trivial
  view_obey _ i _ := by cases i <;> rfl
  view_calculate _ _ _ _ := rfl

/-- Enabling, disabling and arming anew leave the gains as they are. -/
theorem currentTunings_obey (t : TorqueLoop α) (i : Instruction α (Rotating α)) :
    (t.obey i).currentTunings = i.currentGains?.getD t.currentTunings := by
  cases i with
  | enable =>
      show AxisTunings.mk t.d.enable.tunings t.q.enable.tunings = _
      rw [Regulator.tunings_enable, Regulator.tunings_enable]
      rfl
  | disable | reset | service | polePairs | setPoint | currentTunings | speedTunings => rfl

theorem currentTunings_calculate (t : TorqueLoop α) (currents : Phases α) (angle : α) :
    (t.calculate currents angle).2.currentTunings = t.currentTunings := by
  obtain ⟨x, y, hcalc⟩ := t.calculate_spec currents angle
  rw [hcalc]
  show AxisTunings.mk (t.d.process x).2.tunings (t.q.process y).2.tunings = _
  rw [Regulator.tunings_process, Regulator.tunings_process]
  rfl

theorem isSetting_currentTunings :
    IsSetting (fun _ : TorqueLoop α => True) (·.currentTunings) currentGains? where
  keeps_call _ _ _ := trivial
  view_obey t i _ := t.currentTunings_obey i
  view_calculate t currents angle _ := t.currentTunings_calculate currents angle

end TorqueLoop

/-! ### The speed loop -/

namespace SpeedLoop

variable {α O : Type} [Scalar α]

/-- What the handler takes to the torque loop is a set point, and nothing else. -/
theorem currentTunings_service (s : SpeedLoop α O) :
    s.service.torque.currentTunings = s.torque.currentTunings := by
  rw [service_eq]
  cases s.target.take.1 <;> rfl

theorem currentTunings_obey (s : SpeedLoop α O) (i : Instruction α α) :
    (s.obey i).torque.currentTunings = i.currentGains?.getD s.torque.currentTunings := by
  cases i with
  | enable => exact s.torque.currentTunings_obey .enable
  | service => exact s.currentTunings_service
  | disable | reset | polePairs | setPoint | currentTunings | speedTunings => rfl

variable [LoopObserver O α]

/-- The torque loop takes a sample as the tick found it. -/
theorem torque_calculate (s : SpeedLoop α O) (currents : Phases α) (angle : α) :
    (s.calculate currents angle).result.2.torque = (s.torque.calculate currents angle).2 := by
  rw [calculate_eq, ← (s.paced_spec currents angle).1]
  rfl

/-- Both counts of the pole pairs are the one setting. -/
theorem isSetting_polePairs :
    IsSetting (fun _ : SpeedLoop α O => True) (fun s => (s.polePairs, s.torque.polePairs))
      (fun i => i.pairs?.map fun n => (Scalar.ofNat n.toNat, Scalar.ofNat n.toNat)) where
  keeps_call _ _ _ := trivial
  view_obey s i _ := by
    cases i with
    | service =>
        show (s.service.polePairs, s.service.torque.polePairs) = _
        rw [service_eq]
        cases s.target.take.1 <;> rfl
    | enable | disable | reset | polePairs | setPoint | currentTunings | speedTunings => rfl
  view_calculate s currents angle _ := by
    obtain ⟨-, -, -, -, hpairs, -⟩ := s.paced_spec currents angle
    apply Prod.ext
    · show (s.calculate currents angle).result.2.polePairs = s.polePairs
      rw [calculate_eq]
      exact hpairs
    · show (s.calculate currents angle).result.2.torque.polePairs = s.torque.polePairs
      rw [torque_calculate]
      rfl

theorem isSetting_currentTunings :
    IsSetting (fun _ : SpeedLoop α O => True) (·.torque.currentTunings) currentGains? where
  keeps_call _ _ _ := trivial
  view_obey s i _ := s.currentTunings_obey i
  view_calculate s currents angle _ := by
    show (s.calculate currents angle).result.2.torque.currentTunings = _
    rw [torque_calculate, TorqueLoop.currentTunings_calculate]

/-- Regulating the speed leaves the speed to be kept as it is, and so does what the observer
answers. -/
theorem setPoint_paced (s : SpeedLoop α O) (currents : Phases α) (angle : α) :
    (s.paced currents angle).result.regulator.setPoint = s.regulator.setPoint := by
  unfold paced
  split
  · obtain ⟨observer, tunings, htick⟩ :=
      tick_spec { s with countdown := s.ratio.value } currents angle
    rw [htick]
    exact Regulator.setPoint_process _ _
  · rfl

theorem isSetting_setPoint :
    IsSetting (fun _ : SpeedLoop α O => True) (·.regulator.setPoint) target? where
  keeps_call _ _ _ := trivial
  view_obey s i _ := by
    cases i with
    | enable => exact Regulator.setPoint_enable _
    | service =>
        show s.service.regulator.setPoint = _
        rw [service_eq]
        rfl
    | disable | reset | polePairs | setPoint | currentTunings | speedTunings => rfl
  view_calculate s currents angle _ := by
    show (s.calculate currents angle).result.2.regulator.setPoint = _
    rw [calculate_eq]
    exact s.setPoint_paced currents angle

/-- Without an observer a sample leaves the gains of the speed regulator as they are. -/
theorem tunings_paced (s : SpeedLoop α Unit) (currents : Phases α) (angle : α) :
    (s.paced currents angle).result.regulator.tunings = s.regulator.tunings := by
  unfold paced
  split
  · exact Regulator.tunings_process _ _
  · rfl

/-- The gains of a loop without observer are set for its own period. -/
theorem isSetting_tunings (period : α) :
    IsSetting (fun s : SpeedLoop α Unit => s.period = period) (·.regulator.tunings)
      (speedGains? period) where
  keeps_call s k h := by
    cases k with
    | instruct i =>
        show (s.obey i).period = period
        cases i with
        | service =>
            show s.service.period = period
            rw [service_eq]
            exact h
        | enable | disable | reset | polePairs | setPoint | currentTunings | speedTunings => exact h
    | sample currents angle =>
        rw [call_sample]
        exact (s.paced_spec currents angle).2.2.2.1.trans h
  view_obey s i h := by
    subst h
    cases i with
    | enable => exact Regulator.tunings_enable _
    | service =>
        show s.service.regulator.tunings = _
        rw [service_eq]
        rfl
    | disable | reset | polePairs | setPoint | currentTunings | speedTunings => rfl
  view_calculate s currents angle _ := by
    show (s.calculate currents angle).result.2.regulator.tunings = _
    rw [calculate_eq]
    exact s.tunings_paced currents angle

end SpeedLoop

end MotorControl
