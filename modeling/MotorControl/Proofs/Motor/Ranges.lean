/-
What the arithmetic of a motor takes for granted.

A regulator clamps into its limits, which asks for a range that is not empty.  A
countdown is counted down, which asks for something to be left of it.  A square wave and
a turning vector are divided into samples, which asks for one sample at least.  None of
this is looked at where it is used.  It is so of a controller and of a session as they
are built, and no operation on a motor ever changes it.
-/
import MotorControl.Proofs.Binary32.Order
import MotorControl.Proofs.Motor.Usage
import MotorControl.Proofs.SpeedLoop

namespace MotorControl

open Controller (Call)

/-! ### Controllers -/

/-- A range that is neither empty nor a single number. -/
def Limits.Proper {α : Type} [LT α] (l : Limits α) : Prop := l.min < l.max

theorem Limits.symmetric_proper {limit : Float32} (h : 0 < limit) :
    (Limits.symmetric limit).Proper :=
  Binary32.neg_lt_self h

namespace TorqueLoop

theorem limits_call {α : Type} [Scalar α] (t : TorqueLoop α) (k : Call α (Rotating α)) :
    (Controller.call t k).result.2.regulators.map (·.limits) = t.regulators.map (·.limits) := by
  cases k with
  | instruct i =>
      cases i with
      | enable =>
          show [t.d.enable.limits, t.q.enable.limits] = _
          rw [Regulator.limits_enable, Regulator.limits_enable]
          rfl
      | disable | reset | service | polePairs | setPoint | currentTunings | speedTunings => rfl
  | sample currents angle =>
      show [(t.d.process _).2.limits, (t.q.process _).2.limits] = _
      rw [Regulator.limits_process, Regulator.limits_process]
      rfl

/-- A loop whose regulators can clamp. -/
def Computes (t : TorqueLoop Float32) : Prop := ∀ r ∈ t.regulators, r.limits.Proper

theorem computes_new : Computes .new := by
  have hproper : (Limits.symmetric (1 : Float32)).Proper :=
    Limits.symmetric_proper (by decide +kernel)
  exact List.forall_mem_cons.mpr ⟨hproper, List.forall_mem_singleton.mpr hproper⟩

theorem computes_call (t : TorqueLoop Float32) (k : Call Float32 (Rotating Float32))
    (h : t.Computes) : (Controller.call t k).result.2.Computes := by
  unfold Computes at h ⊢
  rw [← List.forall_mem_map] at h ⊢
  rwa [limits_call]

end TorqueLoop

namespace SpeedLoop

variable {α O : Type} [Scalar α] [LoopObserver O α]

theorem limits_call (s : SpeedLoop α O) (k : Call α α) :
    (Controller.call s k).result.2.regulators.map (·.limits) = s.regulators.map (·.limits) := by
  cases k with
  | instruct i =>
      cases i with
      | enable =>
          exact congrArg₂ List.cons s.regulator.limits_enable
            (s.torque.limits_call (.instruct .enable))
      | service =>
          show s.service.regulators.map (·.limits) = _
          rw [service_eq]
          cases s.target.take.1 <;> rfl
      | disable | reset | polePairs | setPoint | currentTunings | speedTunings => rfl
  | sample currents angle =>
      obtain ⟨htorque, -, -, -, -, hlimits⟩ := s.paced_spec currents angle
      rw [call_sample, htorque]
      exact congrArg₂ List.cons hlimits (s.torque.limits_call (.sample currents angle))

/-- The countdown goes down only from above one, and starts again from the ratio. -/
theorem countdown_call (s : SpeedLoop α O) (k : Call α α) (h : 0 < s.countdown) :
    0 < (Controller.call s k).result.2.countdown := by
  cases k with
  | instruct i =>
      cases i with
      | reset => exact s.ratio.pos
      | service =>
          show 0 < s.service.countdown
          rwa [service_eq]
      | enable | disable | polePairs | setPoint | currentTunings | speedTunings => exact h
  | sample currents angle =>
      rw [call_sample]
      show 0 < (s.paced currents angle).result.countdown
      unfold paced
      split
      · obtain ⟨observer, tunings, htick⟩ :=
          tick_spec { s with countdown := s.ratio.value } currents angle
        rw [htick]
        exact s.ratio.pos
      · rename_i hcount
        show 0 < s.countdown - 1
        grind

/-- A loop whose regulators can clamp, with a sample left up to the next tick. -/
structure Computes (s : SpeedLoop Float32 O) : Prop where
  limits : ∀ r ∈ s.regulators, r.limits.Proper
  counting : 0 < s.countdown

omit [LoopObserver O α] in
theorem computes_of_check {O : Type} {observer : O} {maxCurrent : Quantity .ampere Float32}
    {pwm : Hertz} {ratio : OuterRatio} {s : SpeedLoop Float32 O}
    (hs : check observer maxCurrent pwm ratio = .ok s) : s.Computes := by
  obtain ⟨hpos, rfl⟩ := check_eq_ok_iff.1 hs
  exact ⟨List.forall_mem_cons.mpr ⟨Limits.symmetric_proper hpos, TorqueLoop.computes_new⟩, ratio.pos⟩

theorem computes_call {O : Type} [LoopObserver O Float32] (s : SpeedLoop Float32 O)
    (k : Call Float32 Float32) (h : s.Computes) : (Controller.call s k).result.2.Computes := by
  refine ⟨?_, s.countdown_call k h.counting⟩
  have hlimits := h.limits
  rw [← List.forall_mem_map] at hlimits ⊢
  rwa [limits_call]

end SpeedLoop

/-! ### Sessions -/

/-- A sample leaves the length of the turn and the configuration of an electrical test alone. -/
theorem ElectricalTest.settings_sample {α : Type} [Scalar α] {board : Board} {t : ElectricalTest α}
    (h : Session.Open board t) (currents : Phases α) (position : α) :
    (t.sample currents position).result.rotationSamples = t.rotationSamples ∧
      (t.sample currents position).result.config = t.config := by
  obtain ⟨-, model, phase, winding, hmoved⟩ := t.counted.judge_moves currents position
  rw [sample_eq h.drive_eq, Traced.bind_result, Traced.bind_result, hmoved]
  cases (t.counted.judge currents position).result.1 with
  | output duties => exact ⟨rfl, rfl⟩
  | finish result => cases result <;> exact ⟨rfl, rfl⟩

namespace Occupant

variable {C σ : Type} {board : Board} {o : Occupant C}

/-- A session with something left to count down and with something to divide by. -/
def Computes : Occupant C → Prop
  | .aligning session _ => 0 < session.remaining.toNat
  | .identifyingElectrical session _ =>
    0 < (max session.config.halfPeriod 1).toNat ∧ 0 < session.rotationSamples.toNat
  | .idle .. | .identifyingMechanical _ | .running _ => True

variable [Controller C Float32 σ]

/-- A beat that does not end the session leaves something to count down. -/
theorem Computes.beat (hc : o.Computes) (h : o.Sound board) (b : Beat Float32)
    (hnext : (o.beat b).result.Sound board) : (o.beat b).result.Computes := by
  cases o with
  | idle | running => cases b <;> trivial
  | identifyingMechanical session => trivial
  | aligning session controller =>
      cases b with
      | service => exact hc
      | sample currents position =>
          obtain ⟨hleft, hpos⟩ := BoundedSession.due_sample (n := session.remaining.toNat) h
            (And.intro rfl hc) currents position hnext
          exact lt_of_lt_of_eq hpos hleft.symm
  | identifyingElectrical session controller =>
      cases b with
      | service => exact hc
      | sample currents position =>
          obtain ⟨hturn, hconfig⟩ := ElectricalTest.settings_sample h currents position
          show 0 < (max (session.sample currents position).result.config.halfPeriod 1).toNat ∧
            0 < (session.sample currents position).result.rotationSamples.toNat
          rw [hturn, hconfig]
          exact hc

end Occupant

/-! ### Motors -/

namespace Motor

section

variable {C σ : Type} [Controller C Float32 σ] {board : Board} {m : Motor C}

theorem computes_beat (h : m.occupant.Sound board) (hc : m.occupant.Computes) (b : Beat Float32) :
    (m.beat b).result.occupant.Computes := by
  have hnext := hc.beat h b
  rw [beat_eq h, Traced.bind_result]
  cases h.beat b with
  | goesOn sound _ =>
      rw [sound.isDone]
      exact hnext sound
  | ends spent _ =>
      rw [spent.isDone]
      obtain ⟨-, -, controller, hidle⟩ :=
        finish_of_spent (m := { m with occupant := (m.occupant.beat b).result }) spent
      show (Motor.finish _).result.occupant.Computes
      rw [hidle]
      trivial

theorem computes_step (h : m.occupant.Sound board) (hc : m.occupant.Computes) {op : Operation σ}
    {done : Traced Float32 (Option Verdict × Motor C)} (hdone : m.step op = .ok done) :
    done.result.2.occupant.Computes := by
  cases op with
  | align =>
      cases hdone
      obtain ⟨controller, hresult, -⟩ := align_spec h
      show m.align.result.occupant.Computes
      rw [hresult]
      exact Hertz.samplesIn_pos _ _
  | identifyElectrical =>
      obtain ⟨t, ht, hdone⟩ := Fault.bind_eq_ok_iff.mp hdone
      cases hdone
      obtain ⟨begun, controller, hbegin, hresult, -⟩ := identifyElectrical_spec h ht
      obtain ⟨model, -, hbegun⟩ := Fault.bind_eq_ok_iff.mp hbegin
      cases hbegun
      show t.result.occupant.Computes
      rw [hresult]
      exact ⟨toNat_max_one_pos _, Hertz.samplesIn_pos _ _⟩
  | start params =>
      cases hdone
      show (m.start params).result.2.occupant.Computes
      cases hparams : Command.twoPositive params .invalidResistance .invalidInductance with
      | error e => rw [start, hparams]; exact hc
      | ok found =>
          obtain ⟨controller, hresult, -⟩ := start_spec h hparams
          rw [hresult]
          trivial
  | setPoint target =>
      cases hdone
      show (m.setPoint target).result.2.occupant.Computes
      unfold setPoint
      split
      · trivial
      · exact hc
  | service => cases hdone; exact computes_beat h hc .service
  | sample currents position => cases hdone; exact computes_beat h hc (.sample currents position)
  | setSpeedTunings isSpeed t =>
      cases isSpeed
      cases hdone
      show (m.setSpeedTunings t).result.2.occupant.Computes
      unfold setSpeedTunings
      split
      · trivial
      · trivial
      · exact hc
  | identifyMechanical isSpeed params position =>
      cases isSpeed
      obtain ⟨t, ht, hdone⟩ := Fault.bind_eq_ok_iff.mp hdone
      cases hdone
      show t.result.2.occupant.Computes
      cases hparams : Command.twoPositive params .invalidTargetSpeed .invalidTorqueConstant with
      | error e =>
          rw [identifyMechanical, hparams] at ht
          cases ht
          exact hc
      | ok found =>
          obtain ⟨begun, controller, -, hresult, -⟩ := identifyMechanical_spec h hparams ht
          rw [hresult]
          trivial

/-- A motor whose controller and whose session compute with what they take for granted. -/
structure Computes (computes : C → Prop) (m : Motor C) : Prop where
  controller : computes m.occupant.controller
  occupant : m.occupant.Computes

/-- What every call on the controller keeps, every run of the motor keeps. -/
theorem computes_run {computes : C → Prop}
    (hcall : ∀ (c : C) (k : Call Float32 σ), computes c → computes (Controller.call c k).result.2)
    (ops : List (Operation σ)) :
    ∀ (m : Motor C) (t : Traced Float32 (Motor C)), m.occupant.Sound board →
      Computes computes m → m.run ops = .ok t → Computes computes t.result := by
  induction ops with
  | nil => intro m t _ hc ht; cases ht; exact hc
  | cons op ops ih =>
      intro m t h hc ht
      obtain ⟨done, rest, hdone, hrest, rfl⟩ := run_cons_eq_ok_iff.mp ht
      have hcontroller : computes done.result.2.occupant.controller := by
        rw [controller_step h hdone]
        exact Controller.after_induction hcall _ _ hc.controller
      exact ih _ rest (keeps_step h hdone).sound
        ⟨hcontroller, computes_step h hc.occupant hdone⟩ hrest

end

end Motor

end MotorControl
