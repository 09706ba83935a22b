/-
What one call does to a speed loop.

A sample is taken in two parts.  First the outer loop counts on and, where a tick is
due, measures the speed and asks for a current; then the torque loop takes the same
sample.  The first part never looks at the torque loop, and the second changes nothing
else, so the two halves of a speed loop meet in the handoff alone.

`Assembled` says what no call ever changes: the limits, the ratio and the period that
a loop was built with, and that no current along the rotor is asked for.
-/
import MotorControl.Proofs.Controller.Run
import MotorControl.Proofs.Regulator
import MotorControl.SpeedLoop

namespace MotorControl

namespace TorqueLoop

variable {α : Type}

/-- The regulators of the loop. -/
def regulators (t : TorqueLoop α) : List (Regulator α) := [t.d, t.q]

variable [Scalar α]

/-- A sample reaches the two regulators and nothing else of a torque loop. -/
theorem calculate_spec (t : TorqueLoop α) (currents : Phases α) (angle : α) :
    ∃ x y, (t.calculate currents angle).2
      = { t with d := (t.d.process x).2, q := (t.q.process y).2 } :=
  ⟨_, _, rfl⟩

/-- A torque loop that was armed anew is given by its gains, its limits, its set points and its
pole pairs. -/
theorem reset_eq (t : TorqueLoop α) :
    t.reset = ⟨.armed t.d.tunings t.d.limits t.d.setPoint,
      .armed t.q.tunings t.q.limits t.q.setPoint, t.polePairs⟩ := by
  show (⟨t.d.disable.enable, t.q.disable.enable, t.polePairs⟩ : TorqueLoop α) = _
  rw [Regulator.enable_disable, Regulator.enable_disable]

end TorqueLoop

namespace SpeedLoop

open Controller

variable {α O : Type}

/-- The regulators of the loop. -/
def regulators (s : SpeedLoop α O) : List (Regulator α) := s.regulator :: s.torque.regulators

variable [Scalar α]

/-- A loop as it is built: enabled, without gains and at rest. -/
def initial (observer : O) (maxCurrent : Quantity .ampere α) (pwm : Hertz) (ratio : OuterRatio) :
    SpeedLoop α O where
  observer := observer
  torque := .new
  regulator := .armed .zero (.symmetric maxCurrent.value) 0
  target := .empty
  ratio := ratio
  countdown := ratio.value
  period := ratio.outerPeriod pwm
  previousAngle := 0
  polePairs := 1
  speed := 0

section

variable {observer : O} {maxCurrent : Quantity .ampere α} {pwm : Hertz} {ratio : OuterRatio}
  {s : SpeedLoop α O}

/-- Exactly the current limits above zero are accepted. -/
theorem check_eq_ok_iff :
    check observer maxCurrent pwm ratio = .ok s ↔
      0 < maxCurrent.value ∧ s = initial observer maxCurrent pwm ratio := by
  unfold check
  by_cases h : 0 < maxCurrent.value
  · rw [if_pos h]
    constructor
    · intro hok
      cases hok
      exact ⟨h, rfl⟩
    · rintro ⟨-, rfl⟩
      rfl
  · rw [if_neg h]
    constructor
    · intro hok
      cases hok
    · intro hpos
      exact absurd hpos.1 h

theorem check_eq_ok (h : 0 < maxCurrent.value) :
    check observer maxCurrent pwm ratio = .ok (initial observer maxCurrent pwm ratio) :=
  check_eq_ok_iff.2 ⟨h, rfl⟩

end

/-! ### Asking for a current -/

/-- The speed that a tick at an angle measures. -/
def measured (s : SpeedLoop α O) (angle : α) : α :=
  Angle.difference angle s.previousAngle / s.period

/-- The current that a tick at an angle asks for: what the speed regulator answers. -/
def tickCurrent (s : SpeedLoop α O) (angle : α) : α := (s.regulator.process (s.measured angle)).1

/-- The current that a sample asks for, if it brings a tick. -/
def asked? (s : SpeedLoop α O) (angle : α) : Option α :=
  if s.countdown ≤ 1 then some (s.tickCurrent angle) else none

/-- The handler takes to the torque loop what waits, if anything does. -/
theorem service_eq (s : SpeedLoop α O) :
    s.service = { s with
      target := s.target.take.2
      torque := s.target.take.1.elim s.torque fun q => s.torque.setSetPoint ⟨0, q⟩ } := by
  unfold service Handoff.take
  by_cases h : s.target.pending
  · simp only [if_pos h, Option.elim_some]
  · simp only [if_neg h, Option.elim_none]

/-! ### What is built in -/

/-- A loop that was built for a current limit, a ratio and a period, at any later time. -/
structure Assembled (maxCurrent : α) (ratio : OuterRatio) (period : α) (s : SpeedLoop α O) :
    Prop where
  limits : s.regulator.limits = .symmetric maxCurrent
  ratio_eq : s.ratio = ratio
  period_eq : s.period = period
  /-- Both loops take the rotor for the same one. -/
  polePairs : s.torque.polePairs = s.polePairs
  dLimits : s.torque.d.limits = .symmetric 1
  qLimits : s.torque.q.limits = .symmetric 1
  /-- No current along the rotor is ever asked for. -/
  dSetPoint : s.torque.d.setPoint = 0

namespace Assembled

variable {maxCurrent : Quantity .ampere α} {pwm : Hertz} {ratio : OuterRatio} {period limit : α}
  {observer : O} {s : SpeedLoop α O}

theorem of_check (h : check observer maxCurrent pwm ratio = .ok s) :
    Assembled maxCurrent.value ratio (ratio.outerPeriod pwm) s := by
  obtain ⟨-, rfl⟩ := check_eq_ok_iff.1 h
  exact ⟨rfl, rfl, rfl, rfl, rfl, rfl, rfl⟩

theorem obey (h : Assembled limit ratio period s) (i : Instruction α α) :
    Assembled limit ratio period (s.obey i) := by
  obtain ⟨hlimits, hratio, hperiod, hpairs, hd, hq, hset⟩ := h
  cases i with
  | enable =>
      exact ⟨(Regulator.limits_enable _).trans hlimits, hratio, hperiod, hpairs,
        (Regulator.limits_enable _).trans hd, (Regulator.limits_enable _).trans hq,
        (Regulator.setPoint_enable _).trans hset⟩
  | disable => exact ⟨hlimits, hratio, hperiod, hpairs, hd, hq, hset⟩
  | reset => exact ⟨hlimits, hratio, hperiod, hpairs, hd, hq, hset⟩
  | service =>
      show Assembled limit ratio period s.service
      rw [service_eq]
      cases s.target.take.1 with
      | none => exact ⟨hlimits, hratio, hperiod, hpairs, hd, hq, hset⟩
      | some q => exact ⟨hlimits, hratio, hperiod, hpairs, hd, hq, rfl⟩
  | polePairs n => exact ⟨hlimits, hratio, hperiod, rfl, hd, hq, hset⟩
  | setPoint target => exact ⟨hlimits, hratio, hperiod, hpairs, hd, hq, hset⟩
  | currentTunings vdc t => exact ⟨hlimits, hratio, hperiod, hpairs, hd, hq, hset⟩
  | speedTunings t => exact ⟨hlimits, hratio, hperiod, hpairs, hd, hq, hset⟩

end Assembled

/-! ### Ticks -/

variable [LoopObserver O α]

/-- A tick leaves the current it asks for in the handoff.  Its observer may change the gains. -/
theorem tick_spec (s : SpeedLoop α O) (currents : Phases α) (angle : α) :
    ∃ observer tunings, (s.tick currents angle).result = { s with
      observer := observer
      regulator := (s.regulator.process (s.measured angle)).2.setTunings tunings
      target := s.target.store (s.tickCurrent angle)
      previousAngle := angle
      speed := s.measured angle } := by
  let sample : LoopSample α := ⟨currents, s.measured angle, angle * s.polePairs⟩
  let answer := (LoopObserver.tick sample s.observer).result
  let next := { s with
    observer := answer.2
    regulator := (s.regulator.process (s.measured angle)).2
    target := s.target.store (s.tickCurrent angle)
    previousAngle := angle
    speed := s.measured angle }
  have hnext : (s.tick currents angle).result = answer.1.elim next next.setSpeedTunings := rfl
  rw [hnext]
  cases answer.1 with
  | none => exact ⟨_, _, rfl⟩
  | some tunings => exact ⟨_, _, rfl⟩

theorem tick_withTorque (s : SpeedLoop α O) (t : TorqueLoop α) (currents : Phases α) (angle : α) :
    { s with torque := t }.tick currents angle =
      (fun r => { r with torque := t }) <$> s.tick currents angle := by
  unfold tick
  simp only [map_bind, map_pure]
  refine congrArg _ (funext fun _ => congrArg _ (funext fun _ => congrArg _ (funext fun r => ?_)))
  cases r.1 with
  | none => rfl
  | some tunings => rfl

/-! ### Samples -/

/-- The loop when its torque loop takes the sample: counted on, and ticked if a tick was due. -/
def paced (s : SpeedLoop α O) (currents : Phases α) (angle : α) : Traced α (SpeedLoop α O) :=
  if s.countdown ≤ 1 then { s with countdown := s.ratio.value }.tick currents angle
  else pure { s with countdown := s.countdown - 1 }

theorem calculate_eq (s : SpeedLoop α O) (currents : Phases α) (angle : α) :
    s.calculate currents angle =
      (fun p => ((p.torque.calculate currents angle).1,
        { p with torque := (p.torque.calculate currents angle).2 })) <$>
      s.paced currents angle := by
  unfold calculate paced
  by_cases h : s.countdown ≤ 1
  · rw [if_pos h, if_pos h, if_pos h]
    rfl
  · rw [if_neg h, if_neg h, if_neg h]
    rfl

/-- The outer loop reaches neither the torque loop nor what is built in; what it asks for is left
in the handoff. -/
theorem paced_spec (s : SpeedLoop α O) (currents : Phases α) (angle : α) :
    let p := (s.paced currents angle).result
    p.torque = s.torque ∧ p.target = (s.asked? angle).elim s.target s.target.store ∧
      p.ratio = s.ratio ∧ p.period = s.period ∧ p.polePairs = s.polePairs ∧
      p.regulator.limits = s.regulator.limits := by
  unfold paced asked?
  by_cases h : s.countdown ≤ 1
  · obtain ⟨observer, tunings, htick⟩ :=
      tick_spec { s with countdown := s.ratio.value } currents angle
    rw [if_pos h, if_pos h, htick]
    exact ⟨rfl, rfl, rfl, rfl, rfl, Regulator.limits_process _ _⟩
  · rw [if_neg h, if_neg h]
    exact ⟨rfl, rfl, rfl, rfl, rfl, rfl⟩

theorem paced_withTorque (s : SpeedLoop α O) (t : TorqueLoop α) (currents : Phases α) (angle : α) :
    { s with torque := t }.paced currents angle =
      (fun r => { r with torque := t }) <$> s.paced currents angle := by
  unfold paced
  by_cases h : s.countdown ≤ 1
  · rw [if_pos h, if_pos h]
    exact tick_withTorque { s with countdown := s.ratio.value } t currents angle
  · rw [if_neg h, if_neg h]
    rfl

/-! ### Calls -/

theorem call_sample (s : SpeedLoop α O) (currents : Phases α) (angle : α) :
    let p := (s.paced currents angle).result
    (call s (.sample currents angle)).result =
      (some (p.torque.calculate currents angle).1,
        { p with torque := (p.torque.calculate currents angle).2 }) := by
  show ((fun r => (some r.1, r.2)) <$> s.calculate currents angle).result = _
  rw [calculate_eq]
  rfl

theorem events_call_sample (s : SpeedLoop α O) (currents : Phases α) (angle : α) :
    (call s (.sample currents angle)).events = (s.paced currents angle).events := by
  show ((fun r => (some r.1, r.2)) <$> s.calculate currents angle).events = _
  rw [calculate_eq, Traced.map_events, Traced.map_events]

/-! ### Runs -/

namespace Assembled

variable {ratio : OuterRatio} {period limit : α} {s : SpeedLoop α O}

theorem call (h : Assembled limit ratio period s) (k : Call α α) :
    Assembled limit ratio period (Controller.call s k).result.2 := by
  cases k with
  | instruct i => exact h.obey i
  | sample currents angle =>
      obtain ⟨hlimits, hratio, hperiod, hpairs, hd, hq, hset⟩ := h
      obtain ⟨htorque, -, hpratio, hpperiod, hppairs, hplimits⟩ := paced_spec s currents angle
      obtain ⟨x, y, hcalc⟩ := s.torque.calculate_spec currents angle
      rw [call_sample, htorque, hcalc]
      exact ⟨hplimits.trans hlimits, hpratio.trans hratio, hpperiod.trans hperiod,
        hpairs.trans hppairs.symm, by simpa using hd, by simpa using hq, by simpa using hset⟩

theorem after (h : Assembled limit ratio period s) (ks : List (Call α α)) :
    Assembled limit ratio period (Controller.after s ks) :=
  after_induction (fun _ k h => h.call k) ks s h

end Assembled

end SpeedLoop

end MotorControl
