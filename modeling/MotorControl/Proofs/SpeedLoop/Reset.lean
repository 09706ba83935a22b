/-
What a reset of a speed loop forgets.

A reset arms the three regulators anew, empties the handoff and starts the count and
the measurement of the speed over, so it forgets all that was measured before.  One
thing it keeps: the current that the torque loop was last handed.  That current came
out of the regulator of the speed, and it goes on driving the motor until the handler
runs after the next tick.

Two loops of one build that agree in their settings therefore measure the same speeds
and raise the same interrupts after a reset, whatever happened to each of them before.
They answer the same duties if they were handed the same current, and the last theorem
shows that otherwise they need not.
-/
import MotorControl.Binary32
import MotorControl.Proofs.SpeedLoop

namespace MotorControl

namespace SpeedLoop

open Controller

variable {α O : Type} [Scalar α]

/-- Loops that were told the same pole pairs, the same gains and the same speed. -/
structure SameSettings (a b : SpeedLoop α O) : Prop where
  polePairs : a.polePairs = b.polePairs
  currentTunings : a.torque.currentTunings = b.torque.currentTunings
  speedTunings : a.regulator.tunings = b.regulator.tunings
  setPoint : a.regulator.setPoint = b.regulator.setPoint

/-- All that a reset leaves of a loop. -/
theorem reset_eq (s : SpeedLoop α O) :
    s.reset = {
      observer := s.observer
      torque := s.torque.reset
      regulator := .armed s.regulator.tunings s.regulator.limits s.regulator.setPoint
      target := .empty
      ratio := s.ratio
      countdown := s.ratio.value
      period := s.period
      previousAngle := 0
      polePairs := s.polePairs
      speed := 0 } := rfl

variable {a b : SpeedLoop α O} {limit period : α} {ratio : OuterRatio}

/-- Loops of one build and with the same settings are the same after a reset, their torque loops
apart. -/
theorem reset_eq_withTorque (ha : Assembled limit ratio period a) (hb : Assembled limit ratio period b)
    (h : SameSettings a b) (hobserver : a.observer = b.observer) :
    b.reset = { a.reset with torque := b.reset.torque } := by
  rw [reset_eq a, reset_eq b, ha.ratio_eq, hb.ratio_eq, ha.period_eq, hb.period_eq, ha.limits,
    hb.limits, h.polePairs, h.speedTunings, h.setPoint, hobserver]

/-- The current across the rotor is the only thing from before that a reset does not forget. -/
theorem reset_eq_reset_iff (ha : Assembled limit ratio period a)
    (hb : Assembled limit ratio period b) (h : SameSettings a b)
    (hobserver : a.observer = b.observer) :
    a.reset = b.reset ↔ a.torque.setPoint = b.torque.setPoint := by
  constructor
  · intro heq
    exact congrArg (fun s => s.torque.setPoint) heq
  · intro hset
    have hd : a.torque.d.tunings = b.torque.d.tunings := congrArg AxisTunings.d h.currentTunings
    have hq : a.torque.q.tunings = b.torque.q.tunings := congrArg AxisTunings.q h.currentTunings
    have hdSet : a.torque.d.setPoint = b.torque.d.setPoint := congrArg Rotating.d hset
    have hqSet : a.torque.q.setPoint = b.torque.q.setPoint := congrArg Rotating.q hset
    have htorque : a.torque.reset = b.torque.reset := by
      rw [TorqueLoop.reset_eq, TorqueLoop.reset_eq, ha.dLimits, ha.qLimits, hb.dLimits, hb.qLimits,
        ha.polePairs, hb.polePairs, h.polePairs, hd, hq, hdSet, hqSet]
    rw [reset_eq_withTorque ha hb h hobserver]
    show a.reset = { a.reset with torque := b.torque.reset }
    rw [← htorque]
    rfl

/-! ### Loops that differ in their torque loops -/

variable [LoopObserver O α]

/-- What the torque loop is shows neither in the events of a call nor in the rest of the loop. -/
theorem call_withTorque (s : SpeedLoop α O) (t : TorqueLoop α) (k : Call α α) :
    (call { s with torque := t } k).events = (call s k).events ∧
      ∃ t', (call { s with torque := t } k).result.2 = { (call s k).result.2 with torque := t' } := by
  cases k with
  | sample currents angle =>
      rw [events_call_sample, events_call_sample, call_sample, call_sample, paced_withTorque,
        Traced.map_events]
      exact ⟨rfl, _, rfl⟩
  | instruct i =>
      refine ⟨rfl, ?_⟩
      show ∃ t', SpeedLoop.obey { s with torque := t } i = { s.obey i with torque := t' }
      cases i with
      | service =>
          show ∃ t', { s with torque := t }.service = { s.service with torque := t' }
          rw [service_eq, service_eq]
          exact ⟨_, rfl⟩
      | enable | disable | reset | polePairs | setPoint | currentTunings | speedTunings =>
          exact ⟨_, rfl⟩

/-- The outer loop goes its way whatever the torque loop is. -/
theorem run_withTorque (ks : List (Call α α)) :
    ∀ (s : SpeedLoop α O) (t : TorqueLoop α),
      events { s with torque := t } ks = events s ks ∧
        (after { s with torque := t } ks).speed = (after s ks).speed := by
  induction ks with
  | nil => intro s t; exact ⟨rfl, rfl⟩
  | cons k ks ih =>
      intro s t
      -- after the call the torque loops may differ in another way, which is why `t` is not fixed
      obtain ⟨hevents, t', hnext⟩ := call_withTorque s t k
      obtain ⟨ihevents, ihspeed⟩ := ih (call s k).result.2 t'
      rw [events_cons, events_cons, after_cons, after_cons, hnext, hevents, ihevents, ihspeed]
      exact ⟨rfl, rfl⟩

/-! ### Two histories -/

/--
**After a reset, all that is left of the past is the current the torque loop was last handed.**  Two
loops of one build with the same settings measure the same speeds and raise the same interrupts
after a reset, whatever their histories.  They are then the same loop, and answer the same duties, if
they were handed the same current.
-/
theorem reset_forgets_all_but_current {maxCurrent : Quantity .ampere α} {pwm : Hertz}
    {ratio : OuterRatio} {built : SpeedLoop α Unit}
    (hbuilt : check () maxCurrent pwm ratio = .ok built) (ks ks' : List (Call α α))
    (hsame : SameSettings (after built ks) (after built ks')) :
    let a := after built ks
    let b := after built ks'
    (a.reset = b.reset ↔ a.torque.setPoint = b.torque.setPoint) ∧
      ∀ js : List (Call α α),
        events a.reset js = events b.reset js ∧
        (after a.reset js).speed = (after b.reset js).speed ∧
        (a.torque.setPoint = b.torque.setPoint → outputs a.reset js = outputs b.reset js) := by
  intro a b
  have ha : Assembled maxCurrent.value ratio (ratio.outerPeriod pwm) a :=
    (Assembled.of_check hbuilt).after ks
  have hb : Assembled maxCurrent.value ratio (ratio.outerPeriod pwm) b :=
    (Assembled.of_check hbuilt).after ks'
  have hiff := reset_eq_reset_iff ha hb hsame rfl
  refine ⟨hiff, fun js => ?_⟩
  obtain ⟨hevents, hspeed⟩ := run_withTorque js a.reset b.reset.torque
  rw [← reset_eq_withTorque ha hb hsame rfl] at hevents hspeed
  exact ⟨hevents.symm, hspeed.symm, fun hset => by rw [hiff.mpr hset]⟩

/-- Proportional gains, and a speed to be kept. -/
def proportional : List (Call Float32 Float32) :=
  [.instruct (.speedTunings ⟨1, 0, 0⟩), .instruct (.currentTunings 24 (.both ⟨1, 0, 0⟩)),
    .instruct (.setPoint 100)]

/-- A sample at which no current flows and the rotor stands at zero. -/
def resting : Call Float32 Float32 := .sample ⟨0, 0, 0⟩ 0

/-- A loop that was handed a current before its reset measures the same speeds after it as one that
never was. -/
theorem reset_forgets_speed_of_resting : ∃ built : SpeedLoop Float32 Unit,
    check () ⟨2⟩ ⟨10000⟩ ⟨1, by decide, by decide⟩ = .ok built ∧
      SameSettings (after built (proportional ++ [resting, .instruct .service]))
        (after built proportional) ∧
      ∀ js, (after (after built (proportional ++ [resting, .instruct .service])).reset js).speed
        = (after (after built proportional).reset js).speed := by
  have hbuilt : check () (⟨2⟩ : Quantity .ampere Float32) ⟨10000⟩ ⟨1, by decide, by decide⟩ =
      .ok _ := check_eq_ok (by decide +kernel)
  refine ⟨_, hbuilt, ?same,
    fun js => ((reset_forgets_all_but_current hbuilt _ _ ?same).2 js).2.1⟩
  exact ⟨by decide +kernel, by decide +kernel, by decide +kernel, by decide +kernel⟩

/-- But it drives the resting motor, though nothing asked for a current since the reset, and the
other one does not. -/
theorem driven_after_reset : ∃ built : SpeedLoop Float32 Unit,
    check () ⟨2⟩ ⟨10000⟩ ⟨1, by decide, by decide⟩ = .ok built ∧
      SameSettings (after built (proportional ++ [resting, .instruct .service]))
        (after built proportional) ∧
      outputs (after built (proportional ++ [resting, .instruct .service])).reset [resting]
        = [⟨.half, .ofUInt8 57, .ofUInt8 43⟩] ∧
      outputs (after built proportional).reset [resting] = [.centered] := by
  refine ⟨_, check_eq_ok (by decide +kernel), ?_, by decide +kernel, by decide +kernel⟩
  exact ⟨by decide +kernel, by decide +kernel, by decide +kernel, by decide +kernel⟩

end SpeedLoop

end MotorControl
