/-
Gains of a loop that tunes itself.

Two write the gains of such a loop: whoever gives them, at any time, and the tuner that
watches the loop, at a tick whose estimate it accepts.  A tick regulates with the gains
it finds, stores the current, and only then lets the tuner look, so what the tuner
answers holds from the next tick on.

`Turn` says so of one call.  It is the only place where the loop is opened: the runs
below go by induction on it, and show the gains in force to be those of the writer that
came last, and the estimator to have been shown every tick once and nothing else.
-/
import MotorControl.Binary32
import MotorControl.Proofs.SpeedLoop.Settings
import MotorControl.Proofs.SpeedLoop.Ticks
import MotorControl.SpeedLoop.Tuner

namespace MotorControl

open Controller

/-- Gains for continuous time, as the regulator of a loop with the period applies them. -/
def Tunings.discretized {α : Type} [Scalar α] (t : Tunings α) (period : α) : Tunings α :=
  ⟨t.kp, t.ki * period, t.kd / period⟩

/-! ### The tuner -/

namespace Tuner

variable {α E : Type} [Scalar α]

/-- The estimates that are accepted. -/
def Config.Accepts (config : Config α) (m : Metrics α) : Prop :=
  m.degraded = false ∧ Scalar.abs m.innovation < config.innovationBound ∧
    m.uncertainty < config.uncertaintyBound

instance (config : Config α) (m : Metrics α) : Decidable (config.Accepts m) :=
  inferInstanceAs (Decidable (_ ∧ _ ∧ _))

theorem Config.accepts_iff {config : Config α} {m : Metrics α} :
    config.Accepts m ↔ m.converged config.innovationBound config.uncertaintyBound = true := by
  unfold Accepts Metrics.converged
  simp [and_assoc]

/-- The gains for the rotor of an estimate: as fast as the loop is sampled. -/
def Config.gains (config : Config α) (e : RotorEstimate α) : Tunings α :=
  ⟨config.frequency * Scalar.tau * e.inertia, config.frequency * Scalar.tau * e.friction, 0⟩

variable [RotorEstimator E α]

/-- What an estimator replies to a sample, and the estimator after it. -/
def Config.reply (config : Config α) (estimator : E) (x : LoopSample α) : RotorEstimate α × E :=
  (RotorEstimator.estimate x config.torqueConstant.value estimator).result

/-- A tuner that was built for a configuration, at any later time. -/
structure IsFor (config : Config α) (t : Tuner α E) : Prop where
  config_eq : t.config = config
  bandwidth_eq : t.bandwidth = config.frequency * Scalar.tau

theorem observe_result {config : Config α} {t : Tuner α E} (h : t.IsFor config)
    (x : LoopSample α) :
    (t.observe x).result =
      let reply := config.reply t.estimator x
      if config.Accepts reply.1.metrics then
        (some (config.gains reply.1),
          { t with estimator := reply.2, tunings := some (config.gains reply.1) })
      else (none, { t with estimator := reply.2 }) := by
  obtain ⟨rfl, hbandwidth⟩ := h
  have hgains (e : RotorEstimate α) : t.config.gains e = t.gains e := by
    rw [Config.gains, ← hbandwidth]
    rfl
  simp only [Config.accepts_iff, hgains]
  unfold observe Config.reply
  simp only [Traced.bind_result]
  split
  · rfl
  · rfl

end Tuner

/-! ### One call -/

namespace SpeedLoop

variable {α E : Type} [Scalar α]

/-- What a tick at a sample shows to the observer. -/
def shown {O : Type} (s : SpeedLoop α O) (currents : Phases α) (angle : α) : LoopSample α :=
  ⟨currents, s.measured angle, angle * s.polePairs⟩

variable [RotorEstimator E α]

/-- What the estimator replies to a tick at a sample, and the estimator after it. -/
def reply (config : Tuner.Config α) (s : SpeedLoop α (Tuner α E)) (currents : Phases α) (angle : α) :
    RotorEstimate α × E :=
  config.reply s.observer.estimator (s.shown currents angle)

/-- What a call makes of a loop that tunes itself for a configuration and ticks once in a
period. -/
inductive Turn (config : Tuner.Config α) (period : α) (s : SpeedLoop α (Tuner α E)) :
    Call α α → SpeedLoop α (Tuner α E) → Prop
  /-- A tick at which the reply is accepted.  What is stored was regulated with the gains from
  before it. -/
  | retunes {currents angle next} (due : s.countdown ≤ 1)
      (accepted : config.Accepts (s.reply config currents angle).1.metrics)
      (stored : next.target = ⟨(s.regulator.process (s.measured angle)).1, true⟩)
      (applied : next.regulator.tunings =
        (config.gains (s.reply config currents angle).1).discretized period)
      (observer : next.observer = { s.observer with
        estimator := (s.reply config currents angle).2
        tunings := some (config.gains (s.reply config currents angle).1) }) :
      Turn config period s (.sample currents angle) next
  /-- A tick at which it is not. -/
  | goesOn {currents angle next} (due : s.countdown ≤ 1)
      (rejected : ¬ config.Accepts (s.reply config currents angle).1.metrics)
      (stored : next.target = ⟨(s.regulator.process (s.measured angle)).1, true⟩)
      (applied : next.regulator.tunings = s.regulator.tunings)
      (observer : next.observer =
        { s.observer with estimator := (s.reply config currents angle).2 }) :
      Turn config period s (.sample currents angle) next
  /-- A sample between two ticks. -/
  | between {currents angle next} (due : ¬ s.countdown ≤ 1)
      (applied : next.regulator.tunings = s.regulator.tunings)
      (observer : next.observer = s.observer) : Turn config period s (.sample currents angle) next
  /-- An instruction.  Only one that gives gains changes them. -/
  | told {i next} (applied : next.regulator.tunings =
        (i.speedGains? period).getD s.regulator.tunings)
      (observer : next.observer = s.observer) : Turn config period s (.instruct i) next

variable {config : Tuner.Config α} {limit period : α} {ratio : OuterRatio}
  {s next : SpeedLoop α (Tuner α E)}

theorem turn_instruct (hperiod : s.period = period) (i : Instruction α α) :
    Turn config period s (.instruct i) (s.obey i) := by
  subst hperiod
  cases i with
  | enable => exact .told (Regulator.tunings_enable _) rfl
  | service =>
      refine .told ?_ ?_
      · show s.service.regulator.tunings = _
        rw [service_eq]
        rfl
      · show s.service.observer = _
        rw [service_eq]
  | disable | reset | polePairs | setPoint | currentTunings | speedTunings => exact .told rfl rfl

theorem turn_sample (hperiod : s.period = period) (h : s.observer.IsFor config)
    (currents : Phases α) (angle : α) :
    Turn config period s (.sample currents angle)
      (call s (.sample currents angle)).result.2 := by
  rw [call_sample]
  by_cases due : s.countdown ≤ 1
  · -- The loop as the tuner finds it: regulated, and the current stored.
    let regulated : SpeedLoop α (Tuner α E) := { s with
      countdown := s.ratio.value
      observer := (s.observer.observe (s.shown currents angle)).result.2
      regulator := (s.regulator.process (s.measured angle)).2
      target := s.target.store (s.tickCurrent angle)
      previousAngle := angle
      speed := s.measured angle }
    have hpaced : (s.paced currents angle).result =
        (s.observer.observe (s.shown currents angle)).result.1.elim regulated
          regulated.setSpeedTunings := by
      rw [paced, if_pos due]
      rfl
    have hobserve : (s.observer.observe (s.shown currents angle)).result =
        let r := s.reply config currents angle
        if config.Accepts r.1.metrics then
          (some (config.gains r.1),
            { s.observer with estimator := r.2, tunings := some (config.gains r.1) })
        else (none, { s.observer with estimator := r.2 }) :=
      Tuner.observe_result h (s.shown currents angle)
    dsimp only at hobserve
    by_cases accepted : config.Accepts (s.reply config currents angle).1.metrics
    · rw [if_pos accepted] at hobserve
      rw [hpaced, hobserve]
      refine .retunes due accepted rfl ?_ ?_
      · rw [← hperiod]
        rfl
      · show (s.observer.observe (s.shown currents angle)).result.2 = _
        rw [hobserve]
    · rw [if_neg accepted] at hobserve
      rw [hpaced, hobserve]
      refine .goesOn due accepted rfl (Regulator.tunings_process _ _) ?_
      show (s.observer.observe (s.shown currents angle)).result.2 = _
      rw [hobserve]
  · have hpaced : (s.paced currents angle).result = { s with countdown := s.countdown - 1 } := by
      rw [paced, if_neg due]
      rfl
    rw [hpaced]
    exact .between due rfl rfl

theorem turn_call (hperiod : s.period = period) (h : s.observer.IsFor config) (k : Call α α) :
    Turn config period s k (call s k).result.2 := by
  cases k with
  | instruct i => exact turn_instruct hperiod i
  | sample currents angle => exact turn_sample hperiod h currents angle

/-! ### What the calls of a run come to -/

/-- A call, and the loop before it. -/
structure Moment (α O : Type) where
  before : SpeedLoop α O
  call : Call α α

/-- What the observer is shown at a call, if the call brings a tick. -/
def Moment.shown? {O : Type} (m : Moment α O) : Option (LoopSample α) :=
  match m.call with
  | .sample currents angle =>
    if m.before.countdown ≤ 1 then some (m.before.shown currents angle) else none
  | .instruct _ => none

/-- The gains that the tuner answers to a call, if the call brings a tick and the reply to it is
accepted. -/
def Moment.found? (config : Tuner.Config α) (m : Moment α (Tuner α E)) : Option (Tunings α) :=
  match m.call with
  | .sample currents angle =>
    let r := m.before.reply config currents angle
    if m.before.countdown ≤ 1 ∧ config.Accepts r.1.metrics then some (config.gains r.1) else none
  | .instruct _ => none

/-- The gains that a call leaves with the regulator, given or found, if there are any. -/
def Moment.applied? (config : Tuner.Config α) (period : α) (m : Moment α (Tuner α E)) :
    Option (Tunings α) :=
  match m.call with
  | .instruct i => i.speedGains? period
  | .sample .. => (m.found? config).map (·.discretized period)

namespace Turn

variable {k : Call α α}

theorem tunings_eq (h : Turn config period s k next) :
    next.regulator.tunings =
      (Moment.applied? config period ⟨s, k⟩).getD s.regulator.tunings := by
  unfold Moment.applied? Moment.found?
  cases h with
  | retunes due accepted _ applied _ => dsimp only; rw [if_pos ⟨due, accepted⟩, applied]; rfl
  | goesOn due rejected _ applied _ => dsimp only; rw [if_neg (mt And.right rejected), applied]; rfl
  | between due applied _ => dsimp only; rw [if_neg (mt And.left due), applied]; rfl
  | told applied _ => exact applied

theorem found_eq (h : Turn config period s k next) :
    next.observer.tunings = (Moment.found? config ⟨s, k⟩).or s.observer.tunings := by
  unfold Moment.found?
  cases h with
  | retunes due accepted _ _ observer => dsimp only; rw [if_pos ⟨due, accepted⟩, observer]; rfl
  | goesOn due rejected _ _ observer =>
      dsimp only
      rw [if_neg (mt And.right rejected), observer]
      rfl
  | between due _ observer => dsimp only; rw [if_neg (mt And.left due), observer]; rfl
  | told _ observer => rw [observer]; rfl

theorem estimator_eq (h : Turn config period s k next) :
    next.observer.estimator = (Moment.shown? ⟨s, k⟩).elim s.observer.estimator
      fun x => (config.reply s.observer.estimator x).2 := by
  unfold Moment.shown?
  cases h with
  | retunes due _ _ _ observer | goesOn due _ _ _ observer =>
      dsimp only
      rw [if_pos due, observer]
      rfl
  | between due _ observer =>
      dsimp only
      rw [if_neg due, observer]
      rfl
  | told _ observer => rw [observer]; rfl

/-- A tuner stays one for its configuration. -/
theorem isFor (hturn : Turn config period s k next) (h : s.observer.IsFor config) :
    next.observer.IsFor config := by
  cases hturn with
  | retunes _ _ _ _ observer | goesOn _ _ _ _ observer | between _ _ observer | told _ observer =>
      rw [observer]
      exact ⟨h.config_eq, h.bandwidth_eq⟩

end Turn

/-! ### Runs -/

/-- The calls of a run, each with the loop before it. -/
def moments {O : Type} [LoopObserver O α] (s : SpeedLoop α O) : List (Call α α) → List (Moment α O)
  | [] => []
  | k :: ks => ⟨s, k⟩ :: moments (call s k).result.2 ks

theorem isFor_after (hs : Assembled limit ratio period s) (h : s.observer.IsFor config)
    (ks : List (Call α α)) : (after s ks).observer.IsFor config := by
  refine (after_induction (P := fun s => Assembled limit ratio period s ∧ s.observer.IsFor config)
    ?_ ks s ⟨hs, h⟩).2
  rintro s k ⟨hs, h⟩
  exact ⟨hs.call k, (turn_call hs.period_eq h k).isFor h⟩

/-- The gains in force are those that were applied last. -/
theorem tunings_after (ks : List (Call α α)) :
    ∀ s : SpeedLoop α (Tuner α E), Assembled limit ratio period s → s.observer.IsFor config →
      (after s ks).regulator.tunings =
        (latest (Moment.applied? config period) (moments s ks)).getD s.regulator.tunings := by
  induction ks with
  | nil => intro s _ _; rfl
  | cons k ks ih =>
      intro s hs h
      have hturn := turn_call hs.period_eq h k
      rw [after_cons, moments, latest_cons, Option.getD_or, ih _ (hs.call k) (hturn.isFor h),
        hturn.tunings_eq]

/-- The gains that the tuner names are those that it found last. -/
theorem found_after (ks : List (Call α α)) :
    ∀ s : SpeedLoop α (Tuner α E), Assembled limit ratio period s → s.observer.IsFor config →
      (after s ks).observer.tunings =
        (latest (Moment.found? config) (moments s ks)).or s.observer.tunings := by
  induction ks with
  | nil => intro s _ _; rfl
  | cons k ks ih =>
      intro s hs h
      have hturn := turn_call hs.period_eq h k
      rw [after_cons, moments, latest_cons, Option.or_assoc, ih _ (hs.call k) (hturn.isFor h),
        hturn.found_eq]

/-- The estimator takes every tick once, in order. -/
theorem estimator_after (ks : List (Call α α)) :
    ∀ s : SpeedLoop α (Tuner α E), Assembled limit ratio period s → s.observer.IsFor config →
      (after s ks).observer.estimator =
        ((moments s ks).filterMap Moment.shown?).foldl (fun e x => (config.reply e x).2)
          s.observer.estimator := by
  induction ks with
  | nil => intro s _ _; rfl
  | cons k ks ih =>
      intro s hs h
      have hturn := turn_call hs.period_eq h k
      rw [after_cons, moments, List.filterMap_cons, ih _ (hs.call k) (hturn.isFor h),
        hturn.estimator_eq]
      cases Moment.shown? ⟨s, k⟩ <;> rfl

/-- A loop that was built with a tuner and an estimator, after a run. -/
structure SelfTunes (config : Tuner.Config α) (estimator : E) (ratio : OuterRatio) (period : α)
    (s : SpeedLoop α (Tuner α E)) (ks : List (Call α α)) : Prop where
  /-- The next sample brings a tick if it is a multiple of the ratio since the last reset. -/
  due_iff : (after s ks).countdown ≤ 1 ↔ ratio.value.toNat ∣ samplesSinceReset ks + 1
  /-- What the next call makes of the loop, whatever it is. -/
  turn (k : Call α α) : Turn config period (after s ks) k (call (after s ks) k).result.2
  /-- The estimator was shown every tick once, in order, and nothing else. -/
  estimator_eq : (after s ks).observer.estimator =
    ((moments s ks).filterMap Moment.shown?).foldl (fun e x => (config.reply e x).2) estimator
  /-- The gains in force are the last that were given or found, for the period of the loop. -/
  tunings_eq : (after s ks).regulator.tunings =
    (latest (Moment.applied? config period) (moments s ks)).getD .zero
  /-- The gains that the tuner names are the last it found. -/
  found_eq : (after s ks).observer.tunings = latest (Moment.found? config) (moments s ks)

/--
**A loop that tunes itself applies the gains of every estimate that is accepted, from the next tick
on, until others are given or found.**  A tick shows one sample to the estimator, and nothing else
does.  If the reply is not degraded, and its innovation and its uncertainty are below their bounds,
the gains are set for the rotor of the reply; if it is not, they stay as they are.  The current that
a tick stores was regulated with the gains from before it.
-/
theorem applies_accepted_estimates {config : Tuner.Config α} {estimator : E}
    {maxCurrent : Quantity .ampere α} {pwm : Hertz} {ratio : OuterRatio}
    {s : SpeedLoop α (Tuner α E)}
    (hs : check (.ofEstimator config estimator) maxCurrent pwm ratio = .ok s)
    (ks : List (Call α α)) : SelfTunes config estimator ratio (ratio.outerPeriod pwm) s ks := by
  have hassembled := Assembled.of_check hs
  have hcounts := (Counts.of_check hs).after ks
  obtain ⟨-, rfl⟩ := check_eq_ok_iff.1 hs
  have hfor : (initial (Tuner.ofEstimator config estimator) maxCurrent pwm ratio).observer.IsFor
      config := ⟨rfl, rfl⟩
  refine ⟨hcounts.due_iff, fun k => ?_, estimator_after ks _ hassembled hfor,
    tunings_after ks _ hassembled hfor, ?_⟩
  · exact turn_call (hassembled.after ks).period_eq (isFor_after hassembled hfor ks) k
  · rw [found_after ks _ hassembled hfor]
    exact Option.or_none

/-- Gains are given, then an estimate is accepted, and one that is degraded is not. -/
def tunedOnce : List (Call Float32 Float32) :=
  [.instruct (.speedTunings ⟨1, 2, 3⟩), .sample ⟨0, 0, 0⟩ 0, .sample ⟨0, 0, 0⟩ 0.5,
    .sample ⟨0, 0, 0⟩ 1, .sample ⟨0, 0, 0⟩ 1.5]

/-- The gains are then for the rotor of the accepted estimate, and both were asked for. -/
theorem tuned_by_first_estimate :
    ∃ s : SpeedLoop Float32 (Tuner Float32 (Script (RotorEstimate Float32))),
      check (.ofEstimator .standard (.ofList [⟨0.01, 0.002, ⟨0, 0, 0, false⟩⟩,
        ⟨0.5, 0.25, ⟨0, 0, 0, true⟩⟩])) ⟨20⟩ ⟨1000⟩ ⟨2, by decide, by decide⟩ = .ok s ∧
      (after s tunedOnce).observer.tunings =
        some ⟨1000 * Scalar.tau * 0.01, 1000 * Scalar.tau * 0.002, 0⟩ ∧
      (after s tunedOnce).regulator.tunings =
        ⟨1000 * Scalar.tau * 0.01, 1000 * Scalar.tau * 0.002 * (2 / 1000), 0 / (2 / 1000)⟩ ∧
      (after s tunedOnce).observer.estimator.calls = 2 := by
  obtain ⟨s, hs⟩ : ∃ s : SpeedLoop Float32 (Tuner Float32 (Script (RotorEstimate Float32))),
      check (.ofEstimator .standard (.ofList [⟨0.01, 0.002, ⟨0, 0, 0, false⟩⟩,
        ⟨0.5, 0.25, ⟨0, 0, 0, true⟩⟩])) ⟨20⟩ ⟨1000⟩ ⟨2, by decide, by decide⟩ = .ok s := by
    rw [check, if_pos (by decide +kernel)]
    exact ⟨_, rfl⟩
  have htunes := applies_accepted_estimates hs tunedOnce
  refine ⟨s, hs, ?_, ?_, ?_⟩
  · rw [htunes.found_eq, (check_eq_ok_iff.1 hs).2]
    decide +kernel
  · rw [htunes.tunings_eq, (check_eq_ok_iff.1 hs).2]
    decide +kernel
  · rw [htunes.estimator_eq, (check_eq_ok_iff.1 hs).2]
    decide +kernel

end SpeedLoop

end MotorControl
