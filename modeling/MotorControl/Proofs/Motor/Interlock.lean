/-
The interlock in a motor.

The controller is at work while the loop is closed and during a mechanical test.  In
between the motor is idle, or busy with a session that has the bridge on and leaves the
controller alone, so the events of a run have to be told apart by who had the motor when
they came.  `tenures` does that.

What an operation moves is one of three: a command dismantles the occupant and installs
another one, a session comes to its end, or nothing is moved.  `shift_of_step` is that
table.  `Stands`, the tie between the occupant and where the bridge and its controller
stand, is kept by all three, and the interlock is read off it.
-/
import MotorControl.Proofs.Motor.BoardState
import MotorControl.Proofs.Session.ClosedLoop
import MotorControl.Proofs.Session.Interlock

namespace MotorControl

open Standing

/-! ### What an operation moves -/

namespace Activity

/-- Whether the controller is at work. -/
def isDriven : Activity → Bool
  | .identifyingMechanical | .running => true
  | .idle | .aligning | .identifyingElectrical => false

/-- What is moved to begin with something. -/
def switchOn (rate : Hertz) : Activity → List (Event Float32)
  | .idle => []
  | .aligning | .identifyingElectrical => [.subscribe rate, .start]
  | .identifyingMechanical => [.instruct .reset, .instruct .enable, .subscribe rate, .start]
  | .running => [.instruct .reset, .subscribe rate, .instruct .enable, .start]

/-- What is moved to break something off. -/
def switchOff : Activity → List (Event Float32)
  | .idle => []
  | .aligning | .identifyingElectrical => [.instruct .disable, .stop, .unsubscribe]
  | .identifyingMechanical => [.stop, .unsubscribe, .instruct .disable]
  | .running => [.stop, .instruct .disable, .unsubscribe]

/-- What the last sample of a session moves. -/
def lastSample : Activity → List (Event Float32)
  | .idle | .running => []
  | .aligning | .identifyingElectrical => [.stop, .unsubscribe]
  | .identifyingMechanical => [.stop, .unsubscribe, .instruct .disable]

/-- What is moved after the last sample of a session, when the motor becomes idle. -/
def afterwards : Activity → List (Event Float32)
  | .identifyingMechanical => [.instruct .disable]
  | _ => []

end Activity

/-- What a command makes the motor busy with, if it starts something and is accepted. -/
def Operation.starts? {σ : Type} : Operation σ → Option Activity
  | .align => some .aligning
  | .identifyElectrical => some .identifyingElectrical
  | .start params =>
    match Command.twoPositive params .invalidResistance .invalidInductance with
    | .ok _ => some .running
    | .error _ => none
  | .identifyMechanical _ params _ =>
    match Command.twoPositive params .invalidTargetSpeed .invalidTorqueConstant with
    | .ok _ => some .identifyingMechanical
    | .error _ => none
  | .setPoint _ | .service | .sample .. | .setSpeedTunings .. => none

/-- No command is there to make the motor idle. -/
theorem Operation.starts?_ne_idle {σ : Type} (op : Operation σ) : op.starts? ≠ some .idle := by
  unfold starts?
  split
  · nofun
  · nofun
  · split <;> nofun
  · split <;> nofun
  all_goals nofun

namespace Occupant

variable {C σ : Type} {board : Board} {o : Occupant C}

/-- Whether the loop that has the motor is enabled, if one has it. -/
def isEnabled? : Occupant C → Option Bool
  | .running loop => some loop.enabled
  | _ => none

variable [Controller C Float32 σ]

theorem isEnabled?_beat (o : Occupant C) (b : Beat Float32) :
    (o.beat b).result.isEnabled? = o.isEnabled? := by
  cases o with
  | running loop => cases b <;> rfl
  | idle | aligning | identifyingElectrical | identifyingMechanical => rfl

theorem Spent.activity_ne (h : o.Spent board) : o.activity ≠ .running := by
  cases o with
  | running loop => exact h.elim
  | idle | aligning | identifyingElectrical | identifyingMechanical => nofun

theorem switches_dismantle (h : o.Sound board) : o.dismantle.switches = o.activity.switchOff := by
  cases o with
  | idle board' controller => rfl
  | aligning session controller =>
      have hdrive : session.drive = ⟨board, true⟩ := Session.Open.drive_eq h
      simp only [dismantle, Alignment.intoBoard, hdrive]
      rfl
  | identifyingElectrical session controller =>
      have hdrive : session.drive = ⟨board, true⟩ := Session.Open.drive_eq h
      simp only [dismantle, ElectricalTest.intoBoard, hdrive]
      rfl
  | identifyingMechanical session =>
      have hdrive : session.drive = ⟨board, true⟩ := Session.Open.drive_eq h
      simp only [dismantle, MechanicalTest.intoParts, hdrive]
      rfl
  | running loop => exact loop.switches_intoParts

theorem switches_beat [Controller.Reticent C Float32 σ] (h : o.Sound board) (b : Beat Float32) :
    (o.beat b).switches = if (o.beat b).result.isDone then o.activity.lastSample else [] := by
  cases b with
  | service =>
      rw [h.service.1.isDone]
      cases o <;> rfl
  | sample currents position =>
      cases o with
      | idle board' controller => rfl
      | aligning session controller =>
          rw [(hosts_aligning controller).beat_eq, Traced.switches_map]
          exact Alignment.switches_sample h currents position
      | identifyingElectrical session controller =>
          rw [(hosts_identifyingElectrical controller).beat_eq, Traced.switches_map]
          exact ElectricalTest.switches_sample h currents position
      | identifyingMechanical session =>
          rw [hosts_identifyingMechanical.beat_eq, Traced.switches_map]
          exact MechanicalTest.switches_sample h currents position
      | running loop =>
          show (Occupant.running <$> loop.sample currents position).switches = []
          rw [Traced.switches_map, loop.switches_sample]

end Occupant

namespace Motor

section

variable {C σ : Type} [Controller C Float32 σ] {board : Board} {m : Motor C}

theorem switches_finish (h : m.occupant.Spent board) :
    m.finish.switches = m.occupant.activity.afterwards := by
  unfold finish
  cases ho : m.occupant with
  | aligning session controller =>
      rw [ho] at h
      have hdrive : session.drive = ⟨board, false⟩ := Session.Over.drive_eq h
      simp only [Alignment.intoBoard, hdrive, Drive.intoBoard_of_released, pure_bind]
      split <;> rfl
  | identifyingElectrical session controller =>
      rw [ho] at h
      have hdrive : session.drive = ⟨board, false⟩ := Session.Over.drive_eq h
      simp only [ElectricalTest.intoBoard, hdrive, Drive.intoBoard_of_released, pure_bind]
      split <;> rfl
  | identifyingMechanical session =>
      rw [ho] at h
      have hdrive : session.drive = ⟨board, false⟩ := Session.Over.drive_eq h
      simp only [MechanicalTest.intoParts, hdrive, Drive.intoBoard_of_released, pure_bind]
      split <;> rfl
  | idle board' controller => rw [ho] at h; exact h.elim
  | running loop => rw [ho] at h; exact h.elim

/-- What an operation moves. -/
inductive Shift (board : Board) (m : Motor C) (op : Operation σ)
    (done : Traced Float32 (Option Verdict × Motor C)) : Prop
  /-- A command dismantles the occupant and installs another one. -/
  | installs (next : Activity) (built : List (Event Float32)) (starts : op.starts? = some next)
      (activity : done.result.2.occupant.activity = next)
      (enabled : done.result.2.occupant.isEnabled? ≠ some false)
      (events : done.events = m.occupant.dismantle.events ++ built)
      (switches : built.filter Event.isSwitch = next.switchOn board.baseFrequency)
  /-- The last sample of a session leaves the motor idle. -/
  | ends (starts : op.starts? = none) (session : m.occupant.activity ≠ .running)
      (activity : done.result.2.occupant.activity = .idle)
      (enabled : done.result.2.occupant.isEnabled? = none)
      (switches : done.switches =
        m.occupant.activity.lastSample ++ m.occupant.activity.afterwards)
  | stays (starts : op.starts? = none)
      (activity : done.result.2.occupant.activity = m.occupant.activity)
      (enabled : done.result.2.occupant.isEnabled? = m.occupant.isEnabled?)
      (switches : done.switches = [])

theorem shift_beat [Controller.Reticent C Float32 σ] (h : m.occupant.Sound board) {op : Operation σ}
    (hop : op.starts? = none) (b : Beat Float32) :
    Shift board m op ((fun m' => ((none : Option Verdict), m')) <$> m.beat b) := by
  have hswitches := Occupant.switches_beat h b
  have hactivity := m.occupant.activity_beat b
  have henabled := m.occupant.isEnabled?_beat b
  rw [beat_eq h]
  cases h.beat b with
  | goesOn sound _ =>
      rw [sound.isDone] at hswitches
      refine .stays hop ?_ ?_ ?_
      · rw [Traced.map_result, Traced.bind_result, sound.isDone]
        exact hactivity
      · rw [Traced.map_result, Traced.bind_result, sound.isDone]
        exact henabled
      · rw [Traced.switches_map, Traced.switches_bind, hswitches, sound.isDone]
        rfl
  | ends spent _ =>
      obtain ⟨-, -, controller, hidle⟩ :=
        finish_of_spent (m := { m with occupant := (m.occupant.beat b).result }) spent
      have hfinish := switches_finish (m := { m with occupant := (m.occupant.beat b).result }) spent
      rw [spent.isDone] at hswitches
      dsimp only at hfinish
      rw [hactivity] at hfinish
      have hsession : m.occupant.activity ≠ .running := hactivity ▸ spent.activity_ne
      refine .ends hop hsession ?_ ?_ ?_
      · rw [Traced.map_result, Traced.bind_result, spent.isDone]
        exact congrArg Occupant.activity hidle
      · rw [Traced.map_result, Traced.bind_result, spent.isDone]
        exact congrArg Occupant.isEnabled? hidle
      · rw [Traced.switches_map, Traced.switches_bind, hswitches, spent.isDone]
        exact congrArg _ hfinish

theorem shift_of_same {op : Operation σ} (hop : op.starts? = none) {t : Traced Float32 (Verdict × Motor C)}
    (hactivity : t.result.2.occupant.activity = m.occupant.activity)
    (henabled : t.result.2.occupant.isEnabled? = m.occupant.isEnabled?)
    (hswitches : t.switches = []) :
    Shift board m op ((fun r => (some r.1, r.2)) <$> t) :=
  .stays hop hactivity henabled ((Traced.switches_map _ t).trans hswitches)

theorem shift_align (h : m.occupant.Sound board) :
    Shift board m (.align : Operation σ) ((fun m' => ((none : Option Verdict), m')) <$> m.align) := by
  refine .installs .aligning _ rfl rfl nofun ((Traced.map_events ..).trans rfl) ?_
  rw [← h.dismantle.1]
  rfl

theorem shift_identifyElectrical (h : m.occupant.Sound board) {t : Traced Float32 (Motor C)}
    (ht : m.identifyElectrical = .ok t) :
    Shift board m (.identifyElectrical : Operation σ)
      ((fun m' => ((none : Option Verdict), m')) <$> t) := by
  obtain ⟨begun, hbegin, ht⟩ := Fault.bind_eq_ok_iff.mp ht
  rw [h.dismantle.1] at hbegin
  obtain ⟨model, -, hbegun⟩ := Fault.bind_eq_ok_iff.mp hbegin
  cases hbegun
  cases ht
  exact .installs .identifyingElectrical _ rfl rfl nofun ((Traced.map_events ..).trans rfl) rfl

theorem shift_start (h : m.occupant.Sound board) (params : String) :
    Shift board m (.start params : Operation σ) ((fun r => (some r.1, r.2)) <$> m.start params) := by
  cases hparams : Command.twoPositive params .invalidResistance .invalidInductance with
  | error e =>
      have hop : (.start params : Operation σ).starts? = none := by
        rw [Operation.starts?, hparams]
      rw [start, hparams]
      exact shift_of_same hop rfl rfl rfl
  | ok found =>
      have hop : (.start params : Operation σ).starts? = some .running := by
        rw [Operation.starts?, hparams]
      rw [start, hparams]
      refine .installs .running _ hop rfl (by rintro ⟨⟩) ((Traced.map_events ..).trans rfl) ?_
      rw [← h.dismantle.1]
      rfl

theorem shift_setPoint (m : Motor C) (target : σ) :
    Shift board m (.setPoint target) ((fun r => (some r.1, r.2)) <$> m.setPoint target) := by
  unfold setPoint
  cases ho : m.occupant with
  | running loop => exact shift_of_same rfl (by rw [ho]; rfl) (by rw [ho]; rfl) rfl
  | idle | aligning | identifyingElectrical | identifyingMechanical =>
      exact shift_of_same rfl rfl rfl rfl

end

section

variable {C : Type} [Controller C Float32 Float32] {board : Board} {m : Motor C}

theorem shift_setSpeedTunings (m : Motor C) (tunings : Tunings Float32) :
    Shift board m (.setSpeedTunings rfl tunings)
      ((fun r => (some r.1, r.2)) <$> m.setSpeedTunings tunings) := by
  unfold setSpeedTunings
  cases ho : m.occupant with
  | idle | running => exact shift_of_same rfl (by rw [ho]; rfl) (by rw [ho]; rfl) rfl
  | aligning | identifyingElectrical | identifyingMechanical => exact shift_of_same rfl rfl rfl rfl

theorem shift_identifyMechanical (h : m.occupant.Sound board) {params : String} {position : Float32}
    {t : Traced Float32 (Verdict × Motor C)} (ht : m.identifyMechanical params position = .ok t) :
    Shift board m (.identifyMechanical rfl params position)
      ((fun r => (some r.1, r.2)) <$> t) := by
  cases hparams : Command.twoPositive params .invalidTargetSpeed .invalidTorqueConstant with
  | error e =>
      have hop : (.identifyMechanical rfl params position : Operation Float32).starts? = none := by
        rw [Operation.starts?, hparams]
      rw [identifyMechanical, hparams] at ht
      cases ht
      exact shift_of_same hop rfl rfl rfl
  | ok found =>
      have hop : (.identifyMechanical rfl params position : Operation Float32).starts? =
          some .identifyingMechanical := by
        rw [Operation.starts?, hparams]
      unfold identifyMechanical at ht
      rw [hparams] at ht
      obtain ⟨begun, hbegin, ht⟩ := Fault.bind_eq_ok_iff.mp ht
      obtain ⟨fit, -, hbegun⟩ := Fault.bind_eq_ok_iff.mp hbegin
      cases hbegun
      cases ht
      refine .installs .identifyingMechanical _ hop rfl (by rintro ⟨⟩)
        ((Traced.map_events ..).trans (List.append_assoc ..)) ?_
      rw [← h.dismantle.1]
      unfold readyForTest
      cases m.electrical <;> rfl

end

section

variable {C σ : Type} [Controller C Float32 σ] {board : Board} {m : Motor C}

/-- **An operation installs another occupant, ends a session, or moves nothing.** -/
theorem shift_of_step [Controller.Reticent C Float32 σ] (h : m.occupant.Sound board)
    {op : Operation σ} {done : Traced Float32 (Option Verdict × Motor C)}
    (hdone : m.step op = .ok done) : Shift board m op done := by
  cases op with
  | align => cases hdone; exact shift_align h
  | identifyElectrical =>
      obtain ⟨t, ht, hdone⟩ := Fault.bind_eq_ok_iff.mp hdone
      cases hdone
      exact shift_identifyElectrical h ht
  | start params => cases hdone; exact shift_start h params
  | setPoint target => cases hdone; exact m.shift_setPoint target
  | service => cases hdone; exact shift_beat h rfl .service
  | sample currents position => cases hdone; exact shift_beat h rfl (.sample currents position)
  | setSpeedTunings isSpeed tunings =>
      cases isSpeed
      cases hdone
      exact m.shift_setSpeedTunings tunings
  | identifyMechanical isSpeed params position =>
      cases isSpeed
      obtain ⟨t, ht, hdone⟩ := Fault.bind_eq_ok_iff.mp hdone
      cases hdone
      exact shift_identifyMechanical h ht

end

end Motor

/-! ### What is moved, and where it leads -/

namespace Activity

variable {a : Activity} {s : Standing}

/-- Breaking off what the controller is at work for keeps the interlock, and leaves it at rest. -/
theorem guarded_switchOff (h : a.isDriven = true) :
    driving.Guarded a.switchOff ∧ driving.afterAll a.switchOff = resting := by
  cases a with
  | identifyingMechanical =>
      refine ⟨?_, rfl⟩
      simp [switchOff, guarded_cons_iff, guarded_nil_iff, Safe, Admits, driving]
  | running =>
      refine ⟨?_, rfl⟩
      simp [switchOff, guarded_cons_iff, guarded_nil_iff, Safe, Admits, driving]
  | idle | aligning | identifyingElectrical => cases h

/-- Nothing drives the motor once what it was busy with was broken off. -/
theorem afterAll_switchOff (hoff : a = .idle → s.started ≠ some true)
    (hdisarmed : a.isDriven = false → s.armed ≠ some true) :
    (s.afterAll a.switchOff).started ≠ some true ∧ (s.afterAll a.switchOff).armed ≠ some true := by
  cases a with
  | idle => exact ⟨hoff rfl, hdisarmed rfl⟩
  | aligning | identifyingElectrical | identifyingMechanical | running =>
      simp [switchOff]

/-- Putting the controller to work keeps the interlock, and leaves it at work. -/
theorem guarded_switchOn (h : a.isDriven = true) (hoff : s.started ≠ some true) (rate : Hertz) :
    s.Guarded (a.switchOn rate) ∧ s.afterAll (a.switchOn rate) = driving := by
  cases a with
  | identifyingMechanical =>
      refine ⟨?_, rfl⟩
      simp [switchOn, guarded_cons_iff, guarded_nil_iff, Safe, Admits, hoff]
  | running =>
      refine ⟨?_, rfl⟩
      simp [switchOn, guarded_cons_iff, guarded_nil_iff, Safe, Admits, hoff]
  | idle | aligning | identifyingElectrical => cases h

/-- Anything else leaves the controller as it is. -/
theorem afterAll_switchOn (h : a.isDriven = false) (rate : Hertz) :
    (s.afterAll (a.switchOn rate)).armed = s.armed ∧
      (a = .idle → (s.afterAll (a.switchOn rate)).started = s.started) := by
  cases a with
  | idle => exact ⟨rfl, fun _ => rfl⟩
  | aligning | identifyingElectrical => exact ⟨rfl, nofun⟩
  | identifyingMechanical | running => cases h

/-- The last sample of a mechanical test keeps the interlock, and leaves it at rest. -/
theorem guarded_lastSample (h : a.isDriven = true) (hsession : a ≠ .running) :
    driving.Guarded (a.lastSample ++ a.afterwards) ∧
      driving.afterAll (a.lastSample ++ a.afterwards) = resting := by
  cases a with
  | identifyingMechanical =>
      refine ⟨?_, rfl⟩
      simp [lastSample, afterwards, guarded_cons_iff, guarded_nil_iff, Safe, Admits, driving]
  | running => exact absurd rfl hsession
  | idle | aligning | identifyingElectrical => cases h

theorem afterAll_lastSample (h : a.isDriven = false) (hoff : a = .idle → s.started ≠ some true) :
    (s.afterAll (a.lastSample ++ a.afterwards)).armed = s.armed ∧
      (s.afterAll (a.lastSample ++ a.afterwards)).started ≠ some true := by
  cases a with
  | idle => exact ⟨rfl, hoff rfl⟩
  | aligning | identifyingElectrical => exact ⟨rfl, nofun⟩
  | identifyingMechanical | running => cases h

end Activity

/-! ### One operation -/

/-- A stretch of a run in which the motor is busy with one thing. -/
structure Tenure where
  activity : Activity
  events : List (Event Float32)

namespace Tenure

/-- The interlock holds wherever the controller is at work. -/
def Guarded (s : Standing) : List Tenure → Prop
  | [] => True
  | x :: xs =>
    (x.activity.isDriven = true → s.Guarded x.events) ∧ Guarded (s.afterAll x.events) xs

theorem guarded_append (xs ys : List Tenure) : ∀ s : Standing,
    Guarded s (xs ++ ys) ↔ Guarded s xs ∧ Guarded (s.afterAll (xs.flatMap Tenure.events)) ys := by
  induction xs with
  | nil => intro s; simp [Guarded]
  | cons x xs ih =>
      intro s
      rw [List.cons_append, Guarded, Guarded, ih, List.flatMap_cons, afterAll_append, and_assoc]

end Tenure

namespace Motor

variable {C σ : Type} [Controller C Float32 σ] {board : Board} {m : Motor C} {s : Standing}

/-- The stretches of one operation.  A command that starts something comes to the motor as it was,
and the motor is busy with something else from the moment on at which its occupant is dismantled. -/
def tenuresOf (m : Motor C) (op : Operation σ) (events : List (Event Float32)) : List Tenure :=
  match op.starts? with
  | none => [⟨m.occupant.activity, events⟩]
  | some next =>
    let n := m.occupant.dismantle.events.length
    [⟨m.occupant.activity, events.take n⟩, ⟨next, events.drop n⟩]

theorem flatMap_tenuresOf (m : Motor C) (op : Operation σ) (events : List (Event Float32)) :
    (m.tenuresOf op events).flatMap Tenure.events = events := by
  unfold tenuresOf
  cases op.starts? with
  | none => simp
  | some next => simp

/-- Where the bridge and the controller of a motor stand. -/
structure Stands (m : Motor C) (s : Standing) : Prop where
  driven : m.occupant.activity.isDriven = true → s = driving
  disarmed : m.occupant.activity.isDriven = false → s.armed ≠ some true
  off : m.occupant.activity = .idle → s.started ≠ some true
  enabled : m.occupant.isEnabled? ≠ some false

/-- Every operation keeps the interlock wherever the controller is at work, and leaves the bridge
and the controller as the occupant after it needs them. -/
theorem Stands.step [Controller.Reticent C Float32 σ] (h : m.Stands s)
    (hsound : m.occupant.Sound board) {op : Operation σ}
    {done : Traced Float32 (Option Verdict × Motor C)} (hdone : m.step op = .ok done) :
    Tenure.Guarded s (m.tenuresOf op done.events) ∧
      done.result.2.Stands (s.afterAll done.events) := by
  cases shift_of_step hsound hdone with
  | installs next built starts activity enabled events switches =>
      have hbroken : s.afterAll m.occupant.dismantle.events =
          s.afterAll m.occupant.activity.switchOff := by
        rw [← afterAll_switches, Occupant.switches_dismantle hsound]
      have hbuilt (s' : Standing) :
          s'.afterAll built = s'.afterAll (next.switchOn board.baseFrequency) := by
        rw [← afterAll_filter, switches]
      obtain ⟨hoff, hdisarmed⟩ := Activity.afterAll_switchOff h.off h.disarmed
      rw [← hbroken] at hoff hdisarmed
      constructor
      · rw [tenuresOf, starts, events]
        dsimp only
        rw [List.take_left, List.drop_left]
        refine ⟨fun hdriven => ?_, fun hdriven => ?_, trivial⟩
        · rw [h.driven hdriven]
          refine guarded_of_switches ?_
          rw [Occupant.switches_dismantle hsound]
          exact (Activity.guarded_switchOff hdriven).1
        · refine guarded_of_filter _ _ ?_
          rw [switches]
          exact (Activity.guarded_switchOn hdriven hoff _).1
      · rw [events, afterAll_append, hbuilt]
        refine ⟨fun hdriven => ?_, fun hdriven => ?_, fun hidle => ?_, enabled⟩
        · exact (Activity.guarded_switchOn (activity ▸ hdriven) hoff _).2
        · rw [(Activity.afterAll_switchOn (activity ▸ hdriven) _).1]
          exact hdisarmed
        · rw [activity] at hidle
          rw [(Activity.afterAll_switchOn (hidle ▸ rfl) _).2 hidle]
          exact hoff
  | ends starts session activity enabled switches =>
      have hended : s.afterAll done.events =
          s.afterAll (m.occupant.activity.lastSample ++ m.occupant.activity.afterwards) := by
        rw [← afterAll_switches, switches]
      rw [tenuresOf, starts, hended]
      refine ⟨⟨fun hdriven => ?_, trivial⟩, ?_⟩
      · rw [h.driven hdriven]
        refine guarded_of_switches ?_
        rw [switches]
        exact (Activity.guarded_lastSample hdriven session).1
      · cases hdriven : m.occupant.activity.isDriven with
        | true =>
            rw [h.driven hdriven, (Activity.guarded_lastSample hdriven session).2]
            exact ⟨by rw [activity]; exact nofun, fun _ => nofun, fun _ => nofun,
              by rw [enabled]; exact nofun⟩
        | false =>
            obtain ⟨harmed, hoff⟩ := Activity.afterAll_lastSample hdriven h.off
            exact ⟨by rw [activity]; exact nofun, fun _ => harmed ▸ h.disarmed hdriven,
              fun _ => hoff, by rw [enabled]; exact nofun⟩
  | stays starts activity enabled switches =>
      have hsame : s.afterAll done.events = s := by
        rw [← afterAll_switches, switches, afterAll_nil]
      rw [tenuresOf, starts, hsame]
      refine ⟨⟨fun hdriven => ?_, trivial⟩, activity ▸ h.driven, activity ▸ h.disarmed,
        activity ▸ h.off, enabled ▸ h.enabled⟩
      rw [h.driven hdriven]
      refine guarded_of_switches ?_
      rw [switches, guarded_nil_iff]
      exact fun _ => rfl

/-! ### Runs -/

/-- The stretches of a run, up to the first operation that fails. -/
def tenures (m : Motor C) : List (Operation σ) → List Tenure
  | [] => []
  | op :: ops =>
    match m.step op with
    | .ok done => m.tenuresOf op done.events ++ done.result.2.tenures ops
    | .error _ => []

theorem tenures_cons {op : Operation σ} {done : Traced Float32 (Option Verdict × Motor C)}
    (hdone : m.step op = .ok done) (ops : List (Operation σ)) :
    m.tenures (op :: ops) = m.tenuresOf op done.events ++ done.result.2.tenures ops := by
  rw [tenures, hdone]

/-- The stretches of a run are its events, told apart. -/
theorem flatMap_tenures (ops : List (Operation σ)) :
    ∀ (m : Motor C) (t : Traced Float32 (Motor C)), m.run ops = .ok t →
      (m.tenures ops).flatMap Tenure.events = t.events := by
  induction ops with
  | nil => intro m t ht; cases ht; rfl
  | cons op ops ih =>
      intro m t ht
      obtain ⟨done, rest, hdone, hrest, rfl⟩ := run_cons_eq_ok_iff.mp ht
      rw [tenures_cons hdone, List.flatMap_append, flatMap_tenuresOf, ih _ _ hrest]
      rfl

theorem Stands.run [Controller.Reticent C Float32 σ] (ops : List (Operation σ)) :
    ∀ (m : Motor C) (s : Standing) (t : Traced Float32 (Motor C)), m.Stands s →
      m.occupant.Sound board → m.run ops = .ok t →
      Tenure.Guarded s (m.tenures ops) ∧ t.result.Stands (s.afterAll t.events) := by
  induction ops with
  | nil => intro m s t h _ ht; cases ht; exact ⟨trivial, h⟩
  | cons op ops ih =>
      intro m s t h hsound ht
      obtain ⟨done, rest, hdone, hrest, rfl⟩ := run_cons_eq_ok_iff.mp ht
      obtain ⟨hguarded, hstands⟩ := h.step hsound hdone
      obtain ⟨hguarded', hstands'⟩ := ih _ _ rest hstands (keeps_step hsound hdone).sound hrest
      rw [tenures_cons hdone, Tenure.guarded_append, flatMap_tenuresOf]
      refine ⟨⟨hguarded, hguarded'⟩, ?_⟩
      rw [Traced.precededBy_events, afterAll_append]
      exact hstands'

omit [Controller C Float32 σ] in
/-- A motor begins with a board and a controller that nobody has touched. -/
theorem stands_of_check {controller : C} {config : Config}
    (hm : check board controller config = .ok m) : m.Stands untouched := by
  obtain ⟨hidle, -⟩ := check_spec hm
  refine ⟨?_, fun _ => nofun, fun _ => nofun, ?_⟩
  · rw [hidle]
    exact nofun
  · rw [hidle]
    exact nofun

theorem stands_of_run [Controller.Reticent C Float32 σ] {controller : C} {config : Config}
    (hm : check board controller config = .ok m) {ops : List (Operation σ)}
    {t : Traced Float32 (Motor C)} (ht : m.run ops = .ok t) :
    Tenure.Guarded untouched (m.tenures ops) ∧ t.result.Stands (untouched.afterAll t.events) :=
  Stands.run ops m untouched t (stands_of_check hm) (sound_of_check hm) ht

/-- What holds of a motor after a run from rest. -/
structure Interlocked (m : Motor C) (ops : List (Operation σ)) (t : Traced Float32 (Motor C)) :
    Prop where
  /-- The stretches of the run are its events, told apart. -/
  flatMap_tenures : (m.tenures ops).flatMap Tenure.events = t.events
  /-- The interlock holds wherever the controller is at work. -/
  guarded : ∀ before x after, m.tenures ops = before ++ x :: after → x.activity.isDriven = true →
    (untouched.afterAll (before.flatMap Tenure.events)).Guarded x.events
  /-- A loop that has the motor is enabled, and the bridge is on. -/
  enabled : ∀ loop, t.result.occupant = .running loop →
    loop.enabled = true ∧ (untouched.afterAll t.events).started = some true
  /-- A command that starts something first dismantles what the controller is at work for, which
  leaves bridge, sampling and controller at rest. -/
  replaced : ∀ op done, t.result.step op = .ok done → op.starts? ≠ none →
    t.result.occupant.activity.isDriven = true → ∃ built,
      done.events = t.result.occupant.dismantle.events ++ built ∧
      untouched.afterAll (t.events ++ t.result.occupant.dismantle.events) = resting
  /-- So does the sample that ends a mechanical test. -/
  completed : ∀ op done, t.result.step op = .ok done →
    t.result.occupant.activity = .identifyingMechanical →
    done.result.2.occupant.activity = .idle → untouched.afterAll (t.events ++ done.events) = resting
  /-- So does the end of the motor, and the interlock holds up to it. -/
  shutDown : t.result.occupant.activity.isDriven = true →
    (untouched.afterAll t.events).Guarded t.result.shutDown.events ∧
      untouched.afterAll (t.events ++ t.result.shutDown.events) = resting

theorem interlocked_of_run [Controller.Reticent C Float32 σ] {controller : C} {config : Config}
    (hm : check board controller config = .ok m) {ops : List (Operation σ)}
    {t : Traced Float32 (Motor C)} (ht : m.run ops = .ok t) : Interlocked m ops t := by
  obtain ⟨-, hsound, -⟩ := reached_spec hm ht
  obtain ⟨hguarded, hstands⟩ := stands_of_run hm ht
  have hdismantled (hdriven : t.result.occupant.activity.isDriven = true) :
      driving.Guarded t.result.occupant.dismantle.events ∧
        driving.afterAll t.result.occupant.dismantle.events = resting := by
    obtain ⟨hsafe, hrest⟩ := Activity.guarded_switchOff hdriven
    rw [← Occupant.switches_dismantle hsound] at hsafe hrest
    exact ⟨guarded_of_switches hsafe, by rw [← afterAll_switches]; exact hrest⟩
  refine ⟨flatMap_tenures ops m t ht, ?_, ?_, ?_, ?_, ?_⟩
  · intro before x after hsplit hdriven
    rw [hsplit, Tenure.guarded_append] at hguarded
    exact hguarded.2.1 hdriven
  · intro loop hloop
    have henabled := hstands.enabled
    rw [hloop] at henabled
    refine ⟨by simpa [Occupant.isEnabled?] using henabled, ?_⟩
    rw [hstands.driven (by rw [hloop]; rfl)]
    rfl
  · intro op done hdone hstarts hdriven
    cases shift_of_step hsound hdone with
    | installs next built _ _ _ events _ =>
        refine ⟨built, events, ?_⟩
        rw [afterAll_append, hstands.driven hdriven]
        exact (hdismantled hdriven).2
    | ends starts => exact absurd starts hstarts
    | stays starts => exact absurd starts hstarts
  · intro op done hdone hmechanical hidle
    have hdriven : t.result.occupant.activity.isDriven = true := by rw [hmechanical]; rfl
    rw [afterAll_append, hstands.driven hdriven, ← afterAll_filter done.events]
    cases shift_of_step hsound hdone with
    | installs next built starts activity _ _ _ =>
        rw [← activity, hidle] at starts
        exact absurd starts op.starts?_ne_idle
    | ends _ session _ _ switches =>
        rw [Traced.switches] at switches
        rw [switches]
        exact (Activity.guarded_lastSample hdriven session).2
    | stays _ activity => cases activity.symm.trans hidle ▸ hmechanical
  · intro hdriven
    obtain ⟨hsafe, hrest⟩ := hdismantled hdriven
    have hend : t.result.shutDown.events
        = t.result.occupant.dismantle.events ++ [.stop, .unsubscribe] := rfl
    rw [hend, afterAll_append, afterAll_append, hstands.driven hdriven, hrest]
    refine ⟨hsafe.append ?_, rfl⟩
    rw [hrest]
    simp [guarded_cons_iff, guarded_nil_iff, Safe, Admits, resting]

/--
**The bridge is never on with a disarmed controller.**  That holds after every event of every run of
a motor that comes while the loop is closed or the rotor is tested, and of every closed loop and
every mechanical test that is used by itself.  The bridge is started after the controller was
enabled and stopped before it is disabled, a loop is enabled exactly while the bridge is on, and the
end of a loop or of a test, whatever brings it about, leaves bridge, sampling and controller at rest.
-/
theorem driven_only_while_armed :
    (∀ {C σ : Type} [Controller C Float32 σ] [Controller.Reticent C Float32 σ] {board : Board}
      {controller : C} {config : Config} {m : Motor C} {ops : List (Operation σ)} {t},
      check board controller config = .ok m → m.run ops = .ok t → Interlocked m ops t) ∧
    (∀ {C α σ : Type} [Controller C α σ] [Controller.Reticent C α σ] (board : Board)
      (controller : C) (us : List (ClosedLoop.Use α)),
      ClosedLoop.Interlocked (ClosedLoop.used board controller us)
        (ClosedLoop.lifetime board controller us)) ∧
    (∀ {C α : Type} [Scalar α] [Controller C α α] [Controller.Reticent C α α] {board : Board}
      {controller : C} {task : MechanicalTest.Task α} {config : MechanicalTest.Config α}
      {position : α} {begun} (bs : List (Beat α)),
      MechanicalTest.begin board controller task config position = .ok begun →
      MechanicalTest.Interlocked (begun >>= (Session.beats · bs))) := by
  refine ⟨?_, ?_, ?_⟩
  · intro C σ _ _ board controller config m ops t hm ht
    exact interlocked_of_run hm ht
  · intro C α σ _ _ board controller us
    exact ClosedLoop.interlocked board controller us
  · intro C α _ _ _ board controller task config position begun bs h
    exact MechanicalTest.interlocked h bs

/-- A motor that runs, and one that tests its rotor. -/
theorem armed_while_running_and_testing :
    (∃ (m : Motor (TorqueLoop Float32)) (t : _),
      check ⟨⟨1000⟩⟩ .new .standard = .ok m ∧ m.run [.start "0.5 1"] = .ok t ∧
      t.result.occupant.activity = .running ∧
      untouched.afterAll (t.events ++ t.result.shutDown.events) = resting) ∧
    ∃ (s : SpeedLoop Float32 Unit) (begun : Traced Float32 (MechanicalTest Float32 _)),
      SpeedLoop.check () ⟨2⟩ ⟨1000⟩ ⟨1, by decide, by decide⟩ = .ok s ∧
      MechanicalTest.begin ⟨⟨1000⟩⟩ s ⟨.ofRpm 60, ⟨0.05⟩, 1⟩ .standard 0 = .ok begun ∧
      untouched.afterAll (begun >>= MechanicalTest.intoParts).events = resting := by
  obtain ⟨hmotor, -, htest⟩ := driven_only_while_armed
  constructor
  · have hparams : Command.twoPositive "0.5 1" .invalidResistance .invalidInductance
        = .ok (0.5, 1) := by
      decide +kernel
    obtain ⟨m, hm⟩ : ∃ m, check ⟨⟨1000⟩⟩ (.new : TorqueLoop Float32) .standard = .ok m := ⟨_, rfl⟩
    obtain ⟨t, ht⟩ : ∃ t, m.run [.start "0.5 1"] = .ok t := ⟨_, rfl⟩
    have hsound := sound_of_check hm
    have hrunning : t.result.occupant.activity = .running := by
      obtain ⟨controller, hresult, -⟩ := start_spec hsound hparams
      cases ht
      exact congrArg (fun r => r.occupant.activity) hresult
    exact ⟨m, t, hm, ht, hrunning, ((hmotor hm ht).shutDown (by rw [hrunning]; rfl)).2⟩
  · obtain ⟨s, hs⟩ : ∃ s : SpeedLoop Float32 Unit,
        SpeedLoop.check () ⟨2⟩ ⟨1000⟩ ⟨1, by decide, by decide⟩ = .ok s := by
      rw [SpeedLoop.check, if_pos (by decide +kernel)]
      exact ⟨_, rfl⟩
    obtain ⟨begun, hbegun⟩ := MechanicalTest.begin_standard ⟨⟨1000⟩⟩ s ⟨.ofRpm 60, ⟨0.05⟩, 1⟩ 0
    refine ⟨s, begun, hs, hbegun, ?_⟩
    have htaken := (htest [] hbegun).takenApart
    rwa [show (begun >>= (Session.beats · [])) = begun from bind_pure _] at htaken

end Motor

end MotorControl
