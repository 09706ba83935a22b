/-
What is left of the controller when something is torn down.

A controller is built armed, and only instructions ever change that: it is as the last
one of them left it.  While the motor is idle, or busy with a session that leaves the
controller alone, the last one was not to arm it.  So the controller is disabled then, or
it was never told anything and is armed as it was built.

Whatever is dismantled disables the controller, but an idle motor has nothing to
dismantle.  The first command therefore hands on the controller as it was built, and it
stays armed until something that is at work is broken off or a mechanical test ends.
-/
import MotorControl.Proofs.Motor.Instructions
import MotorControl.Proofs.Motor.Interlock
import MotorControl.Proofs.SpeedLoop.Settings

namespace MotorControl

open Controller (Call IsSetting)
open Standing

/-! ### Regulators -/

namespace TorqueLoop

variable {α : Type} [Scalar α]

theorem isSetting_enabled :
    IsSetting (fun _ : TorqueLoop α => True) (fun t => t.regulators.map (·.enabled))
      (fun i => i.arms?.map (List.replicate 2)) where
  keeps_call _ _ _ := trivial
  view_obey t i _ := by
    cases i with
    | enable =>
        show [t.d.enable.enabled, t.q.enable.enabled] = _
        rw [Regulator.enabled_enable, Regulator.enabled_enable]
        rfl
    | disable | reset | service | polePairs | setPoint | currentTunings | speedTunings => rfl
  view_calculate t currents angle _ := by
    obtain ⟨x, y, hcalc⟩ := t.calculate_spec currents angle
    show (t.calculate currents angle).2.regulators.map (·.enabled) = _
    rw [hcalc]
    show [(t.d.process x).2.enabled, (t.q.process y).2.enabled] = _
    rw [Regulator.enabled_process, Regulator.enabled_process]
    rfl

end TorqueLoop

namespace SpeedLoop

variable {α O : Type} [Scalar α] [LoopObserver O α]

/-- Regulating the speed arms and disarms nothing, and neither does what the observer answers. -/
theorem enabled_paced (s : SpeedLoop α O) (currents : Phases α) (angle : α) :
    (s.paced currents angle).result.regulator.enabled = s.regulator.enabled := by
  unfold paced
  split
  · obtain ⟨observer, tunings, htick⟩ :=
      tick_spec { s with countdown := s.ratio.value } currents angle
    rw [htick]
    exact Regulator.enabled_process _ _
  · rfl

theorem isSetting_enabled :
    IsSetting (fun _ : SpeedLoop α O => True) (fun s => s.regulators.map (·.enabled))
      (fun i => i.arms?.map (List.replicate 3)) where
  keeps_call _ _ _ := trivial
  view_obey s i _ := by
    cases i with
    | enable =>
        show [s.regulator.enable.enabled, s.torque.d.enable.enabled, s.torque.q.enable.enabled] = _
        rw [Regulator.enabled_enable, Regulator.enabled_enable, Regulator.enabled_enable]
        rfl
    | service =>
        show s.service.regulators.map (·.enabled) = _
        rw [service_eq]
        cases s.target.take.1 <;> rfl
    | disable | reset | polePairs | setPoint | currentTunings | speedTunings => rfl
  view_calculate s currents angle _ := by
    have htorque := TorqueLoop.isSetting_enabled.view_calculate s.torque currents angle trivial
    show (s.calculate currents angle).result.2.regulator.enabled ::
      (s.calculate currents angle).result.2.torque.regulators.map (·.enabled) = _
    rw [torque_calculate]
    refine congrArg₂ List.cons ?_ htorque
    rw [calculate_eq]
    exact s.enabled_paced currents angle

end SpeedLoop

namespace Motor

section

variable {C σ : Type} [Controller C Float32 σ] {board : Board} {m : Motor C}

/-! ### What disables the controller -/

/-- An operation takes the controller away from its user: a command breaks off what the motor is
busy with, or a mechanical test comes to its end. -/
def TakesAway (m : Motor C) (op : Operation σ) (m' : Motor C) : Prop :=
  m.occupant.activity ≠ .idle ∧ op.starts? ≠ none ∨
    m.occupant.activity = .identifyingMechanical ∧ m'.occupant.activity = .idle

theorem disable_mem_step [Controller.Reticent C Float32 σ] (h : m.occupant.Sound board)
    {op : Operation σ} {done : Traced Float32 (Option Verdict × Motor C)}
    (hdone : m.step op = .ok done) :
    .instruct .disable ∈ done.events ↔ TakesAway m op done.result.2 := by
  have hswitch (es : List (Event Float32)) :
      .instruct .disable ∈ es ↔ .instruct .disable ∈ es.filter Event.isSwitch := by
    rw [List.mem_filter]
    exact (and_iff_left rfl).symm
  unfold TakesAway
  cases shift_of_step h hdone with
  | installs next built starts activity _ events switches =>
      have hdismantled := Occupant.switches_dismantle h
      rw [Traced.switches] at hdismantled
      rw [events, List.mem_append, hswitch, hswitch built, switches, hdismantled, starts, activity]
      cases m.occupant.activity <;> cases next <;>
        simp_all [Activity.switchOff, Activity.switchOn, Operation.starts?_ne_idle]
  | ends starts session activity _ switches =>
      rw [hswitch, ← Traced.switches, switches, starts, activity]
      cases m.occupant.activity <;> simp_all [Activity.lastSample, Activity.afterwards]
  | stays starts activity _ switches =>
      rw [hswitch, ← Traced.switches, switches, starts, activity]
      cases m.occupant.activity <;> simp

theorem disable_mem_run [Controller.Reticent C Float32 σ] (ops : List (Operation σ)) :
    ∀ (m : Motor C) (t : Traced Float32 (Motor C)), m.occupant.Sound board → m.run ops = .ok t →
      (.instruct .disable ∈ t.events ↔ ∃ before op after u done, ops = before ++ op :: after ∧
        m.run before = .ok u ∧ u.result.step op = .ok done ∧
        TakesAway u.result op done.result.2) := by
  induction ops with
  | nil =>
      intro m t _ ht
      cases ht
      constructor
      · nofun
      · rintro ⟨before, op, after, u, done, hops, -⟩
        simp at hops
  | cons op ops ih =>
      intro m t h ht
      obtain ⟨done, rest, hdone, hrest, rfl⟩ := run_cons_eq_ok_iff.mp ht
      rw [Traced.precededBy_events, List.mem_append, disable_mem_step h hdone,
        ih _ rest (keeps_step h hdone).sound hrest]
      constructor
      · rintro (htakes | ⟨before, op', after, u, done', rfl, hu, hdone', htakes⟩)
        · exact ⟨[], op, ops, pure m, done, rfl, rfl, hdone, htakes⟩
        · exact ⟨op :: before, op', after, u.precededBy done.events, done', rfl,
            run_cons_eq_ok_iff.mpr ⟨done, u, hdone, hu, rfl⟩, hdone', htakes⟩
      · rintro ⟨before, op', after, u, done', hops, hu, hdone', htakes⟩
        cases before with
        | nil =>
            obtain ⟨rfl, rfl⟩ := List.cons.inj hops
            cases hu
            cases hdone.symm.trans hdone'
            exact Or.inl htakes
        | cons op'' before =>
            obtain ⟨rfl, rfl⟩ := List.cons.inj hops
            obtain ⟨done'', u', hdone'', hu', rfl⟩ := run_cons_eq_ok_iff.mp hu
            cases hdone.symm.trans hdone''
            exact Or.inr ⟨before, op', after, u', done', rfl, hu', hdone', htakes⟩

/-! ### What is left -/

/-- What is left of the controller of a motor after a run.  `regulators` lists those it has. -/
structure LeftArmed (regulators : C → List (Regulator Float32)) (m : Motor C)
    (ops : List (Operation σ)) (t : Traced Float32 (Motor C)) : Prop where
  /-- The controller was disabled exactly if some operation took it away from its user. -/
  disable_mem_iff : .instruct .disable ∈ t.events ↔ ∃ before op after u done,
    ops = before ++ op :: after ∧ m.run before = .ok u ∧ u.result.step op = .ok done ∧
    TakesAway u.result op done.result.2
  /-- Where it is not at work, it is disabled from then on. -/
  disabled_iff : t.result.occupant.activity.isDriven = false →
    ((∀ r ∈ regulators t.result.occupant.controller, r.enabled = false) ↔
      .instruct .disable ∈ t.events)
  /-- Up to then it is armed as it was built. -/
  enabled_iff : t.result.occupant.activity.isDriven = false →
    ((∀ r ∈ regulators t.result.occupant.controller, r.enabled = true) ↔
      ¬ .instruct .disable ∈ t.events)
  /-- The next command is handed a disabled controller, except by an idle motor up to then. -/
  handed_iff : (∀ r ∈ regulators t.result.occupant.dismantle.result.2, r.enabled = false) ↔
    t.result.occupant.activity ≠ .idle ∨ .instruct .disable ∈ t.events

/-- Regulators that are all alike. -/
theorem forall_enabled_iff {rs : List (Regulator Float32)} {n : Nat} {b : Bool}
    (h : rs.map (·.enabled) = List.replicate (n + 1) b) (b' : Bool) :
    (∀ r ∈ rs, r.enabled = b') ↔ b = b' := by
  obtain ⟨hlength, hall⟩ := List.eq_replicate_iff.mp h
  constructor
  · intro hrs
    obtain ⟨r, hr⟩ := List.exists_mem_of_length_pos (l := rs) (by simp at hlength; omega)
    exact (hall _ (List.mem_map_of_mem hr)).symm.trans (hrs r hr)
  · rintro rfl r hr
    exact hall _ (List.mem_map_of_mem hr)

/-- The controller is disabled where the last instruction that bears on it was not to arm it, if
there was any. -/
theorem latest_arms?_eq_some_false_iff {es : List (Event Float32)}
    (h : latest Event.arms? es ≠ some true) :
    latest Event.arms? es = some false ↔ .instruct .disable ∈ es := by
  constructor
  · intro hlatest
    obtain ⟨e, he, harms⟩ := exists_of_latest Event.arms? hlatest
    cases e with
    | instruct call =>
        cases call with
        | disable => exact he
        | _ => cases harms
    | _ => cases harms
  · intro hmem
    cases hlatest : latest Event.arms? es with
    | none => cases (latest_eq_none_iff Event.arms?).mp hlatest _ hmem
    | some b =>
        cases b with
        | false => rfl
        | true => exact absurd hlatest h

theorem leftArmed_of_run [Controller.Reticent C Float32 σ] {regulators : C → List (Regulator Float32)}
    {n : Nat} (hview : IsSetting (fun _ : C => True) (fun c => (regulators c).map (·.enabled))
      (fun i => i.arms?.map (List.replicate (n + 1))))
    {controller : C} (hfresh : (regulators controller).map (·.enabled) = List.replicate (n + 1) true)
    {config : Config} (hm : check board controller config = .ok m) {ops : List (Operation σ)}
    {t : Traced Float32 (Motor C)} (ht : m.run ops = .ok t) :
    LeftArmed regulators m ops t := by
  have hbegun := sound_of_check hm
  -- The regulators are as the last instruction left them, or as they were built.
  have hall : (regulators t.result.occupant.controller).map (·.enabled) =
      List.replicate (n + 1) ((latest Event.arms? t.events).getD true) := by
    have hevents := view_of_events hview (fun i => i.arms?.map (List.replicate (n + 1)))
      (fun i => by cases i <;> rfl) ops m t hbegun trivial ht
    have hlatest : latest (fun e => e.instruction?.bind fun i =>
        i.arms?.map (List.replicate (n + 1))) t.events =
        (latest Event.arms? t.events).map (List.replicate (n + 1)) := by
      rw [← latest_map]
      exact latest_congr fun e _ => Option.map_bind.symm
    rw [hevents, hlatest, (check_spec hm).1]
    show Option.getD _ ((regulators controller).map (·.enabled)) = _
    rw [hfresh]
    cases latest Event.arms? t.events <;> rfl
  have hresting (hdriven : t.result.occupant.activity.isDriven = false) :
      latest Event.arms? t.events ≠ some true := by
    have hstands := (stands_of_run hm ht).2.disarmed hdriven
    rw [armed_afterAll] at hstands
    simpa [untouched] using hstands
  have hdisabled (hdriven : t.result.occupant.activity.isDriven = false) :
      (∀ r ∈ regulators t.result.occupant.controller, r.enabled = false) ↔
        .instruct .disable ∈ t.events := by
    rw [forall_enabled_iff hall, ← latest_arms?_eq_some_false_iff (hresting hdriven)]
    cases latest Event.arms? t.events <;> simp
  refine ⟨disable_mem_run ops m t hbegun ht, hdisabled, fun hdriven => ?_, ?_⟩
  · rw [← hdisabled hdriven, forall_enabled_iff hall, forall_enabled_iff hall]
    simp
  · by_cases hidle : t.result.occupant.activity = .idle
    · rw [t.result.occupant.controller_dismantle, Occupant.parting, if_pos hidle]
      rw [or_iff_right (not_not.mpr hidle)]
      exact hdisabled (by rw [hidle]; rfl)
    · rw [t.result.occupant.controller_dismantle, Occupant.parting, if_neg hidle]
      have hobey := hview.view_obey t.result.occupant.controller .disable trivial
      exact iff_of_true ((forall_enabled_iff hobey false).mpr rfl) (Or.inl hidle)

end

/--
**A controller that was torn down once is disabled wherever it is not at work; before that it is
armed as it was built.**  After every run of a motor that is idle, aligning or busy with an
electrical test, the regulators are disabled exactly if something was taken away from a user of the
controller before: broken off by a command, or ended as a mechanical test.  If nothing was, they are
all enabled.  So what a command is handed is disabled, unless the motor was idle and nothing had
been taken away by then.
-/
theorem disabled_once_taken_away {board : Board} {config : Config} :
    (∀ {m ops t}, check board (.new : TorqueLoop Float32) config = .ok m → m.run ops = .ok t →
      LeftArmed TorqueLoop.regulators m ops t) ∧
    (∀ {O : Type} [LoopObserver O Float32] [LoopObserver.Reticent O Float32] {observer : O}
      {maxCurrent pwm ratio s m ops t},
      SpeedLoop.check observer maxCurrent pwm ratio = .ok s → check board s config = .ok m →
      m.run ops = .ok t → LeftArmed SpeedLoop.regulators m ops t) := by
  constructor
  · intro m ops t hm ht
    exact leftArmed_of_run TorqueLoop.isSetting_enabled rfl hm ht
  · intro O _ _ observer maxCurrent pwm ratio s m ops t hs hm ht
    obtain ⟨-, rfl⟩ := SpeedLoop.check_eq_ok_iff.1 hs
    exact leftArmed_of_run SpeedLoop.isSetting_enabled rfl hm ht

/-- The second alignment of a motor finds its controller disabled. -/
theorem disabled_by_second_alignment : ∃ (m : Motor (TorqueLoop Float32)) (t : _),
    check ⟨⟨1000⟩⟩ .new .standard = .ok m ∧ m.run [.align, .align] = .ok t ∧
      ∀ r ∈ t.result.occupant.controller.regulators, r.enabled = false := by
  obtain ⟨hlaw, -⟩ := @disabled_once_taken_away ⟨⟨1000⟩⟩ .standard
  obtain ⟨m, hm⟩ : ∃ m, check ⟨⟨1000⟩⟩ (.new : TorqueLoop Float32) .standard = .ok m := ⟨_, rfl⟩
  obtain ⟨t, ht⟩ : ∃ t, m.run [.align, .align] = .ok t := ⟨_, rfl⟩
  have hlaw := hlaw hm ht
  refine ⟨m, t, hm, ht, (hlaw.disabled_iff ?_).mpr (hlaw.disable_mem_iff.mpr ?_)⟩
  · cases hm
    cases ht
    rfl
  · cases hm
    exact ⟨[.align], .align, [], _, _, rfl, rfl, rfl, Or.inl ⟨nofun, nofun⟩⟩

/-- The first one finds it armed, although tearing an idle motor down is meant to disable it. -/
theorem armed_in_first_alignment : ∃ (m : Motor (TorqueLoop Float32)) (t : _),
    check ⟨⟨1000⟩⟩ .new .standard = .ok m ∧ m.run [.align] = .ok t ∧
      t.result.occupant.activity = .aligning ∧
      ¬ ∀ r ∈ t.result.occupant.controller.regulators, r.enabled = false := by
  refine ⟨_, _, rfl, rfl, rfl, ?_⟩
  intro hall
  exact Bool.false_ne_true (hall _ List.mem_cons_self).symm

end Motor

end MotorControl
