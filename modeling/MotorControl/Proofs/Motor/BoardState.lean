/-
How the operations on a motor leave the switches of its board.

`Keeps` is what one operation does: the occupant stays sound, and the calls come in
order and lead from where the switches stood to where they stand for the occupant
after it.  Every operation keeps it, so every run does.  A motor that goes out of use
dismantles its occupant, which puts the board to rest, and then stops the board once
more.
-/
import MotorControl.Proofs.Motor.Occupant
import MotorControl.Proofs.Motor.Run
import MotorControl.TorqueLoop

namespace MotorControl

open BoardState

namespace Motor

section

variable {C σ : Type} [Controller C Float32 σ] {board : Board} {m : Motor C}

@[simp] theorem calls_enter (m : Motor C) (next : Occupant C) : (m.enter next).calls = [] := rfl

@[simp] theorem occupant_enter (m : Motor C) (next : Occupant C) :
    (m.enter next).result.occupant = next := rfl

@[simp] theorem calls_tuneCurrentLoop (m : Motor C) (board : Board) (controller : C)
    (resistance : Quantity .ohm Float32) (inductance : Quantity .millihenry Float32) :
    (m.tuneCurrentLoop board controller resistance inductance).calls = [] := rfl

/-! ### What an operation does -/

/-- One beat of a motor. -/
def beat (m : Motor C) : Beat Float32 → Traced Float32 (Motor C)
  | .sample currents position => m.sample currents position
  | .service => m.service

/-- A beat is a beat of the occupant, and the end of its session if that is done then. -/
theorem beat_eq (h : m.occupant.Sound board) (b : Beat Float32) :
    m.beat b = m.occupant.beat b >>= fun o => m.resume o o.isDone := by
  have hservice := h.service.1.isDone
  obtain ⟨occupant, config, ratio, polePairs, offset, electrical, mechanical⟩ := m
  cases b with
  | sample currents position =>
      show Motor.sample _ currents position = _
      cases occupant with
      | idle board controller => rfl
      | aligning | identifyingElectrical | identifyingMechanical | running =>
          simp only [sample, Occupant.beat, Occupant.isDone, bind_assoc, pure_bind]
          rfl
  | service =>
      -- The handler ends no session, so nothing comes after it.
      rw [Traced.bind_congr_result (g := fun o => Motor.resume _ o false) (by rw [hservice])]
      cases occupant <;> rfl

/-- The end of a session leaves the motor idle, and asks nothing more of the board. -/
theorem finish_of_spent (h : m.occupant.Spent board) :
    m.finish.calls = [] ∧ m.finish.result.config = m.config ∧
      ∃ controller, m.finish.result.occupant = .idle board controller := by
  unfold finish
  cases ho : m.occupant with
  | aligning session controller =>
      rw [ho] at h
      have hdrive : session.drive = ⟨board, false⟩ := Session.Over.drive_eq h
      simp only [Alignment.intoBoard, hdrive, Drive.intoBoard_of_released, pure_bind]
      split <;> exact ⟨rfl, rfl, _, rfl⟩
  | identifyingElectrical session controller =>
      rw [ho] at h
      have hdrive : session.drive = ⟨board, false⟩ := Session.Over.drive_eq h
      simp only [ElectricalTest.intoBoard, hdrive, Drive.intoBoard_of_released, pure_bind]
      split <;> exact ⟨rfl, rfl, _, rfl⟩
  | identifyingMechanical session =>
      rw [ho] at h
      have hdrive : session.drive = ⟨board, false⟩ := Session.Over.drive_eq h
      simp only [MechanicalTest.intoParts, hdrive, Drive.intoBoard_of_released, pure_bind]
      split <;> exact ⟨rfl, rfl, _, rfl⟩
  | idle board' controller => rw [ho] at h; exact h.elim
  | running loop => rw [ho] at h; exact h.elim

/-- An alignment begins on the board that the occupant handed back. -/
theorem align_spec (h : m.occupant.Sound board) :
    ∃ controller, m.align.result =
        { m with occupant :=
            .aligning (Alignment.begin board m.config.alignment).result controller } ∧
      m.align.calls =
        m.occupant.dismantle.calls ++ (Alignment.begin board m.config.alignment).calls := by
  refine ⟨m.occupant.dismantle.result.2, ?_, ?_⟩
  · rw [← h.dismantle.1]
    rfl
  · simp [align, h.dismantle.1]

/-- So does an electrical test. -/
theorem identifyElectrical_spec (h : m.occupant.Sound board) {t : Traced Float32 (Motor C)}
    (ht : m.identifyElectrical = .ok t) :
    ∃ begun controller,
      ElectricalTest.begin board m.config.vdc m.config.electrical = .ok begun ∧
      t.result = { m with occupant := .identifyingElectrical begun.result controller } ∧
      t.calls = m.occupant.dismantle.calls ++ begun.calls := by
  obtain ⟨begun, hbegin, ht⟩ := Fault.bind_eq_ok_iff.mp ht
  cases ht
  rw [h.dismantle.1] at hbegin
  exact ⟨begun, m.occupant.dismantle.result.2, hbegin, rfl, by simp⟩

/-- A loop that is closed begins on the board that the occupant handed back. -/
theorem start_spec (h : m.occupant.Sound board) {params : String} {found : Float32 × Float32}
    (hparams : Command.twoPositive params .invalidResistance .invalidInductance = .ok found) :
    ∃ controller, (m.start params).result.2 =
        { m with occupant := .running ⟨board, controller, true⟩ } ∧
      (m.start params).calls =
        m.occupant.dismantle.calls ++ [.subscribe board.baseFrequency, .start] := by
  unfold start
  rw [hparams, ← h.dismantle.1]
  exact ⟨_, rfl, by simp [ClosedLoop.begin, ClosedLoop.enable, Event.isCall]⟩

/-! ### One operation -/

/-- The configuration is the same after an operation, the occupant is sound, and the calls of the
operation come in order and lead from where the switches stood to where they stand. -/
structure Keeps (board : Board) (m m' : Motor C) (calls : List (Event Float32)) : Prop where
  config : m'.config = m.config
  sound : m'.occupant.Sound board
  leads : Leads (m.occupant.boardState board) calls (m'.occupant.boardState board)

theorem Keeps.refl (h : m.occupant.Sound board) : Keeps board m m [] := ⟨rfl, h, .refl _⟩

theorem Keeps.trans {m' m'' : Motor C} {calls calls' : List (Event Float32)}
    (h : Keeps board m m' calls) (h' : Keeps board m' m'' calls') :
    Keeps board m m'' (calls ++ calls') :=
  ⟨h'.config.trans h.config, h'.sound, h.leads.append h'.leads⟩

/-- Whoever comes next starts from a board at rest. -/
theorem Keeps.of_begun (h : m.occupant.Sound board) {next : Occupant C}
    (hsound : next.Sound board) (hbusy : next.activity ≠ .idle) :
    Keeps board m (m.enter next).result
      (m.occupant.dismantle.calls ++ [.subscribe board.baseFrequency, .start]) := by
  refine ⟨rfl, hsound, h.leads_dismantle.append ?_⟩
  rw [occupant_enter, next.boardState_eq, if_neg hbusy]
  exact leads_begin _

/-- A change of the occupant that leaves it sound, at the same activity, and calls nothing. -/
theorem Keeps.of_same (m : Motor C) {o : Occupant C} (hsound : o.Sound board)
    (hsame : o.activity = m.occupant.activity) : Keeps board m { m with occupant := o } [] := by
  refine ⟨rfl, hsound, ?_⟩
  rw [o.boardState_eq, hsame, ← m.occupant.boardState_eq]
  exact .refl _

/-- A beat that goes on leaves the switches where they are, and one that ends the session puts the
board to rest and leaves the motor idle. -/
theorem keeps_beat (h : m.occupant.Sound board) (b : Beat Float32) :
    Keeps board m (m.beat b).result (m.beat b).calls := by
  rw [beat_eq h, Traced.bind_result, Traced.calls_bind]
  have hstate := m.occupant.boardState_beat board b
  have hprogress := h.beat b
  generalize m.occupant.beat b = r at hstate hprogress ⊢
  cases hprogress with
  | goesOn sound leads =>
      rw [sound.isDone]
      refine ⟨rfl, sound, ?_⟩
      show Leads (m.occupant.boardState board) (r.calls ++ []) (r.result.boardState board)
      rw [List.append_nil, hstate]
      exact leads
  | ends spent leads =>
      rw [spent.isDone]
      obtain ⟨hcalls, hconfig, controller, hidle⟩ :=
        finish_of_spent (m := { m with occupant := r.result }) spent
      show Keeps board m (Motor.finish _).result (r.calls ++ (Motor.finish _).calls)
      rw [hcalls, List.append_nil]
      refine ⟨hconfig, ?_, ?_⟩
      · rw [hidle]
        rfl
      · rw [hidle]
        exact leads

theorem keeps_reject (h : m.occupant.Sound board) (e : CommandError) :
    Keeps board m (m.reject e).result.2 (m.reject e).calls := .refl h

theorem keeps_align (h : m.occupant.Sound board) :
    Keeps board m m.align.result m.align.calls := by
  obtain ⟨controller, hresult, hcalls⟩ := align_spec h
  obtain ⟨hbegun, -⟩ := Alignment.begun board m.config.alignment
  rw [hresult, hcalls, hbegun.calls]
  exact .of_begun h hbegun.isOpen nofun

theorem keeps_identifyElectrical (h : m.occupant.Sound board) {t : Traced Float32 (Motor C)}
    (ht : m.identifyElectrical = .ok t) : Keeps board m t.result t.calls := by
  obtain ⟨begun, controller, hbegin, hresult, hcalls⟩ := identifyElectrical_spec h ht
  obtain ⟨hbegun, -⟩ := ElectricalTest.begun hbegin
  rw [hresult, hcalls, hbegun.calls]
  exact .of_begun h hbegun.isOpen nofun

theorem keeps_start (h : m.occupant.Sound board) (params : String) :
    Keeps board m (m.start params).result.2 (m.start params).calls := by
  cases hparams : Command.twoPositive params .invalidResistance .invalidInductance with
  | error e =>
      rw [start, hparams]
      exact keeps_reject h e
  | ok found =>
      obtain ⟨controller, hresult, hcalls⟩ := start_spec h hparams
      rw [hresult, hcalls]
      exact .of_begun h rfl nofun

theorem keeps_setPoint (h : m.occupant.Sound board) (target : σ) :
    Keeps board m (m.setPoint target).result.2 (m.setPoint target).calls := by
  unfold setPoint
  cases ho : m.occupant with
  | running loop =>
      rw [ho] at h
      exact .of_same m h (by rw [ho]; rfl)
  | idle | aligning | identifyingElectrical | identifyingMechanical => exact keeps_reject h _

end

section

variable {C : Type} [Controller C Float32 Float32] {board : Board} {m : Motor C}

theorem keeps_setSpeedTunings (h : m.occupant.Sound board) (t : Tunings Float32) :
    Keeps board m (m.setSpeedTunings t).result.2 (m.setSpeedTunings t).calls := by
  unfold setSpeedTunings
  cases ho : m.occupant with
  | idle board' controller =>
      rw [ho] at h
      exact .of_same m h (by rw [ho]; rfl)
  | running loop =>
      rw [ho] at h
      exact .of_same m h (by rw [ho]; rfl)
  | aligning | identifyingElectrical | identifyingMechanical => exact keeps_reject h _

/-- Readying the controller asks nothing of the board. -/
theorem calls_readyForTest (m : Motor C) (board : Board) (controller : C) :
    (m.readyForTest board controller).calls = [] := by
  unfold readyForTest
  cases m.electrical <;> rfl

/-- A mechanical test begins on the board that the occupant handed back. -/
theorem identifyMechanical_spec (h : m.occupant.Sound board) {params : String} {position : Float32}
    {found : Float32 × Float32}
    (hparams : Command.twoPositive params .invalidTargetSpeed .invalidTorqueConstant = .ok found)
    {t : Traced Float32 (Verdict × Motor C)} (ht : m.identifyMechanical params position = .ok t) :
    ∃ begun controller,
      MechanicalTest.begin board controller ⟨.ofRpm found.1, ⟨found.2⟩, m.polePairs⟩
        m.config.mechanical position = .ok begun ∧
      t.result = (.ok (), { m with occupant := .identifyingMechanical begun.result }) ∧
      t.calls = m.occupant.dismantle.calls ++ begun.calls := by
  unfold identifyMechanical at ht
  rw [hparams] at ht
  obtain ⟨begun, hbegin, ht⟩ := Fault.bind_eq_ok_iff.mp ht
  cases ht
  change MechanicalTest.begin m.occupant.dismantle.result.1 _ _ _ _ = .ok begun at hbegin
  rw [h.dismantle.1] at hbegin
  exact ⟨begun, _, hbegin, rfl, by simp [calls_readyForTest]⟩

theorem keeps_identifyMechanical (h : m.occupant.Sound board) {params : String}
    {position : Float32} {t : Traced Float32 (Verdict × Motor C)}
    (ht : m.identifyMechanical params position = .ok t) : Keeps board m t.result.2 t.calls := by
  cases hparams : Command.twoPositive params .invalidTargetSpeed .invalidTorqueConstant with
  | error e =>
      rw [identifyMechanical, hparams] at ht
      cases ht
      exact keeps_reject h e
  | ok found =>
      obtain ⟨begun, controller, hbegin, hresult, hcalls⟩ := identifyMechanical_spec h hparams ht
      obtain ⟨hbegun, -⟩ := MechanicalTest.begun hbegin
      rw [hresult, hcalls, hbegun.calls]
      exact .of_begun h hbegun.isOpen nofun

end

/-! ### Runs -/

section

variable {C σ : Type} [Controller C Float32 σ] {board : Board} {m : Motor C}

/-- Every operation keeps the switches in order. -/
theorem keeps_step (h : m.occupant.Sound board) {op : Operation σ}
    {done : Traced Float32 (Option Verdict × Motor C)} (hdone : m.step op = .ok done) :
    Keeps board m done.result.2 done.calls := by
  cases op with
  | align => cases hdone; simpa using keeps_align h
  | identifyElectrical =>
      obtain ⟨t, ht, hdone⟩ := Fault.bind_eq_ok_iff.mp hdone
      cases hdone
      simpa using keeps_identifyElectrical h ht
  | start params => cases hdone; simpa using keeps_start h params
  | setPoint target => cases hdone; simpa using keeps_setPoint h target
  | service => cases hdone; simpa [beat] using keeps_beat h .service
  | sample currents position =>
      cases hdone
      simpa [beat] using keeps_beat h (.sample currents position)
  | setSpeedTunings isSpeed tunings =>
      cases isSpeed
      cases hdone
      simpa using keeps_setSpeedTunings h tunings
  | identifyMechanical isSpeed params position =>
      cases isSpeed
      obtain ⟨t, ht, hdone⟩ := Fault.bind_eq_ok_iff.mp hdone
      cases hdone
      simpa using keeps_identifyMechanical h ht

/-- So does every run. -/
theorem keeps_run (ops : List (Operation σ)) :
    ∀ (m : Motor C) (t : Traced Float32 (Motor C)), m.occupant.Sound board →
      m.run ops = .ok t → Keeps board m t.result t.calls := by
  induction ops with
  | nil => intro m t h ht; cases ht; exact .refl h
  | cons op ops ih =>
      intro m t h ht
      obtain ⟨done, rest, hdone, hrest, rfl⟩ := run_cons_eq_ok_iff.mp ht
      have hstep := keeps_step h hdone
      have hcalls : (rest.precededBy done.events).calls = done.calls ++ rest.calls :=
        List.filter_append ..
      rw [hcalls]
      exact hstep.trans (ih _ _ hstep.sound hrest)

omit [Controller C Float32 σ] in
/-- A motor begins idle. -/
theorem check_spec {controller : C} {config : Config} (hm : check board controller config = .ok m) :
    m.occupant = .idle board controller ∧ m.config = config := by
  obtain ⟨ratio, -, hmotor⟩ := Fault.bind_eq_ok_iff.mp hm
  cases hmotor
  exact ⟨rfl, rfl⟩

theorem sound_of_check {controller : C} {config : Config}
    (hm : check board controller config = .ok m) : m.occupant.Sound board := by
  rw [(check_spec hm).1]
  rfl

/-- What a motor can become keeps its configuration, is sound, and was led there from rest. -/
theorem reached_spec {controller : C} {config : Config}
    (hm : check board controller config = .ok m) {ops : List (Operation σ)}
    {t : Traced Float32 (Motor C)} (ht : m.run ops = .ok t) :
    t.result.config = config ∧ t.result.occupant.Sound board ∧
      Leads quiet t.events (t.result.occupant.boardState board) := by
  obtain ⟨hidle, hconfig⟩ := check_spec hm
  obtain ⟨hsame, sound, leads⟩ := keeps_run ops m t (sound_of_check hm) ht
  rw [hidle] at leads
  exact ⟨hsame.trans hconfig, sound, leads_of_calls leads⟩

/-- What holds of a motor on a board that was at rest, after a run. -/
structure InOrder (board : Board) (t : Traced Float32 (Motor C)) : Prop where
  /-- The bridge is on exactly while the motor is not idle. -/
  isOn_iff : (quiet.afterAll t.events).isOn = true ↔ t.result.occupant.activity ≠ .idle
  /-- Samples come in, at the base frequency, exactly while the motor is not idle. -/
  sampling_eq_some_iff : (quiet.afterAll t.events).sampling = some board.baseFrequency ↔
    t.result.occupant.activity ≠ .idle
  sampling_eq_none_iff :
    (quiet.afterAll t.events).sampling = none ↔ t.result.occupant.activity = .idle
  /-- The calls come in order. -/
  orderly : quiet.Orderly t.events
  /-- A session that is done does not keep the motor. -/
  not_isDone : t.result.occupant.isDone = false
  /-- A motor that goes out of use tears its occupant down, in order, and what is left to it is to
  stop a board at rest once more. -/
  shutDown_events : ∃ torn, t.result.shutDown.events = torn ++ [.stop, .unsubscribe] ∧
    Leads (quiet.afterAll t.events) torn quiet
  /-- After that the board is at rest. -/
  afterAll_shutDown : quiet.afterAll (t.events ++ t.result.shutDown.events) = quiet

/--
**The switches of the board stand as the occupant of the motor needs them, after every run, and the
end of the motor puts them to rest.**
-/
theorem inOrder_of_run {controller : C} {config : Config}
    (hm : check board controller config = .ok m) {ops : List (Operation σ)}
    {t : Traced Float32 (Motor C)} (ht : m.run ops = .ok t) : InOrder board t := by
  obtain ⟨-, sound, orderly, reaches⟩ := reached_spec hm ht
  have htorn : Leads (quiet.afterAll t.events) t.result.occupant.dismantle.events quiet := by
    rw [reaches]
    exact leads_of_calls sound.leads_dismantle
  have hend : t.result.shutDown.events
      = t.result.occupant.dismantle.events ++ [.stop, .unsubscribe] := rfl
  have hstate := t.result.occupant.boardState_eq board
  refine ⟨?_, ?_, ?_, orderly, sound.isDone, ⟨_, hend, htorn⟩, ?_⟩
  · rw [reaches, hstate]
    by_cases h : t.result.occupant.activity = .idle <;> simp [h, quiet, live]
  · rw [reaches, hstate]
    by_cases h : t.result.occupant.activity = .idle <;> simp [h, quiet, live]
  · rw [reaches, hstate]
    by_cases h : t.result.occupant.activity = .idle <;> simp [h, quiet, live]
  · rw [hend, afterAll_append, afterAll_append, htorn.reaches]
    rfl

end

/-- A motor in the middle of an alignment is in order. -/
theorem inOrder_of_run_align : ∃ m t,
    check ⟨⟨1000⟩⟩ (TorqueLoop.new : TorqueLoop Float32) .standard = .ok m ∧
      m.run [.align, .service] = .ok t ∧ InOrder ⟨⟨1000⟩⟩ t := by
  obtain ⟨m, hm⟩ : ∃ m, check ⟨⟨1000⟩⟩ (TorqueLoop.new : TorqueLoop Float32) .standard = .ok m :=
    ⟨_, rfl⟩
  obtain ⟨t, ht⟩ : ∃ t, m.run [.align, .service] = .ok t := ⟨_, rfl⟩
  exact ⟨m, t, hm, ht, inOrder_of_run hm ht⟩

/-- A motor that goes out of use at once stops a bridge that was never started. -/
theorem shutDown_of_unused : ∃ m t,
    check ⟨⟨1000⟩⟩ (TorqueLoop.new : TorqueLoop Float32) .standard = .ok m ∧
      m.run [] = .ok t ∧ ¬ quiet.Orderly (t.events ++ t.result.shutDown.events) := by
  refine ⟨_, _, rfl, rfl, ?_⟩
  rintro ⟨hstarted, -⟩
  exact Bool.false_ne_true hstarted

end Motor

end MotorControl
