/-
What a motor learns, and when.

A motor keeps what its sessions find: the offset of the rotor, the winding and the
rotor itself.  `Finds` says when there is something to keep: at the sample with which
an open session comes to its end with a result.  `step_learns` says that nothing else
is ever kept.  An operation either finds something, and what it found is all that
changes in what the motor knows, or finds nothing and leaves all of it as it was.
-/
import MotorControl.Proofs.Motor.BoardState

namespace MotorControl

/-! ### What a session finds -/

/-- What a session that is over has found, if it has found anything. -/
def Completion.found? {β : Type} : Completion β → Option β
  | .pending => none
  | .done result => result

/-- What a session can find. -/
inductive Finding where
  /-- What the encoder reads at electrical angle zero. -/
  | offset (angle : Float32)
  | winding (p : ElectricalParameters Float32)
  | rotor (p : MechanicalParameters Float32)

/-- The result of a session that has the motor, if there is one by now. -/
def Occupant.found? {C : Type} : Occupant C → Option Finding
  | .aligning session _ => session.completion.found?.map .offset
  | .identifyingElectrical session _ => session.completion.found?.map .winding
  | .identifyingMechanical session => session.completion.found?.map .rotor
  | .idle .. | .running _ => none

/-- A session that goes on has found nothing yet. -/
theorem Occupant.found?_of_not_isDone {C : Type} {o : Occupant C} (h : o.isDone = false) :
    o.found? = none := by
  have hnone {β : Type} {c : Completion β} (hc : c.isDone = false) : c.found? = none := by
    cases c with
    | pending => rfl
    | done result => cases hc
  cases o with
  | aligning | identifyingElectrical | identifyingMechanical =>
      exact congrArg (Option.map _) (hnone h)
  | idle | running => rfl

/-- What an alignment finds is what the encoder reads at its last sample. -/
theorem Alignment.found?_sample {a : Alignment Float32} {board : Board}
    (h : Session.Open board a) (position : Float32) :
    (a.sample position).result.completion.found? = none ∨
      (a.sample position).result.completion = .done (some position) := by
  have hdrive : a.drive = ⟨board, true⟩ := h.drive_eq
  have hpending : a.completion = .pending := h.pending
  by_cases hlast : a.remaining = 1
  · rw [sample_of_last hdrive hlast]
    exact Or.inr rfl
  · rw [sample_of_not_last hdrive hlast]
    left
    show a.completion.found? = none
    rw [hpending]
    rfl

namespace Motor

variable {C σ : Type}

/-- The motor with something more known of it. -/
def learn (m : Motor C) : Finding → Motor C
  | .offset angle => { m with rotorOffset := some angle }
  | .winding p => { m with polePairs := p.polePairs, electrical := some p }
  | .rotor p => { m with mechanical := some p }

/-- The motor with what a session has found, if it has found anything. -/
def learn? (m : Motor C) (found : Option Finding) : Motor C := found.elim m m.learn

variable [Controller C Float32 σ] {board : Board} {m : Motor C}

/-! ### The end of a session -/

theorem finish_aligning {session : Alignment Float32} {controller : C}
    (ho : m.occupant = .aligning session controller) :
    m.finish.result = { m.learn? (session.completion.found?.map .offset) with
      occupant := .idle session.intoBoard.result controller } := by
  unfold finish
  rw [ho]
  dsimp only
  cases session.completion with
  | pending => rfl
  | done result => cases result <;> rfl

theorem finish_identifyingElectrical {session : ElectricalTest Float32} {controller : C}
    (ho : m.occupant = .identifyingElectrical session controller) :
    m.finish.result = { m.learn? (session.completion.found?.map .winding) with
      occupant := .idle session.intoBoard.result (session.completion.found?.elim controller
        fun found => Controller.obey (.polePairs found.polePairs) controller) } := by
  unfold finish
  rw [ho]
  dsimp only
  cases session.completion with
  | pending => rfl
  | done result => cases result <;> rfl

theorem finish_identifyingMechanical {session : MechanicalTest Float32 C}
    (ho : m.occupant = .identifyingMechanical session) :
    m.finish.result = { m.learn? (session.completion.found?.map .rotor) with
      occupant := .idle session.intoParts.result.1 (Controller.obey .disable session.controller) } := by
  unfold finish
  rw [ho]
  dsimp only
  cases session.completion with
  | pending => rfl
  | done result => cases result <;> rfl

/-- The end of a session changes nothing but the occupant and what the session has found. -/
theorem finish_learns (m : Motor C) :
    m.finish.result =
      { m.learn? m.occupant.found? with occupant := m.finish.result.occupant } := by
  cases ho : m.occupant with
  | aligning session controller => rw [finish_aligning ho]; rfl
  | identifyingElectrical session controller => rw [finish_identifyingElectrical ho]; rfl
  | identifyingMechanical session => rw [finish_identifyingMechanical ho]; rfl
  | idle | running =>
      unfold finish
      rw [ho]
      rfl

/-- So does a beat: what it leaves behind is what the session has found by then. -/
theorem beat_learns (h : m.occupant.Sound board) (b : Beat Float32) :
    (m.beat b).result = { m.learn? (m.occupant.beat b).result.found? with
      occupant := (m.beat b).result.occupant } := by
  rw [beat_eq h, Traced.bind_result, resume]
  cases hdone : (m.occupant.beat b).result.isDone with
  | false =>
      rw [Occupant.found?_of_not_isDone hdone]
      rfl
  | true =>
      have hlearns := finish_learns { m with occupant := (m.occupant.beat b).result }
      rw [if_pos rfl]
      refine hlearns.trans ?_
      cases (m.occupant.beat b).result.found? with
      | none => rfl
      | some f => cases f <;> rfl

/-! ### One operation -/

/-- An operation finds something: it is the sample at which the session that has the motor ends, and
it ends with a result. -/
inductive Finds (m : Motor C) : Operation σ → Finding → Prop
  | offset {session : Alignment Float32} {controller : C} {currents : Phases Float32}
      {position : Float32} (occupant_eq : m.occupant = .aligning session controller)
      (pending : session.completion = .pending)
      (ends : (session.sample position).result.completion = .done (some position)) :
      Finds m (.sample currents position) (.offset position)
  | winding {session : ElectricalTest Float32} {controller : C} {currents : Phases Float32}
      {position : Float32} {found : ElectricalParameters Float32}
      (occupant_eq : m.occupant = .identifyingElectrical session controller)
      (pending : session.completion = .pending)
      (ends : (session.sample currents position).result.completion = .done (some found)) :
      Finds m (.sample currents position) (.winding found)
  | rotor {session : MechanicalTest Float32 C} {currents : Phases Float32}
      {position : Float32} {found : MechanicalParameters Float32}
      (occupant_eq : m.occupant = .identifyingMechanical session)
      (pending : session.completion = .pending)
      (ends : (session.sample currents position).result.completion = .done (some found)) :
      Finds m (.sample currents position) (.rotor found)

omit [Controller C Float32 σ] in
theorem found?_eq_some_iff {β : Type} {c : Completion β} {x : β} :
    c.found? = some x ↔ c = .done (some x) := by
  cases c with
  | pending => exact ⟨nofun, nofun⟩
  | done result =>
      show result = some x ↔ _
      constructor
      · rintro rfl; rfl
      · intro h; cases h; rfl

/-- What a sample finds is the result that the session of the motor has after it. -/
theorem finds_sample_iff (h : m.occupant.Sound board) (currents : Phases Float32)
    (position : Float32) (f : Finding) :
    Finds m (.sample currents position) f ↔
      (m.occupant.beat (.sample currents position)).result.found? = some f := by
  constructor
  · intro hfinds
    cases hfinds with
    | offset ho _ hend => rw [ho]; exact congrArg (Option.map _) (found?_eq_some_iff.mpr hend)
    | winding ho _ hend => rw [ho]; exact congrArg (Option.map _) (found?_eq_some_iff.mpr hend)
    | rotor ho _ hend => rw [ho]; exact congrArg (Option.map _) (found?_eq_some_iff.mpr hend)
  · intro hfound
    cases ho : m.occupant with
    | idle | running => rw [ho] at hfound; cases hfound
    | aligning session controller =>
        rw [ho] at h hfound
        obtain ⟨angle, hangle, rfl⟩ := Option.map_eq_some_iff.mp hfound
        obtain hnone | hend := Alignment.found?_sample h position
        · cases hnone.symm.trans hangle
        · cases (found?_eq_some_iff.mpr hend).symm.trans hangle
          exact .offset ho (Session.Open.pending h) hend
    | identifyingElectrical session controller =>
        rw [ho] at h hfound
        obtain ⟨p, hp, rfl⟩ := Option.map_eq_some_iff.mp hfound
        exact .winding ho (Session.Open.pending h) (found?_eq_some_iff.mp hp)
    | identifyingMechanical session =>
        rw [ho] at h hfound
        obtain ⟨p, hp, rfl⟩ := Option.map_eq_some_iff.mp hfound
        exact .rotor ho (Session.Open.pending h) (found?_eq_some_iff.mp hp)

/-- Only samples find anything, and what is found is all that an operation adds to what is known. -/
theorem step_learns (h : m.occupant.Sound board) {op : Operation σ}
    {done : Traced Float32 (Option Verdict × Motor C)} (hdone : m.step op = .ok done) :
    ∃ found : Option Finding, (∀ f, Finds m op f ↔ found = some f) ∧
      done.result.2 = { m.learn? found with occupant := done.result.2.occupant } := by
  cases op with
  | sample currents position =>
      cases hdone
      exact ⟨_, finds_sample_iff h currents position, beat_learns h (.sample currents position)⟩
  | service =>
      cases hdone
      have hlearns := beat_learns h .service
      rw [Occupant.found?_of_not_isDone h.service.1.isDone] at hlearns
      exact ⟨none, fun _ => ⟨nofun, nofun⟩, hlearns⟩
  | align => cases hdone; exact ⟨none, fun _ => ⟨nofun, nofun⟩, rfl⟩
  | identifyElectrical =>
      obtain ⟨t, ht, hdone⟩ := Fault.bind_eq_ok_iff.mp hdone
      cases hdone
      obtain ⟨begun, -, ht⟩ := Fault.bind_eq_ok_iff.mp ht
      cases ht
      exact ⟨none, fun _ => ⟨nofun, nofun⟩, rfl⟩
  | start params =>
      cases hdone
      refine ⟨none, fun _ => ⟨nofun, nofun⟩, ?_⟩
      show (m.start params).result.2 = { m with occupant := (m.start params).result.2.occupant }
      unfold start
      cases Command.twoPositive params .invalidResistance .invalidInductance <;> rfl
  | setPoint target =>
      cases hdone
      refine ⟨none, fun _ => ⟨nofun, nofun⟩, ?_⟩
      show (m.setPoint target).result.2 = { m with occupant := (m.setPoint target).result.2.occupant }
      unfold setPoint
      cases m.occupant <;> rfl
  | setSpeedTunings isSpeed t =>
      cases isSpeed
      cases hdone
      refine ⟨none, fun _ => ⟨nofun, nofun⟩, ?_⟩
      show (m.setSpeedTunings t).result.2 =
        { m with occupant := (m.setSpeedTunings t).result.2.occupant }
      unfold setSpeedTunings
      cases m.occupant <;> rfl
  | identifyMechanical isSpeed params position =>
      cases isSpeed
      obtain ⟨t, ht, hdone⟩ := Fault.bind_eq_ok_iff.mp hdone
      cases hdone
      refine ⟨none, fun _ => ⟨nofun, nofun⟩, ?_⟩
      show t.result.2 = { m with occupant := t.result.2.occupant }
      unfold identifyMechanical at ht
      cases hparams : Command.twoPositive params .invalidTargetSpeed .invalidTorqueConstant with
      | error e => rw [hparams] at ht; cases ht; rfl
      | ok found =>
          rw [hparams] at ht
          obtain ⟨begun, -, ht⟩ := Fault.bind_eq_ok_iff.mp ht
          cases ht
          rfl

/-! ### Mechanical tests -/

/-- How a mechanical test can come to have the motor: it had it before, or it did and has taken a
beat since, or it was just begun. -/
inductive Tests (board : Board) (m : Motor C) (session : MechanicalTest Float32 C) : Prop
  | had (occupant_eq : m.occupant = .identifyingMechanical session)
  | beat {before : MechanicalTest Float32 C} (b : Beat Float32)
      (occupant_eq : m.occupant = .identifyingMechanical before)
      (session_eq : session = (Session.beat before b).result)
  | begun
      (fit_eq : RotorFit.check m.config.mechanical.forgetting board.baseFrequency.toScalar =
        .ok session.fit)
      (pending : session.completion = .pending)
      (polePairs_eq : session.polePairs = Scalar.ofNat m.polePairs.toNat)

/-- A test that has the motor after a beat took it. -/
theorem tests_of_beat (h : m.occupant.Sound board) (b : Beat Float32)
    {session : MechanicalTest Float32 C}
    (hs : (m.beat b).result.occupant = .identifyingMechanical session) :
    (m.beat b).result.polePairs = m.polePairs ∧ Tests board m session := by
  rw [beat_eq h, Traced.bind_result] at hs ⊢
  cases h.beat b with
  | goesOn sound _ =>
      rw [sound.isDone] at hs ⊢
      refine ⟨rfl, ?_⟩
      change (m.occupant.beat b).result = _ at hs
      cases ho : m.occupant with
      | identifyingMechanical before =>
          rw [ho] at hs
          refine .beat b ho ?_
          cases b <;> exact (Occupant.identifyingMechanical.inj hs).symm
      | running loop => rw [ho] at hs; cases b <;> cases hs
      | idle | aligning | identifyingElectrical => rw [ho] at hs; cases hs
  | ends spent _ =>
      rw [spent.isDone] at hs
      obtain ⟨-, -, controller, hidle⟩ :=
        finish_of_spent (m := { m with occupant := (m.occupant.beat b).result }) spent
      change (Motor.finish _).result.occupant = _ at hs
      rw [hidle] at hs
      cases hs

/-- An operation that leaves the motor to a mechanical test leaves its pole pairs. -/
theorem tests_of_step (h : m.occupant.Sound board) {op : Operation σ}
    {done : Traced Float32 (Option Verdict × Motor C)} (hdone : m.step op = .ok done)
    {session : MechanicalTest Float32 C}
    (hs : done.result.2.occupant = .identifyingMechanical session) :
    done.result.2.polePairs = m.polePairs ∧ Tests board m session := by
  cases op with
  | align => cases hdone; cases hs
  | identifyElectrical =>
      obtain ⟨t, ht, hdone⟩ := Fault.bind_eq_ok_iff.mp hdone
      obtain ⟨begun, -, ht⟩ := Fault.bind_eq_ok_iff.mp ht
      cases ht
      cases hdone
      cases hs
  | start params =>
      cases hdone
      change (m.start params).result.2.occupant = _ at hs
      show (m.start params).result.2.polePairs = _ ∧ _
      unfold start at hs ⊢
      cases hparams : Command.twoPositive params .invalidResistance .invalidInductance with
      | error e => rw [hparams] at hs; exact ⟨rfl, .had hs⟩
      | ok found => rw [hparams] at hs; cases hs
  | setPoint target =>
      cases hdone
      change (m.setPoint target).result.2.occupant = _ at hs
      show (m.setPoint target).result.2.polePairs = _ ∧ _
      unfold setPoint at hs ⊢
      cases ho : m.occupant with
      | running loop => rw [ho] at hs; cases hs
      | idle | aligning | identifyingElectrical | identifyingMechanical =>
          rw [ho] at hs
          exact ⟨rfl, .had hs⟩
  | service => cases hdone; exact tests_of_beat h .service hs
  | sample currents position => cases hdone; exact tests_of_beat h (.sample currents position) hs
  | setSpeedTunings isSpeed t =>
      cases isSpeed
      cases hdone
      change (m.setSpeedTunings t).result.2.occupant = _ at hs
      show (m.setSpeedTunings t).result.2.polePairs = _ ∧ _
      unfold setSpeedTunings at hs ⊢
      cases ho : m.occupant with
      | idle | running => rw [ho] at hs; cases hs
      | aligning | identifyingElectrical | identifyingMechanical =>
          rw [ho] at hs
          exact ⟨rfl, .had hs⟩
  | identifyMechanical isSpeed params position =>
      cases isSpeed
      obtain ⟨t, ht, hdone⟩ := Fault.bind_eq_ok_iff.mp hdone
      cases hdone
      change t.result.2.occupant = _ at hs
      show t.result.2.polePairs = _ ∧ _
      cases hparams : Command.twoPositive params .invalidTargetSpeed .invalidTorqueConstant with
      | error e =>
          rw [identifyMechanical, hparams] at ht
          cases ht
          exact ⟨rfl, .had hs⟩
      | ok found =>
          obtain ⟨begun, controller, hbegin, hresult, -⟩ := identifyMechanical_spec h hparams ht
          obtain ⟨fit, hfit, hbegin⟩ := Fault.bind_eq_ok_iff.mp hbegin
          cases hbegin
          rw [hresult] at hs ⊢
          cases hs
          exact ⟨rfl, .begun hfit rfl rfl⟩

end Motor

end MotorControl
