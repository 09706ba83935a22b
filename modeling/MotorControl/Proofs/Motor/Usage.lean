/-
How the operations on a motor use its controller.

The controller is lent to one occupant after the other, and each gives it instructions
and hands it samples.  `usage` lists these calls for one operation: disabling it when
an occupant is dismantled, what a command readies it with, and what its user does with
it at a sample.  The controller after the operation is the one before it after these
calls, so what is known of a controller's calls is known of every run of a motor.
-/
import MotorControl.Proofs.Controller.Run
import MotorControl.Proofs.Motor.Findings

namespace MotorControl

open Controller (Call after)

/-! ### Sessions and the closed loop -/

namespace MechanicalTest

variable {α C σ : Type} [Scalar α] [Controller C α σ] {board : Board} {t : MechanicalTest α C}

/-- A sample is handed to the controller, and the end of the test disables it. -/
theorem controller_sample (h : Session.Open board t) (currents : Phases α) (position : α) :
    (t.sample currents position).result.controller = after t.controller
      (.sample currents position ::
        if (t.sample currents position).result.completion.isDone then [.instruct .disable]
        else []) := by
  have hpending : (t.take currents position).result.2.completion = .pending := h.pending
  rw [sample_eq h.drive_eq, Traced.bind_result]
  unfold judge
  split
  · rfl
  · split
    · rfl
    · rw [Traced.pure_result, hpending]
      rfl

end MechanicalTest

namespace Occupant

variable {C σ : Type} [Controller C Float32 σ]

/-- What the controller is told when its user is dismantled. -/
def parting (o : Occupant C) : List (Call Float32 σ) :=
  if o.activity = .idle then [] else [.instruct .disable]

theorem controller_dismantle (o : Occupant C) :
    o.dismantle.result.2 = after o.controller o.parting := by
  cases o with
  | running loop =>
      show (ClosedLoop.intoParts loop).result.2 = Controller.obey .disable loop.controller
      unfold ClosedLoop.intoParts ClosedLoop.disable
      cases loop.enabled <;> rfl
  | idle | aligning | identifyingElectrical | identifyingMechanical => rfl

end Occupant

namespace Motor

section

variable {C σ : Type} [Controller C Float32 σ] {board : Board} {m : Motor C}

/-- The instruction that sets the current gains for a winding. -/
def tuning (m : Motor C) (board : Board) (resistance : Quantity .ohm Float32)
    (inductance : Quantity .millihenry Float32) : Instruction Float32 σ :=
  .currentTunings m.config.vdc.value
    (CurrentGains.ofWinding resistance inductance board.baseFrequency m.currentRatio)

/-- The calls that an operation on a motor on the board makes on the controller. -/
def usage (board : Board) (m : Motor C) : Operation σ → List (Call Float32 σ)
  | .align | .identifyElectrical => m.occupant.parting
  | .start params =>
    match Command.twoPositive params .invalidResistance .invalidInductance with
    | .error _ => []
    | .ok (resistance, inductance) => m.occupant.parting ++ [.instruct .reset,
        .instruct (m.tuning board ⟨resistance⟩ ⟨inductance⟩), .instruct .enable]
  | .setPoint target =>
    match m.occupant with
    | .running _ => [.instruct (.setPoint target)]
    | _ => []
  | .service =>
    match m.occupant with
    | .running _ | .identifyingMechanical _ => [.instruct .service]
    | _ => []
  | .sample currents position =>
    match m.occupant with
    | .idle .. | .aligning .. => []
    | .identifyingElectrical session _ =>
      match (session.sample currents position).result.completion with
      | .done (some found) => [.instruct (.polePairs found.polePairs)]
      | _ => []
    | .identifyingMechanical session =>
      .sample currents position ::
        if (session.sample currents position).result.completion.isDone then
          [.instruct .disable, .instruct .disable]
        else []
    | .running _ => [.sample currents position]
  | .setSpeedTunings _ t =>
    match m.occupant with
    | .idle .. | .running _ => [.instruct (.speedTunings t)]
    | _ => []
  | .identifyMechanical isSpeed params _ =>
    match Command.twoPositive params .invalidTargetSpeed .invalidTorqueConstant with
    | .error _ => []
    | .ok (rpm, _) => m.occupant.parting ++ .instruct .reset ::
        (m.electrical.toList.map fun found =>
          .instruct (m.tuning board found.resistance found.inductance)) ++
        [.instruct .enable, .instruct (.setPoint (cast isSpeed.symm (Quantity.ofRpm rpm).value))]

/-! ### One operation -/

theorem controller_align (m : Motor C) :
    m.align.result.occupant.controller = after m.occupant.controller m.occupant.parting :=
  m.occupant.controller_dismantle

theorem controller_identifyElectrical {t : Traced Float32 (Motor C)}
    (ht : m.identifyElectrical = .ok t) :
    t.result.occupant.controller = after m.occupant.controller m.occupant.parting := by
  obtain ⟨begun, -, ht⟩ := Fault.bind_eq_ok_iff.mp ht
  cases ht
  exact m.occupant.controller_dismantle

theorem controller_start (h : m.occupant.Sound board) (params : String) :
    (m.start params).result.2.occupant.controller =
      after m.occupant.controller (m.usage board (.start params)) := by
  unfold start
  dsimp only [usage]
  cases Command.twoPositive params .invalidResistance .invalidInductance with
  | error e => rfl
  | ok found =>
      rw [Controller.after_append, ← m.occupant.controller_dismantle, ← h.dismantle.1]
      rfl

theorem controller_setPoint (m : Motor C) (target : σ) :
    (m.setPoint target).result.2.occupant.controller =
      after m.occupant.controller (m.usage board (.setPoint target)) := by
  unfold setPoint
  dsimp only [usage]
  cases ho : m.occupant with
  | running loop => rfl
  | idle | aligning | identifyingElectrical | identifyingMechanical =>
      show m.occupant.controller = _
      rw [ho]
      rfl

theorem controller_service (m : Motor C) :
    m.service.result.occupant.controller =
      after m.occupant.controller (m.usage board .service) := by
  unfold service
  dsimp only [usage]
  cases ho : m.occupant with
  | running | identifyingMechanical => rfl
  | idle | aligning | identifyingElectrical =>
      show m.occupant.controller = _
      rw [ho]
      rfl

/-- A sample reaches the controller only where its user hands it on, and only a test that ends tells
it anything more. -/
theorem controller_sample (h : m.occupant.Sound board) (currents : Phases Float32)
    (position : Float32) :
    (m.sample currents position).result.occupant.controller =
      after m.occupant.controller (m.usage board (.sample currents position)) := by
  unfold sample
  dsimp only [usage]
  cases ho : m.occupant with
  | idle b controller =>
      show m.occupant.controller = _
      rw [ho]
      rfl
  | aligning session controller =>
      dsimp only
      rw [Traced.bind_result, resume]
      split
      · rw [finish_aligning rfl]
        rfl
      · rfl
  | identifyingElectrical session controller =>
      dsimp only
      rw [Traced.bind_result, resume]
      cases hend : (session.sample currents position).result.completion with
      | pending => rfl
      | done result =>
          rw [if_pos (show (Completion.done result).isDone = true from rfl),
            finish_identifyingElectrical rfl]
          dsimp only
          rw [hend]
          cases result <;> rfl
  | identifyingMechanical session =>
      rw [ho] at h
      have hcontroller := MechanicalTest.controller_sample h currents position
      dsimp only
      rw [Traced.bind_result, resume]
      cases hend : (session.sample currents position).result.completion.isDone with
      | false =>
          rw [hend] at hcontroller
          exact hcontroller
      | true =>
          rw [hend] at hcontroller
          -- The end of the test disables the controller, and dismantling it does so once more.
          rw [if_pos rfl, finish_identifyingMechanical rfl]
          show Controller.obey .disable (session.sample currents position).result.controller = _
          rw [hcontroller]
          rfl
  | running loop => rfl

end

section

variable {C : Type} [Controller C Float32 Float32] {board : Board} {m : Motor C}

theorem controller_setSpeedTunings (m : Motor C) (t : Tunings Float32) :
    (m.setSpeedTunings t).result.2.occupant.controller =
      after m.occupant.controller (m.usage board (.setSpeedTunings rfl t)) := by
  unfold setSpeedTunings
  dsimp only [usage]
  cases ho : m.occupant with
  | idle | running => rfl
  | aligning | identifyingElectrical | identifyingMechanical =>
      show m.occupant.controller = _
      rw [ho]
      rfl

theorem controller_readyForTest (m : Motor C) (board : Board) (controller : C) :
    (m.readyForTest board controller).result = after controller (.instruct .reset ::
      m.electrical.toList.map fun found =>
        .instruct (m.tuning board found.resistance found.inductance)) := by
  unfold readyForTest
  cases m.electrical <;> rfl

theorem controller_identifyMechanical (h : m.occupant.Sound board) {params : String}
    {position : Float32} {t : Traced Float32 (Verdict × Motor C)}
    (ht : m.identifyMechanical params position = .ok t) :
    t.result.2.occupant.controller =
      after m.occupant.controller (m.usage board (.identifyMechanical rfl params position)) := by
  unfold identifyMechanical at ht
  dsimp only [usage]
  cases hparams : Command.twoPositive params .invalidTargetSpeed .invalidTorqueConstant with
  | error e =>
      rw [hparams] at ht
      cases ht
      rfl
  | ok found =>
      rw [hparams] at ht
      obtain ⟨begun, hbegin, ht⟩ := Fault.bind_eq_ok_iff.mp ht
      cases ht
      obtain ⟨fit, -, hbegin⟩ := Fault.bind_eq_ok_iff.mp hbegin
      cases hbegin
      dsimp only
      rw [Controller.after_append, Controller.after_append, ← m.occupant.controller_dismantle,
        ← h.dismantle.1, ← controller_readyForTest]
      rfl

end

/--
**The controller of a motor after an operation is the one before it, after the calls that the
operation makes on it.**
-/
theorem controller_step {C σ : Type} [Controller C Float32 σ] {board : Board} {m : Motor C}
    (h : m.occupant.Sound board) {op : Operation σ}
    {done : Traced Float32 (Option Verdict × Motor C)} (hdone : m.step op = .ok done) :
    done.result.2.occupant.controller =
      after m.occupant.controller (m.usage board op) := by
  cases op with
  | align => cases hdone; exact m.controller_align
  | identifyElectrical =>
      obtain ⟨t, ht, hdone⟩ := Fault.bind_eq_ok_iff.mp hdone
      cases hdone
      exact controller_identifyElectrical ht
  | start params => cases hdone; exact controller_start h params
  | setPoint target => cases hdone; exact m.controller_setPoint target
  | service => cases hdone; exact m.controller_service
  | sample currents position => cases hdone; exact controller_sample h currents position
  | setSpeedTunings isSpeed t =>
      cases isSpeed
      cases hdone
      exact m.controller_setSpeedTunings t
  | identifyMechanical isSpeed params position =>
      cases isSpeed
      obtain ⟨t, ht, hdone⟩ := Fault.bind_eq_ok_iff.mp hdone
      cases hdone
      exact controller_identifyMechanical h ht

end Motor

end MotorControl
