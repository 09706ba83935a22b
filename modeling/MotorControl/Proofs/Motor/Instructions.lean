/-
The instructions of an operation are the calls it makes.

`usage` lists what an operation does with the controller of a motor, and the events of
the operation let its instructions be seen.  The two agree: whoever only watches the
events knows every instruction that the controller was given, in its order.  So a
setting of the controller can be read off the events of a run.
-/
import MotorControl.Proofs.Controller.Setting
import MotorControl.Proofs.Motor.Usage
import MotorControl.Proofs.Session.Instructions

namespace MotorControl

open Controller (Call IsSetting)

/-- The instruction that can be seen of a call on a controller of the type `C`. -/
def Controller.Call.shown? (C : Type) {α σ : Type} [Controller C α σ] :
    Call α σ → Option (Instruction α (Reference α))
  | .instruct i => some (i.map (Controller.reference C))
  | .sample .. => none

theorem Drive.instructions_intoBoard {α : Type} (d : Drive) :
    (d.intoBoard : Traced α Board).instructions = [] := by
  unfold intoBoard
  rw [Traced.instructions_bind, instructions_release]
  rfl

/-! ### The occupants -/

section

variable {C σ : Type} [Controller C Float32 σ]

theorem ClosedLoop.instructions_intoParts (l : ClosedLoop C) :
    (l.intoParts : Traced Float32 (Board × C)).instructions = [.disable] := by
  unfold intoParts disable
  cases l.enabled <;> rfl

theorem ClosedLoop.instructions_sample [Controller.Reticent C Float32 σ] (l : ClosedLoop C)
    (currents : Phases Float32) (position : Float32) :
    (l.sample currents position).instructions = [] := by
  unfold sample
  simp only [Traced.instructions_bind, Traced.instructions_emit, Traced.instructions_pure,
    Controller.Reticent.instructions_calculate]
  rfl

theorem MechanicalTest.instructions_intoParts (t : MechanicalTest Float32 C) :
    (t.intoParts : Traced Float32 (Board × C)).instructions = [.disable] := by
  unfold intoParts
  rw [Traced.instructions_bind, Drive.instructions_intoBoard]
  rfl

theorem Occupant.instructions_dismantle (o : Occupant C) :
    o.dismantle.instructions = o.parting.filterMap (Call.shown? C) := by
  cases o with
  | idle board controller => rfl
  | aligning session controller =>
      rw [dismantle, Traced.instructions_bind, Traced.instructions_bind, Alignment.intoBoard,
        Drive.instructions_intoBoard]
      rfl
  | identifyingElectrical session controller =>
      rw [dismantle, Traced.instructions_bind, Traced.instructions_bind, ElectricalTest.intoBoard,
        Drive.instructions_intoBoard]
      rfl
  | identifyingMechanical session => exact session.instructions_intoParts
  | running loop => exact loop.instructions_intoParts

end

namespace Motor

section

variable {C σ : Type} [Controller C Float32 σ] {board : Board} {m : Motor C}

/-! ### One operation -/

theorem instructions_align (m : Motor C) :
    m.align.instructions = m.occupant.parting.filterMap (Call.shown? C) := by
  rw [align, Traced.instructions_bind, m.occupant.instructions_dismantle]
  exact List.append_nil _

theorem instructions_identifyElectrical {t : Traced Float32 (Motor C)}
    (ht : m.identifyElectrical = .ok t) :
    t.instructions = m.occupant.parting.filterMap (Call.shown? C) := by
  obtain ⟨begun, hbegin, ht⟩ := Fault.bind_eq_ok_iff.mp ht
  obtain ⟨model, -, hbegun⟩ := Fault.bind_eq_ok_iff.mp hbegin
  cases hbegun
  cases ht
  rw [Traced.instructions_bind, m.occupant.instructions_dismantle]
  exact List.append_nil _

theorem instructions_start (h : m.occupant.Sound board) (params : String) :
    (m.start params).instructions =
      (m.usage board (.start params)).filterMap (Call.shown? C) := by
  unfold start
  dsimp only [usage]
  cases Command.twoPositive params .invalidResistance .invalidInductance with
  | error e => rfl
  | ok found =>
      dsimp only
      rw [Traced.instructions_bind, m.occupant.instructions_dismantle, List.filterMap_append,
        ← h.dismantle.1]
      rfl

theorem instructions_setPoint (m : Motor C) (target : σ) :
    (m.setPoint target).instructions =
      (m.usage board (.setPoint target)).filterMap (Call.shown? C) := by
  unfold setPoint
  dsimp only [usage]
  cases m.occupant <;> rfl

theorem instructions_service (m : Motor C) :
    m.service.instructions = (m.usage board .service).filterMap (Call.shown? C) := by
  unfold service
  dsimp only [usage]
  cases m.occupant <;> rfl

theorem instructions_sample [Controller.Reticent C Float32 σ] (h : m.occupant.Sound board)
    (currents : Phases Float32) (position : Float32) :
    (m.sample currents position).instructions =
      (m.usage board (.sample currents position)).filterMap (Call.shown? C) := by
  unfold sample
  dsimp only [usage]
  cases ho : m.occupant with
  | idle board' controller => rfl
  | aligning session controller =>
      rw [ho] at h
      dsimp only
      rw [Traced.instructions_bind, Alignment.instructions_sample h, resume]
      split
      · unfold finish
        dsimp only
        split <;> simp [Alignment.intoBoard, Drive.instructions_intoBoard, enter,
          Event.instruction?]
      · rfl
  | identifyingElectrical session controller =>
      rw [ho] at h
      dsimp only
      rw [Traced.instructions_bind, ElectricalTest.instructions_sample h, resume]
      cases hend : (session.sample currents position).result.completion with
      | pending => rfl
      | done result =>
          rw [if_pos (show (Completion.done result).isDone = true from rfl)]
          unfold finish
          dsimp only
          rw [hend]
          cases result <;> simp [ElectricalTest.intoBoard, Drive.instructions_intoBoard, enter,
            Event.instruction?, Call.shown?]
  | identifyingMechanical session =>
      rw [ho] at h
      dsimp only
      rw [Traced.instructions_bind, MechanicalTest.instructions_sample h, resume]
      cases hend : (session.sample currents position).result.completion.isDone with
      | false => rfl
      | true =>
          rw [if_pos rfl, if_pos rfl, if_pos rfl]
          unfold finish
          dsimp only
          split
          · simp only [Traced.instructions_bind, MechanicalTest.instructions_intoParts]
            rfl
          · simp only [Traced.instructions_bind, MechanicalTest.instructions_intoParts]
            rfl
  | running loop =>
      show ((fun l => { m with occupant := Occupant.running l }) <$>
        loop.sample currents position).instructions = []
      rw [Traced.instructions_map, loop.instructions_sample]

end

section

variable {C : Type} [Controller C Float32 Float32] {board : Board} {m : Motor C}

theorem instructions_setSpeedTunings (m : Motor C) (t : Tunings Float32) :
    (m.setSpeedTunings t).instructions =
      (m.usage board (.setSpeedTunings rfl t)).filterMap (Call.shown? C) := by
  unfold setSpeedTunings
  dsimp only [usage]
  cases m.occupant <;> rfl

theorem instructions_readyForTest (m : Motor C) (board : Board) (controller : C) :
    (m.readyForTest board controller).instructions =
      List.filterMap (Call.shown? C) (.instruct .reset ::
        m.electrical.toList.map fun found =>
          .instruct (m.tuning board found.resistance found.inductance)) := by
  unfold readyForTest
  cases m.electrical <;> rfl

theorem instructions_identifyMechanical (h : m.occupant.Sound board) {params : String}
    {position : Float32} {t : Traced Float32 (Verdict × Motor C)}
    (ht : m.identifyMechanical params position = .ok t) :
    t.instructions =
      (m.usage board (.identifyMechanical rfl params position)).filterMap (Call.shown? C) := by
  unfold identifyMechanical at ht
  dsimp only [usage]
  cases hparams : Command.twoPositive params .invalidTargetSpeed .invalidTorqueConstant with
  | error e =>
      rw [hparams] at ht
      cases ht
      rfl
  | ok found =>
      rw [hparams] at ht
      obtain ⟨begun, hbegin, ht⟩ := Fault.bind_eq_ok_iff.mp ht
      cases ht
      obtain ⟨fit, -, hbegin⟩ := Fault.bind_eq_ok_iff.mp hbegin
      cases hbegin
      dsimp only
      rw [Traced.instructions_bind, Traced.instructions_bind, Traced.instructions_bind,
        Traced.instructions_pure, m.occupant.instructions_dismantle, instructions_readyForTest,
        List.filterMap_append, List.filterMap_append, List.append_nil, ← h.dismantle.1]
      rfl

end

/--
**The instructions that an operation shows are those it gives to the controller.**
-/
theorem instructions_step {C σ : Type} [Controller C Float32 σ] [Controller.Reticent C Float32 σ]
    {board : Board} {m : Motor C} (h : m.occupant.Sound board) {op : Operation σ}
    {done : Traced Float32 (Option Verdict × Motor C)} (hdone : m.step op = .ok done) :
    done.instructions = (m.usage board op).filterMap (Call.shown? C) := by
  cases op with
  | align =>
      cases hdone
      exact (Traced.instructions_map _ _).trans m.instructions_align
  | identifyElectrical =>
      obtain ⟨t, ht, hdone⟩ := Fault.bind_eq_ok_iff.mp hdone
      cases hdone
      exact (Traced.instructions_map _ _).trans (instructions_identifyElectrical ht)
  | start params =>
      cases hdone
      exact (Traced.instructions_map _ _).trans (instructions_start h params)
  | setPoint target =>
      cases hdone
      exact (Traced.instructions_map _ _).trans (m.instructions_setPoint target)
  | service =>
      cases hdone
      exact (Traced.instructions_map _ _).trans m.instructions_service
  | sample currents position =>
      cases hdone
      exact (Traced.instructions_map _ _).trans (instructions_sample h currents position)
  | setSpeedTunings isSpeed t =>
      cases isSpeed
      cases hdone
      exact (Traced.instructions_map _ _).trans (m.instructions_setSpeedTunings t)
  | identifyMechanical isSpeed params position =>
      cases isSpeed
      obtain ⟨t, ht, hdone⟩ := Fault.bind_eq_ok_iff.mp hdone
      cases hdone
      exact (Traced.instructions_map _ _).trans (instructions_identifyMechanical h ht)

/-! ### Runs -/

section

variable {C σ β : Type} [Controller C Float32 σ] [Controller.Reticent C Float32 σ] {board : Board}
  {m : Motor C}

/-- What an operation tells the controller about a setting can be seen in its events. -/
theorem latest_said_usage {told? : Instruction Float32 σ → Option β}
    {shown? : Instruction Float32 (Reference Float32) → Option β}
    (hshown : ∀ i, shown? (i.map (Controller.reference C)) = told? i)
    (h : m.occupant.Sound board) {op : Operation σ}
    {done : Traced Float32 (Option Verdict × Motor C)} (hdone : m.step op = .ok done) :
    latest (Call.said told?) (m.usage board op) =
      latest (fun e => e.instruction?.bind shown?) done.events := by
  have hsaid (k : Call Float32 σ) : k.said told? = (k.shown? C).bind shown? := by
    cases k with
    | instruct i => exact (hshown i).symm
    | sample currents position => rfl
  calc latest (Call.said told?) (m.usage board op)
      = latest (fun k => (Call.shown? C k).bind shown?) (m.usage board op) :=
        latest_congr fun k _ => hsaid k
    _ = latest shown? done.instructions := by
        rw [instructions_step h hdone, latest, latest, List.filterMap_filterMap]
    _ = latest (fun e => e.instruction?.bind shown?) done.events := by
        rw [Traced.instructions, latest, latest, List.filterMap_filterMap]

/-- After every run a setting is what the last instruction of its kind among the events said, or
what it was before the run if there was none. -/
theorem view_of_events {Keeps : C → Prop} {view : C → β} {told? : Instruction Float32 σ → Option β}
    (hview : IsSetting Keeps view told?)
    (shown? : Instruction Float32 (Reference Float32) → Option β)
    (hshown : ∀ i, shown? (i.map (Controller.reference C)) = told? i) (ops : List (Operation σ)) :
    ∀ (m : Motor C) (t : Traced Float32 (Motor C)), m.occupant.Sound board →
      Keeps m.occupant.controller → m.run ops = .ok t →
      view t.result.occupant.controller =
        (latest (fun e => e.instruction?.bind shown?) t.events).getD
          (view m.occupant.controller) := by
  induction ops with
  | nil => intro m t _ _ ht; cases ht; rfl
  | cons op ops ih =>
      intro m t h hkeeps ht
      obtain ⟨done, rest, hdone, hrest, rfl⟩ := run_cons_eq_ok_iff.mp ht
      have hafter := controller_step h hdone
      have hnext := ih _ rest (keeps_step h hdone).sound
        (hafter ▸ hview.keeps_after _ hkeeps) hrest
      rw [Traced.precededBy_events, latest_append, Option.getD_or]
      refine hnext.trans ?_
      rw [hafter, hview.view_after _ _ hkeeps, latest_said_usage hshown h hdone]

end

end Motor

end MotorControl
