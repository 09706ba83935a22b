/-
The journal of a run.

What an operation comes to depends on the motor it is carried out on, and a command may
be refused.  The journal of a run keeps both: every operation that was carried out, with
the motor before it and with its answer.  `Entry.orders` reads from an entry what the
controller was ordered to keep to, and leaves out what only switches it on and off.

Whatever part of a controller is a setting can be read off the journal.  It is what the
last order of its kind said, whatever resets, sessions and refusals came in between.
-/
import MotorControl.Proofs.Controller.Setting
import MotorControl.Proofs.Motor.Usage

namespace MotorControl

open Controller (Call IsSetting)

namespace Motor

variable {C σ β : Type} [Controller C Float32 σ] {board : Board} {config : Config} {m : Motor C}

/-! ### What never changes -/

/-- A motor that was assembled on a board for a configuration, at any later time. -/
structure Assembled (board : Board) (config : Config) (m : Motor C) : Prop where
  sound : m.occupant.Sound board
  config_eq : m.config = config
  currentRatio : OuterRatio.check config.currentRatio = .ok m.currentRatio

namespace Assembled

theorem of_check {controller : C} (hm : check board controller config = .ok m) :
    Assembled board config m := by
  obtain ⟨ratio, hratio, hmotor⟩ := Fault.bind_eq_ok_iff.mp hm
  cases hmotor
  exact ⟨rfl, rfl, hratio⟩

/-- The number of samples in one of the outer loop is the configured one. -/
theorem currentRatio_value (h : Assembled board config m) :
    m.currentRatio.value = config.currentRatio := by
  have hratio := h.currentRatio
  unfold OuterRatio.check at hratio
  split at hratio
  · exact congrArg OuterRatio.value (Except.ok.inj hratio).symm
  · cases hratio

theorem step (h : Assembled board config m) {op : Operation σ}
    {done : Traced Float32 (Option Verdict × Motor C)} (hdone : m.step op = .ok done) :
    Assembled board config done.result.2 := by
  have hkeeps := keeps_step h.sound hdone
  refine ⟨hkeeps.sound, hkeeps.config.trans h.config_eq, ?_⟩
  obtain ⟨found, -, hlearns⟩ := step_learns h.sound hdone
  rw [h.currentRatio, hlearns]
  cases found with
  | none => rfl
  | some f => cases f <;> rfl

end Assembled

/-! ### Entries -/

/-- An operation of a run, with the motor before it and with its answer. -/
structure Entry (C σ : Type) where
  before : Motor C
  operation : Operation σ
  answer : Option Verdict

namespace Entry

omit [Controller C Float32 σ]

/-- Whether it is a command that was accepted. -/
def accepted (e : Entry C σ) : Bool :=
  match e.answer with
  | some (.ok ()) => true
  | _ => false

/-- The two numbers that `params` gives, if the command that carries them was accepted. -/
def numbers? (e : Entry C σ) (params : String) (first second : CommandError) :
    Option (Float32 × Float32) :=
  if e.accepted then (Command.twoPositive params first second).toOption else none

theorem numbers?_of_ok {e : Entry C σ} {params : String} {first second : CommandError}
    {found : Float32 × Float32} (haccepted : e.answer = some (.ok ()))
    (hparams : Command.twoPositive params first second = .ok found) :
    e.numbers? params first second = some found := by
  rw [numbers?, accepted, haccepted, hparams]
  rfl

/-- The winding that an accepted command sets the current gains for: the one that a start gives, or
the one that is known to a mechanical test. -/
def winding? (e : Entry C σ) : Option (Quantity .ohm Float32 × Quantity .millihenry Float32) :=
  match e.operation with
  | .start params =>
    (e.numbers? params .invalidResistance .invalidInductance).map fun found =>
      (⟨found.1⟩, ⟨found.2⟩)
  | .identifyMechanical _ params _ =>
    (e.numbers? params .invalidTargetSpeed .invalidTorqueConstant).bind fun _ =>
      e.before.electrical.map fun known => (known.resistance, known.inductance)
  | _ => none

/-- The argument of an accepted set point. -/
def setPoint? (e : Entry C σ) : Option σ :=
  match e.operation with
  | .setPoint target => if e.accepted then some target else none
  | _ => none

/-- The speed at which an accepted mechanical test is to spin the rotor. -/
def testSpeed? (e : Entry C σ) : Option σ :=
  match e.operation with
  | .identifyMechanical isSpeed params _ =>
    (e.numbers? params .invalidTargetSpeed .invalidTorqueConstant).map fun found =>
      cast isSpeed.symm (Quantity.ofRpm found.1).value
  | _ => none

/-- What an accepted command makes the motor keep to. -/
def target? (e : Entry C σ) : Option σ := e.setPoint?.or e.testSpeed?

/-- The pole pairs that a sample found. -/
def pairs? (e : Entry C σ) : Option UInt8 :=
  match e.operation, e.before.occupant with
  | .sample currents position, .identifyingElectrical session _ =>
    match (session.sample currents position).result.completion with
    | .done (some found) => some found.polePairs
    | _ => none
  | _, _ => none

/-- The speed gains that an accepted command gives. -/
def speedTunings? (e : Entry C σ) : Option (Tunings Float32) :=
  match e.operation with
  | .setSpeedTunings _ t => if e.accepted then some t else none
  | _ => none

/-- What the controller was ordered to keep to.  A test that sets both gains and a speed sets the
gains first. -/
def orders (board : Board) (e : Entry C σ) : List (Instruction Float32 σ) :=
  (e.winding?.toList.map fun winding => e.before.tuning board winding.1 winding.2) ++
    e.target?.toList.map .setPoint ++ e.pairs?.toList.map .polePairs ++
    e.speedTunings?.toList.map .speedTunings

end Entry

/-- The entries of a run, up to the first operation that fails. -/
def journal (m : Motor C) : List (Operation σ) → List (Entry C σ)
  | [] => []
  | op :: ops =>
    match m.step op with
    | .ok done => ⟨m, op, done.result.1⟩ :: done.result.2.journal ops
    | .error _ => []

theorem journal_cons {op : Operation σ} {done : Traced Float32 (Option Verdict × Motor C)}
    (hdone : m.step op = .ok done) (ops : List (Operation σ)) :
    m.journal (op :: ops) = ⟨m, op, done.result.1⟩ :: done.result.2.journal ops := by
  rw [journal, hdone]

/-- The operations of a run were carried out on motors that the first one became. -/
theorem assembled_of_mem_journal (ops : List (Operation σ)) :
    ∀ m : Motor C, Assembled board config m → ∀ e ∈ m.journal ops,
      Assembled board config e.before := by
  induction ops with
  | nil => intro m _ e he; cases he
  | cons op ops ih =>
      intro m h e he
      cases hstep : m.step op with
      | error fault =>
          rw [journal, hstep] at he
          cases he
      | ok done =>
          rw [journal_cons hstep] at he
          cases he with
          | head => exact h
          | tail _ he => exact ih _ (h.step hstep) e he

/-! ### Orders -/

/-- What is said about a setting by instructions that do not only switch the controller. -/
structure IsOrder (told? : Instruction Float32 σ → Option β) : Prop where
  enable : told? .enable = none
  disable : told? .disable = none
  reset : told? .reset = none
  service : told? .service = none

section

variable {told? : Instruction Float32 σ → Option β}

omit [Controller C Float32 σ] in
theorem latest_parting (h : IsOrder told?) (o : Occupant C) :
    latest (Call.said told?) o.parting = none := by
  unfold Occupant.parting
  split
  · rfl
  · rw [latest_singleton]
    exact h.disable

theorem answer_start {params : String} {found : Float32 × Float32}
    (hparams : Command.twoPositive params .invalidResistance .invalidInductance = .ok found) :
    (m.start params).result.1 = .ok () := by
  unfold start
  rw [hparams]
  rfl

omit [Controller C Float32 σ] in
/-- An accepted start orders the gains for its winding. -/
theorem Entry.orders_start {e : Entry C σ} {params : String} {found : Float32 × Float32}
    (hoperation : e.operation = .start params) (haccepted : e.answer = some (.ok ()))
    (hparams : Command.twoPositive params .invalidResistance .invalidInductance = .ok found) :
    e.orders board = [e.before.tuning board ⟨found.1⟩ ⟨found.2⟩] := by
  have hnumbers := numbers?_of_ok haccepted hparams
  simp [orders, winding?, target?, setPoint?, testSpeed?, pairs?, speedTunings?, hoperation,
    hnumbers]

theorem latest_usage_start (h : IsOrder told?) (params : String) :
    latest (Call.said told?) (m.usage board (.start params)) =
      latest told? (Entry.orders board ⟨m, .start params, some (m.start params).result.1⟩) := by
  cases hparams : Command.twoPositive params .invalidResistance .invalidInductance with
  | error e =>
      rw [usage, start, hparams]
      rfl
  | ok found =>
      rw [Entry.orders_start rfl (congrArg some (answer_start hparams)) hparams, usage, hparams]
      simp [latest_append, latest_cons, latest_parting h, Call.said, h.enable, h.reset]

theorem latest_usage_setPoint (told? : Instruction Float32 σ → Option β) (target : σ) :
    latest (Call.said told?) (m.usage board (.setPoint target)) = latest told?
      (Entry.orders board ⟨m, .setPoint target, some (m.setPoint target).result.1⟩) := by
  unfold setPoint
  dsimp only [usage]
  cases m.occupant with
  | running | idle | aligning | identifyingElectrical | identifyingMechanical => rfl

/-- An interrupt has no order to carry out. -/
theorem latest_usage_service (h : IsOrder told?) :
    latest (Call.said told?) (m.usage board .service) = none := by
  dsimp only [usage]
  cases m.occupant with
  | running | identifyingMechanical => exact (latest_singleton _ _).trans h.service
  | idle | aligning | identifyingElectrical => rfl

/-- A sample orders the pole pairs that it has found. -/
theorem latest_usage_sample (h : IsOrder told?) (currents : Phases Float32) (position : Float32)
    (answer : Option Verdict) :
    latest (Call.said told?) (m.usage board (.sample currents position)) =
      latest told? (Entry.orders board ⟨m, .sample currents position, answer⟩) := by
  show _ = latest told? ([] ++ [] ++ (Entry.pairs? _).toList.map .polePairs ++ [])
  dsimp only [usage, Entry.pairs?]
  cases m.occupant with
  | identifyingElectrical session controller =>
      dsimp only
      cases (session.sample currents position).result.completion with
      | pending => rfl
      | done result => cases result <;> rfl
  | identifyingMechanical session =>
      dsimp only
      split
      · simp [latest_cons, Call.said, h.disable]
      · rfl
  | idle | aligning | running => rfl

section

variable {C : Type} [Controller C Float32 Float32] {m : Motor C}
  {told? : Instruction Float32 Float32 → Option β}

theorem latest_usage_setSpeedTunings (told? : Instruction Float32 Float32 → Option β)
    (t : Tunings Float32) :
    latest (Call.said told?) (m.usage board (.setSpeedTunings rfl t)) = latest told?
      (Entry.orders board ⟨m, .setSpeedTunings rfl t, some (m.setSpeedTunings t).result.1⟩) := by
  unfold setSpeedTunings
  dsimp only [usage]
  cases m.occupant with
  | idle | running | aligning | identifyingElectrical | identifyingMechanical => rfl

theorem answer_identifyMechanical {params : String} {position : Float32}
    {found : Float32 × Float32}
    (hparams : Command.twoPositive params .invalidTargetSpeed .invalidTorqueConstant = .ok found)
    {t : Traced Float32 (Verdict × Motor C)} (ht : m.identifyMechanical params position = .ok t) :
    t.result.1 = .ok () := by
  rw [identifyMechanical, hparams] at ht
  obtain ⟨begun, -, ht⟩ := Fault.bind_eq_ok_iff.mp ht
  cases ht
  rfl

omit [Controller C Float32 Float32] in
/-- An accepted mechanical test orders the gains for the winding, if it is known at all, and then
the speed. -/
theorem Entry.orders_identifyMechanical {e : Entry C Float32} {params : String}
    {position : Float32} {found : Float32 × Float32}
    (hoperation : e.operation = .identifyMechanical rfl params position)
    (haccepted : e.answer = some (.ok ()))
    (hparams : Command.twoPositive params .invalidTargetSpeed .invalidTorqueConstant = .ok found) :
    e.orders board =
      (e.before.electrical.toList.map fun known =>
        e.before.tuning board known.resistance known.inductance) ++
        [.setPoint (Quantity.ofRpm found.1).value] := by
  have hnumbers := numbers?_of_ok haccepted hparams
  cases hknown : e.before.electrical <;>
    simp [orders, winding?, target?, setPoint?, testSpeed?, pairs?, speedTunings?, hoperation,
      hnumbers, hknown]

theorem latest_usage_identifyMechanical (h : IsOrder told?) {params : String} {position : Float32}
    {t : Traced Float32 (Verdict × Motor C)} (ht : m.identifyMechanical params position = .ok t) :
    latest (Call.said told?) (m.usage board (.identifyMechanical rfl params position)) =
      latest told? (Entry.orders board
        ⟨m, .identifyMechanical rfl params position, some t.result.1⟩) := by
  cases hparams : Command.twoPositive params .invalidTargetSpeed .invalidTorqueConstant with
  | error e =>
      rw [identifyMechanical, hparams] at ht
      cases ht
      rw [usage, hparams]
      rfl
  | ok found =>
      rw [Entry.orders_identifyMechanical rfl
        (congrArg some (answer_identifyMechanical hparams ht)) hparams, usage, hparams]
      cases m.electrical <;>
        simp [latest_append, latest_cons, latest_parting h, Call.said, h.enable, h.reset]

end

/-- What an operation tells the controller about a setting is what the entry of the operation
orders. -/
theorem latest_usage (h : IsOrder told?) {op : Operation σ}
    {done : Traced Float32 (Option Verdict × Motor C)} (hdone : m.step op = .ok done) :
    latest (Call.said told?) (m.usage board op) =
      latest told? (Entry.orders board ⟨m, op, done.result.1⟩) := by
  cases op with
  | align | identifyElectrical => exact latest_parting h _
  | start params => cases hdone; exact latest_usage_start h params
  | setPoint target => cases hdone; exact latest_usage_setPoint told? target
  | service => exact latest_usage_service h
  | sample currents position => exact latest_usage_sample h currents position _
  | setSpeedTunings isSpeed t =>
      cases isSpeed
      cases hdone
      exact latest_usage_setSpeedTunings told? t
  | identifyMechanical isSpeed params position =>
      cases isSpeed
      obtain ⟨t, ht, hdone⟩ := Fault.bind_eq_ok_iff.mp hdone
      cases hdone
      exact latest_usage_identifyMechanical h ht

end

/-! ### Runs -/

/--
**What a motor's controller keeps to is what the last order of its kind in the journal said**, or
what it kept to before the run if there was none.
-/
theorem view_run {Keeps : C → Prop} {view : C → β} {told? : Instruction Float32 σ → Option β}
    (hview : IsSetting Keeps view told?) (horder : IsOrder told?) (ops : List (Operation σ)) :
    ∀ (m : Motor C) (t : Traced Float32 (Motor C)), m.occupant.Sound board →
      Keeps m.occupant.controller → m.run ops = .ok t →
      view t.result.occupant.controller =
        (latest (fun e => latest told? (e.orders board)) (m.journal ops)).getD
          (view m.occupant.controller) := by
  induction ops with
  | nil => intro m t _ _ ht; cases ht; rfl
  | cons op ops ih =>
      intro m t h hkeeps ht
      obtain ⟨done, rest, hdone, hrest, rfl⟩ := run_cons_eq_ok_iff.mp ht
      have hafter := controller_step h hdone
      have hnext := ih _ rest (keeps_step h hdone).sound
        (hafter ▸ hview.keeps_after _ hkeeps) hrest
      rw [journal_cons hdone, latest_cons, Option.getD_or]
      refine hnext.trans ?_
      rw [hafter, hview.view_after _ _ hkeeps, latest_usage horder hdone]

end Motor

end MotorControl
