/-
What a motor knows, and that it is known everywhere alike.

`step_learns` says what an operation adds to what is known.  Here it is tied to the
controller.  The sample that finds a winding gives the controller one instruction, for the
pole pairs that were found, and nothing else ever sets its pole pairs.  So the motor, its
controller and a mechanical test all take the rotor for the same one: `Agreed` is what
every operation preserves.
-/
import MotorControl.Proofs.Motor.Journal
import MotorControl.Proofs.Motor.Termination
import MotorControl.Proofs.Session.Instructions
import MotorControl.Proofs.SpeedLoop.Settings

namespace MotorControl

open Controller (IsSetting)

/-! ### The pole pairs of a mechanical test -/

namespace MechanicalTest

variable {α C σ : Type} [Scalar α] [Controller C α σ] {board : Board} {t : MechanicalTest α C}

/-- A mechanical test counts the pole pairs it was begun with. -/
theorem polePairs_sample (h : Session.Open board t) (currents : Phases α) (position : α) :
    (t.sample currents position).result.polePairs = t.polePairs := by
  rw [sample_eq h.drive_eq, Traced.bind_result]
  unfold judge
  split
  · rfl
  · split <;> rfl

end MechanicalTest

/-! ### What an operation adds -/

/-- The winding, if it is one that was found. -/
def Finding.winding? : Finding → Option (ElectricalParameters Float32)
  | .winding p => some p
  | _ => none

/-- The pole pairs that a mechanical test counts on. -/
def Occupant.testPairs? {C : Type} : Occupant C → Option Float32
  | .identifyingMechanical session => some session.polePairs
  | _ => none

namespace Motor

section

variable {C σ : Type} [Controller C Float32 σ] {board : Board} {config : Config} {m : Motor C}

theorem instructions_finish {session : ElectricalTest Float32} {controller : C}
    {p : ElectricalParameters Float32}
    (ho : m.occupant = .identifyingElectrical session controller)
    (hend : session.completion = .done (some p)) :
    m.finish.instructions = [.polePairs p.polePairs] := by
  unfold finish
  rw [ho]
  dsimp only
  rw [hend]
  simp [instruct, enter, ElectricalTest.intoBoard, Drive.intoBoard, Drive.instructions_release,
    Event.instruction?, Instruction.map]

/-- What an operation adds to what a motor knows. -/
structure Learns (m : Motor C) (op : Operation σ)
    (done : Traced Float32 (Option Verdict × Motor C)) : Prop where
  /-- It finds at most one thing, and nothing but that changes, apart from the occupant. -/
  learns : ∃ found : Option Finding, (∀ f, Finds m op f ↔ found = some f) ∧
    done.result.2 = { m.learn? found with occupant := done.result.2.occupant }
  /-- Together with a winding that it finds, the controller is given its pole pairs. -/
  tells : ∀ p, Finds m op (.winding p) →
    done.instructions = [.polePairs p.polePairs] ∧
      done.result.2.occupant.controller =
        Controller.obey (.polePairs p.polePairs) m.occupant.controller

theorem learns_of_step (h : m.occupant.Sound board) {op : Operation σ}
    {done : Traced Float32 (Option Verdict × Motor C)} (hdone : m.step op = .ok done) :
    Learns m op done := by
  refine ⟨step_learns h hdone, fun p hfinds => ?_⟩
  cases hfinds with
  | @winding session controller currents position _ ho hpending hend =>
      have hcontroller := controller_step h hdone
      cases hdone
      constructor
      · rw [ho] at h
        rw [Traced.instructions_map]
        unfold sample
        rw [ho]
        dsimp only
        rw [Traced.instructions_bind, ElectricalTest.instructions_sample h, resume, hend,
          if_pos (show (Completion.done (some p)).isDone = true from rfl)]
        exact instructions_finish rfl hend
      · rw [hcontroller]
        dsimp only [usage]
        rw [ho]
        dsimp only
        rw [hend]
        rfl

/-- The pole pairs that the entry of a sample shows are those of the winding that it finds. -/
theorem pairs?_eq_some_iff (h : m.occupant.Sound board) {op : Operation σ}
    {answer : Option Verdict} {n : UInt8} :
    (⟨m, op, answer⟩ : Entry C σ).pairs? = some n ↔
      ∃ p, Finds m op (.winding p) ∧ p.polePairs = n := by
  constructor
  · unfold Entry.pairs?
    split
    · rename_i currents position session controller hop ho
      dsimp only at hop ho
      subst hop
      rw [ho] at h
      split
      · rename_i p hend
        intro hp
        exact ⟨p, .winding ho (Session.Open.pending h) hend, Option.some.inj hp⟩
      · nofun
    · nofun
  · rintro ⟨p, hfinds, rfl⟩
    cases hfinds with
    | winding ho _ hend =>
        unfold Entry.pairs?
        dsimp only
        rw [ho]
        dsimp only
        rw [hend]

omit [Controller C Float32 σ] in
/-- The orders for pole pairs are for those of a winding that was found. -/
theorem latest_pairs?_orders {β : Type} (told : UInt8 → β) (e : Entry C σ) :
    latest (fun i => i.pairs?.map told) (e.orders board) = e.pairs?.map told := by
  have horders : latest (fun i => i.pairs?.map told) (e.orders board) =
      e.pairs?.bind fun n => some (told n) := by
    simp [Entry.orders, latest_append, latest_toList_map, tuning, Instruction.pairs?]
  rw [horders, Option.map_eq_bind]
  rfl

/-- The pole pairs of the motor are those of the winding that was found last. -/
theorem polePairs_step (h : m.occupant.Sound board) {op : Operation σ}
    {done : Traced Float32 (Option Verdict × Motor C)} (hdone : m.step op = .ok done)
    (answer : Option Verdict) :
    done.result.2.polePairs = (⟨m, op, answer⟩ : Entry C σ).pairs?.getD m.polePairs := by
  obtain ⟨found, hfound, hlearns⟩ := step_learns h hdone
  cases hpairs : (⟨m, op, answer⟩ : Entry C σ).pairs? with
  | some n =>
      obtain ⟨p, hp, rfl⟩ := (pairs?_eq_some_iff h).mp hpairs
      rw [hlearns, (hfound _).mp hp]
      rfl
  | none =>
      rw [hlearns]
      cases found with
      | none => rfl
      | some f =>
          cases f with
          | winding p =>
              cases hpairs.symm.trans ((pairs?_eq_some_iff h).mpr ⟨p, (hfound _).mpr rfl, rfl⟩)
          | offset | rotor => rfl

/-! ### Mechanical tests -/

/-- A mechanical test is begun with the pole pairs of the motor, and these stay as they are while it
has the motor. -/
theorem testPairs?_step (h : m.occupant.Sound board) {op : Operation σ}
    {done : Traced Float32 (Option Verdict × Motor C)} (hdone : m.step op = .ok done) {x : Float32}
    (hx : done.result.2.occupant.testPairs? = some x) :
    done.result.2.polePairs = m.polePairs ∧
      (m.occupant.testPairs? = some x ∨ x = Scalar.ofNat m.polePairs.toNat) := by
  cases hs : done.result.2.occupant with
  | idle | aligning | identifyingElectrical | running => rw [hs] at hx; cases hx
  | identifyingMechanical session =>
      obtain ⟨hsame, htests⟩ := tests_of_step h hdone hs
      rw [hs] at hx
      cases hx
      refine ⟨hsame, ?_⟩
      cases htests with
      | had ho => rw [ho]; exact .inl rfl
      | begun _ _ hpairs => exact .inr hpairs
      | beat b ho hsession =>
          rw [ho] at h ⊢
          left
          rw [hsession]
          cases b with
          | sample currents position =>
              exact congrArg some (MechanicalTest.polePairs_sample h currents position).symm
          | service => rfl

/-! ### Agreement -/

/-- The motor and its controller take the rotor for the same one, of which `pairs` reads what the
controller has been told, and so does a mechanical test. -/
structure Agreed {β : Type} (pairs : C → β) (told : UInt8 → β) (m : Motor C) : Prop where
  known : m.polePairs = m.electrical.elim 1 (·.polePairs)
  controller : pairs m.occupant.controller = told m.polePairs
  test : ∀ x, m.occupant.testPairs? = some x → x = Scalar.ofNat m.polePairs.toNat

theorem Agreed.step {β : Type} {pairs : C → β} {told : UInt8 → β}
    (hview : IsSetting (fun _ => True) pairs fun i => i.pairs?.map told)
    (hsound : m.occupant.Sound board) (h : Agreed pairs told m) {op : Operation σ}
    {done : Traced Float32 (Option Verdict × Motor C)} (hdone : m.step op = .ok done) :
    Agreed pairs told done.result.2 := by
  constructor
  · obtain ⟨found, -, hlearns⟩ := step_learns hsound hdone
    rw [hlearns]
    cases found with
    | none => exact h.known
    | some f =>
        cases f with
        | winding p => rfl
        | offset | rotor => exact h.known
  · rw [controller_step hsound hdone, hview.view_after _ _ trivial,
      latest_usage ⟨rfl, rfl, rfl, rfl⟩ hdone, latest_pairs?_orders,
      polePairs_step hsound hdone done.result.1, h.controller, Option.getD_map]
  · intro x hx
    obtain ⟨hsame, hold | hnew⟩ := testPairs?_step hsound hdone hx
    · rw [hsame]
      exact h.test x hold
    · rw [hsame]
      exact hnew

omit [Controller C Float32 σ] in
/-- A motor that is handed a controller for one pole pair begins in agreement. -/
theorem Agreed.of_check {β : Type} {pairs : C → β} {told : UInt8 → β} {controller : C}
    (hm : check board controller config = .ok m) (hpairs : pairs controller = told 1) :
    Agreed pairs told m := by
  obtain ⟨ratio, -, hmotor⟩ := Fault.bind_eq_ok_iff.mp hm
  cases hmotor
  exact ⟨rfl, hpairs, nofun⟩

theorem Agreed.run {β : Type} {pairs : C → β} {told : UInt8 → β}
    (hview : IsSetting (fun _ => True) pairs fun i => i.pairs?.map told) (ops : List (Operation σ)) :
    ∀ (m : Motor C) (t : Traced Float32 (Motor C)), m.occupant.Sound board →
      Agreed pairs told m → m.run ops = .ok t → Agreed pairs told t.result := by
  induction ops with
  | nil => intro m t _ h ht; cases ht; exact h
  | cons op ops ih =>
      intro m t hsound h ht
      obtain ⟨done, rest, hdone, hrest, rfl⟩ := run_cons_eq_ok_iff.mp ht
      exact ih _ rest (keeps_step hsound hdone).sound (h.step hview hsound hdone) hrest

end

/--
**What a motor knows is written by success alone.**  After every run an operation finds at most one
thing, at the sample with which a session ends with a result, and nothing but that changes in what
is known.  If the controller was handed over for one pole pair, then after every run the motor, its
controller, what is known of the winding and a mechanical test agree on the pole pairs.
-/
theorem learned_by_success_alone {board : Board} {config : Config} :
    (∀ {C σ : Type} [Controller C Float32 σ] {controller : C} {m : Motor C}
      {ops : List (Operation σ)} {t op done},
      check board controller config = .ok m → m.run ops = .ok t → t.result.step op = .ok done →
      Learns t.result op done) ∧
    (∀ {controller : TorqueLoop Float32} {m ops t},
      controller.polePairs = 1 → check board controller config = .ok m → m.run ops = .ok t →
      Agreed TorqueLoop.polePairs (fun n => Scalar.ofNat n.toNat) t.result) ∧
    (∀ {O : Type} [LoopObserver O Float32] {controller : SpeedLoop Float32 O} {m ops t},
      controller.polePairs = 1 → controller.torque.polePairs = 1 →
      check board controller config = .ok m → m.run ops = .ok t →
      Agreed (fun s => (s.polePairs, s.torque.polePairs))
          (fun n => (Scalar.ofNat n.toNat, Scalar.ofNat n.toNat)) t.result ∧
        ∀ session, t.result.occupant = .identifyingMechanical session →
          session.polePairs = session.controller.polePairs ∧
            session.polePairs = session.controller.torque.polePairs) := by
  refine ⟨?_, ?_, ?_⟩
  · intro C σ _ controller m ops t op done hm ht hdone
    exact learns_of_step (reached_spec hm ht).2.1 hdone
  · intro controller m ops t hpairs hm ht
    exact Agreed.run TorqueLoop.isSetting_polePairs ops m t (Assembled.of_check hm).sound
      (.of_check hm hpairs) ht
  · intro O _ controller m ops t hpairs htorque hm ht
    have hagreed := Agreed.run SpeedLoop.isSetting_polePairs ops m t (Assembled.of_check hm).sound
      (.of_check hm (Prod.ext hpairs htorque)) ht
    refine ⟨hagreed, fun session hsession => ?_⟩
    have htest := hagreed.test session.polePairs (by rw [hsession]; rfl)
    have hcontroller := hagreed.controller
    rw [hsession, ← htest] at hcontroller
    exact ⟨(Prod.ext_iff.mp hcontroller).1.symm, (Prod.ext_iff.mp hcontroller).2.symm⟩

/-- An alignment that settles at once finds the offset at its first sample, and a mechanical test of
a fresh motor counts on one pole pair, as the controller does. -/
theorem learned_by_first_sample :
    (∃ (m : Motor (TorqueLoop Float32)) (t done : _),
      check ⟨⟨1000⟩⟩ .new { Config.standard with alignment := ⟨0.2, 0⟩ } = .ok m ∧
      m.run [.align] = .ok t ∧ t.result.step (.sample ⟨0, 0, 0⟩ 0.25) = .ok done ∧
      done.result.2.rotorOffset = some 0.25 ∧
      Agreed TorqueLoop.polePairs (fun n => Scalar.ofNat n.toNat) t.result) ∧
    ∃ (s : SpeedLoop Float32 Unit) (m : Motor (SpeedLoop Float32 Unit)) (t : _),
      SpeedLoop.check () ⟨2⟩ ⟨1000⟩ ⟨1, by decide, by decide⟩ = .ok s ∧
      check ⟨⟨1000⟩⟩ s .standard = .ok m ∧
      m.run [.identifyMechanical rfl "60 0.05" 0] = .ok t ∧
      ∃ session, t.result.occupant = .identifyingMechanical session ∧
        session.polePairs = session.controller.torque.polePairs := by
  constructor
  · obtain ⟨hlearns, hagreed, -⟩ := @learned_by_success_alone ⟨⟨1000⟩⟩
      { Config.standard with alignment := ⟨0.2, 0⟩ }
    obtain ⟨m, hm⟩ : ∃ m, check ⟨⟨1000⟩⟩ (.new : TorqueLoop Float32)
        { Config.standard with alignment := ⟨0.2, 0⟩ } = .ok m := ⟨_, rfl⟩
    obtain ⟨t, ht⟩ : ∃ t, m.run [.align] = .ok t := ⟨_, rfl⟩
    obtain ⟨done, hdone⟩ : ∃ done, t.result.step (.sample ⟨0, 0, 0⟩ 0.25) = .ok done := ⟨_, rfl⟩
    refine ⟨m, t, done, hm, ht, hdone, ?_, hagreed rfl hm ht⟩
    obtain ⟨found, hfound, hresult⟩ := (hlearns hm ht hdone).learns
    have hsettled : (⟨1000⟩ : Hertz).samplesIn (0 : Float32) = 1 := by decide +kernel
    have hoffset : Finds t.result (.sample ⟨0, 0, 0⟩ 0.25) (.offset 0.25) := by
      cases hm
      cases ht
      refine .offset rfl rfl ?_
      rw [Alignment.sample_of_last rfl hsettled]
    rw [hresult, (hfound _).mp hoffset]
    rfl
  · obtain ⟨-, -, hspeed⟩ := @learned_by_success_alone ⟨⟨1000⟩⟩ .standard
    have hparams : Command.twoPositive "60 0.05" .invalidTargetSpeed .invalidTorqueConstant
        = .ok (60, 0.05) := by
      decide +kernel
    obtain ⟨s, hs⟩ : ∃ s : SpeedLoop Float32 Unit,
        SpeedLoop.check () ⟨2⟩ ⟨1000⟩ ⟨1, by decide, by decide⟩ = .ok s := by
      rw [SpeedLoop.check, if_pos (by decide +kernel)]
      exact ⟨_, rfl⟩
    obtain ⟨-, hinitial⟩ := SpeedLoop.check_eq_ok_iff.1 hs
    obtain ⟨m, hm⟩ : ∃ m, check ⟨⟨1000⟩⟩ s .standard = .ok m := ⟨_, rfl⟩
    have hassembled : Assembled ⟨⟨1000⟩⟩ .standard m := .of_check hm
    obtain ⟨tested, htested, -⟩ := identifyMechanical_of_standard
      (congrArg Config.mechanical hassembled.config_eq) hparams 0
    obtain ⟨begun, controller, -, hresult, -⟩ :=
      identifyMechanical_spec hassembled.sound hparams htested
    obtain ⟨t, ht, hoccupant⟩ : ∃ t, m.run [.identifyMechanical rfl "60 0.05" 0] = .ok t ∧
        t.result.occupant = .identifyingMechanical begun.result :=
      ⟨_, run_cons_eq_ok_iff.mpr
          ⟨_, _, Fault.bind_eq_ok_iff.mpr ⟨tested, htested, rfl⟩, rfl, rfl⟩,
        congrArg (fun r => r.2.occupant) hresult⟩
    obtain ⟨-, htest⟩ := hspeed (by rw [hinitial]; rfl) (by rw [hinitial]; rfl) hm ht
    exact ⟨s, m, t, hs, hm, ht, begun.result, hoccupant, (htest _ hoccupant).2⟩

end Motor

end MotorControl
