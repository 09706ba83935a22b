/-
Sessions in a motor that is left alone.

A motor that is given nothing but beats does to its occupant what the beats do to the
session, until the session is done.  At that beat the motor becomes idle, and an idle
motor stays as it is.  So the motor is idle exactly from the sample on at which the
session, run by itself, comes to its end.
-/
import MotorControl.Proofs.Motor.BoardState
import MotorControl.SpeedLoop

namespace MotorControl

/-- A beat as an operation on a motor. -/
def Beat.toOperation {σ : Type} : Beat Float32 → Operation σ
  | .sample currents position => .sample currents position
  | .service => .service

namespace Motor

section

variable {C σ : Type} [Controller C Float32 σ] {board : Board} {m : Motor C}

theorem run_beat (m : Motor C) (b : Beat Float32) (bs : List (Beat Float32)) :
    m.run ((b :: bs).map Beat.toOperation) =
      Traced.precededBy (m.beat b).events <$> (m.beat b).result.run (bs.map Beat.toOperation) := by
  have hstep : m.step b.toOperation = silently (m.beat b) := by cases b <;> rfl
  rw [List.map_cons, run_cons, hstep]
  show Traced.precededBy ((fun m' => ((none : Option Verdict), m')) <$> m.beat b).events
    <$> (m.beat b).result.run _ = _
  rw [Traced.map_events]

/-- Nothing happens to an idle motor. -/
theorem run_beats_of_idle {controller : C} (h : m.occupant = .idle board controller)
    (bs : List (Beat Float32)) : m.run (bs.map Beat.toOperation) = .ok (pure m) := by
  induction bs with
  | nil => rfl
  | cons b bs ih =>
      have hbeat : m.beat b = pure m := by
        cases b with
        | sample currents position => rw [beat, sample, h]
        | service => rw [beat, service, h]
      rw [run_beat, hbeat]
      show Traced.precededBy [] <$> m.run _ = _
      rw [ih]
      rfl

/-- The motor, left alone, is busy until a session is done, and idle from then on. -/
def Awaits {S β : Type} [Session S Float32 β] (m : Motor C) (kind : Activity) (s : S) : Prop :=
  ∀ bs : List (Beat Float32), ∃ t, m.run (bs.map Beat.toOperation) = .ok t ∧
    t.result.occupant.activity =
      if (Session.completion (Session.beats s bs).result).isDone then .idle else kind

/-- The motor awaits the session that has it. -/
theorem awaits_of_open {S β : Type} [Session S Float32 β] [LawfulSession S Float32 β]
    {wrap : S → Occupant C} {kind : Activity} (hw : Occupant.Hosts wrap kind)
    {s : S} (hm : m.occupant = wrap s) (hs : Session.Open board s) : m.Awaits kind s := by
  intro bs
  -- On what is still to come; after each beat it is another session that has the motor.
  induction bs generalizing m s with
  | nil =>
      refine ⟨pure m, rfl, ?_⟩
      show m.occupant.activity = if (Session.completion s).isDone then _ else _
      rw [hs.not_isDone, hm, hw.activity_eq]
      rfl
  | cons b bs ih =>
      have hsound : m.occupant.Sound board := by
        rw [hm]
        exact (hw.sound_iff board s).mpr hs
      have hbeat : (m.beat b).result = (m.resume (wrap (Session.beat s b).result)
          (Session.completion (Session.beat s b).result).isDone).result := by
        rw [beat_eq hsound, Traced.bind_result, hm, hw.beat_eq, Traced.map_result, hw.isDone_eq]
      rw [run_beat, Session.beats_cons, Traced.bind_result]
      cases hs.beat b with
      | goesOn hopen _ _ =>
          rw [hopen.not_isDone] at hbeat
          obtain ⟨t, ht, hactivity⟩ := ih (m := (m.beat b).result) (by rw [hbeat]; rfl) hopen
          exact ⟨t.precededBy _, by rw [ht]; rfl, hactivity⟩
      | ends hover _ _ =>
          rw [hover.isDone] at hbeat
          have hspent := (hw.spent_iff board (Session.beat s b).result).mpr hover
          obtain ⟨-, -, controller, hidle⟩ :=
            finish_of_spent (m := { m with occupant := wrap (Session.beat s b).result }) hspent
          -- What comes after the end changes neither the idle motor nor the completion.
          have hrest := run_beats_of_idle (m := (m.beat b).result) (by rw [hbeat]; exact hidle) bs
          refine ⟨(pure (m.beat b).result : Traced _ _).precededBy _, by rw [hrest]; rfl, ?_⟩
          rw [(Session.Over.beats bs _ hover).2.1, hover.isDone, hbeat]
          exact congrArg Occupant.activity hidle

/-! ### The sessions a motor begins -/

theorem awaits_align (h : m.occupant.Sound board) :
    m.align.result.Awaits .aligning (Alignment.begin board m.config.alignment).result := by
  obtain ⟨controller, hresult, -⟩ := align_spec h
  obtain ⟨hbegun, -⟩ := Alignment.begun board m.config.alignment
  refine awaits_of_open (Occupant.hosts_aligning controller) ?_ hbegun.isOpen
  rw [hresult]

theorem awaits_identifyElectrical (h : m.occupant.Sound board) {t : Traced Float32 (Motor C)}
    (ht : m.identifyElectrical = .ok t) :
    ∃ begun, ElectricalTest.begin board m.config.vdc m.config.electrical = .ok begun ∧
      t.result.Awaits .identifyingElectrical begun.result := by
  obtain ⟨begun, controller, hbegin, hresult, -⟩ := identifyElectrical_spec h ht
  obtain ⟨hbegun, -⟩ := ElectricalTest.begun hbegin
  refine ⟨begun, hbegin, ?_⟩
  refine awaits_of_open (Occupant.hosts_identifyingElectrical controller) ?_ hbegun.isOpen
  rw [hresult]

end

section

variable {C : Type} [Controller C Float32 Float32] {board : Board} {m : Motor C}

theorem awaits_identifyMechanical (h : m.occupant.Sound board) {params : String}
    {position : Float32} {t : Traced Float32 (Verdict × Motor C)}
    (ht : m.identifyMechanical params position = .ok t) (haccepted : t.result.1 = .ok ()) :
    ∃ found controller begun,
      Command.twoPositive params .invalidTargetSpeed .invalidTorqueConstant = .ok found ∧
      MechanicalTest.begin board controller ⟨.ofRpm found.1, ⟨found.2⟩, m.polePairs⟩
        m.config.mechanical position = .ok begun ∧
      t.result.2.occupant = .identifyingMechanical begun.result ∧
      t.result.2.Awaits .identifyingMechanical begun.result := by
  cases hparams : Command.twoPositive params .invalidTargetSpeed .invalidTorqueConstant with
  | error e =>
      rw [identifyMechanical, hparams] at ht
      cases ht
      cases haccepted
  | ok found =>
      obtain ⟨begun, controller, hbegin, hresult, -⟩ := identifyMechanical_spec h hparams ht
      obtain ⟨hbegun, -⟩ := MechanicalTest.begun hbegin
      have hoccupant : t.result.2.occupant = .identifyingMechanical begun.result := by rw [hresult]
      exact ⟨found, controller, begun, rfl, hbegin, hoccupant,
        awaits_of_open Occupant.hosts_identifyingMechanical hoccupant hbegun.isOpen⟩

end

/-! ### What is asked for by default -/

/-- An electrical test of the standard configuration is never a fault. -/
theorem identifyElectrical_of_standard {C σ : Type} [Controller C Float32 σ] {m : Motor C}
    (h : m.config.electrical = .standard) : ∃ t, m.identifyElectrical = .ok t := by
  obtain ⟨begun, hbegin⟩ := ElectricalTest.begin_standard m.occupant.dismantle.result.1 m.config.vdc
  rw [← h] at hbegin
  exact ⟨_, Fault.bind_eq_ok_iff.mpr ⟨begun, hbegin, rfl⟩⟩

/-- Nor is a mechanical test whose forgetting factor is in its range, and it is accepted. -/
theorem identifyMechanical_of_forgetting {C : Type} [Controller C Float32 Float32] {m : Motor C}
    (hpos : 0 < m.config.mechanical.forgetting) (hone : m.config.mechanical.forgetting < 1)
    {params : String} {found : Float32 × Float32}
    (hparams : Command.twoPositive params .invalidTargetSpeed .invalidTorqueConstant = .ok found)
    (position : Float32) :
    ∃ t, m.identifyMechanical params position = .ok t ∧ t.result.1 = .ok () := by
  obtain ⟨begun, hbegin⟩ := MechanicalTest.begin_of_forgetting m.occupant.dismantle.result.1
    (m.readyForTest m.occupant.dismantle.result.1 m.occupant.dismantle.result.2).result
    ⟨.ofRpm found.1, ⟨found.2⟩, m.polePairs⟩ hpos hone position
  unfold identifyMechanical
  rw [hparams]
  exact ⟨_, Fault.bind_eq_ok_iff.mpr ⟨begun, hbegin, rfl⟩, rfl⟩

/-- One of the standard configuration is. -/
theorem identifyMechanical_of_standard {C : Type} [Controller C Float32 Float32] {m : Motor C}
    (h : m.config.mechanical = .standard) {params : String} {found : Float32 × Float32}
    (hparams : Command.twoPositive params .invalidTargetSpeed .invalidTorqueConstant = .ok found)
    (position : Float32) :
    ∃ t, m.identifyMechanical params position = .ok t ∧ t.result.1 = .ok () :=
  identifyMechanical_of_forgetting (by rw [h]; decide +kernel) (by rw [h]; decide +kernel) hparams
    position

/-! ### Every session -/

/--
**Every session ends, at a sample whose number is bounded beforehand, and stays at its end.**  An
alignment takes as many samples as its settle time asks for.  The two tests end no later than at the
first sample beyond their time.  A motor that began one of them and is then left alone is idle
exactly from the sample on at which the session ends; the mechanical test that has it is for the
speed and the torque constant it was asked with.
-/
theorem every_session_ends {C D σ : Type} [Controller C Float32 σ] [Controller D Float32 Float32]
    (board : Board) :
    (∀ config : Alignment.Config Float32,
      Alignment.CountsDown board (board.baseFrequency.samplesIn config.settleTime).toNat
        (Alignment.begin board config)) ∧
    (∀ vdc (config : ElectricalTest.Config Float32) begun,
      ElectricalTest.begin board vdc config = .ok begun →
      (board.baseFrequency.samplesIn config.timeout).toNat + 1 < UInt32.size →
      Session.EndsWithin board
        ((board.baseFrequency.samplesIn config.timeout).toNat + 1) begun) ∧
    (∀ (controller : D) task (config : MechanicalTest.Config Float32) position begun,
      MechanicalTest.begin board controller task config position = .ok begun →
      (board.baseFrequency.samplesIn config.timeout).toNat + 1 < UInt32.size →
      Session.EndsWithin board
        ((board.baseFrequency.samplesIn config.timeout).toNat + 1) begun) ∧
    (∀ (controller : C) config m ops t,
      check board controller config = .ok m → m.run ops = .ok t →
      (∀ started, t.result.step .align = .ok started →
        started.result.2.Awaits .aligning (Alignment.begin board config.alignment).result) ∧
      (∀ started, t.result.step .identifyElectrical = .ok started →
        ∃ begun, ElectricalTest.begin board config.vdc config.electrical = .ok begun ∧
          started.result.2.Awaits .identifyingElectrical begun.result)) ∧
    (∀ (controller : D) config m ops t params position started,
      check board controller config = .ok m → m.run ops = .ok t →
      t.result.step (.identifyMechanical rfl params position) = .ok started →
      started.result.1 = some (.ok ()) →
      ∃ found controller begun,
        Command.twoPositive params .invalidTargetSpeed .invalidTorqueConstant = .ok found ∧
        MechanicalTest.begin board controller ⟨.ofRpm found.1, ⟨found.2⟩, t.result.polePairs⟩
          config.mechanical position = .ok begun ∧
        started.result.2.occupant = .identifyingMechanical begun.result ∧
        started.result.2.Awaits .identifyingMechanical begun.result) := by
  refine ⟨Alignment.countsDown board, ?_, ?_, ?_, ?_⟩
  · intro vdc config begun hbegin hfits
    exact ElectricalTest.endsWithin hbegin hfits
  · intro controller task config position begun hbegin hfits
    exact MechanicalTest.endsWithin hbegin hfits
  · intro controller config m ops t hm ht
    obtain ⟨hconfig, sound, -⟩ := reached_spec hm ht
    constructor
    · intro started hstarted
      cases hstarted
      rw [← hconfig]
      exact awaits_align sound
    · intro started hstarted
      obtain ⟨begun, hbegun, hstarted⟩ := Fault.bind_eq_ok_iff.mp hstarted
      cases hstarted
      rw [← hconfig]
      exact awaits_identifyElectrical sound hbegun
  · intro controller config m ops t params position started hm ht hstarted haccepted
    obtain ⟨hconfig, sound, -⟩ := reached_spec hm ht
    obtain ⟨begun, hbegun, hstarted⟩ := Fault.bind_eq_ok_iff.mp hstarted
    cases hstarted
    rw [← hconfig]
    exact awaits_identifyMechanical sound hbegun (Option.some.inj haccepted)

/-- At a thousand samples per second and by default, an electrical test takes at most 3001 samples
and a mechanical test 5001.  A motor under speed control that begins one of them in the middle of an
alignment is idle once that is over. -/
theorem every_session_ends_by_default :
    ∃ (loop : SpeedLoop Float32 Unit) (m : Motor (SpeedLoop Float32 Unit))
      (t : Traced Float32 (Motor (SpeedLoop Float32 Unit)))
      (wound : Traced Float32 (ElectricalTest Float32))
      (spun : Traced Float32 (MechanicalTest Float32 (SpeedLoop Float32 Unit))),
      ElectricalTest.begin ⟨⟨1000⟩⟩ ⟨24⟩ .standard = .ok wound ∧
      Session.EndsWithin ⟨⟨1000⟩⟩ 3001 wound ∧
      MechanicalTest.begin ⟨⟨1000⟩⟩ loop ⟨⟨1⟩, ⟨1⟩, 1⟩ .standard 0 = .ok spun ∧
      Session.EndsWithin ⟨⟨1000⟩⟩ 5001 spun ∧
      check ⟨⟨1000⟩⟩ loop .standard = .ok m ∧ m.run [.align] = .ok t ∧
      (∃ started, t.result.step .identifyElectrical = .ok started ∧
        started.result.2.Awaits .identifyingElectrical wound.result) ∧
      ∃ started, t.result.step (.identifyMechanical rfl "60 0.05" 0) = .ok started ∧
        ∃ test : MechanicalTest Float32 (SpeedLoop Float32 Unit),
          started.result.2.occupant = .identifyingMechanical test ∧
          started.result.2.Awaits .identifyingMechanical test := by
  obtain ⟨-, helectrical, hmechanical, hmotor, hspun⟩ :=
    @every_session_ends (SpeedLoop Float32 Unit) (SpeedLoop Float32 Unit) Float32 _ _ ⟨⟨1000⟩⟩
  obtain ⟨loop, -⟩ : ∃ loop : SpeedLoop Float32 Unit,
      SpeedLoop.check () ⟨10⟩ ⟨1000⟩ ⟨15, by decide, by decide⟩ = .ok loop := by
    rw [SpeedLoop.check, if_pos (by decide +kernel)]
    exact ⟨_, rfl⟩
  obtain ⟨m, hm⟩ : ∃ m, check ⟨⟨1000⟩⟩ loop .standard = .ok m := ⟨_, rfl⟩
  obtain ⟨t, ht⟩ : ∃ t, m.run [.align] = .ok t := ⟨_, rfl⟩
  have hconfig : t.result.config = .standard := (reached_spec hm ht).1
  obtain ⟨wound, hwound⟩ := ElectricalTest.begin_standard ⟨⟨1000⟩⟩ ⟨24⟩
  obtain ⟨spun, hspin⟩ := MechanicalTest.begin_standard ⟨⟨1000⟩⟩ loop ⟨⟨1⟩, ⟨1⟩, 1⟩ 0
  refine ⟨loop, m, t, wound, spun, hwound, ?_, hspin, ?_, hm, ht, ?_, ?_⟩
  · have htime : ((⟨1000⟩ : Hertz).samplesIn
        (ElectricalTest.Config.standard : ElectricalTest.Config Float32).timeout).toNat = 3000 := by
      decide +kernel
    have hends := helectrical ⟨24⟩ .standard wound hwound
    rw [htime] at hends
    exact hends (by decide)
  · have htime : ((⟨1000⟩ : Hertz).samplesIn
        (MechanicalTest.Config.standard : MechanicalTest.Config Float32).timeout).toNat = 5000 := by
      decide +kernel
    have hends := hmechanical loop ⟨⟨1⟩, ⟨1⟩, 1⟩ .standard 0 spun hspin
    rw [htime] at hends
    exact hends (by decide)
  · obtain ⟨started, hstarted⟩ : ∃ started, t.result.step .identifyElectrical = .ok started := by
      obtain ⟨test, htest⟩ := identifyElectrical_of_standard (congrArg Config.electrical hconfig)
      exact ⟨_, Fault.bind_eq_ok_iff.mpr ⟨test, htest, rfl⟩⟩
    obtain ⟨begun, hbegun, hawaits⟩ := (hmotor loop .standard m [.align] t hm ht).2 started hstarted
    cases hbegun.symm.trans hwound
    exact ⟨started, hstarted, hawaits⟩
  · have hparams : Command.twoPositive "60 0.05" .invalidTargetSpeed .invalidTorqueConstant =
        .ok (60, 0.05) := by
      decide +kernel
    obtain ⟨test, htest, haccepted⟩ :=
      identifyMechanical_of_standard (congrArg Config.mechanical hconfig) hparams 0
    obtain ⟨-, -, begun, -, -, hoccupant, hawaits⟩ :=
      hspun loop .standard m [.align] t "60 0.05" 0 _ hm ht
        (Fault.bind_eq_ok_iff.mpr ⟨test, htest, rfl⟩) (congrArg some haccepted)
    exact ⟨_, Fault.bind_eq_ok_iff.mpr ⟨test, htest, rfl⟩, begun.result, hoccupant, hawaits⟩

end Motor

end MotorControl
