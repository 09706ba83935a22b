/-
The gains of a motor's controller.

A motor sets the current gains where a winding becomes known to it: at a start, for the
winding that the start gives, and at a mechanical test, for the winding that an
electrical test has found.  The speed gains are set by a command of their own.  Nothing
else touches them, neither a reset nor a session nor a refused command, so the gains in
force belong to the last command of their kind that was accepted.
-/
import MotorControl.Proofs.Motor.Journal
import MotorControl.Proofs.SpeedLoop.Settings

namespace MotorControl.Motor

open Instruction

/-! ### What a command sets -/

/-- The current gains for a winding, as they are applied on a bus voltage: the inductance in henry
and the resistance times the bandwidth of the loop. -/
def appliedGains (vdc : Quantity .volt Float32) (base : Hertz) (ratio : UInt8)
    (resistance : Quantity .ohm Float32) (inductance : Quantity .millihenry Float32) :
    AxisTunings Float32 :=
  let ω := base.toScalar / Scalar.ofNat ratio.toNat * Scalar.tau
  let scale := 1 / (Scalar.invSqrtThree * vdc.value)
  .both ⟨inductance.value * 0.001 * ω * scale, resistance.value * ω * scale, 0 * scale⟩

/-- The current gains in force after a run, by its journal. -/
def currentGains {C σ : Type} (board : Board) (config : Config) (journal : List (Entry C σ)) :
    AxisTunings Float32 :=
  ((latest Entry.winding? journal).map fun winding =>
    appliedGains config.vdc board.baseFrequency config.currentRatio winding.1 winding.2).getD
      ⟨.zero, .zero⟩

/-- The speed gains in force after a run, by its journal, of a loop that ticks at a period. -/
def speedGains {C σ : Type} (period : Float32) (journal : List (Entry C σ)) : Tunings Float32 :=
  ((latest Entry.speedTunings? journal).map fun t =>
    ⟨t.kp, t.ki * period, t.kd / period⟩).getD .zero

section

variable {C σ : Type} [Controller C Float32 σ] {board : Board} {config : Config} {m : Motor C}

theorem currentGains?_tuning (h : Assembled board config m) (resistance : Quantity .ohm Float32)
    (inductance : Quantity .millihenry Float32) :
    currentGains? (m.tuning board resistance inductance : Instruction Float32 σ) =
      some (appliedGains config.vdc board.baseFrequency config.currentRatio resistance
        inductance) := by
  rw [← h.currentRatio_value, ← h.config_eq]
  rfl

/-- Only a start and a test of a motor whose winding is known order current gains. -/
theorem latest_currentGains?_orders {e : Entry C σ} (h : Assembled board config e.before) :
    latest currentGains? (e.orders board) = e.winding?.map fun winding =>
      appliedGains config.vdc board.baseFrequency config.currentRatio winding.1 winding.2 := by
  have hwinding : latest currentGains? (e.orders board) =
      e.winding?.bind fun winding =>
        currentGains? (e.before.tuning board winding.1 winding.2 : Instruction Float32 σ) := by
    simp [Entry.orders, latest_append, latest_toList_map, currentGains?]
  simp only [hwinding, currentGains?_tuning h, Option.map_eq_bind, Function.comp_def]

omit [Controller C Float32 σ] in
/-- Only the command of that name orders speed gains. -/
theorem latest_speedGains?_orders (board : Board) (period : Float32) (e : Entry C σ) :
    latest (speedGains? period) (e.orders board) =
      e.speedTunings?.map fun t => ⟨t.kp, t.ki * period, t.kd / period⟩ := by
  have horders : latest (speedGains? period) (e.orders board) =
      e.speedTunings?.bind fun t => some ⟨t.kp, t.ki * period, t.kd / period⟩ := by
    simp [Entry.orders, latest_append, latest_toList_map, tuning, speedGains?]
  rw [horders, Option.map_eq_bind]
  rfl

end

/-! ### Runs -/

/-- A part of the controller that holds the current gains holds those of the journal. -/
theorem currentGains_of_run {C σ : Type} [Controller C Float32 σ] {board : Board} {config : Config}
    {view : C → AxisTunings Float32}
    (hview : Controller.IsSetting (fun _ => True) view currentGains?) {controller : C}
    (hfresh : view controller = ⟨.zero, .zero⟩) {m : Motor C}
    (hm : check board controller config = .ok m) {ops : List (Operation σ)}
    {t : Traced Float32 (Motor C)} (ht : m.run ops = .ok t) :
    view t.result.occupant.controller = currentGains board config (m.journal ops) := by
  have hassembled : Assembled board config m := .of_check hm
  have horders : latest (fun e => latest currentGains? (e.orders board)) (m.journal ops) =
      (latest Entry.winding? (m.journal ops)).map fun winding =>
        appliedGains config.vdc board.baseFrequency config.currentRatio winding.1 winding.2 := by
    rw [← latest_map]
    exact latest_congr fun e he =>
      latest_currentGains?_orders (assembled_of_mem_journal ops m hassembled e he)
  rw [view_run hview ⟨rfl, rfl, rfl, rfl⟩ ops m t hassembled.sound trivial ht, horders,
    (check_spec hm).1]
  exact congrArg _ hfresh

/--
**Gains survive everything but a command that sets gains.**  After every run of a motor with a fresh
controller the current gains are those of the winding that the last accepted start gave, or that was
known to the last accepted mechanical test if that came later, or none before either.  The gains of
a speed loop without observer are those that were given last, for the period of that loop.
-/
theorem gains_of_run {board : Board} {config : Config} :
    (∀ {m : Motor (TorqueLoop Float32)} {ops : List (Operation (Rotating Float32))} {t},
      check board .new config = .ok m → m.run ops = .ok t →
      t.result.occupant.controller.currentTunings = currentGains board config (m.journal ops)) ∧
    (∀ {O : Type} [LoopObserver O Float32] {observer : O} {maxCurrent pwm ratio s}
      {m : Motor (SpeedLoop Float32 O)} {ops : List (Operation Float32)} {t},
      SpeedLoop.check observer maxCurrent pwm ratio = .ok s → check board s config = .ok m →
      m.run ops = .ok t →
      t.result.occupant.controller.torque.currentTunings =
        currentGains board config (m.journal ops)) ∧
    (∀ {maxCurrent pwm} {ratio : OuterRatio} {s} {m : Motor (SpeedLoop Float32 Unit)}
      {ops : List (Operation Float32)} {t},
      SpeedLoop.check () maxCurrent pwm ratio = .ok s → check board s config = .ok m →
      m.run ops = .ok t →
      t.result.occupant.controller.regulator.tunings =
        speedGains (ratio.outerPeriod pwm) (m.journal ops)) := by
  refine ⟨?_, ?_, ?_⟩
  · intro m ops t hm ht
    exact currentGains_of_run TorqueLoop.isSetting_currentTunings rfl hm ht
  · intro O _ observer maxCurrent pwm ratio s m ops t hs hm ht
    obtain ⟨-, rfl⟩ := SpeedLoop.check_eq_ok_iff.1 hs
    exact currentGains_of_run SpeedLoop.isSetting_currentTunings rfl hm ht
  · intro maxCurrent pwm ratio s m ops t hs hm ht
    obtain ⟨-, rfl⟩ := SpeedLoop.check_eq_ok_iff.1 hs
    have hidle := (check_spec hm).1
    have hrun := view_run (SpeedLoop.isSetting_tunings (ratio.outerPeriod pwm))
      ⟨rfl, rfl, rfl, rfl⟩ ops m t (Assembled.of_check hm).sound (by rw [hidle]; rfl) ht
    rw [hrun, hidle, latest_congr fun e _ => latest_speedGains?_orders board _ e,
      latest_map]
    rfl

/-- The gains of a motor that was started and then aligned are for the winding of the start. -/
theorem latest_winding?_start {C σ : Type} [Controller C Float32 σ] (m : Motor C) {params : String}
    {found : Float32 × Float32}
    (hparams : Command.twoPositive params .invalidResistance .invalidInductance = .ok found) :
    latest Entry.winding? (m.journal ([.start params, .align] : List (Operation σ))) =
      some (⟨found.1⟩, ⟨found.2⟩) := by
  have haccepted : (m.start params).result.1 = .ok () := by
    unfold start
    rw [hparams]
    rfl
  refine (latest_cons _ _ _).trans ?_
  show (Entry.numbers? _ _ _ _).map _ = _
  rw [Entry.numbers?_of_ok (congrArg some haccepted) hparams]
  rfl

/-- The gains of motors in the middle of an alignment, after a start for a winding of half an ohm
and a millihenry and after speed gains were given. -/
theorem gains_of_started :
    (∃ m t, check ⟨⟨1000⟩⟩ (.new : TorqueLoop Float32) .standard = .ok m ∧
      m.run [.start "0.5 1", .align] = .ok t ∧
      t.result.occupant.controller.currentTunings = appliedGains ⟨24⟩ ⟨1000⟩ 15 ⟨0.5⟩ ⟨1⟩) ∧
    ∃ (s : SpeedLoop Float32 Unit) (m : Motor (SpeedLoop Float32 Unit)) (t u : _),
      SpeedLoop.check () ⟨2⟩ ⟨1000⟩ ⟨10, by decide, by decide⟩ = .ok s ∧
      check ⟨⟨1000⟩⟩ s .standard = .ok m ∧
      m.run [.start "0.5 1", .align] = .ok t ∧
      t.result.occupant.controller.torque.currentTunings
        = appliedGains ⟨24⟩ ⟨1000⟩ 15 ⟨0.5⟩ ⟨1⟩ ∧
      m.run [.setSpeedTunings rfl ⟨1, 2, 3⟩, .align] = .ok u ∧
      u.result.occupant.controller.regulator.tunings = ⟨1, 2 * (10 / 1000), 3 / (10 / 1000)⟩ := by
  obtain ⟨htorque, hcurrent, hspeed⟩ := @gains_of_run ⟨⟨1000⟩⟩ .standard
  have hparams : Command.twoPositive "0.5 1" .invalidResistance .invalidInductance
      = .ok (0.5, 1) := by
    decide +kernel
  constructor
  · obtain ⟨m, hm⟩ : ∃ m, check ⟨⟨1000⟩⟩ (.new : TorqueLoop Float32) .standard = .ok m := ⟨_, rfl⟩
    obtain ⟨t, ht⟩ : ∃ t, m.run [.start "0.5 1", .align] = .ok t := ⟨_, rfl⟩
    refine ⟨m, t, hm, ht, ?_⟩
    rw [htorque hm ht, currentGains, latest_winding?_start m hparams]
    rfl
  · obtain ⟨s, hs⟩ : ∃ s : SpeedLoop Float32 Unit,
        SpeedLoop.check () ⟨2⟩ ⟨1000⟩ ⟨10, by decide, by decide⟩ = .ok s := by
      rw [SpeedLoop.check, if_pos (by decide +kernel)]
      exact ⟨_, rfl⟩
    obtain ⟨m, hm⟩ : ∃ m, check ⟨⟨1000⟩⟩ s .standard = .ok m := ⟨_, rfl⟩
    obtain ⟨t, ht⟩ : ∃ t, m.run [.start "0.5 1", .align] = .ok t := ⟨_, rfl⟩
    obtain ⟨u, hu⟩ : ∃ u, m.run [.setSpeedTunings rfl ⟨1, 2, 3⟩, .align] = .ok u := ⟨_, rfl⟩
    have htunings : latest Entry.speedTunings?
        (m.journal [.setSpeedTunings rfl ⟨1, 2, 3⟩, .align]) = some ⟨1, 2, 3⟩ := by
      cases hm
      rfl
    refine ⟨s, m, t, u, hs, hm, ht, ?_, hu, ?_⟩
    · rw [hcurrent hs hm ht, currentGains, latest_winding?_start m hparams]
      rfl
    · rw [hspeed hs hm hu, speedGains, htunings]
      rfl

end MotorControl.Motor
