/-
The law of commanded speed.

Two commands tell the regulator of a speed loop what to keep to: a set point, and a
mechanical test, which writes the speed it spins the rotor at into the same place.  What
was written there last stays.  A session that ends or is aborted disables the controller,
and a start arms it anew, but neither of them takes a set point back.

So a motor that starts after a mechanical test keeps to the speed of the test until it is
given a set point, although set points are meant to come from accepted commands alone.
`spins_after_test` is a run in which that happens.
-/
import MotorControl.Proofs.Motor.Journal
import MotorControl.Proofs.Motor.Termination
import MotorControl.Proofs.SpeedLoop.Settings

namespace MotorControl.Motor

/-- Only set points and mechanical tests order a speed. -/
theorem Entry.latest_target?_orders {C σ : Type} (board : Board) (e : Entry C σ) :
    latest Instruction.target? (e.orders board) = e.target? := by
  simp [orders, latest_append, latest_toList_map, tuning, Instruction.target?]

/-! ### The law -/

section

variable {O : Type} [LoopObserver O Float32] {observer : O} {maxCurrent : Quantity .ampere Float32}
  {pwm : Hertz} {ratio : OuterRatio} {s : SpeedLoop Float32 O} {board : Board} {config : Config}
  {m : Motor (SpeedLoop Float32 O)} {ops : List (Operation Float32)}
  {t : Traced Float32 (Motor (SpeedLoop Float32 O))}

theorem setPoint_of_run (hs : SpeedLoop.check observer maxCurrent pwm ratio = .ok s)
    (hm : check board s config = .ok m) (ht : m.run ops = .ok t) :
    t.result.occupant.controller.regulator.setPoint =
      (latest Entry.target? (m.journal ops)).getD 0 := by
  obtain ⟨-, rfl⟩ := SpeedLoop.check_eq_ok_iff.1 hs
  have hrun := view_run SpeedLoop.isSetting_setPoint ⟨rfl, rfl, rfl, rfl⟩ ops m t
    (Assembled.of_check hm).sound trivial ht
  rw [hrun, (check_spec hm).1, latest_congr fun e _ => e.latest_target?_orders board]
  rfl

/--
**The law of commanded speed.**  After every run of a motor with a fresh speed loop, its regulator
keeps to the argument of the last set point that was accepted, or to the speed of the last
mechanical test that was accepted if that came later, or to zero if neither ever was.  As long as no
mechanical test was accepted, it keeps to the last accepted set point, and a start never changes
what it keeps to.
-/
theorem commanded_speed_of_run (hs : SpeedLoop.check observer maxCurrent pwm ratio = .ok s)
    (hm : check board s config = .ok m) (ht : m.run ops = .ok t) :
    t.result.occupant.controller.regulator.setPoint =
        (latest Entry.target? (m.journal ops)).getD 0 ∧
      ((∀ e ∈ m.journal ops, e.testSpeed? = none) →
        t.result.occupant.controller.regulator.setPoint =
          (latest Entry.setPoint? (m.journal ops)).getD 0) ∧
      ∀ params done, t.result.step (.start params) = .ok done →
        done.result.2.occupant.controller.regulator.setPoint =
          t.result.occupant.controller.regulator.setPoint := by
  have hlaw := setPoint_of_run hs hm ht
  refine ⟨hlaw, fun hnone => ?_, fun params done hdone => ?_⟩
  · have hsame : latest Entry.target? (m.journal ops) = latest Entry.setPoint? (m.journal ops) :=
      latest_congr fun e he => by rw [Entry.target?, hnone e he, Option.or_none]
    rw [hlaw, hsame]
  · have hsound := (reached_spec hm ht).2.1
    rw [controller_step hsound hdone, SpeedLoop.isSetting_setPoint.view_after _ _ trivial,
      latest_usage ⟨rfl, rfl, rfl, rfl⟩ hdone, Entry.latest_target?_orders]
    rfl

end

/-- A motor can start after a mechanical test at one turn a second, and nothing has told it to keep
to any speed by then but the test. -/
theorem test_then_start : ∃ (s : SpeedLoop Float32 Unit) (m : Motor (SpeedLoop Float32 Unit))
    (t : Traced Float32 (Motor (SpeedLoop Float32 Unit))),
    SpeedLoop.check () ⟨2⟩ ⟨1000⟩ ⟨1, by decide, by decide⟩ = .ok s ∧
      check ⟨⟨1000⟩⟩ s .standard = .ok m ∧
      m.run [.identifyMechanical rfl "60 0.05" 0, .start "1 1"] = .ok t ∧
      t.result.occupant.activity = .running ∧
      latest Entry.target? (m.journal [.identifyMechanical rfl "60 0.05" 0, .start "1 1"]) =
        some (Quantity.ofRpm 60).value ∧
      latest Entry.setPoint? (m.journal [.identifyMechanical rfl "60 0.05" 0, .start "1 1"]) =
        none := by
  have htest : Command.twoPositive "60 0.05" .invalidTargetSpeed .invalidTorqueConstant
      = .ok (60, 0.05) := by
    decide +kernel
  have hstart : Command.twoPositive "1 1" .invalidResistance .invalidInductance = .ok (1, 1) := by
    decide +kernel
  obtain ⟨s, hs⟩ : ∃ s : SpeedLoop Float32 Unit,
      SpeedLoop.check () ⟨2⟩ ⟨1000⟩ ⟨1, by decide, by decide⟩ = .ok s := by
    rw [SpeedLoop.check, if_pos (by decide +kernel)]
    exact ⟨_, rfl⟩
  obtain ⟨m, hm⟩ : ∃ m, check ⟨⟨1000⟩⟩ s .standard = .ok m := ⟨_, rfl⟩
  have hassembled : Assembled ⟨⟨1000⟩⟩ .standard m := .of_check hm
  obtain ⟨tested, htested, haccepted⟩ := identifyMechanical_of_standard
    (congrArg Config.mechanical hassembled.config_eq) htest 0
  have hspun : m.step (.identifyMechanical rfl "60 0.05" 0) =
      .ok ((fun r => (some r.1, r.2)) <$> tested) := Fault.bind_eq_ok_iff.mpr ⟨tested, htested, rfl⟩
  have hsound := (hassembled.step hspun).sound
  obtain ⟨controller, hrunning, -⟩ := start_spec hsound hstart
  have hspeed : Entry.target? ⟨m, .identifyMechanical rfl "60 0.05" 0, some tested.result.1⟩ =
      some (Quantity.ofRpm 60).value := by
    show (Entry.numbers? _ _ _ _).map _ = _
    rw [Entry.numbers?_of_ok (congrArg some haccepted) htest]
    rfl
  refine ⟨s, m, _, hs, hm, run_cons_eq_ok_iff.mpr ⟨_, _, hspun, rfl, rfl⟩, ?_, ?_, ?_⟩
  · exact congrArg (fun m => m.occupant.activity) hrunning
  · rw [journal_cons hspun, latest_cons]
    exact hspeed
  · rw [journal_cons hspun]
    rfl

/-- The motor then runs at the speed of the test, although no set point was ever accepted. -/
theorem spins_after_test : ∃ (s : SpeedLoop Float32 Unit) (m : Motor (SpeedLoop Float32 Unit))
    (t : Traced Float32 (Motor (SpeedLoop Float32 Unit))),
    SpeedLoop.check () ⟨2⟩ ⟨1000⟩ ⟨1, by decide, by decide⟩ = .ok s ∧
      check ⟨⟨1000⟩⟩ s .standard = .ok m ∧
      m.run [.identifyMechanical rfl "60 0.05" 0, .start "1 1"] = .ok t ∧
      t.result.occupant.activity = .running ∧
      ¬ t.result.occupant.controller.regulator.setPoint =
        (latest Entry.setPoint?
          (m.journal [.identifyMechanical rfl "60 0.05" 0, .start "1 1"])).getD 0 := by
  obtain ⟨s, m, t, hs, hm, ht, hrunning, hspeed, hnone⟩ := test_then_start
  refine ⟨s, m, t, hs, hm, ht, hrunning, ?_⟩
  rw [setPoint_of_run hs hm ht, hspeed, hnone]
  decide +kernel

/-- What the law says of that run. -/
theorem commanded_speed_of_test : ∃ (s : SpeedLoop Float32 Unit)
    (m : Motor (SpeedLoop Float32 Unit)) (t : Traced Float32 (Motor (SpeedLoop Float32 Unit))),
    SpeedLoop.check () ⟨2⟩ ⟨1000⟩ ⟨1, by decide, by decide⟩ = .ok s ∧
      check ⟨⟨1000⟩⟩ s .standard = .ok m ∧
      m.run [.identifyMechanical rfl "60 0.05" 0, .start "1 1"] = .ok t ∧
      t.result.occupant.controller.regulator.setPoint = (Quantity.ofRpm 60).value := by
  obtain ⟨s, m, t, hs, hm, ht, -, hspeed, -⟩ := test_then_start
  obtain ⟨hlaw, -, -⟩ := commanded_speed_of_run hs hm ht
  rw [hspeed] at hlaw
  exact ⟨s, m, t, hs, hm, ht, hlaw⟩

end MotorControl.Motor
