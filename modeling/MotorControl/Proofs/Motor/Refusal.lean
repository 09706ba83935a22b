/-
Commands that are refused.

A command answers that it was refused for one of four reasons, and all of them are
seen before anything is taken apart.  So a refusal leaves the motor as it is, down to
the history of its session, and says so in two lines.  A run is therefore the same
run with the refused command or without it.
-/
import MotorControl.Proofs.Motor.Run
import MotorControl.TorqueLoop

namespace MotorControl

namespace Motor

variable {C σ : Type} [Controller C Float32 σ] {m : Motor C} {op : Operation σ} {e : CommandError}

/-- The commands a motor refuses, and what for. -/
inductive Refused (m : Motor C) : Operation σ → CommandError → Prop
  | start {params : String} {e : CommandError}
      (h : Command.twoPositive params .invalidResistance .invalidInductance = .error e) :
      Refused m (.start params) e
  | setPoint {target : σ} (h : m.occupant.activity ≠ .running) :
      Refused m (.setPoint target) .notRunning
  | setSpeedTunings {isSpeed : σ = Float32} {t : Tunings Float32}
      (hidle : m.occupant.activity ≠ .idle) (hrunning : m.occupant.activity ≠ .running) :
      Refused m (.setSpeedTunings isSpeed t) .notRunning
  | identifyMechanical {isSpeed : σ = Float32} {params : String} {position : Float32}
      {e : CommandError}
      (h : Command.twoPositive params .invalidTargetSpeed .invalidTorqueConstant = .error e) :
      Refused m (.identifyMechanical isSpeed params position) e

/-- The lines of a refusal: one for the log and one for the terminal. -/
def refusal (e : CommandError) : List (Event Float32) :=
  [.notice (.commandRejected e), .report (.error e)]

/-! ### What a refusal does -/

/-- A refused command is answered, and that is all. -/
theorem Refused.step (h : Refused m op e) :
    m.step op = .ok ⟨(some (.error e), m), refusal e⟩ := by
  cases h with
  | start h =>
      show answering (m.start _) = _
      rw [Motor.start, h]
      rfl
  | setPoint h =>
      show answering (m.setPoint _) = _
      unfold Motor.setPoint
      cases ho : m.occupant with
      | running loop => exact absurd (congrArg Occupant.activity ho) h
      | idle | aligning | identifyingElectrical | identifyingMechanical => rfl
  | @setSpeedTunings isSpeed t hidle hrunning =>
      cases isSpeed
      show answering (m.setSpeedTunings _) = _
      unfold Motor.setSpeedTunings
      cases ho : m.occupant with
      | idle board controller => exact absurd (congrArg Occupant.activity ho) hidle
      | running loop => exact absurd (congrArg Occupant.activity ho) hrunning
      | aligning | identifyingElectrical | identifyingMechanical => rfl
  | @identifyMechanical isSpeed params position e h =>
      cases isSpeed
      show m.identifyMechanical _ _ >>= answering = _
      rw [Motor.identifyMechanical, h]
      rfl

/-! ### What is refused -/

/-- A command is refused for one of the reasons above, and for no other. -/
theorem Refused.of_step {done : Traced Float32 (Option Verdict × Motor C)}
    (hdone : m.step op = .ok done) (hanswer : done.result.1 = some (.error e)) :
    Refused m op e := by
  cases op with
  | align => cases hdone; cases hanswer
  | identifyElectrical =>
      obtain ⟨t, -, hdone⟩ := Fault.bind_eq_ok_iff.mp hdone
      cases hdone
      cases hanswer
  | service => cases hdone; cases hanswer
  | sample currents position => cases hdone; cases hanswer
  | start params =>
      cases hdone
      have hanswer : (m.start params).result.1 = .error e := Option.some.inj hanswer
      unfold Motor.start at hanswer
      cases h : Command.twoPositive params .invalidResistance .invalidInductance with
      | ok found => rw [h] at hanswer; cases hanswer
      | error e' => rw [h] at hanswer; cases hanswer; exact .start h
  | setPoint target =>
      cases hdone
      have hanswer : (m.setPoint target).result.1 = .error e := Option.some.inj hanswer
      unfold Motor.setPoint at hanswer
      cases ho : m.occupant with
      | running loop => rw [ho] at hanswer; cases hanswer
      | idle | aligning | identifyingElectrical | identifyingMechanical =>
          rw [ho] at hanswer
          cases hanswer
          exact .setPoint (by rw [ho]; exact nofun)
  | setSpeedTunings isSpeed tunings =>
      cases isSpeed
      cases hdone
      have hanswer : (m.setSpeedTunings tunings).result.1 = .error e := Option.some.inj hanswer
      unfold Motor.setSpeedTunings at hanswer
      cases ho : m.occupant with
      | idle | running => rw [ho] at hanswer; cases hanswer
      | aligning | identifyingElectrical | identifyingMechanical =>
          rw [ho] at hanswer
          cases hanswer
          exact .setSpeedTunings (by rw [ho]; exact nofun) (by rw [ho]; exact nofun)
  | identifyMechanical isSpeed params position =>
      cases isSpeed
      obtain ⟨t, ht, hdone⟩ := Fault.bind_eq_ok_iff.mp hdone
      cases hdone
      have hanswer : t.result.1 = .error e := Option.some.inj hanswer
      unfold Motor.identifyMechanical at ht
      cases h : Command.twoPositive params .invalidTargetSpeed .invalidTorqueConstant with
      | error e' => rw [h] at ht; cases ht; cases hanswer; exact .identifyMechanical h
      | ok found =>
          rw [h] at ht
          obtain ⟨begun, -, ht⟩ := Fault.bind_eq_ok_iff.mp ht
          cases ht
          cases hanswer

/-! ### Runs with a refused command -/

/-- A run in which a command is refused goes on as if the command had not been there. -/
theorem Refused.run (h : Refused m op e) (ops : List (Operation σ)) :
    m.run (op :: ops) = Traced.precededBy (refusal e) <$> m.run ops := by
  rw [run_cons, h.step]
  rfl

/--
**A refused command changes nothing.**  It is refused for one of four reasons; the motor is left as
it was and two lines say so; and every run goes the way it would have gone without the command.
-/
theorem refused_changes_nothing {before : List (Operation σ)} {t : Traced Float32 (Motor C)}
    (ht : m.run before = .ok t) (op : Operation σ) (e : CommandError) :
    ((∃ done, t.result.step op = .ok done ∧ done.result.1 = some (.error e)) ↔
        Refused t.result op e) ∧
      (Refused t.result op e →
        t.result.step op = .ok ⟨(some (.error e), t.result), refusal e⟩ ∧
        ∀ after : List (Operation σ),
          m.run (before ++ after) = Traced.precededBy t.events <$> t.result.run after ∧
          m.run (before ++ op :: after)
            = Traced.precededBy (t.events ++ refusal e) <$> t.result.run after) := by
  refine ⟨⟨?_, fun h => ⟨_, h.step, rfl⟩⟩, fun h => ⟨h.step, fun after => ⟨?_, ?_⟩⟩⟩
  · rintro ⟨done, hdone, hanswer⟩
    exact .of_step hdone hanswer
  · rw [run_append, ht]
    rfl
  · calc m.run (before ++ op :: after)
        = Traced.precededBy t.events <$> t.result.run (op :: after) := by
          rw [run_append, ht]
          rfl
      _ = Traced.precededBy t.events <$> Traced.precededBy (refusal e) <$> t.result.run after := by
          rw [h.run]
      _ = Traced.precededBy (t.events ++ refusal e) <$> t.result.run after := by
          rw [← comp_map]
          exact congrArg (· <$> _) (funext fun u => Traced.precededBy_precededBy _ _ u)

/-- A motor in the middle of an alignment refuses a set point, and goes on as if none had come. -/
theorem setPoint_refused_while_aligning : ∃ m t,
    check ⟨⟨1000⟩⟩ (TorqueLoop.new : TorqueLoop Float32) .standard = .ok m ∧
      m.run [.align] = .ok t ∧
      Refused t.result (.setPoint (⟨0, 0⟩ : Rotating Float32)) .notRunning ∧
      ∀ after, m.run ([.align] ++ .setPoint (⟨0, 0⟩ : Rotating Float32) :: after)
        = Traced.precededBy (t.events ++ refusal .notRunning) <$> t.result.run after := by
  obtain ⟨m, hm⟩ : ∃ m, check ⟨⟨1000⟩⟩ (TorqueLoop.new : TorqueLoop Float32) .standard = .ok m :=
    ⟨_, rfl⟩
  obtain ⟨t, ht⟩ : ∃ t, m.run [.align] = .ok t := ⟨_, rfl⟩
  have haligning : t.result.occupant.activity = .aligning := by cases ht; rfl
  have hrefused : Refused t.result (.setPoint (⟨0, 0⟩ : Rotating Float32)) .notRunning :=
    .setPoint (by rw [haligning]; exact nofun)
  refine ⟨m, t, hm, ht, hrefused, fun after => ?_⟩
  exact (((refused_changes_nothing ht _ _).2 hrefused).2 after).2

end Motor

end MotorControl
