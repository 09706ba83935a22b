/-
Where a run of a motor breaks off.

A motor is assembled on a look at one number of its configuration, the ratio of its
current loop.  The forgetting factors are looked at later, when a session that fits a
model begins, and by then the occupant before it has been dismantled.  So a factor that
is out of range breaks the run off in the middle of a command.

Nothing else does.  `Needs` says of a computation what it asks for and which fault it
ends with otherwise, and it goes through a bind as a conjunction.  From the check of the
factor it is carried to the beginning of a session, to one operation, and by induction
to a run.
-/
import MotorControl.Proofs.Motor.Ranges

namespace MotorControl

/-! ### What a computation needs -/

namespace Fault

variable {β γ : Type} {fault : Fault} {p q : Prop} {x : Except Fault β} {f : β → Except Fault γ}

/-- The computation goes through where `p` holds, and ends with the fault where it does not. -/
def Needs (fault : Fault) (p : Prop) (x : Except Fault β) : Prop :=
  ∀ e, x = .error e ↔ e = fault ∧ ¬ p

namespace Needs

theorem intro (hok : p → ∃ b, x = .ok b) (hfault : ¬ p → x = .error fault) :
    Needs fault p x := by
  intro e
  by_cases hp : p
  · obtain ⟨b, rfl⟩ := hok hp
    simp [hp]
  · rw [hfault hp]
    simp [hp, eq_comm]

/-- What always goes through needs nothing that does not hold. -/
theorem ok (hp : p) (b : β) : Needs fault p (.ok b : Except Fault β) :=
  .intro (fun _ => ⟨b, rfl⟩) (absurd hp)

theorem congr (h : Needs fault p x) (hpq : p ↔ q) : Needs fault q x := propext hpq ▸ h

theorem exists_ok (h : Needs fault p x) (hp : p) : ∃ b, x = .ok b := by
  cases x with
  | error e => exact absurd hp ((h e).mp rfl).2
  | ok b => exact ⟨b, rfl⟩

/-- What comes second is asked for only where the first goes through. -/
theorem bind (h : Needs fault p x) (hf : ∀ b, x = .ok b → Needs fault q (f b)) :
    Needs fault (p ∧ q) (x >>= f) := by
  intro e
  cases x with
  | error e' =>
      obtain ⟨rfl, hp⟩ := (h e').mp rfl
      show Except.error e' = Except.error e ↔ _
      simp [hp, eq_comm]
  | ok b =>
      have hp : p := by
        by_contra hp
        cases (h fault).mpr ⟨rfl, hp⟩
      show f b = .error e ↔ _
      rw [hf b rfl e]
      simp [hp]

/-- What comes second can go through whatever the first answered. -/
theorem bind_ok (h : Needs fault p x) (g : β → γ) : Needs fault p (x >>= fun b => .ok (g b)) := by
  simpa using h.bind fun b _ => .ok trivial (g b)

end Needs

end Fault

open Controller (Call after after_induction)
open Fault (Needs)

/-! ### Fits -/

/-- A factor by which a model can forget. -/
def LeastSquares.IsForgetting (factor : Float32) : Prop := 0 < factor ∧ factor < 1

open LeastSquares (IsForgetting)

theorem LeastSquares.needs_check {n : Nat} (factor : Float32) :
    Needs .forgettingFactorOutOfRange (IsForgetting factor)
      (check motorSeed factor : Except Fault (LeastSquares Float32 n)) := by
  rw [check, if_pos (by decide +kernel)]
  exact .intro (fun h => ⟨_, if_pos h⟩) (fun h => if_neg h)

theorem ElectricalTest.needs_begin (board : Board) (vdc : Quantity .volt Float32)
    (config : Config Float32) :
    Needs .forgettingFactorOutOfRange (IsForgetting config.forgetting)
      (begin board vdc config) :=
  (LeastSquares.needs_check config.forgetting).bind_ok _

theorem MechanicalTest.needs_begin {C : Type} [Controller C Float32 Float32] (board : Board)
    (controller : C) (task : Task Float32) (config : Config Float32) (position : Float32) :
    Needs .forgettingFactorOutOfRange (IsForgetting config.forgetting)
      (begin board controller task config position) :=
  ((LeastSquares.needs_check config.forgetting).bind_ok _).bind_ok _

namespace Motor

/-! ### Commands -/

/-- Whether an operation can be carried out, or refused, with the configuration.  A mechanical test
that is refused never comes to the factor. -/
def Config.Permits {σ : Type} (config : Config) : Operation σ → Prop
  | .identifyElectrical => IsForgetting config.electrical.forgetting
  | .identifyMechanical _ params _ =>
    (∃ found, Command.twoPositive params .invalidTargetSpeed .invalidTorqueConstant = .ok found) →
      IsForgetting config.mechanical.forgetting
  | _ => True

section

variable {C σ : Type} [Controller C Float32 σ] {board : Board} {config : Config} {m : Motor C}

theorem needs_check (board : Board) (controller : C) (config : Config) :
    Needs .outerRatioOutOfRange (0 < config.currentRatio ∧ config.currentRatio < 20)
      (check board controller config) :=
  Needs.bind_ok (.intro (fun h => ⟨_, dif_pos h⟩) (fun h => dif_neg h)) _

theorem needs_identifyMechanical {C : Type} [Controller C Float32 Float32] (m : Motor C)
    (params : String) (position : Float32) :
    Needs .forgettingFactorOutOfRange
      (m.config.Permits (.identifyMechanical rfl params position : Operation Float32))
      (m.identifyMechanical params position) := by
  unfold identifyMechanical
  cases hparams : Command.twoPositive params .invalidTargetSpeed .invalidTorqueConstant with
  | error e =>
      refine .ok ?_ _
      rintro ⟨found, hfound⟩
      cases hparams.symm.trans hfound
  | ok found =>
      refine Needs.congr ((MechanicalTest.needs_begin _ _ _ _ _).bind_ok _) ?_
      exact ⟨fun h _ => h, fun h => h ⟨found, hparams⟩⟩

theorem needs_step (m : Motor C) (op : Operation σ) :
    Needs .forgettingFactorOutOfRange (m.config.Permits op) (m.step op) := by
  cases op with
  | identifyElectrical => exact ((ElectricalTest.needs_begin _ _ _).bind_ok _).bind_ok _
  | identifyMechanical isSpeed params position =>
      cases isSpeed
      exact (m.needs_identifyMechanical params position).bind_ok _
  | setSpeedTunings isSpeed t => cases isSpeed; exact .ok trivial _
  | align | start | setPoint | service | sample => exact .ok trivial _

theorem needs_run (ops : List (Operation σ)) :
    ∀ m : Motor C, m.occupant.Sound board →
      Needs .forgettingFactorOutOfRange (∀ op ∈ ops, m.config.Permits op) (m.run ops) := by
  induction ops with
  | nil => intro m _; exact .ok nofun _
  | cons op ops ih =>
      intro m h
      rw [List.forall_mem_cons, run_cons]
      refine (m.needs_step op).bind fun done hdone => ?_
      -- The configuration is the one it was, so what the rest needs of it can be said beforehand.
      have hkeeps := keeps_step h hdone
      rw [← hkeeps.config, map_eq_pure_bind]
      exact (ih _ hkeeps.sound).bind_ok _

/-- How far a motor gets with its operations. -/
structure Endures (computes : C → Prop) (m : Motor C) (ops : List (Operation σ)) : Prop where
  /-- It breaks off, for a forgetting factor, exactly at an operation that the configuration does
  not permit. -/
  needs : Needs .forgettingFactorOutOfRange (∀ op ∈ ops, m.config.Permits op) (m.run ops)
  /-- Up to there the arithmetic gets what it takes for granted. -/
  computes (t : Traced Float32 (Motor C)) (ht : m.run ops = .ok t) : Computes computes t.result
  /-- Where both factors are in range, it goes through. -/
  exists_ok (helectrical : IsForgetting m.config.electrical.forgetting)
    (hmechanical : IsForgetting m.config.mechanical.forgetting) : ∃ t, m.run ops = .ok t

theorem Config.permits_of_isForgetting {σ : Type} {config : Config}
    (helectrical : IsForgetting config.electrical.forgetting)
    (hmechanical : IsForgetting config.mechanical.forgetting) (op : Operation σ) :
    config.Permits op := by
  cases op with
  | identifyElectrical => exact helectrical
  | identifyMechanical isSpeed params position => exact fun _ => hmechanical
  | align | start | setPoint | service | sample | setSpeedTunings => trivial

theorem endures_of_check {computes : C → Prop}
    (hcall : ∀ (c : C) (k : Call Float32 σ), computes c →
      computes (Controller.call c k).result.2)
    {controller : C} (hcontroller : computes controller)
    (hm : check board controller config = .ok m) (ops : List (Operation σ)) :
    Endures computes m ops := by
  have hsound := sound_of_check hm
  have hfresh : Computes computes m := by
    obtain ⟨hidle, -⟩ := check_spec hm
    constructor
    · rw [hidle]
      exact hcontroller
    · rw [hidle]
      trivial
  refine ⟨needs_run ops m hsound, fun t ht => computes_run hcall ops m t hsound hfresh ht, ?_⟩
  intro helectrical hmechanical
  exact (needs_run ops m hsound).exists_ok fun op _ =>
    Config.permits_of_isForgetting helectrical hmechanical op

end

/--
**A motor is assembled on a look at its ratio alone, and from then on nothing but a forgetting
factor can break it off.**  Whatever was done to its controller before, a run breaks off exactly if
one of its operations begins an electrical test, or a mechanical test that is accepted, for which
the configured factor does not lie strictly between zero and one.  Until then every regulator has a
proper range to clamp into, the speed loop and an alignment have a sample left to count down, and no
square wave and no turn is divided into no samples at all.  With both factors in range every run
goes through.
-/
theorem breaks_off_only_for_forgetting {board : Board} {config : Config} :
    (∀ {C : Type} (controller : C),
      Needs .outerRatioOutOfRange (0 < config.currentRatio ∧ config.currentRatio < 20)
        (check board controller config)) ∧
    (∀ ks {m}, check board (after (.new : TorqueLoop Float32) ks) config = .ok m →
      ∀ ops, Endures TorqueLoop.Computes m ops) ∧
    (∀ {O : Type} [LoopObserver O Float32] {observer : O} {maxCurrent pwm ratio s},
      SpeedLoop.check observer maxCurrent pwm ratio = .ok s →
      ∀ ks {m}, check board (after s ks) config = .ok m →
        ∀ ops, Endures SpeedLoop.Computes m ops) := by
  refine ⟨?_, ?_, ?_⟩
  · intro C controller
    exact needs_check board controller config
  · intro ks m hm ops
    have hused := after_induction TorqueLoop.computes_call ks _ TorqueLoop.computes_new
    exact endures_of_check TorqueLoop.computes_call hused hm ops
  · intro O _ observer maxCurrent pwm ratio s hs ks m hm ops
    have hused := after_induction SpeedLoop.computes_call ks s (SpeedLoop.computes_of_check hs)
    exact endures_of_check SpeedLoop.computes_call hused hm ops

/-- By default nothing breaks off, whether an electrical test is broken off by an alignment or a
mechanical one is. -/
theorem endures_by_default :
    (∃ m t, check ⟨⟨1000⟩⟩ (.new : TorqueLoop Float32) .standard = .ok m ∧
      m.run [.identifyElectrical, .align] = .ok t ∧ Computes TorqueLoop.Computes t.result) ∧
    ∃ (s : SpeedLoop Float32 Unit) (m : Motor (SpeedLoop Float32 Unit)) (t : _),
      SpeedLoop.check () ⟨2⟩ ⟨1000⟩ ⟨10, by decide, by decide⟩ = .ok s ∧
      check ⟨⟨1000⟩⟩ s .standard = .ok m ∧
      m.run [.identifyMechanical rfl "60 0.05" 0, .align] = .ok t ∧
      Computes SpeedLoop.Computes t.result := by
  obtain ⟨-, htorque, hspeed⟩ := @breaks_off_only_for_forgetting ⟨⟨1000⟩⟩ .standard
  have hfactor : IsForgetting 0.999 := ⟨by decide +kernel, by decide +kernel⟩
  constructor
  · obtain ⟨m, hm⟩ : ∃ m, check ⟨⟨1000⟩⟩ (.new : TorqueLoop Float32) .standard = .ok m := ⟨_, rfl⟩
    have hendures := htorque [] hm [.identifyElectrical, .align]
    have hconfig := (check_spec hm).2
    obtain ⟨t, ht⟩ := hendures.exists_ok (by rw [hconfig]; exact hfactor)
      (by rw [hconfig]; exact hfactor)
    exact ⟨m, t, hm, ht, hendures.computes t ht⟩
  · obtain ⟨s, hs⟩ : ∃ s : SpeedLoop Float32 Unit,
        SpeedLoop.check () ⟨2⟩ ⟨1000⟩ ⟨10, by decide, by decide⟩ = .ok s := by
      rw [SpeedLoop.check, if_pos (by decide +kernel)]
      exact ⟨_, rfl⟩
    obtain ⟨m, hm⟩ : ∃ m, check ⟨⟨1000⟩⟩ s .standard = .ok m := ⟨_, rfl⟩
    have hendures := hspeed hs [] hm [.identifyMechanical rfl "60 0.05" 0, .align]
    have hconfig := (check_spec hm).2
    obtain ⟨t, ht⟩ := hendures.exists_ok (by rw [hconfig]; exact hfactor)
      (by rw [hconfig]; exact hfactor)
    exact ⟨s, m, t, hs, hm, ht, hendures.computes t ht⟩

/-- The standard configuration, with a factor by which an electrical test cannot forget. -/
def Config.unforgetting : Config :=
  { Config.standard with electrical := { ElectricalTest.Config.standard with forgetting := 2 } }

/-- A motor is assembled with that configuration, although the first electrical test breaks it
off. -/
theorem electrical_test_breaks_off : ∃ m : Motor (TorqueLoop Float32),
    check ⟨⟨1000⟩⟩ .new .unforgetting = .ok m ∧
      m.run [.identifyElectrical] = .error .forgettingFactorOutOfRange := by
  obtain ⟨m, hm⟩ : ∃ m, check ⟨⟨1000⟩⟩ (.new : TorqueLoop Float32) .unforgetting = .ok m := ⟨_, rfl⟩
  refine ⟨m, hm, (needs_run [.identifyElectrical] m (sound_of_check hm) _).mpr ⟨rfl, ?_⟩⟩
  rw [(check_spec hm).2, List.forall_mem_singleton]
  rintro ⟨-, hone⟩
  exact absurd hone (by decide +kernel)

end Motor

end MotorControl
