/-
Which commands with two numbers a motor accepts.

Closing the loop and testing the mechanics each take two numbers as text.  Both are
judged by the one grammar of such commands, with their own errors for the first number
and the second, and both look at nothing but what the words of the text are read as.
The verdict is reached before anything is done, whatever the motor is busy with.
-/
import MotorControl.Proofs.Command
import MotorControl.Proofs.Motor.Faults

namespace MotorControl

open Command (IsPositive Judged)
open Fault (Needs)
open LeastSquares (IsForgetting)
open Text (Spaced)

namespace Motor

/-- Exactly two words, and each stands for a finite number above zero. -/
def WellFormed (params : String) : Prop :=
  ∃ x y, Spaced params.toList [x, y] ∧ IsPositive x ∧ IsPositive y

/-- How a text with two numbers is judged. -/
structure Judges (first second : CommandError) (params : String) (verdict : Verdict) : Prop where
  accepted : verdict = .ok () ↔ WellFormed params
  /-- The words are counted before they are read. -/
  count {words : List (List Char)} (h : Spaced params.toList words) (hlength : words.length ≠ 2) :
    verdict = .error (.invalidNumberOfArguments 2 words.length)
  /-- Of two words that both stand for no such number, the first is told. -/
  first {x y : List Char} (h : Spaced params.toList [x, y]) (hx : ¬ IsPositive x) :
    verdict = .error first
  second {x y : List Char} (h : Spaced params.toList [x, y]) (hx : IsPositive x)
    (hy : ¬ IsPositive y) : verdict = .error second

/-- Two texts whose words are read alike. -/
def ReadAlike (params params' : String) : Prop :=
  ∃ words words', Spaced params.toList words ∧ Spaced params'.toList words' ∧
    words.map Binary32.read? = words'.map Binary32.read?

/-! ### The verdict -/

theorem exists_ok_twoPositive_iff (params : String) (first second : CommandError) :
    (∃ found, Command.twoPositive params first second = .ok found) ↔ WellFormed params := by
  obtain ⟨words, h⟩ := Text.exists_spaced params.toList
  rw [(Command.judged_twoPositive h first second).exists_ok_iff]
  constructor
  · rintro ⟨x, y, rfl, hx, hy⟩
    exact ⟨x, y, h, hx, hy⟩
  · rintro ⟨x, y, h', hx, hy⟩
    exact ⟨x, y, h.fields_eq.symm.trans h'.fields_eq, hx, hy⟩

theorem judges_twoPositive (params : String) (first second : CommandError) :
    Judges first second params ((Command.twoPositive params first second).map fun _ => ()) where
  accepted := by
    rw [← exists_ok_twoPositive_iff params first second]
    cases Command.twoPositive params first second with
    | ok found => exact iff_of_true rfl ⟨found, rfl⟩
    | error e => exact iff_of_false nofun nofun
  count h hlength := by
    rw [(Command.judged_twoPositive h first second).eq_of_length hlength]
    rfl
  first h hx := by
    rw [(Command.judged_twoPositive h first second).eq_first hx]
    rfl
  second h hx hy := by
    rw [(Command.judged_twoPositive h first second).eq_second hx hy]
    rfl

/-! ### The commands -/

section

variable {C σ : Type} [Controller C Float32 σ]

theorem verdict_start (m : Motor C) (params : String) : (m.start params).result.1 =
    (Command.twoPositive params .invalidResistance .invalidInductance).map fun _ => () := by
  unfold start
  cases Command.twoPositive params .invalidResistance .invalidInductance with
  | ok found => rfl
  | error e => rfl

theorem start_congr {params params' : String} (h : ReadAlike params params') (m : Motor C) :
    m.start params = m.start params' := by
  obtain ⟨words, words', hwords, hwords', hread⟩ := h
  unfold start
  rw [Command.twoPositive_congr hwords hwords' hread]

end

section

variable {C : Type} [Controller C Float32 Float32]

theorem verdict_identifyMechanical {m : Motor C} {params : String} {position : Float32}
    {t : Traced Float32 (Verdict × Motor C)} (ht : m.identifyMechanical params position = .ok t) :
    t.result.1 =
      (Command.twoPositive params .invalidTargetSpeed .invalidTorqueConstant).map fun _ => () := by
  unfold identifyMechanical at ht
  cases hparams : Command.twoPositive params .invalidTargetSpeed .invalidTorqueConstant with
  | error e =>
      rw [hparams] at ht
      cases ht
      rfl
  | ok found =>
      rw [hparams] at ht
      obtain ⟨begun, -, ht⟩ := Fault.bind_eq_ok_iff.mp ht
      cases ht
      rfl

theorem identifyMechanical_congr {params params' : String} (h : ReadAlike params params')
    (m : Motor C) (position : Float32) :
    m.identifyMechanical params position = m.identifyMechanical params' position := by
  obtain ⟨words, words', hwords, hwords', hread⟩ := h
  unfold identifyMechanical
  rw [Command.twoPositive_congr hwords hwords' hread]

end

/--
**Both commands accept exactly two decimal numbers whose values round to finite ones above zero.**
Any other text is refused for the count of its words, or else for the first word that stands for no
such number.  A test that is accepted needs a factor by which it can forget as well.  Nothing but
what the words are read as makes a difference, and least of all the blanks.
-/
theorem two_positive_numbers (params : String) :
    (∃! words, Spaced params.toList words) ∧
    (∀ {C σ : Type} [Controller C Float32 σ] (m : Motor C),
      Judges .invalidResistance .invalidInductance params (m.start params).result.1) ∧
    (∀ {C : Type} [Controller C Float32 Float32] (m : Motor C) (position : Float32),
      (∀ t, m.identifyMechanical params position = .ok t →
        Judges .invalidTargetSpeed .invalidTorqueConstant params t.result.1) ∧
      Needs .forgettingFactorOutOfRange
        (WellFormed params → IsForgetting m.config.mechanical.forgetting)
        (m.identifyMechanical params position)) ∧
    (∀ word, IsPositive word ↔ ∃ digits m x, (word = digits ∨ word = '+' :: digits) ∧
      Binary32.ReadsDecimal digits m x ∧ Binary32.InRange (m * 10 ^ x)) ∧
    ∀ params', ReadAlike params params' →
      (∀ {C σ : Type} [Controller C Float32 σ] (m : Motor C), m.start params = m.start params') ∧
      ∀ {C : Type} [Controller C Float32 Float32] (m : Motor C) (position : Float32),
        m.identifyMechanical params position = m.identifyMechanical params' position := by
  refine ⟨?_, ?_, ?_, fun word => Command.isPositive_iff, ?_⟩
  · obtain ⟨words, h⟩ := Text.exists_spaced params.toList
    exact ⟨words, h, fun words' h' => h'.fields_eq.symm.trans h.fields_eq⟩
  · intro C σ _ m
    rw [verdict_start]
    exact judges_twoPositive params _ _
  · intro C _ m position
    refine ⟨fun t ht => ?_, ?_⟩
    · rw [verdict_identifyMechanical ht]
      exact judges_twoPositive params _ _
    · refine (m.needs_identifyMechanical params position).congr ?_
      exact imp_congr_left (exists_ok_twoPositive_iff params _ _)
  · intro params' h
    exact ⟨fun m => start_congr h m, fun m position => identifyMechanical_congr h m position⟩

/-- An accepted text, one whose first number rounds to zero, one whose second is infinite, and one
with a word too many. -/
theorem start_two_positive_numbers : ∃ m : Motor (TorqueLoop Float32),
    check ⟨⟨1000⟩⟩ .new .standard = .ok m ∧
      (m.start " 0.5\t+1e0 ").result.1 = .ok () ∧
      (m.start "7e-46 x").result.1 = .error .invalidResistance ∧
      (m.start "8e-46 inf").result.1 = .error .invalidInductance ∧
      (m.start "1 2 3").result.1 = .error (.invalidNumberOfArguments 2 3) := by
  obtain ⟨m, hm⟩ : ∃ m, check ⟨⟨1000⟩⟩ (.new : TorqueLoop Float32) .standard = .ok m := ⟨_, rfl⟩
  have hjudges (params : String) := (two_positive_numbers params).2.1 m
  refine ⟨m, hm, (hjudges _).accepted.mpr ⟨"0.5".toList, "+1e0".toList, ?_⟩, ?_, ?_, ?_⟩
  · exact ⟨by decide, by decide +kernel, by decide +kernel⟩
  · exact (hjudges _).first (x := "7e-46".toList) (y := "x".toList) (by decide) (by decide +kernel)
  · exact (hjudges _).second (x := "8e-46".toList) (y := "inf".toList) (by decide)
      (by decide +kernel) (by decide +kernel)
  · have hwords : Spaced "1 2 3".toList ["1".toList, "2".toList, "3".toList] := by decide
    exact (hjudges _).count hwords (by decide)

end Motor

end MotorControl
