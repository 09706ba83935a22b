/-
The grammar of the commands that carry two numbers.

The words of such a command are counted first.  Two of them are read, the second only if
the first stands for a finite number above zero.  `Judged` gives each of the four
outcomes a rule of its own, and reading a command follows the rules.

A word stands for a finite number above zero if it is a decimal number without a minus
whose exact value is in range.  Nothing else about its spelling matters, and nothing
about the blanks around it.
-/
import MotorControl.Command
import MotorControl.Proofs.Binary32.Decimal
import MotorControl.Proofs.Binary32.Literal
import MotorControl.Proofs.Text.Fields

namespace MotorControl.Command

open Text (Spaced fields_eq_iff)

/-! ### Numbers above zero -/

/-- A word stands for a finite number above zero. -/
structure StandsFor (word : List Char) (v : Float32) : Prop where
  reads : Binary32.Reads word v
  finite : v.isFinite = true
  pos : 0 < v

/-- A word that stands for some finite number above zero. -/
def IsPositive (word : List Char) : Prop := ∃ v, StandsFor word v

variable {word : List Char} {v : Float32}

theorem positive?_eq_some_iff : positive? word = some v ↔ StandsFor word v := by
  unfold positive?
  rw [Option.filter_eq_some_iff, Binary32.read?_eq_some_iff, Bool.and_eq_true, decide_eq_true_iff]
  exact ⟨fun ⟨hreads, hfinite, hpos⟩ => ⟨hreads, hfinite, hpos⟩,
    fun ⟨hreads, hfinite, hpos⟩ => ⟨hreads, hfinite, hpos⟩⟩

theorem positive?_eq_none_iff : positive? word = none ↔ ¬ IsPositive word := by
  rw [Option.eq_none_iff_forall_ne_some, IsPositive, not_exists]
  exact forall_congr' fun v => not_congr positive?_eq_some_iff

instance : Decidable (IsPositive word) :=
  decidable_of_iff (positive? word ≠ none) (by rw [ne_eq, positive?_eq_none_iff, not_not])

/-- A magnitude stands for a finite number above zero if it is a decimal number in range. -/
theorem exists_decimal_of_pos (h : Binary32.ReadsMagnitude word v) (hfinite : v.isFinite = true)
    (hpos : 0 < v) : ∃ m x, Binary32.ReadsDecimal word m x ∧ Binary32.InRange (m * 10 ^ x) := by
  cases h with
  | @decimal m x h =>
      have hparts := Binary32.isPositive_parts_iff.mpr ⟨hfinite, hpos⟩
      exact ⟨m, x, h, (Binary32.isPositive_ofDecimal_iff m x).mp hparts⟩
  | infinity | nan => exact absurd hfinite (by decide +kernel)

/-- With a minus before it, no magnitude stands for a number above zero. -/
theorem not_pos_neg (h : Binary32.ReadsMagnitude word v) : ¬ 0 < -v := by
  cases h with
  | @decimal m x h =>
      intro hpos
      have hsign := Binary32.sign?_of_pos hpos
      rw [Binary32.sign?_neg, Binary32.sign?_ofDecimal] at hsign
      cases hsign
  | infinity | nan => decide +kernel

theorem isPositive_iff : IsPositive word ↔ ∃ digits m x, (word = digits ∨ word = '+' :: digits) ∧
    Binary32.ReadsDecimal digits m x ∧ Binary32.InRange (m * 10 ^ x) := by
  constructor
  · rintro ⟨v, hreads, hfinite, hpos⟩
    cases hreads with
    | plain h =>
        obtain ⟨m, x, hdecimal, hrange⟩ := exists_decimal_of_pos h hfinite hpos
        exact ⟨_, m, x, .inl rfl, hdecimal, hrange⟩
    | plus h =>
        obtain ⟨m, x, hdecimal, hrange⟩ := exists_decimal_of_pos h hfinite hpos
        exact ⟨_, m, x, .inr rfl, hdecimal, hrange⟩
    | minus h => exact absurd hpos (not_pos_neg h)
  · rintro ⟨digits, m, x, hword, hdecimal, hrange⟩
    have hparts := (Binary32.isPositive_ofDecimal_iff m x).mpr hrange
    obtain ⟨hfinite, hpos⟩ := Binary32.isPositive_parts_iff.mp hparts
    refine ⟨Binary32.ofDecimal m x, ?_, hfinite, hpos⟩
    obtain rfl | rfl := hword
    · exact .plain (.decimal hdecimal)
    · exact .plus (.decimal hdecimal)

/-! ### Two numbers -/

/-- What the words of a command with two numbers are answered with. -/
inductive Judged (first second : CommandError) :
    List (List Char) → Except CommandError (Float32 × Float32) → Prop
  | count {words : List (List Char)} (h : words.length ≠ 2) :
      Judged first second words (.error (.invalidNumberOfArguments 2 words.length))
  | first {x y : List Char} (hx : ¬ IsPositive x) : Judged first second [x, y] (.error first)
  | second {x y : List Char} (hx : IsPositive x) (hy : ¬ IsPositive y) :
      Judged first second [x, y] (.error second)
  | accepted {x y : List Char} {v w : Float32} (hx : StandsFor x v) (hy : StandsFor y w) :
      Judged first second [x, y] (.ok (v, w))

theorem judged_twoPositive {params : String} {words : List (List Char)}
    (h : Spaced params.toList words) (first second : CommandError) :
    Judged first second words (twoPositive params first second) := by
  unfold twoPositive
  rw [h.fields_eq]
  split
  · rename_i x y
    split
    · rename_i hx hy
      exact .accepted (positive?_eq_some_iff.mp hx) (positive?_eq_some_iff.mp hy)
    · rename_i hx
      exact .first (positive?_eq_none_iff.mp hx)
    · rename_i hx hy
      exact .second ⟨_, positive?_eq_some_iff.mp hx⟩ (positive?_eq_none_iff.mp hy)
  · rename_i hwords
    exact .count fun hlength => by
      obtain ⟨x, y, rfl⟩ := List.length_eq_two.mp hlength
      exact hwords x y rfl

namespace Judged

variable {first second : CommandError} {words : List (List Char)} {x y : List Char}
  {answer : Except CommandError (Float32 × Float32)}

theorem eq_of_length (h : Judged first second words answer) (hlength : words.length ≠ 2) :
    answer = .error (.invalidNumberOfArguments 2 words.length) := by
  cases h with
  | count => rfl
  | first | second | accepted => exact absurd rfl hlength

theorem eq_first (h : Judged first second [x, y] answer) (hx : ¬ IsPositive x) :
    answer = .error first := by
  cases h with
  | count hlength => exact absurd rfl hlength
  | first => rfl
  | second hx' => exact absurd hx' hx
  | accepted hx' => exact absurd ⟨_, hx'⟩ hx

theorem eq_second (h : Judged first second [x, y] answer) (hx : IsPositive x)
    (hy : ¬ IsPositive y) : answer = .error second := by
  cases h with
  | count hlength => exact absurd rfl hlength
  | first hx' => exact absurd hx hx'
  | second => rfl
  | accepted _ hy' => exact absurd ⟨_, hy'⟩ hy

theorem exists_ok_iff (h : Judged first second words answer) :
    (∃ found, answer = .ok found) ↔ ∃ x y, words = [x, y] ∧ IsPositive x ∧ IsPositive y := by
  constructor
  · rintro ⟨found, rfl⟩
    cases h with
    | accepted hx hy => exact ⟨_, _, rfl, ⟨_, hx⟩, ⟨_, hy⟩⟩
  · rintro ⟨x, y, rfl, hx, hy⟩
    cases h with
    | count hlength => exact absurd rfl hlength
    | first hx' => exact absurd hx hx'
    | second _ hy' => exact absurd hy hy'
    | accepted => exact ⟨_, rfl⟩

end Judged

/-- What the words are read as is all that the answer depends on. -/
theorem twoPositive_congr {params params' : String} {words words' : List (List Char)}
    (h : Spaced params.toList words) (h' : Spaced params'.toList words')
    (hread : words.map Binary32.read? = words'.map Binary32.read?) (first second : CommandError) :
    twoPositive params first second = twoPositive params' first second := by
  have hlength : words.length = words'.length := by simpa using congrArg List.length hread
  by_cases htwo : words.length = 2
  · obtain ⟨x, y, rfl⟩ := List.length_eq_two.mp htwo
    obtain ⟨x', y', rfl⟩ := List.length_eq_two.mp (hlength.symm.trans htwo)
    obtain ⟨hx, hy⟩ : Binary32.read? x = Binary32.read? x' ∧ Binary32.read? y = Binary32.read? y' := by
      simpa using hread
    unfold twoPositive positive?
    simp only [h.fields_eq, h'.fields_eq, hx, hy]
  · rw [(judged_twoPositive h first second).eq_of_length htwo,
      (judged_twoPositive h' first second).eq_of_length (hlength ▸ htwo), hlength]

end MotorControl.Command
