/-
What a value can be refused for when it is built.

A fault is a mistake in the configuration of a controller.  It can only arise where
a value is made from numbers it does not accept; a value that was built is sound.
-/

namespace MotorControl

/-- The reasons for which a value cannot be built. -/
inductive Fault where
  /-- The ratio between two loop rates is not within 1 to 19. -/
  | outerRatioOutOfRange
  /-- A range whose lower end does not lie below its upper end. -/
  | emptyLimits
  /-- A current limit that is not above zero. -/
  | nonPositiveMaxCurrent
  /-- A seed of the covariance that is not above zero. -/
  | nonPositiveCovariance
  /-- A forgetting factor that does not lie strictly between zero and one. -/
  | forgettingFactorOutOfRange
  deriving DecidableEq, Repr

/-- The sentence a fault is reported with. -/
def Fault.message : Fault → String
  | .outerRatioOutOfRange => "nyquist factor out of range"
  | .emptyLimits => "pid limits must satisfy min < max"
  | .nonPositiveMaxCurrent => "max current must be positive"
  | .nonPositiveCovariance => "initial covariance must be positive"
  | .forgettingFactorOutOfRange => "forgetting factor must be within (0, 1)"

/-! ### Programs that can fault -/

/-- What goes through went through in each of its steps. -/
theorem Fault.bind_eq_ok_iff {β γ : Type} {x : Except Fault β} {f : β → Except Fault γ} {c : γ} :
    x >>= f = .ok c ↔ ∃ b, x = .ok b ∧ f b = .ok c := by
  cases x with
  | error fault =>
      constructor
      · intro h; cases h
      · rintro ⟨b, hb, -⟩; cases hb
  | ok b =>
      constructor
      · intro h; exact ⟨b, rfl, h⟩
      · rintro ⟨b', hb, h⟩; cases hb; exact h

theorem Fault.map_eq_ok_iff {β γ : Type} {x : Except Fault β} {f : β → γ} {c : γ} :
    f <$> x = .ok c ↔ ∃ b, x = .ok b ∧ f b = c := by
  rw [map_eq_pure_bind, Fault.bind_eq_ok_iff]
  exact exists_congr fun b => and_congr_right fun _ => ⟨Except.ok.inj, congrArg _⟩

end MotorControl
