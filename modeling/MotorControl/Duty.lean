/-
Duty cycles.

A half bridge is told the share of a period it conducts in whole percent.  Shares
come out of the modulation as fractions; they are rounded to the nearest percent
and what lies outside the range is moved to its nearer end.
-/
import MotorControl.Scalar

namespace MotorControl

/-- A share in whole percent. -/
structure Percent where
  value : UInt8
  le_hundred : value ≤ 100
  deriving DecidableEq, Repr

namespace Percent

/-- The share with a given value; one above a hundred is a hundred. -/
def ofUInt8 (n : UInt8) : Percent :=
  if h : n ≤ 100 then ⟨n, h⟩ else ⟨100, by decide⟩

/-- One half. -/
def half : Percent := ⟨50, by decide⟩

/-- A fraction of one, rounded to whole percent and moved into the range.  An undefined fraction is
no share at all. -/
def ofFraction {α : Type} [Scalar α] (x : α) : Percent :=
  ofUInt8 (Scalar.toUInt8 (Scalar.clamp (Scalar.round (x * 100)) 0 100))

end Percent

/-- One value for each of the three phases. -/
structure Phases (α : Type) where
  a : α
  b : α
  c : α
  deriving DecidableEq, Repr

/-- Applies a function to each phase. -/
def Phases.map {α β : Type} (f : α → β) (p : Phases α) : Phases β := ⟨f p.a, f p.b, f p.c⟩

/-- The shares of the three half bridges. -/
abbrev Duties := Phases Percent

namespace Duties

/-- The same half for each: no voltage between any two phases. -/
def centered : Duties := ⟨.half, .half, .half⟩

/-- The duties nearest to three fractions. -/
def ofFractions {α : Type} [Scalar α] (f : Phases α) : Duties := f.map .ofFraction

/-- The three shares as a list of numbers. -/
def text (d : Duties) : String :=
  let share (p : Percent) := toString p.value.toNat
  "[" ++ share d.a ++ ", " ++ share d.b ++ ", " ++ share d.c ++ "]"

end Duties

end MotorControl
