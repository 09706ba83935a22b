/-
Answers fixed beforehand.
-/

namespace MotorControl

/-- Answers that are given in order, whatever is asked. -/
structure Script (β : Type) where
  /-- The answers that are left. -/
  answers : List β
  /-- How many times it was asked. -/
  calls : Nat

namespace Script

variable {β : Type}

/-- A script that was not asked yet. -/
def ofList (answers : List β) : Script β := ⟨answers, 0⟩

/-- The next answer, if one is left. -/
def next (s : Script β) : Option β × Script β :=
  (s.answers.head?, ⟨s.answers.tail, s.calls + 1⟩)

end Script

end MotorControl
