/-
A slot for one value between two contexts.

The sampling context stores, the context of low priority takes.  Storing overwrites,
so only the latest value is ever seen, and it is taken at most once.
-/
import MotorControl.Scalar

namespace MotorControl

/-- A slot for one value. -/
structure Handoff (α : Type) where
  /-- The last value stored, taken or not. -/
  latest : α
  /-- Whether a value was stored since the last one was taken. -/
  pending : Bool
  deriving DecidableEq, Repr

namespace Handoff

variable {α : Type}

/-- A slot in which nothing was ever stored. -/
def empty [Scalar α] : Handoff α := ⟨0, false⟩

/-- Stores a value over any that was not taken. -/
def store (_ : Handoff α) (x : α) : Handoff α := ⟨x, true⟩

/-- The latest value, if it was not taken before. -/
def take (h : Handoff α) : Option α × Handoff α :=
  (if h.pending then some h.latest else none, { h with pending := false })

/-- Forgets the value. -/
def clear [Scalar α] (_ : Handoff α) : Handoff α := empty

/-- A value is taken as it was stored. -/
@[simp] theorem take_store (h : Handoff α) (x : α) : (h.store x).take = (some x, ⟨x, false⟩) := rfl

/-- Of two values only the later one is seen. -/
@[simp] theorem store_store (h : Handoff α) (x y : α) : (h.store x).store y = h.store y := rfl

/-- A value is taken at most once. -/
@[simp] theorem take_take (h : Handoff α) : h.take.2.take = (none, h.take.2) := rfl

/-- Nothing can be taken from a cleared slot. -/
@[simp] theorem take_clear [Scalar α] (h : Handoff α) : h.clear.take = (none, h.clear) := rfl

end Handoff

end MotorControl
