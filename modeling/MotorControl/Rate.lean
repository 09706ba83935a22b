/-
Sampling rates.

A rate counts samples per second.  The outer of two nested loops runs once in
`OuterRatio` samples of the inner one.
-/
import MotorControl.Fault
import MotorControl.Scalar

namespace MotorControl

/-- A number of samples per second. -/
structure Hertz where
  value : UInt32
  deriving DecidableEq, Repr

namespace Hertz

variable {α : Type} [Scalar α]

/-- The rate as a scalar. -/
def toScalar (f : Hertz) : α := Scalar.ofNat f.value.toNat

/-- The time between two samples, in seconds. -/
def period (f : Hertz) : α := 1 / f.toScalar

/-- The number of samples in a time, rounded to the nearest and at least one.  A time that is too
long for a word counts as the longest one, and an undefined time as none. -/
def samplesIn (f : Hertz) (seconds : α) : UInt32 :=
  max (Scalar.toUInt32 (Scalar.round (seconds * f.toScalar))) 1

end Hertz

/-- How many samples of the inner loop make one of the outer loop. -/
structure OuterRatio where
  value : UInt8
  pos : 0 < value
  lt_twenty : value < 20
  deriving DecidableEq, Repr

namespace OuterRatio

/-- The ratio with a given value, which must lie within 1 to 19. -/
def check (n : UInt8) : Except Fault OuterRatio :=
  if h : 0 < n ∧ n < 20 then .ok ⟨n, h.1, h.2⟩ else .error .outerRatioOutOfRange

variable {α : Type} [Scalar α]

/-- The ratio as a scalar. -/
def toScalar (n : OuterRatio) : α := Scalar.ofNat n.value.toNat

/-- The rate of the outer loop, in samples per second. -/
def outerFrequency (n : OuterRatio) (inner : Hertz) : α := inner.toScalar / n.toScalar

/-- The time between two samples of the outer loop, in seconds. -/
def outerPeriod (n : OuterRatio) (inner : Hertz) : α := n.toScalar / inner.toScalar

end OuterRatio

end MotorControl
