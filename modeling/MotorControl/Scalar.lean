/-
The arithmetic the library is written over.

Every formula of the library is stated once, over a type of scalars with the four
operations, a decidable order and the few roundings a controller needs.  Run on
hardware the scalars are binary32 numbers, with one rounding per operation and in
the order the formula is written; read as mathematics they are exact numbers.
The class lists operations only and asks for no law, because the rounded
operations keep few: a theorem names the scalars it is about.
-/

namespace MotorControl

/-- Numbers a controller can compute with. -/
class Scalar (α : Type) extends Add α, Sub α, Mul α, Div α, Neg α, LT α, LE α, OfScientific α where
  /-- The number nearest to a natural number. -/
  ofNat : Nat → α
  /-- Whether one number lies below another. -/
  decideLT : DecidableLT α
  /-- Whether one number lies below another or equals it. -/
  decideLE : DecidableLE α
  /-- Half a turn. -/
  pi : α
  /-- A whole turn. -/
  tau : α
  /-- The square root of three. -/
  sqrtThree : α
  /-- The inverse of the square root of three. -/
  invSqrtThree : α
  /-- What a computation answers where no number is the answer. -/
  undefined : α
  /-- The magnitude. -/
  abs : α → α
  /-- The largest integer that is not above the number. -/
  floor : α → α
  /-- The nearest integer; a half goes away from zero. -/
  round : α → α
  /-- Whether the number is neither infinite nor undefined. -/
  isFinite : α → Bool
  /-- The integer part, moved into the range of a byte. -/
  toUInt8 : α → UInt8
  /-- The integer part, moved into the range of a word. -/
  toUInt32 : α → UInt32
  /-- The nearest multiple of `2 ^ -16`, as a count of them, if a signed word holds it; a tie goes
  to the even neighbour. -/
  toFixed? : α → Option Int

namespace Scalar

variable {α : Type} [Scalar α]

instance : DecidableLT α := Scalar.decideLT

instance : DecidableLE α := Scalar.decideLE

/-- A numeral is the number nearest to it. -/
instance (priority := low) instOfNat {n : Nat} : OfNat α n := ⟨Scalar.ofNat n⟩

/-- The number nearest to an integer. -/
def ofInt : Int → α
  | .ofNat n => Scalar.ofNat n
  | .negSucc n => -Scalar.ofNat (n + 1)

/-- The distance from one to the next larger binary32 number, `2 ^ -23`. -/
def epsilon : α := 1 / 8388608

/-- The number moved into the range from `lo` to `hi`; an undefined number stays undefined. -/
def clamp (x lo hi : α) : α :=
  if x < lo then lo else if hi < x then hi else x

end Scalar

end MotorControl
