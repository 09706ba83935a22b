/-
The fewest decimal digits that read back.

A binary number stands for every real number that rounds to it: an interval around
its exact value, with the ends included when ties go to it.  `digits` looks for the
coarsest power of ten that has a multiple in the interval and answers that
multiple; of two multiples it takes the nearer one, and at an exact tie the larger.
Coarser grids give fewer digits, so no shorter decimal reads back.

Everything is compared in exact natural arithmetic: `c * 10 ^ j` and `b * 2 ^ p` by
multiplying both sides until no exponent is negative.
-/

namespace MotorControl.Decimal

/-- The reals that round to a binary number: from `low` to `high` around `mid`, all three in units
of `2 ^ exponent`. -/
structure Interval where
  low : Nat
  mid : Nat
  high : Nat
  exponent : Int
  /-- Whether the two ends belong to the interval. -/
  closed : Bool

/-- A positive decimal number, `digits * 10 ^ exponent`. -/
structure Digits where
  digits : Nat
  exponent : Int
  deriving DecidableEq, Repr

/-- A power of ten. -/
def ten (n : Nat) : Nat := Nat.pow 10 n

/-- Compares `c * 10 ^ j` with `b * 2 ^ p`. -/
def compareScaled (c : Nat) (j : Int) (b : Nat) (p : Int) : Ordering :=
  compare ((c * ten j.toNat) <<< (-p).toNat) ((b * ten (-j).toNat) <<< p.toNat)

namespace Interval

/-- Whether a decimal number lies in the interval. -/
def contains (v : Interval) (d : Digits) : Bool :=
  match compareScaled d.digits d.exponent v.low v.exponent,
    compareScaled d.digits d.exponent v.high v.exponent with
  | .gt, .lt => true
  | .eq, _ => v.closed
  | _, .eq => v.closed
  | _, _ => false

/-- The largest multiple of `10 ^ j` that is not above the middle, as a count. -/
def below (v : Interval) (j : Int) : Nat :=
  ((v.mid * ten (-j).toNat) <<< v.exponent.toNat) / (ten j.toNat <<< (-v.exponent).toNat)

/-- Whether the middle is nearer to `c * 10 ^ j` than to the next multiple of `10 ^ j`. -/
def isNearer (v : Interval) (c : Nat) (j : Int) : Bool :=
  compareScaled (2 * c + 1) j (2 * v.mid) v.exponent == .gt

/-- The multiple of `10 ^ j` in the interval that is nearest to the middle, if there is one. -/
def multiple? (v : Interval) (j : Int) : Option Digits :=
  let lower : Digits := ⟨v.below j, j⟩
  let upper : Digits := ⟨v.below j + 1, j⟩
  match v.contains lower && lower.digits != 0, v.contains upper with
  | true, true => some (if v.isNearer lower.digits j then lower else upper)
  | true, false => some lower
  | false, true => some upper
  | false, false => none

/-- The decimal number with the fewest digits in the interval.  The search starts at `10 ^ top`,
above the number, and ends at the latest where the middle itself is a multiple. -/
def digits (v : Interval) (top : Nat) : Digits :=
  let powers := (List.range (top + 1 + (-v.exponent).toNat)).map fun (i : Nat) => (top : Int) - i
  (powers.findSome? v.multiple?).getD ⟨v.mid, 0⟩

end Interval

end MotorControl.Decimal
