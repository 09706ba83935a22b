/-
Binary32 numbers as text, and text as binary32 numbers.

A number is written with the fewest digits that read back, and a decimal text is
read as the binary32 number nearest to its exact value.
-/
import MotorControl.Decimal.Text

namespace MotorControl.Binary32

open Float.Model
open MotorControl.Decimal

/-- The reals that round to `m * 2 ^ e`.  Below a power of two the numbers lie half as far apart,
except at the smallest exponent. -/
def interval (m : Nat) (e : Int) : Interval where
  low := 4 * m - (if m = 8388608 ∧ -149 < e then 1 else 2)
  mid := 4 * m
  high := 4 * m + 2
  exponent := e - 2
  closed := m % 2 == 0

/-- The sign as it is written. -/
def signText : UnpackedFloat.Sign → String
  | .negative => "-"
  | .positive => ""

/-- The text of a number. -/
def text (layout : Layout) (x : Float32) : String :=
  match x.toModel.unpack with
  | .notANumber => "NaN"
  | .infinity sign => signText sign ++ "inf"
  | .zero sign => signText sign ++ layout.writeZero
  | .finite sign m e _ => signText sign ++ layout.write ((interval m e).digits 39)

/-- The bit pattern of a number in eight hexadecimal digits.  Every undefined number is written
alike. -/
def bitText (x : Float32) : String :=
  if x.isNaN then "nan"
  else
    let digits := Nat.toDigits 16 x.toBits.toNat
    String.ofList (List.replicate (8 - digits.length) '0' ++ digits)

/-! ### Reading -/

/-- A run of decimal digits as a number. -/
def natOfDigits (ds : List Char) : Nat :=
  ds.foldl (fun n c => 10 * n + (c.toNat - '0'.toNat)) 0

/-- An exponent: an optional sign, then digits. -/
def exponent? (cs : List Char) : Option Int :=
  let number? (ds : List Char) : Option Int :=
    if !ds.isEmpty && ds.all Char.isDigit then some (natOfDigits ds) else none
  match cs with
  | '-' :: ds => (number? ds).map (- ·)
  | '+' :: ds => number? ds
  | ds => number? ds

/-- A decimal number without its sign, as digits and a power of ten: digits with an optional point,
at least one digit in all, then an optional exponent. -/
def decimal? (cs : List Char) : Option (Nat × Int) :=
  let whole := cs.takeWhile Char.isDigit
  let afterWhole := cs.dropWhile Char.isDigit
  let (fraction, afterFraction) :=
    match afterWhole with
    | '.' :: r => (r.takeWhile Char.isDigit, r.dropWhile Char.isDigit)
    | r => ([], r)
  if whole.isEmpty && fraction.isEmpty then none
  else
    let number := natOfDigits (whole ++ fraction)
    match afterFraction with
    | [] => some (number, -fraction.length)
    | c :: r =>
      if c = 'e' ∨ c = 'E' then
        (exponent? r).map fun x => (number, x - fraction.length)
      else none

/-- The number nearest to `m * 10 ^ x`. -/
def ofDecimal (m : Nat) (x : Int) : Float32 :=
  Float32.ofScientific m (x < 0) x.natAbs

/-- The magnitude that a text without sign stands for.  The three names are read in any case. -/
def magnitude? (cs : List Char) : Option Float32 :=
  match decimal? cs with
  | some (m, x) => some (ofDecimal m x)
  | none =>
    let name := String.ofList (cs.map Char.toLower)
    if name = "inf" ∨ name = "infinity" then some (1.0 / 0.0)
    else if name = "nan" then some (0.0 / 0.0)
    else none

/-- The number a text stands for: an optional sign, then a magnitude. -/
def read? (cs : List Char) : Option Float32 :=
  match cs with
  | '-' :: r => (magnitude? r).map (- ·)
  | '+' :: r => magnitude? r
  | r => magnitude? r

end MotorControl.Binary32
