/-
Numbers as text.

A `Layout` fixes how the digits of a number are set: which of them are written
positionally, and whether an integral number keeps a zero after the point.  The
digits are the fewest that read back.
-/
import MotorControl.Decimal.Shortest

namespace MotorControl.Decimal

/-- How a number is set. -/
structure Layout where
  /-- Whether an integral number, written positionally, ends in `.0`. -/
  keepsPoint : Bool
  /-- The exponents of the leading digit that are written positionally, from the first to below
  the second; all of them where no bounds are given. -/
  positional : Option (Int × Int)

namespace Layout

/-- Always positional, and nothing after the point of an integral number. -/
def plain : Layout := ⟨false, none⟩

/-- A point always, and an exponent from `10 ^ 16` up and below `10 ^ -4`. -/
def pointed : Layout := ⟨true, some (-4, 16)⟩

/-- Whether a number with its leading digit at `10 ^ lead` is written positionally. -/
def isPositional (l : Layout) (lead : Int) : Bool :=
  match l.positional with
  | none => true
  | some (first, limit) => first ≤ lead && lead < limit

/-- The text of a positive number. -/
def write (l : Layout) (d : Digits) : String :=
  let ds := Nat.toDigits 10 d.digits
  let lead := d.exponent + ds.length - 1
  if l.isPositional lead then
    if 0 ≤ d.exponent then
      String.ofList (ds ++ List.replicate d.exponent.toNat '0')
        ++ (if l.keepsPoint then ".0" else "")
    else if 0 ≤ lead then
      let whole := (lead + 1).toNat
      String.ofList (ds.take whole) ++ "." ++ String.ofList (ds.drop whole)
    else
      "0." ++ String.ofList (List.replicate (-lead - 1).toNat '0' ++ ds)
  else
    let fraction := ds.drop 1
    String.ofList (ds.take 1) ++ (if fraction.isEmpty then "" else "." ++ String.ofList fraction)
      ++ "e" ++ toString lead

/-- The text of zero. -/
def writeZero (l : Layout) : String :=
  if l.keepsPoint then "0.0" else "0"

end Layout

end MotorControl.Decimal
