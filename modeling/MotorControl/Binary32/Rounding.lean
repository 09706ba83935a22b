/-
Binary32 numbers as integers times powers of two.

A finite binary32 number is a sign, a whole mantissa and an exponent of two, so
each rounding of it to integers, or to multiples of a power of two, is one division
of natural numbers.  The definitions here read the number that way and never leave
exact arithmetic, which is why they agree with the mathematical rounding on every
number, the largest and the subnormal ones included.
-/

namespace MotorControl.Binary32

open Float.Model

/-- The integer nearest to `m * 2 ^ e`; a tie goes to the even neighbour. -/
def nearestEven (m : Nat) (e : Int) : Nat :=
  if 0 ≤ e then m <<< e.toNat
  else
    let unit := 1 <<< (-e).toNat
    let below := m / unit
    match compare (2 * (m % unit)) unit with
    | .lt => below
    | .eq => below + below % 2
    | .gt => below + 1

/-- The largest integer that is not above the number; zeros keep their sign. -/
def floor (x : Float32) : Float32 :=
  match x.toModel.unpack with
  | .finite sign m e _ =>
    if 0 ≤ e then x
    else
      let unit := 1 <<< (-e).toNat
      match sign with
      | .positive => Float32.ofNat (m / unit)
      | .negative => -Float32.ofNat ((m + (unit - 1)) / unit)
  | _ => x

/-- The nearest integer; a half goes away from zero, and the sign stays also on a zero. -/
def round (x : Float32) : Float32 :=
  match x.toModel.unpack with
  | .finite sign m e _ =>
    if 0 ≤ e then x
    else
      let unit := 1 <<< (-e).toNat
      let nearest := Float32.ofNat ((2 * m + unit) / (2 * unit))
      match sign with
      | .positive => nearest
      | .negative => -nearest
  | _ => x

/-- The nearest multiple of `2 ^ -16`, as a count of them, if a signed 32-bit word holds it. -/
def toFixed? (x : Float32) : Option Int :=
  match x.toModel.unpack with
  | .zero _ => some 0
  | .finite sign m e _ =>
    let count := sign.apply (nearestEven m (e + 16))
    if -2147483648 ≤ count ∧ count < 2147483648 then some count else none
  | _ => none

end MotorControl.Binary32
