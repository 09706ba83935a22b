/-
Binary32 numbers as scalars.

These are the scalars the library runs on: IEEE 754 binary32 arithmetic, each
operation rounded once to nearest with ties to even, comparisons false on an
undefined number, and conversions to words that move what does not fit to the
nearest end of the range.
-/
import MotorControl.Scalar
import MotorControl.Binary32.Rounding

namespace MotorControl

instance : Scalar Float32 where
  ofNat := Float32.ofNat
  decideLT := Float32.decLt
  decideLE := Float32.decLe
  pi := 3.14159265358979
  tau := 6.28318530717959
  sqrtThree := 1.7320508
  invSqrtThree := 0.57735027
  undefined := 0.0 / 0.0
  abs := Float32.abs
  floor := Binary32.floor
  round := Binary32.round
  isFinite := Float32.isFinite
  toUInt8 := Float32.toUInt8
  toUInt32 := Float32.toUInt32
  toFixed? := Binary32.toFixed?

end MotorControl
