import MotorControl.Event.Text
import MotorControl.Motor.Operation
import MotorControl.SpeedLoop.Tuner
import MotorControl.Proofs.SpeedLoop.CurrentLimit
import MotorControl.Proofs.SpeedLoop.Reset
import MotorControl.Proofs.Motor.BoardState
import MotorControl.Proofs.Motor.Refusal
import MotorControl.Proofs.Motor.Termination
import MotorControl.Proofs.SpeedLoop.Replay
import MotorControl.Proofs.Exact
import MotorControl.Proofs.Exact.Matrix
import MotorControl.Proofs.LeastSquares.Covariance
import MotorControl.Proofs.LeastSquares.Optimum
import MotorControl.Proofs.LeastSquares.Overflow
import MotorControl.Proofs.Session.ElectricalTest.Schedule
import MotorControl.Proofs.Session.ElectricalTest.PolePairs
import MotorControl.Proofs.Motor.CommandedSpeed
import MotorControl.Proofs.Motor.Gains
import MotorControl.Proofs.Motor.Knowledge
import MotorControl.Proofs.Session.ClosedLoop
import MotorControl.Proofs.Session.Interlock
import MotorControl.Proofs.Motor.Interlock
import MotorControl.Proofs.Motor.Instructions
import MotorControl.Proofs.Motor.TearDown
import MotorControl.Proofs.Motor.Ranges
import MotorControl.Proofs.Motor.Faults
import MotorControl.Proofs.SpeedLoop.SelfTuning
import MotorControl.Proofs.TorqueLoop.Latch
import MotorControl.Proofs.SpeedLoop.Measurement
import MotorControl.Proofs.Exact.Modulation
import MotorControl.Proofs.Exact.AppliedVoltage
import MotorControl.Proofs.Motor.Grammar
import MotorControl.Proofs.Exact.Regulator
import MotorControl.Proofs.TorqueLoop.BusVoltage
import MotorControl.Proofs.Session.MechanicalTest.Course
import MotorControl.Proofs.Session.ElectricalTest.Independence
import MotorControl.Proofs.Angle.Direction
import MotorControl.Proofs.SpeedLoop.Disabled
import MotorControl.Proofs.LeastSquares.Overdrawn
import MotorControl.Proofs.Motor.Rotor
import MotorControl.Proofs.Angle.Wrap
