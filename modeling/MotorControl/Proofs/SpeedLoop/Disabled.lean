/-
A disabled loop puts no voltage between the phases.

A disabled regulator answers zero and takes no notice of what was measured, so the voltage
is a zero turned by the direction of the rotor.  Where the direction is undefined this is
undefined, and the duties are none; everywhere else the direction is finite, its products
with zero are zeros of either sign, and each of the four vectors of such zeros is put on
the windings as three halves.

Being disabled with a cleared history is kept by every call that does not arm the loop:
samples change nothing, and settings and the current that waits in the handoff go to
fields that the clearing does not touch.  What happened before the loop was disabled has no
part in it.
-/
import MotorControl.Proofs.Angle.Direction
import MotorControl.Proofs.TorqueLoop.Latch

namespace MotorControl

open Controller (Call call after after_append)

/-! ### The voltage zero -/

namespace Binary32

open Float.Model (UnpackedFloat)
open Float.Model.UnpackedFloat

/-- A finite number times zero is a zero. -/
theorem mul_zero_cases {x : Float32} (hx : x.isFinite = true) : x * 0 = 0 ∨ x * 0 = -0 := by
  have hpositive : Float32.ofModel (.pack (.zero .positive)) = 0 := by decide +kernel
  have hnegative : Float32.ofModel (.pack (.zero .negative)) = -0 := by decide +kernel
  have hproduct : x * 0 = Float32.ofModel (.pack ((parts x).mul .binary32 (.zero .positive))) := rfl
  rw [isFinite_eq] at hx
  rw [hproduct]
  cases hparts : parts x with
  | notANumber | infinity => rw [hparts] at hx; cases hx
  | zero s | finite s =>
      cases s with
      | positive => exact Or.inl hpositive
      | negative => exact Or.inr hnegative

end Binary32

namespace Angle

theorem isFinite_direction {angle : Float32} (h : (direction angle).cos.isNaN = false) :
    (direction angle).cos.isFinite = true ∧ (direction angle).sin.isFinite = true := by
  by_cases hfits : Fits (wrap angle)
  · obtain ⟨c, s, hc, hs, -⟩ := direction_of_fits hfits
    exact ⟨Binary32.isFinite_of_value? hc, Binary32.isFinite_of_value? hs⟩
  · rw [direction_of_not_fits hfits] at h
    exact absurd h (by decide +kernel)

end Angle

/-- No voltage in the frame of the rotor is none on the windings, if the rotor has a direction. -/
theorem Rotating.modulate_toStationary_zero {r : Direction Float32} (hcos : r.cos.isFinite = true)
    (hsin : r.sin.isFinite = true) :
    ((⟨0, 0⟩ : Rotating Float32).toStationary r).modulate = .centered := by
  have hvector : (⟨0, 0⟩ : Rotating Float32).toStationary r =
      ⟨r.cos * 0 - r.sin * 0, r.sin * 0 + r.cos * 0⟩ := rfl
  rw [hvector]
  rcases Binary32.mul_zero_cases hcos with hc | hc <;>
    rcases Binary32.mul_zero_cases hsin with hs | hs <;>
    rw [hc, hs] <;> decide +kernel

/-! ### Torque loops -/

namespace TorqueLoop

/-- What a sample makes of a torque loop that is at rest. -/
structure Rests (t : TorqueLoop Float32) (angle : Float32) (answer : Option Duties)
    (next : TorqueLoop Float32) : Prop where
  /-- Three equal duties: a half for each phase, and none where the direction is undefined. -/
  duties : answer = some
    (if (Angle.direction (angle * t.polePairs)).cos.isNaN then .zero else .centered)
  /-- The sample leaves gains, set points and history as they are. -/
  unchanged : next = t
  /-- The loop is disabled, and its history is cleared. -/
  cleared : t.disable = t

theorem rests_of_disable {t : TorqueLoop Float32} (ht : t.disable = t) (currents : Phases Float32)
    (angle : Float32) :
    t.Rests angle (some (t.calculate currents angle).1) (t.calculate currents angle).2 := by
  have hd : t.d.enabled = false := (congrArg (fun t => t.d.enabled) ht).symm
  have hq : t.q.enabled = false := (congrArg (fun t => t.q.enabled) ht).symm
  have hcalculate : t.calculate currents angle =
      (((⟨0, 0⟩ : Rotating Float32).toStationary
        (Angle.direction (angle * t.polePairs))).modulate, t) := by
    unfold calculate voltage
    simp only [Regulator.process_of_disabled hd, Regulator.process_of_disabled hq]
  rw [hcalculate]
  refine ⟨congrArg some ?_, rfl, ht⟩
  generalize hdirection : Angle.direction (angle * t.polePairs) = direction
  by_cases hnan : direction.cos.isNaN = true
  · rw [if_pos hnan]
    exact Stationary.modulate_of_isNaN
      (Binary32.isNaN_add (.inr (Binary32.isNaN_mul (.inl hnan))))
  · rw [if_neg hnan]
    rw [Bool.not_eq_true, ← hdirection] at hnan
    obtain ⟨hcos, hsin⟩ := Angle.isFinite_direction hnan
    rw [hdirection] at hcos hsin
    exact Rotating.modulate_toStationary_zero hcos hsin

end TorqueLoop

/-! ### Speed loops -/

namespace SpeedLoop

variable {α O : Type} [Scalar α] [LoopObserver O α] {s : SpeedLoop α O}

/-- The torque loop stays at rest whatever the speed loop asks for. -/
theorem disable_call (hs : s.torque.disable = s.torque) {k : Call α α} (hk : k.arms = false) :
    (call s k).result.2.torque.disable = (call s k).result.2.torque := by
  cases k with
  | sample currents angle =>
      obtain ⟨htorque, -⟩ := s.paced_spec currents angle
      rw [call_sample, htorque]
      exact TorqueLoop.disable_call (k := .sample currents angle) hs rfl
  | instruct i =>
      cases i with
      | enable | reset => cases hk
      | disable => rfl
      | setPoint | speedTunings => exact hs
      | polePairs n => exact TorqueLoop.disable_call (k := .instruct (.polePairs n)) hs rfl
      | currentTunings vdc t =>
          exact TorqueLoop.disable_call (k := .instruct (.currentTunings vdc t)) hs rfl
      | service =>
          show s.service.torque.disable = s.service.torque
          rw [service_eq]
          cases s.target.take.1 with
          | none => exact hs
          | some q => exact TorqueLoop.disable_call (k := .instruct (.setPoint ⟨0, q⟩)) hs rfl

theorem disable_after (ks : List (Call α α)) (hks : ∀ k ∈ ks, k.arms = false) :
    ∀ s : SpeedLoop α O, s.torque.disable = s.torque →
      (after s ks).torque.disable = (after s ks).torque := by
  induction ks with
  | nil => intro s hs; exact hs
  | cons k ks ih =>
      intro s hs
      exact ih (fun k' hk' => hks k' (List.mem_cons_of_mem _ hk')) _
        (disable_call hs (hks k List.mem_cons_self))

end SpeedLoop

/-! ### After an instruction to disable -/

namespace Controller

/--
**A loop that was disabled energises nothing until it is armed.**  Whatever it did before, whatever
it is told from then on and whatever is measured, every sample is answered by three equal duties and
leaves the torque loop as it is.
-/
theorem rests_after_disable {O : Type} [LoopObserver O Float32] :
    (∀ ks js : List (Call Float32 (Rotating Float32)), (∀ k ∈ js, k.arms = false) →
      ∀ (currents : Phases Float32) (angle : Float32),
        let now := after (TorqueLoop.new : TorqueLoop Float32) (ks ++ .instruct .disable :: js)
        let sampled := (call now (.sample currents angle)).result
        now.Rests angle sampled.1 sampled.2) ∧
    (∀ (observer : O) (maxCurrent : Quantity .ampere Float32) (pwm : Hertz) (ratio : OuterRatio)
      (s : SpeedLoop Float32 O), SpeedLoop.check observer maxCurrent pwm ratio = .ok s →
      ∀ ks js : List (Call Float32 Float32), (∀ k ∈ js, k.arms = false) →
      ∀ (currents : Phases Float32) (angle : Float32),
        let now := after s (ks ++ .instruct .disable :: js)
        let sampled := (call now (.sample currents angle)).result
        now.torque.Rests angle sampled.1 sampled.2.torque) := by
  constructor
  · intro ks js hjs currents angle now
    have hnow : now.disable = now := by
      unfold now
      rw [after_append]
      exact TorqueLoop.disable_after js hjs _ rfl
    exact TorqueLoop.rests_of_disable hnow currents angle
  · intro observer maxCurrent pwm ratio s _ ks js hjs currents angle now sampled
    have hnow : now.torque.disable = now.torque := by
      unfold now
      rw [after_append]
      exact SpeedLoop.disable_after js hjs _ rfl
    obtain ⟨htorque, -⟩ := now.paced_spec currents angle
    unfold sampled
    rw [SpeedLoop.call_sample, htorque]
    exact TorqueLoop.rests_of_disable hnow currents angle

/-- A speed loop that an undefined current has latched, disabled with a current waiting in its
handoff, which is taken after that: a half for each phase under infinite currents, and none where
the angle is undefined. -/
theorem rests_after_disable_latched :
    let latched : List (Call Float32 Float32) :=
      [.instruct (.setPoint 1), .sample ⟨Scalar.undefined, 0, 0⟩ 0]
    let now : SpeedLoop Float32 Unit :=
      after (.initial () ⟨1⟩ ⟨10000⟩ ⟨1, by decide, by decide⟩)
        (latched ++ .instruct .disable :: [.instruct .service])
    (call now (.sample ⟨1 / 0, 0, 0⟩ 0)).result.1 = some .centered ∧
      (call now (.sample ⟨1 / 0, 0, 0⟩ Scalar.undefined)).result.1 = some .zero := by
  intro latched now
  have hrests (angle : Float32) := rests_after_disable.2 () ⟨1⟩ ⟨10000⟩ ⟨1, by decide, by decide⟩ _
    (SpeedLoop.check_eq_ok (by decide +kernel)) latched [.instruct .service] (by decide)
    ⟨1 / 0, 0, 0⟩ angle
  constructor
  · rw [(hrests 0).duties, if_neg (by decide +kernel)]
  · rw [(hrests Scalar.undefined).duties, if_pos (by decide +kernel)]

end Controller

end MotorControl
