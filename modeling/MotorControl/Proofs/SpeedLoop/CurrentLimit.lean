/-
The current limit of a speed loop.

The current across the rotor starts out as none at all.  From then on every current
comes out of the speed regulator, waits in the handoff, and is taken from there to the
torque loop.  A regulator answers zero or what it clamped into its limits, and nothing
ever changes these, so on its whole way a current is zero or was clamped into the
limits the loop was built with.  That holds of every arithmetic.  For binary32 numbers
it means that the current is undefined or lies between the two limits.
-/
import MotorControl.Proofs.Binary32.Order
import MotorControl.Proofs.SpeedLoop

namespace MotorControl

namespace SpeedLoop

open Controller

section

variable {α O : Type} [Scalar α]

/-- No current at all, or one that was clamped into the limits. -/
def IsClamped (limit q : α) : Prop := q = 0 ∨ ∃ x, q = Scalar.clamp x (-limit) limit

/-- A loop whose torque loop and whose handoff hold such currents only. -/
structure Limited (limit : α) (s : SpeedLoop α O) : Prop where
  handed : IsClamped limit s.torque.q.setPoint
  latest : IsClamped limit s.target.latest

variable {limit period : α} {ratio : OuterRatio} {s : SpeedLoop α O}

theorem isClamped_tickCurrent (h : Assembled limit ratio period s) (angle : α) :
    IsClamped limit (s.tickCurrent angle) := by
  have hcases := s.regulator.process_cases (s.measured angle)
  rw [h.limits] at hcases
  exact hcases

namespace Limited

theorem of_check {observer : O} {maxCurrent : Quantity .ampere α} {pwm : Hertz}
    (h : check observer maxCurrent pwm ratio = .ok s) : Limited maxCurrent.value s := by
  obtain ⟨-, rfl⟩ := check_eq_ok_iff.1 h
  exact ⟨Or.inl rfl, Or.inl rfl⟩

theorem obey (h : Limited limit s) (i : Instruction α α) : Limited limit (s.obey i) := by
  obtain ⟨hhanded, hlatest⟩ := h
  cases i with
  | enable => exact ⟨by rwa [← Regulator.setPoint_enable] at hhanded, hlatest⟩
  | reset => exact ⟨hhanded, Or.inl rfl⟩
  | service =>
      show Limited limit s.service
      rw [service_eq]
      unfold Handoff.take
      by_cases hpending : s.target.pending = true
      · rw [if_pos hpending]
        exact ⟨hlatest, hlatest⟩
      · rw [if_neg hpending]
        exact ⟨hhanded, hlatest⟩
  | disable | polePairs | setPoint | currentTunings | speedTunings => exact ⟨hhanded, hlatest⟩

variable [LoopObserver O α]

theorem call (ha : Assembled limit ratio period s) (h : Limited limit s) (k : Call α α) :
    Limited limit (Controller.call s k).result.2 := by
  cases k with
  | instruct i => exact h.obey i
  | sample currents angle =>
      obtain ⟨htorque, htarget, -⟩ := paced_spec s currents angle
      obtain ⟨x, y, hcalc⟩ := s.torque.calculate_spec currents angle
      rw [call_sample, htorque, hcalc]
      refine ⟨by simpa using h.handed, ?_⟩
      show IsClamped limit (s.paced currents angle).result.target.latest
      rw [htarget]
      unfold asked?
      by_cases hdue : s.countdown ≤ 1
      · rw [if_pos hdue]
        exact isClamped_tickCurrent ha angle
      · rw [if_neg hdue]
        exact h.latest

theorem after (ha : Assembled limit ratio period s) (h : Limited limit s) (ks : List (Call α α)) :
    Limited limit (Controller.after s ks) :=
  (after_induction (P := fun s => Assembled limit ratio period s ∧ Limited limit s)
    (fun _ k ⟨ha, h⟩ => ⟨ha.call k, h.call ha k⟩) ks s ⟨ha, h⟩).2

end Limited

end

/-! ### Binary32 numbers -/

/-- Whether a current limit admits a current; every limit admits an undefined one. -/
def Admits (limit : Quantity .ampere Float32) (q : Float32) : Prop :=
  q.isNaN = true ∨ -limit.value ≤ q ∧ q ≤ limit.value

variable {O : Type} {observer : O} {maxCurrent : Quantity .ampere Float32} {pwm : Hertz}
  {ratio : OuterRatio} {s : SpeedLoop Float32 O}

theorem IsClamped.admits {q : Float32} (hpos : 0 < maxCurrent.value)
    (h : IsClamped maxCurrent.value q) : Admits maxCurrent q := by
  obtain rfl | ⟨x, rfl⟩ := h
  · exact Or.inr ⟨Binary32.neg_le_zero hpos, Binary32.le_of_lt hpos⟩
  · exact Binary32.clamp_within (Binary32.neg_le_self hpos)

/--
**The current that a speed loop asks for never leaves its limits.**  After any instructions and
samples, undefined and infinite ones among them, and whatever an observer answered, the torque loop
is asked for no current along the rotor and for one across it that the limit admits, and so is
every current that still waits to be handed over.
-/
theorem current_within_limit [LoopObserver O Float32]
    (h : check observer maxCurrent pwm ratio = .ok s) (ks : List (Call Float32 Float32)) :
    (after s ks).torque.setPoint.d = 0 ∧ Admits maxCurrent (after s ks).torque.setPoint.q ∧
      ∀ q, (after s ks).target.take.1 = some q → Admits maxCurrent q := by
  have hpos := (check_eq_ok_iff.1 h).1
  have hassembled := Assembled.of_check h
  have hlimited := (Limited.of_check h).after hassembled ks
  refine ⟨(hassembled.after ks).dSetPoint, hlimited.handed.admits hpos, fun q hq => ?_⟩
  unfold Handoff.take at hq
  split at hq
  · cases hq
    exact hlimited.latest.admits hpos
  · cases hq

/-- A loop whose observer answers huge gains brakes a rotor that is too fast with its whole limit, and
with no more. -/
theorem current_within_two_amperes :
    ∃ s : SpeedLoop Float32 (Script (Option (Tunings Float32))),
      let calls : List (Call Float32 Float32) := [.instruct (.setPoint 100), .sample ⟨0, 0, 0⟩ 0,
        .sample ⟨0, 0, 0⟩ 0.5, .instruct .service]
      check (.ofList [some ⟨100000, 0, 0⟩]) ⟨2⟩ ⟨10000⟩ ⟨1, by decide, by decide⟩ = .ok s ∧
      (after s calls).torque.setPoint.q = -2 ∧ Admits ⟨2⟩ (after s calls).torque.setPoint.q :=
  have hbuilt := check_eq_ok (by decide +kernel)
  ⟨_, hbuilt, by decide +kernel, (current_within_limit hbuilt _).2.1⟩

end SpeedLoop

end MotorControl
