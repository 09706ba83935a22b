/-
When a speed loop ticks.

The loop counts samples down from its ratio and ticks at the sample at which the count
runs out.  Only a sample counts on, and only a reset starts the count over.  So a sample
brings a tick exactly if the number of samples since the last reset, that sample
included, is a multiple of the ratio, whatever instructions came in between.
-/
import MotorControl.Proofs.SpeedLoop

namespace MotorControl

open Controller (Call)

/-! ### Counting samples -/

namespace Controller

variable {α σ : Type}

/-- The samples since the last reset after a call, of which there were `n` before it. -/
def Call.counted (n : Nat) : Call α σ → Nat
  | .sample .. => n + 1
  | .instruct .reset => 0
  | .instruct _ => n

/-- The samples since the last reset in a list of calls. -/
def samplesSinceReset (ks : List (Call α σ)) : Nat := ks.foldl Call.counted 0

end Controller

open Controller (samplesSinceReset)

theorem OuterRatio.toNat_pos (ratio : OuterRatio) : 0 < ratio.value.toNat :=
  UInt8.lt_iff_toNat_lt.mp ratio.pos

namespace SpeedLoop

variable {α O : Type} [Scalar α]

/-- A loop whose countdown is where `n` samples since the last reset have brought it. -/
structure Counts (ratio : OuterRatio) (n : Nat) (s : SpeedLoop α O) : Prop where
  ratio_eq : s.ratio = ratio
  countdown_add : s.countdown.toNat + n % ratio.value.toNat = ratio.value.toNat

namespace Counts

variable {ratio : OuterRatio} {n : Nat} {s : SpeedLoop α O}

omit [Scalar α] in
/-- Where the count runs out, the samples so far fill a whole ratio but for one. -/
theorem mod_of_due (h : Counts ratio n s) (due : s.countdown ≤ 1) :
    n % ratio.value.toNat + 1 = ratio.value.toNat := by
  have hmod := Nat.mod_lt n ratio.toNat_pos
  have hadd := h.countdown_add
  rw [UInt8.le_iff_toNat_le, UInt8.toNat_one] at due
  omega

omit [Scalar α] in
/-- Where it does not, one sample more does not fill it either. -/
theorem mod_of_not_due (h : Counts ratio n s) (due : ¬ s.countdown ≤ 1) :
    (n + 1) % ratio.value.toNat = n % ratio.value.toNat + 1 := by
  have hadd := h.countdown_add
  rw [UInt8.le_iff_toNat_le, UInt8.toNat_one] at due
  rw [← Nat.mod_add_mod, Nat.mod_eq_of_lt (by omega)]

omit [Scalar α] in
/-- The count runs out where one sample more makes a multiple of the ratio. -/
theorem due_iff (h : Counts ratio n s) : s.countdown ≤ 1 ↔ ratio.value.toNat ∣ n + 1 := by
  rw [Nat.dvd_iff_mod_eq_zero]
  constructor
  · intro hdue
    rw [← Nat.mod_add_mod, h.mod_of_due hdue, Nat.mod_self]
  · intro hzero
    refine Decidable.byContradiction fun hdue => ?_
    rw [h.mod_of_not_due hdue] at hzero
    exact Nat.succ_ne_zero _ hzero

theorem of_check {observer : O} {maxCurrent : Quantity .ampere α} {pwm : Hertz}
    (hs : check observer maxCurrent pwm ratio = .ok s) : Counts ratio 0 s := by
  obtain ⟨-, rfl⟩ := check_eq_ok_iff.1 hs
  exact ⟨rfl, rfl⟩

variable [LoopObserver O α]

/-- Where a tick is due the count starts over, and elsewhere it goes down by one. -/
theorem paced (h : Counts ratio n s) (currents : Phases α) (angle : α) :
    Counts ratio (n + 1) (s.paced currents angle).result := by
  have hadd := h.countdown_add
  unfold SpeedLoop.paced
  split
  · rename_i hdue
    have hzero := Nat.mod_eq_zero_of_dvd (h.due_iff.mp hdue)
    obtain ⟨observer, tunings, htick⟩ :=
      tick_spec { s with countdown := s.ratio.value } currents angle
    rw [htick, h.ratio_eq]
    exact ⟨rfl, by rw [hzero, Nat.add_zero]⟩
  · rename_i hdue
    have hmod := h.mod_of_not_due hdue
    rw [UInt8.le_iff_toNat_le, UInt8.toNat_one] at hdue
    refine ⟨h.ratio_eq, ?_⟩
    show (s.countdown - 1).toNat + (n + 1) % ratio.value.toNat = ratio.value.toNat
    rw [UInt8.toNat_sub_of_le _ _ (UInt8.le_iff_toNat_le.mpr (by simp; omega)), UInt8.toNat_one,
      hmod]
    omega

theorem call (h : Counts ratio n s) (k : Call α α) :
    Counts ratio (k.counted n) (Controller.call s k).result.2 := by
  cases k with
  | sample currents angle =>
      obtain ⟨hratio, hcount⟩ := h.paced currents angle
      rw [call_sample]
      exact ⟨hratio, hcount⟩
  | instruct i =>
      cases i with
      | reset => exact ⟨h.ratio_eq, by rw [← h.ratio_eq]; rfl⟩
      | service =>
          show Counts ratio n s.service
          rw [service_eq]
          exact ⟨h.ratio_eq, h.countdown_add⟩
      | enable | disable | polePairs | setPoint | currentTunings | speedTunings =>
          exact ⟨h.ratio_eq, h.countdown_add⟩

theorem after (ks : List (Call α α)) :
    ∀ (n : Nat) (s : SpeedLoop α O), Counts ratio n s →
      Counts ratio (ks.foldl Call.counted n) (Controller.after s ks) := by
  induction ks with
  | nil => intro n s h; exact h
  | cons k ks ih => intro n s h; exact ih _ _ (h.call k)

end Counts

end SpeedLoop

end MotorControl
