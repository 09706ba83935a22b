/-
Angles in exact arithmetic.

An encoder tells the angle of the rotor up to whole turns, so two readings leave the
way between them open by a whole number of turns.  A rotor that moves less than half a
turn from one reading to the next leaves one way only: the readings lie at most a turn
apart, the way between them differs from their difference by one turn at most, and
whether it does is told by which side of half a turn that difference lies on.
-/
import MotorControl.Proofs.Exact
import MotorControl.Angle

namespace MotorControl.Angle

open Real

/-- A reading of an encoder for an angle of the rotor: within half a turn to either side, and whole
turns away from the angle. -/
def Reads (reading angle : ℝ) : Prop :=
  |reading| ≤ π ∧ ∃ turns : ℤ, angle = reading + turns * (2 * π)

/-- The wrapped angle is a reading of it. -/
theorem reads_wrap (angle : ℝ) : Reads (wrap angle) angle := by
  have hpi := pi_pos
  have hwrap : wrap angle = angle - 2 * π * ⌊(angle + π) / (2 * π)⌋ := rfl
  have hlo := Int.floor_le ((angle + π) / (2 * π))
  have hhi := Int.lt_floor_add_one ((angle + π) / (2 * π))
  rw [le_div_iff₀ (by linarith)] at hlo
  rw [div_lt_iff₀ (by linarith)] at hhi
  refine ⟨abs_le.mpr ⟨?_, ?_⟩, ⌊(angle + π) / (2 * π)⌋, ?_⟩
  · rw [hwrap]
    linarith
  · rw [hwrap]
    linarith
  · rw [hwrap]
    ring

/-- It is the only one, up to the seam. -/
theorem wrap_eq_of_reads {reading angle : ℝ} (h : Reads reading angle) (hseam : reading < π) :
    wrap angle = reading := by
  obtain ⟨hwithin, turns, rfl⟩ := h
  have hpi := pi_pos
  have hfloor : ⌊(reading + turns * (2 * π) + π) / (2 * π)⌋ = turns := by
    rw [Int.floor_eq_iff, le_div_iff₀ (by linarith), div_lt_iff₀ (by linarith)]
    constructor
    · linarith [(abs_le.mp hwithin).1]
    · linarith
  show reading + turns * (2 * π) - 2 * π * ⌊(reading + turns * (2 * π) + π) / (2 * π)⌋ = reading
  rw [hfloor]
  ring

/-- Two readings of a rotor that moves less than half a turn between them lie a turn off its way at
most. -/
theorem Reads.turns_eq {previous current before now : ℝ} (hprevious : Reads previous before)
    (hcurrent : Reads current now) (hslow : |now - before| < π) :
    ∃ turns : ℤ, (turns = -1 ∨ turns = 0 ∨ turns = 1) ∧
      current - previous = now - before - turns * (2 * π) := by
  obtain ⟨hprevious, m, hbefore⟩ := hprevious
  obtain ⟨hcurrent, n, hnow⟩ := hcurrent
  have hpi := pi_pos
  have hway : current - previous = now - before - (n - m : ℤ) * (2 * π) := by
    rw [hbefore, hnow]
    push_cast
    ring
  rw [abs_le] at hprevious hcurrent
  rw [abs_lt] at hslow
  -- Twice as many turns would be a way of at least half a turn.
  have hlt : (n - m : ℤ) < 2 := by
    by_contra hge
    have hcast : (2 : ℝ) ≤ (n - m : ℤ) := by exact_mod_cast not_lt.mp hge
    nlinarith
  have hgt : -2 < (n - m : ℤ) := by
    by_contra hle
    have hcast : ((n - m : ℤ) : ℝ) ≤ -2 := by exact_mod_cast not_lt.mp hle
    nlinarith
  exact ⟨n - m, by omega, hway⟩

/--
**The shorter way around is the way of a slow rotor**, however the two readings lie to the seam
between half a turn and minus half a turn.
-/
theorem difference_of_reads {previous current before now : ℝ} (hprevious : Reads previous before)
    (hcurrent : Reads current now) (hslow : |now - before| < π) :
    difference current previous = now - before := by
  obtain ⟨turns, hturns, hway⟩ := hprevious.turns_eq hcurrent hslow
  obtain ⟨hlo, hhi⟩ := abs_lt.mp hslow
  show (if π < current - previous then current - previous - 2 * π
    else if current - previous < -π then current - previous + 2 * π
    else current - previous) = now - before
  rw [hway]
  obtain rfl | rfl | rfl := hturns
  · -- The rotor has crossed the seam backwards.
    rw [if_pos (by push_cast; linarith)]
    push_cast
    ring
  · rw [if_neg (by push_cast; linarith), if_neg (by push_cast; linarith)]
    push_cast
    ring
  · -- It has crossed the seam forwards.
    rw [if_neg (by push_cast; linarith), if_pos (by push_cast; linarith)]
    push_cast
    ring

end MotorControl.Angle
