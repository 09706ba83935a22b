/-
What was put on the windings, read back from what the bridge was told.

Two paths lead from a voltage vector to a vector of the stationary frame.  The bridge puts
the fractions of the bus voltage on the three phases.  A test that has only the duties at
hand multiplies the shares with that voltage and transforms them.  The transform looks at
the differences between phases alone, so what modulation adds to all three of them is gone
on either path, whichever sector the vector lies in, and the vector itself is left, as long
as the largest voltage without saturation.

All that sets the two paths apart is the rounding to whole percent.  It is half a percent
for each phase, and the transform weighs the phases by two thirds, one third and one third
along the first axis and by the inverse of the square root of three across it.
-/
import MotorControl.Proofs.Exact.Duty
import MotorControl.Proofs.Exact.Modulation
import MotorControl.Session.ElectricalTest

namespace MotorControl

open Real

/-! ### The transform -/

namespace Phases

/-- Phases are transformed by the differences between them. -/
theorem toStationary_eq (p : Phases ℝ) :
    p.toStationary = ⟨(2 * (p.a - p.b) + (p.b - p.c)) / 3, (√3)⁻¹ * (p.b - p.c)⟩ := by
  have halpha : (2 * p.a - p.b - p.c) / 3 = (2 * (p.a - p.b) + (p.b - p.c)) / 3 := by ring
  exact congrArg (fun alpha => (⟨alpha, (√3)⁻¹ * (p.b - p.c)⟩ : Stationary ℝ)) halpha

/-- What is known of the phases up to `ε` is known of their vector up to a multiple of it. -/
theorem abs_toStationary_sub_le {p q : Phases ℝ} {ε : ℝ} (ha : |p.a - q.a| ≤ ε)
    (hb : |p.b - q.b| ≤ ε) (hc : |p.c - q.c| ≤ ε) :
    |p.toStationary.alpha - q.toStationary.alpha| ≤ 4 / 3 * ε ∧
      |p.toStationary.beta - q.toStationary.beta| ≤ (√3)⁻¹ * (2 * ε) := by
  rw [abs_sub_le_iff] at ha hb hc
  obtain ⟨⟨ha, ha'⟩, ⟨hb, hb'⟩, ⟨hc, hc'⟩⟩ := And.intro ha (And.intro hb hc)
  simp only [toStationary_eq]
  constructor
  · rw [abs_sub_le_iff]
    constructor <;> linarith
  · have hdiff : |p.b - p.c - (q.b - q.c)| ≤ 2 * ε := by
      rw [abs_sub_le_iff]
      constructor <;> linarith
    rw [← mul_sub, abs_mul, abs_of_nonneg (by positivity)]
    exact mul_le_mul_of_nonneg_left hdiff (by positivity)

end Phases

namespace Stationary

/-- The fractions of a vector, put on the windings with some supply, are that vector times the
largest voltage that the supply gives in every direction. -/
theorem toStationary_fractions (v : Stationary ℝ) (vdc : ℝ) :
    (v.fractions.map (vdc * ·)).toStationary = ⟨vdc / √3 * v.alpha, vdc / √3 * v.beta⟩ := by
  obtain ⟨hab, hbc, -⟩ := centered_fractionsWith (√3) v
  rw [fractionsWith_sqrt_three] at hab hbc
  have hsquare : √3 * √3 = 3 := Real.mul_self_sqrt (by norm_num)
  rw [Phases.toStationary_eq]
  simp only [Phases.map]
  rw [← mul_sub, ← mul_sub, hab, hbc]
  congr 1
  · calc (2 * (vdc * ((√3 * v.alpha - v.beta) / 2)) + vdc * v.beta) / 3
      _ = vdc * v.alpha * √3 / 3 := by ring
      _ = vdc * v.alpha * √3 / (√3 * √3) := by rw [hsquare]
      _ = vdc / √3 * v.alpha := by field_simp
  · ring

end Stationary

/-! ### The test -/

namespace ElectricalTest

/-- Shares are read back as the fractions of the supply that they tell. -/
theorem appliedVoltage_eq (d : Duties) (vdc : ℝ) : appliedVoltage d vdc =
    (d.map fun share => vdc * ((share.value.toNat : ℝ) * 0.01)).toStationary := by
  have hshare (n : ℕ) : (n : ℝ) * 0.01 * vdc = vdc * (n * 0.01) := by ring
  show (d.map fun share => (share.value.toNat : ℝ) * 0.01 * vdc).toStationary = _
  simp only [hshare]

/--
**What the bridge is told is what the test believes was applied.**  The fractions of a vector put
that vector on the windings.  Within the unit circle no duty is cut off, and the voltage that is
read back from the duties is the vector that was asked for, up to what the three phases lose by
rounding.
-/
theorem appliedVoltage_modulate (v : Stationary ℝ) {vdc : ℝ} (hvdc : 0 < vdc) :
    (v.fractions.map (vdc * ·)).toStationary = ⟨vdc / √3 * v.alpha, vdc / √3 * v.beta⟩ ∧
    (v.alpha ^ 2 + v.beta ^ 2 ≤ 1 →
      |(appliedVoltage v.modulate vdc).alpha - vdc / √3 * v.alpha| ≤ vdc / 150 ∧
      |(appliedVoltage v.modulate vdc).beta - vdc / √3 * v.beta| ≤ vdc / (100 * √3) ∧
      v.modulate.a.Tells v.fractions.a ∧ v.modulate.b.Tells v.fractions.b ∧
      v.modulate.c.Tells v.fractions.c) := by
  have hexact := v.toStationary_fractions vdc
  refine ⟨hexact, ?_⟩
  intro hv
  have hsquare : √3 ^ 2 ≤ 3 := (Real.sq_sqrt (by norm_num)).le
  obtain ⟨ha, hb, hc⟩ := (Stationary.centered_fractionsWith (√3) v).mem_Icc hsquare hv
  rw [Stationary.fractionsWith_sqrt_three] at ha hb hc
  have hatells : v.modulate.a.Tells v.fractions.a := Percent.tells_ofFraction ha.1 ha.2
  have hbtells : v.modulate.b.Tells v.fractions.b := Percent.tells_ofFraction hb.1 hb.2
  have hctells : v.modulate.c.Tells v.fractions.c := Percent.tells_ofFraction hc.1 hc.2
  have hphase {share : Percent} {x : ℝ} (h : share.Tells x) :
      |vdc * ((share.value.toNat : ℝ) * 0.01) - vdc * x| ≤ vdc / 200 := by
    rw [← mul_sub, abs_mul, abs_of_pos hvdc]
    linarith [mul_le_mul_of_nonneg_left h.abs_sub_le hvdc.le]
  obtain ⟨halpha, hbeta⟩ := Phases.abs_toStationary_sub_le
    (p := v.modulate.map fun share => vdc * ((share.value.toNat : ℝ) * 0.01))
    (q := v.fractions.map (vdc * ·)) (hphase hatells) (hphase hbtells) (hphase hctells)
  rw [← appliedVoltage_eq, hexact] at halpha hbeta
  have hroot : (√3)⁻¹ * (2 * (vdc / 200)) = vdc / (100 * √3) := by
    field_simp
    norm_num
  rw [hroot] at hbeta
  exact ⟨by linarith, hbeta, hatells, hbtells, hctells⟩

/-- A vector on the unit circle, off every axis, at a supply of 24 volts. -/
theorem appliedVoltage_of_unit_vector :
    let v : Stationary ℝ := ⟨3 / 5, 4 / 5⟩
    (0 : ℝ) < 24 ∧ v.alpha ^ 2 + v.beta ^ 2 ≤ 1 ∧
      |(appliedVoltage v.modulate 24).alpha - 24 / √3 * (3 / 5)| ≤ 4 / 25 := by
  intro v
  have hpos : (0 : ℝ) < 24 := by norm_num
  have hv : v.alpha ^ 2 + v.beta ^ 2 ≤ 1 := by
    show (3 / 5 : ℝ) ^ 2 + (4 / 5) ^ 2 ≤ 1
    norm_num
  obtain ⟨halpha, -⟩ := (appliedVoltage_modulate v hpos).2 hv
  exact ⟨hpos, hv, halpha.trans_eq (by norm_num)⟩

end ElectricalTest

end MotorControl
