/-
A torque loop and the voltage of its bus.

The gains of a torque loop are given for true voltages and scaled by the bus voltage
when they are told.  Over exact scalars this is all that the bus has to do with the loop:
on two buses the regulators keep the same errors, and their outputs are inversely
proportional to the voltages.  `Scaled` says so of two loops, and no call breaks it as
long as no limit holds an output back.  The frame of the rotor keeps the proportion.
The modulation does not keep it for the fractions, since these are centered in the period
whatever the vector is, but it does for the differences between them, and these are what
the windings see.
-/
import MotorControl.Proofs.Angle.Rotation
import MotorControl.Proofs.Exact.Modulation
import MotorControl.Proofs.Exact.Regulator
import MotorControl.Proofs.SpeedLoop

namespace MotorControl

/-- The same gains, each in the unit of its own regulator. -/
structure Tunings.Scaled (V W : ℝ) (t u : Tunings ℝ) : Prop where
  kp : V * t.kp = W * u.kp
  ki : V * t.ki = W * u.ki
  kd : V * t.kd = W * u.kd

theorem Tunings.Scaled.of_scaled {V W x y : ℝ} (h : V * x = W * y) (t : Tunings ℝ) :
    Scaled V W (t.scaled x) (t.scaled y) := by
  have hgain (k : ℝ) : V * (k * x) = W * (k * y) := by linear_combination k * h
  exact ⟨hgain t.kp, hgain t.ki, hgain t.kd⟩

/-! ### Regulators -/

namespace Regulator

/-- Two regulators that keep the same errors.  What the outputs are of is the same as well, but one
measures it in the unit `V` and the other in the unit `W`. -/
structure Scaled (V W : ℝ) (r s : Regulator ℝ) : Prop where
  enabled : r.enabled = s.enabled
  tunings : r.tunings.Scaled V W s.tunings
  setPoint : r.setPoint = s.setPoint
  previousError : r.previousError = s.previousError
  secondPreviousError : r.secondPreviousError = s.secondPreviousError
  output : V * r.output = W * s.output

namespace Scaled

variable {V W : ℝ} {r s : Regulator ℝ}

theorem demand (h : Scaled V W r s) (y : ℝ) : V * r.demand y = W * s.demand y := by
  obtain ⟨hkp, hki, hkd⟩ := h.tunings
  rw [Regulator.demand, Regulator.demand, increment_eq, increment_eq, h.setPoint, h.previousError,
    h.secondPreviousError]
  linear_combination h.output + (s.setPoint - y - s.previousError) * hkp + (s.setPoint - y) * hki
    + (s.setPoint - y - 2 * s.previousError + s.secondPreviousError) * hkd

theorem process (h : Scaled V W r s) {y : ℝ} (hr : r.enabled = true → r.IsFree y)
    (hs : s.enabled = true → s.IsFree y) :
    V * (r.process y).1 = W * (s.process y).1 ∧ Scaled V W (r.process y).2 (s.process y).2 := by
  by_cases henabled : r.enabled = true
  · have henabled' : s.enabled = true := h.enabled ▸ henabled
    rw [process_of_isFree henabled (hr henabled), process_of_isFree henabled' (hs henabled')]
    exact ⟨h.demand y, h.enabled, h.tunings, h.setPoint, congrArg (· - y) h.setPoint,
      h.previousError, h.demand y⟩
  · have hdisabled : r.enabled = false := Bool.eq_false_of_not_eq_true henabled
    have hdisabled' : s.enabled = false := h.enabled ▸ hdisabled
    rw [process_of_disabled hdisabled, process_of_disabled hdisabled', Exact.zero_eq]
    exact ⟨by ring, h⟩

/-- Without a history there is no output to be measured. -/
theorem clearHistory (h : Scaled V W r s) : Scaled V W r.clearHistory s.clearHistory where
  enabled := h.enabled
  tunings := h.tunings
  setPoint := h.setPoint
  previousError := rfl
  secondPreviousError := rfl
  output := by simp [Regulator.clearHistory]

theorem disable (h : Scaled V W r s) : Scaled V W r.disable s.disable :=
  clearHistory ⟨rfl, h.tunings, h.setPoint, h.previousError, h.secondPreviousError, h.output⟩

/-- Armed anew, regulators have nothing but gains and a set point to agree on. -/
theorem armed {t u : Tunings ℝ} (h : t.Scaled V W u) (l m : Limits ℝ) (x : ℝ) :
    Scaled V W (.armed t l x) (.armed u m x) where
  enabled := rfl
  tunings := h
  setPoint := rfl
  previousError := rfl
  secondPreviousError := rfl
  output := by simp [Regulator.armed]

theorem enable (h : Scaled V W r s) : Scaled V W r.enable s.enable := by
  cases henabled : r.enabled with
  | true =>
      have henabled' : s.enabled = true := h.enabled ▸ henabled
      rw [Regulator.enable, Regulator.enable, if_pos henabled, if_pos henabled']
      exact h
  | false =>
      rw [enable_of_disabled henabled, enable_of_disabled (h.enabled ▸ henabled), h.setPoint]
      exact .armed h.tunings _ _ _

theorem setTunings (h : Scaled V W r s) {t u : Tunings ℝ} (ht : t.Scaled V W u) :
    Scaled V W (r.setTunings t) (s.setTunings u) :=
  { h with tunings := ht }

theorem setSetPoint (h : Scaled V W r s) (x : ℝ) : Scaled V W (r.setSetPoint x) (s.setSetPoint x) :=
  { h with setPoint := rfl }

end Scaled

end Regulator

/-! ### Calls on two buses -/

/-- The same instruction on a bus of another voltage. -/
def Instruction.onBus {α σ : Type} (vdc : α) : Instruction α σ → Instruction α σ
  | .currentTunings _ t => .currentTunings vdc t
  | i => i

/-- The same call on a bus of another voltage. -/
def Controller.Call.onBus {α σ : Type} (vdc : α) : Call α σ → Call α σ
  | .instruct i => .instruct (i.onBus vdc)
  | .sample currents angle => .sample currents angle

namespace TorqueLoop

open Controller (Call outputs)

/-- The vectors that a loop asks for, in the order of its samples. -/
noncomputable def vectors : TorqueLoop ℝ → List (Call ℝ (Rotating ℝ)) → List (Stationary ℝ)
  | _, [] => []
  | t, .instruct i :: ks => (t.obey i).vectors ks
  | t, .sample currents angle :: ks =>
    (t.voltage currents angle).1 :: (t.voltage currents angle).2.vectors ks

/-- The duties that a run answers are those of its vectors. -/
theorem outputs_eq_map (ks : List (Call ℝ (Rotating ℝ))) :
    ∀ t : TorqueLoop ℝ, outputs t ks = (t.vectors ks).map Stationary.modulate := by
  induction ks with
  | nil => intro t; rfl
  | cons k ks ih =>
      intro t
      cases k with
      | instruct i => exact ih (t.obey i)
      | sample currents angle => exact congrArg (List.cons _) (ih (t.voltage currents angle).2)

/-- No limit holds an output back at a sample. -/
def IsFree (t : TorqueLoop ℝ) (currents : Phases ℝ) (angle : ℝ) : Prop :=
  let measured := currents.toRotating (Angle.direction (angle * t.polePairs))
  (t.d.enabled = true → t.d.IsFree measured.d) ∧ (t.q.enabled = true → t.q.IsFree measured.q)

/-- No limit holds an output back at any sample of a run. -/
def Unclamped : TorqueLoop ℝ → List (Call ℝ (Rotating ℝ)) → Prop
  | _, [] => True
  | t, .instruct i :: ks => (t.obey i).Unclamped ks
  | t, .sample currents angle :: ks =>
    t.IsFree currents angle ∧ (t.voltage currents angle).2.Unclamped ks

/-- Two loops that keep the same errors and measure their voltages in the units `V` and `W`. -/
structure Scaled (V W : ℝ) (t u : TorqueLoop ℝ) : Prop where
  d : t.d.Scaled V W u.d
  q : t.q.Scaled V W u.q
  polePairs : t.polePairs = u.polePairs

/-- Two vectors that put the same voltages on the windings, one from a bus of `V` and the other from
a bus of `W`. -/
structure SameVoltages (V W : ℝ) (v w : Stationary ℝ) : Prop where
  alpha : V * v.alpha = W * w.alpha
  beta : V * v.beta = W * w.beta
  ab : V * (v.fractions.a - v.fractions.b) = W * (w.fractions.a - w.fractions.b)
  bc : V * (v.fractions.b - v.fractions.c) = W * (w.fractions.b - w.fractions.c)

variable {V W : ℝ}

/-- Between the phases, modulation keeps the proportion of two vectors. -/
theorem SameVoltages.of_vectors {v w : Stationary ℝ} (halpha : V * v.alpha = W * w.alpha)
    (hbeta : V * v.beta = W * w.beta) : SameVoltages V W v w := by
  have hv := Stationary.centered_fractionsWith (√3) v
  have hw := Stationary.centered_fractionsWith (√3) w
  rw [Stationary.fractionsWith_sqrt_three] at hv hw
  refine ⟨halpha, hbeta, ?_, ?_⟩
  · rw [hv.ab, hw.ab]
    linear_combination √3 / 2 * halpha - hbeta / 2
  · rw [hv.bc, hw.bc]
    exact hbeta

/-- What the gains are scaled by on a bus. -/
def scale {α : Type} [Scalar α] (vdc : α) : α := 1 / (Scalar.invSqrtThree * vdc)

theorem mul_scale (hV : V ≠ 0) : V * scale V = √3 := by
  show V * (@OfNat.ofNat ℝ 1 Scalar.instOfNat / ((√3)⁻¹ * V)) = √3
  rw [Exact.one_eq]
  field_simp

theorem mul_scale_eq (hV : V ≠ 0) (hW : W ≠ 0) : V * scale V = W * scale W :=
  (mul_scale hV).trans (mul_scale hW).symm

namespace Scaled

variable {t u : TorqueLoop ℝ}

/-- Loops that are told the same gains, each for its own bus. -/
theorem setCurrentTunings (h : Scaled V W t u) (hV : V ≠ 0) (hW : W ≠ 0) (gains : AxisTunings ℝ) :
    Scaled V W (t.setCurrentTunings V gains) (u.setCurrentTunings W gains) :=
  ⟨h.d.setTunings (.of_scaled (mul_scale_eq hV hW) gains.d),
    h.q.setTunings (.of_scaled (mul_scale_eq hV hW) gains.q), h.polePairs⟩

/-- From a reset on such loops have nothing else to differ in. -/
theorem of_reset (hV : V ≠ 0) (hW : W ≠ 0) (hpairs : t.polePairs = u.polePairs)
    (hset : t.setPoint = u.setPoint) (gains : AxisTunings ℝ) :
    Scaled V W (t.reset.setCurrentTunings V gains) (u.reset.setCurrentTunings W gains) := by
  obtain ⟨hd, hq⟩ := (Rotating.mk.injEq _ _ _ _).mp hset
  rw [reset_eq, reset_eq, hd, hq, hpairs]
  exact ⟨.armed (.of_scaled (mul_scale_eq hV hW) gains.d) _ _ _,
    .armed (.of_scaled (mul_scale_eq hV hW) gains.q) _ _ _, rfl⟩

/-- No instruction tells two loops apart. -/
theorem instruct (h : Scaled V W t u) (hV : V ≠ 0) (hW : W ≠ 0)
    (i : Instruction ℝ (Rotating ℝ)) :
    Scaled V W (t.obey (i.onBus V)) (u.obey (i.onBus W)) := by
  cases i with
  | enable => exact ⟨h.d.enable, h.q.enable, h.polePairs⟩
  | disable => exact ⟨h.d.disable, h.q.disable, h.polePairs⟩
  | reset => exact ⟨h.d.disable.enable, h.q.disable.enable, h.polePairs⟩
  | service => exact h
  | polePairs n => exact ⟨h.d, h.q, rfl⟩
  | setPoint target => exact ⟨h.d.setSetPoint target.d, h.q.setSetPoint target.q, h.polePairs⟩
  | currentTunings vdc gains => exact h.setCurrentTunings hV hW gains
  | speedTunings => exact h

/-- Neither does a sample that no limit holds back, and the two loops answer it with the same
voltages. -/
theorem voltage (h : Scaled V W t u) {currents : Phases ℝ} {angle : ℝ}
    (ht : t.IsFree currents angle) (hu : u.IsFree currents angle) :
    SameVoltages V W (t.voltage currents angle).1 (u.voltage currents angle).1 ∧
      Scaled V W (t.voltage currents angle).2 (u.voltage currents angle).2 := by
  obtain ⟨htd, htq⟩ := ht
  obtain ⟨hud, huq⟩ := hu
  rw [← h.polePairs] at hud huq
  obtain ⟨hdOutput, hd⟩ := h.d.process htd hud
  obtain ⟨hqOutput, hq⟩ := h.q.process htq huq
  unfold TorqueLoop.voltage
  rw [← h.polePairs]
  refine ⟨.of_vectors ?_ ?_, hd, hq, rfl⟩
  · simp only [Rotating.toStationary]
    linear_combination (Angle.direction (angle * t.polePairs)).cos * hdOutput
      - (Angle.direction (angle * t.polePairs)).sin * hqOutput
  · simp only [Rotating.toStationary]
    linear_combination (Angle.direction (angle * t.polePairs)).sin * hdOutput
      + (Angle.direction (angle * t.polePairs)).cos * hqOutput

/-- So two loops answer every sample of a run with the same voltages. -/
theorem vectors (hV : V ≠ 0) (hW : W ≠ 0) (ks : List (Call ℝ (Rotating ℝ))) :
    ∀ t u : TorqueLoop ℝ, Scaled V W t u → t.Unclamped (ks.map (.onBus V)) →
      u.Unclamped (ks.map (.onBus W)) →
      List.Forall₂ (SameVoltages V W) (t.vectors (ks.map (.onBus V)))
        (u.vectors (ks.map (.onBus W))) := by
  induction ks with
  | nil => intro t u _ _ _; exact .nil
  | cons k ks ih =>
      intro t u h ht hu
      cases k with
      | instruct i => exact ih _ _ (h.instruct hV hW i) ht hu
      | sample currents angle =>
          obtain ⟨hvoltages, hnext⟩ := h.voltage ht.1 hu.1
          exact .cons hvoltages (ih _ _ hnext ht.2 hu.2)

end Scaled

/--
**What a torque loop puts on the windings does not depend on the bus voltage.**  Two loops for the
same rotor and the same currents are armed anew and told the same gains, each for its own bus.
Whatever they are told and whatever they sample after that, as long as no limit holds an output back
they answer every sample with the same voltages.
-/
theorem independent_of_bus {V W : ℝ} (hV : 0 < V) (hW : 0 < W) (t u : TorqueLoop ℝ)
    (hpairs : t.polePairs = u.polePairs) (hset : t.setPoint = u.setPoint)
    (gains : AxisTunings ℝ) (ks : List (Call ℝ (Rotating ℝ)))
    (ht : (t.reset.setCurrentTunings V gains).Unclamped (ks.map (.onBus V)))
    (hu : (u.reset.setCurrentTunings W gains).Unclamped (ks.map (.onBus W))) :
    List.Forall₂ (SameVoltages V W)
      ((t.reset.setCurrentTunings V gains).vectors (ks.map (.onBus V)))
      ((u.reset.setCurrentTunings W gains).vectors (ks.map (.onBus W))) :=
  Scaled.vectors hV.ne' hW.ne' ks _ _ (.of_reset hV.ne' hW.ne' hpairs hset gains) ht hu

/-! ### Two samples on two buses -/

/-- The currents of a vector along the first axis. -/
noncomputable def alongFirst (x : ℝ) : Phases ℝ := ⟨x, -x / 2, -x / 2⟩

theorem toStationary_alongFirst (x : ℝ) : (alongFirst x).toStationary = ⟨x, 0⟩ := by
  show (⟨(((2 : ℕ) : ℝ) * x - -x / 2 - -x / 2) / ((3 : ℕ) : ℝ), (√3)⁻¹ * (-x / 2 - -x / 2)⟩ :
    Stationary ℝ) = ⟨x, 0⟩
  rw [Stationary.mk.injEq]
  constructor <;> push_cast <;> ring

/-- A direction has at most the length one, up to a thousandth, and the length zero where the angle
is too large to have one. -/
theorem normSq_direction_le (angle : ℝ) :
    (Angle.direction angle).cos ^ 2 + (Angle.direction angle).sin ^ 2 ≤ 1 + 1 / 1000 := by
  unfold Angle.direction
  cases Scalar.toFixed? (Angle.wrap angle) with
  | none =>
      show (0 : ℝ) ^ 2 + 0 ^ 2 ≤ 1 + 1 / 1000
      norm_num
  | some count =>
      have hlength := (abs_le.mp (Cordic.abs_normSq_direction_sub_le count)).2
      show (Scalar.ofInt (Cordic.direction count).cos / (65536 : ℕ) : ℝ) ^ 2
        + (Scalar.ofInt (Cordic.direction count).sin / (65536 : ℕ) : ℝ) ^ 2 ≤ 1 + 1 / 1000
      rw [Exact.ofInt_eq, Exact.ofInt_eq]
      push_cast
      linarith

/-- Half an ampere is measured as no more than one, whatever the direction of the rotor. -/
theorem abs_toRotating_le {x : ℝ} (hx : |x| ≤ 1 / 2) (angle : ℝ) :
    |((alongFirst x).toRotating (Angle.direction angle)).d| ≤ 1 ∧
      |((alongFirst x).toRotating (Angle.direction angle)).q| ≤ 1 := by
  have hlength := normSq_direction_le angle
  have hsquare : x ^ 2 ≤ 1 / 4 := by
    rw [← sq_abs]
    nlinarith [abs_nonneg x]
  have hcos : (Angle.direction angle).cos ^ 2 ≤ 2 := by
    linarith [sq_nonneg (Angle.direction angle).sin]
  have hsin : (Angle.direction angle).sin ^ 2 ≤ 2 := by
    linarith [sq_nonneg (Angle.direction angle).cos]
  rw [Phases.toRotating, toStationary_alongFirst, Stationary.toRotating]
  constructor
  · refine abs_le_one_iff_mul_self_le_one.mpr ?_
    nlinarith [sq_nonneg x]
  · refine abs_le_one_iff_mul_self_le_one.mpr ?_
    nlinarith [sq_nonneg x]

/-- With gains of at most a quarter, errors of at most two leave the first two outputs within one. -/
theorem isFree_twice {s x y z : ℝ} (hs : 0 ≤ s) (hs' : s ≤ 1 / 4) (hx : |x| ≤ 1) (hy : |y| ≤ 1)
    (hz : |z| ≤ 1) :
    let r : Regulator ℝ := .armed (Tunings.scaled ⟨1, 1 / 2, 1 / 4⟩ s)
      (.symmetric (@OfNat.ofNat ℝ 1 Scalar.instOfNat)) x
    r.IsFree y ∧ (r.process y).2.IsFree z := by
  intro r
  have hterm {u : ℝ} (hu : |u| ≤ 1) : -(1 / 2) ≤ s * (x - u) ∧ s * (x - u) ≤ 1 / 2 := by
    have herror : |x - u| ≤ 2 := (abs_sub x u).trans (by linarith)
    rw [← abs_le, abs_mul, abs_of_nonneg hs]
    nlinarith [abs_nonneg (x - u)]
  obtain ⟨hlo, hhi⟩ := hterm hy
  obtain ⟨hlo', hhi'⟩ := hterm hz
  have hlimits : r.limits = ⟨-1, 1⟩ := by simp [r, Regulator.armed, Limits.symmetric]
  have hfirst : r.demand y = 7 / 4 * (s * (x - y)) := by
    rw [Regulator.demand_armed, Tunings.scaled]
    ring
  have hfree : r.IsFree y := by
    rw [Regulator.IsFree, hfirst, hlimits]
    constructor <;> linarith
  -- The first error still counts: it stays in the sum, and the last change is from it.
  have hsecond : (r.settled y (7 / 4 * (s * (x - y)))).demand z =
      7 / 4 * (s * (x - z)) + 1 / 4 * (s * (x - y)) := by
    rw [Regulator.demand, Regulator.increment_eq]
    simp only [r, Regulator.settled, Regulator.armed, Tunings.scaled, Exact.zero_eq]
    ring
  refine ⟨hfree, ?_⟩
  rw [Regulator.process_of_isFree rfl hfree, hfirst, Regulator.IsFree, hsecond]
  show r.limits.min ≤ _ ∧ _ ≤ r.limits.max
  rw [hlimits]
  constructor <;> linarith

/-- A set point of one ampere, and two samples of a winding that carries half of one. -/
noncomputable def twoSamples : List (Call ℝ (Rotating ℝ)) :=
  [.instruct (.setPoint ⟨0, 1⟩), .sample (alongFirst (1 / 2)) 0, .sample (alongFirst (-1 / 2)) 1]

/-- From eight volts on, no gain is scaled up to more than a quarter. -/
theorem scale_bounds {V : ℝ} (hV : 8 ≤ V) : 0 ≤ scale V ∧ scale V ≤ 1 / 4 := by
  have hpos : 0 < V := by linarith
  have hroot : √3 ≤ 2 := Real.sqrt_le_iff.mpr ⟨zero_le_two, by norm_num⟩
  have hscale : scale V = √3 / V := by
    rw [eq_div_iff hpos.ne', mul_comm, mul_scale hpos.ne']
  rw [hscale, div_le_iff₀ hpos]
  constructor
  · positivity
  · linarith

/-- A bus of eight volts is not short of what these samples ask for. -/
theorem unclamped_twoSamples {V : ℝ} (hV : 8 ≤ V) :
    ((new.reset : TorqueLoop ℝ).setCurrentTunings V
      (.both ⟨1, 1 / 2, 1 / 4⟩)).Unclamped twoSamples := by
  obtain ⟨hlo, hhi⟩ := scale_bounds hV
  obtain ⟨hd, hq⟩ := abs_toRotating_le (x := 1 / 2) (by norm_num) (0 * new.polePairs)
  obtain ⟨hd', hq'⟩ := abs_toRotating_le (x := -1 / 2) (by norm_num) (1 * new.polePairs)
  obtain ⟨hfirst, hsecond⟩ := isFree_twice hlo hhi (x := 0) (by norm_num) hd hd'
  obtain ⟨hfirst', hsecond'⟩ := isFree_twice hlo hhi (x := 1) (by norm_num) hq hq'
  exact ⟨⟨fun _ => hfirst, fun _ => hfirst'⟩, ⟨fun _ => hsecond, fun _ => hsecond'⟩, trivial⟩

/-- On two buses, of which one is twice the other, with a second sample that depends on the first. -/
theorem independent_of_doubled_bus :
    let t : TorqueLoop ℝ := .new
    let gains : AxisTunings ℝ := .both ⟨1, 1 / 2, 1 / 4⟩
    (0 : ℝ) < 12 ∧ (0 : ℝ) < 24 ∧
      (t.reset.setCurrentTunings 12 gains).Unclamped (twoSamples.map (.onBus 12)) ∧
      (t.reset.setCurrentTunings 24 gains).Unclamped (twoSamples.map (.onBus 24)) ∧
      List.Forall₂ (SameVoltages 12 24)
        ((t.reset.setCurrentTunings 12 gains).vectors (twoSamples.map (.onBus 12)))
        ((t.reset.setCurrentTunings 24 gains).vectors (twoSamples.map (.onBus 24))) := by
  intro t gains
  have ht := unclamped_twoSamples (V := 12) (by norm_num)
  have hu := unclamped_twoSamples (V := 24) (by norm_num)
  exact ⟨by norm_num, by norm_num, ht, hu,
    independent_of_bus (by norm_num) (by norm_num) t t rfl rfl gains twoSamples ht hu⟩

end TorqueLoop

end MotorControl
