/-
A regulator in exact arithmetic.

A regulator computes the changes of its output and adds them up.  As long as no limit
holds the output back the sum telescopes, and what is left is a regulator in positional
form: it weighs the last error, the sum of all errors and the change from the error
before.  `Follows` is the invariant behind this.  The output is the positional one of
the errors so far, and the two errors that the regulator keeps are the last two of them.

A limit that holds the output back takes the place of the sum.  How far the sum went
beyond it is kept nowhere, so the next change starts from the limit.
-/
import Mathlib.Algebra.BigOperators.Intervals
import MotorControl.Proofs.Exact.Duty
import MotorControl.Proofs.Regulator

namespace MotorControl

theorem Exact.two_eq : @OfNat.ofNat ℝ 2 Scalar.instOfNat = 2 := Nat.cast_ofNat

namespace Regulator

/-! ### Calls -/

/-- What is done with a regulator while it regulates. -/
inductive Call where
  | setPoint (x : ℝ)
  | process (measurement : ℝ)

/-- The outputs of a regulator, in the order of its samples. -/
noncomputable def outputs : Regulator ℝ → List Call → List ℝ
  | _, [] => []
  | r, .setPoint x :: cs => (r.setSetPoint x).outputs cs
  | r, .process y :: cs => (r.process y).1 :: (r.process y).2.outputs cs

/-- The output that a measurement would lead to if there were no limits. -/
noncomputable def demand (r : Regulator ℝ) (measurement : ℝ) : ℝ :=
  r.output + r.increment (r.setPoint - measurement)

/-- No limit holds the output back at a measurement. -/
def IsFree (r : Regulator ℝ) (measurement : ℝ) : Prop :=
  r.limits.min ≤ r.demand measurement ∧ r.demand measurement ≤ r.limits.max

/-- No limit holds the output back at any sample of a run. -/
def Unclamped : Regulator ℝ → List Call → Prop
  | _, [] => True
  | r, .setPoint x :: cs => (r.setSetPoint x).Unclamped cs
  | r, .process y :: cs => r.IsFree y ∧ (r.process y).2.Unclamped cs

/-- A measurement takes the output beyond a limit. -/
inductive Passes (r : Regulator ℝ) (measurement : ℝ) : ℝ → Prop
  | below (h : r.demand measurement < r.limits.min) : Passes r measurement r.limits.min
  | above (h : r.limits.max < r.demand measurement) : Passes r measurement r.limits.max

/-! ### The positional form -/

/-- How far the measurements of a run lie from the set points they are taken at. -/
noncomputable def errors : (setPoint : ℝ) → List Call → List ℝ
  | _, [] => []
  | _, .setPoint x :: cs => errors x cs
  | setPoint, .process y :: cs => (setPoint - y) :: errors setPoint cs

/-- The error of the `n`th sample, and none before the first. -/
noncomputable def error (setPoint : ℝ) (cs : List Call) (n : ℕ) : ℝ :=
  (0 :: errors setPoint cs).getD n 0

/-- The `n`th output of a regulator in positional form, from all errors up to then. -/
noncomputable def positional (t : Tunings ℝ) (e : ℕ → ℝ) (n : ℕ) : ℝ :=
  t.kp * e n + t.ki * ∑ j ∈ Finset.Icc 1 n, e j + t.kd * (e n - e (n - 1))

theorem positional_zero (t : Tunings ℝ) {e : ℕ → ℝ} (he : e 0 = 0) : positional t e 0 = 0 := by
  simp [positional, he]

/-- From one sample to the next the positional output changes by the three terms in their
differences. -/
theorem positional_succ (t : Tunings ℝ) (e : ℕ → ℝ) (n : ℕ) :
    positional t e (n + 1) = positional t e n + (t.kp * (e (n + 1) - e n) + t.ki * e (n + 1)
      + t.kd * (e (n + 1) - 2 * e n + e (n - 1))) := by
  rw [positional, positional, Finset.sum_Icc_succ_top (Nat.le_add_left 1 n), Nat.add_sub_cancel]
  ring

theorem errors_eq_map (setPoint : ℝ) (cs : List Call) :
    errors setPoint cs =
      (List.range' 1 (errors setPoint cs).length).map (error setPoint cs) := by
  refine List.ext_getElem (by simp) ?_
  intro i hi _
  simp [error, Nat.add_comm 1 i, hi]

/-! ### One sample -/

variable {r : Regulator ℝ} {y : ℝ}

theorem increment_eq (r : Regulator ℝ) (error : ℝ) :
    r.increment error = r.tunings.kp * (error - r.previousError) + r.tunings.ki * error
      + r.tunings.kd * (error - 2 * r.previousError + r.secondPreviousError) := by
  rw [increment, Exact.two_eq]

/-- Without a history the three gains weigh the same error. -/
theorem demand_armed (t : Tunings ℝ) (l : Limits ℝ) (setPoint y : ℝ) :
    (armed t l setPoint).demand y = (t.kp + t.ki + t.kd) * (setPoint - y) := by
  rw [demand, increment_eq, armed, Exact.zero_eq]
  ring

/-- The regulator with the output that a sample has led to. -/
def settled (r : Regulator ℝ) (measurement output : ℝ) : Regulator ℝ :=
  { r with
    output := output
    previousError := r.setPoint - measurement
    secondPreviousError := r.previousError }

theorem process_of_enabled (henabled : r.enabled = true) (y : ℝ) :
    r.process y = (Scalar.clamp (r.demand y) r.limits.min r.limits.max,
      r.settled y (Scalar.clamp (r.demand y) r.limits.min r.limits.max)) :=
  if_pos henabled

theorem process_of_isFree (henabled : r.enabled = true) (hfree : r.IsFree y) :
    r.process y = (r.demand y, r.settled y (r.demand y)) := by
  have hclamp : Scalar.clamp (r.demand y) r.limits.min r.limits.max = r.demand y := by
    rw [Exact.clamp_eq _ (hfree.1.trans hfree.2), min_eq_left hfree.2, max_eq_right hfree.1]
  rw [process_of_enabled henabled, hclamp]

/-- Beyond a limit the output is that limit, however far beyond. -/
theorem process_of_passes (henabled : r.enabled = true) (hlimits : r.limits.min ≤ r.limits.max)
    {limit : ℝ} (h : r.Passes y limit) : r.process y = (limit, r.settled y limit) := by
  have hclamp : Scalar.clamp (r.demand y) r.limits.min r.limits.max = limit := by
    rw [Exact.clamp_eq _ hlimits]
    cases h with
    | below hbelow => rw [min_eq_left (hbelow.le.trans hlimits), max_eq_left hbelow.le]
    | above habove => rw [min_eq_right habove.le, max_eq_right hlimits]
  rw [process_of_enabled henabled, hclamp]

/-! ### Runs -/

/-- An enabled regulator that has taken `n` samples with the errors `e`. -/
structure Follows (r : Regulator ℝ) (e : ℕ → ℝ) (n : ℕ) : Prop where
  enabled : r.enabled = true
  output_eq : r.output = positional r.tunings e n
  previous_eq : r.previousError = e n
  secondPrevious_eq : r.secondPreviousError = e (n - 1)

variable {e : ℕ → ℝ} {n : ℕ}

theorem follows_enable (hdisabled : r.enabled = false) (he : e 0 = 0) : Follows r.enable e 0 := by
  rw [enable_of_disabled hdisabled]
  refine ⟨rfl, ?_, ?_, ?_⟩
  · rw [positional_zero _ he]
    exact Exact.zero_eq
  · rw [he]
    exact Exact.zero_eq
  · rw [he]
    exact Exact.zero_eq

/-- A sample that no limit holds back adds its change to the sum. -/
theorem Follows.process (h : Follows r e n) (hfree : r.IsFree y)
    (herror : r.setPoint - y = e (n + 1)) :
    (r.process y).1 = positional r.tunings e (n + 1) ∧ Follows (r.process y).2 e (n + 1) := by
  have hdemand : r.demand y = positional r.tunings e (n + 1) := by
    rw [demand, herror, increment_eq, positional_succ, h.output_eq, h.previous_eq,
      h.secondPrevious_eq]
  rw [process_of_isFree h.enabled hfree]
  exact ⟨hdemand, h.enabled, hdemand, herror, h.previous_eq⟩

/-- So does every sample of a run that no limit holds back. -/
theorem Follows.outputs (cs : List Call) :
    ∀ (r : Regulator ℝ) (n m : ℕ), Follows r e n → r.Unclamped cs →
      errors r.setPoint cs = (List.range' (n + 1) m).map e →
      r.outputs cs = (List.range' (n + 1) m).map (positional r.tunings e) := by
  induction cs with
  | nil =>
      intro r n m _ _ herrors
      cases m with
      | zero => rfl
      | succ m => simp [errors, List.range'_succ] at herrors
  | cons c cs ih =>
      intro r n m h hfree herrors
      cases c with
      | setPoint x => exact ih (r.setSetPoint x) n m ⟨h.1, h.2, h.3, h.4⟩ hfree herrors
      | process y =>
          cases m with
          | zero => simp [errors] at herrors
          | succ m =>
              rw [errors, List.range'_succ, List.map_cons, List.cons.injEq] at herrors
              obtain ⟨herror, hrest⟩ := herrors
              obtain ⟨houtput, hnext⟩ := h.process hfree.1 herror
              rw [← setPoint_process r y] at hrest
              have hlater := ih (r.process y).2 (n + 1) m hnext hfree.2 hrest
              rw [tunings_process] at hlater
              rw [Regulator.outputs, houtput, hlater, List.range'_succ, List.map_cons]

/--
**A regulator is one in positional form until a limit holds it back, and remembers nothing of what
the limit has cut off.**  From being enabled on, its `n`th output weighs the `n`th error, the sum of
the errors up to it and its change from the error before.  In any state, an output that would pass a
limit is that limit, the next one starts from the limit, and an output that would have passed it by
another amount makes no difference to anything that follows.
-/
theorem positional_until_clamped (r : Regulator ℝ) :
    (r.enabled = false → ∀ cs, r.enable.Unclamped cs →
      r.enable.outputs cs = (List.range' 1 (errors r.setPoint cs).length).map
        (positional r.tunings (error r.setPoint cs))) ∧
    (r.enabled = true → r.limits.min ≤ r.limits.max → ∀ y limit, r.Passes y limit →
      (r.process y).1 = limit ∧
      (∀ x z, (((r.process y).2.setSetPoint x).process z).1 =
        max r.limits.min (min (limit + ((r.process y).2.setSetPoint x).increment (x - z))
          r.limits.max)) ∧
      ∀ o, Passes { r with output := o } y limit → { r with output := o }.process y = r.process y) := by
  constructor
  · intro hdisabled cs hfree
    have hfollows : Follows r.enable (error r.setPoint cs) 0 := follows_enable hdisabled rfl
    have hrun := Follows.outputs cs r.enable 0 (errors r.setPoint cs).length hfollows hfree
    rw [setPoint_enable, tunings_enable] at hrun
    exact hrun (errors_eq_map r.setPoint cs)
  · intro henabled hlimits y limit hpasses
    have hprocess := process_of_passes henabled hlimits hpasses
    refine ⟨by rw [hprocess], ?_, ?_⟩
    · intro x z
      rw [hprocess]
      have hnext : ((r.settled y limit).setSetPoint x).enabled = true := henabled
      rw [process_of_enabled hnext]
      exact Exact.clamp_eq _ hlimits
    · intro o hother
      have henabled' : ({ r with output := o } : Regulator ℝ).enabled = true := henabled
      rw [hprocess, process_of_passes henabled' hlimits hother]
      rfl

/-- A regulator that was enabled at zero, with all three gains. -/
noncomputable def tuned (setPoint : ℝ) : Regulator ℝ :=
  .armed ⟨1, 1 / 2, 1 / 4⟩ ⟨-10, 10⟩ setPoint

theorem demand_tuned (setPoint y : ℝ) : (tuned setPoint).demand y = 7 / 4 * (setPoint - y) := by
  rw [tuned, demand_armed]
  ring

theorem demand_settled_tuned (setPoint y output x z : ℝ) :
    (((tuned setPoint).settled y output).setSetPoint x).demand z =
      output + (7 / 4 * (x - z) - 3 / 2 * (setPoint - y)) := by
  rw [demand, increment_eq, settled, tuned, armed, setSetPoint, Exact.zero_eq]
  ring

/-- Two samples that no limit holds back, and one that a limit does: the next output starts from ten
and not from the fourteen that were asked for. -/
theorem positional_until_ten :
    let idle : Regulator ℝ := .new ⟨1, 1 / 2, 1 / 4⟩ ⟨-10, 10⟩
    let cs : List Call := [.setPoint 2, .process 1, .setPoint 4, .process 1]
    idle.enabled = false ∧ idle.enable.Unclamped cs ∧ idle.enable.outputs cs = [7 / 4, 11 / 2] ∧
      (tuned 8).enabled = true ∧ (tuned 8).limits.min ≤ (tuned 8).limits.max ∧
      (tuned 8).demand 0 = 14 ∧ (tuned 8).Passes 0 10 ∧ ((tuned 8).process 0).1 = 10 ∧
      (((tuned 8).process 0).2.process 8).1 = -2 := by
  intro idle cs
  have hfirst : (tuned 2).IsFree 1 := by
    rw [IsFree, demand_tuned]
    norm_num [tuned, armed]
  have hsecond : (((tuned 2).settled 1 (7 / 4)).setSetPoint 4).IsFree 1 := by
    rw [IsFree, demand_settled_tuned]
    norm_num [settled, setSetPoint, tuned, armed]
  have hprocess : (tuned 2).process 1 = (7 / 4, (tuned 2).settled 1 (7 / 4)) := by
    rw [process_of_isFree rfl hfirst, demand_tuned]
    norm_num
  have hfree : idle.enable.Unclamped cs := by
    refine ⟨hfirst, ?_, trivial⟩
    show (((tuned 2).process 1).2.setSetPoint 4).IsFree 1
    rw [hprocess]
    exact hsecond
  have hlimits : (tuned 8).limits.min ≤ (tuned 8).limits.max := by
    norm_num [tuned, armed]
  have hdemand : (tuned 8).demand 0 = 14 := by
    rw [demand_tuned]
    norm_num
  have hpasses : (tuned 8).Passes 0 10 := by
    refine .above ?_
    rw [hdemand]
    norm_num [tuned, armed]
  obtain ⟨hpositional, -⟩ := positional_until_clamped idle
  obtain ⟨-, hclamped⟩ := positional_until_clamped (tuned 8)
  obtain ⟨hlimit, hnext, -⟩ := hclamped rfl hlimits 0 10 hpasses
  refine ⟨rfl, hfree, ?_, rfl, hlimits, hdemand, hpasses, hlimit, ?_⟩
  · rw [hpositional rfl cs hfree]
    norm_num [cs, errors, error, positional, Finset.sum_Icc_succ_top, idle, new, List.range'_succ]
  · have hsum : 10 + (((tuned 8).settled 0 10).setSetPoint 8).increment (8 - 8) = -2 :=
      (demand_settled_tuned 8 0 10 8 8).trans (by norm_num)
    have hstep := hnext 8 8
    rw [process_of_passes rfl hlimits hpasses] at hstep ⊢
    refine hstep.trans ?_
    rw [hsum]
    norm_num [tuned, armed]

end Regulator

end MotorControl
