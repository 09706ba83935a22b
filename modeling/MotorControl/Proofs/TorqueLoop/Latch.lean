/-
How a torque loop is latched, and how it is armed anew.

One undefined current, or one angle without a direction, leaves both measured currents
undefined, and with them the outputs of both regulators.  A regulator adds to its last
output, so from then on every output is undefined, whatever is measured; and an
undefined voltage is put on the windings as none at all.  Neither another setting nor an
instruction to enable changes this, since an enabled regulator keeps its output.

Only disabling clears the output.  A loop that was armed anew is the one that `reset`
leaves alone, so nothing but its settings is left of it: it is the loop that one gets by
telling a new one the same settings.
-/
import MotorControl.Proofs.Binary32.Undefined
import MotorControl.Proofs.SpeedLoop

namespace MotorControl

/-! ### Calls -/

namespace Controller

variable {α σ : Type}

def Call.isSample : Call α σ → Bool
  | .sample .. => true
  | .instruct _ => false

/-- Whether a call clears the history of an enabled controller. -/
def Call.disarms : Call α σ → Bool
  | .instruct .disable | .instruct .reset => true
  | _ => false

/-- Whether a call leaves a disabled controller enabled. -/
def Call.arms : Call α σ → Bool
  | .instruct .enable | .instruct .reset => true
  | _ => false

/-- Whether a call is one of the settings of a torque loop. -/
def Call.sets : Call α σ → Bool
  | .instruct (.polePairs _) | .instruct (.setPoint _) | .instruct (.currentTunings _ _) => true
  | _ => false

/-- Calls that arm a controller anew: a reset, or disabling and enabling, with whatever leaves it
disabled in between. -/
inductive Rearms : List (Call α σ) → Prop
  | reset : Rearms [.instruct .reset]
  | disableEnable (between : List (Call α σ)) (h : ∀ k ∈ between, k.arms = false) :
      Rearms (.instruct .disable :: between ++ [.instruct .enable])

end Controller

open Controller (Call Rearms call run outputs after after_append after_induction)

/-! ### Regulators -/

namespace Regulator

/-- With an undefined measurement, or after an undefined output, the next output is undefined. -/
theorem isNaN_process {r : Regulator Float32} {x : Float32} (henabled : r.enabled = true)
    (h : r.output.isNaN = true ∨ x.isNaN = true) :
    (r.process x).1.isNaN = true ∧ (r.process x).2.output.isNaN = true := by
  have hsum : (r.output + r.increment (r.setPoint - x)).isNaN = true := by
    obtain hout | hx := h
    · exact Binary32.isNaN_add (.inl hout)
    · -- The integral part is undefined, whatever its gain.
      have herror : (r.setPoint - x).isNaN = true := Binary32.isNaN_sub (.inr hx)
      exact Binary32.isNaN_add (.inr (Binary32.isNaN_add (.inl
        (Binary32.isNaN_add (.inr (Binary32.isNaN_mul (.inr herror)))))))
  unfold process
  rw [if_pos henabled]
  dsimp only
  rw [Binary32.clamp_of_isNaN hsum]
  exact ⟨hsum, hsum⟩

end Regulator

namespace TorqueLoop

/-! ### Latching -/

section Latching

variable {t : TorqueLoop Float32} {currents : Phases Float32} {angle : Float32}

/-- A sample that cannot be measured: one of the currents is undefined, or the direction of the
rotor is. -/
def Corrupts (t : TorqueLoop Float32) (currents : Phases Float32) (angle : Float32) : Prop :=
  let direction := Angle.direction (angle * t.polePairs)
  (currents.a.isNaN = true ∨ currents.b.isNaN = true ∨ currents.c.isNaN = true) ∨
    (direction.cos.isNaN = true ∨ direction.sin.isNaN = true)

/-- An infinite or undefined angle is one without a direction. -/
theorem corrupts_of_not_isFinite (h : angle.isFinite = false) : t.Corrupts currents angle := by
  have helectrical : (angle * t.polePairs).isFinite = false := by
    rw [← Bool.not_eq_true] at h ⊢
    exact mt (fun hmul => (Binary32.isFinite_of_mul hmul).1) h
  refine .inr (.inl ?_)
  rw [Angle.direction_of_not_isFinite helectrical]
  decide +kernel

/-- Both of the currents that the regulators are given are undefined. -/
theorem Corrupts.isNaN_measured (h : t.Corrupts currents angle) :
    let measured := currents.toRotating (Angle.direction (angle * t.polePairs))
    measured.d.isNaN = true ∧ measured.q.isNaN = true := by
  open Binary32 in
  obtain hcurrent | hcos | hsin := h
  · have halpha : currents.toStationary.alpha.isNaN = true := by
      obtain ha | hb | hc := hcurrent
      · exact isNaN_div (.inl (isNaN_sub (.inl (isNaN_sub (.inl (isNaN_mul (.inr ha)))))))
      · exact isNaN_div (.inl (isNaN_sub (.inl (isNaN_sub (.inr hb)))))
      · exact isNaN_div (.inl (isNaN_sub (.inr hc)))
    exact ⟨isNaN_add (.inl (isNaN_mul (.inr halpha))), isNaN_sub (.inr (isNaN_mul (.inr halpha)))⟩
  · exact ⟨isNaN_add (.inl (isNaN_mul (.inl hcos))), isNaN_sub (.inl (isNaN_mul (.inl hcos)))⟩
  · exact ⟨isNaN_add (.inr (isNaN_mul (.inl hsin))), isNaN_sub (.inr (isNaN_mul (.inl hsin)))⟩

/-- An enabled loop with undefined outputs. -/
structure Latched (t : TorqueLoop Float32) : Prop where
  dEnabled : t.d.enabled = true
  qEnabled : t.q.enabled = true
  dOutput : t.d.output.isNaN = true
  qOutput : t.q.output.isNaN = true

/-- Undefined measurements latch an enabled loop, and undefined outputs keep it latched. -/
theorem Latched.calculate_of (hd : t.d.enabled = true) (hq : t.q.enabled = true)
    (h : (t.d.output.isNaN = true ∧ t.q.output.isNaN = true) ∨ t.Corrupts currents angle) :
    (t.calculate currents angle).1 = .zero ∧ Latched (t.calculate currents angle).2 := by
  let direction := Angle.direction (angle * t.polePairs)
  let measured := currents.toRotating direction
  have hcause : (t.d.output.isNaN = true ∨ measured.d.isNaN = true) ∧
      (t.q.output.isNaN = true ∨ measured.q.isNaN = true) := by
    obtain ⟨hdout, hqout⟩ | hcorrupts := h
    · exact ⟨.inl hdout, .inl hqout⟩
    · exact ⟨.inr hcorrupts.isNaN_measured.1, .inr hcorrupts.isNaN_measured.2⟩
  obtain ⟨hdv, hdnext⟩ := Regulator.isNaN_process hd hcause.1
  obtain ⟨hqv, hqnext⟩ := Regulator.isNaN_process hq hcause.2
  refine ⟨Stationary.modulate_of_isNaN ?_, ?_⟩
  · exact Binary32.isNaN_add (.inl (Binary32.isNaN_mul (.inr hdv)))
  · exact ⟨(Regulator.enabled_process _ _).trans hd, (Regulator.enabled_process _ _).trans hq,
      hdnext, hqnext⟩

/-- Nothing but a call that clears the history releases the latch. -/
theorem Latched.call (h : Latched t) {k : Call Float32 (Rotating Float32)}
    (hk : k.disarms = false) :
    (Controller.call t k).result.1.toList = List.replicate ([k].countP Call.isSample) .zero ∧
      Latched (Controller.call t k).result.2 := by
  cases k with
  | sample currents angle =>
      have hnext : (t.calculate currents angle).1 = .zero ∧ Latched (t.calculate currents angle).2 :=
        calculate_of h.dEnabled h.qEnabled (.inl ⟨h.dOutput, h.qOutput⟩)
      exact ⟨congrArg (fun duties => [duties]) hnext.1, hnext.2⟩
  | instruct i =>
      refine ⟨rfl, ?_⟩
      obtain ⟨hd, hq, hdout, hqout⟩ := h
      cases i with
      | disable | reset => cases hk
      | enable =>
          have henable {r : Regulator Float32} (hr : r.enabled = true) : r.enable = r := if_pos hr
          show Latched ⟨t.d.enable, t.q.enable, t.polePairs⟩
          rw [henable hd, henable hq]
          exact ⟨hd, hq, hdout, hqout⟩
      | service | polePairs | setPoint | currentTunings | speedTunings =>
          exact ⟨hd, hq, hdout, hqout⟩

theorem Latched.outputs_eq (ks : List (Call Float32 (Rotating Float32)))
    (hks : ∀ k ∈ ks, k.disarms = false) :
    ∀ t : TorqueLoop Float32, Latched t →
      outputs t ks = List.replicate (ks.countP Call.isSample) .zero := by
  induction ks with
  | nil => intro t _; rfl
  | cons k ks ih =>
      intro t ht
      obtain ⟨hduties, hnext⟩ := ht.call (hks k List.mem_cons_self)
      rw [Controller.outputs_cons, hduties,
        ih (fun k' hk' => hks k' (List.mem_cons_of_mem _ hk')) _ hnext, List.replicate_append_replicate,
        ← List.countP_append, List.singleton_append]

end Latching

/-! ### Arming anew -/

section Arming

variable {α : Type} [Scalar α] {a b t : TorqueLoop α}

/-- Loops that were told the same pole pairs, the same gains and the same set point. -/
structure SameSettings (a b : TorqueLoop α) : Prop where
  polePairs : a.polePairs = b.polePairs
  currentTunings : a.currentTunings = b.currentTunings
  setPoint : a.setPoint = b.setPoint

/-- A loop whose voltages are measured as those of a new one are. -/
structure Normalized (t : TorqueLoop α) : Prop where
  dLimits : t.d.limits = .symmetric 1
  qLimits : t.q.limits = .symmetric 1

theorem Normalized.call (h : Normalized t) (k : Call α (Rotating α)) :
    Normalized (Controller.call t k).result.2 := by
  obtain ⟨hd, hq⟩ := h
  cases k with
  | sample => exact ⟨(Regulator.limits_process _ _).trans hd, (Regulator.limits_process _ _).trans hq⟩
  | instruct i =>
      cases i with
      | enable => exact ⟨(Regulator.limits_enable _).trans hd, (Regulator.limits_enable _).trans hq⟩
      | disable | reset | service | polePairs | setPoint | currentTunings | speedTunings =>
          exact ⟨hd, hq⟩

theorem Normalized.after_new (ks : List (Call α (Rotating α))) :
    Normalized (after (new : TorqueLoop α) ks) :=
  after_induction (fun _ k h => h.call k) ks new ⟨rfl, rfl⟩

/-- Of a loop that a reset leaves alone, the settings are all there is. -/
theorem eq_of_sameSettings (ha : Normalized a) (hb : Normalized b) (hareset : a.reset = a)
    (hbreset : b.reset = b) (h : SameSettings a b) : a = b := by
  have hd : a.d.tunings = b.d.tunings := congrArg AxisTunings.d h.currentTunings
  have hq : a.q.tunings = b.q.tunings := congrArg AxisTunings.q h.currentTunings
  have hdSet : a.d.setPoint = b.d.setPoint := congrArg Rotating.d h.setPoint
  have hqSet : a.q.setPoint = b.q.setPoint := congrArg Rotating.q h.setPoint
  rw [← hareset, ← hbreset, reset_eq, reset_eq, ha.dLimits, ha.qLimits, hb.dLimits, hb.qLimits,
    h.polePairs, hd, hq, hdSet, hqSet]

/-- Settings leave a clean history clean. -/
theorem reset_after_settings (ks : List (Call α (Rotating α))) (hks : ∀ k ∈ ks, k.sets = true) :
    ∀ t : TorqueLoop α, t.reset = t → (after t ks).reset = after t ks := by
  induction ks with
  | nil => intro t ht; exact ht
  | cons k ks ih =>
      intro t ht
      refine ih (fun k' hk' => hks k' (List.mem_cons_of_mem _ hk')) _ ?_
      have hk := hks k List.mem_cons_self
      -- A setting can be told before the reset as well as after it.
      have hcomm : (call t k).result.2.reset = (call t.reset k).result.2 := by
        cases k with
        | sample => cases hk
        | instruct i => cases i <;> first | rfl | cases hk
      rw [hcomm, ht]

/-- A disabled loop with a clean history stays one until it is armed. -/
theorem disable_call (ht : t.disable = t) {k : Call α (Rotating α)} (hk : k.arms = false) :
    (call t k).result.2.disable = (call t k).result.2 := by
  cases k with
  | sample currents angle =>
      have hd : t.d.enabled = false := (congrArg (fun t => t.d.enabled) ht).symm
      have hq : t.q.enabled = false := (congrArg (fun t => t.q.enabled) ht).symm
      obtain ⟨x, y, hnext⟩ := t.calculate_spec currents angle
      rw [Regulator.process_of_disabled hd, Regulator.process_of_disabled hq] at hnext
      show (t.calculate currents angle).2.disable = (t.calculate currents angle).2
      rw [hnext]
      exact ht
  | instruct i =>
      have hcomm : (call t (.instruct i)).result.2.disable =
          (call t.disable (.instruct i)).result.2 := by
        cases i <;> first | rfl | cases hk
      rw [hcomm, ht]

theorem disable_after (ks : List (Call α (Rotating α))) (hks : ∀ k ∈ ks, k.arms = false) :
    ∀ t : TorqueLoop α, t.disable = t → (after t ks).disable = after t ks := by
  induction ks with
  | nil => intro t ht; exact ht
  | cons k ks ih =>
      intro t ht
      exact ih (fun k' hk' => hks k' (List.mem_cons_of_mem _ hk')) _
        (disable_call ht (hks k List.mem_cons_self))

/-- However a loop is armed anew, a reset after that changes nothing. -/
theorem reset_after_rearm {rearm : List (Call α (Rotating α))} (h : Rearms rearm)
    (t : TorqueLoop α) : (after t rearm).reset = after t rearm := by
  cases h with
  | reset => rfl
  | disableEnable between hbetween =>
      have hidle := disable_after between hbetween t.disable rfl
      have hafter : after t (.instruct .disable :: between ++ [.instruct .enable]) =
          (after t.disable between).enable := after_append between _ t.disable
      rw [hafter, ← hidle]
      rfl

omit [Scalar α] in
theorem SameSettings.trans {c : TorqueLoop α} (h : SameSettings a b) (h' : SameSettings b c) :
    SameSettings a c :=
  ⟨h.polePairs.trans h'.polePairs, h.currentTunings.trans h'.currentTunings,
    h.setPoint.trans h'.setPoint⟩

/-- What is no setting changes none. -/
theorem SameSettings.of_not_sets (t : TorqueLoop α) {k : Call α (Rotating α)}
    (hk : k.sets = false) : SameSettings t (call t k).result.2 := by
  cases k with
  | sample =>
      exact ⟨rfl, congrArg₂ AxisTunings.mk (Regulator.tunings_process _ _).symm
          (Regulator.tunings_process _ _).symm,
        congrArg₂ Rotating.mk (Regulator.setPoint_process _ _).symm
          (Regulator.setPoint_process _ _).symm⟩
  | instruct i =>
      cases i with
      | enable =>
          exact ⟨rfl, congrArg₂ AxisTunings.mk (Regulator.tunings_enable _).symm
              (Regulator.tunings_enable _).symm,
            congrArg₂ Rotating.mk (Regulator.setPoint_enable _).symm
              (Regulator.setPoint_enable _).symm⟩
      | disable | reset | service | speedTunings => exact ⟨rfl, rfl, rfl⟩
      | polePairs | setPoint | currentTunings => cases hk

/-- A setting makes no difference between loops that agreed. -/
theorem SameSettings.of_sets (h : SameSettings a b) {k : Call α (Rotating α)}
    (hk : k.sets = true) : SameSettings (call a k).result.2 (call b k).result.2 := by
  obtain ⟨hpairs, htunings, hset⟩ := h
  cases k with
  | sample => cases hk
  | instruct i =>
      cases i with
      | polePairs => exact ⟨rfl, htunings, hset⟩
      | setPoint => exact ⟨hpairs, htunings, rfl⟩
      | currentTunings => exact ⟨hpairs, rfl, hset⟩
      | enable | disable | reset | service | speedTunings => cases hk

/-- A loop agrees with one that is told its settings and nothing else. -/
theorem SameSettings.filter_sets (ks : List (Call α (Rotating α))) :
    ∀ a b : TorqueLoop α, SameSettings a b →
      SameSettings (after a (ks.filter Call.sets)) (after b ks) := by
  induction ks with
  | nil => intro a b h; exact h
  | cons k ks ih =>
      intro a b h
      cases hk : k.sets with
      | true =>
          rw [List.filter_cons_of_pos hk]
          exact ih _ _ (h.of_sets hk)
      | false =>
          rw [List.filter_cons_of_neg (by rw [hk]; decide)]
          exact ih _ _ (h.trans (.of_not_sets b hk))

end Arming

/-! ### The latch -/

/-- How a loop latches, and how it is released. -/
structure Latches (t : TorqueLoop Float32) : Prop where
  /-- A sample that cannot be measured puts no voltage on the windings, and neither does any sample
  after it until the history is cleared. -/
  latched (currents : Phases Float32) (angle : Float32) (js : List (Call Float32 (Rotating Float32)))
    (henabled : t.isEnabled = true) (h : t.Corrupts currents angle)
    (hjs : ∀ k ∈ js, k.disarms = false) :
    outputs t (.sample currents angle :: js) =
      List.replicate (js.countP Call.isSample + 1) .zero
  /-- No infinite or undefined angle can be measured. -/
  corrupts (currents : Phases Float32) (angle : Float32) (h : angle.isFinite = false) :
    t.Corrupts currents angle
  /-- Armed anew, the loop does whatever a new one with the same settings does. -/
  rearmed {rearm settings : List (Call Float32 (Rotating Float32))} (hrearm : Rearms rearm)
    (hsettings : ∀ k ∈ settings, k.sets = true)
    (h : SameSettings (after new settings) (after t rearm))
    (js : List (Call Float32 (Rotating Float32))) :
    run (after t rearm) js = run (after new settings) js
  /-- There is a new one with the same settings. -/
  exists_settings (rearm : List (Call Float32 (Rotating Float32))) :
    ∃ settings, (∀ k ∈ settings, k.sets = true) ∧
      SameSettings (after new settings) (after t rearm)

/--
**One undefined sample latches an enabled loop until it is armed anew, and arming it anew leaves
nothing but its settings.**
-/
theorem latches_after (ks : List (Call Float32 (Rotating Float32))) :
    Latches (after (new : TorqueLoop Float32) ks) where
  latched currents angle js henabled h hjs := by
    obtain ⟨hd, hq⟩ := (Bool.and_eq_true _ _).mp henabled
    obtain ⟨hduties, hlatched⟩ := Latched.calculate_of hd hq (.inr h)
    rw [List.replicate_succ]
    exact congrArg₂ List.cons hduties (Latched.outputs_eq js hjs _ hlatched)
  corrupts _ _ h := corrupts_of_not_isFinite h
  rearmed {rearm settings} hrearm hsettings h js := by
    have hsame : after (new : TorqueLoop Float32) settings = after (after new ks) rearm := by
      rw [← after_append] at h ⊢
      refine eq_of_sameSettings (Normalized.after_new _) (Normalized.after_new _)
        (reset_after_settings settings hsettings new rfl) ?_ h
      rw [after_append]
      exact reset_after_rearm hrearm _
    rw [hsame]
  exists_settings rearm := by
    refine ⟨(ks ++ rearm).filter Call.sets, fun k hk => (List.mem_filter.mp hk).2, ?_⟩
    rw [← after_append]
    exact .filter_sets (ks ++ rearm) new new ⟨rfl, rfl, rfl⟩

/-- Gains, and a current to be kept. -/
def tuned : List (Call Float32 (Rotating Float32)) :=
  [.instruct (.currentTunings 24 (.both ⟨1, 0, 0⟩)), .instruct (.setPoint ⟨0, 1⟩)]

/-- An undefined current, and then a valid sample, which the loop would otherwise have answered with
a voltage, as it does after a reset. -/
theorem latches_after_tuned :
    let corrupt : Call Float32 (Rotating Float32) := .sample ⟨Scalar.undefined, 0, 0⟩ 0
    let valid : Call Float32 (Rotating Float32) := .sample ⟨0, 0, 0⟩ 0
    let corrupted : TorqueLoop Float32 := after new (tuned ++ [corrupt])
    outputs (after (new : TorqueLoop Float32) tuned) [corrupt, .instruct .enable, valid] =
        [.zero, .zero] ∧
      outputs (after corrupted [.instruct .reset]) [valid] ≠ [.zero] := by
  intro corrupt valid corrupted
  refine ⟨?_, ?_⟩
  · exact (latches_after tuned).latched ⟨Scalar.undefined, 0, 0⟩ 0 [.instruct .enable, valid]
      (by decide +kernel) (.inl (.inl (by decide +kernel))) (by decide)
  · have hrun : run (after corrupted [.instruct .reset]) [valid] = run (after new tuned) [valid] :=
      (latches_after (tuned ++ [corrupt])).rearmed .reset (by decide)
        ⟨by decide +kernel, by decide +kernel, by decide +kernel⟩ [valid]
    rw [outputs, hrun]
    decide +kernel

end TorqueLoop

end MotorControl
