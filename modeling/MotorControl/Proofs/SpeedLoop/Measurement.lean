/-
What a speed loop measures.

A loop ticks at the samples whose number since the last reset is a multiple of its
ratio, and a tick measures the speed over the time since the tick before.  Counting the
angle that a reset starts from as the angle number zero, the tick at the sample `i`
measures the way from the angle `i - n` to the angle `i`, where `n` is the ratio.  The
angles between the two are seen by the torque loop and have no part in the speed.

`Timed` is the invariant: it says which of the angles since the last reset the loop
still holds, and that the speed it shows is that of its last tick.
-/
import MotorControl.Binary32
import MotorControl.Proofs.SpeedLoop.Ticks

namespace MotorControl

open Controller (Call samplesSinceReset)

/-! ### The angles since the last reset -/

namespace Controller

variable {α σ : Type} [Scalar α]

/-- The angles since the last reset after a call, before which they were `xs`. -/
def Call.seen (xs : List α) : Call α σ → List α
  | .sample _ angle => xs ++ [angle]
  | .instruct .reset => [0]
  | .instruct _ => xs

/-- The angles since the last reset: zero, which a loop starts from, and that of each sample. -/
def angles (ks : List (Call α σ)) : List α := ks.foldl Call.seen [0]

end Controller

open Controller (call after angles)

namespace SpeedLoop

variable {α O : Type} [Scalar α]

/-! ### One call -/

/-- What waits in the handoff after a call that stores nothing. -/
def left (h : Handoff α) : Call α α → Handoff α
  | .instruct .service => h.take.2
  | .instruct .reset => h.clear
  | _ => h

/-- The speed that a loop shows after a call that measures none. -/
def shownAfter (speed : α) : Call α α → α
  | .instruct .reset => 0
  | _ => speed

variable [LoopObserver O α]

/-- A sample that brings a tick: it raises one interrupt, calls the observer once, and stores one
current, all three for the speed that it measures. -/
structure Ticks (s : SpeedLoop α O) (currents : Phases α) (angle speed : α)
    (t : Traced α (Option Duties × SpeedLoop α O)) : Prop where
  events : t.events = .interrupt :: .tick ⟨currents, speed, angle * s.polePairs⟩ ::
    (LoopObserver.tick ⟨currents, speed, angle * s.polePairs⟩ s.observer).events
  observer : t.result.2.observer =
    (LoopObserver.tick ⟨currents, speed, angle * s.polePairs⟩ s.observer).result.2
  stored : t.result.2.target = s.target.store (s.regulator.process speed).1
  held : t.result.2.previousAngle = angle
  speed_eq : t.result.2.speed = speed

/-- A call that brings none: nothing is raised, nobody is called, and nothing is stored. -/
structure Passes (s : SpeedLoop α O) (k : Call α α)
    (t : Traced α (Option Duties × SpeedLoop α O)) : Prop where
  events : t.events = []
  observer : t.result.2.observer = s.observer
  stored : t.result.2.target = left s.target k
  held : t.result.2.previousAngle = shownAfter s.previousAngle k
  speed_eq : t.result.2.speed = shownAfter s.speed k

variable {s : SpeedLoop α O}

theorem ticks_of_due (due : s.countdown ≤ 1) (currents : Phases α) (angle : α) :
    Ticks s currents angle (s.measured angle) (call s (.sample currents angle)) := by
  let sample : LoopSample α := ⟨currents, s.measured angle, angle * s.polePairs⟩
  let answer := LoopObserver.tick sample s.observer
  let next : SpeedLoop α O := { s with
    countdown := s.ratio.value
    observer := answer.result.2
    regulator := (s.regulator.process (s.measured angle)).2
    target := s.target.store (s.tickCurrent angle)
    previousAngle := angle
    speed := s.measured angle }
  have hpaced : s.paced currents angle = { s with countdown := s.ratio.value }.tick currents angle :=
    if_pos due
  have hresult : (s.paced currents angle).result =
      answer.result.1.elim next next.setSpeedTunings := by
    rw [hpaced]
    rfl
  have hevents : (s.paced currents angle).events = .interrupt :: .tick sample :: answer.events := by
    rw [hpaced]
    exact congrArg (fun es => _ :: _ :: es) (List.append_nil _)
  -- New gains change the regulator alone.
  refine ⟨(events_call_sample s currents angle).trans hevents, ?_, ?_, ?_, ?_⟩ <;>
    rw [call_sample, hresult] <;> cases answer.result.1 <;> rfl

theorem passes_of_not_due (due : ¬ s.countdown ≤ 1) (currents : Phases α) (angle : α) :
    Passes s (.sample currents angle) (call s (.sample currents angle)) := by
  have hpaced : s.paced currents angle = pure { s with countdown := s.countdown - 1 } := if_neg due
  refine ⟨?_, ?_, ?_, ?_, ?_⟩
  · rw [events_call_sample, hpaced]
    rfl
  all_goals
    rw [call_sample, hpaced]
    rfl

theorem passes_instruct (s : SpeedLoop α O) (i : Instruction α α) :
    Passes s (.instruct i) (call s (.instruct i)) := by
  cases i with
  | service =>
      have hservice : (call s (.instruct .service)).result.2 = s.service := rfl
      rw [service_eq] at hservice
      exact ⟨rfl, by rw [hservice], by rw [hservice]; rfl, by rw [hservice]; rfl,
        by rw [hservice]; rfl⟩
  | enable | disable | reset | polePairs | setPoint | currentTunings | speedTunings =>
      exact ⟨rfl, rfl, rfl, rfl, rfl⟩

/-! ### Runs -/

/-- The speed from a tick to the next one at the angle `i`: from the angle a whole ratio before. -/
def speedAt (ratio : OuterRatio) (period : α) (xs : List α) (i : Nat) : Option α := do
  let now ← xs[i]?
  let before ← xs[i - ratio.value.toNat]?
  return Angle.difference now before / period

/-- A loop with the angles `xs` since the last reset, and so with `n` samples since then. -/
structure Timed (ratio : OuterRatio) (period : α) (n : Nat) (xs : List α) (s : SpeedLoop α O) :
    Prop where
  counts : Counts ratio n s
  length_eq : xs.length = n + 1
  /-- The angle of the last tick is held, or the one that a reset starts from. -/
  held : xs[n - n % ratio.value.toNat]? = some s.previousAngle
  speed_eq : some s.speed = if n < ratio.value.toNat then some 0
    else speedAt ratio period xs (n - n % ratio.value.toNat)

namespace Timed

variable {ratio : OuterRatio} {period limit : α} {n : Nat} {xs : List α}

omit [LoopObserver O α] in
theorem of_check {observer : O} {maxCurrent : Quantity .ampere α} {pwm : Hertz}
    (hs : check observer maxCurrent pwm ratio = .ok s) : Timed ratio period 0 [0] s := by
  have hcounts := Counts.of_check hs
  obtain ⟨-, rfl⟩ := check_eq_ok_iff.1 hs
  refine ⟨hcounts, rfl, ?_, ?_⟩
  · rw [Nat.zero_mod]
    rfl
  · rw [if_pos ratio.toNat_pos]
    rfl

omit [LoopObserver O α] in
/-- A tick goes back a whole ratio, to the angle that is held. -/
theorem held_of_due (h : Timed ratio period n xs s) (due : s.countdown ≤ 1) :
    ratio.value.toNat ≤ n + 1 ∧ xs[n + 1 - ratio.value.toNat]? = some s.previousAngle := by
  have hphase := h.counts.mod_of_due due
  have hle := Nat.mod_le n ratio.value.toNat
  refine ⟨by omega, ?_⟩
  rw [show n + 1 - ratio.value.toNat = n - n % ratio.value.toNat by omega]
  exact h.held

omit [LoopObserver O α] in
/-- The speed that a tick measures. -/
theorem speedAt_of_due (h : Timed ratio period n xs s) (hperiod : s.period = period)
    (due : s.countdown ≤ 1) (angle : α) :
    speedAt ratio period (xs ++ [angle]) (n + 1) = some (s.measured angle) := by
  have hpos := ratio.toNat_pos
  obtain ⟨hle, hheld⟩ := h.held_of_due due
  have hnow : (xs ++ [angle])[n + 1]? = some angle := by
    rw [← h.length_eq, List.getElem?_concat_length]
  have hbefore : (xs ++ [angle])[n + 1 - ratio.value.toNat]? = some s.previousAngle := by
    rw [List.getElem?_append_left (by rw [h.length_eq]; omega), hheld]
  unfold speedAt
  rw [hnow, hbefore, measured, hperiod]
  rfl

theorem sample (h : Timed ratio period n xs s) (hperiod : s.period = period) (currents : Phases α)
    (angle : α) :
    Timed ratio period (n + 1) (xs ++ [angle]) (call s (.sample currents angle)).result.2 := by
  have hcounts := h.counts.call (.sample currents angle)
  have hlength : (xs ++ [angle]).length = n + 1 + 1 := by
    rw [List.length_append, h.length_eq, List.length_singleton]
  by_cases due : s.countdown ≤ 1
  · have htick := ticks_of_due due currents angle
    have hzero := Nat.mod_eq_zero_of_dvd (h.counts.due_iff.mp due)
    have hle := (h.held_of_due due).1
    refine ⟨hcounts, hlength, ?_, ?_⟩
    · rw [hzero, htick.held, Nat.sub_zero, ← h.length_eq, List.getElem?_concat_length]
    · rw [hzero, htick.speed_eq, Nat.sub_zero, if_neg (by omega),
        h.speedAt_of_due hperiod due]
  · have hpass := passes_of_not_due due currents angle
    have hphase := h.counts.mod_of_not_due due
    have hmod := Nat.mod_le n ratio.value.toNat
    have hnext : n + 1 - (n + 1) % ratio.value.toNat = n - n % ratio.value.toNat := by omega
    have hold (i : Nat) (hi : i ≤ n) : (xs ++ [angle])[i]? = xs[i]? :=
      List.getElem?_append_left (by rw [h.length_eq]; omega)
    refine ⟨hcounts, hlength, ?_, ?_⟩
    · rw [hnext, hpass.held, hold _ (Nat.sub_le _ _)]
      exact h.held
    · have hlt := Nat.mod_lt (n + 1) ratio.toNat_pos
      have hfirst : n + 1 < ratio.value.toNat ↔ n < ratio.value.toNat :=
        ⟨Nat.lt_of_succ_lt, fun hn => by rw [Nat.mod_eq_of_lt hn] at hphase; omega⟩
      have hspeed := h.speed_eq
      unfold speedAt at hspeed ⊢
      rw [hnext, hpass.speed_eq, hold _ (Nat.sub_le _ _), hold _ (by omega)]
      simp only [hfirst]
      exact hspeed

theorem call (h : Timed ratio period n xs s) (hperiod : s.period = period) (k : Call α α) :
    Timed ratio period (k.counted n) (k.seen xs) (Controller.call s k).result.2 := by
  cases k with
  | sample currents angle => exact h.sample hperiod currents angle
  | instruct i =>
      have hcounts := h.counts.call (.instruct i)
      have hpass := passes_instruct s i
      cases i with
      | reset =>
          refine ⟨hcounts, rfl, ?_, ?_⟩
          · rw [hpass.held]
            show [0][0 - 0 % _]? = some 0
            rw [Nat.zero_mod]
            rfl
          · rw [hpass.speed_eq]
            exact (if_pos ratio.toNat_pos).symm
      | enable | disable | service | polePairs | setPoint | currentTunings | speedTunings =>
          exact ⟨hcounts, h.length_eq, by rw [hpass.held]; exact h.held,
            by rw [hpass.speed_eq]; exact h.speed_eq⟩

theorem after (ks : List (Call α α)) :
    ∀ (n : Nat) (xs : List α) (s : SpeedLoop α O), Assembled limit ratio period s →
      Timed ratio period n xs s →
      Timed ratio period (ks.foldl Call.counted n) (ks.foldl Call.seen xs)
        (Controller.after s ks) := by
  induction ks with
  | nil => intro n xs s _ h; exact h
  | cons k ks ih => intro n xs s hs h; exact ih _ _ _ (hs.call k) (h.call hs.period_eq k)

end Timed

/-- A loop that was built with a ratio and ticks once in a period, after a run. -/
structure KeepsTime (ratio : OuterRatio) (period : α) (built : SpeedLoop α O)
    (ks : List (Call α α)) : Prop where
  /-- A sample brings a tick if its number since the last reset is a multiple of the ratio.  The
  tick measures the way from the last tick before, or from zero where there was none. -/
  ticks (currents : Phases α) (angle : α) (h : ratio.value.toNat ∣ samplesSinceReset ks + 1) :
    ∃ speed, speedAt ratio period (angles ks ++ [angle]) (samplesSinceReset ks + 1) = some speed ∧
      Ticks (after built ks) currents angle speed (call (after built ks) (.sample currents angle))
  /-- No other sample brings one, and no instruction does. -/
  passes (k : Call α α) (h : ∀ currents angle, k = .sample currents angle →
    ¬ ratio.value.toNat ∣ samplesSinceReset ks + 1) :
    Passes (after built ks) k (call (after built ks) k)
  /-- The speed is that of the last tick since the last reset. -/
  speed_eq : some (after built ks).speed =
    if samplesSinceReset ks < ratio.value.toNat then some 0
    else speedAt ratio period (angles ks)
      (samplesSinceReset ks - samplesSinceReset ks % ratio.value.toNat)
  /-- The angles between the ticks have no part in it. -/
  speed_congr (ks' : List (Call α α)) (hsamples : samplesSinceReset ks' = samplesSinceReset ks)
    (hangles : ∀ i, ratio.value.toNat ∣ i → (angles ks')[i]? = (angles ks)[i]?) :
    (after built ks').speed = (after built ks).speed

/--
**A loop ticks at every multiple of its ratio, and measures the speed over just the time from tick
to tick.**  The samples are counted since the last reset, and whatever instructions come between
them make no difference.
-/
theorem keepsTime_of_check {observer : O} {maxCurrent : Quantity .ampere α} {pwm : Hertz}
    {ratio : OuterRatio} {built : SpeedLoop α O}
    (h : check observer maxCurrent pwm ratio = .ok built) (ks : List (Call α α)) :
    KeepsTime ratio (ratio.outerPeriod pwm) built ks := by
  have hassembled := Assembled.of_check h
  have htimed (js : List (Call α α)) : Timed ratio (ratio.outerPeriod pwm) (samplesSinceReset js)
      (angles js) (after built js) := (Timed.of_check h).after js 0 [0] built hassembled
  have hdue := (htimed ks).counts.due_iff
  have hperiod := (hassembled.after ks).period_eq
  refine ⟨fun currents angle hmultiple => ?_, fun k hk => ?_, (htimed ks).speed_eq,
    fun ks' hsamples hangles => ?_⟩
  · have due := hdue.mpr hmultiple
    exact ⟨_, (htimed ks).speedAt_of_due hperiod due angle, ticks_of_due due currents angle⟩
  · cases k with
    | sample currents angle =>
        exact passes_of_not_due (mt hdue.mp (hk currents angle rfl)) currents angle
    | instruct i => exact passes_instruct _ i
  · have hlast := Nat.dvd_sub_mod (n := ratio.value.toNat) (samplesSinceReset ks)
    have hspeed := (htimed ks').speed_eq
    unfold speedAt at hspeed
    rw [hsamples, hangles _ hlast, hangles _ (Nat.dvd_sub hlast (Nat.dvd_refl _))] at hspeed
    exact Option.some.inj (hspeed.trans (htimed ks).speed_eq.symm)

/-- Two samples to a tick.  The reset comes in the middle of a period, and a sample that brings no
tick comes last. -/
def resetMidway : List (Call Float32 Float32) :=
  [.sample ⟨0, 0, 0⟩ 2, .instruct .reset, .sample ⟨0, 0, 0⟩ 3, .instruct .disable,
    .sample ⟨0, 0, 0⟩ 0.5, .instruct .service, .sample ⟨0, 0, 0⟩ 3]

/-- The tick after the reset has measured from zero, and the next one measures from it. -/
theorem keepsTime_of_resetMidway : ∃ built : SpeedLoop Float32 Unit,
    check () ⟨20⟩ ⟨1000⟩ ⟨2, by decide, by decide⟩ = .ok built ∧
      (after built resetMidway).speed = 0.5 / (2 / 1000) ∧
      (call (after built resetMidway) (.sample ⟨0, 0, 0⟩ 1)).result.2.speed =
        (1 - 0.5) / (2 / 1000) := by
  have hbuilt : check () (⟨20⟩ : Quantity .ampere Float32) ⟨1000⟩ ⟨2, by decide, by decide⟩ =
      .ok _ := check_eq_ok (by decide +kernel)
  have htime := keepsTime_of_check hbuilt resetMidway
  obtain ⟨speed, hspeed, htick⟩ := htime.ticks ⟨0, 0, 0⟩ 1 (by decide)
  refine ⟨_, hbuilt, Option.some.inj (htime.speed_eq.trans (by decide +kernel)), ?_⟩
  rw [htick.speed_eq]
  exact Option.some.inj (hspeed.symm.trans (by decide +kernel))

end SpeedLoop

end MotorControl
