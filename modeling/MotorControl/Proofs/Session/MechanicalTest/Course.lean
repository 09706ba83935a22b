/-
The course of a mechanical test.

All that a test does with its samples is said apart from it.  A `Recording` is what a
test is given and what it measures, and the speeds, the torques and the fit are sums over
the recording alone: neither the controller nor the state of the test has a part in them.
The two memories of the test, the reading and the speed of the sample before, lie in
different objects.  `standing` puts them together with the count of the samples and the
fit, and is the whole state of the test after so many samples, up to its controller.

The last sample is the first one that converges or passes the time.  It is taken like
every other, and only then is the board put to rest.
-/
import Mathlib.Order.Bounds.Basic
import MotorControl.Proofs.Session.MechanicalTest
import MotorControl.Proofs.SpeedLoop

namespace MotorControl

/-- The sample that a beat brings, if it is one. -/
def Beat.sample? {α : Type} : Beat α → Option (Phases α × α)
  | .sample currents position => some (currents, position)
  | .service => none

namespace MechanicalTest

/-- What a test is given, and what it measures. -/
structure Recording (α : Type) where
  board : Board
  task : Task α
  config : Config α
  /-- The currents of each sample, with the samples counted from one. -/
  currents : ℕ → Phases α
  /-- The readings of the encoder, of which the first comes before the samples. -/
  angle : ℕ → α

namespace Recording

variable {α : Type} [Scalar α] (r : Recording α)

/-- Samples per second. -/
def frequency : α := r.board.baseFrequency.toScalar

/-- The samples that the test may take and go on. -/
def timeout : UInt32 := r.board.baseFrequency.samplesIn r.config.timeout

/-- The speed at the `i`th sample, from rest. -/
def speed : ℕ → α
  | 0 => 0
  | i + 1 => Angle.difference (r.angle (i + 1)) (r.angle i) * r.frequency

/-- The regressors of the `i`th sample. -/
def motion (i : ℕ) : Vector α 3 :=
  regressor ((r.speed i - r.speed (i - 1)) * r.frequency) (r.speed i) 1

/-- The torque of the `i`th sample, from the current across the rotor. -/
def torque (i : ℕ) : α :=
  let direction := Angle.direction (r.angle i * Scalar.ofNat r.task.polePairs.toNat)
  ((r.currents i).toRotating direction).q * r.task.torqueConstant.value

/-- The fit after `i` samples. -/
def fitted : ℕ → LeastSquares α 3
  | 0 => ⟨.replicate 3 0, .diagonal 1000, 1000, r.config.forgetting⟩
  | i + 1 => ((fitted i).update (r.motion (i + 1)) (r.torque (i + 1))).result.2

/-- Whether the fit has converged with the `i`th sample. -/
def converges : ℕ → Bool
  | 0 => false
  | i + 1 => ((r.fitted i).update (r.motion (i + 1)) (r.torque (i + 1))).result.1.converged
      r.config.innovationBound r.config.uncertaintyBound

/-- The test may end with the `i`th sample. -/
def Ends (i : ℕ) : Prop := r.converges i = true ∨ i = r.timeout.toNat + 1

theorem not_ends_zero : ¬ r.Ends 0 := by
  rintro (hconverges | htime)
  · cases hconverges
  · omega

/-- What the test finds out if it ends with the `i`th sample. -/
def found (i : ℕ) : Option (MechanicalParameters α) :=
  if r.converges i then some ⟨⟨(r.fitted i).second⟩, ⟨(r.fitted i).first⟩⟩ else none

/-- The `i`th sample. -/
def sample (i : ℕ) : Phases α × α := (r.currents i, r.angle i)

end Recording

open Session (beats)

variable {α C : Type} [Scalar α] {r : Recording α}

/-! ### The state of a test -/

namespace Recording

/-- The test after `i` samples, if it has not come to its end. -/
def standing (r : Recording α) (i : ℕ) (controller : C) : MechanicalTest α C where
  drive := ⟨r.board, true⟩
  controller := controller
  fit := ⟨r.fitted i, r.frequency, r.speed i⟩
  config := r.config
  torqueConstant := r.task.torqueConstant.value
  polePairs := Scalar.ofNat r.task.polePairs.toNat
  frequency := r.frequency
  previousAngle := r.angle i
  elapsed := .ofNat i
  timeoutSamples := r.timeout
  completion := .pending

/-- The test that the `i`th sample has ended. -/
def ended (r : Recording α) (i : ℕ) (controller : C) : MechanicalTest α C :=
  { r.standing i controller with
    drive := ⟨r.board, false⟩
    completion := .done (r.found i) }

end Recording

variable [Controller C α α]

theorem over_ended (r : Recording α) (i : ℕ) (c : C) : Session.Over r.board (r.ended i c) :=
  ⟨rfl, rfl⟩

/-- Nothing but the controller changes after the end. -/
theorem beats_ended (r : Recording α) (n : ℕ) (bs : List (Beat α)) :
    ∀ c : C, ∃ c', (beats (r.ended n c) bs).result = r.ended n c' := by
  induction bs with
  | nil => intro c; exact ⟨c, rfl⟩
  | cons b bs ih =>
      intro c
      cases b with
      | sample currents position =>
          rw [Session.beats_cons, Session.beat, LawfulSession.sample_of_over (over_ended r n c),
            pure_bind]
          exact ih c
      | service => exact ih (Controller.obey .service c)

/-- What a sample does that calls a controller, and ends the test or not. -/
structure Takes (called : Traced α (Duties × C)) (last : Prop) [Decidable last]
    (sampled : Traced α (MechanicalTest α C)) : Prop where
  /-- The encoder is read, the controller is called, and the bridge is told its answer; what there is
  to be done after that follows. -/
  events_eq : ∃ rest, sampled.events =
    .read :: called.events ++ .pwm called.result.1 :: rest
  /-- Each of these is done once, and the board is put to rest after them if at all. -/
  peripherals_eq : sampled.peripherals =
    .read :: .pwm called.result.1 :: if last then [.stop, .unsubscribe] else []
  /-- The controller has been called once. -/
  controller_eq : sampled.result.controller =
    if last then Controller.obey .disable called.result.2 else called.result.2

/-! ### One sample -/

/-- The sample is counted, and the fit and the two memories move on by one. -/
theorem take_standing (r : Recording α) (i : ℕ) (c : C) :
    let called := Controller.calculate (r.currents (i + 1)) (r.angle (i + 1)) c
    ∃ estimate rest, (r.standing i c).take (r.currents (i + 1)) (r.angle (i + 1)) =
        ⟨(estimate, r.standing (i + 1) called.result.2),
          .read :: called.events ++ .pwm called.result.1 :: rest⟩ ∧
      rest.filter Event.isPeripheral = [] ∧
      estimate.inertia = (r.fitted (i + 1)).first ∧
      estimate.friction = (r.fitted (i + 1)).second ∧
      (r.standing (i + 1) called.result.2).hasConverged estimate = r.converges (i + 1) := by
  intro called
  let updated := (r.standing i c).fit.update
    ⟨r.currents (i + 1), r.speed (i + 1), r.angle (i + 1) * (r.standing i c).polePairs⟩
    (r.standing i c).torqueConstant
  refine ⟨updated.result.1, updated.events ++ [], congrArg₂ Traced.mk ?_ rfl, ?_, rfl, rfl, rfl⟩
  · rw [Recording.standing, Recording.standing, UInt32.ofNat_add]
    rfl
  · rw [List.append_nil]
    exact (RotorFit.update_detached _ _ _).peripherals

/-- The end of the test disables the controller. -/
theorem finish_standing (i : ℕ) (c : C) :
    ((r.standing i c).finish (r.found i)).result = r.ended i (Controller.obey .disable c) ∧
      ((r.standing i c).finish (r.found i)).peripherals = [.stop, .unsubscribe] :=
  ⟨rfl, rfl⟩

/-- A sample with which the test may end is its last one, and any other is not. -/
theorem judge_standing (i : ℕ) (c : C) (hi : i ≤ r.timeout.toNat + 1)
    (hfits : r.timeout.toNat + 1 < UInt32.size) {estimate : RotorEstimate α}
    (hinertia : estimate.inertia = (r.fitted i).first)
    (hfriction : estimate.friction = (r.fitted i).second)
    (hconverged : (r.standing i c).hasConverged estimate = r.converges i) :
    (¬ r.Ends i → (r.standing i c).judge estimate = pure (r.standing i c)) ∧
    (r.Ends i →
      ((r.standing i c).judge estimate).result = r.ended i (Controller.obey .disable c) ∧
        ((r.standing i c).judge estimate).peripherals = [.stop, .unsubscribe]) := by
  have htime : (r.standing i c).timeoutSamples < (r.standing i c).elapsed ↔
      i = r.timeout.toNat + 1 := by
    show r.timeout < .ofNat i ↔ _
    rw [UInt32.lt_iff_toNat_lt, UInt32.toNat_ofNat_of_lt' (hi.trans_lt hfits)]
    omega
  unfold judge Recording.Ends
  rw [hconverged, hinertia, hfriction]
  by_cases hconv : r.converges i = true
  · refine ⟨fun hnot => absurd (Or.inl hconv) hnot, fun _ => ?_⟩
    have hfound : r.found i = some ⟨⟨(r.fitted i).second⟩, ⟨(r.fitted i).first⟩⟩ := if_pos hconv
    rw [if_pos hconv]
    dsimp only
    rw [← hfound]
    exact finish_standing i c
  · rw [if_neg hconv]
    by_cases hlast : i = r.timeout.toNat + 1
    · refine ⟨fun hnot => absurd (Or.inr hlast) hnot, fun _ => ?_⟩
      have hfound : r.found i = none := if_neg hconv
      rw [if_pos (htime.2 hlast), ← hfound]
      exact finish_standing i c
    · refine ⟨fun _ => if_neg (mt htime.1 hlast), fun hends => ?_⟩
      exact absurd hends (not_or.2 ⟨hconv, hlast⟩)

section Last

variable {n : ℕ} (hfits : r.timeout.toNat + 1 < UInt32.size) (hn : IsLeast {i | r.Ends i} n)

include hfits hn

/-- Up to the last sample each one is taken, and moves the state on by one. -/
theorem sample_standing {i : ℕ} (hi : i < n) (c : C) :
    let called := Controller.calculate (r.currents (i + 1)) (r.angle (i + 1)) c
    let sampled := (r.standing i c).sample (r.currents (i + 1)) (r.angle (i + 1))
    Takes called (i + 1 = n) sampled ∧
      sampled.result = if i + 1 = n then r.ended n (Controller.obey .disable called.result.2)
        else r.standing (i + 1) called.result.2 := by
  intro called sampled
  obtain ⟨estimate, rest, htake, hrest, hinertia, hfriction, hconverged⟩ := take_standing r i c
  have hlast : n ≤ r.timeout.toNat + 1 := hn.2 (Or.inr rfl)
  obtain ⟨hgoesOn, hends⟩ := judge_standing (i + 1) called.result.2 (by omega) hfits hinertia
    hfriction hconverged
  let judged := (r.standing (i + 1) called.result.2).judge estimate
  have hsampled : sampled =
      ⟨judged.result, .read :: called.events ++ .pwm called.result.1 :: (rest ++ judged.events)⟩ := by
    show (r.standing i c).sample _ _ = _
    rw [sample_eq (t := r.standing i c) rfl, htake]
    refine congrArg (Traced.mk _) ?_
    exact List.append_assoc (.read :: called.events) (.pwm called.result.1 :: rest) judged.events
  have hcalled : called.events.filter Event.isPeripheral = [] :=
    (Controller.calculate_detached _ _ c).peripherals
  have hasked : sampled.peripherals = .read :: .pwm called.result.1 :: judged.peripherals := by
    simp [hsampled, Traced.peripherals, List.filter_cons, hcalled, hrest, Event.isPeripheral]
  have hevents : ∃ rest, sampled.events =
      .read :: called.events ++ .pwm called.result.1 :: rest := by
    rw [hsampled]
    exact ⟨_, rfl⟩
  have hresult : sampled.result = judged.result := by rw [hsampled]
  by_cases h : i + 1 = n
  · obtain ⟨hended, hreleased⟩ := hends (h ▸ hn.1)
    rw [hended, h] at hresult
    rw [hreleased] at hasked
    rw [if_pos h]
    refine ⟨⟨hevents, ?_, ?_⟩, hresult⟩
    · rw [hasked, if_pos h]
    · rw [hresult, if_pos h]
      rfl
  · have hpure : judged = pure _ := hgoesOn fun hends => by
      have := hn.2 hends
      omega
    rw [hpure] at hasked hresult
    rw [if_neg h]
    refine ⟨⟨hevents, ?_, ?_⟩, hresult⟩
    · rw [hasked, if_neg h]
      rfl
    · rw [hresult, if_neg h]
      rfl

/-! ### The run -/

/-- Whatever the handler does in between, the samples alone move the state on. -/
theorem beats_standing (bs : List (Beat α)) :
    ∀ (i m : ℕ) (c : C), i < n →
      bs.filterMap Beat.sample? = (List.range' (i + 1) m).map r.sample →
      ∃ c', (beats (r.standing i c) bs).result =
        if i + m < n then r.standing (i + m) c' else r.ended n c' := by
  induction bs with
  | nil =>
      intro i m c hi hsamples
      cases m with
      | zero => exact ⟨c, (if_pos hi).symm⟩
      | succ m => simp [List.range'_succ] at hsamples
  | cons b bs ih =>
      intro i m c hi hsamples
      cases b with
      | service => exact ih i m (Controller.obey .service c) hi hsamples
      | sample currents position =>
          cases m with
          | zero => simp [Beat.sample?] at hsamples
          | succ m =>
              rw [List.range'_succ, List.map_cons] at hsamples
              obtain ⟨hfirst, hrest⟩ := (List.cons.injEq _ _ _ _).mp hsamples
              obtain ⟨rfl, rfl⟩ := (Prod.mk.injEq _ _ _ _).mp hfirst
              obtain ⟨-, hresult⟩ := sample_standing hfits hn hi c
              rw [Session.beats_cons, Traced.bind_result]
              show ∃ c', (beats ((r.standing i c).sample _ _).result bs).result = _
              rw [hresult]
              by_cases h : i + 1 = n
              · rw [if_pos h]
                obtain ⟨c', hafter⟩ := beats_ended r n bs (Controller.obey (C := C) .disable _)
                exact ⟨c', hafter.trans (if_neg (by omega)).symm⟩
              · rw [if_neg h, ← Nat.add_assoc, Nat.add_right_comm]
                exact ih (i + 1) m _ (by omega) hrest

end Last

/-! ### The course -/

theorem standing_of_begin {controller : C} {begun : Traced α (MechanicalTest α C)}
    (h : begin r.board controller r.task r.config (r.angle 0) = .ok begun) :
    ∃ c, begun.result = r.standing 0 c := by
  obtain ⟨fit, hfit, hbegun⟩ := Fault.bind_eq_ok_iff.mp h
  obtain ⟨model, hmodel, hfitted⟩ := Fault.bind_eq_ok_iff.mp hfit
  cases hfitted
  cases hbegun
  rw [(LeastSquares.start_of_check hmodel).2]
  exact ⟨_, rfl⟩

/-- What has become of a test after `k` samples, of which the `n`th is the last. -/
structure Course (r : Recording α) (n k : ℕ) (t : MechanicalTest α C) : Prop where
  /-- The fit has been given every sample up to the last one. -/
  model_eq : t.fit.model = r.fitted (min k n)
  /-- The test goes on up to the last sample, and ends with it. -/
  completion_eq : t.completion = if k < n then .pending else .done (r.found n)
  /-- The next sample is taken in full, also if it is the last one. -/
  takes (hk : k < n) : Takes
    (Controller.calculate (r.currents (k + 1)) (r.angle (k + 1)) t.controller) (k + 1 = n)
    (t.sample (r.currents (k + 1)) (r.angle (k + 1)))

/--
**A mechanical test is a fit over its samples, up to the first one that converges or passes the
time.**  If that sample does both, the test has a result.  Whatever the controller is, and whatever
the handler of low priority does between the samples, each sample up to the last one reads the
encoder, calls the controller and tells the bridge its answer, and only then may the board be put to
rest.
-/
theorem course_of_begin {controller : C} {begun : Traced α (MechanicalTest α C)}
    (h : begin r.board controller r.task r.config (r.angle 0) = .ok begun)
    (hfits : r.timeout.toNat + 1 < UInt32.size) :
    ∃ n, IsLeast {i | r.Ends i} n ∧
      ∀ (bs : List (Beat α)) (k : ℕ), bs.filterMap Beat.sample? = (List.range' 1 k).map r.sample →
        Course r n k (beats begun.result bs).result := by
  classical
  have hends : ∃ i, r.Ends i := ⟨_, Or.inr rfl⟩
  obtain ⟨c, hbegun⟩ := standing_of_begin h
  have hn : IsLeast {i | r.Ends i} (Nat.find hends) :=
    ⟨Nat.find_spec hends, fun _ hi => Nat.find_min' hends hi⟩
  refine ⟨Nat.find hends, hn, fun bs k hsamples => ?_⟩
  generalize Nat.find hends = n at hn
  have hpos : 0 < n := by
    refine Nat.pos_of_ne_zero fun hzero => ?_
    exact r.not_ends_zero (hzero ▸ hn.1)
  obtain ⟨c', hafter⟩ := beats_standing hfits hn bs 0 k c hpos hsamples
  rw [hbegun, hafter, Nat.zero_add]
  by_cases hk : k < n
  · rw [if_pos hk]
    exact ⟨by rw [Nat.min_eq_left hk.le]; rfl, (if_pos hk).symm,
      fun _ => (sample_standing hfits hn hk c').1⟩
  · rw [if_neg hk]
    exact ⟨by rw [Nat.min_eq_right (not_lt.mp hk)]; rfl, (if_neg hk).symm, fun hlt => absurd hlt hk⟩

/-- Two samples of a rotor that speeds up, of which the second both passes the time and converges. -/
def spunUp : Recording Float32 where
  board := ⟨⟨1000⟩⟩
  task := ⟨⟨10⟩, ⟨0.1⟩, 2⟩
  config := ⟨0, 0.999, 1000000, 1500⟩
  currents _ := ⟨0, 1, -1⟩
  angle i := if i = 0 then 0 else if i = 1 then 0.01 else 0.03

/-- The result counts, though the time has passed with the same sample. -/
theorem course_of_spunUp :
    let loop : SpeedLoop Float32 Unit := .initial () ⟨2⟩ ⟨1000⟩ ⟨10, by decide, by decide⟩
    let first : Beat Float32 := .sample (spunUp.currents 1) (spunUp.angle 1)
    let second : Beat Float32 := .sample (spunUp.currents 2) (spunUp.angle 2)
    ∃ begun, begin spunUp.board loop spunUp.task spunUp.config (spunUp.angle 0) = .ok begun ∧
      spunUp.timeout.toNat + 1 < UInt32.size ∧ 2 = spunUp.timeout.toNat + 1 ∧
      (beats begun.result [first, .service]).result.completion = .pending ∧
      (beats begun.result [first, .service, second]).result.completion =
        .done (some ⟨⟨(spunUp.fitted 2).second⟩, ⟨(spunUp.fitted 2).first⟩⟩) := by
  intro loop first second
  obtain ⟨begun, hbegun⟩ : ∃ begun,
      begin spunUp.board loop spunUp.task spunUp.config (spunUp.angle 0) = .ok begun := by
    unfold begin RotorFit.check
    rw [LeastSquares.check_eq_ok (by decide +kernel) (by decide +kernel) (by decide +kernel)]
    exact ⟨_, rfl⟩
  obtain ⟨hnot, hconverges, htimeout⟩ : spunUp.converges 1 = false ∧
      spunUp.converges 2 = true ∧ spunUp.timeout = 1 := by
    decide +kernel
  have hfits : spunUp.timeout.toNat + 1 < UInt32.size := by
    rw [htimeout]
    decide
  obtain ⟨n, hn, hcourse⟩ := course_of_begin hbegun hfits
  have hlast : IsLeast {i | spunUp.Ends i} 2 := by
    refine ⟨Or.inl hconverges, fun i hi => ?_⟩
    by_contra hlt
    obtain rfl | rfl : i = 0 ∨ i = 1 := by omega
    · exact spunUp.not_ends_zero hi
    · rcases hi with hi | hi
      · exact absurd hi (by simp [hnot])
      · rw [htimeout] at hi
        cases hi
  obtain rfl := hn.unique hlast
  refine ⟨begun, hbegun, hfits, by rw [htimeout]; rfl, ?_, ?_⟩
  · exact (hcourse [first, .service] 1 rfl).completion_eq
  · rw [(hcourse [first, .service, second] 2 rfl).completion_eq]
    exact congrArg Completion.done (if_pos hconverges)

end MechanicalTest

end MotorControl
