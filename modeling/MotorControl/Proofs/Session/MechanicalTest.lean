/-
A mechanical test as a session.

Every sample runs the controller and the fit, and is counted.  Then it is judged: the
test ends with a model that has converged, gives up when its time has passed, or goes
on.  What the controller does has no bearing on that, because a controller cannot
reach the board.
-/
import MotorControl.Proofs.Session
import MotorControl.Session.MechanicalTest

namespace MotorControl

namespace MechanicalTest

variable {α C σ : Type} [Scalar α] [Controller C α σ] {board : Board} {t : MechanicalTest α C}

instance : Session (MechanicalTest α C) α (MechanicalParameters α) where
  drive t := t.drive
  completion t := t.completion
  sample t currents position := t.sample currents position
  service t := t.service
  handBack t := Prod.fst <$> t.intoParts

/-! ### One sample -/

/-- Runs the controller and the fit on a sample, and counts it. -/
def take (t : MechanicalTest α C) (currents : Phases α) (position : α) :
    Traced α (RotorEstimate α × MechanicalTest α C) := do
  Traced.emit .read
  let (duties, controller) ← Controller.calculate currents position t.controller
  Traced.emit (.pwm duties)
  let speed := Angle.difference position t.previousAngle * t.frequency
  let (estimate, fit) ← t.fit.update ⟨currents, speed, position * t.polePairs⟩ t.torqueConstant
  return (estimate, { t with
    controller := controller
    fit := fit
    previousAngle := position
    elapsed := t.elapsed + 1 })

/-- Whether an estimate has converged, by the bounds of the test. -/
def hasConverged (t : MechanicalTest α C) (estimate : RotorEstimate α) : Bool :=
  estimate.metrics.converged t.config.innovationBound t.config.uncertaintyBound

/-- Ends the test if the estimate has converged or the time has passed. -/
def judge (t : MechanicalTest α C) (estimate : RotorEstimate α) :
    Traced α (MechanicalTest α C) := do
  if t.hasConverged estimate then
    let found : MechanicalParameters α := ⟨⟨estimate.friction⟩, ⟨estimate.inertia⟩⟩
    Traced.emit (.notice (.mechanicalFinished found t.elapsed))
    t.finish (some found)
  else if t.timeoutSamples < t.elapsed then
    Traced.emit (.notice .mechanicalTimedOut)
    t.finish none
  else return t

theorem sample_eq (hdrive : t.drive = ⟨board, true⟩) (currents : Phases α) (position : α) :
    t.sample currents position = t.take currents position >>= fun r => r.2.judge r.1 := by
  have hactive : t.drive.active = true := by rw [hdrive]
  unfold sample take
  rw [if_pos hactive]
  simp only [bind_assoc, pure_bind]
  rfl

/-- A sample tells the bridge its duties once, and is counted. -/
theorem take_spec (t : MechanicalTest α C) (currents : Phases α) (position : α) :
    ∃ duties, (t.take currents position).calls = [.pwm duties] ∧
      (t.take currents position).result.2.drive = t.drive ∧
      (t.take currents position).result.2.completion = t.completion ∧
      (t.take currents position).result.2.timeoutSamples = t.timeoutSamples ∧
      (t.take currents position).result.2.elapsed = t.elapsed + 1 := by
  refine ⟨(Controller.calculate currents position t.controller).result.1, ?_, rfl, rfl, rfl, rfl⟩
  simp only [take, Traced.calls_bind, Traced.calls_emit, Traced.calls_pure,
    (Controller.calculate_detached currents position t.controller).calls,
    (t.fit.update_detached _ _).calls]
  rfl

/-- The end of the test puts the board to rest. -/
theorem finish_progress (hdrive : t.drive = ⟨board, true⟩)
    (result : Option (MechanicalParameters α)) :
    (t.finish result).calls = [.stop, .unsubscribe] ∧
      Session.Over board (t.finish result).result := by
  unfold finish
  rw [hdrive, Drive.release_of_active]
  exact ⟨rfl, rfl, rfl⟩

/-- What comes of a sample that was taken. -/
theorem judge_progress (h : Session.Open board t) (estimate : RotorEstimate α) :
    (t.judge estimate = pure t ∧ ¬ t.timeoutSamples < t.elapsed) ∨
      ((t.judge estimate).calls = [.stop, .unsubscribe] ∧
        Session.Over board (t.judge estimate).result) := by
  unfold judge
  split
  · exact Or.inr (finish_progress h.drive_eq _)
  · split
    · exact Or.inr (finish_progress h.drive_eq _)
    · rename_i htime
      exact Or.inl ⟨rfl, htime⟩

/-- A sample of an open test is taken, and either that is all or the test ends with it. -/
theorem sample_cases (h : Session.Open board t) (currents : Phases α) (position : α) :
    ∃ duties taken, Session.Open board taken ∧ taken.timeoutSamples = t.timeoutSamples ∧
      taken.elapsed = t.elapsed + 1 ∧
      ((t.sample currents position).result = taken ∧
          (t.sample currents position).calls = [.pwm duties] ∧
          ¬ taken.timeoutSamples < taken.elapsed ∨
        Session.Over board (t.sample currents position).result ∧
          (t.sample currents position).calls = [.pwm duties, .stop, .unsubscribe]) := by
  obtain ⟨duties, hcalls, hdrive, hcompletion, htimeout, helapsed⟩ := t.take_spec currents position
  have hopen : Session.Open board (t.take currents position).result.2 :=
    ⟨hdrive.trans h.drive_eq, hcompletion.trans h.pending⟩
  refine ⟨duties, _, hopen, htimeout, helapsed, ?_⟩
  rw [sample_eq h.drive_eq, Traced.bind_result, Traced.calls_bind, hcalls]
  rcases judge_progress hopen (t.take currents position).result.1 with
    ⟨hpure, htime⟩ | ⟨hend, hover⟩
  · refine Or.inl ⟨?_, ?_, htime⟩
    · rw [hpure]
      rfl
    · rw [hpure]
      rfl
  · refine Or.inr ⟨hover, ?_⟩
    rw [hend]
    rfl

instance : LawfulSession (MechanicalTest α C) α (MechanicalParameters α) where
  sample_of_open {board t} h currents position := by
    show Session.Progress board (t.sample currents position)
    obtain ⟨duties, taken, hopen, -, -, ⟨hresult, hcalls, -⟩ | ⟨hover, hcalls⟩⟩ :=
      sample_cases h currents position
    · refine .goesOn ?_ [duties] hcalls
      rw [hresult]
      exact hopen
    · exact .ends hover [duties] hcalls
  sample_of_over {board t} h currents position := by
    have hdrive : t.drive = ⟨board, false⟩ := h.drive_eq
    show t.sample currents position = pure t
    simp only [sample, hdrive, Bool.false_eq_true, if_false]
  drive_service _ := rfl
  completion_service _ := rfl
  calls_service _ := rfl
  calls_handBack t := by
    show (Prod.fst <$> t.intoParts).calls = (t.drive.intoBoard : Traced α Board).calls
    rw [Traced.calls_map, intoParts, Traced.calls_bind, Traced.calls_bind, calls_instruct,
      Traced.calls_pure, List.append_nil, List.append_nil]

/-! ### The time of the session -/

instance : BoundedSession (MechanicalTest α C) α (MechanicalParameters α) where
  Due n t := InTime t.timeoutSamples t.elapsed n
  due_pos h := h.pos
  due_sample {board n t} hopen h currents position hon := by
    show InTime (t.sample currents position).result.timeoutSamples
      (t.sample currents position).result.elapsed _
    obtain ⟨duties, taken, -, htimeout, helapsed, ⟨hresult, -, htime⟩ | ⟨hover, -⟩⟩ :=
      sample_cases hopen currents position
    · rw [hresult, htimeout, helapsed]
      rw [htimeout, helapsed] at htime
      exact h.next htime
    · exact absurd hover hon.not_over
  due_service h := h

end MechanicalTest

namespace MechanicalTest

variable {α C : Type} [Scalar α] [Controller C α α] {board : Board}

/-- A test begins open, and has its time and one sample more. -/
theorem begun {controller : C} {task : Task α} {config : Config α} {position : α}
    {begun : Traced α (MechanicalTest α C)}
    (h : begin board controller task config position = .ok begun) :
    Session.Begun board begun ∧ begun.result.elapsed = 0 ∧
      begun.result.timeoutSamples = board.baseFrequency.samplesIn config.timeout := by
  obtain ⟨fit, -, hbegun⟩ := Fault.bind_eq_ok_iff.mp h
  cases hbegun
  exact ⟨⟨⟨rfl, rfl⟩, rfl⟩, rfl, rfl⟩

/-- A forgetting factor strictly between zero and one is all that is asked for. -/
theorem begin_of_forgetting {C : Type} [Controller C Float32 Float32] (board : Board)
    (controller : C) (task : Task Float32) {config : Config Float32} (hpos : 0 < config.forgetting)
    (hone : config.forgetting < 1) (position : Float32) :
    ∃ begun, begin board controller task config position = .ok begun := by
  unfold begin RotorFit.check
  rw [LeastSquares.check_eq_ok (by decide +kernel) hpos hone]
  exact ⟨_, rfl⟩

/-- The configuration where none is given is accepted. -/
theorem begin_standard {C : Type} [Controller C Float32 Float32] (board : Board) (controller : C)
    (task : Task Float32) (position : Float32) :
    ∃ begun, begin board controller task .standard position = .ok begun :=
  begin_of_forgetting board controller task (by decide +kernel) (by decide +kernel) position

/--
**A mechanical test ends with the first sample beyond its time, if not before.**
-/
theorem endsWithin {controller : C} {task : Task α} {config : Config α} {position : α}
    {begun : Traced α (MechanicalTest α C)}
    (h : begin board controller task config position = .ok begun)
    (hfits : (board.baseFrequency.samplesIn config.timeout).toNat + 1 < UInt32.size) :
    Session.EndsWithin board ((board.baseFrequency.samplesIn config.timeout).toNat + 1) begun := by
  obtain ⟨hbegun, helapsed, htimeout⟩ := MechanicalTest.begun h
  refine hbegun.endsWithin ?_
  show InTime begun.result.timeoutSamples begun.result.elapsed _
  rw [htimeout, helapsed]
  exact .start hfits

end MechanicalTest

end MotorControl
