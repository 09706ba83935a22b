/-
An electrical test as a session.

Three phases follow one another inside the test, each with a counter of its own, and
what is measured decides when the first of them ends.  None of that can hold the test
up: a sample within the time of the session changes the model, the phase and the
winding and nothing else, so the samples are counted whatever the phases do, and the
test gives up at the first sample beyond its time.
-/
import MotorControl.Proofs.Session
import MotorControl.Session.ElectricalTest

namespace MotorControl

namespace ElectricalTest

variable {α : Type} [Scalar α] {board : Board} {t : ElectricalTest α}

instance : Session (ElectricalTest α) α (ElectricalParameters α) where
  drive t := t.drive
  completion t := t.completion
  sample t currents position := t.sample currents position
  service t := pure t
  handBack t := t.intoBoard

/-! ### What a sample within the time of the session does -/

/-- The test with another model, phase and winding. -/
def moved (t : ElectricalTest α) (model : LeastSquares α 3) (phase : Phase α)
    (winding : Option (Quantity .ohm α × Quantity .millihenry α)) : ElectricalTest α :=
  { t with model := model, phase := phase, winding := winding }

/-- A computation that asks nothing of the peripherals and only moves the test on. -/
def Moves (t : ElectricalTest α) (m : Traced α (Step α × ElectricalTest α)) : Prop :=
  m.Detached ∧ ∃ model phase winding, m.result.2 = t.moved model phase winding

/-- What a sample of the square wave leads to once it is known whether the winding was found. -/
def answer (t : ElectricalTest α) (currents : Phases α) (samples : UInt32) :
    Option (α × α) → Traced α (Step α × ElectricalTest α)
  | some (resistance, inductance) => do
    Traced.emit (.notice (.windingIdentified resistance (inductance * 1000) samples))
    return (.output (t.rotatingVector 0), t.moved t.model (.settle t.settleSamples)
      (some (⟨resistance⟩, ⟨inductance * 1000⟩)))
  | none =>
    return (.output (t.squareWave samples), t.moved t.model
      (.winding (samples + 1) currents.toStationary.alpha
        (appliedVoltage (t.squareWave samples) t.vdc).alpha) t.winding)

theorem answer_moves (t : ElectricalTest α) (currents : Phases α) (samples : UInt32)
    (found : Option (α × α)) : t.Moves (t.answer currents samples found) := by
  cases found with
  | none => exact ⟨Traced.pure_detached _, _, _, _, rfl⟩
  | some found =>
      exact ⟨(Traced.bind_detached_iff _ _).mpr
        ⟨(Traced.emit_detached_iff _).mpr rfl, Traced.pure_detached _⟩, _, _, _, rfl⟩

theorem fit_detached (t : ElectricalTest α) (current previousCurrent previousVoltage : α) :
    (t.fit current previousCurrent previousVoltage).Detached :=
  (Traced.bind_detached_iff _ _).mpr ⟨t.model.update_detached _ _, Traced.pure_detached _⟩

theorem windingStep_eq (t : ElectricalTest α) (currents : Phases α) (samples : UInt32)
    (previousCurrent previousVoltage : α) :
    t.windingStep currents samples previousCurrent previousVoltage =
      (if 0 < samples then t.fit currents.toStationary.alpha previousCurrent previousVoltage
        else pure (none, t)) >>= fun r => r.2.answer currents samples r.1 := by
  unfold windingStep
  dsimp only
  split
  · refine congrArg (_ >>= ·) (funext fun r => ?_)
    obtain ⟨found, t'⟩ := r
    cases found <;> rfl
  · rfl

theorem windingStep_moves (t : ElectricalTest α) (currents : Phases α) (samples : UInt32)
    (previousCurrent previousVoltage : α) :
    t.Moves (t.windingStep currents samples previousCurrent previousVoltage) := by
  rw [windingStep_eq]
  split
  · -- The fit changes the model only, so what moves the test with the new model moves this one.
    have hfit := t.fit_detached currents.toStationary.alpha previousCurrent previousVoltage
    obtain ⟨hdetached, hmoved⟩ := answer_moves
      (t.fit currents.toStationary.alpha previousCurrent previousVoltage).result.2 currents samples
      (t.fit currents.toStationary.alpha previousCurrent previousVoltage).result.1
    exact ⟨(Traced.bind_detached_iff _ _).mpr ⟨hfit, hdetached⟩, hmoved⟩
  · exact t.answer_moves currents samples none

theorem parameters_detached (t : ElectricalTest α) (travelled : α) :
    (t.parameters travelled).Detached := by
  unfold parameters
  split
  · exact Traced.pure_detached _
  · dsimp only
    split
    · exact Traced.pure_detached _
    · exact (Traced.bind_detached_iff _ _).mpr
        ⟨(Traced.emit_detached_iff _).mpr rfl, Traced.pure_detached _⟩

theorem advance_moves (t : ElectricalTest α) (currents : Phases α) (position : α) :
    t.Moves (t.advance currents position) := by
  unfold advance
  split
  · exact t.windingStep_moves _ _ _ _
  · split
    · exact ⟨Traced.pure_detached _, _, _, _, rfl⟩
    · exact ⟨Traced.pure_detached _, _, _, _, rfl⟩
  · dsimp only
    split
    · exact ⟨(Traced.bind_detached_iff _ _).mpr
        ⟨t.parameters_detached _, Traced.pure_detached _⟩, t.model, t.phase, t.winding, rfl⟩
    · exact ⟨Traced.pure_detached _, _, _, _, rfl⟩

/-! ### One sample -/

/-- What a sample leads to once it was counted: beyond the time of the session the test gives
up. -/
def judge (t : ElectricalTest α) (currents : Phases α) (position : α) :
    Traced α (Step α × ElectricalTest α) :=
  if t.timeoutSamples < t.elapsed then do
    Traced.emit (.notice .electricalTimedOut)
    pure (.finish none, t)
  else t.advance currents position

/-- Does what a sample has led to. -/
def carryOut (t : ElectricalTest α) : Step α → Traced α (ElectricalTest α)
  | .output duties => do
    Traced.emit (.pwm duties)
    return t
  | .finish result => do
    let drive ← t.drive.release
    if let some p := result then Traced.emit (.notice (.electricalFinished p))
    return { t with drive := drive, completion := .done result }

/-- The test with one more sample counted. -/
def counted (t : ElectricalTest α) : ElectricalTest α := { t with elapsed := t.elapsed + 1 }

theorem sample_eq (hdrive : t.drive = ⟨board, true⟩) (currents : Phases α) (position : α) :
    t.sample currents position = (do
      Traced.emit .read
      let judged ← t.counted.judge currents position
      judged.2.carryOut judged.1) := by
  have hactive : t.drive.active = true := by rw [hdrive]
  unfold sample judge
  rw [if_pos hactive]
  refine congrArg (_ >>= ·) (funext fun _ => ?_)
  by_cases htime : t.counted.timeoutSamples < t.counted.elapsed
  · rw [if_pos htime]
    exact if_pos htime
  · rw [if_neg htime]
    exact if_neg htime

theorem judge_moves (t : ElectricalTest α) (currents : Phases α) (position : α) :
    t.Moves (t.judge currents position) := by
  unfold judge
  split
  · exact ⟨(Traced.bind_detached_iff _ _).mpr
      ⟨(Traced.emit_detached_iff _).mpr rfl, Traced.pure_detached _⟩, t.model, t.phase, t.winding,
      rfl⟩
  · exact t.advance_moves currents position

/-- An output goes on with the test, and the end of the test puts the board to rest. -/
theorem carryOut_progress (h : Session.Open board t) (step : Step α) :
    Session.Progress board (t.carryOut step) := by
  have hdrive : t.drive = ⟨board, true⟩ := h.drive_eq
  cases step with
  | output duties => exact .goesOn h [duties] rfl
  | finish result =>
      unfold carryOut
      rw [hdrive, Drive.release_of_active]
      cases result with
      | none => exact .ends ⟨rfl, rfl⟩ [] rfl
      | some found => exact .ends ⟨rfl, rfl⟩ [] rfl

omit [Scalar α] in
/-- Only an output leaves the drive active. -/
theorem eq_output_of_active {step : Step α}
    (hactive : (t.carryOut step).result.drive.active = true) :
    (t.carryOut step).result = t ∧ ∃ duties, step = .output duties := by
  cases step with
  | output duties => exact ⟨rfl, duties, rfl⟩
  | finish result =>
      cases result <;> exact absurd hactive (by simp [carryOut])

/-- A computation that only moves the test on, and what comes of it. -/
theorem Moves.progress {m : Traced α (Step α × ElectricalTest α)} (hm : t.Moves m)
    (h : Session.Open board t) :
    Session.Progress board (m >>= fun r => r.2.carryOut r.1) := by
  obtain ⟨hdetached, model, phase, winding, hmoved⟩ := hm
  have hopen : Session.Open board m.result.2 := by
    rw [hmoved]
    exact ⟨h.drive_eq, h.pending⟩
  cases carryOut_progress hopen m.result.1 with
  | goesOn hon outputs hcalls =>
      refine .goesOn hon outputs ?_
      rw [Traced.calls_bind, hdetached.calls, List.nil_append, hcalls]
  | ends hover outputs hcalls =>
      refine .ends hover outputs ?_
      rw [Traced.calls_bind, hdetached.calls, List.nil_append, hcalls]

instance : LawfulSession (ElectricalTest α) α (ElectricalParameters α) where
  sample_of_open {board t} h currents position := by
    show Session.Progress board (t.sample currents position)
    rw [sample_eq h.drive_eq]
    have hcounted : Session.Open board t.counted := ⟨h.drive_eq, h.pending⟩
    cases (t.counted.judge_moves currents position).progress hcounted with
    | goesOn hon outputs hcalls => exact .goesOn hon outputs hcalls
    | ends hover outputs hcalls => exact .ends hover outputs hcalls
  sample_of_over {board t} h currents position := by
    have hdrive : t.drive = ⟨board, false⟩ := h.drive_eq
    show t.sample currents position = pure t
    simp only [sample, hdrive, Bool.false_eq_true, if_false]
  drive_service _ := rfl
  completion_service _ := rfl
  calls_service _ := rfl
  calls_handBack _ := rfl

/-! ### The time of the session -/

instance : BoundedSession (ElectricalTest α) α (ElectricalParameters α) where
  Due n t := InTime t.timeoutSamples t.elapsed n
  due_pos h := h.pos
  due_sample {board n t} hopen h currents position hon := by
    show InTime (t.sample currents position).result.timeoutSamples _ _
    have hresult : (t.sample currents position).result
        = ((t.counted.judge currents position).result.2.carryOut
            (t.counted.judge currents position).result.1).result := by
      rw [sample_eq hopen.drive_eq]
      rfl
    have hactive : (t.sample currents position).result.drive.active = true :=
      congrArg Drive.active hon.drive_eq
    rw [hresult] at hactive
    obtain ⟨hsame, duties, houtput⟩ := eq_output_of_active hactive
    obtain ⟨-, model, phase, winding, hmoved⟩ := t.counted.judge_moves currents position
    -- Had the time passed, the sample would not have led to an output.
    have htime : ¬ t.counted.timeoutSamples < t.counted.elapsed := by
      intro hlt
      rw [judge, if_pos hlt] at houtput
      cases houtput
    show InTime _ (t.sample currents position).result.elapsed _
    rw [hresult, hsame, hmoved]
    exact h.next htime
  due_service h := h

/-- A test begins open, and has its time and one sample more. -/
theorem begun {vdc : Quantity .volt α} {config : Config α} {begun : Traced α (ElectricalTest α)}
    (h : begin board vdc config = .ok begun) :
    Session.Begun board begun ∧ begun.result.elapsed = 0 ∧
      begun.result.timeoutSamples = board.baseFrequency.samplesIn config.timeout := by
  obtain ⟨model, -, hbegun⟩ := Fault.bind_eq_ok_iff.mp h
  cases hbegun
  exact ⟨⟨⟨rfl, rfl⟩, rfl⟩, rfl, rfl⟩

/-- The configuration where none is given is accepted. -/
theorem begin_standard (board : Board) (vdc : Quantity .volt Float32) :
    ∃ begun, begin board vdc .standard = .ok begun := by
  unfold begin
  rw [LeastSquares.check_eq_ok (by decide +kernel) (by decide +kernel) (by decide +kernel)]
  exact ⟨_, rfl⟩

/--
**An electrical test ends with the first sample beyond its time, if not before.**
-/
theorem endsWithin {vdc : Quantity .volt α} {config : Config α}
    {begun : Traced α (ElectricalTest α)} (h : begin board vdc config = .ok begun)
    (hfits : (board.baseFrequency.samplesIn config.timeout).toNat + 1 < UInt32.size) :
    Session.EndsWithin board ((board.baseFrequency.samplesIn config.timeout).toNat + 1) begun := by
  obtain ⟨hbegun, helapsed, htimeout⟩ := ElectricalTest.begun h
  refine hbegun.endsWithin ?_
  show InTime begun.result.timeoutSamples begun.result.elapsed _
  rw [htimeout, helapsed]
  exact .start hfits

end ElectricalTest

end MotorControl
