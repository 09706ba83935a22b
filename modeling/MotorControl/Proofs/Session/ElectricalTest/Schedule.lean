/-
The schedule of an electrical test.

What the test puts out at a sample depends on two numbers only: how many samples came
before, and at which of them the fit first found the winding.  Until then it is the
square wave; from then on the vector is held, turned once around and held again, and
the test ends, unless its time ends first.

The fit itself is described apart from the phases of the test.  The square wave is known
beforehand, so the voltages that the samples answer to are, and `fitted` is the model
after so many answers whether or not the test still listens.  The proof then follows
the test through its phases: `Reaches` says what the test puts out at its `i`th sample
and which phase that leads to, and there is one lemma for each way from a phase to the
next.
-/
import MotorControl.Proofs.Session.Alignment
import MotorControl.Proofs.Session.ElectricalTest

namespace MotorControl

namespace ElectricalTest

variable {α : Type} [Scalar α]

/-! ### The schedule -/

section Schedule

variable (t : ElectricalTest α) (samples : ℕ → Phases α × α)

/-- The duties of a voltage along the axis that the rotor is held at. -/
def alongAxis (voltage : α) : Duties := (⟨voltage, 0⟩ : Stationary α).modulate

/-- The square wave at the `i`th sample. -/
def wave (i : ℕ) : Duties :=
  if (i - 1) / max t.config.halfPeriod.toNat 1 % 2 = 0 then alongAxis t.config.testVoltage
  else alongAxis (-t.config.testVoltage)

/-- The current along that axis at the `i`th sample. -/
def current (i : ℕ) : α := (samples (i - 1)).1.toStationary.alpha

/-- The fit after `i` samples of the square wave: what its last update said of itself, and the
model.  The first sample answers to nothing. -/
def fitted : ℕ → Option (Metrics α) × LeastSquares α 3
  | 0 | 1 => (none, t.model)
  | i + 2 =>
    let x := regressor (0.5 * (current samples (i + 2) + current samples (i + 1)))
      ((current samples (i + 2) - current samples (i + 1)) * t.frequency) 1
    let y := (appliedVoltage (t.wave (i + 1)) t.vdc).alpha
    let updated := ((fitted (i + 1)).2.update x y).result
    (some updated.1, updated.2)

/-- Whether the fit has converged with the `i`th sample, to a resistance and an inductance above
zero. -/
def finds (i : ℕ) : Bool :=
  let (metrics, model) := t.fitted samples i
  metrics.any fun m => m.converged t.config.innovationBound t.config.uncertaintyBound
    && decide (0 < model.first) && decide (0 < model.second)

/-- It has done so with no sample before. -/
def FirstFinds (k : ℕ) : Prop :=
  t.finds samples k = true ∧ ∀ i < k, t.finds samples i = false

/-- The test after its first `i` samples. -/
def after (i : ℕ) : ElectricalTest α := (Session.beats t (Beat.first samples i)).result

/-- What the `i`th sample asks of the board and of the encoder. -/
def asked (i : ℕ) : List (Event α) :=
  ((t.after samples (i - 1)).sample (samples (i - 1)).1 (samples (i - 1)).2).peripherals

end Schedule

/-- A test that keeps to its schedule, with its samples counted from one. -/
structure KeepsSchedule (t : ElectricalTest α) (samples : ℕ → Phases α × α) : Prop where
  /-- As long as the winding was not found, the square wave is put out. -/
  searching (i : ℕ) (hpos : 0 < i) (htime : i ≤ t.timeoutSamples.toNat)
    (hnone : ∀ j ≤ i, t.finds samples j = false) :
    t.asked samples i = [.read, .pwm (t.wave i)]
  /-- From the sample on that finds it, the vector is held at angle zero. -/
  held (k : ℕ) (hk : t.FirstFinds samples k) (i : ℕ) (hi : i ≤ t.settleSamples.toNat)
    (htime : k + i ≤ t.timeoutSamples.toNat) :
    t.asked samples (k + i) = [.read, .pwm (t.rotatingVector 0)]
  /-- Then it is turned by one step with each sample. -/
  turning (k : ℕ) (hk : t.FirstFinds samples k) (j : ℕ) (hpos : 0 < j)
    (hj : j ≤ t.rotationSamples.toNat + t.settleSamples.toNat)
    (htime : k + t.settleSamples.toNat + j ≤ t.timeoutSamples.toNat) :
    t.asked samples (k + t.settleSamples.toNat + j) =
      [.read, .pwm (t.rotatingVector (.ofNat j))]
  /-- After a whole turn it stays where it is. -/
  turned (j : ℕ) (hturned : t.rotationSamples.toNat ≤ j)
    (hj : j ≤ t.rotationSamples.toNat + t.settleSamples.toNat) :
    t.rotatingVector (.ofNat j) = t.rotatingVector t.rotationSamples
  /-- Until the end of the schedule or of its time, the test goes on. -/
  pending (i : ℕ) (htime : i ≤ t.timeoutSamples.toNat)
    (hbefore : ∀ k, t.FirstFinds samples k →
      i ≤ k + 2 * t.settleSamples.toNat + t.rotationSamples.toNat) :
    (t.after samples i).completion = .pending
  /-- At the end of the schedule the bridge is stopped instead. -/
  finished (k : ℕ) (hk : t.FirstFinds samples k)
    (htime : k + 2 * t.settleSamples.toNat + t.rotationSamples.toNat + 1
      ≤ t.timeoutSamples.toNat) :
    t.asked samples (k + 2 * t.settleSamples.toNat + t.rotationSamples.toNat + 1) =
      [.read, .stop, .unsubscribe] ∧
    (t.after samples
      (k + 2 * t.settleSamples.toNat + t.rotationSamples.toNat + 1)).completion.isDone = true
  /-- So it is, without a result, at the first sample beyond the time, unless the schedule has ended
  before. -/
  timedOut (hbefore : ∀ k, t.FirstFinds samples k →
      t.timeoutSamples.toNat ≤ k + 2 * t.settleSamples.toNat + t.rotationSamples.toNat) :
    t.asked samples (t.timeoutSamples.toNat + 1) = [.read, .stop, .unsubscribe] ∧
    (t.after samples (t.timeoutSamples.toNat + 1)).completion = .done none

/-! ### One sample -/

variable {board : Board} {t : ElectricalTest α} {currents : Phases α} {position : α}

theorem peripherals_sample (hdrive : t.drive = ⟨board, true⟩) :
    (t.sample currents position).peripherals = .read ::
      ((t.counted.judge currents position).result.2.carryOut
        (t.counted.judge currents position).result.1).peripherals := by
  have hjudge := (t.counted.judge_moves currents position).1.peripherals
  rw [sample_eq hdrive, Traced.peripherals_bind, Traced.peripherals_bind, hjudge]
  rfl

theorem sample_of_output {duties : Duties} {next : ElectricalTest α}
    (hdrive : t.drive = ⟨board, true⟩)
    (h : (t.counted.judge currents position).result = (.output duties, next)) :
    (t.sample currents position).peripherals = [.read, .pwm duties] ∧
      (t.sample currents position).result = next := by
  constructor
  · rw [peripherals_sample hdrive, h]
    rfl
  · rw [sample_eq hdrive, Traced.bind_result, Traced.bind_result, h]
    rfl

theorem sample_of_finish {found : Option (ElectricalParameters α)} {next : ElectricalTest α}
    (hdrive : t.drive = ⟨board, true⟩)
    (h : (t.counted.judge currents position).result = (.finish found, next)) :
    (t.sample currents position).peripherals = [.read, .stop, .unsubscribe] ∧
      (t.sample currents position).result.completion = .done found := by
  have hnext : next.drive = ⟨board, true⟩ := by
    obtain ⟨-, model, phase, winding, hmoved⟩ := t.counted.judge_moves currents position
    rw [h] at hmoved
    rw [show next = _ from hmoved]
    exact hdrive
  have hcarried : (next.carryOut (.finish found)).peripherals = [.stop, .unsubscribe] ∧
      (next.carryOut (.finish found)).result.completion = .done found := by
    unfold carryOut
    rw [hnext, Drive.release_of_active]
    cases found <;> exact ⟨rfl, rfl⟩
  constructor
  · rw [peripherals_sample hdrive, h, hcarried.1]
  · rw [sample_eq hdrive, Traced.bind_result, Traced.bind_result, h, hcarried.2]

/-! ### Counters -/

theorem ofNat_succ (i : ℕ) : UInt32.ofNat (i + 1) = .ofNat i + 1 := UInt32.ofNat_add i 1

theorem ofNat_pos {i : ℕ} (hi : i < UInt32.size) : 0 < UInt32.ofNat i ↔ 0 < i := by
  rw [UInt32.lt_iff_toNat_lt, UInt32.toNat_ofNat_of_lt' hi]
  rfl

theorem le_ofNat {n : UInt32} {i : ℕ} (hi : i < UInt32.size) : n ≤ .ofNat i ↔ n.toNat ≤ i := by
  rw [UInt32.le_iff_toNat_le, UInt32.toNat_ofNat_of_lt' hi]

theorem toNat_max (m n : UInt32) : (max m n).toNat = max m.toNat n.toNat := by
  rw [show max m n = if m ≤ n then n else m from rfl, Nat.max_def]
  simp only [UInt32.le_iff_toNat_le]
  split <;> rfl

theorem min_of_le {m n : UInt32} (h : n ≤ m) : min m n = n := by
  rw [show min m n = if m ≤ n then m else n from rfl]
  split
  · exact UInt32.le_antisymm ‹_› h
  · rfl

/-- The square wave changes its sign after each half of its period. -/
theorem squareWave_ofNat {i : ℕ} (hi : i < UInt32.size) :
    t.squareWave (.ofNat i) = t.wave (i + 1) := by
  have hparity : UInt32.ofNat i / max t.config.halfPeriod 1 % 2 = 0 ↔
      (i + 1 - 1) / max t.config.halfPeriod.toNat 1 % 2 = 0 := by
    rw [← UInt32.toNat_inj, UInt32.toNat_mod, UInt32.toNat_div, UInt32.toNat_ofNat_of_lt' hi,
      toNat_max]
    rfl
  unfold squareWave wave
  simp only [hparity]
  split <;> rfl

/-- After a whole turn the vector stays where it is. -/
theorem rotatingVector_of_turned {j : ℕ} (hj : j < UInt32.size)
    (hturned : t.rotationSamples.toNat ≤ j) :
    t.rotatingVector (.ofNat j) = t.rotatingVector t.rotationSamples := by
  unfold rotatingVector
  rw [min_of_le ((le_ofNat hj).2 hturned), min_of_le (UInt32.le_refl _)]

/-! ### From phase to phase -/

/-- The test after `i` samples, with what it holds by then. -/
def standing (t : ElectricalTest α) (i : ℕ) (model : LeastSquares α 3) (phase : Phase α)
    (winding : Option (Quantity .ohm α × Quantity .millihenry α)) : ElectricalTest α :=
  { t.moved model phase winding with elapsed := .ofNat i }

section Phases

variable {i : ℕ} {model : LeastSquares α 3}
  {winding : Option (Quantity .ohm α × Quantity .millihenry α)}

omit [Scalar α] in
theorem counted_standing (t : ElectricalTest α) (phase : Phase α) :
    (t.standing i model phase winding).counted = t.standing (i + 1) model phase winding := by
  rw [standing, standing, ofNat_succ]
  rfl

theorem advance_settle {left : ℕ} (hleft : left + 1 < UInt32.size) :
    ((t.standing i model (.settle (.ofNat (left + 1))) winding).advance currents position).result =
      (.output (t.rotatingVector 0), t.standing i model (.settle (.ofNat left)) winding) := by
  have hne : UInt32.ofNat (left + 1) ≠ 0 := by
    intro hzero
    have hpos := (ofNat_pos hleft).2 left.succ_pos
    rw [hzero] at hpos
    exact absurd hpos (by decide)
  have hpred : UInt32.ofNat (left + 1) - 1 = .ofNat left := by
    rw [ofNat_succ, UInt32.add_sub_cancel]
  rw [← hpred]
  exact congrArg Traced.result (if_neg hne)

theorem advance_settled :
    ((t.standing i model (.settle 0) winding).advance currents position).result =
      (.output (t.rotatingVector 1), t.standing i model (.rotation 1 position 0) winding) :=
  rfl

theorem advance_rotation {step : UInt32} (hstep : ¬ t.rotationSamples + t.settleSamples ≤ step)
    (angle travelled : α) :
    ((t.standing i model (.rotation step angle travelled) winding).advance
        currents position).result =
      (.output (t.rotatingVector (step + 1)), t.standing i model (.rotation (step + 1) position
        (travelled + Angle.difference position angle)) winding) :=
  congrArg Traced.result (if_neg hstep)

theorem advance_rotated {step : UInt32} (hstep : t.rotationSamples + t.settleSamples ≤ step)
    (angle travelled : α) :
    let now := t.standing i model (.rotation step angle travelled) winding
    (now.advance currents position).result =
      (.finish (now.parameters (travelled + Angle.difference position angle)).result, now) :=
  congrArg Traced.result (if_pos hstep)

end Phases

/-! ### The run -/

/-- A test as it begins. -/
structure Fresh (board : Board) (t : ElectricalTest α) : Prop where
  isOpen : Session.Open board t
  phase_eq : t.phase = .winding 0 0 0
  elapsed_eq : t.elapsed = 0
  /-- The vector is held for a sample at least. -/
  settle_pos : 0 < t.settleSamples.toNat

/-- Numbers of samples that their words can count. -/
structure Countable (t : ElectricalTest α) : Prop where
  turn : t.rotationSamples.toNat + t.settleSamples.toNat < UInt32.size
  time : t.timeoutSamples.toNat + 1 < UInt32.size

/-- The phase in which the square wave is put out, after `i` samples of it. -/
def windingPhase (t : ElectricalTest α) (samples : ℕ → Phases α × α) : ℕ → Phase α
  | 0 => .winding 0 0 0
  | i + 1 => .winding (.ofNat (i + 1)) (current samples (i + 1))
      (appliedVoltage (t.wave (i + 1)) t.vdc).alpha

/-- The test has put duties out at its `i`th sample and is in a phase. -/
structure Reaches (t : ElectricalTest α) (samples : ℕ → Phases α × α) (i : ℕ) (duties : Duties)
    (phase : Phase α) : Prop where
  asked_eq : t.asked samples i = [.read, .pwm duties]
  after_eq : ∃ model winding, t.after samples i = t.standing i model phase winding

/-! ### The search -/

section Search

variable {samples : ℕ → Phases α × α} {n : ℕ}

/-- The fit of the test is the one that was described apart from it. -/
theorem fit_standing (t : ElectricalTest α) (samples : ℕ → Phases α × α) (i n : ℕ)
    (phase : Phase α) (winding : Option (Quantity .ohm α × Quantity .millihenry α)) :
    ((t.standing n (t.fitted samples (i + 1)).2 phase winding).fit (current samples (i + 2))
      (current samples (i + 1)) (appliedVoltage (t.wave (i + 1)) t.vdc).alpha).result =
      (if t.finds samples (i + 2) then
          some ((t.fitted samples (i + 2)).2.first, (t.fitted samples (i + 2)).2.second)
        else none,
        t.standing n (t.fitted samples (i + 2)).2 phase winding) :=
  rfl

/-- A sample of the square wave is fitted, the first one apart, and answered. -/
theorem advance_windingPhase (t : ElectricalTest α) (samples : ℕ → Phases α × α) {i : ℕ}
    (hi : i < UInt32.size) :
    ((t.standing n (t.fitted samples i).2 (t.windingPhase samples i) t.winding).advance
      (samples i).1 position).result =
      ((t.standing n (t.fitted samples (i + 1)).2 (t.windingPhase samples i) t.winding).answer
        (samples i).1 (.ofNat i) (if t.finds samples (i + 1) then
          some ((t.fitted samples (i + 1)).2.first, (t.fitted samples (i + 1)).2.second)
        else none)).result := by
  cases i with
  | zero => rfl
  | succ i =>
      have hpos : 0 < UInt32.ofNat (i + 1) := (ofNat_pos hi).2 i.succ_pos
      show (windingStep _ _ (.ofNat (i + 1)) _ _).result = _
      rw [windingStep_eq, if_pos hpos, Traced.bind_result]
      show (answer ((t.standing n _ _ _).fit (current samples (i + 2)) _ _).result.2 _ _
        ((t.standing n _ _ _).fit (current samples (i + 2)) _ _).result.1).result = _
      rw [fit_standing]

theorem advance_of_not_finds {i : ℕ} (hi : i < UInt32.size)
    (h : t.finds samples (i + 1) = false) :
    ((t.standing n (t.fitted samples i).2 (t.windingPhase samples i) t.winding).advance
      (samples i).1 position).result =
      (.output (t.wave (i + 1)),
        t.standing n (t.fitted samples (i + 1)).2 (t.windingPhase samples (i + 1)) t.winding) := by
  rw [advance_windingPhase t samples hi, h, windingPhase, ofNat_succ, ← squareWave_ofNat hi]
  rfl

theorem advance_of_finds {i : ℕ} (hi : i < UInt32.size) (h : t.finds samples (i + 1) = true) :
    ∃ winding, ((t.standing n (t.fitted samples i).2 (t.windingPhase samples i) t.winding).advance
      (samples i).1 position).result =
      (.output (t.rotatingVector 0),
        t.standing n (t.fitted samples (i + 1)).2 (.settle t.settleSamples) winding) := by
  rw [advance_windingPhase t samples hi, h]
  exact ⟨_, rfl⟩

end Search

section Run

variable {samples : ℕ → Phases α × α} {i : ℕ} {duties : Duties} {phase next : Phase α}
  {model model' : LeastSquares α 3}
  {winding winding' : Option (Quantity .ohm α × Quantity .millihenry α)}

theorem after_succ (t : ElectricalTest α) (samples : ℕ → Phases α × α) (i : ℕ) :
    t.after samples (i + 1) =
      ((t.after samples i).sample (samples i).1 (samples i).2).result := by
  rw [after, Session.beats_first_succ]
  rfl

omit [Scalar α] in
/-- The samples of the session are counted as numbers. -/
theorem Countable.not_late (h : t.Countable) (hi : i < t.timeoutSamples.toNat) :
    ¬ t.timeoutSamples < .ofNat (i + 1) := by
  rw [UInt32.lt_iff_toNat_lt, UInt32.toNat_ofNat_of_lt']
  · omega
  · have := h.time
    omega

omit [Scalar α] in
theorem Countable.late (h : t.Countable) :
    t.timeoutSamples < .ofNat (t.timeoutSamples.toNat + 1) := by
  rw [UInt32.lt_iff_toNat_lt, UInt32.toNat_ofNat_of_lt' h.time]
  exact Nat.lt_succ_self _

/-- A sample within the time of the session is left to the phase. -/
theorem judge_standing (htime : ¬ t.timeoutSamples < .ofNat (i + 1)) :
    (t.standing i model phase winding).counted.judge currents position =
      (t.standing (i + 1) model phase winding).advance currents position := by
  rw [counted_standing]
  exact if_neg htime

/-- A sample beyond the time of the session ends it. -/
theorem judge_late (htime : t.timeoutSamples < .ofNat (i + 1)) :
    ((t.standing i model phase winding).counted.judge currents position).result =
      (.finish none, t.standing (i + 1) model phase winding) := by
  rw [counted_standing]
  exact congrArg Traced.result (if_pos htime)

variable (hopen : Session.Open board t)
  (hnow : t.after samples i = t.standing i model phase winding)

include hopen hnow

theorem drive_of_standing : (t.after samples i).drive = ⟨board, true⟩ := by
  rw [hnow]
  exact hopen.drive_eq

/-- If the phase puts something out, the test goes on. -/
theorem goesOn_of_output (htime : ¬ t.timeoutSamples < .ofNat (i + 1)) {next : ElectricalTest α}
    (hadvance : ((t.standing (i + 1) model phase winding).advance
      (samples i).1 (samples i).2).result = (.output duties, next)) :
    t.asked samples (i + 1) = [.read, .pwm duties] ∧ t.after samples (i + 1) = next := by
  rw [← judge_standing htime, ← hnow] at hadvance
  rw [after_succ]
  exact sample_of_output (drive_of_standing hopen hnow) hadvance

theorem reaches_of_output (htime : ¬ t.timeoutSamples < .ofNat (i + 1))
    (hadvance : ((t.standing (i + 1) model phase winding).advance
      (samples i).1 (samples i).2).result =
        (.output duties, t.standing (i + 1) model' next winding')) :
    t.Reaches samples (i + 1) duties next :=
  have h := goesOn_of_output hopen hnow htime hadvance
  ⟨h.1, _, _, h.2⟩

/-- If it finishes, the bridge is stopped. -/
theorem finishes_of_finish (htime : ¬ t.timeoutSamples < .ofNat (i + 1))
    {found : Option (ElectricalParameters α)} {last : ElectricalTest α}
    (hadvance : ((t.standing (i + 1) model phase winding).advance
      (samples i).1 (samples i).2).result = (.finish found, last)) :
    t.asked samples (i + 1) = [.read, .stop, .unsubscribe] ∧
      (t.after samples (i + 1)).completion = .done found := by
  rw [← judge_standing htime, ← hnow] at hadvance
  rw [after_succ]
  exact sample_of_finish (drive_of_standing hopen hnow) hadvance

/-- So it is if the time has passed. -/
theorem finishes_of_late (htime : t.timeoutSamples < .ofNat (i + 1)) :
    t.asked samples (i + 1) = [.read, .stop, .unsubscribe] ∧
      (t.after samples (i + 1)).completion = .done none := by
  have hjudge : ((t.after samples i).counted.judge (samples i).1 (samples i).2).result =
      (.finish none, t.standing (i + 1) model phase winding) := by
    rw [hnow]
    exact judge_late htime
  rw [after_succ]
  exact sample_of_finish (drive_of_standing hopen hnow) hjudge

omit hopen hnow

/-! ### The vector held and turned -/

variable (hopen : Session.Open board t) (hcount : t.Countable)

include hopen hcount

theorem Reaches.hold {left : ℕ} (h : t.Reaches samples i duties (.settle (.ofNat (left + 1))))
    (hi : i < t.timeoutSamples.toNat) (hleft : left + 1 < UInt32.size) :
    t.Reaches samples (i + 1) (t.rotatingVector 0) (.settle (.ofNat left)) := by
  obtain ⟨model, winding, hnow⟩ := h.after_eq
  exact reaches_of_output hopen hnow (hcount.not_late hi) (advance_settle hleft)

theorem Reaches.beginTurn (h : t.Reaches samples i duties (.settle 0))
    (hi : i < t.timeoutSamples.toNat) :
    t.Reaches samples (i + 1) (t.rotatingVector 1) (.rotation 1 (samples i).2 0) := by
  obtain ⟨model, winding, hnow⟩ := h.after_eq
  exact reaches_of_output hopen hnow (hcount.not_late hi) advance_settled

omit [Scalar α] hopen hcount in
/-- The turn and what follows it fit their word, so the steps are compared as numbers. -/
theorem Countable.le_ofNat (h : t.Countable) {j : ℕ}
    (hj : j ≤ t.rotationSamples.toNat + t.settleSamples.toNat) :
    t.rotationSamples + t.settleSamples ≤ .ofNat j ↔
      t.rotationSamples.toNat + t.settleSamples.toNat ≤ j := by
  rw [ElectricalTest.le_ofNat (Nat.lt_of_le_of_lt hj h.turn), UInt32.toNat_add,
    Nat.mod_eq_of_lt h.turn]

theorem Reaches.turn {j : ℕ} {angle travelled : α}
    (h : t.Reaches samples i duties (.rotation (.ofNat j) angle travelled))
    (hi : i < t.timeoutSamples.toNat) (hj : j < t.rotationSamples.toNat + t.settleSamples.toNat) :
    ∃ angle travelled, t.Reaches samples (i + 1) (t.rotatingVector (.ofNat (j + 1)))
      (.rotation (.ofNat (j + 1)) angle travelled) := by
  obtain ⟨model, winding, hnow⟩ := h.after_eq
  have hstep : ¬ t.rotationSamples + t.settleSamples ≤ .ofNat j := by
    rw [hcount.le_ofNat (Nat.le_of_lt hj)]
    omega
  rw [ofNat_succ]
  exact ⟨_, _, reaches_of_output hopen hnow (hcount.not_late hi) (advance_rotation hstep angle travelled)⟩

theorem Reaches.finish {angle travelled : α}
    (h : t.Reaches samples i duties
      (.rotation (.ofNat (t.rotationSamples.toNat + t.settleSamples.toNat)) angle travelled))
    (hi : i < t.timeoutSamples.toNat) :
    t.asked samples (i + 1) = [.read, .stop, .unsubscribe] ∧
      (t.after samples (i + 1)).completion.isDone = true := by
  obtain ⟨model, winding, hnow⟩ := h.after_eq
  have hstep := (hcount.le_ofNat le_rfl).2 le_rfl
  obtain ⟨hasked, hdone⟩ :=
    finishes_of_finish hopen hnow (hcount.not_late hi) (advance_rotated hstep angle travelled)
  exact ⟨hasked, by rw [hdone]; rfl⟩

/-- From the sample on that finds the winding, the vector is held while the countdown runs. -/
theorem Reaches.held {k : ℕ}
    (h : t.Reaches samples k (t.rotatingVector 0) (.settle t.settleSamples)) (i : ℕ)
    (hi : i ≤ t.settleSamples.toNat) (htime : k + i ≤ t.timeoutSamples.toNat) :
    t.Reaches samples (k + i) (t.rotatingVector 0)
      (.settle (.ofNat (t.settleSamples.toNat - i))) := by
  induction i with
  | zero => rwa [Nat.sub_zero, UInt32.ofNat_toNat]
  | succ i ih =>
      have hleft : t.settleSamples.toNat - i = t.settleSamples.toNat - (i + 1) + 1 := by omega
      have hnow := ih (by omega) (by omega)
      rw [hleft] at hnow
      refine hnow.hold hopen hcount (by omega) ?_
      have := t.settleSamples.toNat_lt_size
      omega

/-- Once the countdown has run out, each sample turns the vector by a step. -/
theorem Reaches.turning {k : ℕ}
    (h : t.Reaches samples k (t.rotatingVector 0) (.settle t.settleSamples)) (j : ℕ)
    (hj : j + 1 ≤ t.rotationSamples.toNat + t.settleSamples.toNat)
    (htime : k + t.settleSamples.toNat + (j + 1) ≤ t.timeoutSamples.toNat) :
    ∃ angle travelled, t.Reaches samples (k + t.settleSamples.toNat + (j + 1))
      (t.rotatingVector (.ofNat (j + 1))) (.rotation (.ofNat (j + 1)) angle travelled) := by
  induction j with
  | zero =>
      have hsettled := h.held hopen hcount t.settleSamples.toNat le_rfl (by omega)
      rw [Nat.sub_self] at hsettled
      exact ⟨_, _, hsettled.beginTurn hopen hcount (by omega)⟩
  | succ j ih =>
      obtain ⟨angle, travelled, hnow⟩ := ih (by omega) (by omega)
      exact hnow.turn hopen hcount (by omega) (by omega)

end Run

/-! ### The whole of it -/

section Whole

variable {samples : ℕ → Phases α × α} (hfresh : Fresh board t) (hcount : t.Countable)

include hfresh hcount

/-- As long as the winding was not found, the test puts the square wave out and fits the answers. -/
theorem after_of_not_finds (i : ℕ) (hi : i ≤ t.timeoutSamples.toNat)
    (hnone : ∀ j ≤ i, t.finds samples j = false) :
    t.after samples i =
      t.standing i (t.fitted samples i).2 (t.windingPhase samples i) t.winding := by
  induction i with
  | zero =>
      show t = { t with phase := .winding 0 0 0, elapsed := 0 }
      rw [← hfresh.phase_eq, ← hfresh.elapsed_eq]
  | succ i ih =>
      have hnow := ih (by omega) fun j hj => hnone j (by omega)
      have := hcount.time
      exact (goesOn_of_output hfresh.isOpen hnow (hcount.not_late (by omega))
        (advance_of_not_finds (by omega) (hnone (i + 1) (by omega)))).2

theorem asked_of_not_finds (i : ℕ) (hi : i + 1 ≤ t.timeoutSamples.toNat)
    (hnone : ∀ j ≤ i + 1, t.finds samples j = false) :
    t.asked samples (i + 1) = [.read, .pwm (t.wave (i + 1))] := by
  have hnow := after_of_not_finds hfresh hcount i (by omega) fun j hj => hnone j (by omega)
  have := hcount.time
  exact (goesOn_of_output hfresh.isOpen hnow (hcount.not_late (by omega))
    (advance_of_not_finds (by omega) (hnone (i + 1) (by omega)))).1

/-- The sample that finds the winding makes the test hold the vector. -/
theorem reaches_of_firstFinds {k : ℕ} (hk : t.FirstFinds samples k)
    (htime : k ≤ t.timeoutSamples.toNat) :
    t.Reaches samples k (t.rotatingVector 0) (.settle t.settleSamples) := by
  cases k with
  | zero => cases hk.1
  | succ i =>
      have hnow := after_of_not_finds hfresh hcount i (by omega) fun j hj => hk.2 j (by omega)
      have := hcount.time
      obtain ⟨winding, hadvance⟩ := advance_of_finds (t := t) (by omega) hk.1
      exact reaches_of_output hfresh.isOpen hnow (hcount.not_late (by omega)) hadvance

/-- Until the end of its schedule and of its time, the test is in one of its phases. -/
theorem exists_standing (i : ℕ) (htime : i ≤ t.timeoutSamples.toNat)
    (hbefore : ∀ k, t.FirstFinds samples k →
      i ≤ k + 2 * t.settleSamples.toNat + t.rotationSamples.toNat) :
    ∃ model phase winding, t.after samples i = t.standing i model phase winding := by
  -- The phase is told by the sample that found the winding, if there was one by now.
  by_cases hfound : ∃ k ≤ i, t.FirstFinds samples k
  · obtain ⟨k, hki, hk⟩ := hfound
    have hhold := reaches_of_firstFinds hfresh hcount hk (by omega)
    have hend := hbefore k hk
    by_cases hheld : i ≤ k + t.settleSamples.toNat
    · obtain ⟨j, rfl⟩ := Nat.exists_eq_add_of_le hki
      obtain ⟨model, winding, hafter⟩ :=
        (hhold.held hfresh.isOpen hcount j (by omega) (by omega)).after_eq
      exact ⟨model, _, winding, hafter⟩
    · obtain ⟨j, rfl⟩ : ∃ j, i = k + t.settleSamples.toNat + (j + 1) :=
        ⟨i - (k + t.settleSamples.toNat) - 1, by omega⟩
      obtain ⟨_, _, hturning⟩ := hhold.turning hfresh.isOpen hcount j (by omega) (by omega)
      obtain ⟨model, winding, hafter⟩ := hturning.after_eq
      exact ⟨model, _, winding, hafter⟩
  · -- The least sample that finds the winding would be the first.
    have hnone : ∀ j ≤ i, t.finds samples j = false := by
      intro j
      induction j using Nat.strong_induction_on with
      | _ j ih =>
          intro hj
          refine Bool.eq_false_iff.2 fun hfinds => hfound ⟨j, hj, hfinds, ?_⟩
          intro m hm
          exact ih m hm (by omega)
    exact ⟨_, _, _, after_of_not_finds hfresh hcount i htime hnone⟩

theorem finishes_of_firstFinds {k : ℕ} (hk : t.FirstFinds samples k)
    (htime : k + 2 * t.settleSamples.toNat + t.rotationSamples.toNat + 1
      ≤ t.timeoutSamples.toNat) :
    t.asked samples (k + 2 * t.settleSamples.toNat + t.rotationSamples.toNat + 1) =
      [.read, .stop, .unsubscribe] ∧
    (t.after samples
      (k + 2 * t.settleSamples.toNat + t.rotationSamples.toNat + 1)).completion.isDone = true := by
  have hsettle := hfresh.settle_pos
  have hhold := reaches_of_firstFinds hfresh hcount hk (by omega)
  obtain ⟨last, hlast⟩ : ∃ last, t.rotationSamples.toNat + t.settleSamples.toNat = last + 1 :=
    Nat.exists_eq_succ_of_ne_zero (by omega)
  obtain ⟨angle, travelled, hturned⟩ :=
    hhold.turning hfresh.isOpen hcount last (by omega) (by omega)
  have hend : k + 2 * t.settleSamples.toNat + t.rotationSamples.toNat =
      k + t.settleSamples.toNat + (last + 1) := by omega
  have hlast' : t.Reaches samples (k + t.settleSamples.toNat + (last + 1))
      (t.rotatingVector (.ofNat (last + 1)))
      (.rotation (.ofNat (t.rotationSamples.toNat + t.settleSamples.toNat)) angle travelled) := by
    rw [hlast]
    exact hturned
  rw [hend]
  exact hlast'.finish hfresh.isOpen hcount (by omega)

theorem timesOut (hbefore : ∀ k, t.FirstFinds samples k →
      t.timeoutSamples.toNat ≤ k + 2 * t.settleSamples.toNat + t.rotationSamples.toNat) :
    t.asked samples (t.timeoutSamples.toNat + 1) = [.read, .stop, .unsubscribe] ∧
    (t.after samples (t.timeoutSamples.toNat + 1)).completion = .done none := by
  obtain ⟨model, phase, winding, hnow⟩ := exists_standing hfresh hcount _ le_rfl hbefore
  exact finishes_of_late hfresh.isOpen hnow hcount.late

theorem Fresh.keepsSchedule (samples : ℕ → Phases α × α) : KeepsSchedule t samples where
  searching i hpos htime hnone := by
    obtain ⟨i, rfl⟩ := Nat.exists_eq_succ_of_ne_zero (Nat.ne_of_gt hpos)
    exact asked_of_not_finds hfresh hcount i htime hnone
  held k hk i hi htime :=
    have hhold := reaches_of_firstFinds hfresh hcount hk (by omega)
    (hhold.held hfresh.isOpen hcount i hi htime).asked_eq
  turning k hk j hpos hj htime := by
    obtain ⟨j, rfl⟩ := Nat.exists_eq_succ_of_ne_zero (Nat.ne_of_gt hpos)
    have hhold := reaches_of_firstFinds hfresh hcount hk (by omega)
    obtain ⟨_, _, hturning⟩ := hhold.turning hfresh.isOpen hcount j hj htime
    exact hturning.asked_eq
  turned j hturned hj :=
    rotatingVector_of_turned (Nat.lt_of_le_of_lt hj hcount.turn) hturned
  pending i htime hbefore := by
    obtain ⟨_, _, _, hnow⟩ := exists_standing hfresh hcount i htime hbefore
    rw [hnow]
    exact hfresh.isOpen.pending
  finished k hk htime := finishes_of_firstFinds hfresh hcount hk htime
  timedOut hbefore := timesOut hfresh hcount hbefore

end Whole

/-- What a test takes over from its board, its voltage and its configuration. -/
structure Configured (board : Board) (vdc : Quantity .volt α) (config : Config α)
    (t : ElectricalTest α) : Prop where
  config_eq : t.config = config
  vdc_eq : t.vdc = vdc.value
  frequency_eq : t.frequency = board.baseFrequency.toScalar
  /-- The fit starts from a model that knows nothing. -/
  model_eq : LeastSquares.check LeastSquares.motorSeed config.forgetting = .ok t.model
  settle_eq : t.settleSamples = board.baseFrequency.samplesIn config.settleTime
  rotation_eq : t.rotationSamples = board.baseFrequency.samplesIn config.rotationTime
  timeout_eq : t.timeoutSamples = board.baseFrequency.samplesIn config.timeout

theorem fresh_of_begin {vdc : Quantity .volt α} {config : Config α}
    {begun : Traced α (ElectricalTest α)} (h : begin board vdc config = .ok begun) :
    Fresh board begun.result ∧ Configured board vdc config begun.result := by
  obtain ⟨model, hmodel, hbegun⟩ := Fault.bind_eq_ok_iff.mp h
  cases hbegun
  constructor
  · exact ⟨⟨rfl, rfl⟩, rfl, rfl, board.baseFrequency.samplesIn_pos _⟩
  · exact ⟨rfl, rfl, rfl, hmodel, rfl, rfl, rfl⟩

/--
**An electrical test keeps to its schedule.**  Whatever is measured, what the test puts out is the
square wave until the winding is found, then the vector held, turned once around and held again.
Each sample reads the encoder once and tells the bridge its duties once, and the last one reads the
encoder and stops the bridge; the first sample beyond the time of the session is the last in any
case, and leaves no result.
-/
theorem keepsSchedule_of_begin {vdc : Quantity .volt α} {config : Config α}
    {begun : Traced α (ElectricalTest α)} (h : begin board vdc config = .ok begun)
    (hturn : (board.baseFrequency.samplesIn config.rotationTime).toNat
      + (board.baseFrequency.samplesIn config.settleTime).toNat < UInt32.size)
    (htime : (board.baseFrequency.samplesIn config.timeout).toNat + 1 < UInt32.size)
    (samples : ℕ → Phases α × α) :
    Configured board vdc config begun.result ∧ KeepsSchedule begun.result samples := by
  obtain ⟨hfresh, hconfigured⟩ := fresh_of_begin h
  have hcount : begun.result.Countable := by
    constructor
    · rw [hconfigured.settle_eq, hconfigured.rotation_eq]
      exact hturn
    · rw [hconfigured.timeout_eq]
      exact htime
  exact ⟨hconfigured, hfresh.keepsSchedule hcount samples⟩

/-- A configuration for a winding that answers within a few samples. -/
def Config.brief : Config Float32 :=
  { Config.standard with
    testVoltage := 0.5
    halfPeriod := 2
    settleTime := 0.002
    rotationTime := 0.003
    forgetting := 0.9
    innovationBound := 0.5
    uncertaintyBound := 2 }

/-- The currents of a winding of one ohm, along the axis that the rotor is held at. -/
def windingSamples (i : ℕ) : Phases Float32 × Float32 :=
  let x : Float32 := [0, 1.76, 3.08, 0.55, -1.35].getD i 0
  (⟨x, -0.5 * x, -0.5 * x⟩, 0)

/-- The fifth of these currents tells the winding. -/
theorem brief_firstFinds : ∃ begun : Traced Float32 (ElectricalTest Float32),
    begin ⟨⟨1000⟩⟩ ⟨24⟩ .brief = .ok begun ∧ begun.result.FirstFinds windingSamples 5 ∧
      begun.result.settleSamples = 2 ∧ begun.result.rotationSamples = 3 ∧
      begun.result.timeoutSamples = 3000 := by
  refine ⟨_, rfl, ⟨?_, ?_⟩, ?_, ?_, ?_⟩ <;> decide +kernel

/-- A brief test puts out two samples of the square wave up and two down, holds the vector from the
fifth to the seventh, turns it with the next three, holds it for two more and ends with the
thirteenth. -/
theorem brief_keepsSchedule : ∃ begun : Traced Float32 (ElectricalTest Float32),
    let t := begun.result
    begin ⟨⟨1000⟩⟩ ⟨24⟩ .brief = .ok begun ∧ KeepsSchedule t windingSamples ∧
      t.FirstFinds windingSamples 5 ∧
      t.asked windingSamples 4 = [.read, .pwm (alongAxis (-0.5 : Float32))] ∧
      t.asked windingSamples 7 = [.read, .pwm (t.rotatingVector 0)] ∧
      t.asked windingSamples 8 = [.read, .pwm (t.rotatingVector 1)] ∧
      t.asked windingSamples 12 = [.read, .pwm (t.rotatingVector 3)] ∧
      t.asked windingSamples 13 = [.read, .stop, .unsubscribe] ∧
      (t.after windingSamples 13).completion.isDone = true := by
  obtain ⟨begun, hbegun, hfinds, hsettle, hrotation, htimeout⟩ := brief_firstFinds
  obtain ⟨hconfigured, hkeeps⟩ := keepsSchedule_of_begin hbegun (by decide +kernel)
    (by decide +kernel) windingSamples
  have hsettle' : begun.result.settleSamples.toNat = 2 := by rw [hsettle]; rfl
  have hrotation' : begun.result.rotationSamples.toNat = 3 := by rw [hrotation]; rfl
  have htimeout' : begun.result.timeoutSamples.toNat = 3000 := by rw [htimeout]; rfl
  have hwave : begun.result.wave 4 = alongAxis (-0.5 : Float32) := by
    rw [wave, hconfigured.config_eq, if_neg (by decide)]
    rfl
  have hsearching := hkeeps.searching 4 (by decide) (by omega) fun j hj => hfinds.2 j (by omega)
  have hheld := hkeeps.held 5 hfinds 2 (by omega) (by omega)
  have hturning := hkeeps.turning 5 hfinds
  have hturned := hkeeps.turned 5 (by omega) (by omega)
  have hfinished := hkeeps.finished 5 hfinds (by omega)
  rw [hsettle', hrotation'] at hturning hfinished
  rw [hwave] at hsearching
  rw [hrotation] at hturned
  refine ⟨begun, hbegun, hkeeps, hfinds, hsearching, hheld, ?_, ?_, hfinished⟩
  · exact hturning 1 (by decide) (by decide) (by omega)
  · rw [← hturned]
    exact hturning 5 (by decide) (by decide) (by omega)

end ElectricalTest

end MotorControl
