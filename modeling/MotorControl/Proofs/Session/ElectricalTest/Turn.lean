/-
From phase to phase of an electrical test.

`Sampled` says once what a sample does to an open test, with a case for each way from
one phase to the next.  A test that is pending after some samples was so after each
number of them before, so whatever holds of its phase is proved by an induction over
the samples with those cases.  The phases come in their order: a test that is past the
search has stored a winding with one sample of it, `Stores`, a test that turns the vector
has begun to do so with one sample, `BeginsTurn`, and the end of the turn is its only way
to a result.
-/
import MotorControl.Proofs.Session.ElectricalTest.Schedule

namespace MotorControl

namespace ElectricalTest

/-! ### What a sample does to an open test -/

section Sample

variable {α : Type} [Scalar α] {board : Board} {t : ElectricalTest α} {currents : Phases α}
  {position : α}

/-- The phase and the winding that a test goes on with after a sample. -/
inductive Onward (t : ElectricalTest α) (position : α) :
    Phase α → Option (Quantity .ohm α × Quantity .millihenry α) → Prop
  | searches {count count' : UInt32} {current voltage current' voltage' : α}
      (hphase : t.phase = .winding count current voltage) :
      Onward t position (.winding count' current' voltage') t.winding
  | finds {count : UInt32} {current voltage resistance inductance : α}
      (hphase : t.phase = .winding count current voltage)
      (hresistance : 0 < resistance) (hinductance : 0 < inductance) :
      Onward t position (.settle t.settleSamples) (some (⟨resistance⟩, ⟨inductance * 1000⟩))
  | holds {remaining remaining' : UInt32} (hphase : t.phase = .settle remaining) :
      Onward t position (.settle remaining') t.winding
  | begins (hphase : t.phase = .settle 0) :
      Onward t position (.rotation 1 position 0) t.winding
  | turns {step : UInt32} {angle travelled : α} (hphase : t.phase = .rotation step angle travelled)
      (hstep : ¬ t.rotationSamples + t.settleSamples ≤ step) :
      Onward t position (.rotation (step + 1) position
        (travelled + Angle.difference position angle)) t.winding

/-- What a sample makes of an open test. -/
inductive Sampled (t : ElectricalTest α) (position : α) (next : ElectricalTest α) : Prop
  | goesOn {model : LeastSquares α 3} {phase : Phase α}
      {winding : Option (Quantity .ohm α × Quantity .millihenry α)}
      (htime : ¬ t.timeoutSamples < t.elapsed + 1) (honward : t.Onward position phase winding)
      (hnext : next = t.counted.moved model phase winding)
  | finishes {step : UInt32} {angle travelled : α}
      (htime : ¬ t.timeoutSamples < t.elapsed + 1)
      (hphase : t.phase = .rotation step angle travelled)
      (hstep : t.rotationSamples + t.settleSamples ≤ step)
      (hdone : next.completion =
        .done (t.parameters (travelled + Angle.difference position angle)).result)
  | late (htime : t.timeoutSamples < t.elapsed + 1) (hdone : next.completion = .done none)

/-- What the fit finds is above zero. -/
theorem pos_of_fit {current previousCurrent previousVoltage resistance inductance : α}
    (h : (t.fit current previousCurrent previousVoltage).result.1 =
      some (resistance, inductance)) : 0 < resistance ∧ 0 < inductance := by
  rw [fit, Traced.bind_result] at h
  dsimp only [Traced.pure_result] at h
  split at h
  · rename_i hfound
    cases h
    simp only [Bool.and_eq_true, decide_eq_true_eq] at hfound
    exact ⟨hfound.1.2, hfound.2⟩
  · cases h

/-- A sample of the square wave goes on with the search or has found the winding. -/
theorem windingStep_onward (currents : Phases α) (position : α) {count : UInt32}
    {previousCurrent previousVoltage : α}
    (hphase : t.phase = .winding count previousCurrent previousVoltage) :
    ∃ duties model phase winding, t.Onward position phase winding ∧
      (t.counted.windingStep currents count previousCurrent previousVoltage).result =
        (.output duties, t.counted.moved model phase winding) := by
  rw [windingStep_eq, Traced.bind_result]
  by_cases hcount : 0 < count
  · rw [if_pos hcount]
    cases hfound :
        (t.counted.fit currents.toStationary.alpha previousCurrent previousVoltage).result.1 with
    | none => exact ⟨_, _, _, _, .searches hphase, rfl⟩
    | some found =>
        obtain ⟨hresistance, hinductance⟩ := pos_of_fit hfound
        exact ⟨_, _, _, _, .finds hphase hresistance hinductance, rfl⟩
  · rw [if_neg hcount]
    exact ⟨_, _, _, _, .searches hphase, rfl⟩

/-- What a sample does to an open test, told by its phase. -/
theorem sampled_of_active (hdrive : t.drive = ⟨board, true⟩) (currents : Phases α) (position : α) :
    t.Sampled position (t.sample currents position).result := by
  by_cases htime : t.timeoutSamples < t.elapsed + 1
  · have hjudge : (t.counted.judge currents position).result = (.finish none, t.counted) :=
      congrArg Traced.result (if_pos htime)
    exact .late htime (sample_of_finish hdrive hjudge).2
  have hjudge : t.counted.judge currents position = t.counted.advance currents position :=
    if_neg htime
  -- A phase that puts something out goes on with the test.
  have goesOn {duties : Duties} {model : LeastSquares α 3} {phase : Phase α}
      {winding : Option (Quantity .ohm α × Quantity .millihenry α)}
      (honward : t.Onward position phase winding)
      (hadvance : (t.counted.advance currents position).result =
        (.output duties, t.counted.moved model phase winding)) :
      t.Sampled position (t.sample currents position).result := by
    rw [← hjudge] at hadvance
    exact .goesOn htime honward (sample_of_output hdrive hadvance).2
  have hadvance : t.counted.advance currents position = _ := advance.eq_def ..
  cases hphase : t.phase with
  | winding count previousCurrent previousVoltage =>
      rw [show t.counted.phase = _ from hphase] at hadvance
      obtain ⟨duties, model, phase, winding, honward, hstep⟩ :=
        windingStep_onward currents position hphase
      exact goesOn honward ((congrArg Traced.result hadvance).trans hstep)
  | settle remaining =>
      rw [show t.counted.phase = _ from hphase] at hadvance
      by_cases hremaining : remaining = 0
      · rw [hremaining] at hphase hadvance
        exact goesOn (.begins hphase) (congrArg Traced.result hadvance)
      · exact goesOn (.holds hphase)
          (congrArg Traced.result (hadvance.trans (if_neg hremaining)))
  | rotation step angle travelled =>
      rw [show t.counted.phase = _ from hphase] at hadvance
      by_cases hstep : t.rotationSamples + t.settleSamples ≤ step
      · have hfinish := congrArg Traced.result (hadvance.trans (if_pos hstep))
        rw [← hjudge] at hfinish
        exact .finishes htime hphase hstep (sample_of_finish hdrive hfinish).2
      · exact goesOn (.turns hphase hstep)
          (congrArg Traced.result (hadvance.trans (if_neg hstep)))

end Sample

/-! ### A pending test -/

section Run

variable {α : Type} [Scalar α] {board : Board} {t : ElectricalTest α} {samples : ℕ → Phases α × α}
  {i : ℕ}

/-- The test has not ended with its first `i` samples.  The samples are counted from zero here, so
the next one is the sample `i`. -/
def Pending (t : ElectricalTest α) (samples : ℕ → Phases α × α) (i : ℕ) : Prop :=
  (t.after samples i).completion = .pending

/-- A sample does something to a pending test, and nothing to one that has ended. -/
theorem after_succ_cases (hopen : Session.Open board t) (samples : ℕ → Phases α × α) (i : ℕ) :
    t.Pending samples i ∧ (t.after samples i).Sampled (samples i).2 (t.after samples (i + 1)) ∨
      ¬ t.Pending samples i ∧ t.after samples (i + 1) = t.after samples i := by
  rw [after_succ]
  cases Session.Open.beats (Beat.first samples i) t hopen with
  | goesOn hon _ _ => exact .inl ⟨hon.pending, sampled_of_active hon.drive_eq _ _⟩
  | ends hover _ _ =>
      refine .inr ⟨fun hpending => ?_, ?_⟩
      · have hdone : (t.after samples i).completion.isDone = true := hover.isDone
        rw [hpending] at hdone
        cases hdone
      · have hsame : (t.after samples i).sample (samples i).1 (samples i).2 =
            pure (t.after samples i) := LawfulSession.sample_of_over hover _ _
        rw [hsame]
        rfl

/-- A test that is pending after a sample was so before it, and the sample went on with it. -/
theorem Pending.goesOn (hopen : Session.Open board t) (h : t.Pending samples (i + 1)) :
    t.Pending samples i ∧ ∃ model phase winding,
      (t.after samples i).Onward (samples i).2 phase winding ∧
        t.after samples (i + 1) = (t.after samples i).counted.moved model phase winding := by
  have hdone {found : Option (ElectricalParameters α)} :
      ¬ (t.after samples (i + 1)).completion = .done found := by
    rw [h]
    exact fun hdone => nomatch hdone
  obtain ⟨hpending, hsampled⟩ | ⟨hpending, hsame⟩ := after_succ_cases hopen samples i
  · cases hsampled with
    | goesOn _ honward hnext => exact ⟨hpending, _, _, _, honward, hnext⟩
    | finishes _ _ _ hfinished => exact absurd hfinished hdone
    | late _ hlate => exact absurd hlate hdone
  · rw [Pending, hsame] at h
    exact absurd h hpending

theorem Pending.succ (h : t.Pending samples i) {model : LeastSquares α 3} {phase : Phase α}
    {winding : Option (Quantity .ohm α × Quantity .millihenry α)}
    (hnext : t.after samples (i + 1) = (t.after samples i).counted.moved model phase winding) :
    t.Pending samples (i + 1) := by
  rw [Pending, hnext]
  exact h

theorem Pending.of_le (hopen : Session.Open board t) {j : ℕ} (hj : j ≤ i)
    (h : t.Pending samples i) : t.Pending samples j := by
  induction hj with
  | refl => exact h
  | step _ ih => exact ih (h.goesOn hopen).1

/-- All that a pending test has changed is its model, its phase and its winding, and its count. -/
theorem Pending.standing (hfresh : Fresh board t) (h : t.Pending samples i) :
    ∃ model phase winding, t.after samples i = t.standing i model phase winding := by
  induction i with
  | zero =>
      refine ⟨t.model, t.phase, t.winding, ?_⟩
      show t = { t with elapsed := 0 }
      rw [← hfresh.elapsed_eq]
  | succ i ih =>
      obtain ⟨hpending, model, phase, winding, -, hnext⟩ := h.goesOn hfresh.isOpen
      obtain ⟨model', phase', winding', hnow⟩ := ih hpending
      refine ⟨model, phase, winding, ?_⟩
      rw [hnext, hnow, counted_standing]
      rfl

/-- The lengths of the phases stay what they were. -/
theorem Pending.lengths_eq (hfresh : Fresh board t) (h : t.Pending samples i) :
    (t.after samples i).rotationSamples = t.rotationSamples ∧
      (t.after samples i).settleSamples = t.settleSamples := by
  obtain ⟨_, _, _, hnow⟩ := h.standing hfresh
  rw [hnow]
  exact ⟨rfl, rfl⟩

/-- Whether a sample comes too late is told by its number. -/
theorem Pending.late_iff (hfresh : Fresh board t) (h : t.Pending samples i) :
    (t.after samples i).timeoutSamples < (t.after samples i).elapsed + 1 ↔
      t.timeoutSamples < .ofNat (i + 1) := by
  obtain ⟨_, _, _, hnow⟩ := h.standing hfresh
  rw [hnow, ofNat_succ]
  rfl

theorem Pending.drive_eq (hfresh : Fresh board t) (h : t.Pending samples i) :
    (t.after samples i).drive = ⟨board, true⟩ := by
  obtain ⟨_, _, _, hnow⟩ := h.standing hfresh
  exact drive_of_standing hfresh.isOpen hnow

/-- A sample that the test goes on with is not late. -/
theorem Pending.not_late (hfresh : Fresh board t) (h : t.Pending samples (i + 1)) :
    ¬ t.timeoutSamples < .ofNat (i + 1) := by
  intro hlate
  obtain ⟨_, _, _, hnow⟩ := (h.goesOn hfresh.isOpen).1.standing hfresh
  cases h.symm.trans (finishes_of_late hfresh.isOpen hnow hlate).2

/-! ### The search -/

/-- The square wave is put out, and the winding has not been found. -/
def IsSearching (t : ElectricalTest α) : Prop :=
  ∃ count current voltage, t.phase = .winding count current voltage

/-- A test that searches has searched with every sample before. -/
theorem Pending.isSearching_of_le (hopen : Session.Open board t) {j : ℕ} (hj : j ≤ i)
    (h : t.Pending samples i) (hsearch : (t.after samples i).IsSearching) :
    (t.after samples j).IsSearching := by
  induction hj with
  | refl => exact hsearch
  | step _ ih =>
      obtain ⟨count, current, voltage, hphase⟩ := hsearch
      obtain ⟨hpending, model, phase, winding, honward, hnext⟩ := h.goesOn hopen
      rw [hnext] at hphase
      change phase = _ at hphase
      cases honward with
      | searches hbefore => exact ih hpending ⟨_, _, _, hbefore⟩
      | finds | holds | begins | turns => cases hphase

/-- The search ends with the sample `k`, counted from zero, and stores a winding. -/
structure Stores (t : ElectricalTest α) (samples : ℕ → Phases α × α) (k : ℕ)
    (winding : Quantity .ohm α × Quantity .millihenry α) : Prop where
  pending : t.Pending samples (k + 1)
  searching : (t.after samples k).IsSearching
  settles : (t.after samples (k + 1)).phase = .settle t.settleSamples
  stored : (t.after samples (k + 1)).winding = some winding
  /-- The resistance and the inductance in henry are above zero. -/
  sound : ∃ resistance inductance, 0 < resistance ∧ 0 < inductance ∧
    winding = (⟨resistance⟩, ⟨inductance * 1000⟩)

/-- Whatever a pending test knows of the winding was stored when the search ended, and the test
knows it in every phase that comes after. -/
theorem Pending.exists_stores (hfresh : Fresh board t) (h : t.Pending samples i)
    (hpast : ¬ (t.after samples i).IsSearching) :
    ∃ k < i, ∃ winding, t.Stores samples k winding ∧
      (t.after samples i).winding = some winding := by
  induction i with
  | zero => exact absurd ⟨_, _, _, hfresh.phase_eq⟩ hpast
  | succ i ih =>
      obtain ⟨hpending, model, phase, winding, honward, hnext⟩ := h.goesOn hfresh.isOpen
      -- A sample after the search keeps the winding that the search has left.
      have keeps (hbefore : ∀ count current voltage,
          (t.after samples i).phase ≠ .winding count current voltage) :
          ∃ k < i + 1, ∃ winding, t.Stores samples k winding ∧
            (t.after samples i).winding = some winding := by
        obtain ⟨k, hk, hstored⟩ := ih hpending fun ⟨count, current, voltage, hphase⟩ =>
          hbefore count current voltage hphase
        exact ⟨k, Nat.lt_succ_of_lt hk, hstored⟩
      cases honward with
      | searches => exact absurd ⟨_, _, _, by rw [hnext]; rfl⟩ hpast
      | finds hphase hresistance hinductance =>
          refine ⟨i, i.lt_succ_self, _, ?_, by rw [hnext]; rfl⟩
          exact {
            pending := h
            searching := ⟨_, _, _, hphase⟩
            settles := by
              rw [hnext, ← (hpending.lengths_eq hfresh).2]
              rfl
            stored := by
              rw [hnext]
              rfl
            sound := ⟨_, _, hresistance, hinductance, rfl⟩ }
      | holds hphase | begins hphase | turns hphase =>
          rw [hnext]
          exact keeps (by simp [hphase])

/-! ### The turn -/

/-- The vector is being turned, or held after its turn. -/
def IsTurning (t : ElectricalTest α) : Prop :=
  ∃ step angle travelled, t.phase = .rotation step angle travelled

/-- The sample `a` is the first one at which the vector turns. -/
def BeginsTurn (t : ElectricalTest α) (samples : ℕ → Phases α × α) (a : ℕ) : Prop :=
  t.Pending samples (a + 1) ∧ ¬ (t.after samples a).IsTurning ∧ (t.after samples (a + 1)).IsTurning

/-- How many samples come after the first one of the turn, the last one of the test included. -/
def turnSamples (t : ElectricalTest α) : ℕ := max 1 (t.rotationSamples + t.settleSamples).toNat

omit [Scalar α] in
theorem turnSamples_lt (t : ElectricalTest α) : t.turnSamples < UInt32.size :=
  Nat.max_lt.2 ⟨by decide, UInt32.toNat_lt_size _⟩

omit [Scalar α] in
/-- A step of the turn is its last one once there have been as many. -/
theorem isLast_iff {j : ℕ} (hj : j + 1 ≤ t.turnSamples) :
    t.rotationSamples + t.settleSamples ≤ .ofNat (j + 1) ↔ t.turnSamples = j + 1 := by
  rw [le_ofNat (Nat.lt_of_le_of_lt hj t.turnSamples_lt)]
  unfold turnSamples at hj ⊢
  omega

theorem BeginsTurn.phase_eq (hopen : Session.Open board t) {a : ℕ} (h : t.BeginsTurn samples a) :
    (t.after samples (a + 1)).phase = .rotation 1 (samples a).2 0 := by
  obtain ⟨hpending, hbefore, step, angle, travelled, hturning⟩ := h
  obtain ⟨-, model, phase, winding, honward, hnext⟩ := hpending.goesOn hopen
  rw [hnext] at hturning ⊢
  change phase = _ at hturning
  cases honward with
  | searches | finds | holds => cases hturning
  | begins => rfl
  | turns hphase => exact absurd ⟨_, _, _, hphase⟩ hbefore

/-- The turn begins where the schedule of the test says. -/
theorem FirstFinds.beginsTurn (hfresh : Fresh board t) (hcount : t.Countable) {k : ℕ}
    (hk : t.FirstFinds samples k)
    (htime : k + t.settleSamples.toNat + 1 ≤ t.timeoutSamples.toNat) :
    t.BeginsTurn samples (k + t.settleSamples.toNat) := by
  have hsettle := hfresh.settle_pos
  have hhold := reaches_of_firstFinds hfresh hcount hk (by omega)
  have hheld := hhold.held hfresh.isOpen hcount t.settleSamples.toNat le_rfl (by omega)
  obtain ⟨_, _, hbefore⟩ := hheld.after_eq
  obtain ⟨angle, travelled, hturning⟩ :=
    hhold.turning hfresh.isOpen hcount 0 (by omega) (by omega)
  obtain ⟨_, _, hafter⟩ := hturning.after_eq
  refine ⟨?_, ?_, ?_⟩
  · rw [Pending, hafter]
    exact hfresh.isOpen.pending
  · rw [hbefore]
    rintro ⟨step, angle, travelled, hphase⟩
    cases hphase
  · rw [hafter]
    exact ⟨_, _, _, rfl⟩

/-- A turn has begun with some sample. -/
theorem Pending.exists_beginsTurn (hfresh : Fresh board t) (h : t.Pending samples i)
    (hturning : (t.after samples i).IsTurning) : ∃ a < i, t.BeginsTurn samples a := by
  induction i with
  | zero =>
      obtain ⟨step, angle, travelled, hphase⟩ := hturning
      cases hfresh.phase_eq.symm.trans hphase
  | succ i ih =>
      by_cases hbefore : (t.after samples i).IsTurning
      · obtain ⟨a, ha, hbegins⟩ := ih (h.goesOn hfresh.isOpen).1 hbefore
        exact ⟨a, Nat.lt_succ_of_lt ha, hbegins⟩
      · exact ⟨i, i.lt_succ_self, h, hbefore, hturning⟩

/-- The end of a turn is a pending test's only way to a result. -/
theorem result_cases (hfresh : Fresh board t) {found : ElectricalParameters α}
    (h : (t.after samples i).completion = .done (some found)) :
    ∃ j < i, t.Pending samples j ∧ ∃ step angle travelled,
      (t.after samples j).phase = .rotation step angle travelled ∧
      t.rotationSamples + t.settleSamples ≤ step ∧
      ((t.after samples j).parameters
        (travelled + Angle.difference (samples j).2 angle)).result = some found := by
  induction i with
  | zero => cases hfresh.isOpen.pending.symm.trans h
  | succ i ih =>
      obtain ⟨hpending, hsampled⟩ | ⟨-, hsame⟩ := after_succ_cases hfresh.isOpen samples i
      · refine ⟨i, i.lt_succ_self, hpending, ?_⟩
        cases hsampled with
        | goesOn _ _ hnext =>
            rw [hnext] at h
            cases hpending.symm.trans h
        | finishes _ hphase hstep hdone =>
            obtain ⟨hrotation, hsettle⟩ := hpending.lengths_eq hfresh
            rw [hrotation, hsettle] at hstep
            exact ⟨_, _, _, hphase, hstep, Completion.done.inj (hdone.symm.trans h)⟩
        | late _ hdone => cases hdone.symm.trans h
      · rw [hsame] at h
        obtain ⟨j, hj, hresult⟩ := ih h
        exact ⟨j, Nat.lt_succ_of_lt hj, hresult⟩

/-- The number of pole pairs of a rotor that goes some way while the vector turns once, if it has
one. -/
def polePairs? (travelled : α) : Option UInt8 :=
  let count := Scalar.round (Scalar.tau / Scalar.abs travelled)
  if 1 ≤ count ∧ count ≤ 255 then some (Scalar.toUInt8 count) else none

theorem parameters_eq_map {winding : Quantity .ohm α × Quantity .millihenry α}
    (hwinding : t.winding = some winding) (travelled : α) :
    (t.parameters travelled).result =
      (polePairs? travelled).map fun count => ⟨winding.1, winding.2, count⟩ := by
  unfold parameters polePairs?
  rw [hwinding]
  dsimp only
  split
  · rfl
  · rfl

/-- The winding that a test tells was stored when the search ended. -/
theorem exists_stores_of_done (hfresh : Fresh board t) {found : ElectricalParameters α}
    (hdone : (t.after samples i).completion = .done (some found)) :
    ∃ k < i, t.Stores samples k (found.resistance, found.inductance) := by
  obtain ⟨j, hj, hpending, step, angle, travelled, hphase, -, hresult⟩ := result_cases hfresh hdone
  have hpast : ¬ (t.after samples j).IsSearching := by
    rintro ⟨count, current, voltage, hsearch⟩
    cases hphase.symm.trans hsearch
  obtain ⟨k, hk, winding, hstores, hwinding⟩ := hpending.exists_stores hfresh hpast
  rw [parameters_eq_map hwinding, Option.map_eq_some_iff] at hresult
  obtain ⟨count, -, rfl⟩ := hresult
  exact ⟨k, Nat.lt_trans hk hj, hstores⟩

end Run

end ElectricalTest

end MotorControl
