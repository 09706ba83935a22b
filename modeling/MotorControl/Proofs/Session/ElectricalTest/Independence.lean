/-
What the two results of an electrical test depend on.

A test has two results, the winding and the number of pole pairs, and each comes from one
side of its samples.  Two runs of one test are compared here.  As long as the square wave
is put out the encoder has no part in what happens, so with the same currents the whole
state of the test is the same, up to the sample that finds the winding and with it.  From
there on the currents have none: two runs that have found a winding with the same sample
are in step, `InStep`, whatever the windings are, and stay so if the readings of their
turns agree.
-/
import MotorControl.Proofs.Session.ElectricalTest.PolePairs
import MotorControl.Proofs.Session.ElectricalTest.Answers

namespace MotorControl

/-- What a session ends with, told in another way. -/
def Completion.map {β γ : Type} (f : β → γ) : Completion β → Completion γ
  | .pending => .pending
  | .done result => .done (result.map f)

namespace ElectricalTest

variable {α : Type} [Scalar α] {board : Board} {t : ElectricalTest α}
  {samples samples' : ℕ → Phases α × α} {k : ℕ}
  {winding winding' : Quantity .ohm α × Quantity .millihenry α}

/-! ### The search -/

/-- The encoder has no part in a sample of the search. -/
theorem sample_of_isSearching (hdrive : t.drive = ⟨board, true⟩) (h : t.IsSearching)
    (currents : Phases α) (position position' : α) :
    t.sample currents position = t.sample currents position' := by
  obtain ⟨count, current, voltage, hphase⟩ := h
  have hadvance : t.counted.advance currents position = t.counted.advance currents position' := by
    rw [advance, advance, show t.counted.phase = _ from hphase]
  rw [sample_eq hdrive, sample_eq hdrive, judge, judge, hadvance]

namespace Stores

/-- With the same currents the search goes the same way, whatever is read. -/
theorem after_eq (hfresh : Fresh board t) (h : t.Stores samples k winding)
    (hcurrents : ∀ i ≤ k, (samples i).1 = (samples' i).1) {i : ℕ} (hi : i ≤ k + 1) :
    t.after samples' i = t.after samples i := by
  have hbefore := (h.pending.goesOn hfresh.isOpen).1
  induction i with
  | zero => rfl
  | succ i ih =>
      have hpending := hbefore.of_le hfresh.isOpen (Nat.le_of_succ_le_succ hi)
      have hsearch := hbefore.isSearching_of_le hfresh.isOpen (Nat.le_of_succ_le_succ hi) h.searching
      rw [after_succ, after_succ, ih (by omega), ← hcurrents i (by omega),
        sample_of_isSearching (hpending.drive_eq hfresh) hsearch _ (samples' i).2 (samples i).2]

theorem congr (hfresh : Fresh board t) (h : t.Stores samples k winding)
    (hcurrents : ∀ i ≤ k, (samples i).1 = (samples' i).1) : t.Stores samples' k winding := by
  have hlast := h.after_eq hfresh hcurrents (Nat.le_succ k)
  have hnext := h.after_eq hfresh hcurrents le_rfl
  obtain ⟨hpending, hsearching, hsettles, hstored, hsound⟩ := h
  constructor
  · rw [Pending, hnext]
    exact hpending
  · rw [hlast]
    exact hsearching
  · rw [hnext]
    exact hsettles
  · rw [hnext]
    exact hstored
  · exact hsound

theorem not_lt (hfresh : Fresh board t) {k' : ℕ} (h : t.Stores samples k winding)
    (h' : t.Stores samples k' winding') : ¬ k < k' := by
  intro hlt
  obtain ⟨count, current, voltage, hphase⟩ :=
    (h'.pending.goesOn hfresh.isOpen).1.isSearching_of_le hfresh.isOpen hlt h'.searching
  cases h.settles.symm.trans hphase

/-- The search ends once. -/
theorem unique (hfresh : Fresh board t) {k' : ℕ} (h : t.Stores samples k winding)
    (h' : t.Stores samples k' winding') : k = k' ∧ winding = winding' := by
  obtain rfl : k = k' :=
    Nat.le_antisymm (Nat.not_lt.mp (h'.not_lt hfresh h)) (Nat.not_lt.mp (h.not_lt hfresh h'))
  exact ⟨rfl, Option.some.inj (h.stored.symm.trans h'.stored)⟩

end Stores

/-! ### Two runs in step -/

theorem polePairs_parameters (hwinding : t.winding = some winding) (travelled : α) :
    (t.parameters travelled).result.map (·.polePairs) = polePairs? travelled := by
  rw [parameters_eq_map hwinding, Option.map_map]
  exact Option.map_id'

/-- The number of pole pairs that a test tells, once it has ended. -/
def told (t : ElectricalTest α) : Completion UInt8 := t.completion.map (·.polePairs)

/-- Two runs, after `i` samples, that do the same but for the winding they have found. -/
inductive InStep (t : ElectricalTest α) (samples samples' : ℕ → Phases α × α) (i : ℕ) : Prop
  | goOn {model model' : LeastSquares α 3} {phase : Phase α}
      {winding winding' : Quantity .ohm α × Quantity .millihenry α}
      (hpast : ∀ count current voltage, phase ≠ .winding count current voltage)
      (hnow : t.after samples i = t.standing i model phase (some winding))
      (hnow' : t.after samples' i = t.standing i model' phase (some winding'))
  | ended {found found' : Option (ElectricalParameters α)}
      (hdone : (t.after samples i).completion = .done found)
      (hdone' : (t.after samples' i).completion = .done found')
      (hsame : found.map (·.polePairs) = found'.map (·.polePairs))

/-- The sample `i` belongs to the turn: the vector turns when it is taken, or begins to. -/
def OfTurn (t : ElectricalTest α) (samples : ℕ → Phases α × α) (i : ℕ) : Prop :=
  t.Pending samples i ∧
    ((t.after samples i).IsTurning ∨ (t.after samples (i + 1)).IsTurning)

theorem after_succ_of_done (hopen : Session.Open board t) {i : ℕ}
    {found : Option (ElectricalParameters α)} (hdone : (t.after samples i).completion = .done found) :
    t.after samples (i + 1) = t.after samples i := by
  obtain ⟨hpending, -⟩ | ⟨-, hsame⟩ := after_succ_cases hopen samples i
  · cases hpending.symm.trans hdone
  · exact hsame

/-- Runs in step stay so, if what the encoder reads for the turn is the same. -/
theorem InStep.succ (hfresh : Fresh board t) {i : ℕ} (h : t.InStep samples samples' i)
    (hreading : t.OfTurn samples i → (samples i).2 = (samples' i).2) :
    t.InStep samples samples' (i + 1) := by
  have hopen := hfresh.isOpen
  cases h with
  | ended hdone hdone' hsame =>
      rw [← after_succ_of_done hopen hdone] at hdone
      rw [← after_succ_of_done hopen hdone'] at hdone'
      exact .ended hdone hdone' hsame
  | @goOn model model' phase winding winding' hpast hnow hnow' =>
      have hpending : t.Pending samples i := by
        rw [Pending, hnow]
        exact hopen.pending
      by_cases htime : t.timeoutSamples < .ofNat (i + 1)
      · exact .ended (finishes_of_late hopen hnow htime).2 (finishes_of_late hopen hnow' htime).2 rfl
      cases phase with
      | winding count current voltage => exact absurd rfl (hpast count current voltage)
      | settle remaining =>
          by_cases hremaining : remaining = 0
          · subst hremaining
            obtain ⟨-, hnext⟩ := goesOn_of_output hopen hnow htime advance_settled
            obtain ⟨-, hnext'⟩ := goesOn_of_output hopen hnow' htime advance_settled
            rw [← hreading ⟨hpending, .inr ⟨_, _, _, by rw [hnext]; rfl⟩⟩] at hnext'
            exact .goOn (fun _ _ _ hphase => by cases hphase) hnext hnext'
          · obtain ⟨-, hnext⟩ :=
              goesOn_of_output hopen hnow htime (congrArg Traced.result (if_neg hremaining))
            obtain ⟨-, hnext'⟩ :=
              goesOn_of_output hopen hnow' htime (congrArg Traced.result (if_neg hremaining))
            exact .goOn (fun _ _ _ hphase => by cases hphase) hnext hnext'
      | rotation step angle travelled =>
          have hsame := hreading ⟨hpending, .inl ⟨_, _, _, by rw [hnow]; rfl⟩⟩
          by_cases hstep : t.rotationSamples + t.settleSamples ≤ step
          · obtain ⟨-, hdone⟩ :=
              finishes_of_finish hopen hnow htime (advance_rotated hstep angle travelled)
            obtain ⟨-, hdone'⟩ :=
              finishes_of_finish hopen hnow' htime (advance_rotated hstep angle travelled)
            refine .ended hdone hdone' ?_
            rw [polePairs_parameters rfl, polePairs_parameters rfl, hsame]
          · obtain ⟨-, hnext⟩ :=
              goesOn_of_output hopen hnow htime (advance_rotation hstep angle travelled)
            obtain ⟨-, hnext'⟩ :=
              goesOn_of_output hopen hnow' htime (advance_rotation hstep angle travelled)
            rw [← hsame] at hnext'
            exact .goOn (fun _ _ _ hphase => by cases hphase) hnext hnext'

theorem InStep.told_eq {i : ℕ} (h : t.InStep samples samples' i) :
    (t.after samples i).told = (t.after samples' i).told := by
  unfold told
  cases h with
  | goOn _ hnow hnow' =>
      rw [hnow, hnow']
      rfl
  | ended hdone hdone' hsame =>
      rw [hdone, hdone']
      exact congrArg Completion.done hsame

namespace Stores

theorem exists_standing (hfresh : Fresh board t) (h : t.Stores samples k winding) :
    ∃ model, t.after samples (k + 1) =
      t.standing (k + 1) model (.settle t.settleSamples) (some winding) := by
  obtain ⟨model, phase, found, hnow⟩ := h.pending.standing hfresh
  have hphase : phase = .settle t.settleSamples := by
    rw [← h.settles, hnow]
    rfl
  have hfound : found = some winding := by
    rw [← h.stored, hnow]
    rfl
  exact ⟨model, by rw [hnow, hphase, hfound]⟩

/-- Once the sample is fixed that ends the search, all that counts is what is read for the turn. -/
theorem told_eq (hfresh : Fresh board t) (h : t.Stores samples k winding)
    (h' : t.Stores samples' k winding')
    (hreadings : ∀ i, t.OfTurn samples i → (samples i).2 = (samples' i).2) (i : ℕ) :
    (t.after samples i).told = (t.after samples' i).told := by
  rcases Nat.le_total i (k + 1) with hi | hi
  · have hpending : t.Pending samples i := h.pending.of_le hfresh.isOpen hi
    have hpending' : t.Pending samples' i := h'.pending.of_le hfresh.isOpen hi
    rw [told, told, hpending, hpending']
  · refine InStep.told_eq ?_
    induction i, hi using Nat.le_induction with
    | base =>
        obtain ⟨model, hnow⟩ := h.exists_standing hfresh
        obtain ⟨model', hnow'⟩ := h'.exists_standing hfresh
        exact .goOn (fun _ _ _ hphase => by cases hphase) hnow hnow'
    | succ i hi ih => exact ih.succ hfresh (hreadings i)

end Stores

/-! ### The whole of it -/

/-- What the results of a test depend on. -/
structure Separates (t : ElectricalTest α) : Prop where
  /-- After each sample of the search, also after the one that ends it, the fit has been given every
  current with the voltage of the duties that were put out before it, and nothing else. -/
  fits (samples : ℕ → Phases α × α) (n : ℕ) (hpending : t.Pending samples (n + 1))
    (hsearch : (t.after samples n).IsSearching) :
    ∃ outputs : ℕ → Duties,
      (∀ m, 0 < m → m ≤ n → t.asked samples m = [.read, .pwm (outputs m)]) ∧
      (t.after samples (n + 1)).model = t.answered samples outputs (n + 1)
  /-- The sample that ends the search, and the winding that is told, are a matter of the currents up
  to that sample, whatever is read. -/
  winding (samples samples' : ℕ → Phases α × α) (k : ℕ)
    (winding : Quantity .ohm α × Quantity .millihenry α) (h : t.Stores samples k winding)
    (hcurrents : ∀ i ≤ k, (samples i).1 = (samples' i).1) :
    t.Stores samples' k winding ∧
      ∀ i found, (t.after samples' i).completion = .done (some found) →
        (found.resistance, found.inductance) = winding
  /-- No winding is told without such a sample. -/
  stored (samples : ℕ → Phases α × α) (i : ℕ) (found : ElectricalParameters α)
    (hdone : (t.after samples i).completion = .done (some found)) :
    ∃ k < i, t.Stores samples k (found.resistance, found.inductance)
  /-- Once that sample is fixed, the number of pole pairs that is told, and when, is a matter of the
  readings of the turn, whatever the currents are. -/
  polePairs (samples samples' : ℕ → Phases α × α) (k : ℕ)
    (winding winding' : Quantity .ohm α × Quantity .millihenry α)
    (h : t.Stores samples k winding) (h' : t.Stores samples' k winding')
    (hreadings : ∀ i, t.OfTurn samples i → (samples i).2 = (samples' i).2) (i : ℕ) :
    (t.after samples i).told = (t.after samples' i).told

/--
**The currents tell the winding, and the encoder tells the pole pairs.**  The fit pairs each current
with the voltage that caused it, the search is blind to the encoder, and the turn to the currents.
-/
theorem separates_of_begin {vdc : Quantity .volt α} {config : Config α}
    {begun : Traced α (ElectricalTest α)} (h : begin board vdc config = .ok begun) :
    Configured board vdc config begun.result ∧ Separates begun.result := by
  obtain ⟨hfresh, hconfigured⟩ := fresh_of_begin h
  refine ⟨hconfigured, ?_⟩
  exact {
    fits := fun samples n hpending hsearch => hpending.model_eq hfresh hsearch
    winding := fun samples samples' k winding h hcurrents =>
      have h' := h.congr hfresh hcurrents
      ⟨h', fun i found hdone =>
        have ⟨_, _, hstores⟩ := exists_stores_of_done hfresh hdone
        (hstores.unique hfresh h').2⟩
    stored := fun samples i found hdone => exists_stores_of_done hfresh hdone
    polePairs := fun samples samples' k winding winding' h h' hreadings i =>
      h.told_eq hfresh h' hreadings i }

/-- A current that rises gives the same winding if the rotor is read where it was all the time. -/
theorem hasty_separates : ∃ begun : Traced ℝ (ElectricalTest ℝ),
    begin ⟨⟨1000⟩⟩ ⟨3⟩ .hasty = .ok begun ∧ Separates begun.result ∧
      ∃ k winding, begun.result.Stores quarterSamples k winding ∧
        begun.result.Stores (fun i => ((quarterSamples i).1, (quarterSamples 0).2)) k winding := by
  obtain ⟨begun, hbegun, ⟨hpending, -, step, angle, travelled, hphase⟩, -, -⟩ := hasty_beginsTurn
  obtain ⟨-, hseparates⟩ := separates_of_begin hbegun
  have hpast : ¬ (begun.result.after quarterSamples 4).IsSearching := by
    rintro ⟨count, current, voltage, hsearch⟩
    cases hphase.symm.trans hsearch
  obtain ⟨k, -, winding, hstores, -⟩ := hpending.exists_stores (fresh_of_begin hbegun).1 hpast
  have hstill := hseparates.winding _ (fun i => ((quarterSamples i).1, (quarterSamples 0).2)) k
    winding hstores fun _ _ => rfl
  exact ⟨begun, hbegun, hseparates, k, winding, hstores, hstill.1⟩

end ElectricalTest

end MotorControl
