/-
Which voltage a current answers to.

A current is the answer to the voltage that was put out after the sample before, so the
fit is given each current together with a voltage that is one sample older.  Both wait in
the phase for the next sample.  `answered` says what the fit should have been given, from
the currents and from the duties that the bridge was in fact told; `searching_standing` is
the invariant that the test holds this fit, and in its phase the last of these pairs, as
long as it searches.

The samples are counted in a word.  Whenever the count stands at zero the sample answers
to nothing, which is at the first sample, and again each time the word has run over.
-/
import MotorControl.Proofs.Session.ElectricalTest.Turn

namespace MotorControl

namespace ElectricalTest

variable {α : Type} [Scalar α] {board : Board} {t : ElectricalTest α}
  {samples : ℕ → Phases α × α}

/-- The fit after `n` samples, given the duties that were put out after each of them.  A current is
fitted to the voltage of the duties before it, as the bridge rounds them. -/
def answered (t : ElectricalTest α) (samples : ℕ → Phases α × α) (outputs : ℕ → Duties) :
    ℕ → LeastSquares α 3
  | 0 => t.model
  | n + 1 =>
    if UInt32.size ∣ n then answered t samples outputs n
    else
      let x := regressor (0.5 * (current samples (n + 1) + current samples n))
        ((current samples (n + 1) - current samples n) * t.frequency) 1
      let y := (appliedVoltage (outputs n) t.vdc).alpha
      ((answered t samples outputs n).update x y).result.2

/-- The square wave after the `n`th sample, by the count that the test keeps. -/
def output (t : ElectricalTest α) (n : ℕ) : Duties := t.squareWave (.ofNat (n - 1))

/-- What waits for the next sample after `n` samples of the search. -/
def searchPhase (t : ElectricalTest α) (samples : ℕ → Phases α × α) : ℕ → Phase α
  | 0 => .winding 0 0 0
  | n + 1 => .winding (.ofNat (n + 1)) (current samples (n + 1))
      (appliedVoltage (t.output (n + 1)) t.vdc).alpha

/-- The test after `n` samples of the search. -/
def searching (t : ElectricalTest α) (samples : ℕ → Phases α × α) (n : ℕ) : ElectricalTest α :=
  t.standing n (t.answered samples t.output n) (t.searchPhase samples n) t.winding

theorem ofNat_pos_iff (n : ℕ) : 0 < UInt32.ofNat n ↔ ¬ UInt32.size ∣ n := by
  rw [UInt32.lt_iff_toNat_lt, Nat.dvd_iff_mod_eq_zero]
  exact Nat.pos_iff_ne_zero

/-! ### One sample of the search -/

/-- A sample of the search is fitted to what has waited for it. -/
theorem advance_searching (t : ElectricalTest α) (samples : ℕ → Phases α × α) (n : ℕ)
    (position : α) :
    ∃ found, ((t.standing (n + 1) (t.answered samples t.output n) (t.searchPhase samples n)
        t.winding).advance (samples n).1 position).result =
      ((t.standing (n + 1) (t.answered samples t.output (n + 1)) (t.searchPhase samples n)
        t.winding).answer (samples n).1 (.ofNat n) found).result := by
  rw [answered]
  cases n with
  | zero =>
      rw [if_pos (Nat.dvd_zero _)]
      exact ⟨none, rfl⟩
  | succ n =>
      show ∃ found, (windingStep _ _ (.ofNat (n + 1)) _ _).result = _
      rw [windingStep_eq, Traced.bind_result]
      by_cases hzero : UInt32.size ∣ n + 1
      · rw [if_pos hzero, if_neg ((ofNat_pos_iff _).not_left.2 hzero)]
        exact ⟨none, rfl⟩
      · rw [if_neg hzero, if_pos ((ofNat_pos_iff _).2 hzero)]
        exact ⟨_, rfl⟩

/-- As long as the winding was not found, the test searches on. -/
theorem answer_none (t : ElectricalTest α) (samples : ℕ → Phases α × α) (n : ℕ) :
    ((t.standing (n + 1) (t.answered samples t.output (n + 1)) (t.searchPhase samples n)
        t.winding).answer (samples n).1 (.ofNat n) none).result =
      (.output (t.output (n + 1)), t.searching samples (n + 1)) := by
  rw [searching, searchPhase, ofNat_succ]
  rfl

/-! ### The run -/

/-- The test holds the fit that it should hold, and has put the square wave out. -/
theorem Pending.searching_eq (hfresh : Fresh board t) {n : ℕ} (h : t.Pending samples n)
    (hsearch : (t.after samples n).IsSearching) :
    t.after samples n = t.searching samples n ∧
      ∀ m, 0 < m → m ≤ n → t.asked samples m = [.read, .pwm (t.output m)] := by
  induction n with
  | zero =>
      refine ⟨?_, fun m hpos hm => absurd hm (Nat.not_le.2 hpos)⟩
      show t = { t with phase := .winding 0 0 0, elapsed := 0 }
      rw [← hfresh.phase_eq, ← hfresh.elapsed_eq]
  | succ n ih =>
      obtain ⟨hnow, hasked⟩ := ih (h.goesOn hfresh.isOpen).1
        (h.isSearching_of_le hfresh.isOpen n.le_succ hsearch)
      obtain ⟨found, hadvance⟩ := advance_searching t samples n (samples n).2
      cases found with
      | some found =>
          -- A sample that has found the winding holds the vector.
          obtain ⟨count, current, voltage, hphase⟩ := hsearch
          obtain ⟨-, hnext⟩ := goesOn_of_output hfresh.isOpen hnow (h.not_late hfresh) hadvance
          rw [hnext] at hphase
          cases hphase
      | none =>
          rw [answer_none] at hadvance
          obtain ⟨hputOut, hnext⟩ :=
            goesOn_of_output hfresh.isOpen hnow (h.not_late hfresh) hadvance
          refine ⟨hnext, fun m hpos hm => ?_⟩
          obtain hlt | rfl := Nat.lt_or_eq_of_le hm
          · exact hasked m hpos (Nat.le_of_lt_succ hlt)
          · exact hputOut

/-- After each sample of the search, also after the one that finds the winding, the fit has been
given every current with the voltage that it answers to. -/
theorem Pending.model_eq (hfresh : Fresh board t) {n : ℕ} (h : t.Pending samples (n + 1))
    (hsearch : (t.after samples n).IsSearching) :
    ∃ outputs : ℕ → Duties,
      (∀ m, 0 < m → m ≤ n → t.asked samples m = [.read, .pwm (outputs m)]) ∧
      (t.after samples (n + 1)).model = t.answered samples outputs (n + 1) := by
  obtain ⟨hnow, hasked⟩ := (h.goesOn hfresh.isOpen).1.searching_eq hfresh hsearch
  refine ⟨t.output, hasked, ?_⟩
  obtain ⟨found, hadvance⟩ := advance_searching t samples n (samples n).2
  cases found with
  | none | some =>
      rw [(goesOn_of_output hfresh.isOpen hnow (h.not_late hfresh) hadvance).2]
      rfl

end ElectricalTest

end MotorControl
