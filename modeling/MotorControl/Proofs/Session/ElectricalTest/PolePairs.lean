/-
The number of pole pairs that an electrical test tells.

While the vector turns once, the test adds up how far the rotor went from each reading
of the encoder to the next.  In exact arithmetic the sum is the true way of the rotor as
long as the rotor moves less than half a turn between two samples, however often the
readings cross the seam, and a whole turn over that way, rounded, is the number of pole
pairs.

The invariant is `BeginsTurn.travelled`: it starts with the first sample of the turn and
is carried forward by each later one.  The winding is traced back to the sample that has
found it by `Pending.winding_cases`.
-/
import MotorControl.Proofs.Exact.Angle
import MotorControl.Proofs.Session.ElectricalTest.FirstAnswer
import MotorControl.Proofs.Session.ElectricalTest.Turn

namespace MotorControl

namespace ElectricalTest

open Real

variable {board : Board} {t : ElectricalTest ℝ} {samples : ℕ → Phases ℝ × ℝ} {angle : ℕ → ℝ}

/-! ### The way of the rotor -/

/-- The encoder reads the angle of the rotor at each sample, and the rotor moves less than half a
turn between two of them. -/
structure Follows (samples : ℕ → Phases ℝ × ℝ) (angle : ℕ → ℝ) : Prop where
  reads (i : ℕ) : Angle.Reads (samples i).2 (angle i)
  slow (i : ℕ) : |angle (i + 1) - angle i| < π

/-- One more sample adds the way that the rotor has gone since the one before. -/
theorem Follows.add_difference (h : Follows samples angle) (i : ℕ) (start : ℝ) :
    angle i - start + Angle.difference (samples (i + 1)).2 (samples i).2 =
      angle (i + 1) - start := by
  rw [Angle.difference_of_reads (h.reads i) (h.reads (i + 1)) (h.slow i), sub_add_sub_cancel']

/-- At each sample of a turn the test has added up the way of the rotor since the first one. -/
theorem BeginsTurn.travelled (hfresh : Fresh board t) (hfollows : Follows samples angle)
    {a i : ℕ} (ha : t.BeginsTurn samples a) (hai : a ≤ i) (hpending : t.Pending samples (i + 1)) :
    i - a + 1 ≤ t.turnSamples ∧ (t.after samples (i + 1)).phase =
      .rotation (.ofNat (i - a + 1)) (samples i).2 (angle i - angle a) := by
  induction i, hai using Nat.le_induction with
  | base =>
      rw [ha.phase_eq hfresh.isOpen, Nat.sub_self, sub_self, Exact.zero_eq]
      exact ⟨Nat.le_max_left _ _, rfl⟩
  | succ i hai ih =>
      obtain ⟨hbefore, model, phase, winding, honward, hnext⟩ := hpending.goesOn hfresh.isOpen
      obtain ⟨hi, hphase⟩ := ih hbefore
      rw [Nat.sub_add_comm hai]
      cases honward with
      | searches h | finds h | holds h | begins h => cases hphase.symm.trans h
      | turns h hstep =>
          cases hphase.symm.trans h
          obtain ⟨hrotation, hsettle⟩ := hbefore.lengths_eq hfresh
          rw [hrotation, hsettle, isLast_iff hi] at hstep
          rw [hnext, hfollows.add_difference, ← ofNat_succ]
          exact ⟨by omega, rfl⟩

/-- The step of a turn tells whether the next sample is the last one, and what that adds up to. -/
theorem BeginsTurn.last (hfresh : Fresh board t) (hfollows : Follows samples angle) {a i : ℕ}
    (ha : t.BeginsTurn samples a) (hai : a < i) (hpending : t.Pending samples i)
    {step : UInt32} {reading travelled : ℝ}
    (hphase : (t.after samples i).phase = .rotation step reading travelled) :
    (t.rotationSamples + t.settleSamples ≤ step ↔ i = a + t.turnSamples) ∧
      travelled + Angle.difference (samples i).2 reading = angle i - angle a := by
  obtain ⟨i, rfl⟩ := Nat.exists_eq_succ_of_ne_zero (Nat.ne_zero_of_lt hai)
  obtain ⟨hi, hturning⟩ := ha.travelled hfresh hfollows (Nat.le_of_lt_succ hai) hpending
  cases hturning.symm.trans hphase
  rw [isLast_iff hi]
  exact ⟨by omega, hfollows.add_difference i (angle a)⟩

/-- None of the first `n` samples comes after the time of the session. -/
def HasTimeFor (t : ElectricalTest ℝ) (n : ℕ) : Prop :=
  ∀ i ≤ n, UInt32.ofNat i ≤ t.timeoutSamples

theorem HasTimeFor.not_late (hfresh : Fresh board t) {n i : ℕ} (h : t.HasTimeFor n)
    (hin : i + 1 ≤ n) (hpending : t.Pending samples i) :
    ¬ (t.after samples i).timeoutSamples < (t.after samples i).elapsed + 1 := by
  rw [hpending.late_iff hfresh]
  exact UInt32.not_lt.2 (h (i + 1) hin)

/-- With time enough, the test is pending until the last sample of the turn. -/
theorem BeginsTurn.pending (hfresh : Fresh board t) (hfollows : Follows samples angle) {a i : ℕ}
    (ha : t.BeginsTurn samples a) (htime : t.HasTimeFor (a + t.turnSamples)) (hai : a < i)
    (hi : i ≤ a + t.turnSamples) : t.Pending samples i := by
  induction i, hai using Nat.le_induction with
  | base => exact ha.1
  | succ i hai ih =>
      have hnow := ih (by omega)
      obtain ⟨-, hsampled⟩ | ⟨hnot, -⟩ := after_succ_cases hfresh.isOpen samples i
      · cases hsampled with
        | goesOn _ _ hnext => exact hnow.succ hnext
        | finishes _ hphase hstep =>
            obtain ⟨hrotation, hsettle⟩ := hnow.lengths_eq hfresh
            rw [hrotation, hsettle, (ha.last hfresh hfollows hai hnow hphase).1] at hstep
            omega
        | late hlate => exact absurd hlate (htime.not_late hfresh hi hnow)
      · exact absurd hnow hnot

/-- The last sample of the turn ends the test with what is known of the motor then. -/
theorem BeginsTurn.finishes (hfresh : Fresh board t) (hfollows : Follows samples angle) {a : ℕ}
    (ha : t.BeginsTurn samples a) (htime : t.HasTimeFor (a + t.turnSamples + 1)) :
    (t.after samples (a + t.turnSamples + 1)).completion =
      .done ((t.after samples (a + t.turnSamples)).parameters
        (angle (a + t.turnSamples) - angle a)).result := by
  have hone : 1 ≤ t.turnSamples := Nat.le_max_left _ _
  have hnow := ha.pending hfresh hfollows (i := a + t.turnSamples)
    (fun i hi => htime i (Nat.le_succ_of_le hi)) (by omega) le_rfl
  obtain ⟨-, hsampled⟩ | ⟨hnot, -⟩ := after_succ_cases hfresh.isOpen samples (a + t.turnSamples)
  · cases hsampled with
    | goesOn _ _ hnext =>
        -- A turn has no more steps than samples.
        have := (ha.travelled hfresh hfollows (by omega) (hnow.succ hnext)).1
        omega
    | finishes _ hphase _ hdone =>
        rw [hdone, (ha.last hfresh hfollows (by omega) hnow hphase).2]
    | late hlate => exact absurd hlate (htime.not_late hfresh le_rfl hnow)
  · exact absurd hnow hnot

/-! ### The winding -/

/-- The sample `k` ends the search and stores a winding, whose values are above zero. -/
structure EndsSearch (t : ElectricalTest ℝ) (samples : ℕ → Phases ℝ × ℝ) (k : ℕ)
    (winding : Quantity .ohm ℝ × Quantity .millihenry ℝ) : Prop where
  searching : ∃ count current voltage,
    (t.after samples k).phase = .winding count current voltage
  settles : (t.after samples (k + 1)).phase = .settle t.settleSamples
  stored : (t.after samples (k + 1)).winding = some winding
  resistance_pos : 0 < winding.1.value
  inductance_pos : 0 < winding.2.value

theorem Stores.endsSearch {k : ℕ} {winding : Quantity .ohm ℝ × Quantity .millihenry ℝ}
    (h : t.Stores samples k winding) : t.EndsSearch samples k winding := by
  obtain ⟨-, hsearching, hsettles, hstored, resistance, inductance, hresistance, hinductance, rfl⟩ := h
  rw [Exact.zero_eq] at hresistance hinductance
  exact ⟨hsearching, hsettles, hstored, hresistance, mul_pos hinductance (by norm_num)⟩

/-- A pending test searches, or knows what the search has stored. -/
theorem Pending.winding_cases (hfresh : Fresh board t) {i : ℕ} (h : t.Pending samples i) :
    (∃ count current voltage, (t.after samples i).phase = .winding count current voltage) ∨
      ∃ k < i, ∃ winding, t.EndsSearch samples k winding ∧
        (t.after samples i).winding = some winding := by
  by_cases hsearch : (t.after samples i).IsSearching
  · exact .inl hsearch
  · obtain ⟨k, hk, winding, hstores, hwinding⟩ := h.exists_stores hfresh hsearch
    exact .inr ⟨k, hk, winding, hstores.endsSearch, hwinding⟩

/-- The turn begins after the search. -/
theorem BeginsTurn.winding_eq (hfresh : Fresh board t) (hfollows : Follows samples angle) {a i : ℕ}
    (ha : t.BeginsTurn samples a) (hai : a < i) (hpending : t.Pending samples i) :
    ∃ k < a, ∃ winding, t.EndsSearch samples k winding ∧
      (t.after samples i).winding = some winding := by
  -- From its first sample on, the turn is the phase of every pending test.
  have turning {i : ℕ} (hai : a ≤ i) (hpending : t.Pending samples (i + 1)) :=
    (ha.travelled hfresh hfollows hai hpending).2
  obtain ⟨i, rfl⟩ := Nat.exists_eq_succ_of_ne_zero (Nat.ne_zero_of_lt hai)
  obtain ⟨_, _, _, hsearch⟩ | ⟨k, hk, winding, hends, hwinding⟩ := hpending.winding_cases hfresh
  · cases (turning (Nat.le_of_lt_succ hai) hpending).symm.trans hsearch
  · refine ⟨k, Nat.lt_of_not_le fun hak => ?_, winding, hends, hwinding⟩
    cases (turning hak (hpending.of_le hfresh.isOpen hk)).symm.trans hends.settles

/-! ### What the way tells -/

/-- What is told of a motor with a winding whose rotor goes some way while the vector turns once. -/
structure Conclusion (winding : Quantity .ohm ℝ × Quantity .millihenry ℝ) (way : ℝ)
    (found : Option (ElectricalParameters ℝ)) : Prop where
  /-- A number of pole pairs is told if and only if it is the nearest one to a whole turn over the
  way, and the winding is told with it. -/
  some_iff (p : ElectricalParameters ℝ) : found = some p ↔
    (p.resistance, p.inductance) = winding ∧ 1 ≤ p.polePairs.toNat ∧
      p.polePairs.toNat - 1 / 2 ≤ 2 * π / |way| ∧ 2 * π / |way| < p.polePairs.toNat + 1 / 2
  /-- Nothing is told of a rotor that stayed where it was, or went too far or not far enough. -/
  none_iff : found = none ↔ way = 0 ∨ 2 * π / |way| < 1 / 2 ∨ 255 + 1 / 2 ≤ 2 * π / |way|

/-- The number of pole pairs is rounded to an integer and must be one that a byte holds. -/
theorem parameters_eq {resistance : Quantity .ohm ℝ} {inductance : Quantity .millihenry ℝ}
    (hwinding : t.winding = some (resistance, inductance)) (way : ℝ) :
    (t.parameters way).result =
      if 1 ≤ Exact.round (2 * π / |way|) ∧ Exact.round (2 * π / |way|) ≤ 255 then
        some ⟨resistance, inductance, .ofNat (Exact.round (2 * π / |way|)).toNat⟩
      else none := by
  have hround : Scalar.round (Scalar.tau / Scalar.abs way) =
      ((Exact.round (2 * π / |way|) : ℤ) : ℝ) := rfl
  unfold parameters
  rw [hwinding]
  dsimp only
  rw [hround, Exact.one_eq]
  generalize Exact.round (2 * π / |way|) = count
  by_cases hcount : 1 ≤ count ∧ count ≤ 255
  · have hbyte : 1 ≤ (count : ℝ) ∧ (count : ℝ) ≤ 255 := by exact_mod_cast hcount
    have hnat : (count : ℝ) = (count.toNat : ℕ) := by
      exact_mod_cast (Int.toNat_of_nonneg (by omega)).symm
    refine (congrArg Traced.result (if_pos hbyte)).trans ?_
    rw [if_pos hcount, hnat, Exact.toUInt8_natCast (by omega)]
    rfl
  · have hbyte : ¬ (1 ≤ (count : ℝ) ∧ (count : ℝ) ≤ 255) := by exact_mod_cast hcount
    refine (congrArg Traced.result (if_neg hbyte)).trans ?_
    rw [if_neg hcount]
    rfl

theorem parameters_eq_some_iff {winding : Quantity .ohm ℝ × Quantity .millihenry ℝ}
    (hwinding : t.winding = some winding) (way : ℝ) (p : ElectricalParameters ℝ) :
    (t.parameters way).result = some p ↔ (p.resistance, p.inductance) = winding ∧
      1 ≤ p.polePairs.toNat ∧ Exact.round (2 * π / |way|) = p.polePairs.toNat := by
  obtain ⟨resistance, inductance⟩ := winding
  rw [parameters_eq hwinding]
  generalize Exact.round (2 * π / |way|) = count
  constructor
  · intro h
    split at h
    · cases h
      rw [UInt8.toNat_ofNat_of_lt' (by simp only [UInt8.size]; omega)]
      exact ⟨rfl, by omega, by omega⟩
    · cases h
  · obtain ⟨r, l, polePairs⟩ := p
    rintro ⟨hsame, hpos, rfl⟩
    cases hsame
    have hbyte := polePairs.toNat_lt
    have hwithin : 1 ≤ (polePairs.toNat : ℤ) ∧ (polePairs.toNat : ℤ) ≤ 255 := by
      dsimp only at hpos
      omega
    rw [if_pos hwithin, Int.toNat_natCast, UInt8.ofNat_toNat]

theorem parameters_eq_none_iff {winding : Quantity .ohm ℝ × Quantity .millihenry ℝ}
    (hwinding : t.winding = some winding) (way : ℝ) :
    (t.parameters way).result = none ↔
      Exact.round (2 * π / |way|) < 1 ∨ 255 < Exact.round (2 * π / |way|) := by
  rw [parameters_eq hwinding]
  split
  · simp only [reduceCtorEq, false_iff]
    omega
  · simp only [true_iff]
    omega

theorem conclusion_of_winding {winding : Quantity .ohm ℝ × Quantity .millihenry ℝ}
    (hwinding : t.winding = some winding) (way : ℝ) :
    Conclusion winding way (t.parameters way).result := by
  have hturn : 0 ≤ 2 * π / |way| := div_nonneg (by linarith [pi_pos]) (abs_nonneg way)
  constructor
  · intro p
    rw [parameters_eq_some_iff hwinding, Exact.round_eq_iff hturn, Int.cast_natCast]
  · have hfew : Exact.round (2 * π / |way|) < 1 ↔ 2 * π / |way| < 1 / 2 := by
      rw [← not_le, Exact.le_round_iff hturn, not_le, Int.cast_one]
      norm_num
    have hmany : 255 < Exact.round (2 * π / |way|) ↔ 255 + 1 / 2 ≤ 2 * π / |way| := by
      rw [← Int.add_one_le_iff, Exact.le_round_iff hturn]
      norm_num
    -- A turn over no way at all is zero here, which is no number of pole pairs either.
    have hstill : way = 0 → 2 * π / |way| < 1 / 2 := by
      rintro rfl
      rw [abs_zero, div_zero]
      norm_num
    rw [parameters_eq_none_iff hwinding, hfew, hmany]
    exact ⟨.inr, fun h => h.elim (fun h => .inl (hstill h)) id⟩

/-! ### The whole of it -/

/-- What a test tells of a rotor that is at `angle i` when the sample `i` is taken. -/
structure CountsPolePairs (t : ElectricalTest ℝ) (samples : ℕ → Phases ℝ × ℝ) (angle : ℕ → ℝ) :
    Prop where
  /-- While the vector turns, what was added up is the way of the rotor since the first sample of
  the turn. -/
  travelled (a i : ℕ) (ha : t.BeginsTurn samples a) (hai : a ≤ i)
    (hpending : t.Pending samples (i + 1)) :
    ∃ step, (t.after samples (i + 1)).phase = .rotation step (samples i).2 (angle i - angle a)
  /-- Unless its time ends before, the test ends with the last sample of the turn, and with a
  conclusion on the winding that the search has found and on the way of the rotor from the first
  sample of the turn to the last. -/
  finished (a : ℕ) (ha : t.BeginsTurn samples a)
    (htime : t.HasTimeFor (a + t.turnSamples + 1)) :
    (∀ i ≤ a + t.turnSamples, t.Pending samples i) ∧
    ∃ k < a, ∃ winding, t.EndsSearch samples k winding ∧ ∃ found,
      ((t.after samples (a + t.turnSamples)).parameters
        (angle (a + t.turnSamples) - angle a)).result = found ∧
      Conclusion winding (angle (a + t.turnSamples) - angle a) found ∧
      (t.after samples (a + t.turnSamples + 1)).completion = .done found
  /-- A result that a test has come to is such a conclusion. -/
  reported (i : ℕ) (found : ElectricalParameters ℝ)
    (hdone : (t.after samples i).completion = .done (some found)) :
    ∃ k a, k < a ∧ a + t.turnSamples < i ∧ t.BeginsTurn samples a ∧
      t.EndsSearch samples k (found.resistance, found.inductance) ∧
      Conclusion (found.resistance, found.inductance) (angle (a + t.turnSamples) - angle a)
        (some found)

theorem Fresh.countsPolePairs (hfresh : Fresh board t) (hfollows : Follows samples angle) :
    CountsPolePairs t samples angle where
  travelled a i ha hai hpending := ⟨_, (ha.travelled hfresh hfollows hai hpending).2⟩
  finished a ha htime := by
    have hone : 1 ≤ t.turnSamples := Nat.le_max_left _ _
    have hlast : t.Pending samples (a + t.turnSamples) :=
      ha.pending hfresh hfollows (fun i hi => htime i (Nat.le_succ_of_le hi)) (by omega) le_rfl
    obtain ⟨k, hk, winding, hends, hwinding⟩ :=
      ha.winding_eq hfresh hfollows (by omega : a < a + t.turnSamples) hlast
    exact ⟨fun i hi => hlast.of_le hfresh.isOpen hi, k, hk, winding, hends, _, rfl,
      conclusion_of_winding hwinding _, ha.finishes hfresh hfollows htime⟩
  reported i found hdone := by
    obtain ⟨j, hj, hpending, step, reading, travelled, hphase, hstep, hresult⟩ :=
      result_cases hfresh hdone
    obtain ⟨a, haj, ha⟩ := hpending.exists_beginsTurn hfresh ⟨_, _, _, hphase⟩
    obtain ⟨hend, hway⟩ := ha.last hfresh hfollows haj hpending hphase
    obtain ⟨k, hk, winding, hends, hwinding⟩ := ha.winding_eq hfresh hfollows haj hpending
    have hconclusion := conclusion_of_winding hwinding (angle j - angle a)
    rw [hway] at hresult
    rw [hresult] at hconclusion
    obtain ⟨rfl, -⟩ := (hconclusion.some_iff found).1 rfl
    obtain rfl := hend.1 hstep
    exact ⟨k, a, hk, hj, ha, hends, hconclusion⟩

/-- Whatever was read, the winding that a test tells is the one that the search has found. -/
theorem endsSearch_of_done (hfresh : Fresh board t) {i : ℕ} {found : ElectricalParameters ℝ}
    (hdone : (t.after samples i).completion = .done (some found)) :
    ∃ k < i, t.EndsSearch samples k (found.resistance, found.inductance) := by
  obtain ⟨k, hk, hstores⟩ := exists_stores_of_done hfresh hdone
  exact ⟨k, hk, hstores.endsSearch⟩

/--
**A slow rotor is counted exactly.**  However often the readings of the encoder cross the seam, what
an electrical test adds up while the vector turns is the way of a rotor that moves less than half a
turn between two samples, and the test tells the number of pole pairs that is nearest to a whole
turn over that way, or nothing if no number of pole pairs is.  Whatever is read, a result has the
resistance and the inductance that ended the search, and these are above zero.
-/
theorem countsPolePairs_of_begin {vdc : Quantity .volt ℝ} {config : Config ℝ}
    {begun : Traced ℝ (ElectricalTest ℝ)} (h : begin board vdc config = .ok begun)
    (samples : ℕ → Phases ℝ × ℝ) :
    (∀ angle, Follows samples angle → CountsPolePairs begun.result samples angle) ∧
    ∀ i found, (begun.result.after samples i).completion = .done (some found) →
      0 < found.resistance.value ∧ 0 < found.inductance.value ∧
        ∃ k < i, begun.result.EndsSearch samples k (found.resistance, found.inductance) := by
  obtain ⟨hfresh, -⟩ := fresh_of_begin h
  refine ⟨fun angle hfollows => hfresh.countsPolePairs hfollows, ?_⟩
  intro i found hdone
  obtain ⟨k, hk, hends⟩ := endsSearch_of_done hfresh hdone
  exact ⟨hends.resistance_pos, hends.inductance_pos, k, hk, hends⟩

/-- A configuration that is content with any fit, and whose turn takes one sample. -/
noncomputable def Config.hasty : Config ℝ where
  testVoltage := 2
  halfPeriod := 10
  rotationVoltage := 1
  settleTime := 0
  rotationTime := 0
  timeout := 1
  forgetting := 1 / 2
  innovationBound := 10
  uncertaintyBound := 3001

/-- A rotor that makes a quarter of a turn with each sample. -/
noncomputable def quarters (i : ℕ) : ℝ := i * (π / 2) - 3 * π / 4

/-- The samples of that rotor, with a current that rises. -/
noncomputable def quarterSamples (i : ℕ) : Phases ℝ × ℝ := (⟨i, 0, 0⟩, Angle.wrap (quarters i))

theorem quarters_follows : Follows quarterSamples quarters where
  reads i := Angle.reads_wrap (quarters i)
  slow i := by
    have hstep : quarters (i + 1) - quarters i = π / 2 := by
      simp only [quarters]
      push_cast
      ring
    rw [hstep, abs_of_pos (by linarith [pi_pos])]
    linarith [pi_pos]

/-- The readings cross the seam once while the vector turns. -/
theorem quarters_cross_seam :
    (quarterSamples 3).2 = 3 * π / 4 ∧ (quarterSamples 4).2 = -(3 * π / 4) := by
  have hpi := pi_pos
  constructor
  · refine Angle.wrap_eq_of_reads ⟨?_, 0, ?_⟩ (by linarith)
    · rw [abs_of_pos (by linarith)]
      linarith
    · rw [quarters]
      push_cast
      ring
  · refine Angle.wrap_eq_of_reads ⟨?_, 1, ?_⟩ (by linarith)
    · rw [abs_neg, abs_of_pos (by linarith)]
      linarith
    · rw [quarters]
      push_cast
      ring

/-- The search of a hasty test ends with its second sample, and the turn begins with its fourth. -/
theorem hasty_beginsTurn : ∃ begun : Traced ℝ (ElectricalTest ℝ),
    begin ⟨⟨1000⟩⟩ ⟨3⟩ .hasty = .ok begun ∧ begun.result.BeginsTurn quarterSamples 3 ∧
      begun.result.turnSamples = 2 ∧ begun.result.timeoutSamples = 1000 := by
  have hepsilon : (Scalar.epsilon : ℝ) < Config.hasty.forgetting := by
    rw [Exact.epsilon_eq, Config.hasty]
    norm_num
  have hone : Config.hasty.forgetting < 1 := by
    rw [Config.hasty]
    norm_num
  obtain ⟨begun, hbegun, hregular, hreset, hseed⟩ := exists_begun ⟨⟨1000⟩⟩ ⟨3⟩ hepsilon hone
  obtain ⟨hfresh, hconfigured⟩ := fresh_of_begin hbegun
  have hsettle : begun.result.settleSamples = 1 :=
    hconfigured.settle_eq.trans
      (Hertz.samplesIn_of_mul_eq (n := 0) (by simp [Config.hasty]) (by decide))
  have hrotation : begun.result.rotationSamples = 1 :=
    hconfigured.rotation_eq.trans
      (Hertz.samplesIn_of_mul_eq (n := 0) (by simp [Config.hasty]) (by decide))
  have htimeout : begun.result.timeoutSamples = 1000 :=
    hconfigured.timeout_eq.trans
      (Hertz.samplesIn_of_mul_eq (n := 1000) (by simp [Config.hasty]) (by decide))
  have hcount : begun.result.Countable := by
    constructor
    · rw [hrotation, hsettle]
      decide
    · rw [htimeout]
      decide
  have hvoltage : (appliedVoltage (begun.result.wave 1) begun.result.vdc).alpha = 2 := by
    have hwave : begun.result.wave 1 = alongAxis (2 : ℝ) := by
      rw [wave, if_pos (by simp), hconfigured.config_eq, Config.hasty]
    rw [hwave, hconfigured.vdc_eq, alpha_saturated le_rfl]
    norm_num
  have hfinds : begun.result.FirstFinds quarterSamples 2 := by
    have hbound : begun.result.config.innovationBound = 10 := by
      rw [hconfigured.config_eq, Config.hasty]
    have hcurrent (i : ℕ) : current quarterSamples (i + 1) = 2 / 3 * i := by
      show (2 * (i : ℝ) - 0 - 0) / 3 = 2 / 3 * i
      ring
    have hwide : begun.result.model.seed * 3 < begun.result.config.uncertaintyBound := by
      rw [hconfigured.config_eq, hseed, Config.hasty]
      norm_num
    refine firstFinds_two ?_ ?_ ?_ ?_ ?_ ?_ ?_ ?_
    · exact hregular
    · exact hreset
    · rw [hconfigured.frequency_eq]
      show (0 : ℝ) < ((1000 : ℕ) : ℝ)
      norm_num
    · rw [hvoltage]
      norm_num
    · rw [hvoltage, hbound]
      norm_num
    · exact hwide
    · rw [hcurrent 0]
      norm_num
    · rw [hcurrent 0, hcurrent 1]
      norm_num
  refine ⟨begun, hbegun, ?_, ?_, htimeout⟩
  · have hturn := hfinds.beginsTurn hfresh hcount (by rw [hsettle, htimeout]; decide)
    rwa [hsettle] at hturn
  · rw [turnSamples, hrotation, hsettle]
    rfl

/-- The rotor makes half a turn across the seam, so two pole pairs are told. -/
theorem counts_two_pole_pairs : ∃ begun : Traced ℝ (ElectricalTest ℝ),
    begin ⟨⟨1000⟩⟩ ⟨3⟩ .hasty = .ok begun ∧ Follows quarterSamples quarters ∧
      CountsPolePairs begun.result quarterSamples quarters ∧
      begun.result.BeginsTurn quarterSamples 3 ∧ (quarterSamples 4).2 < (quarterSamples 3).2 ∧
      ∃ found, (begun.result.after quarterSamples 6).completion = .done (some found) ∧
        found.polePairs = 2 ∧ 0 < found.resistance.value ∧ 0 < found.inductance.value := by
  obtain ⟨begun, hbegun, hturn, hlength, htimeout⟩ := hasty_beginsTurn
  obtain ⟨hslow, hreported⟩ := countsPolePairs_of_begin hbegun quarterSamples
  have hcounts := hslow quarters quarters_follows
  have hseam : (quarterSamples 4).2 < (quarterSamples 3).2 := by
    obtain ⟨hthree, hfour⟩ := quarters_cross_seam
    linarith [pi_pos]
  refine ⟨begun, hbegun, quarters_follows, hcounts, hturn, hseam, ?_⟩
  have htime : begun.result.HasTimeFor (3 + begun.result.turnSamples + 1) := by
    intro i hi
    rw [hlength] at hi
    have hword : i < UInt32.size := Nat.lt_of_le_of_lt hi (by decide)
    rw [htimeout, UInt32.le_iff_toNat_le, UInt32.toNat_ofNat_of_lt' hword]
    exact hi.trans (by decide)
  obtain ⟨-, k, -, winding, -, found, -, hconclusion, hdone⟩ := hcounts.finished 3 hturn htime
  have hway : quarters (3 + begun.result.turnSamples) - quarters 3 = π := by
    rw [hlength, quarters, quarters]
    push_cast
    ring
  have hratio : 2 * π / |π| = 2 := by
    rw [abs_of_pos pi_pos, mul_div_cancel_right₀ _ pi_ne_zero]
  have htwo : found = some ⟨winding.1, winding.2, 2⟩ := by
    rw [hconclusion.some_iff, hway, hratio]
    have hbyte : ((2 : UInt8).toNat : ℝ) = 2 := rfl
    refine ⟨rfl, Nat.le_succ 1, ?_, ?_⟩
    · rw [hbyte]
      norm_num
    · rw [hbyte]
      norm_num
  rw [htwo, hlength] at hdone
  obtain ⟨hresistance, hinductance, -⟩ := hreported 6 _ hdone
  exact ⟨_, hdone, rfl, hresistance, hinductance⟩

end ElectricalTest

end MotorControl
