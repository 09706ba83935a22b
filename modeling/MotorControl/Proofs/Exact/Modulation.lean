/-
Space vector modulation in exact arithmetic.

A bridge puts the differences between its fractions on the windings, so a voltage
vector fixes the three fractions up to a part that they have in common.  Modulation
chooses that part so that the largest and the smallest fraction lie equally far from
the two ends of the period.  This is the whole of it: the sectors, their signs and their
formulas are a way to find the largest and the smallest fraction without comparing any.

The constant in the place of the square root of three is left open, since a rounded one
is applied where the library runs.
-/
import MotorControl.Proofs.Exact
import MotorControl.Modulation

namespace MotorControl

/-- The exact scalars with a number of one's own for the square root of three. -/
noncomputable abbrev Exact.withSqrtThree (c : ℝ) : Scalar ℝ :=
  { (inferInstance : Scalar ℝ) with sqrtThree := c }

namespace Stationary

variable {c : ℝ} {v : Stationary ℝ} {f g : Phases ℝ}

/-- The fractions of a vector, with a number for the square root of three. -/
noncomputable def fractionsWith (c : ℝ) (v : Stationary ℝ) : Phases ℝ :=
  letI := Exact.withSqrtThree c
  v.fractions

theorem fractionsWith_sqrt_three (v : Stationary ℝ) : v.fractionsWith (√3) = v.fractions := rfl

/-! ### The rule -/

/-- Fractions that put a vector on the windings, and of which the largest is as far from the whole
period as the smallest is from none of it. -/
structure Centered (c : ℝ) (v : Stationary ℝ) (f : Phases ℝ) : Prop where
  ab : f.a - f.b = (c * v.alpha - v.beta) / 2
  bc : f.b - f.c = v.beta
  centered : max (max f.a f.b) f.c + min (min f.a f.b) f.c = 1

/-- The rule leaves no choice. -/
theorem Centered.unique (hf : Centered c v f) (hg : Centered c v g) : f = g := by
  obtain ⟨a, b, c⟩ := f
  obtain ⟨a', b', c'⟩ := g
  obtain ⟨hfab, hfbc, hf⟩ := hf
  obtain ⟨hgab, hgbc, hg⟩ := hg
  dsimp only at *
  -- What the two triples differ by is common to the phases, and it is added to both ends.
  have ha : a = a' + (b - b') := by linarith
  have hc : c = c' + (b - b') := by linarith
  have hb : b = b' + (b - b') := by ring
  have hmax : max (max a b) c = max (max a' b') c' + (b - b') := by
    rw [← max_add_add_right, ← max_add_add_right, ← ha, ← hb, ← hc]
  have hmin : min (min a b) c = min (min a' b') c' + (b - b') := by
    rw [← min_add_add_right, ← min_add_add_right, ← ha, ← hb, ← hc]
  have hsame : b - b' = 0 := by linarith
  rw [Phases.mk.injEq]
  refine ⟨?_, ?_, ?_⟩ <;> linarith

/-- With one of three numbers between the two others, those are the largest and the smallest. -/
theorem max_add_min_of_between {p q r : ℝ} (h : p ≤ r ∧ r ≤ q ∨ q ≤ r ∧ r ≤ p) :
    max (max p q) r + min (min p q) r = p + q := by
  obtain ⟨hpr, hrq⟩ | ⟨hqr, hrp⟩ := h
  · rw [max_eq_left (le_max_of_le_right hrq), min_eq_left (min_le_of_left_le hpr), max_add_min]
  · rw [max_eq_left (le_max_of_le_left hrp), min_eq_left (min_le_of_right_le hqr), max_add_min]

/-! ### The formulas -/

/-- The fractions of a vector by the formulas of one pair of sectors. -/
noncomputable def fractionsIn (c : ℝ) (v : Stationary ℝ) (p : SectorPair) : Phases ℝ :=
  let x := v.beta
  let y := (v.beta + c * v.alpha) / 2
  let z := (v.beta - c * v.alpha) / 2
  match p with
  | .first => ⟨(1 + x - z) / 2, (1 + x + z) / 2, (1 - x + z) / 2⟩
  | .second => ⟨(1 + y - z) / 2, (1 + y + z) / 2, (1 - y - z) / 2⟩
  | .third => ⟨(1 + y - x) / 2, (1 - y + x) / 2, (1 - y - x) / 2⟩

theorem fractionsWith_eq (c : ℝ) (v : Stationary ℝ) :
    v.fractionsWith c = v.fractionsIn c (.ofSigns (decide (0 ≤ v.beta))
      (decide (0 ≤ (v.beta + c * v.alpha) / 2)) (decide (0 ≤ (v.beta - c * v.alpha) / 2))) := by
  have hzero : @OfNat.ofNat ℝ 0 (@Scalar.instOfNat ℝ (Exact.withSqrtThree c) 0) = 0 :=
    Nat.cast_zero
  have hone : @OfNat.ofNat ℝ 1 (@Scalar.instOfNat ℝ (Exact.withSqrtThree c) 1) = 1 :=
    Nat.cast_one
  unfold fractionsWith fractions fractionsIn
  dsimp only
  rw [hzero, hone]
  generalize SectorPair.ofSigns _ _ _ = p
  cases p <;> rfl

/-- A vector lies in a pair of sectors, or on the border of one of the two. -/
def LiesIn (c : ℝ) (v : Stationary ℝ) (p : SectorPair) : Prop :=
  let x := v.beta
  let y := (v.beta + c * v.alpha) / 2
  let z := (v.beta - c * v.alpha) / 2
  match p with
  | .first => 0 ≤ x ∧ z ≤ 0 ∨ x ≤ 0 ∧ 0 ≤ z
  | .second => 0 ≤ y ∧ 0 ≤ z ∨ y ≤ 0 ∧ z ≤ 0
  | .third => 0 ≤ x ∧ y ≤ 0 ∨ x ≤ 0 ∧ 0 ≤ y

/-- The signs of the projections name a pair that the vector lies in. -/
theorem liesIn_ofSigns (c : ℝ) (v : Stationary ℝ) :
    v.LiesIn c (.ofSigns (decide (0 ≤ v.beta)) (decide (0 ≤ (v.beta + c * v.alpha) / 2))
      (decide (0 ≤ (v.beta - c * v.alpha) / 2))) := by
  unfold LiesIn
  by_cases hx : 0 ≤ v.beta <;> by_cases hy : 0 ≤ (v.beta + c * v.alpha) / 2 <;>
    by_cases hz : 0 ≤ (v.beta - c * v.alpha) / 2 <;>
    simp only [hx, hy, hz, decide_true, decide_false, SectorPair.ofSigns] <;> grind

/-- In a pair of sectors its formulas keep to the rule. -/
theorem LiesIn.centered {p : SectorPair} (h : v.LiesIn c p) :
    Centered c v (v.fractionsIn c p) := by
  unfold LiesIn at h
  unfold fractionsIn
  dsimp only at h ⊢
  cases p with
  | first =>
      refine ⟨by dsimp only; ring, by dsimp only; ring, ?_⟩
      dsimp only at h ⊢
      -- The fraction of the second phase lies between the two others.
      rw [max_right_comm, min_right_comm, max_add_min_of_between]
      · ring
      · obtain ⟨hx, hz⟩ | ⟨hx, hz⟩ := h
        · exact Or.inr ⟨by linarith, by linarith⟩
        · exact Or.inl ⟨by linarith, by linarith⟩
  | second =>
      refine ⟨by dsimp only; ring, by dsimp only; ring, ?_⟩
      dsimp only at h ⊢
      -- The fraction of the first phase does.
      rw [max_assoc, min_assoc, max_comm, min_comm, max_add_min_of_between]
      · ring
      · obtain ⟨hy, hz⟩ | ⟨hy, hz⟩ := h
        · exact Or.inr ⟨by linarith, by linarith⟩
        · exact Or.inl ⟨by linarith, by linarith⟩
  | third =>
      refine ⟨by dsimp only; ring, by dsimp only; ring, ?_⟩
      dsimp only at h ⊢
      -- The fraction of the third phase does.
      rw [max_add_min_of_between]
      · ring
      · obtain ⟨hx, hy⟩ | ⟨hx, hy⟩ := h
        · exact Or.inl ⟨by linarith, by linarith⟩
        · exact Or.inr ⟨by linarith, by linarith⟩

theorem centered_fractionsWith (c : ℝ) (v : Stationary ℝ) : Centered c v (v.fractionsWith c) := by
  rw [fractionsWith_eq]
  exact (liesIn_ofSigns c v).centered

/-! ### What follows from the rule -/

/-- Turning the vector around mirrors the fractions. -/
theorem Centered.neg (h : Centered c v f) :
    Centered c ⟨-v.alpha, -v.beta⟩ (f.map (1 - ·)) := by
  obtain ⟨hab, hbc, hcentered⟩ := h
  refine ⟨by simp only [Phases.map]; linarith, by simp only [Phases.map]; linarith, ?_⟩
  simp only [Phases.map, max_sub_sub_left, min_sub_sub_left]
  linarith

/-- Within the unit circle no voltage between two phases is larger than the supply. -/
theorem abs_voltage_le_one (hc : c ^ 2 ≤ 3) (hv : v.alpha ^ 2 + v.beta ^ 2 ≤ 1) {s : ℝ}
    (hs : s ^ 2 = 1) : |(c * v.alpha + s * v.beta) / 2| ≤ 1 := by
  rw [← sq_le_one_iff_abs_le_one]
  have hsquare : (c * v.alpha + s * v.beta) ^ 2 ≤ 4 :=
    calc (c * v.alpha + s * v.beta) ^ 2
      _ = (c ^ 2 + s ^ 2) * (v.alpha ^ 2 + v.beta ^ 2) - (c * v.beta - s * v.alpha) ^ 2 := by ring
      _ ≤ (c ^ 2 + s ^ 2) * (v.alpha ^ 2 + v.beta ^ 2) := by
        linarith [sq_nonneg (c * v.beta - s * v.alpha)]
      _ ≤ 4 * 1 := mul_le_mul (by linarith) hv (by positivity) (by norm_num)
      _ = 4 := by norm_num
  linarith [div_pow (c * v.alpha + s * v.beta) 2 2]

/-- Fractions that differ by a whole period at most fit into it. -/
theorem Centered.mem_Icc (h : Centered c v f) (hc : c ^ 2 ≤ 3)
    (hv : v.alpha ^ 2 + v.beta ^ 2 ≤ 1) :
    f.a ∈ Set.Icc 0 1 ∧ f.b ∈ Set.Icc 0 1 ∧ f.c ∈ Set.Icc 0 1 := by
  obtain ⟨hab, hbc, hcentered⟩ := h
  have hminus := abs_le.mp (abs_voltage_le_one hc hv (s := -1) (by norm_num))
  have hplus := abs_le.mp (abs_voltage_le_one hc hv (s := 1) (by norm_num))
  have hbeta : |v.beta| ≤ 1 := by
    rw [← sq_le_one_iff_abs_le_one]
    linarith [sq_nonneg v.alpha]
  obtain ⟨hbetalo, hbetahi⟩ := abs_le.mp hbeta
  have hspread : max (max f.a f.b) f.c ≤ min (min f.a f.b) f.c + 1 := by
    rw [← min_add_add_right, ← min_add_add_right]
    refine max_le (max_le ?_ ?_) ?_ <;> refine le_min (le_min ?_ ?_) ?_ <;> linarith
  have hmax : max (max f.a f.b) f.c ≤ 1 := by linarith
  have hmin : 0 ≤ min (min f.a f.b) f.c := by linarith
  rw [max_le_iff, max_le_iff] at hmax
  rw [le_min_iff, le_min_iff] at hmin
  obtain ⟨⟨ha, hb⟩, hc⟩ := hmax
  obtain ⟨⟨ha', hb'⟩, hc'⟩ := hmin
  exact ⟨⟨ha', ha⟩, ⟨hb', hb⟩, ⟨hc', hc⟩⟩

/--
**Modulation centers the pulses, and nothing else.**  The fractions of a vector are the only ones
that put its voltages between the phases and leave as much of the period above the largest as below
the smallest.  On the border of a sector the formulas of either side therefore give the same.  The
opposite vector has the mirrored fractions, and within the unit circle no fraction leaves the
period.
-/
theorem fractions_centered (c : ℝ) (v : Stationary ℝ) :
    (∀ f, f = v.fractionsWith c ↔ f.a - f.b = (c * v.alpha - v.beta) / 2 ∧ f.b - f.c = v.beta ∧
      max (max f.a f.b) f.c + min (min f.a f.b) f.c = 1) ∧
    (∀ p, v.LiesIn c p → v.fractionsIn c p = v.fractionsWith c) ∧
    fractionsWith c ⟨-v.alpha, -v.beta⟩ = (v.fractionsWith c).map (1 - ·) ∧
    (c ^ 2 ≤ 3 → v.alpha ^ 2 + v.beta ^ 2 ≤ 1 →
      (v.fractionsWith c).a ∈ Set.Icc 0 1 ∧ (v.fractionsWith c).b ∈ Set.Icc 0 1 ∧
      (v.fractionsWith c).c ∈ Set.Icc 0 1) := by
  have hv := centered_fractionsWith c v
  refine ⟨fun f => ⟨?_, fun ⟨hab, hbc, hcentered⟩ => ?_⟩, fun p hp => ?_, ?_, hv.mem_Icc⟩
  · rintro rfl
    exact ⟨hv.ab, hv.bc, hv.centered⟩
  · exact Centered.unique ⟨hab, hbc, hcentered⟩ hv
  · exact hp.centered.unique hv
  · exact (centered_fractionsWith c _).unique hv.neg

/-- With a rounded constant the fractions of a vector on the unit circle lie within the period. -/
theorem fractions_of_unit_vector :
    (1.7320508 : ℝ) ^ 2 ≤ 3 ∧ (3 / 5 : ℝ) ^ 2 + (4 / 5) ^ 2 ≤ 1 ∧
      fractionsWith 1.7320508 ⟨3 / 5, 4 / 5⟩ = ⟨0.95980762, 0.84019238, 0.04019238⟩ ∧
      (fractionsWith 1.7320508 ⟨3 / 5, 4 / 5⟩).a ∈ Set.Icc 0 1 := by
  have hc : (1.7320508 : ℝ) ^ 2 ≤ 3 := by norm_num
  have hv : (3 / 5 : ℝ) ^ 2 + (4 / 5) ^ 2 ≤ 1 := by norm_num
  obtain ⟨hiff, -, -, hmem⟩ := fractions_centered 1.7320508 ⟨3 / 5, 4 / 5⟩
  refine ⟨hc, hv, ((hiff _).mpr ⟨?_, ?_, ?_⟩).symm, (hmem hc hv).1⟩ <;> norm_num

end Stationary

end MotorControl
