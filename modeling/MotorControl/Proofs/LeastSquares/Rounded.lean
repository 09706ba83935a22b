/-
What rounding cannot do to a linear model.

Over binary32 numbers any regressor and any target may come, infinite and undefined ones
among them, and any product may overflow.  An update either absorbs its sample or gives
it up, and there are two places where it can: before the model is touched, and after its
coefficients and its covariance were computed.  In both the model is left with its old
coefficients and the covariance of its seed, so it is a new model that kept what it has
learned.

What is absorbed has passed three checks, of the error of the prediction, of the
denominator and of the new coefficients with the trace.  A finite denominator vouches for
every entry of the covariance it was computed from.  With an infinite seed no sample is
therefore ever absorbed, and the trace of every other seed is a number that traces compare
with.
-/
import MotorControl.Proofs.Binary32.Finite
import MotorControl.Proofs.LeastSquares.Covariance

namespace MotorControl

open Binary32

variable {n : ℕ}

/-! ### Sums -/

/-- A finite sum vouches for all of its terms. -/
theorem isFinite_of_sum {f : Fin n → Float32} {a : Float32}
    (h : (Fin.foldl n (fun sum i => sum + f i) a).isFinite = true) (i : Fin n) :
    (f i).isFinite = true := by
  induction n with
  | zero => exact i.elim0
  | succ n ih =>
      rw [Fin.foldl_succ_last] at h
      obtain ⟨hsum, hlast⟩ := isFinite_of_add h
      refine i.lastCases hlast ?_
      intro j
      exact ih hsum j

theorem isFinite_of_dot {x y : Vector Float32 n} (h : (dot x y).isFinite = true) (i : Fin n) :
    (x.get i).isFinite = true ∧ (y.get i).isFinite = true :=
  isFinite_of_mul (isFinite_of_sum h i)

/-- Every entry of a matrix is a finite number. -/
def Square.IsFinite (m : Square Float32 n) : Prop :=
  ∀ i j : Fin n, ((m.get i).get j).isFinite = true

theorem Square.isFinite_diagonal {value : Float32} (h : value.isFinite = true) :
    (Square.diagonal value : Square Float32 n).IsFinite := by
  intro i j
  show (Square.diagonal value : Square Float32 n)[i][j].isFinite = true
  simp only [Square.diagonal, Fin.getElem_fin, Vector.getElem_ofFn]
  split
  · exact h
  · decide +kernel

theorem Square.isFinite_of_diagonal (hn : 0 < n) {value : Float32}
    (h : (Square.diagonal value : Square Float32 n).IsFinite) : value.isFinite = true := by
  have hfirst : (Square.diagonal value : Square Float32 n)[0][0].isFinite = true :=
    h ⟨0, hn⟩ ⟨0, hn⟩
  simpa [Square.diagonal] using hfirst

/-! ### Convergence -/

/-- An update that was given up, or that says something undefined, never counts as converged. -/
theorem Metrics.not_converged {m : Metrics Float32}
    (h : m.degraded = true ∨ m.innovation.isNaN = true ∨ m.uncertainty.isNaN = true)
    (innovationBound uncertaintyBound : Float32) :
    m.converged innovationBound uncertaintyBound = false := by
  unfold Metrics.converged
  rcases h with hdegraded | hinnovation | huncertainty
  · rw [hdegraded]
    rfl
  · have hlt : ¬ Scalar.abs m.innovation < innovationBound :=
      not_lt_of_isNaN (Or.inl (isNaN_abs.trans hinnovation))
    simp [hlt]
  · have hlt : ¬ m.uncertainty < uncertaintyBound := not_lt_of_isNaN (Or.inl huncertainty)
    simp [hlt]

namespace LeastSquares

/-! ### The two outcomes of an update -/

section Outcomes

variable {α : Type} [Scalar α]

/-- A sample passes every check: what its update says of the covariance, and the model it leaves. -/
structure Absorbs (ls : LeastSquares α n) (x : Vector α n) (target uncertainty : α)
    (next : LeastSquares α n) : Prop where
  limited : (ls.absorb x (ls.innovation x target) (ls.denominator x)).limitWindup =
    (uncertainty, next)
  sound : isSound (ls.innovation x target) (ls.denominator x) = true
  finite : next.isFinite uncertainty = true

/-- A sample is absorbed, or it is given up. -/
theorem update_cases (ls : LeastSquares α n) (x : Vector α n) (target : α) :
    (∃ uncertainty next, ls.Absorbs x target uncertainty next ∧
      ls.update x target =
        pure (⟨ls.innovation x target, next.innovation x target, uncertainty, false⟩, next)) ∨
    ls.update x target = ls.degrade (ls.innovation x target) := by
  unfold update
  dsimp only
  split
  · rename_i hsound
    split
    · rename_i hfinite
      exact Or.inl ⟨_, _, ⟨rfl, hsound, hfinite⟩, rfl⟩
    · exact Or.inr rfl
  · exact Or.inr rfl

variable {ls : LeastSquares α n} {x : Vector α n} {target : α}

theorem update_of_degraded (h : (ls.update x target).result.1.degraded = true) :
    ls.update x target = ls.degrade (ls.innovation x target) := by
  rcases ls.update_cases x target with ⟨_, _, -, hupdate⟩ | hupdate
  · rw [hupdate] at h
    cases h
  · exact hupdate

theorem update_of_not_degraded (h : (ls.update x target).result.1.degraded = false) :
    ∃ uncertainty next, ls.Absorbs x target uncertainty next ∧
      ls.update x target =
        pure (⟨ls.innovation x target, next.innovation x target, uncertainty, false⟩, next) := by
  rcases ls.update_cases x target with habsorbs | hupdate
  · exact habsorbs
  · rw [hupdate] at h
    cases h

end Outcomes

section Rounded

variable {ls : LeastSquares Float32 n} {x : Vector Float32 n}

theorem isSound_iff {innovation denominator : Float32} :
    isSound innovation denominator = true ↔
      innovation.isFinite = true ∧ denominator.isFinite = true ∧
        ¬ denominator ≤ Scalar.epsilon := by
  simp [isSound, Scalar.isFinite, and_assoc]

theorem isFinite_iff {trace : Float32} :
    ls.isFinite trace = true ↔
      trace.isFinite = true ∧ ∀ i : Fin n, (ls.coefficients.get i).isFinite = true := by
  have hget (i : Fin n) : ls.coefficients.get i = ls.coefficients[i] := rfl
  simp [LeastSquares.isFinite, Scalar.isFinite, Fin.forall_iff, hget]

/-- A finite denominator vouches for the whole covariance. -/
theorem isFinite_of_denominator (h : (ls.denominator x).isFinite = true) :
    ls.covariance.IsFinite := by
  intro i j
  have hgain : (ls.covariance.mulVec x)[i].isFinite = true :=
    (isFinite_of_dot (isFinite_of_add h).2 i).2
  rw [Fin.getElem_fin, Square.mulVec, Vector.getElem_map] at hgain
  exact (isFinite_of_dot hgain j).1

/-! ### The invariant -/

theorem isFinite_zeros (i : Fin n) :
    ((Vector.replicate n (0 : Float32)).get i).isFinite = true := by
  show (Vector.replicate n (0 : Float32))[i].isFinite = true
  rw [Fin.getElem_fin, Vector.getElem_replicate]
  decide +kernel

/-- What no sample can undo. -/
structure Intact (ls : LeastSquares Float32 n) : Prop where
  seed_pos : 0 < ls.seed
  coefficients : ∀ i : Fin n, (ls.coefficients.get i).isFinite = true
  /-- With an infinite seed the covariance stays where it was. -/
  seeded : 0 < n → ls.seed.isFinite = true ∨ ls.covariance = .diagonal ls.seed

namespace Intact

theorem of_seeded (hpos : 0 < ls.seed)
    (hcoefficients : ∀ i : Fin n, (ls.coefficients.get i).isFinite = true)
    (hcovariance : ls.covariance = .diagonal ls.seed) : ls.Intact :=
  ⟨hpos, hcoefficients, fun _ => Or.inr hcovariance⟩

theorem reset (h : ls.Intact) : ls.reset.Intact := of_seeded h.seed_pos isFinite_zeros rfl

theorem degrade (h : ls.Intact) (innovation : Float32) :
    (ls.degrade innovation).result.2.Intact :=
  of_seeded h.seed_pos h.coefficients rfl

/-- Where a sample is absorbed, the seed was a number. -/
theorem isFinite_seed (h : ls.Intact) (hn : 0 < n)
    (hdenominator : (ls.denominator x).isFinite = true) : ls.seed.isFinite = true := by
  rcases h.seeded hn with hseed | hcovariance
  · exact hseed
  · have hentries := isFinite_of_denominator hdenominator
    rw [hcovariance] at hentries
    exact Square.isFinite_of_diagonal hn hentries

end Intact

namespace Absorbs

variable {target uncertainty : Float32} {next : LeastSquares Float32 n}

theorem sameSettings (h : ls.Absorbs x target uncertainty next) : SameSettings ls next := by
  have hsame := limitWindup_sameSettings (ls.absorb x (ls.innovation x target) (ls.denominator x))
  rw [h.limited] at hsame
  exact hsame

theorem intact (h : ls.Absorbs x target uncertainty next) (hls : ls.Intact) : next.Intact where
  seed_pos := h.sameSettings.1 ▸ hls.seed_pos
  coefficients := (isFinite_iff.1 h.finite).2
  seeded := by
    intro hn
    rw [h.sameSettings.1]
    exact Or.inl (hls.isFinite_seed hn (isSound_iff.1 h.sound).2.1)

/-- The trace of the seed is not passed. -/
theorem not_lt_uncertainty (h : ls.Absorbs x target uncertainty next) :
    ¬ ls.seed * Scalar.ofNat n < uncertainty := by
  rcases limitWindup_cases (ls.absorb x (ls.innovation x target) (ls.denominator x)) with
    ⟨-, heq⟩ | ⟨hnot, heq⟩
  · rw [h.limited] at heq
    cases heq
    exact not_lt_self
  · rw [h.limited] at heq
    cases heq
    exact hnot

theorem uncertainty_le (h : ls.Absorbs x target uncertainty next) (hls : ls.Intact)
    (hn : 0 < n ∨ ls.seed.isFinite = true) : uncertainty ≤ ls.seed * Scalar.ofNat n := by
  have hseed : ls.seed.isFinite = true :=
    hn.elim (fun hn => hls.isFinite_seed hn (isSound_iff.1 h.sound).2.1) id
  have hmaximum : (ls.seed * Scalar.ofNat n).isNaN = false := by
    rw [isNaN_eq_false_iff, sign?_mul_of_pos_left hls.seed_pos hseed]
    exact ⟨_, sign?_ofNat n⟩
  exact le_of_not_lt hmaximum (isNaN_of_isFinite (isFinite_iff.1 h.finite).1) h.not_lt_uncertainty

end Absorbs

theorem Intact.use (h : ls.Intact) (u : Use Float32 n) : (ls.use u).Intact := by
  cases u with
  | update x target =>
      show (ls.update x target).result.2.Intact
      rcases ls.update_cases x target with ⟨_, next, habsorbs, hupdate⟩ | hupdate
      · rw [hupdate]
        exact habsorbs.intact h
      · rw [hupdate]
        exact h.degrade _
  | reset => exact h.reset

theorem Intact.after (h : ls.Intact) (uses : List (Use Float32 n)) : (ls.after uses).Intact := by
  induction uses generalizing ls with
  | nil => exact h
  | cons u uses ih => exact ih (h.use u)

/-! ### Every run -/

section Run

variable {seed forgetting : Float32} {start : LeastSquares Float32 n}
  (h : check seed forgetting = .ok start)

include h

theorem settings_after (uses : List (Use Float32 n)) :
    (start.after uses).seed = seed ∧ (start.after uses).forgetting = forgetting := by
  obtain ⟨hsame, hforgets⟩ := after_sameSettings start uses
  rw [hsame, hforgets, (start_of_check h).2]
  exact ⟨rfl, rfl⟩

theorem intact_after (uses : List (Use Float32 n)) : (start.after uses).Intact := by
  obtain ⟨hseed, hstart⟩ := start_of_check h
  have hintact : start.Intact := by
    rw [hstart]
    exact .of_seeded hseed isFinite_zeros rfl
  exact hintact.after uses

end Run

/--
**Numerical trouble never reaches the estimate.**  Whatever a model was shown, its coefficients are
finite.  An update that is given up leaves a new model with the coefficients from before it, and
one line in the log; one that is not reports a finite error and a finite trace, which is not above
the trace of the seed.  Where anything undefined is reported, the model does not count as
converged.  (Without coefficients an infinite seed has no trace to compare with.)
-/
theorem estimate_stays_finite {seed forgetting : Float32} {start : LeastSquares Float32 n}
    (h : check seed forgetting = .ok start) (uses : List (Use Float32 n)) (x : Vector Float32 n)
    (target : Float32) :
    let now := start.after uses
    let update := now.update x target
    let metrics := update.result.1
    let next := update.result.2
    (∀ i : Fin n, (next.coefficients.get i).isFinite = true) ∧
    (metrics.degraded = true →
      next = ⟨now.coefficients, .diagonal seed, seed, forgetting⟩ ∧
      metrics.residual = metrics.innovation ∧
      update.events = [.notice .covarianceReseeded]) ∧
    (metrics.degraded = false →
      metrics.innovation.isFinite = true ∧ metrics.uncertainty.isFinite = true ∧
      ¬ seed * Scalar.ofNat n < metrics.uncertainty ∧
      (0 < n ∨ seed.isFinite = true → metrics.uncertainty ≤ seed * Scalar.ofNat n) ∧
      update.events = []) ∧
    (metrics.degraded = true ∨ metrics.innovation.isNaN = true ∨
        metrics.uncertainty.isNaN = true →
      ∀ innovationBound uncertaintyBound,
        metrics.converged innovationBound uncertaintyBound = false) := by
  intro now update metrics next
  obtain ⟨hseed, hforgetting⟩ := settings_after h uses
  have hnow := intact_after h uses
  have hnext : next.Intact := hnow.use (.update x target)
  refine ⟨hnext.coefficients, ?_, ?_, Metrics.not_converged⟩
  · intro hdegraded
    have hupdate : update = now.degrade (now.innovation x target) := update_of_degraded hdegraded
    have hleft : next = ⟨now.coefficients, .diagonal now.seed, now.seed, now.forgetting⟩ :=
      congrArg (·.result.2) hupdate
    have hsaid : metrics = (now.degrade (now.innovation x target)).result.1 :=
      congrArg (·.result.1) hupdate
    rw [hseed, hforgetting] at hleft
    refine ⟨hleft, ?_, ?_⟩
    · rw [hsaid]
      rfl
    · rw [hupdate]
      rfl
  · intro hkept
    obtain ⟨uncertainty, _, habsorbs, hupdate⟩ := update_of_not_degraded hkept
    have hsaid : metrics.innovation = now.innovation x target ∧
        metrics.uncertainty = uncertainty := by
      have hmetrics := congrArg (·.result.1) hupdate
      exact ⟨congrArg Metrics.innovation hmetrics, congrArg Metrics.uncertainty hmetrics⟩
    have hevents : update.events = [] := congrArg (·.events) hupdate
    rw [hsaid.1, hsaid.2, ← hseed]
    exact ⟨(isSound_iff.1 habsorbs.sound).1, (isFinite_iff.1 habsorbs.finite).1,
      habsorbs.not_lt_uncertainty, habsorbs.uncertainty_le hnow, hevents⟩

/-- After a sample that was absorbed comes one with an infinite regressor. -/
theorem infinite_regressor_given_up :
    let start : LeastSquares Float32 1 := ⟨.replicate 1 0, .diagonal 1000, 1000, 0.5⟩
    let now := start.after [.update #v[2] 6]
    check 1000 0.5 = .ok start ∧
      (start.update #v[2] 6).result.1.degraded = false ∧
      (now.update #v[1 / 0] 3).result.1.degraded = true ∧
      (now.update #v[1 / 0] 3).result.2 = ⟨now.coefficients, .diagonal 1000, 1000, 0.5⟩ := by
  intro start now
  have hstart : check 1000 0.5 = .ok start :=
    check_eq_ok (by decide +kernel) (by decide +kernel) (by decide +kernel)
  have hdegraded : (now.update #v[1 / 0] 3).result.1.degraded = true := by decide +kernel
  obtain ⟨-, hgivenUp, -, -⟩ := estimate_stays_finite hstart [.update #v[2] 6] #v[1 / 0] 3
  exact ⟨hstart, by decide +kernel, hdegraded, (hgivenUp hdegraded).1⟩

end Rounded

end LeastSquares

end MotorControl
