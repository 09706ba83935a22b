/-
What becomes of a covariance that overflows.

An update looks at the trace of its new covariance, and it does so once the covariance
has been scaled back.  A trace that has become infinite passes that of any seed, so the
covariance is scaled by zero, which makes an infinite entry undefined, and the trace of
the seed is reported.  Such an update is not given up, and it leaves a covariance that
is not finite.

That is all that goes wrong.  The scale is one at most, so it makes no finite entry
overflow and mends none that did: a covariance is finite after an update if the update
was given up, or if it was finite before it was scaled.  And no sample is absorbed with a
covariance that is not finite, so the update that comes next is given up.
-/
import MotorControl.Proofs.Binary32.Scaling
import MotorControl.Proofs.LeastSquares.Rounded

namespace MotorControl

open Binary32

variable {n : ℕ}

namespace Square

variable {m : Square Float32 n} {factor : Float32}

instance : Decidable m.IsFinite :=
  inferInstanceAs (Decidable (∀ i j : Fin n, ((m.get i).get j).isFinite = true))

theorem get_scale (m : Square Float32 n) (factor : Float32) (i j : Fin n) :
    ((m.scale factor).get i).get j = (m.get i).get j * factor := by
  show (m.scale factor)[i][j] = m[i][j] * factor
  simp [scale]

/-- Scaling down neither makes an entry overflow nor mends one. -/
theorem isFinite_scale (h : AtMostOne (parts factor)) : (m.scale factor).IsFinite ↔ m.IsFinite := by
  constructor
  · intro hscaled i j
    have hentry := hscaled i j
    rw [get_scale] at hentry
    exact (isFinite_of_mul hentry).1
  · intro hentries i j
    rw [get_scale]
    exact isFinite_mul (hentries i j) h

end Square

namespace LeastSquares

variable {ls : LeastSquares Float32 n}

/-- Keeping a covariance from growing does not change whether it is finite. -/
theorem isFinite_limitWindup (ls : LeastSquares Float32 n) (hpos : 0 < ls.seed)
    (hmaximum : (ls.seed * Scalar.ofNat n).isFinite = true) :
    ls.limitWindup.2.covariance.IsFinite ↔ ls.covariance.IsFinite := by
  rcases ls.limitWindup_cases with ⟨hlt, heq⟩ | ⟨-, heq⟩
  · have hsign : sign? (parts (ls.seed * Scalar.ofNat n)) = some .positive := by
      rw [sign?_mul_of_pos_left hpos (isFinite_of_mul hmaximum).1, sign?_ofNat]
    rw [heq]
    exact Square.isFinite_scale (atMostOne_div hsign hlt)
  · rw [heq]

theorem Absorbs.isFinite_covariance {x : Vector Float32 n} {target uncertainty : Float32}
    {next : LeastSquares Float32 n} (h : ls.Absorbs x target uncertainty next)
    (hpos : 0 < ls.seed) (hmaximum : (ls.seed * Scalar.ofNat n).isFinite = true) :
    next.covariance.IsFinite ↔
      (ls.absorb x (ls.innovation x target) (ls.denominator x)).covariance.IsFinite := by
  have hlimited := isFinite_limitWindup
    (ls.absorb x (ls.innovation x target) (ls.denominator x)) hpos hmaximum
  rwa [h.limited] at hlimited

/-- No sample is absorbed with a covariance that is not finite. -/
theorem degraded_of_overflow (h : ¬ ls.covariance.IsFinite) (x : Vector Float32 n)
    (target : Float32) : (ls.update x target).result.1.degraded = true := by
  by_contra hkept
  obtain ⟨_, _, habsorbs, -⟩ := update_of_not_degraded (Bool.eq_false_iff.2 hkept)
  exact h (isFinite_of_denominator (isSound_iff.1 habsorbs.sound).2.1)

/--
**What becomes of a covariance that overflows.**  After an update the covariance is finite exactly
if the update was given up, or if no entry of the covariance had overflowed before it was scaled
back.  If it is not finite, the next update is given up, whatever it is shown.
-/
theorem covariance_finite_iff {seed forgetting : Float32} {start : LeastSquares Float32 n}
    (h : check seed forgetting = .ok start)
    (hmaximum : (seed * Scalar.ofNat n).isFinite = true) (uses : List (Use Float32 n))
    (x : Vector Float32 n) (target : Float32) :
    let now := start.after uses
    let metrics := (now.update x target).result.1
    let next := (now.update x target).result.2
    (next.covariance.IsFinite ↔
      metrics.degraded = true ∨
        (now.absorb x (now.innovation x target) (now.denominator x)).covariance.IsFinite) ∧
    (¬ next.covariance.IsFinite →
      ∀ x' target', (next.update x' target').result.1.degraded = true) := by
  intro now metrics next
  obtain rfl : now.seed = seed := (settings_after h uses).1
  have hpos : 0 < now.seed := (start_of_check h).1
  refine ⟨?_, degraded_of_overflow⟩
  by_cases hdegraded : metrics.degraded = true
  · have hnext : next.covariance = .diagonal now.seed :=
      congrArg (·.result.2.covariance) (update_of_degraded hdegraded)
    rw [hnext]
    exact iff_of_true (Square.isFinite_diagonal (isFinite_of_mul hmaximum).1) (Or.inl hdegraded)
  · obtain ⟨_, absorbed, habsorbs, hupdate⟩ :=
      update_of_not_degraded (Bool.eq_false_iff.2 hdegraded)
    have hnext : next = absorbed := congrArg (·.result.2) hupdate
    rw [or_iff_right hdegraded, hnext]
    exact habsorbs.isFinite_covariance hpos hmaximum

/-- A sample that is not flagged, though it makes the only entry of the covariance overflow. -/
theorem overflow_not_flagged :
    ∃ start : LeastSquares Float32 1, check 1e38 0.001 = .ok start ∧
      ((1e38 : Float32) * Scalar.ofNat 1).isFinite = true ∧
      (start.update #v[0] 0).result.1.degraded = false ∧
      ¬ (start.update #v[0] 0).result.2.covariance.IsFinite := by
  refine ⟨_, check_eq_ok ?_ ?_ ?_, ?_, ?_, ?_⟩ <;> decide +kernel

/-- The sample after it is given up. -/
theorem flagged_after_overflow :
    ∃ start : LeastSquares Float32 1, check 1e38 0.001 = .ok start ∧
      ((1e38 : Float32) * Scalar.ofNat 1).isFinite = true ∧
      ((start.update #v[0] 0).result.2.update #v[1] 1).result.1.degraded = true := by
  have hmaximum : ((1e38 : Float32) * Scalar.ofNat 1).isFinite = true := by decide +kernel
  have hstart : check 1e38 0.001 = .ok (⟨.replicate 1 0, .diagonal 1e38, 1e38, 0.001⟩ :
      LeastSquares Float32 1) :=
    check_eq_ok (by decide +kernel) (by decide +kernel) (by decide +kernel)
  obtain ⟨-, hnext⟩ := covariance_finite_iff hstart hmaximum [] #v[0] 0
  exact ⟨_, hstart, hmaximum, hnext (by decide +kernel) #v[1] 1⟩

end LeastSquares

end MotorControl
