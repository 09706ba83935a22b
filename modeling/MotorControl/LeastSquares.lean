/-
Recursive least squares.

A linear model `target = x · θ` is fitted one sample at a time.  With the forgetting
factor `l` and the covariance `P`, a sample changes the model by

    e = target - x · θ
    θ ← θ + (P x / (l + x · P x)) e
    P ← (P - (P x) (P x)ᵀ / (l + x · P x)) / l

Old samples count less and less, so without new information the covariance would
grow for ever; it is scaled back once its trace passes that of the seed.  An update
that leaves the finite range is given up: the coefficients stay as they were and the
covariance returns to its seed.
-/
import MotorControl.Event

namespace MotorControl

/-! ### Metrics -/

/-- What an update says about itself. -/
structure Metrics (α : Type) where
  /-- The error of the prediction before the update. -/
  innovation : α
  /-- The error of the prediction after the update. -/
  residual : α
  /-- The trace of the covariance. -/
  uncertainty : α
  /-- Whether the update was given up and the covariance returned to its seed. -/
  degraded : Bool
  deriving DecidableEq, Repr

variable {α : Type} [Scalar α] {n : Nat}

/-- Whether an update is sound, its innovation small and its uncertainty low. -/
def Metrics.converged (m : Metrics α) (innovationBound uncertaintyBound : α) : Bool :=
  !m.degraded && decide (Scalar.abs m.innovation < innovationBound)
    && decide (m.uncertainty < uncertaintyBound)

/-! ### Vectors and matrices -/

/-- The regressor of a model with three coefficients. -/
def regressor (x y z : α) : Vector α 3 := #v[x, y, z]

/-- A square matrix, by rows. -/
abbrev Square (α : Type) (n : Nat) := Vector (Vector α n) n

/-- The inner product.  Sums start from negative zero, which changes no number it is added to. -/
def dot (x y : Vector α n) : α := Fin.foldl n (fun sum i => sum + x[i] * y[i]) (-0)

namespace Square

/-- The matrix with one value along its diagonal and zero elsewhere. -/
def diagonal (value : α) : Square α n :=
  .ofFn fun i => .ofFn fun j => if i = j then value else 0

/-- The sum along the diagonal. -/
def trace (m : Square α n) : α := Fin.foldl n (fun sum i => sum + m[i][i]) (-0)

/-- The product with a column. -/
def mulVec (m : Square α n) (x : Vector α n) : Vector α n := m.map (dot · x)

/-- The matrix with each pair of opposite entries replaced by their mean. -/
def symmetrize (m : Square α n) : Square α n :=
  .ofFn fun i => .ofFn fun j =>
    if i < j then 0.5 * (m[i][j] + m[j][i])
    else if j < i then 0.5 * (m[j][i] + m[i][j])
    else m[i][j]

/-- The matrix times a number. -/
def scale (m : Square α n) (factor : α) : Square α n := m.map fun row => row.map (· * factor)

end Square

/-! ### The model -/

/-- A linear model under estimation. -/
structure LeastSquares (α : Type) (n : Nat) where
  coefficients : Vector α n
  covariance : Square α n
  /-- The value along the diagonal of a covariance that knows nothing. -/
  seed : α
  /-- The weight that one sample loses with each later one. -/
  forgetting : α

namespace LeastSquares

/-- The seed that estimators of motor parameters start from. -/
def motorSeed : α := 1000

/-- A model that knows nothing.  The seed must be above zero and the forgetting factor strictly
between zero and one; the seed is looked at first. -/
def check (seed forgetting : α) : Except Fault (LeastSquares α n) :=
  if 0 < seed then
    if 0 < forgetting ∧ forgetting < 1 then
      .ok ⟨.replicate n 0, .diagonal seed, seed, forgetting⟩
    else .error .forgettingFactorOutOfRange
  else .error .nonPositiveCovariance

theorem check_eq_ok {seed forgetting : α} (hseed : 0 < seed) (hpos : 0 < forgetting)
    (hone : forgetting < 1) : (check seed forgetting : Except Fault (LeastSquares α n)) =
      .ok ⟨.replicate n 0, .diagonal seed, seed, forgetting⟩ := by
  rw [check, if_pos hseed, if_pos ⟨hpos, hone⟩]

/-- A model is started on the settings that were accepted. -/
theorem start_of_check {seed forgetting : α} {start : LeastSquares α n}
    (h : check seed forgetting = .ok start) :
    0 < seed ∧ start = ⟨.replicate n 0, .diagonal seed, seed, forgetting⟩ := by
  unfold check at h
  split at h
  · rename_i hseed
    split at h
    · cases h
      exact ⟨hseed, rfl⟩
    · cases h
  · cases h

/-- The model without anything it has learned. -/
def reset (ls : LeastSquares α n) : LeastSquares α n :=
  { ls with coefficients := .replicate n 0, covariance := .diagonal ls.seed }

/-- The coefficient of the first of three regressors. -/
def first (ls : LeastSquares α 3) : α := ls.coefficients[0]

/-- The coefficient of the second of three regressors. -/
def second (ls : LeastSquares α 3) : α := ls.coefficients[1]

/-! ### Updates -/

/-- Gives an update up: the covariance returns to its seed and the coefficients stay. -/
def degrade (ls : LeastSquares α n) (innovation : α) :
    Traced α (Metrics α × LeastSquares α n) := do
  Traced.emit (.notice .covarianceReseeded)
  let seeded : Square α n := .diagonal ls.seed
  return (⟨innovation, innovation, seeded.trace, true⟩, { ls with covariance := seeded })

/-- The error of the prediction for a sample. -/
def innovation (ls : LeastSquares α n) (x : Vector α n) (target : α) : α :=
  target - dot x ls.coefficients

/-- What the gain for a regressor is divided by. -/
def denominator (ls : LeastSquares α n) (x : Vector α n) : α :=
  ls.forgetting + dot x (ls.covariance.mulVec x)

/-- The covariance less what a sample explains, given its product with the regressor. -/
def downdate (ls : LeastSquares α n) (px : Vector α n) (denominator : α) : Square α n :=
  .ofFn fun i => .ofFn fun j =>
    (ls.covariance[i][j] - px[i] * px[j] / denominator) / ls.forgetting

/-- The model after a sample, before its covariance is kept from growing. -/
def absorb (ls : LeastSquares α n) (x : Vector α n) (innovation denominator : α) :
    LeastSquares α n :=
  let px := ls.covariance.mulVec x
  { ls with
    coefficients := .ofFn fun i => ls.coefficients[i] + px[i] / denominator * innovation
    covariance := (ls.downdate px denominator).symmetrize }

/-- The trace of the covariance, and the model with its covariance scaled back if that trace has
passed the one of the seed. -/
def limitWindup (ls : LeastSquares α n) : α × LeastSquares α n :=
  let maximum := ls.seed * Scalar.ofNat n
  let trace := ls.covariance.trace
  if maximum < trace then
    (maximum, { ls with covariance := ls.covariance.scale (maximum / trace) })
  else (trace, ls)

/-- Whether a sample with these values can be absorbed. -/
def isSound (innovation denominator : α) : Bool :=
  Scalar.isFinite innovation && Scalar.isFinite denominator
    && !decide (denominator ≤ Scalar.epsilon)

/-- Whether a model with this trace is within the finite range. -/
def isFinite (ls : LeastSquares α n) (trace : α) : Bool :=
  Scalar.isFinite trace && ls.coefficients.all (Scalar.isFinite ·)

/-- Takes one sample. -/
def update (ls : LeastSquares α n) (x : Vector α n) (target : α) :
    Traced α (Metrics α × LeastSquares α n) :=
  let innovation := ls.innovation x target
  let denominator := ls.denominator x
  if isSound innovation denominator then
    let limited := (ls.absorb x innovation denominator).limitWindup
    if limited.2.isFinite limited.1 then
      return (⟨innovation, limited.2.innovation x target, limited.1, false⟩, limited.2)
    else ls.degrade innovation
  else ls.degrade innovation

/-- All that leaves an update is a line of the log. -/
theorem update_detached (ls : LeastSquares α n) (x : Vector α n) (target : α) :
    (ls.update x target).Detached := by
  have degraded (innovation : α) : (ls.degrade innovation).Detached := by
    simp [degrade, Event.isPeripheral]
  unfold update
  dsimp only
  split
  · split
    · exact Traced.pure_detached _
    · exact degraded _
  · exact degraded _

end LeastSquares

end MotorControl
