/-
The arithmetic of least squares, read as linear algebra.

Over exact numbers an inner product is a sum, so the vectors and squares of an
estimator are vectors and matrices in the usual sense, and each operation on them is
the operation of the same name there.  A theorem about an estimator is then a theorem
about a matrix, and the order in which the program adds has no say in it.
-/
import Mathlib.LinearAlgebra.Matrix.Trace
import Mathlib.LinearAlgebra.Matrix.Symmetric
import MotorControl.LeastSquares
import MotorControl.Proofs.Exact

namespace MotorControl

open Matrix

variable {n : ℕ}

/-! ### Sums and inner products -/

/-- A sum taken term by term from negative zero is the sum. -/
theorem Exact.foldl_add_eq_sum (f : Fin n → ℝ) :
    Fin.foldl n (fun sum i => sum + f i) (-0) = ∑ i, f i := by
  induction n with
  | zero => simp
  | succ n ih => rw [Fin.foldl_succ_last, Fin.sum_univ_castSucc, ih]

theorem dot_eq (x y : Vector ℝ n) : dot x y = x.get ⬝ᵥ y.get := by
  simp only [dot, Exact.zero_eq]
  exact Exact.foldl_add_eq_sum fun i => x[i] * y[i]

/-! ### Squares as matrices -/

namespace Square

/-- The square as a matrix. -/
def toMatrix (m : Square ℝ n) : Matrix (Fin n) (Fin n) ℝ := .of fun i j => (m.get i).get j

theorem trace_eq (m : Square ℝ n) : m.trace = m.toMatrix.trace := by
  simp only [trace, Exact.zero_eq]
  exact Exact.foldl_add_eq_sum fun i => m[i][i]

theorem get_mulVec (m : Square ℝ n) (x : Vector ℝ n) : (m.mulVec x).get = m.toMatrix *ᵥ x.get := by
  funext i
  show (m.map (dot · x))[i] = _
  rw [Fin.getElem_fin, Vector.getElem_map, dot_eq]
  rfl

theorem toMatrix_diagonal (value : ℝ) : (diagonal value : Square ℝ n).toMatrix = value • 1 := by
  ext i j
  show (diagonal value : Square ℝ n)[i][j] = _
  simp [diagonal, Matrix.one_apply]

theorem toMatrix_scale (m : Square ℝ n) (factor : ℝ) :
    (m.scale factor).toMatrix = factor • m.toMatrix := by
  ext i j
  show (m.scale factor)[i][j] = factor * m[i][j]
  simp [scale, mul_comm]

/-- Entries that mirror each other already are their own mean. -/
theorem toMatrix_symmetrize {m : Square ℝ n} (h : m.toMatrix.IsSymm) :
    m.symmetrize.toMatrix = m.toMatrix := by
  ext i j
  have hmirror : m[j.val][i.val] = m[i.val][j.val] := h.apply i j
  have hmean (a : ℝ) : 0.5 * (a + a) = a := by ring
  show m.symmetrize[i][j] = m[i][j]
  simp only [symmetrize, Fin.getElem_fin, Vector.getElem_ofFn, Fin.eta, hmirror]
  split
  · exact hmean _
  · split
    · exact hmean _
    · rfl

end Square

end MotorControl
