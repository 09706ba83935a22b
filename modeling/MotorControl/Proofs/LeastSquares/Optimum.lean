/-
What the coefficients of a linear model are.

The estimator never writes a system of equations down: it moves the coefficients along
a gain and subtracts a rank-one term from the covariance.  Over exact numbers the
result is nevertheless the solution of one.  Take the squared errors of all samples
since the model knew nothing, each fading by the forgetting factor with every later
sample, and add the square of the coefficients, which the seed holds back and which
fades in the same way.  The coefficients are the only minimum of that sum, and the
covariance is the inverse of its quadratic part.

The invariant is `Summarises`: the inverse of the covariance is the faded sum of the
`x xᵀ`, and it takes the coefficients to the faded sum of the `y x`.  It is the limit on
windup that breaks it, so the samples are those during which nothing was scaled back.
-/
import MotorControl.Proofs.LeastSquares.Covariance

namespace MotorControl.LeastSquares

open Matrix

variable {n : ℕ}

/-! ### Sums that fade -/

section Faded

variable {V : Type*} [AddCommGroup V] [Module ℝ V]

/-- The sum of the first `m` terms, each of which has faded once for every term after it. -/
noncomputable def faded (l : ℝ) (f : ℕ → V) (m : ℕ) : V :=
  ∑ i ∈ Finset.range m, l ^ (m - (i + 1)) • f i

theorem faded_zero (l : ℝ) (f : ℕ → V) : faded l f 0 = 0 := rfl

theorem faded_succ (l : ℝ) (f : ℕ → V) (m : ℕ) : faded l f (m + 1) = l • faded l f m + f m := by
  have hage : ∀ i ∈ Finset.range m, l ^ (m + 1 - (i + 1)) • f i = l • l ^ (m - (i + 1)) • f i := by
    intro i hi
    have hi : i < m := Finset.mem_range.mp hi
    rw [show m + 1 - (i + 1) = m - (i + 1) + 1 by omega, pow_succ', mul_smul]
  rw [faded, Finset.sum_range_succ, Finset.sum_congr rfl hage, ← Finset.smul_sum, Nat.sub_self,
    pow_zero, one_smul, faded]

end Faded

/-! ### The problem -/

/-- The problem an estimator solves: an endless sequence of samples, the weight that a sample keeps
with each later one, and the seed that holds the coefficients back. -/
structure Problem (n : ℕ) where
  seed : ℝ
  forgetting : ℝ
  x : ℕ → Vector ℝ n
  y : ℕ → ℝ

namespace Problem

/-- What coefficients cost after the first `m` samples: their squared errors, and their own
square. -/
noncomputable def cost (p : Problem n) (m : ℕ) (θ : Fin n → ℝ) : ℝ :=
  faded p.forgetting (fun i => (p.y i - (p.x i).get ⬝ᵥ θ) ^ 2) m
    + p.forgetting ^ m / p.seed * (θ ⬝ᵥ θ)

/-- The quadratic part of the cost. -/
noncomputable def information (p : Problem n) (m : ℕ) : Matrix (Fin n) (Fin n) ℝ :=
  faded p.forgetting (fun i => vecMulVec (p.x i).get (p.x i).get) m
    + (p.forgetting ^ m / p.seed) • 1

/-- The linear part of the cost. -/
noncomputable def moment (p : Problem n) (m : ℕ) : Fin n → ℝ :=
  faded p.forgetting (fun i => p.y i • (p.x i).get) m

/-- The first `m` samples, as uses of a model. -/
def uses (p : Problem n) (m : ℕ) : List (Use ℝ n) :=
  (List.range m).map fun i => .update (p.x i) (p.y i)

theorem after_uses_succ (p : Problem n) (ls : LeastSquares ℝ n) (m : ℕ) :
    ls.after (p.uses (m + 1)) = ((ls.after (p.uses m)).update (p.x m) (p.y m)).result.2 := by
  rw [uses, List.range_succ, List.map_append, after, List.foldl_append]
  rfl

theorem information_succ (p : Problem n) (m : ℕ) : p.information (m + 1) =
    p.forgetting • p.information m + vecMulVec (p.x m).get (p.x m).get := by
  rw [information, faded_succ, information, pow_succ', smul_add, smul_smul, mul_div_assoc]
  abel

theorem moment_succ (p : Problem n) (m : ℕ) :
    p.moment (m + 1) = p.forgetting • p.moment m + p.y m • (p.x m).get :=
  faded_succ ..

theorem cost_succ (p : Problem n) (m : ℕ) (θ : Fin n → ℝ) : p.cost (m + 1) θ =
    p.forgetting * p.cost m θ + (p.y m - (p.x m).get ⬝ᵥ θ) ^ 2 := by
  rw [cost, faded_succ, cost, smul_eq_mul, pow_succ']
  ring

/-- The cost as a polynomial of second degree in the coefficients. -/
theorem cost_eq (p : Problem n) (m : ℕ) (θ : Fin n → ℝ) : p.cost m θ =
    θ ⬝ᵥ p.information m *ᵥ θ - 2 * (θ ⬝ᵥ p.moment m)
      + faded p.forgetting (fun i => p.y i ^ 2) m := by
  induction m with
  | zero => simp [cost, information, moment, faded_zero, smul_mulVec]
  | succ m ih =>
      rw [cost_succ, ih, information_succ, moment_succ, faded_succ, add_mulVec, smul_mulVec,
        vecMulVec_mulVec, dotProduct_add, dotProduct_add, dotProduct_smul, dotProduct_smul,
        dotProduct_smul, dotProduct_smul, dotProduct_comm (p.x m).get θ]
      simp only [smul_eq_mul, MulOpposite.smul_eq_mul_unop, MulOpposite.unop_op]
      ring

/-- Coefficients that solve the linear equations cost less than all others, by what the quadratic
part makes of the distance. -/
theorem cost_eq_of_solves {p : Problem n} {m : ℕ} {θ₀ : Fin n → ℝ}
    (hsymm : (p.information m).IsSymm) (hsolves : p.information m *ᵥ θ₀ = p.moment m)
    (θ : Fin n → ℝ) :
    p.cost m θ = p.cost m θ₀ + (θ - θ₀) ⬝ᵥ p.information m *ᵥ (θ - θ₀) := by
  have hswap : θ₀ ⬝ᵥ p.information m *ᵥ θ = θ ⬝ᵥ p.moment m := by
    rw [dotProduct_mulVec, ← mulVec_transpose, hsymm.eq, hsolves, dotProduct_comm]
  rw [cost_eq, cost_eq, mulVec_sub, sub_dotProduct, dotProduct_sub, dotProduct_sub, hsolves, hswap]
  ring

theorem cost_lt_of_ne {p : Problem n} {m : ℕ} {θ₀ θ : Fin n → ℝ}
    (hpos : (p.information m).PosDef) (hsolves : p.information m *ᵥ θ₀ = p.moment m)
    (hne : θ ≠ θ₀) : p.cost m θ₀ < p.cost m θ := by
  have hsymm : (p.information m).IsSymm := isHermitian_iff_isSymm.1 hpos.isHermitian
  have hdistance : 0 < (θ - θ₀) ⬝ᵥ p.information m *ᵥ (θ - θ₀) := by
    simpa using hpos.dotProduct_mulVec_pos (sub_ne_zero.2 hne)
  rw [cost_eq_of_solves hsymm hsolves θ]
  linarith

end Problem

/-! ### The invariant -/

/-- A model that holds what the first `m` samples of a problem say. -/
structure Summarises (p : Problem n) (m : ℕ) (ls : LeastSquares ℝ n) : Prop where
  seed_eq : ls.seed = p.seed
  forgetting_eq : ls.forgetting = p.forgetting
  posDef : ls.covariance.toMatrix.PosDef
  /-- The covariance is the inverse of the information. -/
  inv_eq : ls.covariance.toMatrix⁻¹ = p.information m
  /-- The coefficients solve the linear equations. -/
  solves : p.information m *ᵥ ls.coefficients.get = p.moment m

/-- With this sample the covariance passes the trace of its seed and is scaled back. -/
def Overgrows (ls : LeastSquares ℝ n) (x : Vector ℝ n) (target : ℝ) : Prop :=
  ls.seed * n < (ls.absorbed x target).covariance.trace

/-- A sample lowers the trace by what it explains, and forgetting then raises it. -/
theorem trace_absorbed (ls : LeastSquares ℝ n) (x : Vector ℝ n) (target : ℝ) :
    (ls.absorbed x target).covariance.trace =
      (ls.covariance.toMatrix.trace
        - (ls.covariance.toMatrix *ᵥ x.get ⬝ᵥ ls.covariance.toMatrix *ᵥ x.get)
          / (ls.forgetting + x.get ⬝ᵥ ls.covariance.toMatrix *ᵥ x.get)) / ls.forgetting := by
  have hmean (s : Square ℝ n) : s.symmetrize.toMatrix.trace = s.toMatrix.trace := by
    refine Finset.sum_congr rfl fun i _ => ?_
    show s.symmetrize[i][i] = s[i][i]
    simp [Square.symmetrize]
  show (ls.downdate (ls.covariance.mulVec x) (ls.denominator x)).symmetrize.trace = _
  rw [Square.trace_eq, hmean, toMatrix_downdate, Square.get_mulVec, denominator_eq,
    Matrix.trace_smul, Matrix.trace_sub, Matrix.trace_smul, trace_vecMulVec, smul_eq_mul,
    smul_eq_mul, ← div_eq_inv_mul, ← div_eq_inv_mul]

namespace Summarises

variable {p : Problem n} {m : ℕ} {ls : LeastSquares ℝ n}

theorem of_reset (hseed : 0 < p.seed) (hsame : ls.seed = p.seed)
    (hforgetting : ls.forgetting = p.forgetting) : Summarises p 0 ls.reset where
  seed_eq := hsame
  forgetting_eq := hforgetting
  posDef := by
    rw [reset, Square.toMatrix_diagonal, hsame]
    exact PosDef.one.smul hseed
  inv_eq := by
    rw [reset, Square.toMatrix_diagonal, hsame, Problem.information, faded_zero, pow_zero,
      zero_add, one_div]
    refine inv_eq_left_inv ?_
    rw [smul_mul_smul_comm, inv_mul_cancel₀ hseed.ne', one_smul, one_mul]
  solves := by
    have hzero : ls.reset.coefficients.get = 0 := by
      funext i
      show ls.reset.coefficients[i] = 0
      simp [reset]
    rw [hzero, mulVec_zero, Problem.moment, faded_zero]

theorem denominator_pos (h : Summarises p m ls) (hl : 0 < p.forgetting) (x : Vector ℝ n) :
    0 < ls.denominator x := by
  rw [denominator_eq, h.forgetting_eq]
  exact hl.trans_le (le_forgetting_add h.posDef x.get)

/-- The new information takes the gain to the regressor. -/
theorem information_mulVec_gain (h : Summarises p m ls) :
    p.information (m + 1) *ᵥ ls.covariance.toMatrix *ᵥ (p.x m).get =
      ls.denominator (p.x m) • (p.x m).get := by
  have hinv : p.information m * ls.covariance.toMatrix = 1 := by
    rw [← h.inv_eq]
    exact nonsing_inv_mul _ ((isUnit_iff_isUnit_det _).1 h.posDef.isUnit)
  rw [Problem.information_succ, add_mulVec, smul_mulVec, mulVec_mulVec, hinv, one_mulVec,
    vecMulVec_mulVec, op_smul_eq_smul, denominator_eq, h.forgetting_eq, add_smul]

theorem absorbed (h : Summarises p m ls) (hl : 0 < p.forgetting) :
    Summarises p (m + 1) (ls.absorbed (p.x m) (p.y m)) where
  seed_eq := h.seed_eq
  forgetting_eq := h.forgetting_eq
  posDef := posDef_absorbed h.posDef (h.forgetting_eq ▸ hl) _ _
  inv_eq := by
    have hl : 0 < ls.forgetting := h.forgetting_eq ▸ hl
    have hpos := posDef_information h.posDef hl (p.x m).get
    rw [toMatrix_absorbed h.posDef hl, h.inv_eq, h.forgetting_eq, ← Problem.information_succ]
    refine nonsing_inv_nonsing_inv _ ((isUnit_iff_isUnit_det _).1 ?_)
    rw [Problem.information_succ, ← h.inv_eq, ← h.forgetting_eq]
    exact hpos.isUnit
  solves := by
    have hd : ls.denominator (p.x m) ≠ 0 := (h.denominator_pos hl _).ne'
    -- the old equations fade, and the error is what the new one was short of
    calc p.information (m + 1) *ᵥ (ls.absorbed (p.x m) (p.y m)).coefficients.get
      _ = p.information (m + 1) *ᵥ ls.coefficients.get
            + ls.innovation (p.x m) (p.y m) • (p.x m).get := by
        rw [get_absorbed, mulVec_add, mulVec_smul, h.information_mulVec_gain, smul_smul,
          div_mul_cancel₀ _ hd]
      _ = p.forgetting • p.moment m + ((p.x m).get ⬝ᵥ ls.coefficients.get) • (p.x m).get
            + ls.innovation (p.x m) (p.y m) • (p.x m).get := by
        rw [Problem.information_succ, add_mulVec, smul_mulVec, h.solves, vecMulVec_mulVec,
          op_smul_eq_smul]
      _ = p.moment (m + 1) := by
        rw [innovation_eq, Problem.moment_succ]
        module

theorem update (h : Summarises p m ls) (hepsilon : Scalar.epsilon < p.forgetting)
    (hwithin : ¬ ls.Overgrows (p.x m) (p.y m)) :
    Summarises p (m + 1) (ls.update (p.x m) (p.y m)).result.2 := by
  have hl : 0 < p.forgetting := Exact.epsilon_pos.trans hepsilon
  have haccepted : Scalar.epsilon < ls.denominator (p.x m) := by
    rw [denominator_eq, h.forgetting_eq]
    exact hepsilon.trans_le (le_forgetting_add h.posDef _)
  have hkept : (ls.absorbed (p.x m) (p.y m)).limitWindup.2 = ls.absorbed (p.x m) (p.y m) := by
    rcases (ls.absorbed (p.x m) (p.y m)).limitWindup_cases with ⟨hpast, -⟩ | ⟨-, heq⟩
    · exact absurd hpast hwithin
    · rw [heq]
  rw [update_eq haccepted, Traced.pure_result, hkept]
  exact h.absorbed hl

theorem after_uses (h : Summarises p 0 ls) (hepsilon : Scalar.epsilon < p.forgetting) (m : ℕ)
    (hwithin : ∀ k < m, ¬ (ls.after (p.uses k)).Overgrows (p.x k) (p.y k)) :
    Summarises p m (ls.after (p.uses m)) := by
  induction m with
  | zero => exact h
  | succ m ih =>
      rw [Problem.after_uses_succ]
      exact (ih fun k hk => hwithin k (by omega)).update hepsilon (hwithin m (by omega))

end Summarises

/-! ### The optimum -/

section KnowsNothing

variable {α : Type} [Scalar α]

/-- A model that knows nothing: one that was just started, or just reset. -/
def KnowsNothing (start fresh : LeastSquares α n) : Prop :=
  fresh = start ∨ ∃ history : List (Use α n), fresh = (start.after history).reset

theorem KnowsNothing.exists_reset {seed forgetting : α} {start fresh : LeastSquares α n}
    (h : KnowsNothing start fresh) (hcheck : check seed forgetting = .ok start) :
    ∃ history, fresh = (start.after history).reset := by
  rcases h with rfl | hreset
  · exact ⟨[], (reset_of_check hcheck).symm⟩
  · exact hreset

end KnowsNothing

/--
**The coefficients are the best fit.**  Start a model on a positive seed and a forgetting
factor below one that is above the smallest accepted denominator, or reset it after any
uses, and show it samples.  As long as none of them made the covariance pass the trace
of its seed, the coefficients cost less than all others, and the covariance is the
inverse of the quadratic part of the cost.
-/
theorem coefficients_minimise_cost {seed forgetting : ℝ} (hseed : 0 < seed)
    (hepsilon : Scalar.epsilon < forgetting) (hone : forgetting < 1) :
    ∃ start : LeastSquares ℝ n, check seed forgetting = .ok start ∧
      ∀ fresh, KnowsNothing start fresh → ∀ (x : ℕ → Vector ℝ n) (y : ℕ → ℝ) (m : ℕ),
        let p : Problem n := ⟨seed, forgetting, x, y⟩
        (∀ k < m, ¬ (fresh.after (p.uses k)).Overgrows (x k) (y k)) →
          (∀ θ, θ ≠ (fresh.after (p.uses m)).coefficients.get →
            p.cost m (fresh.after (p.uses m)).coefficients.get < p.cost m θ) ∧
          (fresh.after (p.uses m)).covariance.toMatrix = (p.information m)⁻¹ ∧
          (fresh.after (p.uses m)).covariance.toMatrix * p.information m = 1 := by
  obtain ⟨start, hcheck, -, hstart, hforgets⟩ := exists_start (n := n) hseed hepsilon hone
  refine ⟨start, hcheck, ?_⟩
  intro fresh hfresh x y m p hwithin
  have hbegin : Summarises p 0 fresh := by
    obtain ⟨history, rfl⟩ := hfresh.exists_reset hcheck
    obtain ⟨hsame, hkeeps⟩ := after_sameSettings start history
    exact .of_reset hseed (hsame.trans hstart) (hkeeps.trans hforgets)
  have hnow := hbegin.after_uses hepsilon m hwithin
  have hinformation : (p.information m).PosDef := hnow.inv_eq ▸ hnow.posDef.inv
  have hunit := (isUnit_iff_isUnit_det _).1 hnow.posDef.isUnit
  refine ⟨fun θ hne => Problem.cost_lt_of_ne hinformation hnow.solves hne, ?_, ?_⟩
  · rw [← hnow.inv_eq, nonsing_inv_nonsing_inv _ hunit]
  · rw [← hnow.inv_eq, mul_nonsing_inv _ hunit]

/-- A model with two coefficients whose samples look along one axis and then along the other:
neither makes the covariance pass the trace of its seed. -/
theorem two_samples_minimise_cost :
    ((0 : ℝ) < 1 ∧ (Scalar.epsilon : ℝ) < 9 / 10 ∧ (9 / 10 : ℝ) < 1) ∧
    ∃ start : LeastSquares ℝ 2, check 1 (9 / 10) = .ok start ∧ KnowsNothing start start ∧
      let p : Problem 2 := ⟨1, 9 / 10, fun i => if i = 0 then #v[1, 0] else #v[0, 1], fun i => i + 1⟩
      (∀ k < 2, ¬ (start.after (p.uses k)).Overgrows (p.x k) (p.y k)) ∧
      ∀ θ, θ ≠ (start.after (p.uses 2)).coefficients.get →
        p.cost 2 (start.after (p.uses 2)).coefficients.get < p.cost 2 θ := by
  have hepsilon : (Scalar.epsilon : ℝ) < 9 / 10 := by
    rw [Exact.epsilon_eq]
    norm_num
  have hone : (9 / 10 : ℝ) < 1 := by norm_num
  obtain ⟨start, hcheck, hall⟩ := coefficients_minimise_cost (n := 2) one_pos hepsilon hone
  refine ⟨⟨one_pos, hepsilon, hone⟩, start, hcheck, Or.inl rfl, ?_⟩
  intro p
  obtain ⟨hseed, hforgets⟩ : start.seed = 1 ∧ start.forgetting = 9 / 10 := by
    rw [check_eq_ok (by simp) (by simp) (by simp; norm_num)] at hcheck
    cases hcheck
    exact ⟨rfl, rfl⟩
  have hx₀ : (p.x 0).get = ![1, 0] := by
    funext i
    fin_cases i <;> rfl
  have hx₁ : (p.x 1).get = ![0, 1] := by
    funext i
    fin_cases i <;> rfl
  have hinformation₀ : p.information 0 = 1 := by
    simp [Problem.information, faded_zero, p]
  have hcovariance₀ : (start.after (p.uses 0)).covariance.toMatrix = 1 := by
    rw [(hall start (Or.inl rfl) p.x p.y 0 (by omega)).2.1, hinformation₀, inv_one]
  have hfirst : ¬ (start.after (p.uses 0)).Overgrows (p.x 0) (p.y 0) := by
    rw [Overgrows, trace_absorbed, hcovariance₀, hx₀]
    show ¬ start.seed * _ < (_ - _ / (start.forgetting + _)) / start.forgetting
    rw [hseed, hforgets]
    simp
    norm_num
  have hinformation₁ : p.information 1 = !![19 / 10, 0; 0, 9 / 10] := by
    rw [Problem.information_succ, hinformation₀, hx₀, one_fin_two, smul_of]
    ext i j
    fin_cases i <;> fin_cases j <;> simp [p]
    norm_num
  have hcovariance₁ :
      (start.after (p.uses 1)).covariance.toMatrix = !![10 / 19, 0; 0, 10 / 9] := by
    have hwithin : ∀ k < 1, ¬ (start.after (p.uses k)).Overgrows (p.x k) (p.y k) := by
      intro k hk
      obtain rfl : k = 0 := by omega
      exact hfirst
    rw [(hall start (Or.inl rfl) p.x p.y 1 hwithin).2.1, hinformation₁]
    refine inv_eq_left_inv ?_
    simp [one_fin_two]
  have hsecond : ¬ (start.after (p.uses 1)).Overgrows (p.x 1) (p.y 1) := by
    obtain ⟨hseed', hforgets'⟩ := after_sameSettings start (p.uses 1)
    rw [Overgrows, trace_absorbed, hcovariance₁, hx₁, hseed', hforgets', hseed, hforgets]
    simp [trace_fin_two, mulVec, dotProduct]
    norm_num
  have hwithin : ∀ k < 2, ¬ (start.after (p.uses k)).Overgrows (p.x k) (p.y k) := by
    intro k hk
    interval_cases k
    · exact hfirst
    · exact hsecond
  exact ⟨hwithin, (hall start (Or.inl rfl) p.x p.y 2 hwithin).1⟩

end MotorControl.LeastSquares
