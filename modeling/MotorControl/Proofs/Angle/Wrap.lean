/-
Where an angle is wrapped to, on binary32 numbers.

Every rounding keeps the order.  So the count of whole turns does not fall where the angle
grows, and while the count stays the wrapped angle grows with the angle.  What the four
roundings of the formula do together therefore shows at the seams alone: at the last angle
before the count rises and at the first one after.  There is a seam for every whole number,
next to an odd multiple of half a turn, and those of the angles up to 255 half turns are few
enough to be looked at one by one.

A seam is not quite where it should be, since the count is read off a rounded quotient, and
the turns that are taken off are a rounded product.  The last angle before a seam still
stays below half a turn.  The first one after may fall short: the turns that are taken off
may be more than half a turn above it.  The subtraction itself decides nothing, because from
where turns are taken off at all, the angle, the turns and half a turn are multiples of one
place.  The least angle that falls short is three half turns.
-/
import MotorControl.Angle
import MotorControl.Proofs.Binary32.Monotone

namespace MotorControl.Angle

open Binary32

variable {a b : Float32} {k lo hi : ℤ}

/-! ### Counting turns -/

/-- The turns in an angle, counted from minus half a turn.  The whole ones are taken off. -/
def revolutions (angle : Float32) : Float32 := (angle + Scalar.pi) / Scalar.tau

/-- The turns that are taken off an angle. -/
def turns (angle : Float32) : Float32 := Scalar.tau * Scalar.floor (revolutions angle)

theorem revolutions_mono (h : a ≤ b) (ha : a.isFinite = true) (hb : b.isFinite = true) :
    revolutions a ≤ revolutions b := by
  have hpi : (Scalar.pi : Float32).isFinite = true := by decide
  exact div_le_div_right (add_le_add_right h ha hb hpi) (by decide) (by decide)

/-- The angle has `k` whole turns. -/
structure Turn (k : ℤ) (a : Float32) : Prop where
  ofInt_le : Scalar.ofInt k ≤ revolutions a
  lt_ofInt : revolutions a < Scalar.ofInt (k + 1)
  value?_floor : value? (Scalar.floor (revolutions a)) = some (k : ℚ)

/-- With a count between two whole numbers an angle has one of the whole numbers between. -/
theorem exists_turn (hlo : Scalar.ofInt lo ≤ revolutions a) (hhi : revolutions a < Scalar.ofInt hi)
    (hlo' : lo.natAbs < 2 ^ 22) (hhi' : hi.natAbs < 2 ^ 22) : ∃ k, lo ≤ k ∧ k < hi ∧ Turn k a := by
  have hvalue {n : ℤ} (hn : n.natAbs ≤ 2 ^ 22) :
      value? (Scalar.ofInt n : Float32) = some (n : ℚ) := value?_ofInt (by omega)
  have hfinite := isFinite_between (isFinite_of_value? (hvalue hlo'.le))
    (isFinite_of_value? (hvalue hhi'.le)) hlo (le_of_lt hhi)
  obtain ⟨v, hv⟩ := exists_value? hfinite
  have hle := Int.le_floor.mpr ((le_iff_of_value? (hvalue hlo'.le) hv).mp hlo)
  have hlt := Int.floor_lt.mpr ((lt_iff_of_value? hv (hvalue hhi'.le)).mp hhi)
  refine ⟨⌊v⌋, hle, hlt, ?_, ?_, value?_floor hv (by omega)⟩
  · exact (le_iff_of_value? (hvalue (by omega)) hv).mpr (Int.floor_le v)
  · refine (lt_iff_of_value? hv (hvalue (by omega))).mpr ?_
    exact_mod_cast Int.lt_floor_add_one v

theorem tau_mul_le {x y : Float32} {v w : ℚ} (hx : value? x = some v) (hy : value? y = some w)
    (hle : v ≤ w) : Scalar.tau * x ≤ Scalar.tau * y :=
  mul_le_mul_left ((le_iff_of_value? hx hy).mpr hle) (isFinite_of_value? hx)
    (isFinite_of_value? hy) (by decide) (by decide)

theorem isFinite_tau_mul {x : Float32} (hx : value? x = some (k : ℚ)) (hk : k.natAbs ≤ 1000) :
    (Scalar.tau * x).isFinite = true := by
  have hlo : ((-1000 : ℤ) : ℚ) ≤ k := by exact_mod_cast (by omega : -1000 ≤ k)
  have hhi : (k : ℚ) ≤ (1000 : ℤ) := by exact_mod_cast (by omega : k ≤ 1000)
  have hle := tau_mul_le (value?_ofInt (by decide)) hx hlo
  have hle' := tau_mul_le hx (value?_ofInt (by decide)) hhi
  exact isFinite_between (by decide) (by decide) hle hle'

namespace Turn

/-- Within a turn the same is taken off every angle. -/
theorem value?_turns (h : Turn k a) (hk : k.natAbs ≤ 1000) :
    ∃ p, value? (turns a) = some p ∧ value? (Scalar.tau * Scalar.ofInt k : Float32) = some p := by
  have hvalue : value? (Scalar.ofInt k : Float32) = some (k : ℚ) := value?_ofInt (by omega)
  obtain ⟨p, hp⟩ := exists_value? (isFinite_tau_mul h.value?_floor hk)
  obtain ⟨q, hq⟩ := exists_value? (isFinite_tau_mul hvalue hk)
  have hle := (le_iff_of_value? hp hq).mp (tau_mul_le h.value?_floor hvalue le_rfl)
  have hge := (le_iff_of_value? hq hp).mp (tau_mul_le hvalue h.value?_floor le_rfl)
  exact ⟨p, hp, le_antisymm hle hge ▸ hq⟩

/-- So an angle is wrapped to no less than a smaller one of the turn. -/
theorem sub_le_wrap (h : Turn k a) (hk : k.natAbs ≤ 1000) (hle : b ≤ a)
    (ha : a.isFinite = true) (hb : b.isFinite = true) :
    b - Scalar.tau * Scalar.ofInt k ≤ wrap a := by
  obtain ⟨p, hp, hproduct⟩ := h.value?_turns hk
  exact sub_le_sub hle ((le_iff_of_value? hp hproduct).mpr le_rfl) hb ha
    (isFinite_of_value? hproduct) (isFinite_of_value? hp)

theorem wrap_le_sub (h : Turn k a) (hk : k.natAbs ≤ 1000) (hle : a ≤ b)
    (ha : a.isFinite = true) (hb : b.isFinite = true) :
    wrap a ≤ b - Scalar.tau * Scalar.ofInt k := by
  obtain ⟨p, hp, hproduct⟩ := h.value?_turns hk
  exact sub_le_sub hle ((le_iff_of_value? hproduct hp).mpr le_rfl) ha hb
    (isFinite_of_value? hp) (isFinite_of_value? hproduct)

end Turn

/-! ### Falling short -/

/-- Half a turn, as a rational number. -/
def halfTurn : ℚ := 13176795 / 4194304

theorem value?_pi : value? (Scalar.pi : Float32) = some halfTurn := by decide +kernel

theorem value?_two : value? (2 : Float32) = some 2 := by decide +kernel

theorem value?_no_turn : value? (Scalar.tau * Scalar.ofInt 0 : Float32) = some 0 := by decide

/-- Without rounding, the angle is more than half a turn below the turns that are taken off. -/
def FallsShort (a : Float32) : Prop :=
  ∃ v p, value? a = some v ∧ value? (turns a) = some p ∧ v < p - halfTurn

/-- The turns that are taken off, if any, are more than a third of one. -/
theorem two_le_turns {p : ℚ} (hp : value? (Scalar.tau * Scalar.ofInt k : Float32) = some p)
    (hk : k.natAbs ≤ 1000) (hne : k ≠ 0) : 2 ≤ |p| := by
  have hvalue {n : ℤ} (hn : n.natAbs ≤ 1000) :
      value? (Scalar.ofInt n : Float32) = some (n : ℚ) := value?_ofInt (by omega)
  rcases lt_or_gt_of_ne hne with hneg | hpos
  · have hle : (k : ℚ) ≤ (-1 : ℤ) := by exact_mod_cast (by omega : k ≤ -1)
    have hturn := le_trans (tau_mul_le (hvalue hk) (hvalue (by decide)) hle)
      (by decide : Scalar.tau * Scalar.ofInt (-1) ≤ (-2 : Float32))
    exact le_abs'.mpr (Or.inl ((le_iff_of_value? hp (value?_neg value?_two)).mp hturn))
  · have hle : ((1 : ℤ) : ℚ) ≤ k := by exact_mod_cast (by omega : 1 ≤ k)
    have hturn := le_trans (by decide : (2 : Float32) ≤ Scalar.tau * Scalar.ofInt 1)
      (tau_mul_le (hvalue (by decide)) (hvalue hk) hle)
    exact le_abs'.mpr (Or.inr ((le_iff_of_value? value?_two hp).mp hturn))

/-- An angle that falls short is far from zero, since from small angles no turn is taken off. -/
theorem Turn.two_le_abs (h : Turn k a) {v p : ℚ} (hv : value? a = some v)
    (hp : value? (Scalar.tau * Scalar.ofInt k : Float32) = some p)
    (hshort : v < p - halfTurn) : 2 ≤ |v| := by
  by_contra hsmall
  obtain ⟨hlo, hhi⟩ := abs_lt.mp (not_le.mp hsmall)
  have ha := isFinite_of_value? hv
  have hle : (-2 : Float32) ≤ a := (le_iff_of_value? (value?_neg value?_two) hv).mpr hlo.le
  have hle' : a ≤ (2 : Float32) := (le_iff_of_value? hv value?_two).mpr hhi.le
  have hcount : Scalar.ofInt 0 ≤ revolutions a :=
    le_trans (by decide) (revolutions_mono hle (by decide) ha)
  have hcount' : revolutions a < Scalar.ofInt 1 :=
    lt_of_le_of_lt (revolutions_mono hle' ha (by decide)) (by decide)
  obtain ⟨k', hk, hk', hturn⟩ := exists_turn hcount hcount' (by decide) (by decide)
  have hsame := Option.some.inj (h.value?_floor.symm.trans hturn.value?_floor)
  obtain rfl : k = 0 := by
    rw [Int.cast_inj] at hsame
    omega
  cases value?_no_turn.symm.trans hp
  rw [halfTurn] at hshort
  linarith

/-- Such an angle, and the turns that are taken off it, are multiples of the last place of half a
turn. -/
theorem Turn.exists_multiples (h : Turn k a) (hk : k.natAbs ≤ 1000) {v p : ℚ}
    (hv : value? a = some v) (hp : value? (Scalar.tau * Scalar.ofInt k : Float32) = some p)
    (hshort : v < p - halfTurn) : ∃ n q : ℤ, v = n / 4194304 ∧ p = q / 4194304 := by
  have hplace : (2 : ℚ) ^ (-22 : ℤ) = 1 / 4194304 := by norm_num
  have hleast : (2 : ℚ) ^ (23 + -22 : ℤ) = 2 := by norm_num
  obtain ⟨n, hn⟩ := exists_multiple hv (hleast ▸ h.two_le_abs hv hp hshort)
  rw [hplace, mul_one_div] at hn
  rcases eq_or_ne k 0 with rfl | hne
  · cases value?_no_turn.symm.trans hp
    exact ⟨n, 0, hn, by norm_num⟩
  · obtain ⟨q, hq⟩ := exists_multiple hp (hleast ▸ two_le_turns hp hk hne)
    rw [hplace, mul_one_div] at hq
    exact ⟨n, q, hn, hq⟩

/-- An angle is wrapped to below minus half a turn exactly if it falls short: the last subtraction
has no part in it. -/
theorem Turn.wrap_lt_iff (h : Turn k a) (hk : k.natAbs ≤ 1000) (ha : a.isFinite = true) :
    wrap a < -Scalar.pi ↔ FallsShort a := by
  obtain ⟨v, hv⟩ := exists_value? ha
  obtain ⟨p, hp, hproduct⟩ := h.value?_turns hk
  have hwrap : Rounds (v - p) (wrap a) := .sub hv hp
  constructor
  · intro hlt
    refine ⟨v, p, hv, hp, ?_⟩
    by_contra hnot
    have hle : -Scalar.pi ≤ wrap a :=
      Rounds.le (.of_value? (value?_neg value?_pi)) hwrap (by linarith)
    exact not_lt_of_le hle hlt
  · rintro ⟨v', p', hv', hp', hshort⟩
    cases hv.symm.trans hv'
    cases hp.symm.trans hp'
    obtain ⟨n, q, rfl, rfl⟩ := h.exists_multiples hk hv hproduct hshort
    -- It falls short by a whole place, and the next number below minus half a turn is one place away.
    have hnext : (n : ℚ) + 13176796 ≤ q := by
      have hlt : (n : ℚ) + 13176795 < q := by
        rw [halfTurn] at hshort
        linarith
      have hlt' : n + 13176795 < q := by exact_mod_cast hlt
      exact_mod_cast (by omega : n + 13176796 ≤ q)
    have hbelow : value? (-(Scalar.pi + 1 / 4194304) : Float32) =
      some (-13176796 / 4194304) := by decide +kernel
    have hle := hwrap.le (.of_value? hbelow) (by linarith)
    exact lt_of_le_of_lt hle (by decide)

/-! ### Seams -/

/-- The last angle before the count rises to `k`, the first one after, and where they are wrapped
to. -/
structure Seam (k : ℤ) (last first : Float32) : Prop where
  next : IsNext (parts last) (parts first)
  last_lt : revolutions last < Scalar.ofInt k
  le_first : Scalar.ofInt k ≤ revolutions first
  last_wrap : last - Scalar.tau * Scalar.ofInt (k - 1) < Scalar.pi
  first_wrap : -(Scalar.pi + 165 / 4194304) ≤ first - Scalar.tau * Scalar.ofInt k
  first_wrap_near : |k| ≤ 1 → -Scalar.pi ≤ first - Scalar.tau * Scalar.ofInt k

instance (k : ℤ) (last first : Float32) : Decidable (Seam k last first) :=
  decidable_of_iff
    (IsNext (parts last) (parts first) ∧ revolutions last < Scalar.ofInt k ∧
      Scalar.ofInt k ≤ revolutions first ∧
      last - Scalar.tau * Scalar.ofInt (k - 1) < Scalar.pi ∧
      -(Scalar.pi + 165 / 4194304) ≤ first - Scalar.tau * Scalar.ofInt k ∧
      (|k| ≤ 1 → -Scalar.pi ≤ first - Scalar.tau * Scalar.ofInt k))
    ⟨fun ⟨hnext, hlast, hfirst, hlast', hfirst', hnear⟩ =>
      ⟨hnext, hlast, hfirst, hlast', hfirst', hnear⟩,
    fun h => ⟨h.next, h.last_lt, h.le_first, h.last_wrap, h.first_wrap, h.first_wrap_near⟩⟩

namespace Seam

variable {last first : Float32}

theorem isFinite (h : Seam k last first) : last.isFinite = true ∧ first.isFinite = true :=
  isFinite_of_isNext h.next

/-- Every angle is on one of the two sides, with a count that says on which. -/
theorem sides (h : Seam k last first) (ha : a.isFinite = true) :
    a ≤ last ∧ revolutions a < Scalar.ofInt k ∨ first ≤ a ∧ Scalar.ofInt k ≤ revolutions a := by
  rcases le_or_le_of_isNext h.next ha with hle | hle
  · exact Or.inl ⟨hle, lt_of_le_of_lt (revolutions_mono hle ha h.isFinite.1) h.last_lt⟩
  · exact Or.inr ⟨hle, le_trans h.le_first (revolutions_mono hle h.isFinite.2 ha)⟩

theorem first_le (h : Seam k last first) (ha : a.isFinite = true)
    (hcount : Scalar.ofInt k ≤ revolutions a) : first ≤ a := by
  rcases h.sides ha with ⟨-, hlt⟩ | ⟨hle, -⟩
  · cases not_lt_of_le hcount hlt
  · exact hle

theorem le_last (h : Seam k last first) (ha : a.isFinite = true)
    (hcount : revolutions a < Scalar.ofInt k) : a ≤ last := by
  rcases h.sides ha with ⟨hle, -⟩ | ⟨-, hle⟩
  · exact hle
  · cases not_lt_of_le hle hcount

theorem lt_of_lt_first (h : Seam k last first) (ha : a.isFinite = true) (hlt : a < first) :
    revolutions a < Scalar.ofInt k := by
  rcases h.sides ha with ⟨-, hcount⟩ | ⟨hle, -⟩
  · exact hcount
  · cases not_lt_of_le hle hlt

end Seam

/-- The number that is `places` above the one nearest to the odd multiple of half a turn at which
the count rises to `k`. -/
def near (k places : ℤ) : Float32 :=
  -- The mantissa of half a turn, and the places by which its multiple is longer.
  let multiple := (2 * k - 1).natAbs * 13176795
  let excess := multiple.log2 - 23
  let bits : ℕ := (excess + 127) <<< 23 + (multiple + 1 <<< excess / 2) >>> excess
  if 0 < k then .ofBits (.ofNat (bits + places).toNat)
  else .ofBits (.ofNat (2 ^ 31 + bits - places).toNat)

/-- The seams of the angles up to 255 half turns. -/
theorem seam_near : ∀ k : ℤ, -127 ≤ k → k ≤ 128 →
    Seam k (near k (-1)) (near k 0) ∨ Seam k (near k (-2)) (near k (-1)) ∨
      Seam k (near k 0) (near k 1) := by
  decide +kernel

theorem exists_seam (hlo : -127 ≤ k) (hhi : k ≤ 128) : ∃ last first, Seam k last first := by
  rcases seam_near k hlo hhi with h | h | h
  · exact ⟨_, _, h⟩
  · exact ⟨_, _, h⟩
  · exact ⟨_, _, h⟩

theorem seam_three_half_turns : Seam 2 (near 2 (-1)) (3 * Scalar.pi) := by
  decide

/-! ### The range -/

/-- The lower end of a turn. -/
theorem Turn.le_wrap (h : Turn k a) (ha : a.isFinite = true) (hlo : -127 ≤ k) (hhi : k ≤ 128) :
    -(Scalar.pi + 165 / 4194304) ≤ wrap a ∧ (|k| ≤ 1 → -Scalar.pi ≤ wrap a) := by
  obtain ⟨last, first, hseam⟩ := exists_seam hlo hhi
  have hle := h.sub_le_wrap (by omega) (hseam.first_le ha h.ofInt_le) ha hseam.isFinite.2
  exact ⟨le_trans hseam.first_wrap hle, fun hk => le_trans (hseam.first_wrap_near hk) hle⟩

/-- The upper end of a turn, the last of which ends at 255 half turns. -/
theorem Turn.wrap_lt (h : Turn k a) (ha : a.isFinite = true) (hle : a ≤ 255 * Scalar.pi)
    (hlo : -127 ≤ k) (hhi : k ≤ 128) : wrap a < Scalar.pi := by
  rcases hhi.lt_or_eq with hlt | rfl
  · obtain ⟨last, first, hseam⟩ := exists_seam (k := k + 1) (by omega) (by omega)
    have hwrap := h.wrap_le_sub (by omega) (hseam.le_last ha h.lt_ofInt) ha hseam.isFinite.1
    have hlast := hseam.last_wrap
    rw [add_sub_cancel_right] at hlast
    exact lt_of_le_of_lt hwrap hlast
  · have hwrap := h.wrap_le_sub (by decide) hle ha (by decide)
    exact lt_of_le_of_lt hwrap (by decide)

/--
**An angle of at most 255 half turns is wrapped to below half a turn, and to minus half a turn at
the least unless it falls short of the turns that are taken off.**  Where it does, it is wrapped to
no more than `165 * 2 ^ -22` below.  From minus three half turns on and below three half turns no
angle falls short.
-/
theorem wrap_within (h : Scalar.abs a ≤ 255 * Scalar.pi) :
    (-Scalar.pi ≤ wrap a ∧ wrap a < Scalar.pi ↔ ¬ FallsShort a) ∧
      -(Scalar.pi + 165 / 4194304) ≤ wrap a ∧ wrap a < Scalar.pi ∧
      (-(3 * Scalar.pi) ≤ a → a < 3 * Scalar.pi → ¬ FallsShort a) := by
  have hlimit : (255 * Scalar.pi : Float32).isFinite = true := by decide
  have hlimit' : (-(255 * Scalar.pi) : Float32).isFinite = true := by decide
  obtain ⟨hlo, hhi⟩ := between_of_abs_le h hlimit
  have ha := isFinite_between hlimit' hlimit hlo hhi
  have hcount : Scalar.ofInt (-127) ≤ revolutions a :=
    le_trans (by decide) (revolutions_mono hlo hlimit' ha)
  have hcount' : revolutions a < Scalar.ofInt 129 :=
    lt_of_le_of_lt (revolutions_mono hhi ha hlimit) (by decide)
  obtain ⟨k, hk, hk', hturn⟩ := exists_turn hcount hcount' (by decide) (by decide)
  have hlt := hturn.wrap_lt ha hhi hk (by omega)
  have hle := (hturn.le_wrap ha hk (by omega)).1
  have hshort := hturn.wrap_lt_iff (by omega) ha
  refine ⟨⟨?_, ?_⟩, hle, hlt, ?_⟩
  · rintro ⟨hge, -⟩
    rw [← hshort]
    exact not_lt_of_le hge
  · intro hnot
    rw [← hshort] at hnot
    exact ⟨le_of_not_lt (isNaN_of_le hle).2 (by decide) hnot, hlt⟩
  · intro hlo hhi
    have hnear : Scalar.ofInt (-1) ≤ revolutions a :=
      le_trans (by decide) (revolutions_mono hlo (by decide) ha)
    have hnear' := seam_three_half_turns.lt_of_lt_first ha hhi
    obtain ⟨k, hk, hk', hturn⟩ := exists_turn hnear hnear' (by decide) (by decide)
    rw [← hshort]
    exact not_lt_of_le ((hturn.le_wrap ha (by omega) (by omega)).2 (abs_le.mpr ⟨hk, by omega⟩))

/-- The last angle before three half turns is wrapped to just below half a turn, and three half turns
fall short. -/
theorem wrap_within_at_three_half_turns :
    Scalar.abs (9.424777 : Float32) ≤ 255 * Scalar.pi ∧
      -(3 * Scalar.pi) ≤ (9.424777 : Float32) ∧ (9.424777 : Float32) < 3 * Scalar.pi ∧
      -Scalar.pi ≤ wrap (9.424777 : Float32) ∧ wrap (9.424777 : Float32) < Scalar.pi ∧
      Scalar.abs (3 * Scalar.pi : Float32) ≤ 255 * Scalar.pi ∧ FallsShort (3 * Scalar.pi) := by
  have hfar : Scalar.abs (9.424777 : Float32) ≤ 255 * Scalar.pi := by decide
  have hlo : -(3 * Scalar.pi) ≤ (9.424777 : Float32) := by decide
  have hhi : (9.424777 : Float32) < 3 * Scalar.pi := by decide
  have hfar' : Scalar.abs (3 * Scalar.pi : Float32) ≤ 255 * Scalar.pi := by decide
  have hmissed : ¬ -Scalar.pi ≤ wrap (3 * Scalar.pi : Float32) := by decide
  obtain ⟨hrange, -, -, hnear⟩ := wrap_within hfar
  obtain ⟨hge, hlt⟩ := hrange.mpr (hnear hlo hhi)
  obtain ⟨hrange', -⟩ := wrap_within hfar'
  refine ⟨hfar, hlo, hhi, hge, hlt, hfar', ?_⟩
  by_contra hnot
  exact hmissed (hrange'.mpr hnot).1

/-- The angle that falls the farthest below minus half a turn. -/
example : wrap (424.11499 : Float32) ≤ -(Scalar.pi + 165 / 4194304) := by
  decide

/-- Three half turns are wrapped to below minus half a turn. -/
theorem wrap_three_half_turns :
    Scalar.abs (3 * Scalar.pi : Float32) ≤ 255 * Scalar.pi ∧
      ¬ (-Scalar.pi ≤ wrap (3 * Scalar.pi : Float32) ∧ wrap (3 * Scalar.pi : Float32) < Scalar.pi) := by
  decide

end MotorControl.Angle
