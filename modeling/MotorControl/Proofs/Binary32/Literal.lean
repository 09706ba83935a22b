/-
The grammar of numbers.

A number is written as an optional sign and a magnitude.  A magnitude is a decimal number
or one of three names, in any case; a decimal number is a row of digits with an optional
point, at least one digit in all, and an optional exponent.  `Reads` says so rule by
rule, and the reader answers exactly what the rules derive.

The digits of a number end where the first other character stands, and neither a point
nor the letter of an exponent is a digit, so no text can be taken apart in two ways.
-/
import Mathlib.Data.List.TakeWhile
import MotorControl.Binary32.Text

namespace MotorControl.Binary32

/-! ### The rules -/

/-- A row of digits, which may be empty. -/
def IsDigits (ds : List Char) : Prop := ∀ c ∈ ds, c.isDigit = true

/-- An exponent has a digit at least, and may have a sign. -/
inductive ReadsExponent : List Char → Int → Prop
  | plain {ds : List Char} (h : IsDigits ds) (hne : ds ≠ []) : ReadsExponent ds (natOfDigits ds)
  | plus {ds : List Char} (h : IsDigits ds) (hne : ds ≠ []) :
      ReadsExponent ('+' :: ds) (natOfDigits ds)
  | minus {ds : List Char} (h : IsDigits ds) (hne : ds ≠ []) :
      ReadsExponent ('-' :: ds) (-natOfDigits ds)

/-- What can follow the digits: nothing, or an exponent after its letter. -/
inductive ReadsSuffix : List Char → Int → Prop
  | nil : ReadsSuffix [] 0
  | exponent {c : Char} {cs : List Char} {x : Int} (hc : c = 'e' ∨ c = 'E')
      (h : ReadsExponent cs x) : ReadsSuffix (c :: cs) x

/-- A decimal number without sign, as its digits and a power of ten. -/
inductive ReadsDecimal : List Char → Nat → Int → Prop
  | whole {ds cs : List Char} {x : Int} (hds : IsDigits ds) (hne : ds ≠ [])
      (h : ReadsSuffix cs x) : ReadsDecimal (ds ++ cs) (natOfDigits ds) x
  | point {ds fs cs : List Char} {x : Int} (hds : IsDigits ds) (hfs : IsDigits fs)
      (hne : ds ++ fs ≠ []) (h : ReadsSuffix cs x) :
      ReadsDecimal (ds ++ '.' :: (fs ++ cs)) (natOfDigits (ds ++ fs)) (x - fs.length)

/-- A magnitude, and the number nearest to it. -/
inductive ReadsMagnitude : List Char → Float32 → Prop
  | decimal {cs : List Char} {m : Nat} {x : Int} (h : ReadsDecimal cs m x) :
      ReadsMagnitude cs (ofDecimal m x)
  | infinity {cs : List Char}
      (h : cs.map Char.toLower = "inf".toList ∨ cs.map Char.toLower = "infinity".toList) :
      ReadsMagnitude cs (1.0 / 0.0)
  | nan {cs : List Char} (h : cs.map Char.toLower = "nan".toList) : ReadsMagnitude cs (0.0 / 0.0)

/-- A number. -/
inductive Reads : List Char → Float32 → Prop
  | plain {cs : List Char} {v : Float32} (h : ReadsMagnitude cs v) : Reads cs v
  | plus {cs : List Char} {v : Float32} (h : ReadsMagnitude cs v) : Reads ('+' :: cs) v
  | minus {cs : List Char} {v : Float32} (h : ReadsMagnitude cs v) : Reads ('-' :: cs) (-v)

/-! ### Exponents -/

/-- The number that digits alone stand for. -/
def digits? (ds : List Char) : Option Int :=
  if !ds.isEmpty && ds.all Char.isDigit then some (natOfDigits ds) else none

theorem digits?_eq_some_iff {ds : List Char} {x : Int} :
    digits? ds = some x ↔ IsDigits ds ∧ ds ≠ [] ∧ natOfDigits ds = x := by
  unfold digits?
  rw [Option.ite_none_right_eq_some, Option.some.injEq, Bool.and_eq_true, List.all_eq_true,
    Bool.not_eq_true', List.isEmpty_eq_false_iff, and_comm (a := ds ≠ []), and_assoc]
  rfl

/-- Where no sign stands, the digits begin. -/
theorem exponent?_of_head {ds : List Char} (hminus : ds.head? ≠ some '-')
    (hplus : ds.head? ≠ some '+') : exponent? ds = digits? ds := by
  unfold exponent?
  split
  · exact absurd rfl hminus
  · exact absurd rfl hplus
  · rfl

theorem exponent?_eq_some_iff {cs : List Char} {x : Int} :
    exponent? cs = some x ↔ ReadsExponent cs x := by
  constructor
  · intro h
    by_cases hminus : cs.head? = some '-'
    · obtain ⟨ds, rfl⟩ := List.head?_eq_some_iff.mp hminus
      obtain ⟨n, hn, rfl⟩ := Option.map_eq_some_iff.mp (show (digits? ds).map _ = some x from h)
      obtain ⟨hds, hne, rfl⟩ := digits?_eq_some_iff.mp hn
      exact .minus hds hne
    by_cases hplus : cs.head? = some '+'
    · obtain ⟨ds, rfl⟩ := List.head?_eq_some_iff.mp hplus
      obtain ⟨hds, hne, rfl⟩ := digits?_eq_some_iff.mp (show digits? ds = some x from h)
      exact .plus hds hne
    · rw [exponent?_of_head hminus hplus] at h
      obtain ⟨hds, hne, rfl⟩ := digits?_eq_some_iff.mp h
      exact .plain hds hne
  · intro h
    cases h with
    | plain hds hne =>
        have hhead (c : Char) (hc : c.isDigit = false) : cs.head? ≠ some c := by
          intro heq
          rw [hds c (List.mem_of_mem_head? heq)] at hc
          cases hc
        rw [exponent?_of_head (hhead '-' rfl) (hhead '+' rfl)]
        exact digits?_eq_some_iff.mpr ⟨hds, hne, rfl⟩
    | plus hds hne => exact digits?_eq_some_iff.mpr ⟨hds, hne, rfl⟩
    | minus hds hne =>
        exact congrArg (Option.map (- ·)) (digits?_eq_some_iff.mpr ⟨hds, hne, rfl⟩)

/-- The exponent after the digits, zero where there is none. -/
def suffix? : List Char → Option Int
  | [] => some 0
  | c :: cs => if c = 'e' ∨ c = 'E' then exponent? cs else none

theorem suffix?_eq_some_iff {cs : List Char} {x : Int} : suffix? cs = some x ↔ ReadsSuffix cs x := by
  constructor
  · intro h
    cases cs with
    | nil => cases h; exact .nil
    | cons c cs =>
        obtain ⟨hc, h⟩ := Option.ite_none_right_eq_some.mp h
        exact .exponent hc (exponent?_eq_some_iff.mp h)
  · intro h
    cases h with
    | nil => rfl
    | exponent hc h => exact (if_pos hc).trans (exponent?_eq_some_iff.mpr h)

/-! ### Decimal numbers -/

/-- The text goes on, if it does, with something else than a digit. -/
def NoDigitFirst (cs : List Char) : Prop := ∀ c ∈ cs.head?, c.isDigit = false

theorem noDigitFirst_dropWhile (cs : List Char) : NoDigitFirst (cs.dropWhile Char.isDigit) := by
  intro c hc
  induction cs with
  | nil => cases hc
  | cons d cs ih =>
      rw [List.dropWhile_cons] at hc
      split at hc
      · exact ih hc
      · rename_i hd
        obtain rfl := Option.some.inj hc
        exact Bool.eq_false_iff.mpr hd

theorem ReadsSuffix.noDigitFirst {cs : List Char} {x : Int} (h : ReadsSuffix cs x) :
    NoDigitFirst cs := by
  cases h with
  | nil => exact nofun
  | exponent hc =>
      intro c' hc'
      obtain rfl := Option.some.inj hc'
      obtain rfl | rfl := hc <;> rfl

theorem takeWhile_digits {ds cs : List Char} (hds : IsDigits ds) (hcs : NoDigitFirst cs) :
    (ds ++ cs).takeWhile Char.isDigit = ds := by
  rw [List.takeWhile_append_of_pos hds]
  cases cs with
  | nil => exact List.append_nil ds
  | cons c cs =>
      rw [List.takeWhile_cons_of_neg (Bool.not_eq_true _ ▸ hcs c rfl), List.append_nil]

theorem dropWhile_digits {ds cs : List Char} (hds : IsDigits ds) (hcs : NoDigitFirst cs) :
    (ds ++ cs).dropWhile Char.isDigit = cs := by
  rw [List.dropWhile_append_of_pos hds]
  cases cs with
  | nil => rfl
  | cons c cs => exact List.dropWhile_cons_of_neg (Bool.not_eq_true _ ▸ hcs c rfl)

theorem decimal?_point {ds fs cs : List Char} (hds : IsDigits ds) (hfs : IsDigits fs)
    (hcs : NoDigitFirst cs) :
    decimal? (ds ++ '.' :: (fs ++ cs)) =
      if ds ++ fs = [] then none
      else (suffix? cs).map fun x => (natOfDigits (ds ++ fs), x - (fs.length : Int)) := by
  have hpoint : NoDigitFirst ('.' :: (fs ++ cs)) := by
    intro c hc
    obtain rfl := Option.some.inj hc
    rfl
  unfold decimal?
  simp only [takeWhile_digits hds hpoint, dropWhile_digits hds hpoint, takeWhile_digits hfs hcs,
    dropWhile_digits hfs hcs, Bool.and_eq_true, List.isEmpty_iff, List.append_eq_nil_iff]
  by_cases hne : ds = [] ∧ fs = []
  · rw [if_pos hne, if_pos hne]
  · rw [if_neg hne, if_neg hne]
    cases cs with
    | nil => exact congrArg (fun x => some (_, x)) (Int.zero_sub _).symm
    | cons c cs => by_cases hc : c = 'e' ∨ c = 'E' <;> simp [suffix?, hc]

/-- Without a point, the power of ten is the exponent. -/
theorem decimal?_whole {ds cs : List Char} (hds : IsDigits ds) (hcs : NoDigitFirst cs)
    (hpoint : cs.head? ≠ some '.') :
    decimal? (ds ++ cs) =
      if ds = [] then none else (suffix? cs).map fun x => (natOfDigits ds, x) := by
  unfold decimal?
  simp only [takeWhile_digits hds hcs, dropWhile_digits hds hcs]
  split
  · exact absurd rfl hpoint
  · simp only [List.isEmpty_nil, Bool.and_true, List.isEmpty_iff, List.append_nil]
    by_cases hne : ds = []
    · rw [if_pos hne, if_pos hne]
    · rw [if_neg hne, if_neg hne]
      cases cs with
      | nil => rfl
      | cons c cs => by_cases hc : c = 'e' ∨ c = 'E' <;> simp [suffix?, hc]

theorem decimal?_eq_some_iff {cs : List Char} {m : Nat} {x : Int} :
    decimal? cs = some (m, x) ↔ ReadsDecimal cs m x := by
  constructor
  · intro h
    have hds : IsDigits (cs.takeWhile Char.isDigit) := fun c hc => List.mem_takeWhile_imp hc
    have hfirst := noDigitFirst_dropWhile cs
    rw [← List.takeWhile_append_dropWhile (p := Char.isDigit) (l := cs)] at h ⊢
    generalize cs.takeWhile Char.isDigit = ds at h hds ⊢
    generalize cs.dropWhile Char.isDigit = rest at h hfirst ⊢
    by_cases hpoint : rest.head? = some '.'
    · obtain ⟨r, rfl⟩ := List.head?_eq_some_iff.mp hpoint
      have hfs : IsDigits (r.takeWhile Char.isDigit) := fun c hc => List.mem_takeWhile_imp hc
      have hend := noDigitFirst_dropWhile r
      rw [← List.takeWhile_append_dropWhile (p := Char.isDigit) (l := r)] at h ⊢
      generalize r.takeWhile Char.isDigit = fs at h hfs ⊢
      generalize r.dropWhile Char.isDigit = tail at h hend ⊢
      rw [decimal?_point hds hfs hend, Option.ite_none_left_eq_some, Option.map_eq_some_iff] at h
      obtain ⟨hne, y, hy, heq⟩ := h
      cases heq
      exact .point hds hfs hne (suffix?_eq_some_iff.mp hy)
    · rw [decimal?_whole hds hfirst hpoint, Option.ite_none_left_eq_some, Option.map_eq_some_iff]
        at h
      obtain ⟨hne, y, hy, heq⟩ := h
      cases heq
      exact .whole hds hne (suffix?_eq_some_iff.mp hy)
  · intro h
    cases h with
    | @whole ds tail x hds hne h =>
        have hpoint : tail.head? ≠ some '.' := by
          intro hhead
          cases h with
          | nil => cases hhead
          | exponent hc =>
              obtain rfl := Option.some.inj hhead
              exact absurd hc (by decide)
        rw [decimal?_whole hds h.noDigitFirst hpoint, if_neg hne, suffix?_eq_some_iff.mpr h]
        rfl
    | point hds hfs hne h =>
        rw [decimal?_point hds hfs h.noDigitFirst, if_neg hne, suffix?_eq_some_iff.mpr h]
        rfl

/-! ### Magnitudes and numbers -/

/-- A decimal number begins with a digit or with the point. -/
theorem ReadsDecimal.head {cs : List Char} {m : Nat} {x : Int} (h : ReadsDecimal cs m x) :
    ∃ c ∈ cs.head?, c.isDigit = true ∨ c = '.' := by
  have hdigits {ds cs : List Char} (hds : IsDigits ds) (hne : ds ≠ []) :
      ∃ c ∈ (ds ++ cs).head?, c.isDigit = true ∨ c = '.' := by
    cases ds with
    | nil => exact absurd rfl hne
    | cons d ds => exact ⟨d, rfl, .inl (hds d List.mem_cons_self)⟩
  cases h with
  | whole hds hne h => exact hdigits hds hne
  | @point ds fs tail x hds hfs hne h =>
      by_cases hempty : ds = []
      · subst hempty
        exact ⟨'.', rfl, .inr rfl⟩
      · exact hdigits hds hempty

/-- The letters of a name, in whatever case they are written. -/
def IsName (cs : List Char) : Prop :=
  cs.map Char.toLower = "inf".toList ∨ cs.map Char.toLower = "infinity".toList ∨
    cs.map Char.toLower = "nan".toList

theorem toLower_of_isDigit {c : Char} (h : c.isDigit = true) : c.toLower = c := by
  have hle : c.val ≤ '9'.val := of_decide_eq_true ((Bool.and_eq_true _ _).mp h).2
  exact dif_neg fun hupper => absurd (UInt32.le_trans hupper.1 hle) (by decide)

/-- A name begins neither like a decimal number nor with a sign. -/
theorem IsName.head {cs : List Char} {c : Char} (h : IsName cs) (hc : c ∈ cs.head?) :
    ¬ (c.isDigit = true ∨ c = '.') ∧ c ≠ '-' ∧ c ≠ '+' := by
  have hlower : c.toLower = 'i' ∨ c.toLower = 'n' := by
    obtain ⟨tail, rfl⟩ := List.head?_eq_some_iff.mp hc
    obtain h | h | h := h <;> obtain ⟨hhead, -⟩ := List.cons.inj h
    · exact .inl hhead
    · exact .inl hhead
    · exact .inr hhead
  refine ⟨?_, ?_, ?_⟩
  · rintro (hdigit | rfl)
    · rw [toLower_of_isDigit hdigit] at hlower
      obtain rfl | rfl := hlower <;> cases hdigit
    · revert hlower
      decide
  all_goals
    rintro rfl
    revert hlower
    decide

theorem decimal?_of_isName {cs : List Char} (h : IsName cs) : decimal? cs = none := by
  cases hdecimal : decimal? cs with
  | none => rfl
  | some found =>
      obtain ⟨c, hc, hfirst⟩ := (decimal?_eq_some_iff.mp hdecimal).head
      exact absurd hfirst (h.head hc).1

theorem ofList_eq_iff {cs : List Char} {s : String} : String.ofList cs = s ↔ cs = s.toList :=
  ⟨fun h => h ▸ String.toList_ofList.symm, fun h => h ▸ String.ofList_toList⟩

theorem magnitude?_eq_some_iff {cs : List Char} {v : Float32} :
    magnitude? cs = some v ↔ ReadsMagnitude cs v := by
  unfold magnitude?
  constructor
  · intro h
    cases hdecimal : decimal? cs with
    | some found =>
        rw [hdecimal] at h
        obtain rfl := Option.some.inj h
        exact .decimal (decimal?_eq_some_iff.mp hdecimal)
    | none =>
        simp only [hdecimal, ofList_eq_iff] at h
        split at h
        · rename_i hname
          obtain rfl := Option.some.inj h
          exact .infinity hname
        · obtain ⟨hname, h⟩ := Option.ite_none_right_eq_some.mp h
          obtain rfl := Option.some.inj h
          exact .nan hname
  · intro h
    cases h with
    | decimal h => rw [decimal?_eq_some_iff.mpr h]
    | infinity h =>
        simp only [decimal?_of_isName (h.imp_right Or.inl), ofList_eq_iff]
        exact if_pos h
    | nan h =>
        simp only [decimal?_of_isName (.inr (.inr h)), ofList_eq_iff, h]
        rfl

/-- A magnitude does not begin with a sign. -/
theorem ReadsMagnitude.head {cs : List Char} {v : Float32} (h : ReadsMagnitude cs v) :
    cs.head? ≠ some '-' ∧ cs.head? ≠ some '+' := by
  have hname (hname : IsName cs) : cs.head? ≠ some '-' ∧ cs.head? ≠ some '+' :=
    ⟨fun hc => (hname.head hc).2.1 rfl, fun hc => (hname.head hc).2.2 rfl⟩
  cases h with
  | decimal h =>
      obtain ⟨c, hc, hfirst⟩ := h.head
      rw [Option.mem_def.mp hc]
      constructor <;>
        · intro heq
          obtain rfl := Option.some.inj heq
          revert hfirst
          decide
  | infinity h => exact hname (h.imp_right Or.inl)
  | nan h => exact hname (.inr (.inr h))

theorem read?_of_head {cs : List Char} (hminus : cs.head? ≠ some '-') (hplus : cs.head? ≠ some '+') :
    read? cs = magnitude? cs := by
  unfold read?
  split
  · exact absurd rfl hminus
  · exact absurd rfl hplus
  · rfl

/-- The reader answers what the rules derive. -/
theorem read?_eq_some_iff {cs : List Char} {v : Float32} : read? cs = some v ↔ Reads cs v := by
  constructor
  · intro h
    by_cases hminus : cs.head? = some '-'
    · obtain ⟨tail, rfl⟩ := List.head?_eq_some_iff.mp hminus
      obtain ⟨w, hw, rfl⟩ := Option.map_eq_some_iff.mp (show (magnitude? tail).map _ = some v from h)
      exact .minus (magnitude?_eq_some_iff.mp hw)
    by_cases hplus : cs.head? = some '+'
    · obtain ⟨tail, rfl⟩ := List.head?_eq_some_iff.mp hplus
      exact .plus (magnitude?_eq_some_iff.mp (show magnitude? tail = some v from h))
    · rw [read?_of_head hminus hplus] at h
      exact .plain (magnitude?_eq_some_iff.mp h)
  · intro h
    cases h with
    | plain h => rw [read?_of_head h.head.1 h.head.2, magnitude?_eq_some_iff.mpr h]
    | plus h => exact magnitude?_eq_some_iff.mpr h
    | minus h => exact congrArg (Option.map (- ·)) (magnitude?_eq_some_iff.mpr h)

end MotorControl.Binary32
