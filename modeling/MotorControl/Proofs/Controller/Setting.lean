/-
Settings of a controller.

Much of a controller is set by instructions and by nothing else: its gains, its set
point, the number of its pole pairs.  `IsSetting` says so of one part: an instruction
of the right kind writes it, every other one leaves it alone, and so does every sample.
Such a part is at any time what the last instruction of its kind said, or what it was
in the first place if there was none, whatever else was done to the controller.
-/
import Mathlib.Data.List.Basic
import MotorControl.Proofs.Controller.Run

namespace MotorControl

/-! ### The last of the answers -/

section

variable {γ β : Type} (f : γ → Option β)

/-- The last answer that the elements of a list give, if any of them gives one. -/
def latest (xs : List γ) : Option β := (xs.filterMap f).getLast?

@[simp] theorem latest_nil : latest f [] = none := rfl

theorem latest_map {δ : Type} (g : β → δ) (xs : List γ) :
    latest (fun x => (f x).map g) xs = (latest f xs).map g := by
  rw [latest, latest, ← List.getLast?_map, List.map_filterMap]

/-- Only what the elements of the list answer counts. -/
theorem latest_congr {f g : γ → Option β} {xs : List γ} (h : ∀ x ∈ xs, f x = g x) :
    latest f xs = latest g xs :=
  congrArg List.getLast? (List.filterMap_congr h)

theorem latest_append (xs ys : List γ) :
    latest f (xs ++ ys) = (latest f ys).or (latest f xs) := by
  rw [latest, List.filterMap_append, List.getLast?_append]
  rfl

@[simp] theorem latest_singleton (x : γ) : latest f [x] = f x := by
  rw [latest, List.filterMap_cons]
  cases f x <;> rfl

theorem latest_cons (x : γ) (xs : List γ) : latest f (x :: xs) = (latest f xs).or (f x) := by
  rw [← List.singleton_append, latest_append, latest_singleton]

theorem latest_eq_none_iff {xs : List γ} : latest f xs = none ↔ ∀ x ∈ xs, f x = none := by
  rw [latest, List.getLast?_eq_none_iff, List.filterMap_eq_nil_iff]

/-- The last answer was given by one of the elements. -/
theorem exists_of_latest {xs : List γ} {y : β} (h : latest f xs = some y) :
    ∃ x ∈ xs, f x = some y :=
  List.mem_filterMap.mp (List.mem_of_getLast? h)

theorem latest_toList_map {δ : Type} (o : Option δ) (g : δ → γ) :
    latest f (o.toList.map g) = o.bind fun x => f (g x) := by
  cases o with
  | none => rfl
  | some x => exact latest_singleton f (g x)

end

namespace Controller

variable {C α σ β : Type}

/-- What a call says about a setting, if it is an instruction of its kind. -/
def Call.said (told? : Instruction α σ → Option β) : Call α σ → Option β
  | .instruct i => told? i
  | .sample .. => none

variable [Controller C α σ]

/-- `view` reads a part of a controller that is set by the instructions `told?` picks out, and by
nothing else, as long as the controller is one that `Keeps` describes. -/
structure IsSetting (Keeps : C → Prop) (view : C → β) (told? : Instruction α σ → Option β) :
    Prop where
  keeps_call (c : C) (k : Call α σ) (h : Keeps c) : Keeps (call c k).result.2
  view_obey (c : C) (i : Instruction α σ) (h : Keeps c) :
    view (obey i c) = (told? i).getD (view c)
  view_calculate (c : C) (currents : Phases α) (angle : α) (h : Keeps c) :
    view (calculate currents angle c).result.2 = view c

namespace IsSetting

variable {Keeps : C → Prop} {view : C → β} {told? : Instruction α σ → Option β}

theorem keeps_after (h : IsSetting Keeps view told?) (ks : List (Call α σ)) {c : C}
    (hc : Keeps c) : Keeps (after c ks) :=
  after_induction h.keeps_call ks c hc

theorem view_call (h : IsSetting Keeps view told?) {c : C} (hc : Keeps c) (k : Call α σ) :
    view (call c k).result.2 = (k.said told?).getD (view c) := by
  cases k with
  | instruct i => exact h.view_obey c i hc
  | sample currents angle => exact h.view_calculate c currents angle hc

/-- After any calls a setting is what the last of them said about it. -/
theorem view_after (h : IsSetting Keeps view told?) (ks : List (Call α σ)) :
    ∀ c : C, Keeps c → view (after c ks) = (latest (Call.said told?) ks).getD (view c) := by
  induction ks with
  | nil => intro c _; rfl
  | cons k ks ih =>
      intro c hc
      rw [after_cons, ih _ (h.keeps_call c k hc), h.view_call hc, latest_cons, Option.getD_or]

end IsSetting

end Controller

end MotorControl
