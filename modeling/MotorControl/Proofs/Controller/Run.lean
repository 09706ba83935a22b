/-
Runs of a controller.

Whoever owns a controller gives it instructions and hands it samples, in any order.
Each sample answers duties and each call may leave events behind, so a run has three
sides: the duties it answers, the controller it ends with, and its events.  The lemmas
below take a run apart at its head and at any place in the middle, and lift to a run
what holds of each of its calls.
-/
import MotorControl.Controller

namespace MotorControl.Controller

/-- What the owner of a controller does with it. -/
inductive Call (α σ : Type) where
  | instruct (call : Instruction α σ)
  | sample (currents : Phases α) (angle : α)

variable {C α σ : Type} [Controller C α σ]

/-- One call.  Only a sample answers duties. -/
def call (c : C) : Call α σ → Traced α (Option Duties × C)
  | .instruct i => pure (none, obey i c)
  | .sample currents angle => (fun r => (some r.1, r.2)) <$> calculate currents angle c

/-- Any number of calls, with the duties in the order they were answered. -/
def run (c : C) : List (Call α σ) → Traced α (List Duties × C)
  | [] => pure ([], c)
  | k :: ks => do
    let answered ← call c k
    let rest ← run answered.2 ks
    return (answered.1.toList ++ rest.1, rest.2)

/-- The duties that a run answers. -/
def outputs (c : C) (ks : List (Call α σ)) : List Duties := (run c ks).result.1

/-- The controller after a run. -/
def after (c : C) (ks : List (Call α σ)) : C := (run c ks).result.2

/-- What a run leaves behind. -/
def events (c : C) (ks : List (Call α σ)) : List (Event α) := (run c ks).events

/-! ### One call and the rest -/

@[simp] theorem outputs_nil (c : C) : outputs c [] = [] := rfl

@[simp] theorem after_nil (c : C) : after c [] = c := rfl

@[simp] theorem events_nil (c : C) : events c [] = [] := rfl

@[simp] theorem outputs_cons (c : C) (k : Call α σ) (ks : List (Call α σ)) :
    outputs c (k :: ks) = (call c k).result.1.toList ++ outputs (call c k).result.2 ks := rfl

@[simp] theorem after_cons (c : C) (k : Call α σ) (ks : List (Call α σ)) :
    after c (k :: ks) = after (call c k).result.2 ks := rfl

@[simp] theorem events_cons (c : C) (k : Call α σ) (ks : List (Call α σ)) :
    events c (k :: ks) = (call c k).events ++ events (call c k).result.2 ks := by
  show (call c k).events ++ (events (call c k).result.2 ks ++ []) = _
  rw [List.append_nil]

theorem after_append (ks ks' : List (Call α σ)) :
    ∀ c : C, after c (ks ++ ks') = after (after c ks) ks' := by
  induction ks with
  | nil => intro c; rfl
  | cons k ks ih => intro c; exact ih _

theorem outputs_append (ks ks' : List (Call α σ)) :
    ∀ c : C, outputs c (ks ++ ks') = outputs c ks ++ outputs (after c ks) ks' := by
  induction ks with
  | nil => intro c; rfl
  | cons k ks ih =>
      intro c
      rw [List.cons_append, outputs_cons, outputs_cons, ih, List.append_assoc]
      rfl

/-! ### From one call to a run -/

/-- What every call preserves holds after every run. -/
theorem after_induction {P : C → Prop} (hcall : ∀ c k, P c → P (call c k).result.2)
    (ks : List (Call α σ)) : ∀ c, P c → P (after c ks) := by
  induction ks with
  | nil => intro c h; exact h
  | cons k ks ih => intro c h; exact ih _ (hcall c k h)

end MotorControl.Controller
