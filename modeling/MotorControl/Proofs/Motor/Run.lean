/-
Runs of operations.

A run stops at the first operation that fails, and its events are those of its
operations one after another.  The lemmas below take a run apart at its head and at
any place in the middle, with the faults kept, so that two runs can be compared
without asking whether they fail.
-/
import MotorControl.Motor.Operation

namespace MotorControl

namespace Traced

variable {α β : Type}

/-- The same result, with other events before it. -/
def precededBy (es : List (Event α)) (t : Traced α β) : Traced α β := ⟨t.result, es ++ t.events⟩

@[simp] theorem precededBy_result (es : List (Event α)) (t : Traced α β) :
    (t.precededBy es).result = t.result := rfl

@[simp] theorem precededBy_events (es : List (Event α)) (t : Traced α β) :
    (t.precededBy es).events = es ++ t.events := rfl

@[simp] theorem precededBy_precededBy (es fs : List (Event α)) (t : Traced α β) :
    (t.precededBy fs).precededBy es = t.precededBy (es ++ fs) := by
  rw [precededBy, precededBy, precededBy, List.append_assoc]

end Traced

namespace Motor

variable {C σ : Type} [Controller C Float32 σ] {m : Motor C}

theorem run_cons (m : Motor C) (op : Operation σ) (ops : List (Operation σ)) :
    m.run (op :: ops) = m.step op >>= fun done =>
      Traced.precededBy done.events <$> done.result.2.run ops := by
  rw [run]
  cases m.step op with
  | error fault => rfl
  | ok done => cases done.result.2.run ops <;> rfl

/-- A run goes on from where its first part ends. -/
theorem run_append (ops ops' : List (Operation σ)) :
    ∀ m : Motor C, m.run (ops ++ ops') = m.run ops >>= fun t =>
      Traced.precededBy t.events <$> t.result.run ops' := by
  induction ops with
  | nil =>
      intro m
      show m.run ops' = Traced.precededBy [] <$> m.run ops'
      exact (id_map _).symm
  | cons op ops ih =>
      intro m
      rw [List.cons_append, run_cons, run_cons, bind_assoc]
      refine congrArg _ (funext fun done => ?_)
      rw [ih, map_bind, bind_map_left]
      refine congrArg _ (funext fun t => ?_)
      rw [← comp_map, Traced.precededBy_result, Traced.precededBy_events]
      exact congrArg (· <$> _) (funext fun u => Traced.precededBy_precededBy _ _ u)

/-- A run that goes through goes through at its head, and then from there on. -/
theorem run_cons_eq_ok_iff {op : Operation σ} {ops : List (Operation σ)}
    {t : Traced Float32 (Motor C)} :
    m.run (op :: ops) = .ok t ↔ ∃ done rest, m.step op = .ok done ∧
      done.result.2.run ops = .ok rest ∧ rest.precededBy done.events = t := by
  rw [run_cons, Fault.bind_eq_ok_iff]
  simp only [Fault.map_eq_ok_iff, exists_and_left]

end Motor

end MotorControl
