/-
What the calls on a board leave, and the order they may come in.

A board has two switches: samples are asked for or not, and the bridge is on or off.
`BoardState` is where the two stand, read off the events of an operation.  `Admits`
says which calls make sense in a state, and `Leads` that a list of events makes only
such calls and ends in a given state.

Most events are no calls on the board.  `Traced.calls` keeps those that are, and
since the calls of a program are the calls of its parts one after another, it is
computed along the program and nothing else about the events is ever looked at.
-/
import MotorControl.Controller
import MotorControl.Drive

namespace MotorControl

/-- Where the switches of a board stand. -/
structure BoardState where
  /-- The rate samples are asked for at, if they are asked for. -/
  sampling : Option Hertz
  /-- Whether the bridge was switched on by the last call that switched it. -/
  isOn : Bool
  deriving DecidableEq, Repr

namespace BoardState

variable {α : Type}

/-- The bridge is off and no samples are asked for. -/
def quiet : BoardState := ⟨none, false⟩

/-- The bridge is on and samples are asked for. -/
def live (rate : Hertz) : BoardState := ⟨some rate, true⟩

/-- What one event leaves. -/
def after (s : BoardState) : Event α → BoardState
  | .subscribe rate => { s with sampling := some rate }
  | .unsubscribe => { s with sampling := none }
  | .start => { s with isOn := true }
  | .stop => { s with isOn := false }
  | _ => s

/-- What a list of events leaves. -/
def afterAll (s : BoardState) (es : List (Event α)) : BoardState := es.foldl after s

/-- Whether an event may come in a state.  Only calls on the board are bound to a state. -/
def Admits (s : BoardState) : Event α → Prop
  | .subscribe _ => s.sampling = none
  | .start => s.sampling.isSome ∧ s.isOn = false
  | .stop => s.isOn = true
  | .unsubscribe => s.sampling.isSome ∧ s.isOn = false
  | .pwm _ => s.sampling.isSome ∧ s.isOn = true
  | _ => True

/-- Each event comes in a state that admits it. -/
def Orderly (s : BoardState) : List (Event α) → Prop
  | [] => True
  | e :: es => s.Admits e ∧ (s.after e).Orderly es

/-- The events come in order, and leave `s'` if they start in `s`. -/
structure Leads (s : BoardState) (es : List (Event α)) (s' : BoardState) : Prop where
  orderly : s.Orderly es
  reaches : s.afterAll es = s'

@[simp] theorem afterAll_nil (s : BoardState) : s.afterAll ([] : List (Event α)) = s := rfl

@[simp] theorem afterAll_cons (s : BoardState) (e : Event α) (es : List (Event α)) :
    s.afterAll (e :: es) = (s.after e).afterAll es := rfl

@[simp] theorem afterAll_append (s : BoardState) (es fs : List (Event α)) :
    s.afterAll (es ++ fs) = (s.afterAll es).afterAll fs :=
  List.foldl_append

theorem orderly_append (es fs : List (Event α)) :
    ∀ s : BoardState, s.Orderly (es ++ fs) ↔ s.Orderly es ∧ (s.afterAll es).Orderly fs := by
  induction es with
  | nil => intro s; simp [Orderly]
  | cons e es ih =>
      intro s
      rw [List.cons_append, Orderly, Orderly, ih, afterAll_cons, and_assoc]

namespace Leads

theorem refl (s : BoardState) : Leads s ([] : List (Event α)) s := ⟨trivial, rfl⟩

theorem append {s s' s'' : BoardState} {es fs : List (Event α)} (h : Leads s es s')
    (h' : Leads s' fs s'') : Leads s (es ++ fs) s'' := by
  refine ⟨(orderly_append es fs s).mpr ⟨h.orderly, ?_⟩, ?_⟩
  · rw [h.reaches]
    exact h'.orderly
  · rw [afterAll_append, h.reaches]
    exact h'.reaches

end Leads

end BoardState

/-! ### The calls among the events -/

/-- Whether an event is a call on the board. -/
def Event.isCall {α : Type} : Event α → Bool
  | .subscribe _ | .unsubscribe | .start | .stop | .pwm _ => true
  | _ => false

/-- The calls on the board, in their order. -/
def Traced.calls {α β : Type} (m : Traced α β) : List (Event α) := m.events.filter Event.isCall

namespace Traced

variable {α β γ : Type}

@[simp] theorem calls_pure (x : β) : (pure x : Traced α β).calls = [] := rfl

@[simp] theorem calls_bind (m : Traced α β) (f : β → Traced α γ) :
    (m >>= f).calls = m.calls ++ (f m.result).calls :=
  List.filter_append ..

@[simp] theorem calls_map (f : β → γ) (m : Traced α β) : (f <$> m).calls = m.calls := by
  rw [calls, map_events, calls]

@[simp] theorem calls_emit (e : Event α) :
    (emit e).calls = if e.isCall then [e] else [] := by
  cases h : e.isCall <;> simp [calls, h]

/-- What asks nothing of the peripherals makes no call. -/
theorem Detached.calls {m : Traced α β} (h : m.Detached) : m.calls = [] := by
  refine List.filter_eq_nil_iff.mpr fun e he => ?_
  have hout := h e he
  cases e <;> simp_all [Event.isPeripheral, Event.isCall]

/-- The calls on the board and on the encoder, in their order. -/
def peripherals (m : Traced α β) : List (Event α) := m.events.filter Event.isPeripheral

theorem peripherals_bind (m : Traced α β) (f : β → Traced α γ) :
    (m >>= f).peripherals = m.peripherals ++ (f m.result).peripherals :=
  List.filter_append ..

theorem Detached.peripherals {m : Traced α β} (h : m.Detached) : m.peripherals = [] := by
  refine List.filter_eq_nil_iff.mpr fun e he => ?_
  simp [h e he]

end Traced

/-- An instruction is no call on the board. -/
@[simp] theorem calls_instruct {C α σ : Type} [Controller C α σ] (call : Instruction α σ) (c : C) :
    (instruct call c).calls = [] := rfl

namespace BoardState

variable {α β : Type}

theorem after_of_not_call {e : Event α} (h : e.isCall = false) (s : BoardState) :
    s.after e = s := by
  cases e <;> first | rfl | cases h

theorem admits_of_not_call {e : Event α} (h : e.isCall = false) (s : BoardState) :
    s.Admits e := by
  cases e <;> trivial

/-- Only the calls count. -/
theorem leads_filter_iff (es : List (Event α)) :
    ∀ s s' : BoardState, Leads s (es.filter Event.isCall) s' ↔ Leads s es s' := by
  induction es with
  | nil => intro s s'; rfl
  | cons e es ih =>
      intro s s'
      cases he : e.isCall with
      | false =>
          rw [List.filter_cons_of_neg (by simp [he]), ih]
          constructor
          · rintro ⟨horder, hreach⟩
            refine ⟨⟨admits_of_not_call he s, ?_⟩, ?_⟩
            · rwa [after_of_not_call he]
            · rwa [afterAll_cons, after_of_not_call he]
          · rintro ⟨⟨-, horder⟩, hreach⟩
            rw [after_of_not_call he] at horder
            rw [afterAll_cons, after_of_not_call he] at hreach
            exact ⟨horder, hreach⟩
      | true =>
          rw [List.filter_cons_of_pos he]
          constructor
          · rintro ⟨⟨hadmits, horder⟩, hreach⟩
            have hrest := (ih _ s').mp ⟨horder, hreach⟩
            exact ⟨⟨hadmits, hrest.orderly⟩, hrest.reaches⟩
          · rintro ⟨⟨hadmits, horder⟩, hreach⟩
            have hrest := (ih _ s').mpr ⟨horder, hreach⟩
            exact ⟨⟨hadmits, hrest.orderly⟩, hrest.reaches⟩

theorem leads_of_calls {m : Traced α β} {s s' : BoardState} (h : Leads s m.calls s') :
    Leads s m.events s' :=
  (leads_filter_iff m.events s s').mp h

/-! ### The calls of a session -/

/-- A board is put to work by two calls. -/
theorem leads_begin (rate : Hertz) :
    Leads (α := α) quiet [.subscribe rate, .start] (live rate) :=
  ⟨⟨rfl, ⟨rfl, rfl⟩, trivial⟩, rfl⟩

/-- Duties may be told to a bridge that is on, and leave it on. -/
theorem leads_outputs (rate : Hertz) (outputs : List Duties) :
    Leads (α := α) (live rate) (outputs.map .pwm) (live rate) := by
  induction outputs with
  | nil => exact Leads.refl _
  | cons d rest ih => exact ⟨⟨⟨rfl, rfl⟩, ih.orderly⟩, ih.reaches⟩

/-- A board at work is put to rest by two calls. -/
theorem leads_end (rate : Hertz) :
    Leads (α := α) (live rate) [.stop, .unsubscribe] quiet :=
  ⟨⟨rfl, ⟨rfl, rfl⟩, trivial⟩, rfl⟩

end BoardState

end MotorControl
