/-
The interlock of a bridge and its controller.

Current may flow only while a controller is armed.  `Standing` is where the two stand,
read off the events: what the last call of each kind made of the sampling, of the bridge
and of the controller.  `Guarded` says of a list of events that the bridge is on with an
armed controller only, after every one of them, and that it is for the order of the
calls: the bridge is started after the controller was enabled, and stopped before the
controller is disabled.

Most events move nothing.  `Traced.switches` keeps those that do, and since the switches
of a program are those of its parts one after another, it is computed along the program.
-/
import MotorControl.Proofs.BoardState
import MotorControl.Proofs.Controller.Setting
import MotorControl.Proofs.Instructions

namespace MotorControl

/-! ### What an event moves -/

/-- Whether an instruction arms the controller or disarms it, if it does either. -/
def Instruction.arms? {α σ : Type} : Instruction α σ → Option Bool
  | .enable | .reset => some true
  | .disable => some false
  | _ => none

/-- Whether an instruction enables the controller or disables it, if it does either.  Arming it anew
is not enabling it. -/
def Instruction.enables? {α σ : Type} : Instruction α σ → Option Bool
  | .enable => some true
  | .disable => some false
  | _ => none

namespace Event

variable {α : Type}

/-- Whether samples are asked for from an event on, if it bears on that. -/
def samples? : Event α → Option Bool
  | .subscribe _ => some true
  | .unsubscribe => some false
  | _ => none

/-- Whether the bridge is on from an event on, if it bears on that. -/
def starts? : Event α → Option Bool
  | .start => some true
  | .stop => some false
  | _ => none

/-- Whether the controller is armed from an event on, if it bears on that. -/
def arms? (e : Event α) : Option Bool := e.instruction?.bind Instruction.arms?

/-- Whether the controller is enabled from an event on, if it bears on that. -/
def enables? (e : Event α) : Option Bool := e.instruction?.bind Instruction.enables?

/-- Whether an event bears on any of that. -/
def isSwitch : Event α → Bool
  | .subscribe _ | .unsubscribe | .start | .stop => true
  | .instruct .enable | .instruct .disable | .instruct .reset => true
  | _ => false

end Event

/-- The events that move something, in their order. -/
def Traced.switches {α β : Type} (m : Traced α β) : List (Event α) := m.events.filter Event.isSwitch

namespace Traced

variable {α β γ : Type}

@[simp] theorem switches_pure (x : β) : (pure x : Traced α β).switches = [] := rfl

@[simp] theorem switches_bind (m : Traced α β) (f : β → Traced α γ) :
    (m >>= f).switches = m.switches ++ (f m.result).switches :=
  List.filter_append ..

@[simp] theorem switches_map (f : β → γ) (m : Traced α β) : (f <$> m).switches = m.switches := by
  rw [switches, map_events, switches]

@[simp] theorem switches_emit (e : Event α) :
    (emit e).switches = if e.isSwitch then [e] else [] := by
  cases h : e.isSwitch <;> simp [switches, h]

/-- What gives no instruction moves nothing but the switches of the board. -/
theorem switches_of_instructions {m : Traced α β} (h : m.instructions = []) :
    m.switches = m.calls.filter Event.isSwitch := by
  have hnone : ∀ e ∈ m.events, e.instruction? = none := List.filterMap_eq_nil_iff.mp h
  rw [switches, calls, List.filter_filter]
  refine List.filter_congr fun e he => ?_
  have := hnone e he
  cases e <;> simp_all [Event.instruction?, Event.isSwitch, Event.isCall]

end Traced

/-- A controller at work on a sample moves nothing. -/
theorem Controller.switches_calculate {C α σ : Type} [Controller C α σ] [Controller.Reticent C α σ]
    (currents : Phases α) (angle : α) (c : C) : (calculate currents angle c).switches = [] := by
  rw [Traced.switches_of_instructions (Reticent.instructions_calculate currents angle c),
    (calculate_detached currents angle c).calls]
  rfl

/-! ### Where a bridge and its controller stand -/

/-- What the last call of each kind made of a board and its controller, if there was one. -/
structure Standing where
  /-- Whether samples are asked for. -/
  sampled : Option Bool
  /-- Whether the bridge is on. -/
  started : Option Bool
  /-- Whether the last instruction to enable or to disable the controller enabled it. -/
  enabled : Option Bool
  /-- Whether the last instruction to enable, to reset or to disable the controller armed it. -/
  armed : Option Bool
  deriving DecidableEq, Repr

namespace Standing

variable {α : Type}

/-- Nothing was called yet. -/
def untouched : Standing := ⟨none, none, none, none⟩

/-- The bridge is on, with samples and an armed controller. -/
def driving : Standing := ⟨some true, some true, some true, some true⟩

/-- The bridge and the sampling are off and the controller is disabled. -/
def resting : Standing := ⟨some false, some false, some false, some false⟩

/-- What one event leaves. -/
def after (s : Standing) (e : Event α) : Standing :=
  ⟨e.samples?.or s.sampled, e.starts?.or s.started, e.enables?.or s.enabled, e.arms?.or s.armed⟩

/-- What a list of events leaves. -/
def afterAll (s : Standing) (es : List (Event α)) : Standing := es.foldl after s

@[simp] theorem afterAll_nil (s : Standing) : s.afterAll ([] : List (Event α)) = s := rfl

@[simp] theorem afterAll_cons (s : Standing) (e : Event α) (es : List (Event α)) :
    s.afterAll (e :: es) = (s.after e).afterAll es := rfl

@[simp] theorem afterAll_append (s : Standing) (es fs : List (Event α)) :
    s.afterAll (es ++ fs) = (s.afterAll es).afterAll fs :=
  List.foldl_append

@[simp] theorem after_subscribe (s : Standing) (rate : Hertz) :
    s.after (.subscribe rate : Event α) = { s with sampled := some true } := rfl

@[simp] theorem after_unsubscribe (s : Standing) :
    s.after (.unsubscribe : Event α) = { s with sampled := some false } := rfl

@[simp] theorem after_start (s : Standing) :
    s.after (.start : Event α) = { s with started := some true } := rfl

@[simp] theorem after_stop (s : Standing) :
    s.after (.stop : Event α) = { s with started := some false } := rfl

@[simp] theorem after_enable (s : Standing) :
    s.after (.instruct .enable : Event α) =
      { s with enabled := some true, armed := some true } := rfl

@[simp] theorem after_disable (s : Standing) :
    s.after (.instruct .disable : Event α) =
      { s with enabled := some false, armed := some false } := rfl

@[simp] theorem after_reset (s : Standing) :
    s.after (.instruct .reset : Event α) = { s with armed := some true } := rfl

theorem after_of_not_switch {e : Event α} (h : e.isSwitch = false) (s : Standing) :
    s.after e = s := by
  cases e with
  | instruct call => cases call <;> first | rfl | cases h
  | _ => first | rfl | cases h

/-- Only the switches count. -/
theorem afterAll_filter (es : List (Event α)) :
    ∀ s : Standing, s.afterAll (es.filter Event.isSwitch) = s.afterAll es := by
  induction es with
  | nil => intro s; rfl
  | cons e es ih =>
      intro s
      cases he : e.isSwitch with
      | false => rw [List.filter_cons_of_neg (by simp [he]), ih, afterAll_cons,
          after_of_not_switch he]
      | true => rw [List.filter_cons_of_pos he, afterAll_cons, ih, afterAll_cons]

theorem afterAll_switches {β : Type} (m : Traced α β) (s : Standing) :
    s.afterAll m.switches = s.afterAll m.events :=
  afterAll_filter m.events s

/-- Whether the controller is armed is what the last event that bears on it says. -/
theorem armed_afterAll (es : List (Event α)) :
    ∀ s : Standing, (s.afterAll es).armed = (latest Event.arms? es).or s.armed := by
  induction es with
  | nil => intro s; rfl
  | cons e es ih =>
      intro s
      rw [afterAll_cons, ih, latest_cons, Option.or_assoc]
      rfl

/-! ### The interlock -/

/-- The bridge is on only if the controller is armed. -/
def Safe (s : Standing) : Prop := s.started = some true → s.armed = some true

/-- Whether an event may come.  A start may if the controller was enabled, and a disabling if the
bridge was stopped; nothing else is bound to anything. -/
def Admits (s : Standing) : Event α → Prop
  | .start => s.enabled = some true
  | .instruct .disable => s.started = some false
  | _ => True

/-- The interlock holds while the events come. -/
structure Guarded (s : Standing) (es : List (Event α)) : Prop where
  /-- The bridge is never on with a disarmed controller. -/
  safe : ∀ p, p <+: es → (s.afterAll p).Safe
  /-- Each event comes where it may. -/
  admits : ∀ p e, p ++ [e] <+: es → (s.afterAll p).Admits e

theorem guarded_nil_iff (s : Standing) : s.Guarded ([] : List (Event α)) ↔ s.Safe := by
  constructor
  · intro h
    exact h.safe [] (List.prefix_refl _)
  · intro h
    refine ⟨fun p hp => ?_, fun p e hp => ?_⟩
    · rw [List.prefix_nil.mp hp]
      exact h
    · simp at hp

/-- The events are guarded if the first comes from where it may and the rest from where it leads. -/
theorem guarded_cons_iff (s : Standing) (e : Event α) (es : List (Event α)) :
    s.Guarded (e :: es) ↔ s.Safe ∧ s.Admits e ∧ (s.after e).Guarded es := by
  constructor
  · intro h
    have hcons (p : List (Event α)) (hp : p <+: es) : e :: p <+: e :: es :=
      List.cons_prefix_cons.mpr ⟨rfl, hp⟩
    exact ⟨h.safe [] List.nil_prefix, h.admits [] e (hcons [] List.nil_prefix),
      fun p hp => h.safe (e :: p) (hcons p hp), fun p e' hp => h.admits (e :: p) e' (hcons _ hp)⟩
  · rintro ⟨hsafe, hadmits, hrest⟩
    refine ⟨fun p hp => ?_, fun p e' hp => ?_⟩
    · cases p with
      | nil => exact hsafe
      | cons f p =>
          obtain ⟨rfl, hpre⟩ := List.cons_prefix_cons.mp hp
          exact hrest.safe p hpre
    · cases p with
      | nil =>
          obtain ⟨rfl, -⟩ := List.cons_prefix_cons.mp hp
          exact hadmits
      | cons f p =>
          obtain ⟨rfl, hpre⟩ := List.cons_prefix_cons.mp hp
          exact hrest.admits p e' hpre

theorem Guarded.append {s : Standing} {es fs : List (Event α)} (h : s.Guarded es)
    (h' : (s.afterAll es).Guarded fs) : s.Guarded (es ++ fs) := by
  induction es generalizing s with
  | nil => exact h'
  | cons e es ih =>
      obtain ⟨hsafe, hadmits, hrest⟩ := (guarded_cons_iff s e es).mp h
      exact (guarded_cons_iff s e _).mpr ⟨hsafe, hadmits, ih hrest h'⟩

theorem admits_of_not_switch {e : Event α} (h : e.isSwitch = false) (s : Standing) :
    s.Admits e := by
  cases e with
  | instruct call => cases call <;> trivial
  | _ => trivial

/-- Only the switches can break the interlock. -/
theorem guarded_of_filter (es : List (Event α)) :
    ∀ s : Standing, s.Guarded (es.filter Event.isSwitch) → s.Guarded es := by
  induction es with
  | nil => intro s h; exact h
  | cons e es ih =>
      intro s h
      cases he : e.isSwitch with
      | false =>
          rw [List.filter_cons_of_neg (by simp [he])] at h
          refine (guarded_cons_iff s e es).mpr ⟨h.safe [] List.nil_prefix,
            admits_of_not_switch he s, ?_⟩
          rw [after_of_not_switch he]
          exact ih s h
      | true =>
          rw [List.filter_cons_of_pos he] at h
          obtain ⟨hsafe, hadmits, hrest⟩ := (guarded_cons_iff s e _).mp h
          exact (guarded_cons_iff s e es).mpr ⟨hsafe, hadmits, ih _ hrest⟩

theorem guarded_of_switches {β : Type} {m : Traced α β} {s : Standing} (h : s.Guarded m.switches) :
    s.Guarded m.events :=
  guarded_of_filter m.events s h

/-- A computation does to the interlock what its switches do. -/
theorem guarded_and_of_switches {β : Type} {m : Traced α β} {es : List (Event α)} {s : Standing}
    {P : Standing → Prop} (hswitches : m.switches = es) (h : s.Guarded es ∧ P (s.afterAll es)) :
    s.Guarded m.events ∧ P (s.afterAll m.events) := by
  subst hswitches
  rw [afterAll_switches] at h
  exact ⟨guarded_of_switches h.1, h.2⟩

end Standing

end MotorControl
