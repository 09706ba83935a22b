/-
What sessions move.

An alignment and an electrical test move the switches of the board and nothing else.  A
mechanical test has a controller, and keeps the interlock from its beginning on: it
enables the controller before it starts the bridge, and disables it after the bridge was
stopped, with the sample that ends the test or when the test is taken apart.
-/
import MotorControl.Proofs.Interlock
import MotorControl.Proofs.Session.Instructions

namespace MotorControl

open Standing

/-- A session that gives no instruction moves something only when it comes to its end. -/
theorem Session.Progress.switches {S α β : Type} [Session S α β] {board : Board} {r : Traced α S}
    (h : Session.Progress board r) (hnone : r.instructions = []) :
    r.switches = if (Session.completion r.result).isDone then [.stop, .unsubscribe] else [] := by
  have houtputs (outputs : List Duties) :
      (outputs.map (Event.pwm (α := α))).filter Event.isSwitch = [] := by
    rw [List.filter_map, List.map_eq_nil_iff, List.filter_eq_nil_iff]
    intro duties _
    exact Bool.false_ne_true
  rw [Traced.switches_of_instructions hnone]
  cases h with
  | goesOn hopen outputs hcalls => rw [hcalls, houtputs, hopen.not_isDone]; rfl
  | ends hover outputs hcalls =>
      rw [hcalls, List.filter_append, houtputs, hover.isDone]
      rfl

theorem Alignment.switches_sample {α : Type} {board : Board} {a : Alignment α}
    (h : Session.Open board a) (currents : Phases α) (position : α) :
    (a.sample position).switches =
      if (a.sample position).result.completion.isDone then [.stop, .unsubscribe] else [] :=
  (LawfulSession.sample_of_open h currents position).switches (instructions_sample h position)

theorem ElectricalTest.switches_sample {α : Type} [Scalar α] {board : Board} {t : ElectricalTest α}
    (h : Session.Open board t) (currents : Phases α) (position : α) :
    (t.sample currents position).switches =
      if (t.sample currents position).result.completion.isDone then [.stop, .unsubscribe] else [] :=
  (LawfulSession.sample_of_open h currents position).switches
    (instructions_sample h currents position)

namespace MechanicalTest

section

variable {α C σ : Type} [Controller C α σ] {board : Board} {t : MechanicalTest α C}

/-! ### One beat of a mechanical test -/

theorem switches_finish (hdrive : t.drive = ⟨board, true⟩)
    (result : Option (MechanicalParameters α)) :
    (t.finish result).switches = [.stop, .unsubscribe, .instruct .disable] := by
  unfold finish
  rw [hdrive, Drive.release_of_active]
  rfl

variable [Scalar α] [Controller.Reticent C α σ]

theorem switches_sample (h : Session.Open board t) (currents : Phases α) (position : α) :
    (t.sample currents position).switches =
      if (t.sample currents position).result.completion.isDone then
        [.stop, .unsubscribe, .instruct .disable]
      else [] := by
  obtain ⟨duties, hcalls, hdrive, hcompletion, -⟩ := t.take_spec currents position
  have htake : (t.take currents position).switches = [] := by
    rw [Traced.switches_of_instructions (t.instructions_take currents position), hcalls]
    rfl
  have hdrive := hdrive.trans h.drive_eq
  have hpending := hcompletion.trans h.pending
  rw [sample_eq h.drive_eq, Traced.switches_bind, Traced.bind_result, htake]
  unfold judge
  split
  · exact switches_finish hdrive _
  · split
    · exact switches_finish hdrive _
    · rw [Traced.pure_result, hpending]
      rfl

/-- A beat moves nothing, or it is the end of the test. -/
theorem switches_beat (h : Session.Open board t) (b : Beat α) :
    Session.Open board (Session.beat t b).result ∧ (Session.beat t b).switches = [] ∨
      Session.Over board (Session.beat t b).result ∧
        (Session.beat t b).switches = [.stop, .unsubscribe, .instruct .disable] := by
  cases b with
  | service => exact .inl ⟨h.service, rfl⟩
  | sample currents position =>
      have hswitches := switches_sample h currents position
      cases h.beat (.sample currents position) with
      | goesOn hopen _ _ =>
          refine .inl ⟨hopen, hswitches.trans ?_⟩
          rw [show (t.sample currents position).result.completion.isDone = false from
            hopen.not_isDone]
          rfl
      | ends hover _ _ =>
          refine .inr ⟨hover, hswitches.trans ?_⟩
          rw [show (t.sample currents position).result.completion.isDone = true from hover.isDone]
          rfl

omit [Controller.Reticent C α σ] in
/-- A test that is over moves nothing any more. -/
theorem switches_beat_of_over (h : Session.Over board t) (b : Beat α) :
    Session.Over board (Session.beat t b).result ∧ (Session.beat t b).switches = [] := by
  cases b with
  | service => exact ⟨h.service, rfl⟩
  | sample currents position =>
      rw [Session.beat, LawfulSession.sample_of_over h]
      exact ⟨h, rfl⟩

/-! ### A whole test -/

/-- Where a bridge and its controller stand with a mechanical test: they are at work while it is
open, and at rest from its end on. -/
inductive Stands (board : Board) (t : MechanicalTest α C) : Standing → Prop
  | atWork (isOpen : Session.Open board t) : Stands board t driving
  | atRest (isOver : Session.Over board t) : Stands board t resting

variable {s : Standing}

omit [Controller.Reticent C α σ] in
theorem Stands.safe (h : t.Stands board s) : s.Safe := by
  cases h with
  | atWork => exact fun _ => rfl
  | atRest => exact nofun

/-- Every beat keeps the interlock and leaves a test with which it stands. -/
theorem Stands.beat (h : t.Stands board s) (b : Beat α) :
    s.Guarded (Session.beat t b).events ∧
      (Session.beat t b).result.Stands board (s.afterAll (Session.beat t b).events) := by
  have hsafe := h.safe
  cases h with
  | atWork hopen =>
      rcases switches_beat hopen b with ⟨hopen', hnone⟩ | ⟨hover, hends⟩
      · exact guarded_and_of_switches hnone ⟨(guarded_nil_iff _).mpr hsafe, .atWork hopen'⟩
      · refine guarded_and_of_switches hends ⟨?_, .atRest hover⟩
        simp [guarded_cons_iff, guarded_nil_iff, Safe, Admits, driving]
  | atRest hover =>
      obtain ⟨hover', hnone⟩ := switches_beat_of_over hover b
      exact guarded_and_of_switches hnone ⟨(guarded_nil_iff _).mpr hsafe, .atRest hover'⟩

theorem Stands.beats (bs : List (Beat α)) :
    ∀ (t : MechanicalTest α C) (s : Standing), t.Stands board s →
      s.Guarded (Session.beats t bs).events ∧
        (Session.beats t bs).result.Stands board (s.afterAll (Session.beats t bs).events) := by
  induction bs with
  | nil =>
      intro t s h
      exact ⟨(guarded_nil_iff s).mpr h.safe, h⟩
  | cons b bs ih =>
      intro t s h
      obtain ⟨hguarded, hstands⟩ := h.beat b
      obtain ⟨hguarded', hstands'⟩ := ih _ _ hstands
      rw [Session.beats_cons, Traced.bind_events, afterAll_append]
      exact ⟨hguarded.append hguarded', hstands'⟩

omit [Controller.Reticent C α σ] in
/-- A test that is taken apart is at rest, whether it has come to its end or not. -/
theorem Stands.intoParts (h : t.Stands board s) :
    s.Guarded (t.intoParts : Traced α (Board × C)).events ∧
      s.afterAll (t.intoParts : Traced α (Board × C)).events = resting := by
  cases h with
  | atWork hopen =>
      have hdrive : t.drive = ⟨board, true⟩ := hopen.drive_eq
      have hswitches : (t.intoParts : Traced α (Board × C)).switches =
          [.stop, .unsubscribe, .instruct .disable] := by
        rw [MechanicalTest.intoParts, hdrive, Drive.intoBoard_of_active]
        rfl
      refine guarded_and_of_switches (P := (· = resting)) hswitches ⟨?_, rfl⟩
      simp [guarded_cons_iff, guarded_nil_iff, Safe, Admits, driving]
  | atRest hover =>
      have hdrive : t.drive = ⟨board, false⟩ := hover.drive_eq
      have hswitches : (t.intoParts : Traced α (Board × C)).switches = [.instruct .disable] := by
        rw [MechanicalTest.intoParts, hdrive, Drive.intoBoard_of_released]
        rfl
      refine guarded_and_of_switches (P := (· = resting)) hswitches ⟨?_, rfl⟩
      simp [guarded_cons_iff, guarded_nil_iff, Safe, Admits, resting]

end

/-- A test begins with the controller enabled and the bridge started after it. -/
theorem stands_begun {α C : Type} [Scalar α] [Controller C α α] {board : Board} {controller : C}
    {task : Task α} {config : Config α} {position : α} {begun : Traced α (MechanicalTest α C)}
    (h : begin board controller task config position = .ok begun) :
    untouched.Guarded begun.events ∧ begun.result.Stands board (untouched.afterAll begun.events) := by
  obtain ⟨hbegun, -⟩ := MechanicalTest.begun h
  obtain ⟨fit, -, hevents⟩ := Fault.bind_eq_ok_iff.mp h
  have hswitches : begun.switches =
      [.instruct .enable, .subscribe board.baseFrequency, .start] := by
    cases hevents
    rfl
  refine guarded_and_of_switches hswitches ⟨?_, .atWork hbegun.isOpen⟩
  simp [guarded_cons_iff, guarded_nil_iff, Safe, Admits, untouched]

/-- What holds of a test that was begun, at any time and when it is taken apart. -/
structure Interlocked {α C σ : Type} [Controller C α σ] (used : Traced α (MechanicalTest α C)) :
    Prop where
  /-- The interlock holds all the time. -/
  guarded : untouched.Guarded (used >>= intoParts).events
  /-- A test that is done has left the bridge, the sampling and the controller at rest. -/
  completed : used.result.completion.isDone = true → untouched.afterAll used.events = resting
  /-- So has one that was taken apart. -/
  takenApart : untouched.afterAll (used >>= intoParts).events = resting

theorem interlocked {α C : Type} [Scalar α] [Controller C α α] [Controller.Reticent C α α]
    {board : Board} {controller : C} {task : Task α} {config : Config α} {position : α}
    {begun : Traced α (MechanicalTest α C)}
    (h : begin board controller task config position = .ok begun) (bs : List (Beat α)) :
    Interlocked (begun >>= (Session.beats · bs)) := by
  obtain ⟨hbegun, hstart⟩ := stands_begun h
  obtain ⟨hguarded, hstands⟩ := Stands.beats bs _ _ hstart
  obtain ⟨hgone, hrest⟩ := hstands.intoParts
  refine ⟨?_, fun hdone => ?_, ?_⟩
  · rw [Traced.bind_events, Traced.bind_events, List.append_assoc]
    exact hbegun.append (hguarded.append hgone)
  · rw [Traced.bind_events, afterAll_append]
    generalize (untouched.afterAll begun.events).afterAll
      (Session.beats begun.result bs).events = s at hstands ⊢
    cases hstands with
    | atWork hopen => exact absurd (hopen.not_isDone.symm.trans hdone) Bool.false_ne_true
    | atRest => rfl
  · rw [Traced.bind_events, Traced.bind_events, afterAll_append, afterAll_append]
    exact hrest

end MechanicalTest

end MotorControl
