/-
A closed loop, from its beginning until it goes out of use.

Whatever its owner does with a loop, what the loop says of itself is true: the bridge is
on exactly while it is enabled, and then the controller is armed.  `Stands` is that
tie.  Every use keeps it, and the events of a use keep the interlock because they start
from where the tie says they do.
-/
import MotorControl.Proofs.Interlock
import MotorControl.Session.ClosedLoop

namespace MotorControl

open Standing

namespace ClosedLoop

variable {C α σ : Type} [Controller C α σ]

/-! ### The use of a loop -/

/-- What the owner of a closed loop can do with it before it goes out of use. -/
inductive Use (α : Type) where
  | enable
  | disable
  | service
  | sample (currents : Phases α) (position : α)

/-- Uses the loop once. -/
def use (l : ClosedLoop C) : Use α → Traced α (ClosedLoop C)
  | .enable => l.enable
  | .disable => l.disable
  | .service => l.order .service
  | .sample currents position => l.sample currents position

/-- Uses the loop any number of times. -/
def useAll (l : ClosedLoop C) (us : List (Use α)) : Traced α (ClosedLoop C) := us.foldlM use l

/-- A loop that was begun and used. -/
def used (board : Board) (controller : C) (us : List (Use α)) : Traced α (ClosedLoop C) := do
  let l ← begin board controller
  l.useAll us

/-- All that comes of a loop, up to its going out of use. -/
def lifetime (board : Board) (controller : C) (us : List (Use α)) : Traced α (Board × C) := do
  let l ← used board controller us
  l.intoParts

@[simp] theorem useAll_nil (l : ClosedLoop C) : (l.useAll [] : Traced α (ClosedLoop C)) = pure l :=
  rfl

@[simp] theorem useAll_cons (l : ClosedLoop C) (u : Use α) (us : List (Use α)) :
    l.useAll (u :: us) = l.use u >>= fun l => l.useAll us :=
  List.foldlM_cons

/-! ### What it moves -/

theorem switches_enable (l : ClosedLoop C) :
    (l.enable : Traced α (ClosedLoop C)).switches = [.instruct .enable, .start] := rfl

theorem switches_disable (l : ClosedLoop C) :
    (l.disable : Traced α (ClosedLoop C)).switches = [.stop, .instruct .disable] := by
  unfold disable
  cases l.enabled <;> rfl

theorem enabled_disable (l : ClosedLoop C) :
    (l.disable : Traced α (ClosedLoop C)).result.enabled = false := by
  unfold disable
  cases l.enabled <;> rfl

theorem switches_intoParts (l : ClosedLoop C) :
    (l.intoParts : Traced α (Board × C)).switches = [.stop, .instruct .disable, .unsubscribe] := by
  unfold intoParts
  rw [Traced.switches_bind, switches_disable]
  rfl

theorem switches_sample [Controller.Reticent C α σ] (l : ClosedLoop C) (currents : Phases α)
    (position : α) : (l.sample currents position).switches = [] := by
  unfold sample
  simp only [Traced.switches_bind, Traced.switches_emit, Traced.switches_pure,
    Controller.switches_calculate]
  rfl

/-! ### Where it stands -/

/-- What a loop says of itself is so: samples are asked for, the bridge is on exactly while the loop
is enabled, and then the controller is armed. -/
structure Stands (l : ClosedLoop C) (s : Standing) : Prop where
  sampled : s.sampled = some true
  started_iff : s.started = some true ↔ l.enabled = true
  enabled : l.enabled = true → s.enabled = some true
  armed : l.enabled = true → s.armed = some true

namespace Stands

variable {l : ClosedLoop C} {s : Standing}

omit [Controller C α σ] in
theorem safe (h : l.Stands s) : s.Safe := fun hstarted => h.armed (h.started_iff.mp hstarted)

/-- A change of the controller that moves nothing. -/
theorem of_switches {m : Traced α (ClosedLoop C)} (h : l.Stands s)
    (hsame : m.result.enabled = l.enabled) (hnone : m.switches = []) :
    s.Guarded m.events ∧ m.result.Stands (s.afterAll m.events) := by
  refine guarded_and_of_switches hnone ⟨(guarded_nil_iff s).mpr h.safe, ?_⟩
  exact ⟨h.sampled, hsame ▸ h.started_iff, hsame ▸ h.enabled, hsame ▸ h.armed⟩

/-- Every use keeps the interlock, and leaves a loop that stands as it says. -/
theorem use [Controller.Reticent C α σ] (h : l.Stands s) (u : Use α) :
    s.Guarded (l.use u).events ∧ (l.use u).result.Stands (s.afterAll (l.use u).events) := by
  have hsafe := h.safe
  cases u with
  | enable =>
      refine guarded_and_of_switches l.switches_enable ⟨?_, ?_⟩
      · simp_all [guarded_cons_iff, guarded_nil_iff, Safe, Admits]
      · exact ⟨h.sampled, iff_of_true rfl rfl, fun _ => rfl, fun _ => rfl⟩
  | disable =>
      have hoff : ¬ (l.disable : Traced α (ClosedLoop C)).result.enabled = true := by
        rw [enabled_disable]
        exact Bool.false_ne_true
      refine guarded_and_of_switches l.switches_disable ⟨?_, ?_⟩
      · simp_all [guarded_cons_iff, guarded_nil_iff, Safe, Admits]
      · exact ⟨h.sampled, iff_of_false nofun hoff, fun hon => absurd hon hoff,
          fun hon => absurd hon hoff⟩
  | service => exact h.of_switches rfl rfl
  | sample currents position => exact h.of_switches rfl (l.switches_sample currents position)

theorem useAll [Controller.Reticent C α σ] (us : List (Use α)) :
    ∀ (l : ClosedLoop C) (s : Standing), l.Stands s →
      s.Guarded (l.useAll us).events ∧ (l.useAll us).result.Stands (s.afterAll (l.useAll us).events)
      := by
  induction us with
  | nil =>
      intro l s h
      exact ⟨(guarded_nil_iff s).mpr h.safe, h⟩
  | cons u us ih =>
      intro l s h
      obtain ⟨hguarded, hstands⟩ := h.use u
      obtain ⟨hguarded', hstands'⟩ := ih _ _ hstands
      rw [useAll_cons, Traced.bind_events, afterAll_append]
      exact ⟨hguarded.append hguarded', hstands'⟩

/-- A loop that goes out of use stops the bridge, disables the controller and ends the sampling. -/
theorem intoParts (h : l.Stands s) :
    s.Guarded (l.intoParts : Traced α (Board × C)).events ∧
      s.afterAll (l.intoParts : Traced α (Board × C)).events = resting := by
  have hsafe := h.safe
  refine guarded_and_of_switches (P := (· = resting)) l.switches_intoParts ⟨?_, rfl⟩
  simp_all [guarded_cons_iff, guarded_nil_iff, Safe, Admits]

end Stands

/-! ### Its whole life -/

/-- What holds of a loop from its beginning until it goes out of use. -/
structure Interlocked (used : Traced α (ClosedLoop C)) (gone : Traced α (Board × C)) : Prop where
  /-- The interlock holds all the time. -/
  guarded : untouched.Guarded gone.events
  /-- The loop is enabled exactly while the bridge is on. -/
  enabled_iff : used.result.enabled = true ↔ (untouched.afterAll used.events).started = some true
  /-- In the end the bridge and the sampling are off and the controller is disabled. -/
  atRest : untouched.afterAll gone.events = resting

theorem interlocked [Controller.Reticent C α σ] (board : Board) (controller : C)
    (us : List (Use α)) : Interlocked (used board controller us) (lifetime board controller us) := by
  have hbegun : Stands (begin board controller : Traced α (ClosedLoop C)).result
      (untouched.afterAll (begin board controller : Traced α (ClosedLoop C)).events) :=
    ⟨rfl, iff_of_false nofun Bool.false_ne_true, nofun, nofun⟩
  obtain ⟨hguarded, hstands⟩ := Stands.useAll us _ _ hbegun
  obtain ⟨hgone, hrest⟩ := hstands.intoParts
  have hbeginning : untouched.Guarded (begin board controller : Traced α (ClosedLoop C)).events :=
    (guarded_cons_iff _ _ _).mpr ⟨nofun, trivial, (guarded_nil_iff _).mpr nofun⟩
  have hused : (used board controller us).events =
      (begin board controller : Traced α (ClosedLoop C)).events ++
        ((begin board controller : Traced α (ClosedLoop C)).result.useAll us).events := rfl
  have hlife : (lifetime board controller us).events = (used board controller us).events ++
      ((used board controller us).result.intoParts : Traced α (Board × C)).events := rfl
  refine ⟨?_, ?_, ?_⟩
  · rw [hlife, hused, List.append_assoc]
    exact hbeginning.append (hguarded.append hgone)
  · rw [hused, afterAll_append]
    exact hstands.started_iff.symm
  · rw [hlife, hused, afterAll_append, afterAll_append]
    exact hrest

end ClosedLoop

end MotorControl
