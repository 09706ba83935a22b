/-
A speed loop as a torque loop that is handed currents.

Whoever knows which currents a speed loop asked for, and when, can do without it.  A
bare torque loop is told the pole pairs, the gains, to enable, to disable and to reset
whenever the speed loop is, and takes the same samples.  Where the handler of the speed
loop runs, the bare loop is told the current of the latest tick, if there was a tick
since the handler last ran and since the last reset.  The duties are the same.

The record of a run says of each call what its tick asked for, and `outstanding` reads
off a record what the handler will hand over, without looking at any slot.  The slot of
the loop is shown to hold just that, by one square for each call.
-/
import MotorControl.Binary32
import MotorControl.Proofs.SpeedLoop

namespace MotorControl

namespace SpeedLoop

open Controller

variable {α O : Type}

/-! ### The record of a run -/

/-- A call, and the current that its tick asked for if it brought one. -/
structure Entry (α : Type) where
  call : Call α α
  asked : Option α

/-- Whether nothing waits any more after a call: the handler has run, or a reset dropped it. -/
def Entry.settles (e : Entry α) : Bool :=
  match e.call with
  | .instruct .service | .instruct .reset => true
  | _ => false

/-- The current of the latest tick, if there was one since the handler last ran and since the last
reset.  The latest entry of the past comes first. -/
def outstanding (past : List (Entry α)) : Option α :=
  (past.takeWhile fun e => !e.settles).findSome? Entry.asked

/-- Of several ticks only the latest counts, and what was handed over or dropped is gone. -/
theorem outstanding_cons (e : Entry α) (past : List (Entry α)) :
    outstanding (e :: past) = if e.settles then none else e.asked.or (outstanding past) := by
  cases hsettles : e.settles <;> cases hasked : e.asked <;> simp [outstanding, hsettles, hasked]

/-! ### The calls on a bare torque loop -/

/-- A call as a bare torque loop takes it.  Only the handler, the speed and the gains for the speed
mean nothing to it. -/
def passed? : Call α α → Option (Call α (Rotating α))
  | .sample currents angle => some (.sample currents angle)
  | .instruct .enable => some (.instruct .enable)
  | .instruct .disable => some (.instruct .disable)
  | .instruct .reset => some (.instruct .reset)
  | .instruct (.polePairs n) => some (.instruct (.polePairs n))
  | .instruct (.currentTunings vdc t) => some (.instruct (.currentTunings vdc t))
  | .instruct .service | .instruct (.setPoint _) | .instruct (.speedTunings _) => none

variable [Scalar α]

/-- What a bare torque loop is told in the place of a call with a given past. -/
def Entry.replayed (past : List (Entry α)) (e : Entry α) : List (Call α (Rotating α)) :=
  match e.call with
  | .instruct .service => ((outstanding past).map fun q => .instruct (.setPoint ⟨0, q⟩)).toList
  | k => (passed? k).toList

/-- What a bare torque loop is told in the place of a run with a given past. -/
def replay (past : List (Entry α)) : List (Entry α) → List (Call α (Rotating α))
  | [] => []
  | e :: es => e.replayed past ++ replay (e :: past) es

/-- What a call asks for: the answer of the speed regulator at the tick, if the call is a sample
that brings one. -/
def askedBy? (s : SpeedLoop α O) : Call α α → Option α
  | .sample _ angle => s.asked? angle
  | .instruct _ => none

variable [LoopObserver O α]

/-- The record of a run. -/
def record (s : SpeedLoop α O) : List (Call α α) → List (Entry α)
  | [] => []
  | k :: ks => ⟨k, s.askedBy? k⟩ :: record (call s k).result.2 ks

/-! ### One square for each call -/

/-- A bare torque loop in the same state, and a handoff that holds what the past left there. -/
structure Shadows (past : List (Entry α)) (s : SpeedLoop α O) (t : TorqueLoop α) : Prop where
  torque : s.torque = t
  waiting : s.target.take.1 = outstanding past

variable {past : List (Entry α)} {s : SpeedLoop α O} {t : TorqueLoop α}

theorem Shadows.sample (h : Shadows past s t) (currents : Phases α) (angle : α) :
    let e : Entry α := ⟨.sample currents angle, s.asked? angle⟩
    (call s e.call).result.1.toList = outputs t (e.replayed past) ∧
      Shadows (e :: past) (call s e.call).result.2 (after t (e.replayed past)) := by
  obtain ⟨rfl, hwaiting⟩ := h
  obtain ⟨htorque, htarget, -⟩ := paced_spec s currents angle
  dsimp only
  rw [call_sample, htorque]
  refine ⟨rfl, rfl, ?_⟩
  show (s.paced currents angle).result.target.take.1 = _
  rw [htarget, outstanding_cons]
  cases s.asked? angle with
  | none => exact hwaiting
  | some q => rfl

theorem Shadows.instruct (h : Shadows past s t) (i : Instruction α α) :
    let e : Entry α := ⟨.instruct i, none⟩
    (call s e.call).result.1.toList = outputs t (e.replayed past) ∧
      Shadows (e :: past) (call s e.call).result.2 (after t (e.replayed past)) := by
  obtain ⟨rfl, hwaiting⟩ := h
  cases i with
  | service =>
      have hpast : outstanding (⟨.instruct .service, none⟩ :: past) = none :=
        outstanding_cons _ past
      have hcall : (call s (.instruct .service)).result = (none, s.service) := rfl
      dsimp only
      rw [hcall, service_eq]
      cases hq : outstanding past with
      | none =>
          rw [hq] at hwaiting
          simp only [Entry.replayed, hq, hwaiting]
          exact ⟨rfl, rfl, hpast.symm⟩
      | some q =>
          rw [hq] at hwaiting
          simp only [Entry.replayed, hq, hwaiting]
          exact ⟨rfl, rfl, hpast.symm⟩
  | reset =>
      refine ⟨rfl, rfl, ?_⟩
      rw [outstanding_cons]
      rfl
  | enable | disable | polePairs | setPoint | currentTunings | speedTunings =>
      refine ⟨rfl, rfl, ?_⟩
      rw [outstanding_cons]
      exact hwaiting

theorem Shadows.call (h : Shadows past s t) (k : Call α α) :
    let e : Entry α := ⟨k, s.askedBy? k⟩
    (Controller.call s k).result.1.toList = outputs t (e.replayed past) ∧
      Shadows (e :: past) (Controller.call s k).result.2 (after t (e.replayed past)) := by
  cases k with
  | sample currents angle => exact h.sample currents angle
  | instruct i => exact h.instruct i

/-! ### Runs -/

theorem Shadows.run (ks : List (Call α α)) :
    ∀ (past : List (Entry α)) (s : SpeedLoop α O) (t : TorqueLoop α), Shadows past s t →
      outputs s ks = outputs t (replay past (record s ks)) ∧
        Shadows ((record s ks).reverse ++ past) (Controller.after s ks)
          (Controller.after t (replay past (record s ks))) := by
  induction ks with
  | nil => intro past s t h; exact ⟨rfl, h⟩
  | cons k ks ih =>
      intro past s t h
      -- the square of the first call leads to loops that match again, with one more entry past
      obtain ⟨hanswer, hnext⟩ := h.call k
      obtain ⟨ihoutputs, ihshadows⟩ := ih _ _ _ hnext
      rw [record, replay, outputs_append, after_append, outputs_cons, after_cons, hanswer,
        List.reverse_cons, List.append_assoc, List.singleton_append]
      exact ⟨congrArg _ ihoutputs, ihshadows⟩

/-- As long as the handler does not run, nothing is handed over. -/
theorem replay_record_of_not_service (ks : List (Call α α)) :
    ∀ (past : List (Entry α)) (s : SpeedLoop α O), (∀ k ∈ ks, k ≠ .instruct .service) →
      replay past (record s ks) = ks.filterMap passed? := by
  induction ks with
  | nil => intro past s _; rfl
  | cons k ks ih =>
      intro past s hnever
      have hk : k ≠ .instruct .service := hnever k (by simp)
      have hrest := ih (⟨k, s.askedBy? k⟩ :: past) (Controller.call s k).result.2
        (fun k' hk' => hnever k' (by simp [hk']))
      have hpassed : Entry.replayed past ⟨k, s.askedBy? k⟩ = (passed? k).toList := by
        unfold Entry.replayed
        split
        · exact absurd ‹_› hk
        · rfl
      rw [record, replay, hrest, hpassed, List.filterMap_cons]
      cases passed? k <;> rfl

/--
**A speed loop answers the duties of a torque loop that is handed the latest current.**  A bare
torque loop takes the same instructions and samples, and where the handler runs it is told the
current of the latest tick, if there was one since the handler last ran and since the last reset.
In particular, until the handler runs again the duties depend on what is passed to the torque loop
and on nothing else: not on the speed that is asked for, the gains for it, or any tick.
-/
theorem outputs_eq_replay {observer : O} {maxCurrent : Quantity .ampere α} {pwm : Hertz}
    {ratio : OuterRatio} (h : check observer maxCurrent pwm ratio = .ok s) (ks : List (Call α α)) :
    outputs s ks = outputs (TorqueLoop.new : TorqueLoop α) (replay [] (record s ks)) ∧
      (after s ks).torque = after TorqueLoop.new (replay [] (record s ks)) ∧
      ∀ js : List (Call α α), (∀ k ∈ js, k ≠ .instruct .service) →
        outputs (after s ks) js = outputs (after s ks).torque (js.filterMap passed?) := by
  have hbuilt : Shadows [] s TorqueLoop.new := by
    obtain ⟨-, rfl⟩ := check_eq_ok_iff.1 h
    exact ⟨rfl, rfl⟩
  obtain ⟨houtputs, hshadows⟩ := Shadows.run ks [] s _ hbuilt
  refine ⟨houtputs, hshadows.torque, fun js hnever => ?_⟩
  obtain ⟨hjs, -⟩ := Shadows.run js _ _ _ hshadows
  rw [hjs, replay_record_of_not_service js _ _ hnever, hshadows.torque]

/-- Two ticks, of which the handler sees the later one only, and a sample under its current. -/
def twoTicks : List (Call Float32 Float32) :=
  [.instruct (.speedTunings ⟨0.1, 0, 0⟩), .instruct (.currentTunings 24 (.both ⟨1, 0, 0⟩)),
    .instruct (.setPoint 50), .sample ⟨0, 0, 0⟩ 0, .instruct (.setPoint 10), .sample ⟨0, 0, 0⟩ 0,
    .instruct .service, .sample ⟨0, 0, 0⟩ 0]

/-- The last sample of that run is answered with a voltage, and asking for another speed changes
nothing about the next one. -/
theorem outputs_twoTicks : ∃ s : SpeedLoop Float32 Unit,
    check () ⟨20⟩ ⟨10000⟩ ⟨1, by decide, by decide⟩ = .ok s ∧
      outputs s twoTicks = outputs (TorqueLoop.new : TorqueLoop Float32)
        (replay [] (record s twoTicks)) ∧
      outputs s twoTicks = [.centered, .centered, ⟨.half, .ofUInt8 54, .ofUInt8 46⟩] ∧
      outputs (after s twoTicks) [.instruct (.setPoint 1000), .sample ⟨0, 0, 0⟩ 0]
        = outputs (after s twoTicks).torque [.sample ⟨0, 0, 0⟩ 0] := by
  have hbuilt : check () (⟨20⟩ : Quantity .ampere Float32) ⟨10000⟩ ⟨1, by decide, by decide⟩ =
      .ok _ := check_eq_ok (by decide +kernel)
  obtain ⟨houtputs, -, hnever⟩ := outputs_eq_replay hbuilt twoTicks
  exact ⟨_, hbuilt, houtputs, by decide +kernel, hnever [_, _] (by simp)⟩

end SpeedLoop

end MotorControl
