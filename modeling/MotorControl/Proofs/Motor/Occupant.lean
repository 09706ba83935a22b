/-
Who has the motor, and how the switches of the board stand then.

An occupant that is sound uses the board it was given, and its session, if it is one,
is open.  The switches stand as it left them: at rest while nobody has the motor, and
with the bridge on and the samples coming in otherwise.  A beat keeps an occupant
sound or spends it, and dismantling puts the board to rest whoever it was.
-/
import MotorControl.Motor
import MotorControl.Proofs.Session.Alignment
import MotorControl.Proofs.Session.ElectricalTest
import MotorControl.Proofs.Session.MechanicalTest

namespace MotorControl

/-! ### The closed loop -/

namespace ClosedLoop

variable {C α σ : Type} [Controller C α σ] (l : ClosedLoop C)

/-- A sample tells the bridge its duties once. -/
theorem calls_sample (currents : Phases α) (position : α) :
    (l.sample currents position).calls
      = [.pwm (Controller.calculate currents position l.controller).result.1] := by
  simp only [sample, Traced.calls_bind, Traced.calls_emit, Traced.calls_pure,
    (Controller.calculate_detached currents position l.controller).calls]
  rfl

theorem calls_intoParts : (l.intoParts : Traced α (Board × C)).calls = [.stop, .unsubscribe] := by
  unfold intoParts disable
  cases l.enabled <;> rfl

theorem board_intoParts : (l.intoParts : Traced α (Board × C)).result.1 = l.board := by
  unfold intoParts disable
  cases l.enabled <;> rfl

end ClosedLoop

namespace Occupant

variable {C σ : Type} {board : Board} {o : Occupant C}

/-- How the switches of the board stand. -/
def boardState (board : Board) : Occupant C → BoardState
  | .idle .. => .quiet
  | _ => .live board.baseFrequency

/-- Where the switches stand is all in what the motor is busy with. -/
theorem boardState_eq (board : Board) (o : Occupant C) :
    o.boardState board = if o.activity = .idle then .quiet else .live board.baseFrequency := by
  cases o <;> rfl

/-- Whether it is a session that has come to its end. -/
def isDone : Occupant C → Bool
  | .aligning session _ => session.completion.isDone
  | .identifyingElectrical session _ => session.completion.isDone
  | .identifyingMechanical session => session.completion.isDone
  | .idle .. | .running _ => false

variable [Controller C Float32 σ]

/-- What a beat makes of the occupant, before anybody asks whether it is done. -/
def beat : Occupant C → Beat Float32 → Traced Float32 (Occupant C)
  | .idle board controller, _ => return .idle board controller
  | .aligning session controller, b => return .aligning (← Session.beat session b) controller
  | .identifyingElectrical session controller, b =>
    return .identifyingElectrical (← Session.beat session b) controller
  | .identifyingMechanical session, b => return .identifyingMechanical (← Session.beat session b)
  | .running loop, .sample currents position => return .running (← loop.sample currents position)
  | .running loop, .service => return .running (← loop.order .service)

/-- The occupant uses the board, and its session, if it is one, is open. -/
def Sound (board : Board) : Occupant C → Prop
  | .idle b _ => b = board
  | .aligning session _ => Session.Open board session
  | .identifyingElectrical session _ => Session.Open board session
  | .identifyingMechanical session => Session.Open board session
  | .running loop => loop.board = board

/-- The occupant is a session that is over. -/
def Spent (board : Board) : Occupant C → Prop
  | .aligning session _ => Session.Over board session
  | .identifyingElectrical session _ => Session.Over board session
  | .identifyingMechanical session => Session.Over board session
  | .idle .. | .running _ => False

theorem Sound.isDone (h : o.Sound board) : o.isDone = false := by
  cases o with
  | idle b controller => rfl
  | aligning session controller => exact Session.Open.not_isDone h
  | identifyingElectrical session controller => exact Session.Open.not_isDone h
  | identifyingMechanical session => exact Session.Open.not_isDone h
  | running loop => rfl

theorem Spent.isDone (h : o.Spent board) : o.isDone = true := by
  cases o with
  | idle b controller => exact h.elim
  | aligning session controller => exact Session.Over.isDone h
  | identifyingElectrical session controller => exact Session.Over.isDone h
  | identifyingMechanical session => exact Session.Over.isDone h
  | running loop => exact h.elim

/-! ### One beat -/

/-- What can come of an occupant: it stays sound, and the switches stay where they are, or it is a
session that came to its end and put the board to rest. -/
inductive Progress (board : Board) (o : Occupant C) (r : Traced Float32 (Occupant C)) : Prop
  | goesOn (sound : r.result.Sound board)
      (leads : BoardState.Leads (o.boardState board) r.calls (o.boardState board))
  | ends (spent : r.result.Spent board)
      (leads : BoardState.Leads (o.boardState board) r.calls .quiet)

/-- `wrap` makes occupants of sessions of the type `S`, and what there is to know of such an
occupant is known from its session. -/
structure Hosts {S β : Type} [Session S Float32 β] (wrap : S → Occupant C) (kind : Activity) :
    Prop where
  activity_eq (s : S) : (wrap s).activity = kind
  ne_idle : kind ≠ .idle
  sound_iff (board : Board) (s : S) : (wrap s).Sound board ↔ Session.Open board s
  spent_iff (board : Board) (s : S) : (wrap s).Spent board ↔ Session.Over board s
  isDone_eq (s : S) : (wrap s).isDone = (Session.completion s).isDone
  beat_eq (s : S) (b : Beat Float32) : (wrap s).beat b = wrap <$> Session.beat s b

theorem hosts_aligning (controller : C) : Hosts (Occupant.aligning · controller) .aligning :=
  ⟨fun _ => rfl, nofun, fun _ _ => .rfl, fun _ _ => .rfl, fun _ => rfl, fun _ _ => rfl⟩

theorem hosts_identifyingElectrical (controller : C) :
    Hosts (Occupant.identifyingElectrical · controller) .identifyingElectrical :=
  ⟨fun _ => rfl, nofun, fun _ _ => .rfl, fun _ _ => .rfl, fun _ => rfl, fun _ _ => rfl⟩

theorem hosts_identifyingMechanical :
    Hosts (Occupant.identifyingMechanical (C := C)) .identifyingMechanical :=
  ⟨fun _ => rfl, nofun, fun _ _ => .rfl, fun _ _ => .rfl, fun _ => rfl, fun _ _ => rfl⟩

/-- A session on the board is an occupant that is sound or spent, and so it stays. -/
theorem Hosts.progress {S β : Type} [Session S Float32 β] [LawfulSession S Float32 β]
    {wrap : S → Occupant C} {kind : Activity} (hw : Hosts wrap kind) {s : S}
    (h : (wrap s).Sound board) (b : Beat Float32) : Progress board (wrap s) ((wrap s).beat b) := by
  have hlive : (wrap s).boardState board = .live board.baseFrequency := by
    rw [boardState_eq, hw.activity_eq, if_neg hw.ne_idle]
  rw [hw.beat_eq]
  cases ((hw.sound_iff board s).mp h).beat b with
  | goesOn hopen outputs hcalls =>
      refine .goesOn ((hw.sound_iff board _).mpr hopen) ?_
      rw [hlive, Traced.calls_map, hcalls]
      exact BoardState.leads_outputs _ outputs
  | ends hover outputs hcalls =>
      refine .ends ((hw.spent_iff board _).mpr hover) ?_
      rw [hlive, Traced.calls_map, hcalls]
      exact (BoardState.leads_outputs _ outputs).append (BoardState.leads_end _)

theorem Sound.beat (h : o.Sound board) (b : Beat Float32) : Progress board o (o.beat b) := by
  cases o with
  | idle board' controller => exact .goesOn h (.refl _)
  | aligning session controller => exact (hosts_aligning controller).progress h b
  | identifyingElectrical session controller =>
      exact (hosts_identifyingElectrical controller).progress h b
  | identifyingMechanical session => exact hosts_identifyingMechanical.progress h b
  | running loop =>
      cases b with
      | sample currents position =>
          refine .goesOn h ?_
          show BoardState.Leads _ ((Occupant.running <$> loop.sample currents position).calls) _
          rw [Traced.calls_map, loop.calls_sample]
          exact BoardState.leads_outputs _ [_]
      | service => exact .goesOn h (.refl _)

/-- The handler of low priority ends no session and asks nothing of the board. -/
theorem Sound.service (h : o.Sound board) :
    (o.beat .service).result.Sound board ∧ (o.beat .service).calls = [] := by
  cases o with
  | idle board' controller => exact ⟨h, rfl⟩
  | aligning session controller => exact ⟨Session.Open.service h, rfl⟩
  | identifyingElectrical session controller => exact ⟨Session.Open.service h, rfl⟩
  | identifyingMechanical session => exact ⟨Session.Open.service h, rfl⟩
  | running loop => exact ⟨h, rfl⟩

theorem activity_beat (o : Occupant C) (b : Beat Float32) :
    (o.beat b).result.activity = o.activity := by
  cases o with
  | running loop => cases b <;> rfl
  | _ => rfl

theorem boardState_beat (board : Board) (o : Occupant C) (b : Beat Float32) :
    (o.beat b).result.boardState board = o.boardState board := by
  rw [boardState_eq, activity_beat, ← boardState_eq]

/-! ### Dismantling -/

/-- Whoever has the motor can be made to hand the board back, at rest. -/
theorem Sound.dismantle (h : o.Sound board) :
    o.dismantle.result.1 = board ∧
      o.dismantle.calls = if o.activity = .idle then [] else [.stop, .unsubscribe] := by
  cases o with
  | idle board' controller => exact ⟨h, rfl⟩
  | aligning session controller =>
      have hdrive : session.drive = ⟨board, true⟩ := Session.Open.drive_eq h
      simp only [Occupant.dismantle, Alignment.intoBoard, hdrive]
      exact ⟨rfl, rfl⟩
  | identifyingElectrical session controller =>
      have hdrive : session.drive = ⟨board, true⟩ := Session.Open.drive_eq h
      simp only [Occupant.dismantle, ElectricalTest.intoBoard, hdrive]
      exact ⟨rfl, rfl⟩
  | identifyingMechanical session =>
      have hdrive : session.drive = ⟨board, true⟩ := Session.Open.drive_eq h
      simp only [Occupant.dismantle, MechanicalTest.intoParts, hdrive]
      exact ⟨rfl, rfl⟩
  | running loop =>
      exact ⟨loop.board_intoParts.trans h, loop.calls_intoParts⟩

theorem Sound.leads_dismantle (h : o.Sound board) :
    BoardState.Leads (o.boardState board) o.dismantle.calls .quiet := by
  rw [h.dismantle.2]
  cases o with
  | idle board' controller => exact .refl _
  | _ => exact BoardState.leads_end _

end Occupant

end MotorControl
