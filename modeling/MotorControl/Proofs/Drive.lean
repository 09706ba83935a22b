/-
What a drive guarantees to the board.

A drive ends the sampling exactly once, whenever it is released or goes out of use.
With the bridge it is different.  Starting looks at no field of the drive, while
releasing does nothing on a drive that was released before, so a start that comes
after a release switches on a bridge that nothing switches off again.  In every
order of starts and releases, that is the only way to leave the bridge on.
-/
import MotorControl.Proofs.BoardState

namespace MotorControl

namespace Drive

variable {α : Type}

/-! ### The use of a drive -/

/-- What the owner of a drive can do with it before it goes out of use. -/
inductive Use where
  | start
  | release
  deriving DecidableEq, Repr

/-- Uses the drive once. -/
def use (d : Drive) : Use → Traced α Drive
  | .start => do
    d.start
    return d
  | .release => d.release

/-- Uses the drive any number of times. -/
def useAll (d : Drive) (us : List Use) : Traced α Drive := us.foldlM use d

/-- All that is asked of a board on behalf of one drive, up to its going out of use. -/
def lifetime (board : Board) (us : List Use) : Traced α Board := do
  let d ← subscribe board
  let d ← d.useAll us
  d.intoBoard

@[simp] theorem useAll_nil (d : Drive) : (d.useAll [] : Traced α Drive) = pure d := rfl

@[simp] theorem useAll_cons (d : Drive) (u : Use) (us : List Use) :
    (d.useAll (u :: us) : Traced α Drive) = d.use u >>= fun d => d.useAll us :=
  List.foldlM_cons

/-! ### Calls on the board -/

@[simp] theorem release_of_active (board : Board) :
    (release ⟨board, true⟩ : Traced α Drive) = ⟨⟨board, false⟩, [.stop, .unsubscribe]⟩ := rfl

/-- A release comes once. -/
@[simp] theorem release_of_released (board : Board) :
    (release ⟨board, false⟩ : Traced α Drive) = pure ⟨board, false⟩ := rfl

@[simp] theorem intoBoard_of_active (board : Board) :
    (intoBoard ⟨board, true⟩ : Traced α Board) = ⟨board, [.stop, .unsubscribe]⟩ := rfl

@[simp] theorem intoBoard_of_released (board : Board) :
    (intoBoard ⟨board, false⟩ : Traced α Board) = pure board := rfl

/-! ### Orders of starts and releases -/

/-- A released drive stays released, and only its starts still reach the board. -/
theorem useAll_released (board : Board) (us : List Use) :
    ∀ s : BoardState, (useAll ⟨board, false⟩ us : Traced α Drive).result = ⟨board, false⟩ ∧
      s.afterAll (useAll ⟨board, false⟩ us : Traced α Drive).events
        = ⟨s.sampling, s.isOn || decide (.start ∈ us)⟩ := by
  induction us with
  | nil => intro s; simp
  | cons u us ih =>
      intro s
      cases u with
      | start =>
          have := ih (s.after (.start : Event α))
          simp_all [use, start, BoardState.after]
      | release =>
          have := ih s
          simp_all [use]

/-- Before its first release a drive is active and each start switches the bridge on; from then on
the drive is released, and the bridge is on if a start came later. -/
theorem useAll_active (board : Board) (us : List Use) :
    ∀ s : BoardState,
      if .release ∈ us then
        (useAll ⟨board, true⟩ us : Traced α Drive).result = ⟨board, false⟩ ∧
        s.afterAll (useAll ⟨board, true⟩ us : Traced α Drive).events
          = ⟨none, decide ([.release, .start].Sublist us)⟩
      else
        (useAll ⟨board, true⟩ us : Traced α Drive).result = ⟨board, true⟩ ∧
        s.afterAll (useAll ⟨board, true⟩ us : Traced α Drive).events
          = ⟨s.sampling, s.isOn || decide (.start ∈ us)⟩ := by
  induction us with
  | nil => intro s; simp
  | cons u us ih =>
      intro s
      cases u with
      | start =>
          have hsub : [Use.release, .start].Sublist (.start :: us) ↔
              [Use.release, .start].Sublist us := by
            simp [List.sublist_cons_iff]
          have := ih (s.after (.start : Event α))
          simp_all [use, start, BoardState.after]
      | release =>
          obtain ⟨hresult, hstate⟩ := useAll_released (α := α) board us .quiet
          simp_all [use, BoardState.after, BoardState.quiet]

/--
**A start after a release is the only thing that leaves the bridge on.**  The sampling is ended
with the life of a drive in any case.  The bridge is on after it, and on before it with a drive that
is not active, exactly if a start came after a release.
-/
theorem on_after_lifetime_iff (α : Type) (board : Board) (us : List Use) :
    let used : Traced α Drive := subscribe board >>= (useAll · us)
    let gone : Traced α Board := lifetime board us
    (BoardState.quiet.afterAll gone.events).sampling = none ∧
    ((BoardState.quiet.afterAll gone.events).isOn = true ↔ [.release, .start].Sublist us) ∧
    (used.result.active = false ∧ (BoardState.quiet.afterAll used.events).isOn = true ↔
      [.release, .start].Sublist us) := by
  have hused := useAll_active (α := α) board us ⟨some board.baseFrequency, false⟩
  by_cases hrelease : .release ∈ us
  · -- The drive has done its part already, and nothing more is asked of the board.
    rw [if_pos hrelease] at hused
    obtain ⟨hresult, hstate⟩ := hused
    simp_all [lifetime, subscribe, BoardState.after, BoardState.quiet]
  · have hnever : ¬ [Use.release, .start].Sublist us := fun h => hrelease (h.subset (by simp))
    rw [if_neg hrelease] at hused
    obtain ⟨hresult, hstate⟩ := hused
    simp_all [lifetime, subscribe, BoardState.after, BoardState.quiet]

/-- A drive that is started again once it was released goes out of use with its bridge on. -/
theorem on_after_restarted_lifetime :
    (BoardState.quiet.afterAll (lifetime ⟨⟨16000⟩⟩ [.start, .release, .start] :
      Traced Float32 Board).events).isOn = true := rfl

end Drive

end MotorControl
