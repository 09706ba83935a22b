/-
An alignment as a session.

The number of samples an alignment takes is fixed when it begins.  Its countdown is
what is left of that number, so it is above zero before every sample, and the sample
that brings it to zero ends the session with what the encoder reads then.
-/
import MotorControl.Proofs.Session
import MotorControl.Session.Alignment

namespace MotorControl

/-- A number of samples that is raised to one where it is zero. -/
theorem toNat_max_one_pos (n : UInt32) : 0 < (max n 1).toNat := by
  rw [show max n 1 = if n ≤ 1 then 1 else n from rfl]
  split
  · decide
  · rename_i h
    have hlt := UInt32.le_iff_toNat_le.not.mp h
    simp only [UInt32.toNat_one] at hlt
    omega

/-- A time counts for at least one sample. -/
theorem Hertz.samplesIn_pos {α : Type} [Scalar α] (f : Hertz) (seconds : α) :
    0 < (f.samplesIn seconds).toNat :=
  toNat_max_one_pos _

namespace Alignment

variable {α : Type} {board : Board} {a : Alignment α}

instance : Session (Alignment α) α α where
  drive a := a.drive
  completion a := a.completion
  sample a _ position := a.sample position
  service a := pure a
  handBack a := a.intoBoard

/-! ### One sample -/

/-- A countdown above zero does not wrap around. -/
theorem toNat_pred {n : UInt32} (hpos : 0 < n.toNat) : (n - 1).toNat = n.toNat - 1 :=
  UInt32.toNat_sub_of_le _ _ (UInt32.le_iff_toNat_le.mpr hpos)

/-- The last sample reads the encoder and puts the board to rest. -/
theorem sample_of_last (hdrive : a.drive = ⟨board, true⟩) (hlast : a.remaining = 1)
    (position : α) :
    a.sample position =
      ⟨{ a with drive := ⟨board, false⟩, remaining := 0, completion := .done (some position) },
        [.pwm a.duties, .read, .stop, .unsubscribe, .notice (.alignmentFinished position)]⟩ := by
  have hzero : a.remaining - 1 = 0 := by rw [hlast]; rfl
  simp only [sample, hdrive, if_true, hzero]
  rfl

/-- Any other sample is counted and otherwise leaves the session as it is. -/
theorem sample_of_not_last (hdrive : a.drive = ⟨board, true⟩) (hlast : a.remaining ≠ 1)
    (position : α) :
    a.sample position = ⟨{ a with remaining := a.remaining - 1 }, [.pwm a.duties]⟩ := by
  have hzero : ¬ a.remaining - 1 = 0 := fun h => hlast (by grind)
  simp only [sample, hdrive, if_true, hzero, if_false]
  rfl

instance : LawfulSession (Alignment α) α α where
  sample_of_open {board a} h _ position := by
    have hdrive : a.drive = ⟨board, true⟩ := h.drive_eq
    show Session.Progress board (a.sample position)
    by_cases hlast : a.remaining = 1
    · rw [sample_of_last hdrive hlast]
      exact .ends ⟨rfl, rfl⟩ [a.duties] rfl
    · rw [sample_of_not_last hdrive hlast]
      exact .goesOn ⟨hdrive, h.pending⟩ [a.duties] rfl
  sample_of_over {board a} h _ position := by
    have hdrive : a.drive = ⟨board, false⟩ := h.drive_eq
    show a.sample position = pure a
    simp only [sample, hdrive, Bool.false_eq_true, if_false]
  drive_service _ := rfl
  completion_service _ := rfl
  calls_service _ := rfl
  calls_handBack _ := rfl

instance : BoundedSession (Alignment α) α α where
  Due n a := a.remaining.toNat = n ∧ 0 < n
  due_pos h := h.2
  due_sample {board n a} hopen h _ position hon := by
    have hdrive : a.drive = ⟨board, true⟩ := hopen.drive_eq
    show (a.sample position).result.remaining.toNat = n - 1 ∧ 0 < n - 1
    have hlast : a.remaining ≠ 1 := by
      intro hlast
      have hover := hon.drive_eq
      change (a.sample position).result.drive = ⟨board, true⟩ at hover
      rw [sample_of_last hdrive hlast] at hover
      cases hover
    have hone : a.remaining.toNat ≠ 1 := fun h => hlast (UInt32.toNat_inj.mp h)
    rw [sample_of_not_last hdrive hlast]
    exact ⟨(toNat_pred (by omega)).trans (by omega), by omega⟩
  due_service h := h

/-! ### The countdown -/

/-- Before the last sample the countdown is what is left, and never zero. -/
theorem open_first (h : Session.Open board a) (samples : Nat → Phases α × α) :
    ∀ k, k < a.remaining.toNat →
      Session.Open board (Session.beats a (Beat.first samples k)).result ∧
      (Session.beats a (Beat.first samples k)).result.remaining.toNat
        = a.remaining.toNat - k := by
  intro k
  induction k with
  | zero => intro _; exact ⟨h, rfl⟩
  | succ k ih =>
      intro hk
      obtain ⟨hopen, hleft⟩ := ih (by omega)
      rw [Session.beats_first_succ, Traced.bind_result]
      generalize (Session.beats a (Beat.first samples k)).result = b at hopen hleft ⊢
      have hdrive : b.drive = ⟨board, true⟩ := hopen.drive_eq
      have hlast : b.remaining ≠ 1 := by
        intro hone
        rw [hone, UInt32.toNat_one] at hleft
        omega
      show Session.Open board (b.sample (samples k).2).result ∧
        (b.sample (samples k).2).result.remaining.toNat = a.remaining.toNat - (k + 1)
      rw [sample_of_not_last hdrive hlast]
      exact ⟨⟨hdrive, hopen.pending⟩, (toNat_pred (by omega)).trans (by omega)⟩

/-- The sample that brings the countdown to zero fixes what is found out. -/
theorem completion_first (h : Session.Open board a) (hpos : 0 < a.remaining.toNat)
    (samples : Nat → Phases α × α) (k : Nat) :
    (Session.beats a (Beat.first samples k)).result.completion =
      if k < a.remaining.toNat then .pending
      else .done (some (samples (a.remaining.toNat - 1)).2) := by
  by_cases hk : k < a.remaining.toNat
  · rw [if_pos hk]
    exact (open_first h samples k hk).1.pending
  · rw [if_neg hk]
    obtain ⟨last, hlast⟩ : ∃ last, a.remaining.toNat = last + 1 :=
      Nat.exists_eq_succ_of_ne_zero (by omega)
    obtain ⟨cs, hcs, hsamples⟩ := Beat.first_add samples (last + 1) (k - (last + 1))
    obtain ⟨hopen, hone⟩ := open_first h samples last (by omega)
    rw [Nat.add_sub_cancel' (by omega)] at hcs
    rw [hcs, Session.beats_append, Session.beats_first_succ, Traced.bind_result,
      Traced.bind_result, hlast, Nat.add_sub_cancel]
    generalize (Session.beats a (Beat.first samples last)).result = b at hopen hone ⊢
    have hdrive : b.drive = ⟨board, true⟩ := hopen.drive_eq
    have hone : b.remaining = 1 := UInt32.toNat_inj.mp (by rw [hone, UInt32.toNat_one]; omega)
    have hstep := sample_of_last hdrive hone (samples last).2
    show (Session.beats (b.sample (samples last).2).result cs).result.completion = _
    have hover : Session.Over board (b.sample (samples last).2).result := by
      rw [hstep]
      exact ⟨rfl, rfl⟩
    rw [hover.samples cs hsamples, hstep]
    rfl

/-- An alignment begins open, with all of its samples left. -/
theorem begun [Scalar α] (board : Board) (config : Config α) :
    Session.Begun board (begin board config) ∧
      (begin board config).result.remaining = board.baseFrequency.samplesIn config.settleTime :=
  ⟨⟨⟨rfl, rfl⟩, rfl⟩, rfl⟩

/-- An alignment of `n` samples, whatever they are. -/
structure CountsDown (board : Board) (n : Nat) (begun : Traced α (Alignment α)) : Prop where
  endsWithin : Session.EndsWithin board n begun
  /-- The last sample is the `n`th, and what the encoder reads then is the result. -/
  completion_eq (samples : Nat → Phases α × α) (k : Nat) :
    (Session.beats begun.result (Beat.first samples k)).result.completion =
      if k < n then .pending else .done (some (samples (n - 1)).2)
  /-- The countdown is above zero before each of the samples. -/
  remaining_eq (samples : Nat → Phases α × α) (k : Nat) (hk : k < n) :
    (Session.beats begun.result (Beat.first samples k)).result.remaining.toNat = n - k

/--
**An alignment ends at the sample its settle time asks for, with the reading of that sample.**
-/
theorem countsDown [Scalar α] (board : Board) (config : Config α) :
    CountsDown board (board.baseFrequency.samplesIn config.settleTime).toNat
      (begin board config) := by
  obtain ⟨hbegun, hremaining⟩ := begun board config
  have hpos := board.baseFrequency.samplesIn_pos config.settleTime
  rw [← hremaining] at hpos ⊢
  refine ⟨hbegun.endsWithin ⟨rfl, hpos⟩, ?_, ?_⟩
  · intro samples k
    exact completion_first hbegun.isOpen hpos samples k
  · intro samples k hk
    exact (open_first hbegun.isOpen samples k hk).2

end Alignment

end MotorControl
