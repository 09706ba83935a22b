/-
Sessions of a bounded length.

Three sessions share one shape: each has a drive and a completion, takes samples, and
may leave work for the handler of low priority.  `Session` names the shape.  What
holds of all of them is proved once, from two laws about a single sample: an open
session stays open and tells the bridge duties, or ends and puts the board to rest;
a session that is over does nothing at all.

`BoundedSession` adds a count of the samples that may still come.  A sample that does
not end the session lowers the count, so the session is over by the time it has
reached zero, whatever was measured.
-/
import Mathlib.Data.Nat.Find
import MotorControl.Proofs.Drive

namespace MotorControl

/-- What reaches a session that is left alone. -/
inductive Beat (α : Type) where
  /-- A sample, at which the encoder reads, or would read, `position`. -/
  | sample (currents : Phases α) (position : α)
  /-- The handler of low priority runs. -/
  | service

/-- Whether a beat is a sample. -/
def Beat.isSample {α : Type} : Beat α → Bool
  | .sample .. => true
  | .service => false

/-- The first samples of an endless sequence of currents and encoder readings. -/
def Beat.first {α : Type} (samples : Nat → Phases α × α) (n : Nat) : List (Beat α) :=
  (List.range n).map fun i => .sample (samples i).1 (samples i).2

namespace Beat

variable {α : Type} (samples : Nat → Phases α × α)

theorem isSample_of_mem_map {ι : Type} (f : ι → Phases α × α) (is : List ι) :
    ∀ b ∈ is.map (fun i => Beat.sample (f i).1 (f i).2), b.isSample = true := by
  intro b hb
  obtain ⟨i, -, rfl⟩ := List.mem_map.mp hb
  rfl

theorem countP_first (n : Nat) : (first samples n).countP isSample = n := by
  rw [first, List.countP_eq_length.mpr (isSample_of_mem_map samples _), List.length_map,
    List.length_range]

/-- More samples are the earlier ones and others after them. -/
theorem first_add (m n : Nat) :
    ∃ cs, first samples (m + n) = first samples m ++ cs ∧ ∀ b ∈ cs, b.isSample = true := by
  refine ⟨_, ?_, isSample_of_mem_map (fun i => samples (m + i)) (List.range n)⟩
  rw [first, List.range_add, List.map_append, List.map_map]
  rfl

end Beat

/-- Sessions of the type `S` over scalars `α`, which find out a `β`. -/
class Session (S : Type) (α β : outParam Type) where
  drive : S → Drive
  completion : S → Completion β
  sample : S → Phases α → α → Traced α S
  /-- What the handler of low priority does. -/
  service : S → Traced α S
  /-- Ends the session and hands the board back. -/
  handBack : S → Traced α Board

namespace Session

variable {S α β : Type} [Session S α β] {board : Board} {s : S}

/-- One beat. -/
def beat (s : S) : Beat α → Traced α S
  | .sample currents position => sample s currents position
  | .service => service s

/-- Any number of beats. -/
def beats (s : S) (bs : List (Beat α)) : Traced α S := bs.foldlM beat s

@[simp] theorem beats_nil (s : S) : beats s ([] : List (Beat α)) = pure s := rfl

@[simp] theorem beats_cons (s : S) (b : Beat α) (bs : List (Beat α)) :
    beats s (b :: bs) = beat s b >>= fun s => beats s bs :=
  List.foldlM_cons

theorem beats_first_succ (s : S) (samples : Nat → Phases α × α) (n : Nat) :
    beats s (Beat.first samples (n + 1)) = beats s (Beat.first samples n) >>= fun s =>
      sample s (samples n).1 (samples n).2 := by
  rw [Beat.first, List.range_succ, List.map_append, beats, List.foldlM_append]
  refine congrArg _ (funext fun s => ?_)
  exact bind_pure _

theorem beats_append (s : S) (bs cs : List (Beat α)) :
    beats s (bs ++ cs) = beats s bs >>= fun s => beats s cs :=
  List.foldlM_append

/-- A session that uses a board and has not come to its end. -/
structure Open (board : Board) (s : S) : Prop where
  drive_eq : drive s = ⟨board, true⟩
  pending : completion s = .pending

/-- A session that has come to its end and released the board. -/
structure Over (board : Board) (s : S) : Prop where
  drive_eq : drive s = ⟨board, false⟩
  isDone : (completion s).isDone = true

/-- What can come of an open session: it goes on, and at most told the bridge its duties, or it came
to its end and put the board to rest. -/
inductive Progress (board : Board) (r : Traced α S) : Prop
  | goesOn (isOpen : Open board r.result) (outputs : List Duties)
      (calls : r.calls = outputs.map .pwm)
  | ends (isOver : Over board r.result) (outputs : List Duties)
      (calls : r.calls = outputs.map .pwm ++ [.stop, .unsubscribe])

end Session

open Session

/-- What the samples of a session keep to. -/
class LawfulSession (S : Type) (α β : outParam Type) [Session S α β] : Prop where
  sample_of_open {board : Board} {s : S} (h : Open board s) (currents : Phases α) (position : α) :
    Progress board (sample s currents position)
  sample_of_over {board : Board} {s : S} (h : Over board s) (currents : Phases α) (position : α) :
    sample s currents position = pure s
  drive_service (s : S) : drive (service s).result = drive s
  completion_service (s : S) : completion (service s).result = completion s
  calls_service (s : S) : (service s).calls = []
  calls_handBack (s : S) : (handBack s).calls = ((drive s).intoBoard : Traced α Board).calls

/-- Sessions whose samples are counted. -/
class BoundedSession (S : Type) (α β : outParam Type) [Session S α β] where
  /-- At most `n` more samples are taken. -/
  Due : Nat → S → Prop
  due_pos {n : Nat} {s : S} (h : Due n s) : 0 < n
  due_sample {board : Board} {n : Nat} {s : S} (hopen : Open board s) (h : Due n s)
    (currents : Phases α) (position : α) (hon : Open board (sample s currents position).result) :
    Due (n - 1) (sample s currents position).result
  due_service {n : Nat} {s : S} (h : Due n s) : Due n (service s).result

/-- A count of samples that has not passed its limit, and is `n` samples short of passing it. -/
structure InTime (limit elapsed : UInt32) (n : Nat) : Prop where
  fits : limit.toNat + 1 < UInt32.size
  le : elapsed.toNat ≤ limit.toNat
  left : elapsed.toNat + n = limit.toNat + 1

namespace InTime

variable {limit elapsed : UInt32} {n : Nat}

theorem start (h : limit.toNat + 1 < UInt32.size) : InTime limit 0 (limit.toNat + 1) :=
  ⟨h, Nat.zero_le _, Nat.zero_add _⟩

theorem pos (h : InTime limit elapsed n) : 0 < n := by
  have := h.le
  have := h.left
  omega

/-- The limit fits its word, so the count does not wrap around before it has passed the limit. -/
theorem next (h : InTime limit elapsed n) (hle : ¬ limit < elapsed + 1) :
    InTime limit (elapsed + 1) (n - 1) := by
  have hfits := h.fits
  have hleft := h.left
  have hpos := h.pos
  have hnext : (elapsed + 1).toNat = elapsed.toNat + 1 := by
    rw [UInt32.toNat_add, UInt32.toNat_one]
    exact Nat.mod_eq_of_lt (show elapsed.toNat + 1 < UInt32.size by omega)
  refine ⟨hfits, Nat.not_lt.mp fun hlt => hle (UInt32.lt_iff_toNat_lt.mpr hlt), ?_⟩
  rw [hnext]
  omega

end InTime

namespace Session

variable {S α β : Type} [Session S α β] {board : Board} {s : S}

theorem Open.not_isDone (h : Open board s) : (completion s).isDone = false := by
  rw [h.pending]
  rfl

theorem Open.not_over (h : Open board s) : ¬ Over board s := by
  intro hover
  exact absurd hover.isDone (by simp [h.not_isDone])

section Lawful

variable [LawfulSession S α β]

/-! ### Runs of beats -/

theorem Open.service (h : Open board s) : Open board (Session.service s).result :=
  ⟨(LawfulSession.drive_service s).trans h.drive_eq,
    (LawfulSession.completion_service s).trans h.pending⟩

theorem Over.service (h : Over board s) : Over board (Session.service s).result :=
  ⟨(LawfulSession.drive_service s).trans h.drive_eq,
    (congrArg Completion.isDone (LawfulSession.completion_service s)).trans h.isDone⟩

/-- One beat of an open session. -/
theorem Open.beat (h : Open board s) (b : Beat α) : Progress board (Session.beat s b) := by
  cases b with
  | sample currents position => exact LawfulSession.sample_of_open h currents position
  | service => exact .goesOn h.service [] (LawfulSession.calls_service s)

/-- A session that is over keeps its completion and asks nothing more of the board. -/
theorem Over.beats (bs : List (Beat α)) :
    ∀ s : S, Over board s → Over board (Session.beats s bs).result ∧
      completion (Session.beats s bs).result = completion s ∧ (Session.beats s bs).calls = [] := by
  induction bs with
  | nil => intro s h; exact ⟨h, rfl, rfl⟩
  | cons b bs ih =>
      intro s h
      cases b with
      | sample currents position =>
          rw [beats_cons, Session.beat, LawfulSession.sample_of_over h, pure_bind]
          exact ih s h
      | service =>
          obtain ⟨hover, hcompletion, hcalls⟩ := ih _ h.service
          refine ⟨hover, hcompletion.trans (LawfulSession.completion_service s), ?_⟩
          rw [beats_cons, Session.beat, Traced.calls_bind, LawfulSession.calls_service, hcalls]
          rfl

/-- Samples that come after the end do nothing. -/
theorem Over.samples (h : Over board s) (bs : List (Beat α)) (hbs : ∀ b ∈ bs, b.isSample = true) :
    Session.beats s bs = pure s := by
  induction bs with
  | nil => rfl
  | cons b bs ih =>
      cases b with
      | sample currents position =>
          rw [beats_cons, Session.beat, LawfulSession.sample_of_over h, pure_bind]
          exact ih fun b hb => hbs b (List.mem_cons_of_mem _ hb)
      | service => exact absurd (hbs _ List.mem_cons_self) (by simp [Beat.isSample])

/-- Whatever its beats bring, an open session goes on or ends once. -/
theorem Open.beats (bs : List (Beat α)) :
    ∀ s : S, Open board s → Progress board (Session.beats s bs) := by
  induction bs with
  | nil => intro s h; exact .goesOn h [] rfl
  | cons b bs ih =>
      intro s h
      rw [beats_cons]
      cases h.beat b with
      | goesOn hopen outputs hcalls =>
          cases ih _ hopen with
          | goesOn hopen' outputs' hcalls' =>
              refine .goesOn hopen' (outputs ++ outputs') ?_
              rw [Traced.calls_bind, hcalls, hcalls', List.map_append]
          | ends hover outputs' hcalls' =>
              refine .ends hover (outputs ++ outputs') ?_
              rw [Traced.calls_bind, hcalls, hcalls', List.map_append, List.append_assoc]
      | ends hover outputs hcalls =>
          obtain ⟨hover', -, hnone⟩ := Over.beats bs _ hover
          refine .ends hover' outputs ?_
          rw [Traced.calls_bind, hcalls, hnone, List.append_nil]

/-- An open session is over once it is done. -/
theorem Open.over_of_isDone (h : Open board s) {bs : List (Beat α)}
    (hdone : (completion (Session.beats s bs).result).isDone = true) :
    Over board (Session.beats s bs).result := by
  cases Open.beats bs s h with
  | goesOn hopen _ _ => exact absurd hdone (by simp [hopen.not_isDone])
  | ends hover _ _ => exact hover

/-- A session does not outlive the count of its samples. -/
theorem Open.over_of_due [BoundedSession S α β] (bs : List (Beat α)) :
    ∀ (n : Nat) (s : S), Open board s → BoundedSession.Due n s → n ≤ bs.countP Beat.isSample →
      Over board (Session.beats s bs).result := by
  induction bs with
  | nil =>
      intro n s _ hdue hn
      have := BoundedSession.due_pos hdue
      simp at hn
      omega
  | cons b bs ih =>
      intro n s hopen hdue hn
      rw [beats_cons, Traced.bind_result]
      cases b with
      | service =>
          refine ih n _ hopen.service (BoundedSession.due_service hdue) ?_
          rwa [List.countP_cons_of_neg (by simp [Beat.isSample])] at hn
      | sample currents position =>
          rw [List.countP_cons_of_pos rfl] at hn
          cases LawfulSession.sample_of_open hopen currents position with
          | goesOn hon _ _ =>
              have hless := BoundedSession.due_sample hopen hdue currents position hon
              exact ih (n - 1) _ hon hless (by omega)
          | ends hover _ _ => exact (Over.beats bs _ hover).1

end Lawful

/-! ### The end of a session -/

/-- A session that was begun on a board ends, once and for all, and no later than at the sample
whose number is `bound`. -/
structure EndsWithin (board : Board) (bound : Nat) (begun : Traced α S) : Prop where
  /-- Whatever the samples are, one of them is the last: the session is pending before it and done
  from it on. -/
  ends : ∀ samples : Nat → Phases α × α, ∃ n, 0 < n ∧ n ≤ bound ∧ ∀ k,
    (completion (beats begun.result (Beat.first samples k)).result).isDone = true ↔ n ≤ k
  /-- The handler of low priority does not put the end off. -/
  done : ∀ bs : List (Beat α), bound ≤ bs.countP Beat.isSample →
    (completion (beats begun.result bs).result).isDone = true
  /-- Samples that come after the end cause no event and change nothing. -/
  stays : ∀ bs cs : List (Beat α), (completion (beats begun.result bs).result).isDone = true →
    (∀ b ∈ cs, b.isSample = true) → beats begun.result (bs ++ cs) = beats begun.result bs
  /-- A session that is done has stopped the bridge once and then ended the sampling once. -/
  completed : ∀ bs : List (Beat α), (completion (beats begun.result bs).result).isDone = true →
    ∃ outputs : List Duties, (begun >>= (beats · bs)).calls =
      [.subscribe board.baseFrequency, .start] ++ outputs.map .pwm ++ [.stop, .unsubscribe]
  /-- So has a session that hands the board back, done or not. -/
  handedBack : ∀ bs : List (Beat α), ∃ outputs : List Duties,
    (begun >>= (beats · bs) >>= handBack).calls =
      [.subscribe board.baseFrequency, .start] ++ outputs.map .pwm ++ [.stop, .unsubscribe]
  /-- So has a session that just goes out of use. -/
  dropped : ∀ bs : List (Beat α), ∃ outputs : List Duties,
    (begun >>= (beats · bs) >>= fun s => ((drive s).intoBoard : Traced α Board)).calls =
      [.subscribe board.baseFrequency, .start] ++ outputs.map .pwm ++ [.stop, .unsubscribe]

/-- A session as it begins: open, on a board that samples and whose bridge is on. -/
structure Begun (board : Board) (begun : Traced α S) : Prop where
  isOpen : Open board begun.result
  calls : begun.calls = [.subscribe board.baseFrequency, .start]

section Begun

variable [LawfulSession S α β] {begun : Traced α S}

/-- Going out of use puts the board to rest, unless the end of the session has done so. -/
theorem Begun.dropped (h : Begun board begun) (bs : List (Beat α)) :
    ∃ outputs : List Duties,
      begun.calls ++ (beats begun.result bs).calls
          ++ ((drive (beats begun.result bs).result).intoBoard : Traced α Board).calls =
        [.subscribe board.baseFrequency, .start] ++ outputs.map .pwm ++ [.stop, .unsubscribe] := by
  cases Open.beats bs _ h.isOpen with
  | goesOn hopen outputs hcalls =>
      refine ⟨outputs, ?_⟩
      rw [h.calls, hcalls, hopen.drive_eq, Drive.intoBoard_of_active]
      rfl
  | ends hover outputs hcalls =>
      refine ⟨outputs, ?_⟩
      rw [h.calls, hcalls, hover.drive_eq, Drive.intoBoard_of_released, Traced.calls_pure]
      simp

/--
**A session ends.**  It is enough to know how it begins and how many samples it takes at most.
-/
theorem Begun.endsWithin [BoundedSession S α β] (h : Begun board begun) {bound : Nat}
    (hdue : BoundedSession.Due bound begun.result) : EndsWithin board bound begun := by
  have done : ∀ bs : List (Beat α), bound ≤ bs.countP Beat.isSample →
      (completion (beats begun.result bs).result).isDone = true :=
    fun bs hbs => (Open.over_of_due bs bound _ h.isOpen hdue hbs).isDone
  have stays : ∀ bs cs : List (Beat α),
      (completion (beats begun.result bs).result).isDone = true →
      (∀ b ∈ cs, b.isSample = true) → beats begun.result (bs ++ cs) = beats begun.result bs := by
    intro bs cs hdone hcs
    have hover := h.isOpen.over_of_isDone hdone
    calc beats begun.result (bs ++ cs)
        = beats begun.result bs >>= fun s => beats s cs := beats_append _ bs cs
      _ = beats begun.result bs >>= pure := Traced.bind_congr_result (hover.samples cs hcs)
      _ = beats begun.result bs := bind_pure _
  refine ⟨fun samples => ?_, done, stays, fun bs hdone => ?_, fun bs => ?_, fun bs => ?_⟩
  · -- The last sample is the first one after which the session is done.
    have hbound := done _ (Nat.le_of_eq (Beat.countP_first samples bound).symm)
    have hend :
        ∃ n, (completion (beats begun.result (Beat.first samples n)).result).isDone = true :=
      ⟨bound, hbound⟩
    refine ⟨Nat.find hend, ?_, Nat.find_min' hend hbound, ?_⟩
    · refine Nat.pos_of_ne_zero fun hzero => ?_
      have := Nat.find_spec hend
      rw [hzero] at this
      exact absurd this (by simp [Beat.first, h.isOpen.not_isDone])
    · intro k
      refine ⟨fun hk => Nat.find_min' hend hk, fun hk => ?_⟩
      obtain ⟨cs, hcs, hsamples⟩ := Beat.first_add samples (Nat.find hend) (k - Nat.find hend)
      rw [Nat.add_sub_cancel' hk] at hcs
      rw [hcs, stays _ cs (Nat.find_spec hend) hsamples]
      exact Nat.find_spec hend
  · obtain ⟨outputs, hcalls⟩ := h.dropped bs
    refine ⟨outputs, ?_⟩
    rw [(h.isOpen.over_of_isDone hdone).drive_eq, Drive.intoBoard_of_released, Traced.calls_pure,
      List.append_nil] at hcalls
    rw [Traced.calls_bind, hcalls]
  · obtain ⟨outputs, hcalls⟩ := h.dropped bs
    refine ⟨outputs, ?_⟩
    rw [Traced.calls_bind, Traced.calls_bind, LawfulSession.calls_handBack]
    exact hcalls
  · obtain ⟨outputs, hcalls⟩ := h.dropped bs
    refine ⟨outputs, ?_⟩
    rw [Traced.calls_bind, Traced.calls_bind]
    exact hcalls

end Begun

end Session

end MotorControl
