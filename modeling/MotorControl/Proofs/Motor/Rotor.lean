/-
What a motor takes its rotor for.

A mechanical test tells what its model has learned once it has converged, and convergence
looks at the error and at the covariance.  Neither tells the sign of a coefficient.  The test
of the winding refuses a resistance or an inductance that is not above zero, but nothing
refuses a rotor: all that is sure of its inertia and its friction is that they are finite.

Their signs are up to the currents.  A motor takes the rotor that the test has fitted as it
is.  Of two tests with the same readings and opposite currents either both tell a rotor or
neither does, and the two rotors are opposite, so at most one of them can be.
`spun_backwards` is a run after which a motor has an inertia and a friction below zero.
-/
import MotorControl.Proofs.Motor.Grammar
import MotorControl.Proofs.Motor.Journal
import MotorControl.Proofs.Motor.Termination
import MotorControl.Proofs.Session.MechanicalTest.Course
import MotorControl.Proofs.Session.MechanicalTest.Reversed

namespace MotorControl

open Binary32 (le_of_lt not_lt_of_le)
open Session (beats)

namespace Motor

section

variable {C σ : Type} [Controller C Float32 σ] {board : Board} {m : Motor C}

/-! ### Finite rotors -/

/-- What a motor has learned of its rotor is finite, and so is what a mechanical test will tell. -/
structure RotorFinite (m : Motor C) : Prop where
  known : ∀ p, m.mechanical = some p → p.IsFinite
  test : ∀ session, m.occupant = .identifyingMechanical session → session.Intact

theorem RotorFinite.step (h : RotorFinite m) (hsound : m.occupant.Sound board) {op : Operation σ}
    {done : Traced Float32 (Option Verdict × Motor C)} (hdone : m.step op = .ok done) :
    RotorFinite done.result.2 where
  known := by
    intro p hp
    obtain ⟨found, hfound, hlearns⟩ := step_learns hsound hdone
    rw [hlearns] at hp
    cases found with
    | none => exact h.known p hp
    | some f =>
        cases f with
        | offset | winding => exact h.known p hp
        | rotor p =>
            cases hp
            cases (hfound _).mpr rfl with
            | rotor ho _ hend => exact ((h.test _ ho).sample _ _).isFinite hend
  test := by
    intro session hs
    obtain ⟨-, htests⟩ := tests_of_step hsound hdone hs
    cases htests with
    | had ho => exact h.test session ho
    | begun hfit hpending _ =>
        refine ⟨RotorFit.intact_of_check hfit, fun _ => hpending, fun p hp => ?_⟩
        cases hpending.symm.trans hp
    | beat b ho hsession =>
        rw [hsession]
        cases b with
        | sample currents position => exact (h.test _ ho).sample currents position
        | service => exact (h.test _ ho).service

theorem RotorFinite.run (ops : List (Operation σ)) :
    ∀ (m : Motor C) (t : Traced Float32 (Motor C)), m.occupant.Sound board → RotorFinite m →
      m.run ops = .ok t → RotorFinite t.result := by
  induction ops with
  | nil => intro m t _ h ht; cases ht; exact h
  | cons op ops ih =>
      intro m t hsound h ht
      obtain ⟨done, rest, hdone, hrest, rfl⟩ := run_cons_eq_ok_iff.mp ht
      exact ih _ rest (keeps_step hsound hdone).sound (h.step hsound hdone) hrest

omit [Controller C Float32 σ] in
theorem RotorFinite.of_check {controller : C} {config : Config}
    (hm : check board controller config = .ok m) : RotorFinite m := by
  obtain ⟨ratio, -, hmotor⟩ := Fault.bind_eq_ok_iff.mp hm
  cases hmotor
  exact ⟨nofun, nofun⟩

/-! ### A motor left to a test -/

/-- A beat tells the motor what the test that has it tells with that beat. -/
theorem mechanical_beat {session : MechanicalTest Float32 C}
    (ho : m.occupant = .identifyingMechanical session) (hsound : m.occupant.Sound board)
    (b : Beat Float32) : (m.beat b).result.mechanical =
      (Session.beat session b).result.completion.found?.or m.mechanical := by
  have hfound : (m.occupant.beat b).result.found? =
      (Session.beat session b).result.completion.found?.map .rotor := by
    rw [ho]
    cases b <;> rfl
  rw [beat_learns hsound b, hfound]
  cases (Session.beat session b).result.completion.found? <;> rfl

/-- A motor that is left to a mechanical test learns what the test tells. -/
theorem mechanical_of_beats {session : MechanicalTest Float32 C}
    (ho : m.occupant = .identifyingMechanical session) (hopen : Session.Open board session)
    (bs : List (Beat Float32)) :
    ∃ t, m.run (bs.map Beat.toOperation) = .ok t ∧
      t.result.mechanical = (beats session bs).result.completion.found?.or m.mechanical := by
  -- On what is still to come; after each beat it is another test that has the motor.
  induction bs generalizing m session with
  | nil =>
      have hpending : session.completion = .pending := hopen.pending
      refine ⟨pure m, rfl, ?_⟩
      show m.mechanical = session.completion.found?.or m.mechanical
      rw [hpending]
      rfl
  | cons b bs ih =>
      have hsound : m.occupant.Sound board := by
        rw [ho]
        exact hopen
      have hmechanical := mechanical_beat ho hsound b
      have hbeat : (m.beat b).result = (m.resume (.identifyingMechanical
          (Session.beat session b).result)
          (Session.completion (Session.beat session b).result).isDone).result := by
        rw [beat_eq hsound, Traced.bind_result, ho]
        cases b <;> rfl
      rw [run_beat, Session.beats_cons, Traced.bind_result]
      cases hopen.beat b with
      | goesOn hon _ _ =>
          have hpending : (Session.beat session b).result.completion = .pending := hon.pending
          rw [hon.not_isDone] at hbeat
          rw [hpending] at hmechanical
          obtain ⟨t, ht, hlast⟩ := ih (m := (m.beat b).result) (by rw [hbeat]; rfl) hon
          exact ⟨t.precededBy _, by rw [ht]; rfl, hlast.trans (by rw [hmechanical]; rfl)⟩
      | ends hover _ _ =>
          rw [hover.isDone] at hbeat
          obtain ⟨-, -, controller, hidle⟩ := finish_of_spent
            (m := { m with occupant := .identifyingMechanical (Session.beat session b).result }) hover
          have hrest := run_beats_of_idle (m := (m.beat b).result) (by rw [hbeat]; exact hidle) bs
          refine ⟨(pure (m.beat b).result : Traced _ _).precededBy _, by rw [hrest]; rfl, ?_⟩
          have hcompletion : (beats (Session.beat session b).result bs).result.completion =
              (Session.beat session b).result.completion := (Session.Over.beats bs _ hover).2.1
          rw [hcompletion]
          exact hmechanical

end

/-! ### The law -/

/-- What a motor has learned after a test that has fitted the rotor `fit`, and after the same test
with the currents reversed. -/
inductive Learned (fit : MechanicalParameters Float32) (old : Option (MechanicalParameters Float32)) :
    Option (MechanicalParameters Float32) → Option (MechanicalParameters Float32) → Prop
  | nothing : Learned fit old old old
  | rotor {fit' : MechanicalParameters Float32}
      (isPhysical_iff : fit.IsPhysical ↔ 0 < fit.inertia.value ∧ 0 ≤ fit.friction.value)
      (reversed_iff : fit'.IsPhysical ↔ fit.inertia.value < 0 ∧ fit.friction.value ≤ 0) :
      Learned fit old (some fit) (some fit')

theorem Learned.exists_rotor {fit p : MechanicalParameters Float32}
    {new' : Option (MechanicalParameters Float32)} (h : Learned fit none (some p) new') :
    ∃ p', new' = some p' ∧ (p'.IsPhysical ↔ p.inertia.value < 0 ∧ p.friction.value ≤ 0) := by
  cases h with
  | rotor _ hreversed => exact ⟨_, rfl, hreversed⟩

section

variable {C : Type} [Controller C Float32 Float32] {board : Board} {controller : C} {config : Config}
  {m : Motor C}

theorem learned_of_begin {task : MechanicalTest.Task Float32}
    {config : MechanicalTest.Config Float32} {position : Float32}
    {begun : Traced Float32 (MechanicalTest Float32 C)}
    (h : MechanicalTest.begin board controller task config position = .ok begun)
    (bs : List (Beat Float32)) (old : Option (MechanicalParameters Float32)) :
    let test := (beats begun.result bs).result
    let test' := (beats begun.result (bs.map Beat.reversed)).result
    Learned test.fit.rotor old (test.completion.found?.or old) (test'.completion.found?.or old) := by
  intro test test'
  obtain ⟨hbegun, hself⟩ := MechanicalTest.seen_nothing h
  have hintact : test.Intact := hbegun.beats bs
  have hfinite := RotorFit.isFinite_rotor hintact.model
  have hfitted := hintact.told
  have htold : MechanicalTest.Told test.completion test'.completion := (hself.beats bs).told
  generalize test.completion = completion at hfitted htold
  generalize test'.completion = completion' at htold
  cases htold with
  | pending | nothing => exact .nothing
  | found hopposite =>
      obtain rfl := hfitted _ rfl
      exact .rotor hfinite.isPhysical_iff (hopposite.isPhysical_iff hfinite)

/--
**A motor takes its rotor for what the currents say.**  What it has learned of its rotor is finite
after every run.  A mechanical test that is accepted, with whatever samples come after it, teaches
it the rotor that was fitted or nothing, and with all currents reversed it teaches it the opposite
rotor or nothing, in the same way.  So what it learns can be exactly if the signs of the fit are
right, and exactly if both are wrong with the currents reversed.
-/
theorem rotor_of_currents {ops : List (Operation Float32)} {t : Traced Float32 (Motor C)}
    (hm : check board controller config = .ok m) (ht : m.run ops = .ok t) :
    (∀ p, t.result.mechanical = some p → p.IsFinite) ∧
      ∀ {params : String} {position : Float32} {tested : Traced Float32 (Verdict × Motor C)},
        t.result.identifyMechanical params position = .ok tested → tested.result.1 = .ok () →
        ∀ bs : List (Beat Float32), ∃ test u u',
          tested.result.2.occupant = .identifyingMechanical test ∧
          tested.result.2.run (bs.map Beat.toOperation) = .ok u ∧
          tested.result.2.run ((bs.map Beat.reversed).map Beat.toOperation) = .ok u' ∧
          Learned (beats test bs).result.fit.rotor t.result.mechanical
            u.result.mechanical u'.result.mechanical := by
  refine ⟨(RotorFinite.run ops m t (sound_of_check hm) (.of_check hm) ht).known, ?_⟩
  intro params position tested htested haccepted bs
  obtain ⟨-, hsound, -⟩ := reached_spec hm ht
  obtain ⟨found, hparams⟩ : ∃ found,
      Command.twoPositive params .invalidTargetSpeed .invalidTorqueConstant = .ok found := by
    rw [verdict_identifyMechanical htested] at haccepted
    cases hparams : Command.twoPositive params .invalidTargetSpeed .invalidTorqueConstant with
    | ok found => exact ⟨found, rfl⟩
    | error e => rw [hparams] at haccepted; cases haccepted
  obtain ⟨begun, controller, hbegin, hresult, -⟩ := identifyMechanical_spec hsound hparams htested
  have hoccupant : tested.result.2.occupant = .identifyingMechanical begun.result := by rw [hresult]
  have hopen := (MechanicalTest.begun hbegin).1.isOpen
  obtain ⟨u, hu, hlearned⟩ := mechanical_of_beats hoccupant hopen bs
  obtain ⟨u', hu', hlearned'⟩ := mechanical_of_beats hoccupant hopen (bs.map Beat.reversed)
  have hold : tested.result.2.mechanical = t.result.mechanical := by rw [hresult]
  refine ⟨begun.result, u, u', hoccupant, hu, hu', ?_⟩
  rw [hlearned, hlearned', hold]
  exact learned_of_begin hbegin bs _

end

/-! ### A rotor that speeds up under currents that slow it down -/

open MechanicalTest (Recording)

/-- Three samples of a rotor, with the currents measured in the wrong direction. -/
def backwards : Recording Float32 where
  board := ⟨⟨100⟩⟩
  task := ⟨.ofRpm 60, ⟨1⟩, 1⟩
  config := { MechanicalTest.Config.standard with uncertaintyBound := 10 }
  currents i :=
    if i = 1 then ⟨0, -0.0953, 0.0953⟩ else if i = 2 then ⟨0, -0.104, 0.104⟩ else ⟨0, 0.078, -0.078⟩
  angle i := if i = 0 then 0 else if i = 1 then 0.01 else if i = 2 then 0.03 else 0.04

/-- The samples, as beats. -/
def backwardsBeats : List (Beat Float32) :=
  (List.range' 1 3).map fun i => .sample (backwards.currents i) (backwards.angle i)

/-- What these samples make of the rotor. -/
def backwardsRotor : MechanicalParameters Float32 :=
  ⟨⟨(backwards.fitted 3).second⟩, ⟨(backwards.fitted 3).first⟩⟩

theorem backwardsRotor_signs :
    backwardsRotor.inertia.value < 0 ∧ backwardsRotor.friction.value ≤ 0 := by
  decide +kernel

theorem not_isPhysical_backwardsRotor : ¬ backwardsRotor.IsPhysical :=
  fun h => not_lt_of_le (le_of_lt h.inertia_pos) backwardsRotor_signs.1

/-- The third sample is the first that converges, and in time. -/
theorem backwards_converges : backwards.converges 1 = false ∧ backwards.converges 2 = false ∧
    backwards.converges 3 = true ∧ backwards.timeout = 500 := by
  decide +kernel

theorem isLeast_backwards : IsLeast {i | backwards.Ends i} 3 := by
  obtain ⟨hfirst, hsecond, hthird, htimeout⟩ := backwards_converges
  refine ⟨Or.inl hthird, fun i hi => ?_⟩
  by_contra hlt
  rcases hi with hi | hi
  · obtain rfl | rfl | rfl : i = 0 ∨ i = 1 ∨ i = 2 := by omega
    · cases hi
    · cases hfirst.symm.trans hi
    · cases hsecond.symm.trans hi
  · rw [htimeout] at hi
    exact hlt (by rw [hi]; decide)

section

variable {C : Type} [Controller C Float32 Float32]

/-- Whatever the controller is, the third sample ends the test. -/
theorem told_backwards {controller : C} {begun : Traced Float32 (MechanicalTest Float32 C)}
    (h : MechanicalTest.begin backwards.board controller backwards.task backwards.config 0 =
      .ok begun) :
    (beats begun.result backwardsBeats).result.completion = .done (some backwardsRotor) := by
  obtain ⟨-, -, hthird, htimeout⟩ := backwards_converges
  have hfits : backwards.timeout.toNat + 1 < UInt32.size := by
    rw [htimeout]
    decide
  obtain ⟨c, hbegun⟩ := MechanicalTest.standing_of_begin (r := backwards) h
  obtain ⟨c', hafter⟩ := MechanicalTest.beats_standing hfits isLeast_backwards backwardsBeats 0 3 c
    (by decide) rfl
  rw [hbegun, hafter, if_neg (by decide)]
  exact congrArg Completion.done (if_pos hthird)

/-- A fresh motor on which such a test is run takes its rotor for that one. -/
theorem tested_backwards {controller : C} {m : Motor C}
    (hm : check backwards.board controller { Config.standard with mechanical := backwards.config } =
      .ok m) :
    m.mechanical = none ∧ ∃ tested u, m.identifyMechanical "60 1" 0 = .ok tested ∧
      tested.result.1 = .ok () ∧
      tested.result.2.run (backwardsBeats.map Beat.toOperation) = .ok u ∧
      u.result.mechanical = some backwardsRotor := by
  have hparams : Command.twoPositive "60 1" .invalidTargetSpeed .invalidTorqueConstant =
      .ok (60, 1) := by
    decide +kernel
  have hassembled := Assembled.of_check hm
  have hconfig : m.config.mechanical = backwards.config :=
    congrArg Config.mechanical hassembled.config_eq
  obtain ⟨tested, htested, haccepted⟩ := identifyMechanical_of_forgetting (m := m)
    (by rw [hconfig]; decide +kernel) (by rw [hconfig]; decide +kernel) hparams 0
  obtain ⟨begun, c, hbegin, hresult, -⟩ := identifyMechanical_spec hassembled.sound hparams htested
  have hfresh : m.polePairs = 1 ∧ m.mechanical = none := by
    obtain ⟨ratio, -, hmotor⟩ := Fault.bind_eq_ok_iff.mp hm
    cases hmotor
    exact ⟨rfl, rfl⟩
  rw [hconfig, hfresh.1] at hbegin
  obtain ⟨hbegun, -⟩ := MechanicalTest.begun hbegin
  obtain ⟨u, hu, hmechanical⟩ := mechanical_of_beats (m := tested.result.2) (by rw [hresult])
    hbegun.isOpen backwardsBeats
  rw [told_backwards hbegin] at hmechanical
  exact ⟨hfresh.2, tested, u, htested, haccepted, hu, hmechanical⟩

end

/-- A motor may find that its rotor has an inertia below zero, and keep it. -/
theorem spun_backwards : ∃ (s : SpeedLoop Float32 Unit) (m : Motor (SpeedLoop Float32 Unit))
    (t : Traced Float32 (Motor (SpeedLoop Float32 Unit))) (p : MechanicalParameters Float32),
    SpeedLoop.check () ⟨2⟩ ⟨100⟩ ⟨1, by decide, by decide⟩ = .ok s ∧
      check ⟨⟨100⟩⟩ s { Config.standard with mechanical := backwards.config } = .ok m ∧
      m.run (.identifyMechanical rfl "60 1" 0 :: backwardsBeats.map Beat.toOperation) = .ok t ∧
      t.result.mechanical = some p ∧ p.inertia.value < 0 ∧ ¬ p.IsPhysical := by
  obtain ⟨s, hs⟩ : ∃ s : SpeedLoop Float32 Unit,
      SpeedLoop.check () ⟨2⟩ ⟨100⟩ ⟨1, by decide, by decide⟩ = .ok s := by
    rw [SpeedLoop.check, if_pos (by decide +kernel)]
    exact ⟨_, rfl⟩
  obtain ⟨m, hm⟩ : ∃ m, check ⟨⟨100⟩⟩ s { Config.standard with mechanical := backwards.config } =
    .ok m := ⟨_, rfl⟩
  obtain ⟨-, tested, u, htested, -, hu, hmechanical⟩ := tested_backwards hm
  have hstep : m.step (.identifyMechanical rfl "60 1" 0) =
      .ok ((fun r => (some r.1, r.2)) <$> tested) := Fault.bind_eq_ok_iff.mpr ⟨tested, htested, rfl⟩
  exact ⟨s, m, _, _, hs, hm, run_cons_eq_ok_iff.mpr ⟨_, u, hstep, hu, rfl⟩, hmechanical,
    backwardsRotor_signs.1, not_isPhysical_backwardsRotor⟩

/-- With the currents the right way round the test of the same samples finds a rotor that can be. -/
theorem rotor_of_backwards :
    let loop : SpeedLoop Float32 Unit := .initial () ⟨2⟩ ⟨100⟩ ⟨1, by decide, by decide⟩
    ∃ m tested u u' p,
      check backwards.board loop { Config.standard with mechanical := backwards.config } = .ok m ∧
      m.run [] = .ok (pure m) ∧
      m.identifyMechanical "60 1" 0 = .ok tested ∧ tested.result.1 = .ok () ∧
      tested.result.2.run (backwardsBeats.map Beat.toOperation) = .ok u ∧
      u.result.mechanical = some backwardsRotor ∧
      tested.result.2.run ((backwardsBeats.map Beat.reversed).map Beat.toOperation) = .ok u' ∧
      u'.result.mechanical = some p ∧ p.IsPhysical := by
  intro loop
  obtain ⟨m, hm⟩ : ∃ m, check backwards.board loop
    { Config.standard with mechanical := backwards.config } = .ok m := ⟨_, rfl⟩
  obtain ⟨hnone, tested, u, htested, haccepted, hu, hmechanical⟩ := tested_backwards hm
  have hnothing : m.run [] = .ok (pure m) := rfl
  obtain ⟨-, hlearns⟩ := rotor_of_currents hm hnothing
  obtain ⟨test, _, u', -, hrun, hrun', hlearned⟩ := hlearns htested haccepted backwardsBeats
  cases hu.symm.trans hrun
  rw [hmechanical, show (pure m : Traced Float32 _).result.mechanical = none from hnone] at hlearned
  obtain ⟨p, hother, hphysical⟩ := hlearned.exists_rotor
  exact ⟨m, tested, u, u', p, hm, hnothing, htested, haccepted, hu, hmechanical, hrun', hother,
    hphysical.mpr backwardsRotor_signs⟩

end Motor

end MotorControl
