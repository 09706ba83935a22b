/-
A mechanical test with the currents reversed.

The currents enter the fit of a mechanical test in one place, as the torque that is to be
explained.  Reversing all of them reverses that torque, and changes neither the angles and
speeds that it is explained with nor the time that passes.  So the reversed test knows as
much as the other and has learned the opposite, sample by sample, and since convergence looks
at magnitudes it ends with the same sample and finds the opposite rotor.

Two invariants are carried through the beats of a session.  `Intact` is about one test: its
fit is finite, and what it tells is the rotor of the fit as it is.  `Reversed` is about two:
the controllers see different currents and may do different things, but nothing that they do
reaches the fit.
-/
import MotorControl.Proofs.LeastSquares.Reversed
import MotorControl.Proofs.Session.MechanicalTest

namespace MotorControl

open Binary32

/-! ### Reversed currents -/

/-- The currents in the opposite direction. -/
def Phases.reversed (p : Phases Float32) : Phases Float32 := p.map fun x => -x

/-- The same beat with the currents in the opposite direction. -/
def Beat.reversed : Beat Float32 → Beat Float32
  | .sample currents position => .sample currents.reversed position
  | .service => .service

/-- The current across the rotor is reversed with those of the phases. -/
theorem Phases.opposite_q (p : Phases Float32) (r : Direction Float32) :
    Opposite (p.toRotating r).q (p.reversed.toRotating r).q := by
  have hb := Opposite.neg p.b
  have hc := Opposite.neg p.c
  have halpha : Opposite p.toStationary.alpha p.reversed.toStationary.alpha :=
    ((((Opposite.neg p.a).mul_left 2).sub hb).sub hc).div_right 3
  have hbeta : Opposite p.toStationary.beta p.reversed.toStationary.beta :=
    (hb.sub hc).mul_left Scalar.invSqrtThree
  exact (hbeta.mul_left r.cos).sub (halpha.mul_left r.sin)

/-! ### The fit -/

namespace MechanicalParameters

/-- Both numbers are finite. -/
structure IsFinite (p : MechanicalParameters Float32) : Prop where
  inertia : p.inertia.value.isFinite = true
  friction : p.friction.value.isFinite = true

/-- Two rotors of which one is the other with the sign of both numbers turned. -/
structure Opposite (p p' : MechanicalParameters Float32) : Prop where
  inertia : Binary32.Opposite p.inertia.value p'.inertia.value
  friction : Binary32.Opposite p.friction.value p'.friction.value

/-- A rotor that can be: it has an inertia, and its friction does not drive it. -/
structure IsPhysical (p : MechanicalParameters Float32) : Prop extends p.IsFinite where
  inertia_pos : 0 < p.inertia.value
  friction_nonneg : 0 ≤ p.friction.value

variable {p p' : MechanicalParameters Float32}

theorem Opposite.isFinite (h : p.Opposite p') (hp : p.IsFinite) : p'.IsFinite :=
  ⟨h.inertia.isFinite_eq ▸ hp.inertia, h.friction.isFinite_eq ▸ hp.friction⟩

theorem IsFinite.isPhysical_iff (hp : p.IsFinite) :
    p.IsPhysical ↔ 0 < p.inertia.value ∧ 0 ≤ p.friction.value :=
  ⟨fun h => ⟨h.inertia_pos, h.friction_nonneg⟩, fun h => ⟨hp, h.1, h.2⟩⟩

/-- The opposite of a rotor can be exactly if neither of the two numbers has the right sign. -/
theorem Opposite.isPhysical_iff (h : p.Opposite p') (hp : p.IsFinite) :
    p'.IsPhysical ↔ p.inertia.value < 0 ∧ p.friction.value ≤ 0 := by
  rw [← h.inertia.pos_iff, ← h.friction.nonneg_iff]
  exact (h.isFinite hp).isPhysical_iff

end MechanicalParameters

/-- What an estimate says of the rotor. -/
def RotorEstimate.rotor (e : RotorEstimate Float32) : MechanicalParameters Float32 :=
  ⟨⟨e.friction⟩, ⟨e.inertia⟩⟩

namespace RotorFit

/-- What a fit says of the rotor. -/
def rotor (f : RotorFit Float32) : MechanicalParameters Float32 :=
  ⟨⟨f.model.second⟩, ⟨f.model.first⟩⟩

/-- Two fits that have seen the same motion under opposite torques. -/
structure Reversed (f f' : RotorFit Float32) : Prop where
  model : f.model.Reversed f'.model
  frequency : f'.frequency = f.frequency
  previousSpeed : f'.previousSpeed = f.previousSpeed

variable {f f' : RotorFit Float32}

theorem Reversed.update (h : f.Reversed f') (currents : Phases Float32)
    (speed angle torqueConstant : Float32) :
    let r := (f.update ⟨currents, speed, angle⟩ torqueConstant).result
    let r' := (f'.update ⟨currents.reversed, speed, angle⟩ torqueConstant).result
    r.1.rotor.Opposite r'.1.rotor ∧ r.1.metrics.Reversed r'.1.metrics ∧ r.2.Reversed r'.2 := by
  obtain ⟨hmetrics, hmodel⟩ := h.model.update
    (regressor ((speed - f.previousSpeed) * f.frequency) speed 1)
    ((currents.opposite_q (Angle.direction angle)).mul_right torqueConstant)
  unfold RotorFit.update
  dsimp only
  rw [h.previousSpeed, h.frequency]
  exact ⟨⟨hmodel.coefficients 0, hmodel.coefficients 1⟩, hmetrics, hmodel, rfl, rfl⟩

theorem isFinite_rotor (h : f.model.Intact) : f.rotor.IsFinite :=
  ⟨h.coefficients 0, h.coefficients 1⟩

section Check

variable {forgetting frequency : Float32} (h : check forgetting frequency = .ok f)

include h

/-- A fit that has seen nothing is its own reversal. -/
theorem reversed_of_check : f.Reversed f := by
  obtain ⟨model, hmodel, hf⟩ := Fault.bind_eq_ok_iff.mp h
  cases hf
  exact ⟨.of_check hmodel, rfl, rfl⟩

theorem intact_of_check : f.model.Intact := by
  obtain ⟨model, hmodel, hf⟩ := Fault.bind_eq_ok_iff.mp h
  cases hf
  exact LeastSquares.intact_after hmodel []

end Check

end RotorFit

namespace MechanicalTest

variable {C σ : Type} {t t' : MechanicalTest Float32 C}

/-! ### Finite results -/

/-- The fit of a test is finite, and what the test has told, if it has, is the rotor of the fit. -/
structure Intact (t : MechanicalTest Float32 C) : Prop where
  model : t.fit.model.Intact
  pending : t.drive.active = true → t.completion = .pending
  told : ∀ p, t.completion = .done (some p) → p = t.fit.rotor

theorem Intact.isFinite (h : t.Intact) {p : MechanicalParameters Float32}
    (hp : t.completion = .done (some p)) : p.IsFinite := by
  rw [h.told p hp]
  exact RotorFit.isFinite_rotor h.model

section

variable [Controller C Float32 σ]

theorem Intact.sample (h : t.Intact) (currents : Phases Float32) (position : Float32) :
    (t.sample currents position).result.Intact := by
  by_cases hactive : t.drive.active = true
  · have hdrive : t.drive = ⟨t.drive.board, true⟩ := by rw [← hactive]
    have hpending := h.pending hactive
    have hmodel : (t.take currents position).result.2.fit.model.Intact := h.model.use (.update _ _)
    have hfinished (result : Option (MechanicalParameters Float32)) :
        ¬ ((t.take currents position).result.2.finish result).result.drive.active = true :=
      Bool.eq_false_iff.mp (Drive.release_active _)
    rw [sample_eq hdrive, Traced.bind_result]
    unfold judge
    split
    · refine ⟨hmodel, fun hactive => absurd hactive (hfinished _), fun p hp => ?_⟩
      cases hp
      rfl
    · split
      · exact ⟨hmodel, fun hactive => absurd hactive (hfinished _), nofun⟩
      · refine ⟨hmodel, fun _ => hpending, fun p hp => ?_⟩
        cases hpending.symm.trans hp
  · unfold MechanicalTest.sample
    rw [if_neg hactive]
    exact h

theorem Intact.service (h : t.Intact) : t.service.result.Intact := ⟨h.model, h.pending, h.told⟩

theorem Intact.beats (bs : List (Beat Float32)) :
    ∀ t : MechanicalTest Float32 C, t.Intact → (Session.beats t bs).result.Intact := by
  induction bs with
  | nil => intro t h; exact h
  | cons b bs ih =>
      intro t h
      cases b with
      | sample currents position => exact ih _ (h.sample currents position)
      | service => exact ih _ h.service

end

/-! ### Opposite results -/

/-- What two tests have told if they differ in the sign of what they tell. -/
inductive Told :
    Completion (MechanicalParameters Float32) → Completion (MechanicalParameters Float32) → Prop
  | pending : Told .pending .pending
  | nothing : Told (.done none) (.done none)
  | found {p p' : MechanicalParameters Float32} (h : p.Opposite p') :
      Told (.done (some p)) (.done (some p'))

/-- Two tests that have seen the same motion under opposite currents.  They differ in their
controllers, in what they have learned, and in what they tell. -/
inductive Reversed (t : MechanicalTest Float32 C) : MechanicalTest Float32 C → Prop
  | intro {controller : C} {fit : RotorFit Float32}
      {completion : Completion (MechanicalParameters Float32)} (fits : t.fit.Reversed fit)
      (told : Told t.completion completion) :
      Reversed t { t with controller := controller, fit := fit, completion := completion }

namespace Reversed

theorem told (h : t.Reversed t') : Told t.completion t'.completion := by
  cases h with
  | intro _ told => exact told

variable [Controller C Float32 σ]

theorem take (h : t.Reversed t') (currents : Phases Float32) (position : Float32) :
    let r := (t.take currents position).result
    let r' := (t'.take currents.reversed position).result
    r.1.rotor.Opposite r'.1.rotor ∧ r.1.metrics.Reversed r'.1.metrics ∧ r.2.Reversed r'.2 := by
  cases h with
  | intro fits told =>
      obtain ⟨hrotor, hmetrics, hfit⟩ := fits.update currents
        (Angle.difference position t.previousAngle * t.frequency) (position * t.polePairs)
        t.torqueConstant
      exact ⟨hrotor, hmetrics, .intro hfit told⟩

theorem finish (h : t.Reversed t') {result result' : Option (MechanicalParameters Float32)}
    (htold : Told (.done result) (.done result')) :
    (t.finish result).result.Reversed (t'.finish result').result := by
  cases h with
  | intro fits _ => exact .intro fits htold

theorem judge (h : t.Reversed t') {e e' : RotorEstimate Float32}
    (hrotor : e.rotor.Opposite e'.rotor) (hmetrics : e.metrics.Reversed e'.metrics) :
    (t.judge e).result.Reversed (t'.judge e').result := by
  have hsame : t'.hasConverged e' = t.hasConverged e ∧ t'.timeoutSamples = t.timeoutSamples ∧
      t'.elapsed = t.elapsed := by
    cases h
    exact ⟨hmetrics.converged_eq _ _, rfl, rfl⟩
  obtain ⟨hconverged, htimeout, helapsed⟩ := hsame
  unfold MechanicalTest.judge
  rw [hconverged, htimeout, helapsed]
  split
  · exact h.finish (.found hrotor)
  · split
    · exact h.finish .nothing
    · exact h

theorem sample (h : t.Reversed t') (currents : Phases Float32) (position : Float32) :
    (t.sample currents position).result.Reversed (t'.sample currents.reversed position).result := by
  have hsame : t'.drive = t.drive := by
    cases h
    rfl
  by_cases hactive : t.drive.active = true
  · have hdrive : t.drive = ⟨t.drive.board, true⟩ := by rw [← hactive]
    obtain ⟨hrotor, hmetrics, hnext⟩ := h.take currents position
    rw [sample_eq hdrive, sample_eq (hsame.trans hdrive), Traced.bind_result, Traced.bind_result]
    exact hnext.judge hrotor hmetrics
  · have hactive' : ¬ t'.drive.active = true := hsame.symm ▸ hactive
    unfold MechanicalTest.sample
    rw [if_neg hactive, if_neg hactive']
    exact h

theorem service (h : t.Reversed t') : t.service.result.Reversed t'.service.result := by
  cases h with
  | intro fits told => exact .intro fits told

theorem beats (bs : List (Beat Float32)) :
    ∀ t t' : MechanicalTest Float32 C, t.Reversed t' →
      (Session.beats t bs).result.Reversed (Session.beats t' (bs.map Beat.reversed)).result := by
  induction bs with
  | nil => intro t t' h; exact h
  | cons b bs ih =>
      intro t t' h
      cases b with
      | sample currents position => exact ih _ _ (h.sample currents position)
      | service => exact ih _ _ h.service

end Reversed

/-! ### The beginning -/

/-- A test that begins has told nothing, and is its own reversal. -/
theorem seen_nothing [Controller C Float32 Float32] {board : Board} {controller : C}
    {task : Task Float32} {config : Config Float32} {position : Float32}
    {begun : Traced Float32 (MechanicalTest Float32 C)}
    (h : begin board controller task config position = .ok begun) :
    begun.result.Intact ∧ begun.result.Reversed begun.result := by
  obtain ⟨fit, hfit, hbegun⟩ := Fault.bind_eq_ok_iff.mp h
  cases hbegun
  exact ⟨⟨RotorFit.intact_of_check hfit, fun _ => rfl, nofun⟩, .intro (RotorFit.reversed_of_check hfit) .pending⟩

end MechanicalTest

end MotorControl
