import Optima.Proofs.Cap.Descent
import Optima.Proofs.Descent.Route

/-!
Runs of gradient descent that end because no step was acceptable. A quasi-Newton iteration gives up
only after a search along the steepest direction; an iteration that mixes in the direction before
gives up at once, and the steepest direction may have had an acceptable step.
-/

namespace Optima.Descent

variable {α : Type} [Scalar α]

def steepestDirection (c : Config α) (i : Iterate α) : Vec α := constrainTo c.box i.point i.steepest

/-- The line search of a run finds no acceptable step along the direction. -/
def Barren (s : Descent α) (i : Iterate α) (d : Vec α) : Prop :=
  (i.search s.config.search s.function d).value.isZero = true

/-- Not even steepest descent finds an acceptable step. -/
def Stuck (s : Descent α) (i : Iterate α) : Prop := s.Barren i (steepestDirection s.config i)

def mixture (c : Config α) (i : Iterate α) (previous : Vec α) : Vec α :=
  constrainTo c.box i.point (Vec.sub (Vec.scale previous c.momentum) i.gradient)

/-- An iteration from the state searches along a mixed direction. -/
def Mixes (c : Config α) (u : State α) : Prop :=
  c.method ≠ .bfgs ∧ 0 < c.momentum ∧
    ∃ previous ∈ u.direction, u.iterate.descends (mixture c u.iterate previous) = true

/-- The run passes the trail, does not stop there, and finds no acceptable step from it. -/
structure Stalls (s : Descent α) (x : Vec α) (t : Trail α) : Prop where
  passes : s.Passes x t
  running : t.verdict s.config = none
  stalled : (s.advance t).1 = .stalled

variable {c : Config α} {f : LineFunction α} {u : State α}

theorem momentumDirection_of_not_mixes (hm : c.method ≠ .bfgs) (h : ¬ Mixes c u) :
    momentumDirection c u = steepestDirection c u.iterate := by
  unfold momentumDirection
  cases hp : u.direction with
  | none => exact ite_self _
  | some previous =>
    dsimp only
    by_cases hpos : 0 < c.momentum
    · have hnot : ¬ u.iterate.descends (mixture c u.iterate previous) = true := fun hd =>
        h ⟨hm, hpos, previous, hp, hd⟩
      rw [if_pos hpos]
      exact if_neg hnot
    · rw [if_neg hpos]
      exact ite_self _

theorem momentumStep_stalled_iff :
    (momentumStep c f u).value.1 = .stalled ↔
      (u.iterate.search c.search f (momentumDirection c u)).value.isZero = true := by
  simp only [momentumStep, Traced.value_bind]
  split
  · next h => exact iff_of_true rfl h
  · next h => exact iff_of_false (fun he => by cases he) h

theorem steepest_of_bfgsStep_stalled (h : (bfgsStep c f u).value.1 = .stalled) :
    (u.iterate.search c.search f u.iterate.steepest).value.isZero = true := by
  cases hd : quasiNewton u with
  | none =>
    rw [bfgsStep, hd] at h
    cases h
  | some d =>
    cases hdn : u.iterate.descends d with
    | true =>
      simp only [bfgsStep, hd, hdn, if_true, Bool.and_true, Traced.value_bind] at h
      split at h
      · rw [Traced.value_bind] at h
        split at h
        · next hz => exact hz
        · cases h
      · cases h
    | false =>
      simp only [bfgsStep, hd, hdn, Bool.and_false, Bool.false_eq_true, if_false,
        Traced.value_bind] at h
      split at h
      · next hz => exact hz
      · cases h

variable {s : Descent α} {x : Vec α} {t : Trail α}

theorem Stalls.barren (hm : s.config.method ≠ .conjugateGradient) (hb : s.config.method ≠ .bfgs)
    (h : s.Stalls x t) : s.Barren t.state.iterate (momentumDirection s.config t.state) := by
  have hs := h.stalled
  unfold advance step at hs
  cases hc : s.config.method with
  | momentum =>
    rw [hc] at hs
    exact momentumStep_stalled_iff.1 hs
  | bfgs => exact absurd hc hb
  | conjugateGradient => exact absurd hc hm
  | boxConstrained =>
    rw [hc] at hs
    exact momentumStep_stalled_iff.1 hs

theorem Stalls.stuck (hm : s.config.method ≠ .conjugateGradient) (h : s.Stalls x t)
    (hmix : ¬ Mixes s.config t.state) : s.Stuck t.state.iterate := by
  by_cases hb : s.config.method = .bfgs
  · have hs := h.stalled
    simp only [advance, step, hb] at hs
    have hbox : s.config.box = none := by simp [Config.box, hb]
    rw [Stuck, steepestDirection, hbox]
    exact steepest_of_bfgsStep_stalled hs
  · rw [Stuck, ← momentumDirection_of_not_mixes hb hmix]
    exact h.barren hm hb

theorem Trail.plateau_of_verdict (h : t.verdict c = some .stationaryFunction) :
    c.stopping.plateau ≠ none := by
  intro hp
  have hverdict : ∀ norm,
      c.stopping.verdict t.iteration t.values norm ≠ some .stationaryFunction := by
    intro norm hv
    obtain ⟨-, h⟩ | ⟨-, h⟩ | ⟨-, h⟩ | ⟨h, -⟩ | ⟨-, h⟩ := Stopping.verdict_cases hv
    case inr.inr.inr.inl => simp [Stopping.onPlateau, hp] at h
    all_goals cases h
  unfold verdict at h
  dsimp only at h
  split at h
  · exact hverdict _ h
  · cases h

/-- Where a search of this kind reports a stationary function, the values had not improved over a
window, or an iteration found no acceptable step. Steepest descent finds none there either, unless
the iteration searched along a mixed direction. -/
theorem stationary_end (hm : s.config.method ≠ .conjugateGradient) {n : Nat}
    {r : Report α (Vec α)} (hr : (s.runWithin n x).value = .ok r)
    (hs : r.status = .stationaryFunction) :
    (∃ t, s.Passes x t ∧ t.verdict s.config = some .stationaryFunction ∧
      r.result = t.state.iterate.point) ∨
    ∃ t, s.Stalls x t ∧ r.result = t.state.iterate.point ∧
      (s.config.method ≠ .bfgs → s.Barren t.state.iterate (momentumDirection s.config t.state)) ∧
      (¬ Mixes s.config t.state → s.Stuck t.state.iterate) := by
  obtain ⟨-, -, hend⟩ := ends_of_runWithin hr
  cases hend with
  | @stopped t status ht hv =>
    cases hs
    exact .inl ⟨t, ht, hv, rfl⟩
  | @stalled t v ht hv hu =>
    have hstalls : s.Stalls x t := ⟨ht, hv, congrArg Prod.fst hu⟩
    have hstay : v.iterate = t.state.iterate := by
      have hsearched := advance_searched hm t
      rw [hu] at hsearched
      exact hsearched.unmoved (by decide)
    exact .inr ⟨t, hstalls, congrArg Iterate.point hstay, hstalls.barren hm, hstalls.stuck hm⟩
  | @failed t v status ht hv hu =>
    cases hs
    cases advance_failed hu

def misled : Descent Float where
  objective := .withGradient (fun x => x.getD 0 0) (fun x => x.map fun _ => -1)
  config := { Config.standard with method := .bfgs }

theorem misled_run : (misled.run [0]).value = .ok ⟨[0], 0, .stationaryFunction, 0, 101, []⟩ := by
  decide +kernel

theorem misled_stuck : misled.config.method ≠ .conjugateGradient ∧
    ∃ t, misled.Stalls [0] t ∧ [0] = t.state.iterate.point ∧ misled.Stuck t.state.iterate := by
  refine ⟨by decide, ?_⟩
  obtain ⟨t, -, hv, -⟩ | ⟨t, ht, hp, -, hstuck⟩ := stationary_end (by decide) misled_run rfl
  · exact absurd rfl (Trail.plateau_of_verdict hv)
  · exact ⟨t, ht, hp, hstuck fun h => h.1 rfl⟩

def overshoot : Descent Float where
  objective := .withGradient (fun x => 0.5 * x.getD 0 0 * x.getD 0 0) id
  config := { Config.standard with
    momentum := 0.5
    lineSearch := { LineSearch.standard with initialStep := 0.75, maxIterations := 1 }
    stopping := Stopping.standard.withMaxIterations 2 }

def overshootTrail : Trail Float :=
  let t := (overshoot.initial [4]).value
  (overshoot.counted t).extend overshoot.config (overshoot.advance t).2

theorem overshoot_run : (overshoot.run [4]).value =
    .ok ⟨[1], 0.5, .stationaryFunction, 1, 3, [⟨1, 0.5⟩]⟩ := by
  decide +kernel

theorem overshoot_stalls : overshoot.Stalls [4] overshootTrail := by
  constructor
  case passes =>
    refine .moved .initial (by decide +kernel) ?_
    have hmoved : (overshoot.advance (overshoot.initial [4]).value).1 = .moved := by decide +kernel
    rw [← hmoved]
  case running => decide +kernel
  case stalled => decide +kernel

theorem overshoot_not_stuck : ¬ overshoot.Stuck overshootTrail.state.iterate := by
  unfold Stuck Barren
  decide +kernel

theorem stalls_unsoundly :
    ¬ ∀ (s : Descent Float) (x : Vec Float) (r : Report Float (Vec Float)) (t : Trail Float),
      s.config.method ≠ .conjugateGradient → s.check = .ok () → (s.run x).value = .ok r →
      r.status = .stationaryFunction → s.Stalls x t → r.result = t.state.iterate.point →
      s.Stuck t.state.iterate := by
  intro h
  refine overshoot_not_stuck (h overshoot [4] _ overshootTrail ?_ ?_ overshoot_run rfl
    overshoot_stalls ?_)
  · decide
  · decide +kernel
  · decide +kernel

end Optima.Descent
