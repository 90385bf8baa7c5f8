import Mathlib.Control.Monad.Basic
import Optima.Proofs.Descent.Arrival
import Optima.Proofs.Descent.Passage
import Optima.Proofs.Scalar.Binary64

/-!
The value that a run along conjugate directions reports. A sweep moves the point several times and
hands its value on only when it has not failed; a run that ends with a failed sweep reports the
value from before the sweep.
-/

namespace Optima.Descent

variable {α : Type}

/-- What comes of a sweep that stands at an iterate, having moved or not. -/
inductive Swept (f : LineFunction α) (s : State α) :
    Iterate α → Bool → Progress × State α → Prop
  | stalled {i : Iterate α} : Swept f s i false (.stalled, { s with iterate := i })
  | finished {i : Iterate α} : Swept f s i true (.moved, { s with iterate := i })
  | failed {i : Iterate α} {moved : Bool} :
      Swept f s i moved (.failed .badFunction, { s with iterate := i })
  | diverged {i j : Iterate α} {moved : Bool} : j.Faithful f →
      Swept f s i moved (.moved, { s with iterate := j })
  | next {i j : Iterate α} {moved : Bool} {r : Progress × State α} : j.Faithful f →
      Swept f s j true r → Swept f s i moved r

variable {f : LineFunction α} {s : State α}

theorem sweep_swept [Scalar α] {c : Config α} (hc : c.box = none)
    (hessian : Vec α → Option (Mat α)) (n : Nat) {i : Iterate α} (hi : i.Faithful f) (d : Vec α)
    (moved : Bool) :
    Swept f s i moved (sweep c f hessian s n i d moved).value := by
  induction n generalizing i d moved with
  | zero =>
    cases moved with
    | false => exact .stalled
    | true => exact .finished
  | succ n ih =>
    have hstop : Swept f s i moved
        (if moved then Progress.moved else Progress.stalled, { s with iterate := i }) := by
      cases moved with
      | false => exact .stalled
      | true => exact .finished
    unfold sweep
    generalize ((if moved then Progress.moved else Progress.stalled, { s with iterate := i }) :
      Progress × State α) = stop at hstop ⊢
    dsimp only
    split
    · exact hstop
    · split
      · exact .failed
      · split
        · exact .failed
        · split
          · rw [Traced.value_bind]
            split
            · exact hstop
            · rw [Traced.value_bind]
              have hj : (arrive f c.box (i.search c.search f d).value).value.Faithful f := by
                rw [Iterate.Faithful, arrive_value, arrive_point, hc]
                exact hi.found _ _
              exact .next hj (ih hj _ _)
          · rw [Traced.value_bind, Traced.value_bind]
            split
            · exact .next (.evaluated _ _) (ih (.evaluated _ _) _ _)
            · exact .diverged (.evaluated _ _)

theorem Swept.faithful {i : Iterate α} {moved : Bool} {r : Progress × State α}
    (h : Swept f s i moved r) (hi : i.Faithful f) : r.2.iterate.Faithful f := by
  induction h with
  | stalled => exact hi
  | finished => exact hi
  | failed => exact hi
  | diverged hj => exact hj
  | next hj _ ih => exact ih hj

theorem Swept.iterate_of_stalled {i : Iterate α} {moved : Bool} {u : State α}
    (h : Swept f s i moved (.stalled, u)) : moved = false ∧ u.iterate = i := by
  generalize hr : (Progress.stalled, u) = r at h
  induction h with
  | stalled => cases hr; exact ⟨rfl, rfl⟩
  | finished => cases hr
  | failed => cases hr
  | diverged => cases hr
  | next _ _ ih => exact absurd (ih hr).1 (by decide)

theorem Swept.status_of_failed {i : Iterate α} {moved : Bool} {u : State α} {status : Status}
    (h : Swept f s i moved (.failed status, u)) : status = .badFunction := by
  generalize hr : (Progress.failed status, u) = r at h
  induction h with
  | stalled => cases hr
  | finished => cases hr
  | failed => cases hr; rfl
  | diverged => cases hr
  | next _ _ ih => exact ih hr

variable [Scalar α] {s : Descent α} {x : Vec α}

theorem advance_swept (hm : s.config.method = .conjugateGradient) {t : Trail α}
    (ht : t.state.iterate.Faithful s.function) :
    Swept s.function t.state t.state.iterate false (s.advance t) := by
  have hb : s.config.box = none := by simp [Config.box, hm]
  simp only [advance, step, hm, conjugateStep]
  exact sweep_swept hb _ _ ht _ _

theorem Passes.faithful (hm : s.config.method = .conjugateGradient) {t : Trail α}
    (ht : s.Passes x t) : t.state.iterate.Faithful s.function := by
  induction ht with
  | initial =>
    rw [initial_value]
    rfl
  | @moved t u _ _ hu ih =>
    have h := (advance_swept hm ih).faithful ih
    rw [hu] at h
    exact h

theorem Passes.report_value [Scalar.Lawful α] (hm : s.config.method = .conjugateGradient)
    {t : Trail α} (ht : s.Passes x t) (u : State α) (status : Status) :
    (Trail.report s.config { s.counted t with state := u } status).value =
      s.objective.value t.state.iterate.point := by
  have h : t.state.iterate.value = s.config.goal.orient (s.objective.value t.state.iterate.point) :=
    ht.faithful hm
  have hvalue : (Trail.report s.config { s.counted t with state := u } status).value =
      s.config.goal.orient (t.values.headD Scalar.nan) := rfl
  rw [hvalue, ht.headD_values, h, Goal.orient_orient]

theorem Ends.value_eq [Scalar.Lawful α] (hm : s.config.method = .conjugateGradient)
    {r : Report α (Vec α)} (h : s.Ends x r) (hs : r.status ≠ .badFunction) :
    r.value = s.objective.value r.result := by
  cases h with
  | @stopped t status ht hv => exact ht.report_value hm t.state status
  | @stalled t u ht hv hu =>
    have hst := advance_swept hm (ht.faithful hm)
    rw [hu] at hst
    rw [ht.report_value hm u, Trail.report, hst.iterate_of_stalled.2]
  | @failed t u status ht hv hu =>
    have hst := advance_swept hm (ht.faithful hm)
    rw [hu] at hst
    exact absurd hst.status_of_failed hs

/-- A run along conjugate directions reports the objective's value at its result unless a sweep
failed after it had moved to a point of another value. -/
theorem sweep_report_iff {s : Descent Float} {x : Vec Float} {n : Nat}
    {r : Report Float (Vec Float)} (hm : s.config.method = .conjugateGradient)
    (h : (s.runWithin n x).value = .ok r) :
    (r.status ≠ .badFunction → r.value = s.objective.value r.result) ∧
      (r.value = s.objective.value r.result ↔
        ∀ t u, s.Passes x t → t.verdict s.config = none →
          s.advance t = (.failed .badFunction, u) →
          s.objective.value u.iterate.point = s.objective.value t.state.iterate.point) := by
  obtain ⟨hr, -, hend⟩ := ends_of_runWithin h
  refine ⟨hend.value_eq hm, ?_, ?_⟩
  · intro he t u ht hv hu
    -- a failed sweep is how the run ended
    have hr' : r = _ := (Ends.failed ht hv hu).eq hr
    have hval : r.value = s.objective.value t.state.iterate.point := by
      rw [hr', ht.report_value hm u]
    have hres : r.result = u.iterate.point := by rw [hr', Trail.report]
    rw [← hres, ← hval]
    exact he.symm
  · intro hall
    by_cases hs : r.status = .badFunction
    · cases hend with
      | @stopped t status ht hv => exact ht.report_value hm t.state status
      | stalled => cases hs
      | @failed t u status ht hv hu =>
        obtain rfl : status = .badFunction := hs
        exact (ht.report_value hm u .badFunction).trans (hall t u ht hv hu).symm
    · exact hend.value_eq hm hs

/-- The function `x² / 2 + y`, whose second derivative vanishes along `y`. -/
def valley : Descent Float where
  objective := .withHessian (fun x => 0.5 * x.getD 0 0 * x.getD 0 0 + x.getD 1 0)
    (fun x => [x.getD 0 0, 1]) (fun _ => [[1, 0], [0, 0]])
  config := { Config.standard with method := .conjugateGradient }

theorem valley_run : (valley.run [1, 0]).value = .ok ⟨[-1, -2], 0.5, .badFunction, 0, 2, []⟩ := by
  decide +kernel

theorem valley_sweep_report :
    (valley.run [1, 0]).value = .ok ⟨[-1, -2], 0.5, .badFunction, 0, 2, []⟩ ∧
      ¬ ∀ t u, valley.Passes [1, 0] t → t.verdict valley.config = none →
        valley.advance t = (.failed .badFunction, u) →
        valley.objective.value u.iterate.point =
          valley.objective.value t.state.iterate.point := by
  refine ⟨valley_run, fun hall => ?_⟩
  have h : (0.5 : Float) = valley.objective.value [-1, -2] :=
    (sweep_report_iff rfl valley_run).2.2 hall
  revert h
  decide +kernel

theorem sweep_report_inconsistent :
    ¬ ∀ (s : Descent Float) (x : Vec Float) (r : Report Float (Vec Float)),
      s.config.method = .conjugateGradient → s.check = .ok () → (s.run x).value = .ok r →
      r.value = s.objective.value r.result := by
  intro h
  have hv := h valley [1, 0] _ rfl (by decide +kernel) valley_run
  revert hv
  decide +kernel

end Optima.Descent
