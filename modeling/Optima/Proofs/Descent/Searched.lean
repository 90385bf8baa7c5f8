import Optima.Proofs.Descent.Arrival
import Optima.Proofs.Descent.Passage

namespace Optima.Descent

variable {α : Type} [Scalar α] {c : Config α} {f : LineFunction α} {s : State α}

inductive Searched (c : Config α) (f : LineFunction α) (s : State α) : Progress × State α → Prop
  | stalled {u : State α} : u.iterate = s.iterate → Searched c f s (.stalled, u)
  | failed : Searched c f s (.failed .badFunction, s)
  | moved {d : Vec α} {u : State α} : ¬ (s.iterate.search c.search f d).value.isZero = true →
      u.iterate = (arrive f c.box (s.iterate.search c.search f d).value).value →
      Searched c f s (.moved, u)

theorem momentumStep_searched (c : Config α) (f : LineFunction α) (s : State α) :
    Searched c f s (momentumStep c f s).value := by
  simp only [momentumStep, Traced.value_bind]
  split
  · exact .stalled rfl
  · next h => exact .moved h rfl

theorem bfgsStep_searched (c : Config α) (f : LineFunction α) (s : State α) :
    Searched c f s (bfgsStep c f s).value := by
  cases hd : quasiNewton s with
  | none =>
    simp only [bfgsStep, hd]
    exact .failed
  | some d =>
    cases hdn : s.iterate.descends d with
    | true =>
      simp only [bfgsStep, hd, hdn, if_true, Bool.and_true, Traced.value_bind]
      split
      · -- no step along the quasi-Newton direction is acceptable
        rw [Traced.value_bind]
        split
        · exact .stalled rfl
        · next h => exact .moved h rfl
      · next h => exact .moved h rfl
    | false =>
      simp only [bfgsStep, hd, hdn, Bool.and_false, Bool.false_eq_true, if_false,
        Traced.value_bind]
      split
      · exact .stalled rfl
      · next h => exact .moved h rfl

theorem Searched.status_of_failed {u : State α} {status : Status}
    (h : Searched c f s (.failed status, u)) : status = .badFunction := by
  cases h
  rfl

theorem advance_searched {s : Descent α} (hm : s.config.method ≠ .conjugateGradient)
    (t : Trail α) : Searched s.config s.function t.state (s.advance t) := by
  unfold advance step
  cases h : s.config.method with
  | momentum => exact momentumStep_searched _ _ _
  | bfgs => exact bfgsStep_searched _ _ _
  | conjugateGradient => exact absurd h hm
  | boxConstrained => exact momentumStep_searched _ _ _

end Optima.Descent
