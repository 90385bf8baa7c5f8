import Optima.Proofs.Duality.Negated
import Optima.Proofs.Frame

namespace Optima

variable {α : Type} [Scalar α]

namespace SimplexSearch

def uphill (s : SimplexSearch α) : SimplexSearch α :=
  { s with config := { s.config with goal := .maximize } }

def downhill (s : SimplexSearch α) : SimplexSearch α :=
  { s with objective := s.objective.neg, config := { s.config with goal := .minimize } }

def State.negated (t : State α) : State α := { t with log := t.log.map Entry.negated }

theorem State.finish_negated (s : SimplexSearch α) (t : State α) (status : Status) :
    State.finish s.uphill t.negated status = (State.finish s.downhill t status).negated := by
  simp [finish, negated, Report.negated, uphill, downhill]

theorem round_negated (s : SimplexSearch α) (t : State α) :
    s.uphill.round t.negated = Sum.map State.negated Report.negated <$> s.downhill.round t := by
  have hc : s.uphill.config = { s.downhill.config with goal := .maximize } := rfl
  have hb : s.uphill.box = s.downhill.box := rfl
  have hr : s.uphill.ranked = s.downhill.ranked := rfl
  have hn : t.negated.simplex = t.simplex := rfl
  have hf : ∀ (u : State α) (status : Status),
      (pure (.inr (State.finish s.uphill u.negated status)) :
        Traced (Vec α) (State α ⊕ Report α (Vec α))) =
        Sum.map State.negated Report.negated <$>
          pure (.inr (State.finish s.downhill u status)) := by
    intro u status
    rw [State.finish_negated]
    rfl
  simp only [round, hc, hb, hr, hn, Simplex.step_frame]
  split
  · simp only [map_bind]
    congr 1
    funext value
    let u : State α := { t with simplex := t.simplex.sort, evaluations := t.evaluations + 1 }
    have hi : t.negated.iteration = t.iteration := rfl
    rw [hi]
    split
    · exact hf u .normal
    · split
      · exact hf u .iterationExceeded
      · simp only [map_bind]
        rfl
  · exact hf { t with simplex := t.simplex.sort } .diverged

theorem initial_negated (s : SimplexSearch α) (points : List (Vec α)) :
    s.uphill.initial points = Option.map State.negated <$> s.downhill.initial points := by
  have hr : s.uphill.ranked = s.downhill.ranked := rfl
  have hb : s.uphill.box = s.downhill.box := rfl
  simp only [initial, hr, hb, map_bind, map_pure, Option.map_map]
  rfl

theorem trace_negated (s : SimplexSearch α) (n : Nat) (points : List (Vec α)) :
    s.uphill.trace n points = Option.map Report.negated <$> s.downhill.trace n points := by
  simp only [trace, initial_negated, bind_map_left, map_bind]
  congr 1
  funext t
  cases t with
  | none => rfl
  | some t => exact Traced.iterate_map s.round_negated n t

theorem runPointsWithin_negated (s : SimplexSearch α) (n : Nat) (points : List (Vec α)) :
    s.uphill.runPointsWithin n points = (s.downhill.runPointsWithin n points).negated := by
  simp only [runPointsWithin, trace_negated, Run.ofIteration_negated, Run.negated_accepting]
  rfl

theorem runStartWithin_negated (s : SimplexSearch α) (n : Nat) (start : Vec α) :
    s.uphill.runStartWithin n start = (s.downhill.runStartWithin n start).negated := by
  simp only [runStartWithin, trace_negated, Run.ofIteration_negated, Run.negated_accepting]
  rfl

theorem runRandomWithin_negated {γ : Type} [WordSource γ] (s : SimplexSearch α) (n : Nat)
    (g : γ) : s.uphill.runRandomWithin n g = (s.downhill.runRandomWithin n g).negated := by
  have hb : s.uphill.box = s.downhill.box := rfl
  simp only [runRandomWithin, trace_negated, Run.ofIteration_negated, hb]
  split <;> rfl

end SimplexSearch

end Optima
