import Optima.Proofs.Duality.Negated
import Optima.Proofs.Frame

namespace Optima.Evolution

variable {α γ : Type} [Scalar α] [WordSource γ]

def uphill (s : Evolution α) : Evolution α :=
  { s with config := { s.config with goal := .maximize } }

def downhill (s : Evolution α) : Evolution α :=
  { s with objective := s.objective.neg, config := { s.config with goal := .minimize } }

def State.negated (t : State α γ) : State α γ := { t with log := t.log.map Entry.negated }

omit [WordSource γ] in
theorem State.finish_negated (s : Evolution α) (t : State α γ) (status : Status) :
    State.finish s.uphill t.negated status = (State.finish s.downhill t status).negated := by
  simp [finish, negated, Report.negated, uphill, downhill]

theorem round_negated (s : Evolution α) (t : State α γ) :
    s.uphill.round t.negated =
      Sum.map State.negated (Option.map Report.negated) <$> s.downhill.round t := by
  have hc : s.uphill.config = { s.downhill.config with goal := .maximize } := rfl
  have ho : s.uphill.oriented = s.downhill.oriented := rfl
  have hf : s.uphill.feasible = s.downhill.feasible := rfl
  have hp : t.negated.population = t.population := rfl
  have hi : t.negated.iteration = t.iteration := rfl
  simp only [round, hc, ho, hf, hp, hi, generation_frame, settles_frame,
    State.finish_negated]
  split
  · split
    · rfl
    · simp only [map_bind]
      congr 1
      funext w
      split <;> rfl
  · rfl

omit [WordSource γ] in
theorem initial_negated (s : Evolution α) (g : γ) :
    s.uphill.initial g = State.negated <$> s.downhill.initial g := by
  have ho : s.uphill.oriented = s.downhill.oriented := rfl
  have hp : s.uphill.population = s.downhill.population := rfl
  simp only [initial, ho, hp, map_bind]
  rfl

theorem trace_negated (s : Evolution α) (n : Nat) (g : γ) :
    s.uphill.trace n g = Option.map Report.negated <$> s.downhill.trace n g := by
  simp only [trace_eq, initial_negated, bind_map_left, map_bind,
    Traced.iterate_map s.round_negated, Functor.map_map, Option.join_map_eq_map_join]

theorem runWithin_negated (s : Evolution α) (n : Nat) (g : γ) :
    s.uphill.runWithin n g = (s.downhill.runWithin n g).negated := by
  simp only [runWithin, trace_negated, Run.ofIteration_negated]

end Optima.Evolution
