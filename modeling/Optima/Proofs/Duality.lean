import Optima.Proofs.Duality.Descent
import Optima.Proofs.Duality.Evolution
import Optima.Proofs.Duality.Simplex
import Optima.Proofs.Duality.Swarm

namespace Optima

/-- A run uphill calls the objective at the same points as the run downhill, and reports the same
with the opposite values, also when it is refused or does not finish. -/
theorem uphill_eq_downhill {α γ : Type} [Scalar α] [WordSource γ] :
    (∀ (s : Descent α) (start : Vec α), s.uphill.run start = (s.downhill.run start).negated) ∧
      (∀ s : SimplexSearch α,
        (∀ start, s.uphill.runStart start = (s.downhill.runStart start).negated) ∧
        (∀ points, s.uphill.runPoints points = (s.downhill.runPoints points).negated) ∧
        (∀ generator, s.uphill.runWith generator = (s.downhill.runWith generator).negated) ∧
        ∀ g : γ, s.uphill.runRandom g = (s.downhill.runRandom g).negated) ∧
      (∀ s : Swarm α, s.uphill.run = s.downhill.run.negated ∧
        ∀ g : γ, s.uphill.runFrom g = (s.downhill.runFrom g).negated) ∧
      ∀ s : Evolution α, s.uphill.run = s.downhill.run.negated ∧
        ∀ g : γ, s.uphill.runFrom g = (s.downhill.runFrom g).negated := by
  refine ⟨?_, ?_, ?_, ?_⟩
  · intro s start
    exact s.runWithin_negated _ start
  · intro s
    refine ⟨?_, ?_, ?_, ?_⟩
    · intro start
      exact s.runStartWithin_negated _ start
    · intro points
      exact s.runPointsWithin_negated _ points
    · intro generator
      exact s.runPointsWithin_negated _ _
    · intro g
      exact s.runRandomWithin_negated _ g
  · intro s
    refine ⟨s.runWithin_negated _ _, ?_⟩
    intro g
    exact s.runWithin_negated _ g
  · intro s
    refine ⟨s.runWithin_negated _ _, ?_⟩
    intro g
    exact s.runWithin_negated _ g

end Optima
