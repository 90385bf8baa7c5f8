import Optima.Goal
import Optima.Stopping

namespace Optima.Simplex

structure Config (α : Type) where
  goal : Goal
  tolerance : α
  stopping : Stopping α
  reflection : α
  expansion : α
  contraction : α
  shrink : α
  initialStep : α

namespace Config

variable {α : Type} [Scalar α]

def standard : Config α :=
  ⟨.minimize, 1e-10, .afterIterations 1000, 1, 2, 0.5, 0.5, 0.05⟩

def check (c : Config α) : Except (Error α) Unit := do
  Requirement.positive.check "Tolerance" c.tolerance
  Requirement.positive.check "Reflection coefficient" c.reflection
  demand (1 < c.expansion && !(c.expansion ≤ c.reflection : Bool)) (.expansion c.expansion)
  Requirement.insideUnit.check "Contraction coefficient" c.contraction
  Requirement.insideUnit.check "Shrink coefficient" c.shrink
  Requirement.aboveZeroToOne.check "Initial step" c.initialStep
  c.stopping.check

end Config

end Optima.Simplex
