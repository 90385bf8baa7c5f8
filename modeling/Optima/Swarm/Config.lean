import Optima.Goal
import Optima.Stopping

namespace Optima.Swarm

inductive Update
  | sequential
  | batched
  deriving DecidableEq

structure Config (α : Type) where
  goal : Goal
  size : Nat
  inertia : α
  cognitive : α
  social : α
  velocityScale : α
  update : Update
  stopping : Stopping α
  seed : Nat

namespace Config

variable {α : Type} [Scalar α]

def standard : Config α :=
  ⟨.minimize, 30, 0.729, 1.49445, 1.49445, 0.1, .sequential, ⟨some 200, some 50, none, none⟩, 42⟩

def check (c : Config α) : Except (Error α) Unit := do
  demand (2 ≤ c.size) (.swarmTooSmall c.size)
  Requirement.finiteNonNegative.check "Inertia" c.inertia
  Requirement.finiteNonNegative.check "Cognitive coefficient" c.cognitive
  Requirement.finiteNonNegative.check "Social coefficient" c.social
  Requirement.usableStep.check "Velocity scale" c.velocityScale
  c.stopping.check

end Config

end Optima.Swarm
