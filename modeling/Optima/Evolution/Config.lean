import Optima.Goal
import Optima.Stopping

namespace Optima.Evolution

inductive Update
  | inPlace
  | batched
  deriving DecidableEq

structure Config (α : Type) where
  goal : Goal
  weight : α
  crossover : α
  update : Update
  /-- Only its cap is looked at. -/
  stopping : Stopping α
  /-- How many infeasible trials a member may have in a generation beyond the first; without this
  limit candidates are drawn until one is feasible. -/
  maxResamples : Option Nat
  seed : Nat

namespace Config

variable {α : Type}

/-- How many candidates are drawn for a member. Without a limit, one that has none feasible among
so many is taken to have none at all. -/
def attempts (c : Config α) : Nat := c.maxResamples.elim UInt64.size (· + 1)

def givesUp (c : Config α) : Bool := c.maxResamples.isSome

variable [Scalar α]

def standard : Config α :=
  ⟨.minimize, 0.8, 0.9, .inPlace, .afterIterations 100, some 1000, 42⟩

def check (c : Config α) : Except (Error α) Unit := do
  Requirement.aboveZeroToTwo.check "Differential weight" c.weight
  Requirement.fromZeroToOne.check "Crossover probability" c.crossover
  c.stopping.check

end Config

end Optima.Evolution
