import Optima.Stopping

namespace Optima

namespace Newton

structure Config (α : Type) where
  target : α
  tolerance : α
  slopeTolerance : α
  stopping : Stopping α
  derivativeStep : Option α

namespace Config

variable {α : Type} [Scalar α]

def standard : Config α := ⟨0, 1e-10, 1e-14, .afterIterations 100, none⟩

def check (c : Config α) : Except (Error α) Unit := do
  Requirement.finite.check "Target" c.target
  Requirement.positive.check "Tolerance" c.tolerance
  Requirement.nonNegative.check "Slope tolerance" c.slopeTolerance
  match c.derivativeStep with
  | none => pure ()
  | some step => Requirement.usableStep.check "Derivative step" step
  c.stopping.check

end Config

end Newton

namespace Bracketing

inductive Method
  | dichotomy
  | falsePosition
  deriving DecidableEq

structure Config (α : Type) where
  method : Method
  target : α
  tolerance : α
  stopping : Stopping α

namespace Config

variable {α : Type} [Scalar α]

def standard : Config α := ⟨.dichotomy, 0, 1e-10, .afterIterations 100⟩

def check (c : Config α) : Except (Error α) Unit := do
  Requirement.finite.check "Target" c.target
  Requirement.positive.check "Tolerance" c.tolerance
  c.stopping.check

end Config

end Bracketing

end Optima
