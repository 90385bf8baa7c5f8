import Optima.Scalar
import Optima.Status

namespace Optima

structure Entry (α : Type) where
  iteration : Nat
  value : α
  deriving DecidableEq

structure Report (α χ : Type) where
  result : χ
  value : α
  status : Status
  iterations : Nat
  evaluations : Nat
  convergence : List (Entry α)
  deriving DecidableEq

variable {α χ : Type}

def Report.notRun [Scalar α] (result : χ) : Report α χ :=
  ⟨result, Scalar.nan, .notRun, 0, 0, []⟩

end Optima
