import Optima.Proofs.Image
import Optima.Proofs.Iteration

namespace Optima

variable {α ι χ : Type} [Scalar α]

def Entry.negated (e : Entry α) : Entry α := { e with value := -e.value }

def Report.negated (r : Report α χ) : Report α χ :=
  { r with value := -r.value, convergence := r.convergence.map Entry.negated }

def Run.negated (r : Run α ι χ) : Run α ι χ := ⟨r.value.map Report.negated, r.calls⟩

@[simp] theorem Run.negated_accepting (input : Except (Error α) Unit)
    (run : Unit → Run α ι χ) :
    (Run.accepting input run).negated = .accepting input fun u => (run u).negated :=
  Run.image_accepting Neg.neg input run

theorem Run.ofIteration_negated (t : Traced ι (Option (Report α χ))) :
    Run.ofIteration (Option.map Report.negated <$> t) = (Run.ofIteration t).negated :=
  Run.ofIteration_image Neg.neg t

end Optima
