import Optima.Objective
import Optima.Solver

namespace Optima

variable {α ι χ : Type}

def Entry.image (φ : α → α) (e : Entry α) : Entry α := { e with value := φ e.value }

def Report.image (φ : α → α) (r : Report α χ) : Report α χ :=
  { r with value := φ r.value, convergence := r.convergence.map (Entry.image φ) }

def Run.image (φ : α → α) (r : Run α ι χ) : Run α ι χ := ⟨r.value.map (Report.image φ), r.calls⟩

theorem Run.image_accepting (φ : α → α) (input : Except (Error α) Unit) (run : Unit → Run α ι χ) :
    (Run.accepting input run).image φ = .accepting input fun u => (run u).image φ := by
  cases input <;> rfl

theorem Run.ofIteration_image (φ : α → α) (t : Traced ι (Option (Report α χ))) :
    Run.ofIteration (Option.map (Report.image φ) <$> t) = (Run.ofIteration t).image φ := by
  ext1
  · simp only [ofIteration, image, Traced.value_map]
    cases t.value <;> rfl
  · simp [ofIteration, image]

def Objective.rescaled (φ : α → α) (o : Objective α) : Objective α :=
  .ofValue fun x => φ (o.value x)

end Optima
