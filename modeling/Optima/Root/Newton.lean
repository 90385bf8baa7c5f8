import Optima.Difference
import Optima.Root.Config
import Optima.Solver

namespace Optima

structure Newton (α : Type) where
  function : α → α
  derivative : Option (α → α) := none
  config : Newton.Config α

namespace Newton

variable {α : Type} [Scalar α]

def solver (s : Newton α) : Except (Error α) (Solver (Newton α) α α) := do
  s.config.check
  pure (.new s Scalar.nan)

def slope (s : Newton α) (x : α) : Traced α (α × Nat) :=
  match s.derivative with
  | some d => pure (d x, 0)
  | none => (·, 2) <$> Difference.derivative s.function x s.config.derivativeStep

structure State (α : Type) where
  point : α
  iteration : Nat
  evaluations : Nat
  log : List (Entry α)

def State.finish (t : State α) (error : α) (status : Status) : Report α α where
  result := t.point
  value := error
  status
  iterations := t.iteration
  evaluations := t.evaluations
  convergence := t.log.reverse

def round (s : Newton α) (t : State α) : Traced α (State α ⊕ Report α α) := do
  let c := s.config
  let y ← Traced.call s.function t.point
  let error := y - c.target
  let t := { t with evaluations := t.evaluations + 1, log := ⟨t.iteration, error⟩ :: t.log }
  if !Scalar.isFinite error then pure (.inr (t.finish error .diverged))
  else if Scalar.abs error ≤ c.tolerance then pure (.inr (t.finish error .normal))
  else if c.stopping.capReached t.iteration then
    pure (.inr (t.finish error .iterationExceeded))
  else
    let (slope, calls) ← s.slope t.point
    let t := { t with evaluations := t.evaluations + calls }
    if !Scalar.isFinite slope then pure (.inr (t.finish error .diverged))
    else if Scalar.abs slope ≤ c.slopeTolerance then pure (.inr (t.finish error .badFunction))
    else pure (.inl { t with point := t.point - error / slope, iteration := t.iteration + 1 })

def State.initial (start : α) : State α := ⟨start, 0, 0, []⟩

def runWithin (s : Newton α) (budget : Nat) (start : α) : Run α α α :=
  .accepting (demand (Scalar.isFinite start) (.startNotFinite start)) fun _ =>
    .ofIteration (Traced.iterate s.round budget (.initial start))

def run (s : Newton α) (start : α) : Run α α α := s.runWithin s.config.stopping.budget start

def solve (start : α) : Action (Newton α) α α α (Report α α) := do
  .accept (demand (Scalar.isFinite start) (.startNotFinite start))
  let s := (← get).setup
  .keep (← .calling (Traced.iterate s.round s.config.stopping.budget (.initial start)))

end Newton

end Optima
