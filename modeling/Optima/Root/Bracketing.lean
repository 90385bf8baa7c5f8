import Optima.Root.Config
import Optima.Solver

namespace Optima

structure Bracketing (α : Type) where
  function : α → α
  config : Bracketing.Config α

namespace Bracketing

variable {α : Type} [Scalar α]

def solver (s : Bracketing α) : Except (Error α) (Solver (Bracketing α) α α) := do
  s.config.check
  pure (.new s Scalar.nan)

structure Bracket (α : Type) where
  lower : α
  upper : α
  lowerError : α
  upperError : α

def Bracket.trial (method : Method) (b : Bracket α) : α :=
  match method with
  | .dichotomy => 0.5 * (b.lower + b.upper)
  | .falsePosition =>
    b.upper - b.upperError * (b.upper - b.lower) / (b.upperError - b.lowerError)

def Bracket.narrow (b : Bracket α) (x error : α) : Bracket α :=
  if Scalar.sameSign error b.lowerError then { b with lower := x, lowerError := error }
  else { b with upper := x, upperError := error }

def errorAt (s : Bracketing α) (x : α) : Traced α α := do
  pure ((← Traced.call s.function x) - s.config.target)

structure State (α : Type) where
  bracket : Bracket α
  iteration : Nat
  evaluations : Nat
  log : List (Entry α)

def State.finish (t : State α) (point error : α) (status : Status) : Report α α where
  result := point
  value := error
  status
  iterations := t.iteration
  evaluations := t.evaluations
  convergence := t.log.reverse

def round (s : Bracketing α) (t : State α) : Traced α (State α ⊕ Report α α) := do
  let c := s.config
  let x := t.bracket.trial c.method
  let error ← s.errorAt x
  let iteration := t.iteration + 1
  let t : State α := ⟨t.bracket, iteration, t.evaluations + 1, ⟨iteration, error⟩ :: t.log⟩
  if !Scalar.isFinite error then pure (.inr (t.finish x error .diverged))
  else
    let t := { t with bracket := t.bracket.narrow x error }
    if Scalar.abs error < c.tolerance || t.bracket.upper - t.bracket.lower < c.tolerance then
      pure (.inr (t.finish x error .normal))
    else if c.stopping.capReached iteration then
      pure (.inr (t.finish x error .iterationExceeded))
    else pure (.inl t)

def initial (s : Bracketing α) (lower upper : α) : Traced α (State α) := do
  let lowerError ← s.errorAt lower
  let upperError ← s.errorAt upper
  pure ⟨⟨lower, upper, lowerError, upperError⟩, 0, 2, []⟩

def State.settled? (c : Config α) (t : State α) : Option (Report α α) :=
  let b := t.bracket
  if !(Scalar.isFinite b.lowerError && Scalar.isFinite b.upperError) then
    some (t.finish b.lower b.lowerError .diverged)
  else if Scalar.abs b.lowerError < c.tolerance then
    some (t.finish b.lower b.lowerError .normal)
  else if Scalar.abs b.upperError < c.tolerance then
    some (t.finish b.upper b.upperError .normal)
  else if Scalar.sameSign b.lowerError b.upperError then
    some (t.finish b.lower b.lowerError .badFunction)
  else none

def trace (s : Bracketing α) (budget : Nat) (lower upper : α) :
    Traced α (Option (Report α α)) := do
  let t ← s.initial lower upper
  match t.settled? s.config with
  | some report => pure (some report)
  | none => Traced.iterate s.round budget t

def runWithin (s : Bracketing α) (budget : Nat) (a b : α) : Run α α α :=
  .accepting (demand (Scalar.isFinite a && Scalar.isFinite b) (.endpointNotFinite a b))
    fun _ => .ofIteration (if a ≤ b then s.trace budget a b else s.trace budget b a)

def run (s : Bracketing α) (a b : α) : Run α α α := s.runWithin s.config.stopping.budget a b

def solve (a b : α) : Action (Bracketing α) α α α (Report α α) := do
  .accept (demand (Scalar.isFinite a && Scalar.isFinite b) (.endpointNotFinite a b))
  let s := (← get).setup
  let n := s.config.stopping.budget
  .keep (← .calling (if a ≤ b then s.trace n a b else s.trace n b a))

end Bracketing

end Optima
