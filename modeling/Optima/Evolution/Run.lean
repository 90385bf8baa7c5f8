import Optima.Evolution.Trial
import Optima.Objective
import Optima.Solver

namespace Optima

structure Evolution (α : Type) where
  objective : Objective α
  population : List (Vec α)
  feasible : Vec α → Bool
  config : Evolution.Config α

namespace Evolution

variable {α γ : Type} [Scalar α] [WordSource γ]

def dimension (s : Evolution α) : Nat :=
  match s.population with
  | [] => 0
  | x :: _ => x.length

def checkPopulation (s : Evolution α) : Except (Error α) Unit := do
  let n := s.dimension
  demand (4 < s.population.length) (.populationTooSmall s.population.length)
  demand (n != 0) .emptyMember
  match s.population.zipIdx.find? fun p => p.1.length != n with
  | some (x, i) => .error (.memberDimension i n x.length)
  | none =>
    match s.population.findIdx? fun x => !s.feasible x with
    | some i => .error (.infeasibleMember i)
    | none => pure ()

def check (s : Evolution α) : Except (Error α) Unit := do
  s.config.check
  s.checkPopulation

def solver (s : Evolution α) : Except (Error α) (Solver (Evolution α) α (Vec α)) := do
  s.check
  pure (.new s [])

def oriented (s : Evolution α) (x : Vec α) : α := s.config.goal.orient (s.objective.value x)

def bestOf (population : List (Member α)) : Member α :=
  population.getD (bestIndex (population.map (·.value))) ⟨[], Scalar.nan⟩

structure State (α γ : Type) where
  population : List (Member α)
  iteration : Nat
  evaluations : Nat
  log : List (Entry α)
  generator : γ

def State.finish (s : Evolution α) (t : State α γ) (status : Status) : Report α (Vec α) where
  result := (bestOf t.population).point
  value := s.config.goal.orient (bestOf t.population).value
  status
  iterations := t.iteration
  evaluations := t.evaluations
  convergence := t.log.reverse

/-- One generation and the tests before it. A generation that never ends leaves no report. -/
def round (s : Evolution α) (t : State α γ) :
    Traced (Vec α) (State α γ ⊕ Option (Report α (Vec α))) := do
  let c := s.config
  if Scalar.isFinite (bestOf t.population).value then
    if c.stopping.capReached t.iteration then pure (.inr (some (t.finish s .iterationExceeded)))
    else
      let ((population, calls), generator) ←
        generation c s.feasible s.oriented t.population t.generator
      if c.settles t.population.length calls then
        let iteration := t.iteration + 1
        pure (.inl
          { population, iteration, generator
            evaluations := t.evaluations + calls
            log := ⟨iteration, c.goal.orient (bestOf population).value⟩ :: t.log })
      else pure (.inr none)
  else pure (.inr (some (t.finish s .diverged)))

def initial (s : Evolution α) (g : γ) : Traced (Vec α) (State α γ) := do
  let values ← Traced.forEach (Traced.call s.oriented) s.population
  pure ⟨List.zipWith Member.mk s.population values, 0, s.population.length, [], g⟩

def trace (s : Evolution α) (budget : Nat) (g : γ) :
    Traced (Vec α) (Option (Report α (Vec α))) := do
  let ended ← Traced.iterate s.round budget (← s.initial g)
  pure ended.join

theorem trace_eq (s : Evolution α) (n : Nat) (g : γ) :
    s.trace n g = Option.join <$> (s.initial g >>= Traced.iterate s.round n) := by
  simp only [trace, map_eq_pure_bind, bind_assoc]

def runWithin (s : Evolution α) (budget : Nat) (g : γ) : Run α (Vec α) (Vec α) :=
  .ofIteration (s.trace budget g)

def runFrom (s : Evolution α) (g : γ) : Run α (Vec α) (Vec α) :=
  s.runWithin s.config.stopping.budget g

def run (s : Evolution α) : Run α (Vec α) (Vec α) :=
  s.runFrom (ChaCha.ofSeed (UInt64.ofNat s.config.seed))

def evolveFrom (g : γ) : Action (Evolution α) α (Vec α) (Vec α) (Report α (Vec α)) := do
  let s := (← get).setup
  .keep (← .calling (s.trace s.config.stopping.budget g))

def evolve : Action (Evolution α) α (Vec α) (Vec α) (Report α (Vec α)) := do
  evolveFrom (ChaCha.ofSeed (UInt64.ofNat (← get).setup.config.seed))

end Evolution

end Optima
