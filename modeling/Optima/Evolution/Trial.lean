import Optima.Evolution.Config
import Optima.Population
import Optima.Random.ChaCha
import Optima.Random.Sampled
import Optima.Random.Uniform

namespace Optima.Evolution

structure Member (α : Type) where
  point : Vec α
  value : α

variable {α γ : Type} [Scalar α] [WordSource γ]

/-- A trial for `target`: with the crossover probability a coordinate is `a + weight (b - c)`,
otherwise the target's own. -/
def crossover (c : Config α) : Vec α → Vec α → Vec α → Vec α → Draw γ (Vec α)
  | own :: target, x :: a, y :: b, z :: d => do
    let r ← Draw.unit
    let rest ← crossover c target a b d
    pure ((if r < c.crossover then x + c.weight * (y - z) else own) :: rest)
  | _, _, _, _ => pure []

def skip (k i : Nat) : Nat := if k ≤ i then i + 1 else i

def candidate (c : Config α) (points : List (Vec α)) (k : Nat) : Draw γ (Vec α) := do
  let picks ← Draw.sample (points.length - 1) 3
  let pick (i : Nat) := points.getD (skip k (picks.getD i 0)) []
  crossover c (points.getD k []) (pick 0) (pick 1) (pick 2)

def trial (c : Config α) (feasible : Vec α → Bool) (points : List (Vec α)) (k : Nat) :
    Nat → Draw γ (Option (Vec α))
  | 0 => pure none
  | attempts + 1 => do
    let x ← candidate c points k
    if feasible x then pure (some x) else trial c feasible points k attempts

def contest (population : List (Member α)) (k : Nat) (m : Member α) : List (Member α) :=
  population.modify k fun incumbent => if beats m.value incumbent.value then m else incumbent

/-- Builds, evaluates and places a trial for each slot in turn; gives the population and the count
of evaluations. A slot whose trial never comes is the last. -/
def inPlaceGeneration (c : Config α) (feasible : Vec α → Bool) (f : Vec α → α) :
    List Nat → List (Member α) → Nat → Sampled γ (Vec α) (List (Member α) × Nat)
  | [], population, calls => pure (population, calls)
  | k :: ks, population, calls => do
    match ← Sampled.draw (trial c feasible (population.map (·.point)) k c.attempts) with
    | none =>
      if c.givesUp then inPlaceGeneration c feasible f ks population calls
      else pure (population, calls)
    | some x =>
      let value ← Sampled.call f x
      inPlaceGeneration c feasible f ks (contest population k ⟨x, value⟩) (calls + 1)

def seededTrial (c : Config α) (feasible : Vec α → Bool) (f : Vec α → α)
    (points : List (Vec α)) (p : Nat × UInt64) : Traced (Vec α) (Nat × Option (Member α)) :=
  match ((trial c feasible points p.1 c.attempts).run (ChaCha.ofSeed p.2)).1 with
  | none => pure (p.1, none)
  | some x => do
    let value ← Traced.call f x
    pure (p.1, some ⟨x, value⟩)

def settle (s : List (Member α) × Nat) : Nat × Option (Member α) → List (Member α) × Nat
  | (_, none) => s
  | (k, some m) => (contest s.1 k m, s.2 + 1)

def batchedGeneration (c : Config α) (feasible : Vec α → Bool) (f : Vec α → α)
    (population : List (Member α)) : Sampled γ (Vec α) (List (Member α) × Nat) := do
  let seeds ← Sampled.draw (Draw.seeds population.length)
  let points := population.map (·.point)
  let trials ← StateT.lift (Traced.forEach (seededTrial c feasible f points)
    ((List.range population.length).zip seeds))
  pure (trials.foldl settle (population, 0))

def generation (c : Config α) (feasible : Vec α → Bool) (f : Vec α → α)
    (population : List (Member α)) : Sampled γ (Vec α) (List (Member α) × Nat) :=
  match c.update with
  | .inPlace => inPlaceGeneration c feasible f (List.range population.length) population 0
  | .batched => batchedGeneration c feasible f population

/-- Whether a generation that built trials for so many of its slots comes to an end. -/
def Config.settles (c : Config α) (slots trials : Nat) : Bool := c.givesUp || trials == slots

end Optima.Evolution
