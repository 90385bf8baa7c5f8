import Optima.Box
import Optima.Random.ChaCha
import Optima.Random.Sampled
import Optima.Random.Uniform
import Optima.Swarm.Config

namespace Optima.Swarm

structure Particle (α : Type) where
  position : Vec α
  velocity : Vec α
  value : α
  bestPosition : Vec α
  bestValue : α

structure Best (α : Type) where
  position : Vec α
  value : α

variable {α γ : Type} [Scalar α] [WordSource γ]

def Particle.start (position velocity : Vec α) (value : α) : Particle α :=
  ⟨position, velocity, value, position, value⟩

def Best.after (b : Best α) (p : Particle α) : Best α :=
  if p.bestValue < b.value then ⟨p.bestPosition, p.bestValue⟩ else b

def steer (c : Config α) : Vec α → Vec α → Vec α → Vec α → Draw γ (Vec α)
  | x :: xs, v :: vs, own :: owns, all :: alls => do
    let r1 ← Draw.unit
    let r2 ← Draw.unit
    let v := c.inertia * v + c.cognitive * r1 * (own - x) + c.social * r2 * (all - x)
    let vs ← steer c xs vs owns alls
    pure (v :: vs)
  | _, _, _, _ => pure []

def advance (c : Config α) (box : Box α) (f : Vec α → α) (best : Vec α) (p : Particle α) :
    Sampled γ (Vec α) (Particle α) := do
  let velocity ← Sampled.draw (steer c p.position p.velocity p.bestPosition best)
  let position := box.clip (Vec.add p.position velocity)
  let value ← Sampled.call f position
  pure
    (if value < p.bestValue then ⟨position, velocity, value, position, value⟩
      else ⟨position, velocity, value, p.bestPosition, p.bestValue⟩)

def sequentialSweep (c : Config α) (box : Box α) (f : Vec α → α) :
    List (Particle α) → Best α → Sampled γ (Vec α) (List (Particle α) × Best α)
  | [], best => pure ([], best)
  | p :: ps, best => do
    let p ← advance c box f best.position p
    let (ps, best) ← sequentialSweep c box f ps (best.after p)
    pure (p :: ps, best)

def advanceSeeded (c : Config α) (box : Box α) (f : Vec α → α) (best : Vec α)
    (p : Particle α × UInt64) : Traced (Vec α) (Particle α) :=
  Sampled.isolated (advance c box f best p.1) (ChaCha.ofSeed p.2)

def batchedSweep (c : Config α) (box : Box α) (f : Vec α → α) (ps : List (Particle α))
    (best : Best α) : Sampled γ (Vec α) (List (Particle α) × Best α) := do
  let seeds ← Sampled.draw (Draw.seeds ps.length)
  let ps ← StateT.lift (Traced.forEach (advanceSeeded c box f best.position) (ps.zip seeds))
  pure (ps, ps.foldl Best.after best)

def sweep (c : Config α) (box : Box α) (f : Vec α → α) (ps : List (Particle α)) (best : Best α) :
    Sampled γ (Vec α) (List (Particle α) × Best α) :=
  match c.update with
  | .sequential => sequentialSweep c box f ps best
  | .batched => batchedSweep c box f ps best

end Optima.Swarm
