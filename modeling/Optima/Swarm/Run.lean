import Optima.Objective
import Optima.Population
import Optima.Solver
import Optima.Swarm.Particle

namespace Optima

structure Swarm (α : Type) where
  objective : Objective α
  box : Box α
  config : Swarm.Config α
  generator : Option (Nat → List (Vec α)) := none

namespace Swarm

variable {α γ : Type} [Scalar α] [WordSource γ]

def check (s : Swarm α) : Except (Error α) Unit := do
  s.config.check
  s.box.check

def solver (s : Swarm α) : Except (Error α) (Solver (Swarm α) α (Vec α)) := do
  s.check
  pure (.new s [])

def ranked (s : Swarm α) (x : Vec α) : α :=
  Scalar.ranked (s.config.goal.orient (s.objective.value x))

def checkPositions (s : Swarm α) (positions : List (Vec α)) : Except (Error α) Unit := do
  demand (positions.length == s.config.size) (.positionCount s.config.size positions.length)
  match positions.find? fun x => x.length != s.box.length with
  | some x => .error (.positionDimension s.box.length x.length)
  | none => pure ()

def positions (s : Swarm α) : Draw γ (Option (List (Vec α))) :=
  match s.generator with
  | some generate => pure (some (generate s.config.size))
  | none => Draw.points s.box s.config.size

def velocityIn (s : Swarm α) (i : Interval α) : Draw γ (Option α) :=
  let span := s.config.velocityScale * i.width
  if 0 < span then Draw.range (-span) span else pure (some 0)

def velocities (s : Swarm α) : Draw γ (Option (List (Vec α))) :=
  Draw.whileSome (fun _ => Draw.whileSome s.velocityIn s.box) (List.range s.config.size)

structure State (α γ : Type) where
  particles : List (Particle α)
  best : Best α
  iteration : Nat
  evaluations : Nat
  values : List α
  log : List (Entry α)
  generator : γ

def State.finish (s : Swarm α) (t : State α γ) (status : Status) : Report α (Vec α) where
  result := t.best.position
  value := s.config.goal.orient t.best.value
  status
  iterations := t.iteration
  evaluations := t.evaluations
  convergence := t.log.reverse

def round (s : Swarm α) (t : State α γ) :
    Traced (Vec α) (State α γ ⊕ Report α (Vec α)) := do
  let c := s.config
  match c.stopping.verdict t.iteration t.values none with
  | some status => pure (.inr (t.finish s status))
  | none =>
    let ((particles, best), generator) ← sweep c s.box s.ranked t.particles t.best t.generator
    let iteration := t.iteration + 1
    pure (.inl
      { particles, best, iteration, generator
        evaluations := t.evaluations + c.size
        values := best.value :: t.values
        log := ⟨iteration, c.goal.orient best.value⟩ :: t.log })

def bestOf (ps : List (Particle α)) : Best α :=
  match ps[bestIndex (ps.map (·.bestValue))]? with
  | some p => ⟨p.bestPosition, p.bestValue⟩
  | none => ⟨[], Scalar.infinity⟩

def initial (s : Swarm α) (positions velocities : List (Vec α)) (g : γ) :
    Traced (Vec α) (State α γ) := do
  let positions := positions.map s.box.clip
  let values ← Traced.forEach (Traced.call s.ranked) positions
  let particles :=
    List.zipWith (fun x p => Particle.start x p.1 p.2) positions (velocities.zip values)
  let best := bestOf particles
  pure ⟨particles, best, 0, s.config.size, [best.value], [], g⟩

def trace (s : Swarm α) (budget : Nat) (positions velocities : List (Vec α)) (g : γ) :
    Traced (Vec α) (Option (Report α (Vec α))) := do
  Traced.iterate s.round budget (← s.initial positions velocities g)

def runWithin (s : Swarm α) (budget : Nat) (g : γ) : Run α (Vec α) (Vec α) :=
  match s.positions.run g with
  | (none, _) => .overflow
  | (some positions, g) =>
    .accepting (s.checkPositions positions) fun _ =>
      match s.velocities.run g with
      | (none, _) => .overflow
      | (some velocities, g) => .ofIteration (s.trace budget positions velocities g)

def runFrom (s : Swarm α) (g : γ) : Run α (Vec α) (Vec α) :=
  s.runWithin s.config.stopping.budget g

def run (s : Swarm α) : Run α (Vec α) (Vec α) :=
  s.runFrom (ChaCha.ofSeed (UInt64.ofNat s.config.seed))

def searchFrom (g : γ) : Action (Swarm α) α (Vec α) (Vec α) (Report α (Vec α)) := do
  let (positions, g) := (← get).setup.positions.run g
  let positions ← .drawn positions
  .accept ((← get).setup.checkPositions positions)
  let (velocities, g) := (← get).setup.velocities.run g
  let velocities ← .drawn velocities
  let s := (← get).setup
  .keep (← .calling (s.trace s.config.stopping.budget positions velocities g))

def search : Action (Swarm α) α (Vec α) (Vec α) (Report α (Vec α)) := do
  searchFrom (ChaCha.ofSeed (UInt64.ofNat (← get).setup.config.seed))

end Swarm

end Optima
