import Optima.Objective
import Optima.Random.Uniform
import Optima.Simplex.Step
import Optima.Solver

namespace Optima

structure SimplexSearch (α : Type) where
  objective : Objective α
  box : Box α
  config : Simplex.Config α

namespace SimplexSearch

variable {α : Type} [Scalar α]

open Simplex (evaluate)

def check (s : SimplexSearch α) : Except (Error α) Unit := do
  s.box.check
  s.config.check

def solver (s : SimplexSearch α) : Except (Error α) (Solver (SimplexSearch α) α (Vec α)) := do
  s.check
  pure (.new s [])

def ranked (s : SimplexSearch α) (x : Vec α) : α :=
  Scalar.ranked (s.config.goal.orient (s.objective.value x))

structure State (α : Type) where
  simplex : Simplex α
  iteration : Nat
  evaluations : Nat
  log : List (Entry α)

def State.finish (s : SimplexSearch α) (t : State α) (status : Status) : Report α (Vec α) where
  result := t.simplex.best.point
  value := s.config.goal.orient t.simplex.best.value
  status
  iterations := t.iteration
  evaluations := t.evaluations
  convergence := t.log.reverse

def round (s : SimplexSearch α) (t : State α) :
    Traced (Vec α) (State α ⊕ Report α (Vec α)) := do
  let c := s.config
  let t := { t with simplex := t.simplex.sort }
  if Scalar.isFinite t.simplex.best.value then
    let center := Vec.centroid s.box.length (t.simplex.base.map (·.point))
    let value ← Traced.call s.ranked center
    let t := { t with evaluations := t.evaluations + 1 }
    if Scalar.abs (value - t.simplex.best.value) < c.tolerance then
      pure (.inr (t.finish s .normal))
    else if c.stopping.capReached t.iteration then
      pure (.inr (t.finish s .iterationExceeded))
    else
      let (simplex, calls) ← Simplex.step c s.box s.ranked t.simplex center
      let iteration := t.iteration + 1
      let best := least (simplex.vertices.map (·.value))
      pure (.inl
        ⟨simplex, iteration, t.evaluations + calls,
          ⟨iteration, c.goal.orient best⟩ :: t.log⟩)
  else pure (.inr (t.finish s .diverged))

def initial (s : SimplexSearch α) (points : List (Vec α)) :
    Traced (Vec α) (Option (State α)) := do
  let vertices ← Traced.forEach (fun x => evaluate s.ranked (s.box.clip x)) points
  pure ((Simplex.ofList? vertices).map fun simplex => ⟨simplex, 0, vertices.length, []⟩)

def trace (s : SimplexSearch α) (budget : Nat) (points : List (Vec α)) :
    Traced (Vec α) (Option (Report α (Vec α))) := do
  match ← s.initial points with
  | none => pure none
  | some t => Traced.iterate s.round budget t

def checkPoints (s : SimplexSearch α) (points : List (Vec α)) : Except (Error α) Unit := do
  let n := s.box.length
  demand (points.length == n + 1) (.vertexCount n points.length)
  match points.find? fun x => x.length != n with
  | some x => .error (.vertexDimension n x.length)
  | none => pure ()

/-- The corners around a start point: one coordinate each moved by a part of the width of the
box, downwards when there is no room above. -/
def axisPoints (s : SimplexSearch α) (start : Vec α) : List (Vec α) :=
  let origin := s.box.clip start
  let corner (p : Interval α × Nat) : Vec α :=
    origin.modify p.2 fun a =>
      let step := s.config.initialStep * p.1.width
      if a + step ≤ p.1.upper then a + step else a - step
  origin :: s.box.zipIdx.map corner

def runPointsWithin (s : SimplexSearch α) (budget : Nat) (points : List (Vec α)) :
    Run α (Vec α) (Vec α) :=
  .accepting (s.checkPoints points) fun _ => .ofIteration (s.trace budget points)

def runStartWithin (s : SimplexSearch α) (budget : Nat) (start : Vec α) : Run α (Vec α) (Vec α) :=
  let n := s.box.length
  .accepting (demand (start.length == n) (.startDimension n start.length)) fun _ =>
    .ofIteration (s.trace budget (s.axisPoints start))

def runRandomWithin {γ : Type} [WordSource γ] (s : SimplexSearch α) (budget : Nat) (g : γ) :
    Run α (Vec α) (Vec α) :=
  match ((Draw.points s.box (s.box.length + 1)).run g).1 with
  | some points => .ofIteration (s.trace budget points)
  | none => .overflow

def runPoints (s : SimplexSearch α) (points : List (Vec α)) : Run α (Vec α) (Vec α) :=
  s.runPointsWithin s.config.stopping.budget points

def runWith (s : SimplexSearch α) (generator : Nat → List (Vec α)) : Run α (Vec α) (Vec α) :=
  s.runPoints (generator (s.box.length + 1))

def runStart (s : SimplexSearch α) (start : Vec α) : Run α (Vec α) (Vec α) :=
  s.runStartWithin s.config.stopping.budget start

def runRandom {γ : Type} [WordSource γ] (s : SimplexSearch α) (g : γ) : Run α (Vec α) (Vec α) :=
  s.runRandomWithin s.config.stopping.budget g

def search (points : List (Vec α)) :
    Action (SimplexSearch α) α (Vec α) (Vec α) (Report α (Vec α)) := do
  let s := (← get).setup
  .keep (← .calling (s.trace s.config.stopping.budget points))

def searchPoints (points : List (Vec α)) :
    Action (SimplexSearch α) α (Vec α) (Vec α) (Report α (Vec α)) := do
  .accept ((← get).setup.checkPoints points)
  search points

def searchWith (generator : Nat → List (Vec α)) :
    Action (SimplexSearch α) α (Vec α) (Vec α) (Report α (Vec α)) := do
  searchPoints (generator ((← get).setup.box.length + 1))

def searchStart (start : Vec α) :
    Action (SimplexSearch α) α (Vec α) (Vec α) (Report α (Vec α)) := do
  let n := (← get).setup.box.length
  .accept (demand (start.length == n) (.startDimension n start.length))
  search ((← get).setup.axisPoints start)

def searchRandom {γ : Type} [WordSource γ] (g : γ) :
    Action (SimplexSearch α) α (Vec α) (Vec α) (Report α (Vec α)) := do
  let box := (← get).setup.box
  search (← .drawn ((Draw.points box (box.length + 1)).run g).1)

end SimplexSearch

end Optima
