import Optima.Descent.Step
import Optima.Solver

namespace Optima

structure Descent (α : Type) where
  objective : Objective α
  config : Descent.Config α

namespace Descent

variable {α : Type} [Scalar α]

def check (s : Descent α) : Except (Error α) Unit := do
  s.config.check
  demand (s.config.method != .conjugateGradient || s.objective.hasHessian) .hessianMissing

def checkStart (s : Descent α) (start : Vec α) : Except (Error α) Unit := do
  demand (!start.isEmpty) .emptyStart
  match s.config.bounds with
  | none => pure ()
  | some box => demand (box.length == start.length) (.boundCount start.length box.length)

def gradientNorm (c : Config α) (i : Iterate α) : α :=
  match c.box with
  | some box => Vec.norm (box.clampDirection i.point i.steepest)
  | none => Vec.norm i.gradient

/-- A run under way. Values are oriented, the latest first. -/
structure Trail (α : Type) where
  state : State α
  iteration : Nat
  evaluations : Nat
  values : List α
  log : List (Entry α)

def Trail.verdict (c : Config α) (t : Trail α) : Option Status :=
  let norm := gradientNorm c t.state.iterate
  if Scalar.isFinite norm then c.stopping.verdict t.iteration t.values (some norm)
  else some .diverged

def Trail.extend (c : Config α) (t : Trail α) (s : State α) : Trail α :=
  let iteration := t.iteration + 1
  let value := s.iterate.value
  { state := s, iteration, evaluations := t.evaluations, values := value :: t.values
    log := ⟨iteration, c.goal.orient value⟩ :: t.log }

def round (c : Config α) (o : Objective α) (t : Trail α) :
    Traced (Vec α) (Trail α ⊕ Trail α × Status) := do
  let ((progress, s), evaluations) ← (step c o t.state).metered t.evaluations
  let t := { t with evaluations }
  match progress with
  | .stalled => pure (.inr ({ t with state := s }, .stationaryFunction))
  | .failed status => pure (.inr ({ t with state := s }, status))
  | .moved =>
    let t := t.extend c s
    match t.verdict c with
    | some status => pure (.inr (t, status))
    | none => pure (.inl t)

def Trail.report (c : Config α) (t : Trail α) (status : Status) : Report α (Vec α) where
  result := t.state.iterate.point
  value := c.goal.orient (t.values.headD Scalar.nan)
  status
  iterations := t.log.length
  evaluations := t.evaluations
  convergence := t.log.reverse

def initial (s : Descent α) (start : Vec α) : Traced (Vec α) (Trail α) := do
  let c := s.config
  let o := s.objective.oriented c.goal
  let x := clipTo c.box start
  let value ← Traced.call o.value x
  let (g, evaluations) ←
    if Scalar.isFinite value then ((o.lineFunction c.differenceStep).gradient x value).metered 1
    else pure ([], 1)
  pure ⟨⟨⟨x, value, g⟩, none, Mat.identity x.length⟩, 0, evaluations, [value], []⟩

def trace (s : Descent α) (budget : Nat) (start : Vec α) :
    Traced (Vec α) (Option (Report α (Vec α))) := do
  let c := s.config
  let t ← s.initial start
  if Scalar.isFinite t.state.iterate.value then
    match t.verdict c with
    | some status => pure (some (t.report c status))
    | none =>
      let final ← Traced.iterate (round c (s.objective.oriented c.goal)) budget t
      pure (final.map fun r => r.1.report c r.2)
  else pure (some (t.report c .diverged))

def runWithin (s : Descent α) (budget : Nat) (start : Vec α) : Run α (Vec α) (Vec α) :=
  .accepting (s.checkStart start) fun _ => .ofIteration (s.trace budget start)

def run (s : Descent α) (start : Vec α) : Run α (Vec α) (Vec α) :=
  s.runWithin s.config.stopping.budget start

def descend (start : Vec α) : Action (Descent α) α (Vec α) (Vec α) (Report α (Vec α)) := do
  .accept ((← get).setup.checkStart start)
  let s := (← get).setup
  .keep (← .calling (s.trace s.config.stopping.budget start))

def solver (s : Descent α) : Except (Error α) (Solver (Descent α) α (Vec α)) := do
  s.check
  pure (.new s [])

theorem config_check {s : Descent α} (h : s.check = .ok ()) : s.config.check = .ok () := by
  simp only [check, bind_eq_ok] at h
  obtain ⟨_, hc, -⟩ := h
  exact hc

theorem stopping_check {s : Descent α} (h : s.check = .ok ()) :
    s.config.stopping.check = .ok () :=
  (Config.parts_of_check (config_check h)).2

end Descent

end Optima
