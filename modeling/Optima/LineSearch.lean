import Optima.Difference
import Optima.Error
import Optima.Objective

/-!
The choice of a step along a direction. The function is oriented so that lower is better; a zero
step means that no step was acceptable, and a NaN is never an improvement.
-/

namespace Optima

structure LineFunction (α : Type) where
  value : Vec α → α
  gradient : Vec α → α → Traced (Vec α) (Vec α)

/-- The objective's own gradient where it has one, else forward differences. -/
def Objective.lineFunction {α : Type} [Scalar α] (o : Objective α) (eps : Option α) :
    LineFunction α where
  value := o.value
  gradient x value :=
    match o.gradient x with
    | some g => pure g
    | none => Difference.gradient o.value x value eps

inductive SearchMethod
  | naive | armijo | armijoGoldstein | strongWolfe | lowest
  deriving DecidableEq

structure LineSearch (α : Type) where
  method : SearchMethod
  initialStep : α
  maxStep : Option α
  maxIterations : Nat
  c1 : α
  c2 : α
  deriving DecidableEq

namespace LineSearch

variable {α : Type}

structure Outcome (α : Type) where
  step : α
  point : Vec α
  value : α
  gradient : Option (Vec α)

variable [Scalar α]

def standard : LineSearch α := ⟨.armijo, 1, none, 50, 1e-4, 0.9⟩

def ofMethod (method : SearchMethod) : LineSearch α := { standard with method }

def check (c : LineSearch α) : Except (Error α) Unit := do
  Requirement.positiveFinite.check "Line search initial step" c.initialStep
  match c.maxStep with
  | none => pure ()
  | some m => Requirement.positive.check "Line search max step" m
  demand (c.maxIterations != 0) .noTrialStep
  demand (0 < c.c1 && c.c1 < c.c2 && c.c2 < 1) (.searchConstants c.c1 c.c2)

def limit (c : LineSearch α) (a : α) : α :=
  match c.maxStep with
  | none => Scalar.ranked a
  | some m => Scalar.lesser a m

def atLimit (c : LineSearch α) (a : α) : Bool :=
  match c.maxStep with
  | none => 0 < a && !Scalar.isFinite a
  | some m => m ≤ a

def limitTo (c : LineSearch α) (m : α) : LineSearch α :=
  { c with maxStep := some (c.maxStep.elim m (Scalar.lesser · m)) }

def Outcome.unchanged (x : Vec α) (value : α) : Outcome α := ⟨0, x, value, none⟩

def Outcome.isZero (o : Outcome α) : Bool := o.step == 0

def halving : α := 0.5

def gridFactor : α := 0.8

def backtrack (f : LineFunction α) (x d : Vec α) (value : α) (accept : α → α → Bool) :
    Nat → α → Traced (Vec α) (Outcome α)
  | 0, _ => pure (.unchanged x value)
  | n + 1, step => do
    let point := Vec.along x d step
    let trial ← Traced.call f.value point
    if accept trial step then pure ⟨step, point, trial, none⟩
    else backtrack f x d value accept n (step * halving)

def lowest (f : LineFunction α) (x d : Vec α) :
    Nat → α → Outcome α → Traced (Vec α) (Outcome α)
  | 0, _, best => pure best
  | n + 1, step, best => do
    let point := Vec.along x d step
    let trial ← Traced.call f.value point
    lowest f x d n (step * gridFactor)
      (if trial < best.value then ⟨step, point, trial, none⟩ else best)

structure Bracket (α : Type) where
  lower : α
  upper : Option α
  step : α
  best : Option (Outcome α)

/-- The next trial step: the middle of the bracket, or twice the last step while no step has been
too long. -/
def Bracket.next? (c : LineSearch α) (b : Bracket α) : Option α :=
  match b.upper with
  | some u => some (0.5 * (b.lower + u))
  | none => if c.atLimit b.lower then none else some (c.limit (2 * b.step))

def sufficient (c : LineSearch α) (value slope trial step : α) : Bool :=
  trial ≤ value + c.c1 * step * slope

def flat (c : LineSearch α) (strong : Bool) (slope trialSlope : α) : Bool :=
  if strong then Scalar.abs trialSlope ≤ c.c2 * Scalar.abs slope else c.c2 * slope ≤ trialSlope

def Outcome.orBetter (best : Option (Outcome α)) (o : Outcome α) : Outcome α :=
  match best with
  | none => o
  | some b => if o.value < b.value then o else b

/-- Doubles the step until one is too long, then bisects, until the value has decreased enough
and the slope has flattened; failing that, the best step that decreased the value enough. -/
def wolfe (c : LineSearch α) (strong : Bool) (f : LineFunction α) (x d : Vec α)
    (value slope : α) : Nat → Bracket α → Traced (Vec α) (Outcome α)
  | 0, b => pure (b.best.getD (.unchanged x value))
  | n + 1, b => do
    let point := Vec.along x d b.step
    let trial ← Traced.call f.value point
    if c.sufficient value slope trial b.step then
      let g ← f.gradient point trial
      let trialSlope := Vec.dot g d
      let outcome : Outcome α := ⟨b.step, point, trial, some g⟩
      if c.flat strong slope trialSlope then pure outcome
      else
        let best := some (Outcome.orBetter b.best outcome)
        let b :=
          if strong && 0 < trialSlope then { b with upper := Scalar.finite? b.step, best }
          else { b with lower := b.step, best }
        match b.next? c with
        | none => pure (b.best.getD (.unchanged x value))
        | some step => wolfe c strong f x d value slope n { b with step }
    else
      let b := { b with upper := Scalar.finite? b.step }
      match b.next? c with
      | none => pure (b.best.getD (.unchanged x value))
      | some step => wolfe c strong f x d value slope n { b with step }

def search (c : LineSearch α) (f : LineFunction α) (x d : Vec α) (value : α) (g : Vec α) :
    Traced (Vec α) (Outcome α) :=
  let first := c.limit c.initialStep
  let slope := Vec.dot g d
  if Vec.isZero d then pure (.unchanged x value)
  else
    match c.method with
    | .naive => backtrack f x d value (fun trial _ => trial < value) c.maxIterations first
    | .armijo =>
      if slope < 0 then backtrack f x d value (c.sufficient value slope) c.maxIterations first
      else pure (.unchanged x value)
    | .armijoGoldstein =>
      if slope < 0 then
        wolfe c false f x d value slope c.maxIterations ⟨0, none, first, none⟩
      else pure (.unchanged x value)
    | .strongWolfe =>
      if slope < 0 then
        wolfe c true f x d value slope c.maxIterations ⟨0, none, first, none⟩
      else pure (.unchanged x value)
    | .lowest => lowest f x d c.maxIterations first (.unchanged x value)

end LineSearch

end Optima
