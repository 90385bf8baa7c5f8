import Optima.Descent.Config
import Optima.Descent.Secant
import Optima.Mat.Inverse

namespace Optima.Descent

variable {α : Type}

structure Iterate (α : Type) where
  point : Vec α
  value : α
  gradient : Vec α

structure State (α : Type) where
  iterate : Iterate α
  direction : Option (Vec α)
  curvature : Mat α

inductive Progress
  | moved
  | stalled
  | failed (status : Status)
  deriving DecidableEq

variable [Scalar α]

def clipTo (box : Option (Box α)) (x : Vec α) : Vec α := box.elim x (·.clip x)

def constrainTo (box : Option (Box α)) (x d : Vec α) : Vec α :=
  box.elim d (·.clampDirection x d)

def arrive (f : LineFunction α) (box : Option (Box α)) (o : LineSearch.Outcome α) :
    Traced (Vec α) (Iterate α) := do
  let x := clipTo box o.point
  match o.gradient with
  | some g => pure ⟨x, o.value, g⟩
  | none =>
    let g ← f.gradient x o.value
    pure ⟨x, o.value, g⟩

def Iterate.search (i : Iterate α) (c : LineSearch α) (f : LineFunction α) (d : Vec α) :
    Traced (Vec α) (LineSearch.Outcome α) :=
  c.search f i.point d i.value i.gradient

def Iterate.steepest (i : Iterate α) : Vec α := Vec.neg i.gradient

def Iterate.descends (i : Iterate α) (d : Vec α) : Bool := Vec.dot d i.gradient < 0

/-- The direction of a momentum step: the steepest one, mixed with the direction before unless
that would not descend. -/
def momentumDirection (c : Config α) (s : State α) : Vec α :=
  let i := s.iterate
  let steepest := constrainTo c.box i.point i.steepest
  let mixed :=
    match s.direction with
    | some previous =>
      if 0 < c.momentum then
        constrainTo c.box i.point (Vec.sub (Vec.scale previous c.momentum) i.gradient)
      else steepest
    | none => steepest
  if i.descends mixed then mixed else steepest

def momentumStep (c : Config α) (f : LineFunction α) (s : State α) :
    Traced (Vec α) (Progress × State α) := do
  let d := momentumDirection c s
  let o ← s.iterate.search c.search f d
  if o.isZero then pure (.stalled, s)
  else
    let i ← arrive f c.box o
    pure (.moved, { s with iterate := i, direction := some d })

def afterStep (s : State α) (curvature : Mat α) (i : Iterate α) : State α :=
  let step := Vec.sub i.point s.iterate.point
  let change := Vec.sub i.gradient s.iterate.gradient
  { s with iterate := i, curvature := (secantUpdate curvature step change).getD curvature }

def quasiNewton (s : State α) : Option (Vec α) :=
  (Mat.inverse? s.curvature).map fun inverse => Vec.neg (Mat.mulVec inverse s.iterate.gradient)

/-- A quasi-Newton step. The curvature is forgotten when its direction does not descend, or when
no step along it is acceptable; steepest descent is tried then. -/
def bfgsStep (c : Config α) (f : LineFunction α) (s : State α) :
    Traced (Vec α) (Progress × State α) := do
  let i := s.iterate
  let fresh := Mat.identity i.point.length
  match quasiNewton s with
  | none => pure (.failed .badFunction, s)
  | some d =>
    let newton := i.descends d
    let o ← i.search c.search f (if newton then d else i.steepest)
    if o.isZero && newton then
      let o ← i.search c.search f i.steepest
      if o.isZero then pure (.stalled, { s with curvature := fresh })
      else
        let j ← arrive f c.box o
        pure (.moved, afterStep s fresh j)
    else if o.isZero then pure (.stalled, { s with curvature := fresh })
    else
      let j ← arrive f c.box o
      pure (.moved, afterStep s (if newton then s.curvature else fresh) j)

/-- Conjugate steps, at most as many as there are coordinates, each to the minimum of the
quadratic model along its direction. A direction of negative curvature is searched instead, and
the directions start anew after it. -/
def sweep (c : Config α) (f : LineFunction α) (hessian : Vec α → Option (Mat α)) (s : State α) :
    Nat → Iterate α → Vec α → Bool → Traced (Vec α) (Progress × State α)
  | 0, i, _, moved => pure (if moved then .moved else .stalled, { s with iterate := i })
  | n + 1, i, d, moved => do
    let stop := (if moved then Progress.moved else .stalled, { s with iterate := i })
    if Vec.isZero d then pure stop
    else
      match hessian i.point with
      | none => pure (.failed .badFunction, { s with iterate := i })
      | some h =>
        let curvature := Mat.quadraticForm d h d
        if Scalar.abs curvature ≤ Scalar.epsilon * (Vec.dot d d * Mat.magnitude h) then
          pure (.failed .badFunction, { s with iterate := i })
        else if curvature < 0 then
          let o ← i.search c.search f d
          if o.isZero then pure stop
          else
            let j ← arrive f c.box o
            sweep c f hessian s n j j.steepest true
        else
          let step := -(Vec.dot d i.gradient) / curvature
          let x := Vec.along i.point d step
          let value ← Traced.call f.value x
          let g ← f.gradient x value
          let beta := Mat.quadraticForm g h d / curvature
          let j : Iterate α := ⟨x, value, g⟩
          if Scalar.isFinite value then
            sweep c f hessian s n j (Vec.sub (Vec.scale d beta) g) true
          else pure (.moved, { s with iterate := j })

def conjugateStep (c : Config α) (f : LineFunction α) (hessian : Vec α → Option (Mat α))
    (s : State α) : Traced (Vec α) (Progress × State α) :=
  sweep c f hessian s s.iterate.point.length s.iterate s.iterate.steepest false

def step (c : Config α) (o : Objective α) (s : State α) : Traced (Vec α) (Progress × State α) :=
  let f := o.lineFunction c.differenceStep
  match c.method with
  | .momentum | .boxConstrained => momentumStep c f s
  | .bfgs => bfgsStep c f s
  | .conjugateGradient => conjugateStep c f o.hessian s

end Optima.Descent
