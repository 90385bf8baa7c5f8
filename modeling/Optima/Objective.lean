import Optima.Goal
import Optima.Mat

namespace Optima

structure Objective (α : Type) where
  value : Vec α → α
  gradient : Vec α → Option (Vec α) := fun _ => none
  hessian : Vec α → Option (Mat α) := fun _ => none
  hasGradient : Bool := false
  hasHessian : Bool := false

namespace Objective

variable {α : Type}

def ofValue (f : Vec α → α) : Objective α := { value := f }

def withGradient (f : Vec α → α) (g : Vec α → Vec α) : Objective α :=
  { value := f, gradient := fun x => some (g x), hasGradient := true }

def withHessian (f : Vec α → α) (g : Vec α → Vec α) (h : Vec α → Mat α) : Objective α :=
  { withGradient f g with hessian := fun x => some (h x), hasHessian := true }

def oriented [Scalar α] (o : Objective α) (goal : Goal) : Objective α :=
  { o with
    value := fun x => goal.orient (o.value x)
    gradient := fun x => (o.gradient x).map goal.orientVec
    hessian := fun x => (o.hessian x).map (·.map goal.orientVec) }

def neg [Scalar α] (o : Objective α) : Objective α :=
  { o with
    value := fun x => -o.value x
    gradient := fun x => (o.gradient x).map Vec.neg
    hessian := fun x => (o.hessian x).map Mat.neg }

theorem oriented_maximize [Scalar α] (o : Objective α) :
    o.oriented .maximize = o.neg.oriented .minimize := by
  have vec : (fun x : Vec α => Goal.minimize.orientVec x) = id := by funext x; simp
  simp only [oriented, neg, Goal.orient_maximize, Goal.orient_minimize, Option.map_map]
  congr 1
  · funext x; cases o.gradient x <;> simp [Goal.orientVec, Vec.neg]
  · funext x
    cases o.hessian x <;> simp [Mat.neg, Goal.orientVec, Vec.neg]

end Objective

end Optima
