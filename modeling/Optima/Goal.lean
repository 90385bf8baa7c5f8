import Optima.Vec

namespace Optima

inductive Goal
  | minimize | maximize
  deriving DecidableEq

namespace Goal

variable {α : Type} [Scalar α]

def sign : Goal → α
  | .minimize => -1
  | .maximize => 1

def orient : Goal → α → α
  | .minimize, a => a
  | .maximize, a => -a

def orientVec (g : Goal) (x : Vec α) : Vec α := x.map g.orient

def improves (g : Goal) (candidate incumbent : α) : Bool :=
  g.orient candidate < g.orient incumbent

@[simp] theorem orient_minimize (a : α) : Goal.minimize.orient a = a := rfl

@[simp] theorem orient_maximize (a : α) : Goal.maximize.orient a = -a := rfl

@[simp] theorem orientVec_minimize (x : Vec α) : Goal.minimize.orientVec x = x := by
  show x.map id = x
  simp

@[simp] theorem orientVec_length (g : Goal) (x : Vec α) : (g.orientVec x).length = x.length := by
  simp [orientVec]

end Goal

end Optima
