import Optima.Objective

namespace Optima

inductive UnaryOp
  | neg | sqrt | abs | floor | wave
  deriving DecidableEq

inductive BinaryOp
  | add | sub | mul | div | min | max
  deriving DecidableEq

inductive Formula
  | const (a : Float)
  | coordinate (i : Nat)
  | unary (op : UnaryOp) (a : Formula)
  | binary (op : BinaryOp) (a b : Formula)
  | power (a : Formula) (k : Nat)
  | ifLess (a b c d : Formula)

def UnaryOp.waveAt (a : Float) : Float :=
  let t := a - a.floor
  1 - 8 * t * (1 - t)

def UnaryOp.eval : UnaryOp → Float → Float
  | .neg, a => -a
  | .sqrt, a => a.sqrt
  | .abs, a => a.abs
  | .floor, a => a.floor
  | .wave, a => waveAt a

def BinaryOp.eval : BinaryOp → Float → Float → Float
  | .add, a, b => a + b
  | .sub, a, b => a - b
  | .mul, a, b => a * b
  | .div, a, b => a / b
  | .min, a, b => if b < a then b else a
  | .max, a, b => if a < b then b else a

def powerOf (a : Float) (k : Nat) : Float := k.repeat (· * a) 1

namespace Formula

def eval (x : Vec Float) : Formula → Float
  | const a => a
  | coordinate i => x.getD i 0
  | unary op a => op.eval (a.eval x)
  | binary op a b => op.eval (a.eval x) (b.eval x)
  | power a k => powerOf (a.eval x) k
  | ifLess a b c d => if a.eval x < b.eval x then c.eval x else d.eval x

def chain (op : BinaryOp) : Formula → List Formula → Formula := List.foldl (binary op)

def line (e : Formula) (a : Float) : Float := e.eval [a]

end Formula

structure FormulaObjective where
  value : Formula
  gradient : Option (List Formula)
  hessian : Option (List (List Formula))
  claimsHessian : Bool

def FormulaObjective.toObjective (o : FormulaObjective) : Objective Float where
  value := o.value.eval
  gradient x := o.gradient.map (·.map (·.eval x))
  hessian x := o.hessian.map (·.map (·.map (·.eval x)))
  hasGradient := o.gradient.isSome
  hasHessian := o.hessian.isSome || o.claimsHessian

end Optima
