import Optima.Traced
import Optima.Vec

namespace Optima.Difference

variable {α : Type} [Scalar α]

def forwardStep : α := 1.49e-8

def centralStep : α := 6.06e-6

def stepAt (a eps : α) : α := if 1 < Scalar.abs a then Scalar.abs a * eps else eps

def partialAt (f : Vec α → α) (x : Vec α) (value eps : α) (j : Nat) : Traced (Vec α) α := do
  let step := stepAt (x.getD j 0) eps
  let y ← Traced.call f (x.modify j (· + step))
  pure ((y - value) / step)

def gradient (f : Vec α → α) (x : Vec α) (value : α) (eps : Option α) : Traced (Vec α) (Vec α) :=
  Traced.forEach (partialAt f x value (eps.getD forwardStep)) (List.range x.length)

def derivative (f : α → α) (x : α) (eps : Option α) : Traced α α := do
  let step := stepAt x (eps.getD centralStep)
  let above ← Traced.call f (x + step)
  let below ← Traced.call f (x - step)
  pure ((above - below) / (2 * step))

@[simp] theorem calls_gradient_length (f : Vec α → α) (x : Vec α) (value : α) (eps : Option α) :
    (gradient f x value eps).calls.length = x.length := by
  simp [gradient, partialAt, List.length_flatMap, List.map_const']

@[simp] theorem gradient_length (f : Vec α → α) (x : Vec α) (value : α) (eps : Option α) :
    (gradient f x value eps).value.length = x.length := by simp [gradient]

@[simp] theorem calls_derivative_length (f : α → α) (x : α) (eps : Option α) :
    (derivative f x eps).calls.length = 2 := rfl

end Optima.Difference
