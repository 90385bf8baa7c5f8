import Optima.Simplex.Basic
import Optima.Simplex.Config

namespace Optima.Simplex

variable {α : Type} [Scalar α]

def toward (box : Box α) (center : Vec α) (coefficient : α) (x : Vec α) : Vec α :=
  box.clip (Vec.linearCombination (1 - coefficient) center coefficient x)

def evaluate (f : Vec α → α) (x : Vec α) : Traced (Vec α) (Vertex α) := do
  let value ← Traced.call f x
  pure ⟨x, value⟩

def shrinkTowardBest (c : Config α) (box : Box α) (f : Vec α → α) (s : Simplex α) :
    Traced (Vec α) (Simplex α) := do
  let move (v : Vertex α) := evaluate f (toward box s.best.point c.shrink v.point)
  let inner ← Traced.forEach move s.inner
  let worst ← move s.worst
  pure ⟨s.best, inner, worst⟩

def step (c : Config α) (box : Box α) (f : Vec α → α) (s : Simplex α) (center : Vec α) :
    Traced (Vec α) (Simplex α × Nat) := do
  let reflected ← evaluate f (toward box center (-c.reflection) s.worst.point)
  if reflected.value < s.best.value then
    let expanded ← evaluate f (toward box center c.expansion reflected.point)
    let winner := if expanded.value < reflected.value then expanded else reflected
    pure ({ s with worst := winner }, 2)
  else if reflected.value < s.secondWorst.value then
    pure ({ s with worst := reflected }, 1)
  else
    let contracted ← evaluate f (toward box center c.contraction s.worst.point)
    if contracted.value < s.worst.value then
      pure ({ s with worst := contracted }, 2)
    else
      let s ← shrinkTowardBest c box f s
      pure (s, 2 + box.length)

end Optima.Simplex
