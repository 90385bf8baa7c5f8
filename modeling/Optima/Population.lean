import Optima.Scalar

namespace Optima

variable {α : Type} [Scalar α]

/-- Strictly better: lower, or a number where the other is none. -/
def beats (candidate incumbent : α) : Bool :=
  candidate < incumbent || (Scalar.isNaN incumbent && !Scalar.isNaN candidate)

def compareRanked (p q : α × Nat) : Ordering :=
  if beats p.1 q.1 then .lt else if beats q.1 p.1 then .gt else compare p.2 q.2

def firstRanked (p q : α × Nat) : α × Nat := if compareRanked q p = .lt then q else p

def bestIndex (values : List α) : Nat :=
  match values.zipIdx with
  | [] => 0
  | p :: ps => (ps.foldl firstRanked p).2

end Optima
