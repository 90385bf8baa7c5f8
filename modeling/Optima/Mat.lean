import Optima.Vec

namespace Optima

abbrev Mat (α : Type) := List (Vec α)

namespace Mat

variable {α : Type} [Scalar α]

def cols : Mat α → Nat
  | [] => 0
  | row :: _ => row.length

def identity (n : Nat) : Mat α :=
  (List.range n).map fun i => (List.range n).map fun j => if i = j then 1 else 0

def add (a b : Mat α) : Mat α := List.zipWith Vec.add a b

def sub (a b : Mat α) : Mat α := List.zipWith Vec.sub a b

def neg (a : Mat α) : Mat α := a.map Vec.neg

def quotient (a : Mat α) (c : α) : Mat α := a.map (Vec.quotient · c)

def mulVec (a : Mat α) (x : Vec α) : Vec α := a.map (Vec.dot · x)

def quadraticForm (x : Vec α) (a : Mat α) (y : Vec α) : α := Vec.dot x (mulVec a y)

def outer (x y : Vec α) : Mat α := x.map fun a => y.map (a * ·)

def magnitude (a : Mat α) : α :=
  a.flatten.foldl (fun m v => Scalar.greater m (Scalar.abs v)) 0

@[simp] theorem mulVec_length (a : Mat α) (x : Vec α) : (mulVec a x).length = a.length := by
  simp [mulVec]

@[simp] theorem identity_length (n : Nat) : (identity n : Mat α).length = n := by simp [identity]

@[simp] theorem outer_length (x y : Vec α) : (outer x y).length = x.length := by simp [outer]

end Mat

end Optima
