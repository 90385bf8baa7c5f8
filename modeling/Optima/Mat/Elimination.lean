import Optima.Mat

/-!
The inverse of a square matrix by elimination with partial pivoting. The rows that remain are
carried as a list, each with the multipliers already taken off it and with its row of the
permuted identity, so that an exchange of two rows moves all three together.
-/

namespace Optima.Mat

variable {α : Type} [Scalar α]

structure Pending (α : Type) where
  multipliers : Vec α
  rest : Vec α
  image : Vec α

def Pending.head (r : Pending α) : α := r.rest.headD 0

def pivotIndex : α → Nat → Nat → List (Pending α) → Nat
  | _, best, _, [] => best
  | top, best, i, r :: rs =>
    if top < Scalar.abs r.head then pivotIndex (Scalar.abs r.head) i (i + 1) rs
    else pivotIndex top best (i + 1) rs

def bringPivot (r : Pending α) (rs : List (Pending α)) : Pending α × List (Pending α) :=
  match pivotIndex (Scalar.abs r.head) 0 1 rs with
  | 0 => (r, rs)
  | k + 1 => (rs.getD k r, rs.set k r)

def Pending.reduce (inverse : α) (tail : Vec α) (r : Pending α) : Pending α :=
  match r.rest with
  | [] => r
  | h :: t =>
    let m := h * inverse
    ⟨m :: r.multipliers, List.zipWith (fun u v => -u * m + v) tail t, r.image⟩

/-- Eliminates column after column; `none` when a pivot is zero. -/
def eliminate : Nat → List (Pending α) → Option (List (Pending α))
  | 0, rows => some rows
  | _ + 1, [] => some []
  | n + 1, r :: rs =>
    let (pivot, below) := bringPivot r rs
    if pivot.head == 0 then none
    else
      (eliminate n (below.map (Pending.reduce (1 / pivot.head) pivot.rest.tail))).map (pivot :: ·)

def takeOff (c : α) (v w : Vec α) : Vec α := List.zipWith (fun a b => -a * c + b) v w

def solveLower : List (Vec α) → List (Pending α) → List (Pending α)
  | _, [] => []
  | solved, r :: rs =>
    let image := (List.zip r.multipliers solved).foldr (fun mv w => takeOff mv.1 mv.2 w) r.image
    { r with image } :: solveLower (image :: solved) rs

def solveUpper : List (Pending α) → Option (List (Vec α))
  | [] => some []
  | r :: rs => do
    let solved ← solveUpper rs
    if r.head == 0 then none
    else
      let image :=
        (List.zip r.rest.tail solved).foldr (fun uv w => takeOff uv.1 uv.2 w) r.image
      some (Vec.quotient image r.head :: solved)

def eliminationInverse (a : Mat α) : Option (Mat α) := do
  let rows := List.zipWith (fun row unit => ⟨[], row, unit⟩) a (identity a.length)
  solveUpper (solveLower [] (← eliminate a.length rows))

end Optima.Mat
