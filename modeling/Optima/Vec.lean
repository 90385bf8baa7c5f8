import Optima.Scalar

namespace Optima

abbrev Vec (α : Type) := List α

namespace Vec

variable {α : Type} [Scalar α]

def zeros (n : Nat) : Vec α := List.replicate n 0

def add (x y : Vec α) : Vec α := List.zipWith (· + ·) x y

def sub (x y : Vec α) : Vec α := List.zipWith (· - ·) x y

def neg (x : Vec α) : Vec α := x.map (- ·)

def scale (x : Vec α) (a : α) : Vec α := x.map (· * a)

def quotient (x : Vec α) (a : α) : Vec α := x.map (· / a)

def along (x d : Vec α) (a : α) : Vec α := add x (scale d a)

def linearCombination (a : α) (x : Vec α) (b : α) (y : Vec α) : Vec α :=
  add (scale x a) (scale y b)

def isZero (x : Vec α) : Bool := x.all (· == 0)

def isFinite (x : Vec α) : Bool := x.all Scalar.isFinite

/-- Sums in eight lanes, one for each position modulo eight, while eight terms remain; then adds
the lanes up in pairs and the remaining terms from left to right. -/
def laneSum (a b c d e f g h : α) : List α → α
  | a' :: b' :: c' :: d' :: e' :: f' :: g' :: h' :: rest =>
    laneSum (a + a') (b + b') (c + c') (d + d') (e + e') (f + f') (g + g') (h + h') rest
  | rest => rest.foldl (· + ·) (0 + (a + e) + (b + f) + (c + g) + (d + h))

def dot (x y : Vec α) : α := laneSum 0 0 0 0 0 0 0 0 (List.zipWith (· * ·) x y)

def norm (x : Vec α) : α := Scalar.sqrt (dot x x)

def centroid (n : Nat) (points : List (Vec α)) : Vec α :=
  let total := points.foldl add (zeros n)
  if points.isEmpty then total else quotient total (Scalar.ofNat points.length)

@[simp] theorem zeros_length (n : Nat) : (zeros n : Vec α).length = n := by simp [zeros]

@[simp] theorem add_length (x y : Vec α) : (add x y).length = min x.length y.length := by
  simp [add]

@[simp] theorem sub_length (x y : Vec α) : (sub x y).length = min x.length y.length := by
  simp [sub]

@[simp] theorem neg_length (x : Vec α) : (neg x).length = x.length := by simp [neg]

@[simp] theorem scale_length (x : Vec α) (a : α) : (scale x a).length = x.length := by simp [scale]

@[simp] theorem quotient_length (x : Vec α) (a : α) : (quotient x a).length = x.length := by
  simp [quotient]

@[simp] theorem along_length (x d : Vec α) (a : α) :
    (along x d a).length = min x.length d.length := by simp [along]

theorem centroid_length {n : Nat} {points : List (Vec α)}
    (h : ∀ x ∈ points, x.length = n) : (centroid n points).length = n := by
  have htotal : ∀ y : Vec α, y.length = n → (points.foldl add y).length = n := by
    induction points with
    | nil => exact fun _ hy => hy
    | cons x points ih =>
      obtain ⟨hx, hpoints⟩ := List.forall_mem_cons.1 h
      intro y hy
      exact ih hpoints _ (by rw [add_length, hy, hx, Nat.min_self])
  have hzeros := htotal (zeros n) (zeros_length n)
  unfold centroid
  dsimp only
  split
  · exact hzeros
  · rw [quotient_length, hzeros]

end Vec

end Optima
