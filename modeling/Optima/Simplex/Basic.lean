import Optima.Box
import Optima.Traced

namespace Optima

structure Vertex (α : Type) where
  point : Vec α
  value : α

/-- The vertices of a simplex. Once it is sorted, the first is the best and the last the worst. -/
structure Simplex (α : Type) where
  best : Vertex α
  inner : List (Vertex α)
  worst : Vertex α

namespace Simplex

variable {α : Type}

def vertices (s : Simplex α) : List (Vertex α) := s.best :: (s.inner ++ [s.worst])

def base (s : Simplex α) : List (Vertex α) := s.best :: s.inner

def ofList? : List (Vertex α) → Option (Simplex α)
  | v :: w :: vs =>
    match ofList? (w :: vs) with
    | some s => some ⟨v, s.best :: s.inner, s.worst⟩
    | none => some ⟨v, [], w⟩
  | _ => none

def secondWorst (s : Simplex α) : Vertex α := s.inner.getLastD s.best

variable [Scalar α]

def insertInner (v : Vertex α) : List (Vertex α) → List (Vertex α)
  | [] => [v]
  | w :: ws => if v.value < w.value then v :: w :: ws else w :: insertInner v ws

def insert (s : Simplex α) (v : Vertex α) : Simplex α :=
  if v.value < s.best.value then ⟨v, s.best :: s.inner, s.worst⟩
  else if v.value < s.worst.value then ⟨s.best, insertInner v s.inner, s.worst⟩
  else ⟨s.best, s.inner ++ [s.worst], v⟩

def pair (v w : Vertex α) : Simplex α :=
  if w.value < v.value then ⟨w, [], v⟩ else ⟨v, [], w⟩

def sort (s : Simplex α) : Simplex α :=
  match s.inner with
  | [] => pair s.best s.worst
  | v :: vs => (vs ++ [s.worst]).foldl insert (pair s.best v)

omit [Scalar α] in
@[simp] theorem vertices_length (s : Simplex α) : s.vertices.length = s.inner.length + 2 := by
  simp [vertices]

@[simp] theorem pair_inner (v w : Vertex α) : (pair v w).inner = [] := by
  unfold pair; split <;> rfl

@[simp] theorem insertInner_length (v : Vertex α) (ws : List (Vertex α)) :
    (insertInner v ws).length = ws.length + 1 := by
  induction ws with
  | nil => rfl
  | cons w ws ih => unfold insertInner; split <;> simp [ih]

@[simp] theorem insert_inner_length (s : Simplex α) (v : Vertex α) :
    (s.insert v).inner.length = s.inner.length + 1 := by
  unfold insert
  split
  · simp
  · split <;> simp

@[simp] theorem foldl_insert_inner_length (vs : List (Vertex α)) (s : Simplex α) :
    (vs.foldl insert s).inner.length = s.inner.length + vs.length := by
  induction vs generalizing s with
  | nil => rfl
  | cons v vs ih => rw [List.foldl_cons, ih]; simp; omega

@[simp] theorem sort_inner_length (s : Simplex α) : s.sort.inner.length = s.inner.length := by
  unfold sort
  split
  · next h => simp [h]
  · next h => rw [foldl_insert_inner_length]; simp [h]

end Simplex

end Optima
