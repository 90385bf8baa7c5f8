import Optima.Error
import Optima.Vec

namespace Optima

structure Interval (α : Type) where
  lower : α
  upper : α
  deriving DecidableEq

abbrev Box (α : Type) := List (Interval α)

variable {α : Type} [Scalar α]

namespace Interval

def width (i : Interval α) : α := i.upper - i.lower

def clip (i : Interval α) (a : α) : α := Scalar.lesser (Scalar.greater a i.lower) i.upper

def Contains (i : Interval α) (a : α) : Prop := i.lower ≤ a ∧ a ≤ i.upper

def shift (i : Interval α) (a : α) : Interval α := ⟨i.lower - a, i.upper - a⟩

def check (k : Nat) (i : Interval α) : Except (Error α) Unit := do
  demand (Scalar.isFinite i.lower && Scalar.isFinite i.upper) (.boundNotFinite k i.lower i.upper)
  demand (!(i.upper < i.lower : Bool)) (.boundReversed k i.lower i.upper)

end Interval

namespace Box

def checkFrom : Nat → Box α → Except (Error α) Unit
  | _, [] => .ok ()
  | k, i :: box => do
    i.check k
    checkFrom (k + 1) box

def check (box : Box α) : Except (Error α) Unit := do
  demand (!box.isEmpty) .noBound
  checkFrom 0 box

def clip : Box α → Vec α → Vec α
  | i :: box, a :: x => i.clip a :: clip box x
  | _, x => x

def clampDirection : Box α → Vec α → Vec α → Vec α
  | i :: box, a :: x, c :: d => (i.shift a).clip c :: clampDirection box x d
  | _, _, d => d

def Contains : Box α → Vec α → Prop
  | [], [] => True
  | i :: box, a :: x => i.Contains a ∧ Contains box x
  | _, _ => False

theorem checkFrom_eq_ok (k : Nat) (box : Box α) :
    checkFrom k box = .ok () ↔
      ∀ i ∈ box, Scalar.isFinite i.lower ∧ Scalar.isFinite i.upper ∧ ¬ i.upper < i.lower := by
  induction box generalizing k with
  | nil => simp [checkFrom]
  | cons i box ih =>
    have first : checkFrom k (i :: box) = i.check k >>= fun _ => checkFrom (k + 1) box := rfl
    rw [first, Interval.check, bind_assoc]
    simp [ih, and_assoc]

@[simp] theorem check_eq_ok (box : Box α) :
    box.check = .ok () ↔
      box ≠ [] ∧
        ∀ i ∈ box, Scalar.isFinite i.lower ∧ Scalar.isFinite i.upper ∧ ¬ i.upper < i.lower := by
  cases box <;> simp [check, checkFrom_eq_ok]

@[simp] theorem clip_nil (x : Vec α) : clip ([] : Box α) x = x := by cases x <;> rfl

@[simp] theorem clip_length (box : Box α) (x : Vec α) : (box.clip x).length = x.length := by
  induction box generalizing x with
  | nil => simp
  | cons i box ih => cases x <;> simp [clip, ih]

@[simp] theorem clampDirection_length (box : Box α) (x d : Vec α) :
    (box.clampDirection x d).length = d.length := by
  induction box generalizing x d with
  | nil => simp [clampDirection]
  | cons i box ih => cases x <;> cases d <;> simp [clampDirection, ih]

end Box

end Optima
