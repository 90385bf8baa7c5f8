import Mathlib.Tactic.Linarith
import Optima.Proofs.Containment
import Optima.Proofs.Scalar.Exact

namespace Optima

open Scalar (greater lesser)

@[simp] theorem Exact.isNaN_eq (a : ℝ) : Scalar.isNaN a = false := rfl

theorem Exact.greater_eq (a b : ℝ) : greater a b = max a b := by
  simp only [greater, Exact.isNaN_eq, Bool.false_eq_true, if_false]
  exact (max_def a b).symm

theorem Exact.lesser_eq (a b : ℝ) : lesser a b = min a b := by
  simp only [lesser, Exact.isNaN_eq, Bool.false_eq_true, if_false]
  rw [min_comm, min_def]

namespace Interval

variable {i : Interval ℝ} {a : ℝ}

theorem clip_eq (i : Interval ℝ) (a : ℝ) : i.clip a = min (max a i.lower) i.upper := by
  rw [clip, Exact.greater_eq, Exact.lesser_eq]

theorem clip_eq_self (h : i.Contains a) : i.clip a = a := by
  rw [clip_eq, max_eq_left h.1, min_eq_left h.2]

theorem clip_of_le (h : i.lower ≤ i.upper) (ha : a ≤ i.lower) : i.clip a = i.lower := by
  rw [clip_eq, max_eq_right ha, min_eq_left h]

theorem clip_of_ge (ha : i.upper ≤ a) : i.clip a = i.upper := by
  rw [clip_eq, min_eq_right (ha.trans (le_max_left a i.lower))]

theorem clip_cases (h : i.lower ≤ i.upper) (a : ℝ) :
    i.clip a = a ∧ i.Contains a ∨ i.clip a = i.lower ∧ a ≤ i.lower ∨
      i.clip a = i.upper ∧ i.upper ≤ a := by
  obtain hl | hl := le_total a i.lower
  · exact .inr (.inl ⟨clip_of_le h hl, hl⟩)
  · obtain hu | hu := le_total i.upper a
    · exact .inr (.inr ⟨clip_of_ge hu, hu⟩)
    · exact .inl ⟨clip_eq_self ⟨hl, hu⟩, hl, hu⟩

end Interval

theorem Box.getElem_clip {α : Type} [Scalar α] (box : Box α) (x : Vec α) {k : ℕ}
    (hk : k < (box.clip x).length) (hb : k < box.length) (hx : k < x.length) :
    (box.clip x)[k] = box[k].clip x[k] := by
  induction box generalizing x k with
  | nil => cases hb
  | cons i box ih =>
    cases x with
    | nil => cases hx
    | cons a x =>
      cases k with
      | zero => rfl
      | succ k =>
        simp only [clip, List.getElem_cons_succ]
        exact ih x _ _ _

theorem Box.Contains.getElem {box : Box ℝ} {x : Vec ℝ} (h : box.Contains x) {k : ℕ}
    (hb : k < box.length) (hx : k < x.length) : box[k].Contains x[k] := by
  induction box generalizing x k with
  | nil => cases hb
  | cons i box ih =>
    cases x with
    | nil => cases hx
    | cons a x =>
      cases k with
      | zero => exact h.1
      | succ k => exact ih h.2 _ _

theorem Box.clip_eq_self {box : Box ℝ} {x : Vec ℝ} (h : box.Contains x) : box.clip x = x := by
  induction box generalizing x with
  | nil => exact clip_nil x
  | cons i box ih =>
    cases x with
    | nil => rfl
    | cons a x => rw [clip, Interval.clip_eq_self h.1, ih h.2]

end Optima
