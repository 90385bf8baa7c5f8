import Optima.Box
import Optima.Proofs.Scalar.Lawful

namespace Optima

open Scalar (Lawful isNaN greater lesser)

variable {α : Type} [Scalar α] [Lawful α]

theorem Scalar.le_greater {b : α} (hb : isNaN b = false) (a : α) :
    b ≤ greater a b ∧ isNaN (greater a b) = false := by
  cases ha : isNaN a with
  | true => simp [greater, ha, hb, Lawful.le_refl hb]
  | false =>
    by_cases h : a ≤ b
    · simp [greater, ha, h, hb, Lawful.le_refl hb]
    · simp [greater, ha, h, (Lawful.le_total ha hb).resolve_left h]

omit [Lawful α] in
theorem Scalar.greater_cases {a : α} (ha : isNaN a = false) (b : α) :
    greater a b = a ∨ greater a b = b ∧ a ≤ b := by
  rw [greater, ha, if_neg Bool.false_ne_true]
  split
  · next hle => exact .inr ⟨rfl, hle⟩
  · exact .inl rfl

omit [Lawful α] in
theorem Scalar.lesser_cases {a : α} (ha : isNaN a = false) (b : α) :
    lesser a b = a ∨ lesser a b = b ∧ b ≤ a := by
  rw [lesser, ha, if_neg Bool.false_ne_true]
  split
  · next hle => exact .inr ⟨rfl, hle⟩
  · exact .inl rfl

theorem Interval.clip_eq_or_bound {i : Interval α} {a : α} (h : i.Contains a) :
    i.clip a = a ∨ ∃ b ∈ [i.lower, i.upper], i.clip a = b ∧ a ≤ b ∧ b ≤ a := by
  obtain ⟨hl, hu⟩ := h
  obtain ⟨hnl, hna⟩ := Lawful.isNaN_of_le hl
  obtain hg | ⟨hg, hal⟩ := Scalar.greater_cases hna i.lower
  · rw [clip, hg]
    obtain he | ⟨he, hua⟩ := Scalar.lesser_cases hna i.upper
    · exact .inl he
    · exact .inr ⟨i.upper, by simp, he, hu, hua⟩
  · rw [clip, hg]
    obtain he | ⟨he, hul⟩ := Scalar.lesser_cases hnl i.upper
    · exact .inr ⟨i.lower, by simp, he, hal, hl⟩
    · exact .inr ⟨i.upper, by simp, he, hu, Lawful.le_trans hul hl⟩

theorem Interval.contains_clip {i : Interval α} (h : i.lower ≤ i.upper) (a : α) :
    i.Contains (i.clip a) := by
  obtain ⟨hl, hu⟩ := Lawful.isNaN_of_le h
  obtain ⟨hg, hn⟩ := Scalar.le_greater hl a
  obtain ⟨-, hle, he | he⟩ := Scalar.lesser_le hn hu
  · exact ⟨by rwa [clip, he], hle⟩
  · exact ⟨by rwa [clip, he], hle⟩

namespace Box

theorem ordered {box : Box α} (h : box.check = .ok ()) {i : Interval α} (hi : i ∈ box) :
    i.lower ≤ i.upper := by
  obtain ⟨hl, hu, hlt⟩ := ((check_eq_ok box).1 h).2 i hi
  exact Lawful.le_of_not_lt (Lawful.isNaN_of_isFinite hl) (Lawful.isNaN_of_isFinite hu) hlt

omit [Lawful α] in
theorem Contains.length {box : Box α} {x : Vec α} (h : box.Contains x) :
    x.length = box.length := by
  induction box generalizing x with
  | nil =>
    cases x with
    | nil => rfl
    | cons => cases h
  | cons i box ih =>
    cases x with
    | nil => cases h
    | cons a x => exact congrArg Nat.succ (ih h.2)

theorem contains_clip {box : Box α} (h : ∀ i ∈ box, i.lower ≤ i.upper) {x : Vec α}
    (hx : x.length = box.length) : box.Contains (box.clip x) := by
  induction box generalizing x with
  | nil =>
    cases x with
    | nil => trivial
    | cons => cases hx
  | cons i box ih =>
    cases x with
    | nil => cases hx
    | cons a x =>
      refine ⟨Interval.contains_clip (h i (by simp)) a, ?_⟩
      apply ih
      · intro j hj
        exact h j (List.mem_cons_of_mem i hj)
      · exact Nat.succ.inj hx

end Box

end Optima
