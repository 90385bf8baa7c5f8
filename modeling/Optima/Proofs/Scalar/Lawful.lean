import Optima.Goal

namespace Optima

namespace Scalar

/-- Negation undoes itself, and the numbers other than NaN, infinity among them, are totally
preordered. -/
class Lawful (α : Type) [Scalar α] : Prop where
  neg_neg (a : α) : - -a = a
  zero_beq_zero : ((0 : α) == 0) = true
  isNaN_of_isFinite {a : α} : isFinite a = true → isNaN a = false
  isNaN_infinity : isNaN (infinity : α) = false
  isNaN_neg (a : α) : isNaN (-a) = isNaN a
  isNaN_of_le {a b : α} : a ≤ b → isNaN a = false ∧ isNaN b = false
  le_total {a b : α} : isNaN a = false → isNaN b = false → a ≤ b ∨ b ≤ a
  le_trans {a b c : α} : a ≤ b → b ≤ c → a ≤ c
  lt_iff {a b : α} : a < b ↔ a ≤ b ∧ ¬ b ≤ a

variable {α : Type} [Scalar α] [Lawful α]

theorem Lawful.le_refl {a : α} (h : isNaN a = false) : a ≤ a := (le_total h h).elim id id

theorem Lawful.le_of_not_lt {a b : α} (ha : isNaN a = false) (hb : isNaN b = false)
    (h : ¬ b < a) : a ≤ b := by
  by_cases hab : a ≤ b
  · exact hab
  · exact absurd (lt_iff.2 ⟨(le_total ha hb).resolve_left hab, hab⟩) h

theorem Lawful.le_of_lt {a b : α} (h : a < b) : a ≤ b := (lt_iff.1 h).1

theorem Lawful.lt_of_lt_of_le {a b c : α} (hab : a < b) (hbc : b ≤ c) : a < c :=
  lt_iff.2 ⟨le_trans (le_of_lt hab) hbc, fun h => (lt_iff.1 hab).2 (le_trans hbc h)⟩

theorem Lawful.lt_of_le_of_lt {a b c : α} (hab : a ≤ b) (hbc : b < c) : a < c :=
  lt_iff.2 ⟨le_trans hab (le_of_lt hbc), fun h => (lt_iff.1 hbc).2 (le_trans h hab)⟩

theorem Lawful.isNaN_ranked (a : α) : isNaN (ranked a) = false := by
  unfold ranked
  split
  · exact isNaN_infinity
  · next h => exact eq_false_of_ne_true h

theorem lesser_le {a b : α} (ha : isNaN a = false) (hb : isNaN b = false) :
    lesser a b ≤ a ∧ lesser a b ≤ b ∧ (lesser a b = a ∨ lesser a b = b) := by
  by_cases h : b ≤ a
  · simp [lesser, ha, h, Lawful.le_refl hb]
  · simp [lesser, ha, h, Lawful.le_refl ha, (Lawful.le_total ha hb).resolve_right h]

end Scalar

open Scalar (Lawful isNaN)

variable {α : Type} [Scalar α] [Lawful α]

@[simp] theorem Goal.orient_orient (g : Goal) (a : α) : g.orient (g.orient a) = a := by
  cases g with
  | minimize => rfl
  | maximize => exact Lawful.neg_neg a

@[simp] theorem Goal.isNaN_orient (g : Goal) (a : α) : isNaN (g.orient a) = isNaN a := by
  cases g with
  | minimize => rfl
  | maximize => exact Lawful.isNaN_neg a

end Optima
