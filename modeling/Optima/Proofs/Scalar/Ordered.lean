import Optima.Proofs.Scalar.Lawful

namespace Optima.Scalar

/-- Sums and products of numbers that are not negative are not negative, and adding a number that
is not positive makes no number greater. -/
class Ordered (α : Type) [Scalar α] : Prop extends Lawful α where
  isNaN_of_add {a b : α} : isNaN (a + b) = false → isNaN a = false ∧ isNaN b = false
  isNaN_of_mul {a b : α} : isNaN (a * b) = false → isNaN a = false ∧ isNaN b = false
  add_nonneg {a b : α} : 0 ≤ a → 0 ≤ b → 0 ≤ a + b
  add_le {a b : α} : b ≤ 0 → isNaN (a + b) = false → a + b ≤ a
  mul_nonneg {a b : α} : 0 ≤ a → 0 ≤ b → isNaN (a * b) = false → 0 ≤ a * b
  mul_nonpos {a b : α} : 0 ≤ a → b ≤ 0 → isNaN (a * b) = false → a * b ≤ 0
  zero_le_half : (0 : α) ≤ 0.5
  zero_le_one : (0 : α) ≤ 1
  zero_le_two : (0 : α) ≤ 2
  zero_le_infinity : (0 : α) ≤ infinity

variable {α : Type} [Scalar α]

def NotNegative (a : α) : Prop := isNaN a = false → 0 ≤ a

theorem NotNegative.of_le {a : α} (h : 0 ≤ a) : NotNegative a := fun _ => h

theorem NotNegative.lesser {a b : α} (ha : NotNegative a) (hb : NotNegative b) :
    NotNegative (lesser a b) := by
  unfold Scalar.lesser
  split
  · exact hb
  · split
    · exact hb
    · exact ha

variable [Ordered α]

theorem NotNegative.mul {a b : α} (ha : NotNegative a) (hb : NotNegative b) :
    NotNegative (a * b) := by
  intro h
  obtain ⟨hna, hnb⟩ := Ordered.isNaN_of_mul h
  exact Ordered.mul_nonneg (ha hna) (hb hnb) h

theorem NotNegative.add {a b : α} (ha : NotNegative a) (hb : NotNegative b) :
    NotNegative (a + b) := by
  intro h
  obtain ⟨hna, hnb⟩ := Ordered.isNaN_of_add h
  exact Ordered.add_nonneg (ha hna) (hb hnb)

theorem NotNegative.ranked {a : α} (ha : NotNegative a) : NotNegative (ranked a) := by
  unfold Scalar.ranked
  split
  · exact .of_le Ordered.zero_le_infinity
  · exact ha

end Optima.Scalar
