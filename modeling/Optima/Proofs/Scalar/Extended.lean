import Optima.Proofs.Scalar.Lawful

namespace Optima.Scalar

/-- What is not finite stands to every finite number in the same way, and a difference is not
positive just where the order says so: small differences are not lost. -/
class Extended (α : Type) [Scalar α] : Prop extends Lawful α where
  isFinite_infinity : isFinite (infinity : α) = false
  isFinite_nan : isFinite (nan : α) = false
  isFinite_neg (a : α) : isFinite (-a) = isFinite a
  neg_le_neg {a b : α} : a ≤ b → -b ≤ -a
  lt_of_not_finite {a b c : α} : isFinite a = true → isFinite b = true → isFinite c = false →
    c ≤ a → c < b
  sub_nonpos_iff {a b : α} : a - b ≤ 0 ↔ a < b ∨ a ≤ b ∧ isFinite a = true

/-- The test for equality goes by the order as well, so that the two zeros are equal and a NaN is
not even equal to itself. -/
class Equated (α : Type) [Scalar α] : Prop extends Extended α where
  beq_iff {a b : α} : (a == b) = true ↔ a ≤ b ∧ b ≤ a

variable {α : Type} [Scalar α] [Extended α]

theorem neg_le_neg_iff {a b : α} : -a ≤ -b ↔ b ≤ a := by
  constructor
  · intro h
    have := Extended.neg_le_neg h
    rwa [Lawful.neg_neg, Lawful.neg_neg] at this
  · exact Extended.neg_le_neg

theorem neg_lt_neg_iff {a b : α} : -a < -b ↔ b < a := by
  rw [Lawful.lt_iff, Lawful.lt_iff, neg_le_neg_iff, neg_le_neg_iff]

theorem gt_of_not_finite {a b c : α} (ha : isFinite a = true) (hb : isFinite b = true)
    (hc : isFinite c = false) (h : a ≤ c) : b < c := by
  rw [← neg_lt_neg_iff]
  refine Extended.lt_of_not_finite (a := -a) ?_ ?_ ?_ (Extended.neg_le_neg h)
  · rwa [Extended.isFinite_neg]
  · rwa [Extended.isFinite_neg]
  · rwa [Extended.isFinite_neg]

end Optima.Scalar
