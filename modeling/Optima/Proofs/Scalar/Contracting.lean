import Optima.Proofs.Scalar.Exact
import Optima.Proofs.Scalar.Norm

namespace Optima.Scalar

/-- A finite number that is not negative stays so, and grows no greater, when it is multiplied by a
factor between zero and one; the factors of the line searches are such. -/
class Contracting (α : Type) [Scalar α] : Prop extends Ordered α where
  isFinite_zero : isFinite (0 : α) = true
  isFinite_of_between {a b c : α} : a ≤ b → b ≤ c → isFinite a = true → isFinite c = true →
    isFinite b = true
  pos_of_ne_zero {a : α} : 0 ≤ a → ¬ (a == 0) = true → 0 < a
  mul_between {a b : α} : isFinite a = true → 0 ≤ a → 0 ≤ b → b ≤ 1 → 0 ≤ a * b ∧ a * b ≤ a
  half_le_one : (0.5 : α) ≤ 1
  zero_le_fourFifths : (0 : α) ≤ 0.8
  fourFifths_le_one : (0.8 : α) ≤ 1

end Optima.Scalar

namespace Optima.Binary64

theorem mul_between_zero {a b : Float} (ha : a.isFinite = true) (h0 : 0 ≤ a) (hb : 0 ≤ b)
    (hb1 : b ≤ 1) : 0 ≤ a * b ∧ a * b ≤ a := by
  have hzero : (0 : Float).isFinite = true := by decide
  have hone : (1 : Float).isFinite = true := by decide
  have hfin := isFinite_of_between hb hb1 hzero hone
  have ha' : 0 ≤ toRat a := toRat_zero ▸ (le_iff_toRat_le hzero ha).1 h0
  have hb' : 0 ≤ toRat b := toRat_zero ▸ (le_iff_toRat_le hzero hfin).1 hb
  have hb1' : toRat b ≤ 1 := toRat_one ▸ (le_iff_toRat_le hfin hone).1 hb1
  have h := mul_rounds ha hfin
  constructor
  · refine h.ge hzero ?_
    rw [toRat_zero]
    exact Rat.mul_nonneg ha' hb'
  · exact h.le ha (mul_le_of_le_one_right ha' hb1')

instance : Scalar.Contracting Float where
  isFinite_zero := by decide
  isFinite_of_between := isFinite_of_between
  pos_of_ne_zero ha hne :=
    Scalar.Lawful.lt_iff.2 ⟨ha, fun h => hne (float_beq_iff.2 ⟨h, ha⟩)⟩
  mul_between := mul_between_zero
  half_le_one := by decide +kernel
  zero_le_fourFifths := by decide +kernel
  fourFifths_le_one := by decide +kernel

end Optima.Binary64

namespace Optima.Exact

instance : Scalar.Contracting ℝ where
  isFinite_zero := rfl
  isFinite_of_between _ _ _ _ := rfl
  pos_of_ne_zero ha hne := by
    rw [literal_zero] at *
    exact lt_of_le_of_ne' ha (by simpa using hne)
  mul_between _ ha hb hb1 := by
    rw [literal_zero] at *
    rw [literal_one] at hb1
    exact ⟨mul_nonneg ha hb, mul_le_of_le_one_right ha hb1⟩
  half_le_one := by
    rw [literal_scientific, literal_one]
    norm_num
  zero_le_fourFifths := by
    rw [literal_zero, literal_scientific]
    norm_num
  fourFifths_le_one := by
    rw [literal_scientific, literal_one]
    norm_num

end Optima.Exact
