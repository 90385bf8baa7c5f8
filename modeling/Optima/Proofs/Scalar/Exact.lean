import Mathlib.Analysis.Real.Sqrt
import Optima.Descent.Config
import Optima.Proofs.Scalar.Ordered

namespace Optima.Exact

noncomputable instance instScalarReal : Scalar ℝ where
  ofNat n := n
  ofScientific := OfScientific.ofScientific
  sqrt := Real.sqrt
  abs a := |a|
  infinity := 0
  nan := 0
  isFinite _ := true
  isNaN _ := false
  isNegative a := decide (a < 0)
  decideLt _ _ := inferInstance
  decideLe _ _ := inferInstance

@[simp] theorem literal_zero : @OfNat.ofNat ℝ 0 (Scalar.instOfNat 0) = 0 := Nat.cast_zero

@[simp] theorem literal_one : @OfNat.ofNat ℝ 1 (Scalar.instOfNat 1) = 1 := Nat.cast_one

@[simp] theorem literal_scientific (m : Nat) (s : Bool) (e : Nat) :
    @OfScientific.ofScientific ℝ Scalar.instOfScientific m s e =
      OfScientific.ofScientific m s e := rfl

@[simp] theorem isFinite_eq (a : ℝ) : Scalar.isFinite a = true := rfl

@[simp] theorem abs_eq (a : ℝ) : Scalar.abs a = |a| := rfl

theorem epsilon_eq : (Scalar.epsilon : ℝ) = 2⁻¹ ^ 52 := by
  change @OfNat.ofNat ℝ 1 (Scalar.instOfNat 1) / ((4503599627370496 : ℕ) : ℝ) = _
  rw [literal_one]
  norm_num

theorem epsilon_pos : 0 < (Scalar.epsilon : ℝ) := by
  rw [epsilon_eq]
  positivity

theorem epsilon_lt_one : (Scalar.epsilon : ℝ) < 1 := by
  rw [epsilon_eq]
  norm_num

instance : Scalar.Ordered ℝ where
  neg_neg a := neg_neg a
  zero_beq_zero := by simp
  isNaN_of_isFinite _ := rfl
  isNaN_infinity := rfl
  isNaN_neg _ := rfl
  isNaN_of_le _ := ⟨rfl, rfl⟩
  le_total _ _ := le_total _ _
  le_trans := le_trans
  lt_iff := lt_iff_le_not_ge
  isNaN_of_add _ := ⟨rfl, rfl⟩
  isNaN_of_mul _ := ⟨rfl, rfl⟩
  add_nonneg ha hb := by
    rw [literal_zero] at *
    exact add_nonneg ha hb
  add_le hb _ := by
    rw [literal_zero] at hb
    exact add_le_of_nonpos_right hb
  mul_nonneg ha hb _ := by
    rw [literal_zero] at *
    exact mul_nonneg ha hb
  mul_nonpos ha hb _ := by
    rw [literal_zero] at *
    exact mul_nonpos_of_nonneg_of_nonpos ha hb
  zero_le_half := by
    have h : (0 : ℝ) ≤ 0.5 := by norm_num
    rwa [literal_zero]
  zero_le_one := by simp
  zero_le_two := Nat.cast_le.2 (Nat.zero_le 2)
  zero_le_infinity := literal_zero.le

open Descent (Method Config)

theorem standard_check_of_bounds {m : Method} {g : Goal} {bounds : Option (Box ℝ)}
    (hb : Config.checkBounds { Config.standard with method := m, goal := g, bounds } = .ok ()) :
    Config.check { Config.standard with method := m, goal := g, bounds } = .ok () := by
  simp only [Config.check, hb]
  simp only [Config.standard, LineSearch.check, LineSearch.standard, Stopping.check,
    Stopping.standard, Stopping.checkTolerance, bind_assoc, Requirement.check_bind_eq_ok,
    demand_bind_eq_ok, Requirement.holds, literal_zero, literal_one, literal_scientific,
    isFinite_eq]
  refine ⟨?_, ?_, rfl, ?_, ?_, ?_, rfl, trivial⟩ <;> norm_num

theorem standard_check (m : Method) (hm : m ≠ .boxConstrained) (g : Goal) :
    Config.check { (Config.standard : Config ℝ) with method := m, goal := g } = .ok () := by
  refine standard_check_of_bounds ?_
  cases m with
  | boxConstrained => exact absurd rfl hm
  | _ => rfl

theorem standard_check_within {box : Box ℝ} (h : box.check = .ok ()) :
    (Config.standard.within box).check = .ok () :=
  standard_check_of_bounds h

end Optima.Exact
