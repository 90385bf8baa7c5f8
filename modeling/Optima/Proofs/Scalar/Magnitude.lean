import Optima.Proofs.Scalar.Monotone
import Optima.Proofs.Scalar.Underflow

namespace Optima.Binary64

open Float.Model
open UnpackedFloat hiding pack unpack

theorem isFinite_of_sub {a b : Float} (h : (a - b).isFinite = true) :
    a.isFinite = true ∧ b.isFinite = true := by
  rw [float_sub_eq] at h
  obtain ⟨ha, hb⟩ := isFinite_of_add h
  exact ⟨ha, (Scalar.Extended.isFinite_neg b).symm.trans hb⟩

theorem neg_div_neg_float (a b : Float) : -a / -b = a / b := by
  refine congrArg ofUnpacked ?_
  rw [unpack_neg, unpack_neg]
  have hsign (s t : Sign) : -s / -t = s / t := by cases s <;> cases t <;> rfl
  cases a.toModel.unpack <;> cases b.toModel.unpack <;>
    simp only [UnpackedFloat.neg, UnpackedFloat.div, hsign]

theorem div_rounds_of_ne_zero {a c : Float} (ha : a.isFinite = true) (hc : c.isFinite = true)
    (h : toRat c ≠ 0) : Rounds (toRat a / toRat c) (a / c) := by
  have h0 : (0 : Float).isFinite = true := by decide
  obtain hneg | hpos := lt_or_gt_of_ne h
  · have hc' : (-c).isFinite = true := (Scalar.Extended.isFinite_neg c).trans hc
    have hpos : 0 < -c := by
      rw [lt_iff_toRat_lt h0 hc', toRat_zero, toRat_neg]
      exact neg_pos.2 hneg
    have hrounds := div_rounds ((Scalar.Extended.isFinite_neg a).trans ha) hc' hpos
    rwa [neg_div_neg_float, toRat_neg, toRat_neg, neg_div_neg_eq] at hrounds
  · refine div_rounds ha hc ?_
    rwa [lt_iff_toRat_lt h0 hc, toRat_zero]

theorem unpack_abs (a : Float) : a.abs.toModel.unpack = a.toModel.unpack.abs := by
  have hr := representable_unpack a
  refine Representable.unpack_pack ?_
  generalize a.toModel.unpack = u at hr ⊢
  cases u <;> exact hr

theorem isFinite_abs (a : Float) : a.abs.isFinite = a.isFinite := by
  change a.abs.toModel.unpack.isFinite = a.toModel.unpack.isFinite
  rw [unpack_abs]
  cases a.toModel.unpack <;> rfl

theorem toRat_abs (a : Float) : toRat a.abs = |toRat a| := by
  rw [toRat, unpack_abs, toRat]
  cases a.toModel.unpack with
  | finite s m e hm =>
    change amount m e = |signedAmount s (amount m e)|
    rw [abs_signedAmount]
  | _ => exact abs_zero.symm

def Within (k : ℕ) (a : Float) : Prop :=
  a.isFinite = true ∧ |toRat a| ≤ k * 2 ^ (970 : ℤ)

theorem within_of_le {a : Float} (h : a.isFinite = true) (ha : |toRat a| ≤ 2 ^ 1022) :
    Within (2 ^ 52) a := by
  refine ⟨h, ha.trans_eq ?_⟩
  rw [Nat.cast_pow, Nat.cast_ofNat, ← zpow_natCast, ← zpow_natCast, ← zpow_add₀ two_ne_zero]
  norm_num

theorem Rounds.within {k : ℕ} {q : ℚ} {a : Float} (h : Rounds q a) (hk : k < 2 ^ 53)
    (hq : |q| ≤ k * 2 ^ (970 : ℤ)) : Within k a := by
  obtain ⟨c, hc, hvalue⟩ := exists_multiple_float (e := 970) hk (by norm_num) (by norm_num)
  have hc' : (-c).isFinite = true := (Scalar.Extended.isFinite_neg c).trans hc
  rw [← hvalue, abs_le, ← toRat_neg] at hq
  obtain ⟨ha, hlow, hhigh⟩ := h.between hc' hc hq.1 hq.2
  rw [toRat_neg] at hlow
  exact ⟨ha, hvalue ▸ abs_le.2 ⟨hlow, hhigh⟩⟩

theorem Within.sub {i j : ℕ} {a b : Float} (ha : Within i a) (hb : Within j b)
    (h : i + j < 2 ^ 53) : Within (i + j) (a - b) := by
  refine (sub_rounds ha.1 hb.1).within h ?_
  calc |toRat a - toRat b| ≤ |toRat a| + |toRat b| := abs_sub _ _
    _ ≤ i * 2 ^ (970 : ℤ) + j * 2 ^ (970 : ℤ) := add_le_add ha.2 hb.2
    _ = (i + j : ℕ) * 2 ^ (970 : ℤ) := by rw [Nat.cast_add, add_mul]

theorem within_div {a c d : Float} (ha : a.isFinite = true) (hc : c.isFinite = true) (hd : 0 ≤ d)
    (hcd : ¬ c.abs ≤ d) (h : |toRat a| ≤ 2 ^ 970 * toRat d) : Within 1 (a / c) := by
  have h0 : (0 : Float).isFinite = true := by decide
  have hcabs : c.abs.isFinite = true := (isFinite_abs c).trans hc
  have hlt : d ≤ c.abs := (Scalar.Lawful.le_total (Scalar.Lawful.isNaN_of_le hd).2
    (isNaN_of_isFinite hcabs)).resolve_right hcd
  have hdfin := isFinite_of_between hd hlt h0 hcabs
  rw [le_iff_toRat_le hcabs hdfin, toRat_abs, not_le] at hcd
  rw [le_iff_toRat_le h0 hdfin, toRat_zero] at hd
  have hpos : 0 < |toRat c| := hd.trans_lt hcd
  refine (div_rounds_of_ne_zero ha hc (abs_pos.1 hpos)).within (by norm_num) ?_
  rw [abs_div, div_le_iff₀ hpos]
  calc |toRat a| ≤ 2 ^ 970 * toRat d := h
    _ ≤ 2 ^ 970 * |toRat c| := mul_le_mul_of_nonneg_left hcd.le (by positivity)
    _ = (1 : ℕ) * 2 ^ (970 : ℤ) * |toRat c| := by rw [Nat.cast_one, one_mul, ← zpow_natCast]; rfl

end Optima.Binary64
