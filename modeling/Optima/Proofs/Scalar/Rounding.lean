import Mathlib.Algebra.Order.Field.Power
import Mathlib.Algebra.Order.Field.Rat
import Mathlib.Tactic.FieldSimp
import Mathlib.Tactic.Linarith
import Mathlib.Tactic.NormNum
import Mathlib.Tactic.Positivity
import Mathlib.Tactic.Ring
import Optima.Proofs.Scalar.Binary64

/-!
The rounding of binary64 numbers. A magnitude is counted in units of the least positive number.
Rounding a count does not carry it past any number of the format.
-/

namespace Optima.Binary64

open Float.Model
open UnpackedFloat hiding pack unpack

/-- The mantissas and exponents of the format: a mantissa has 53 bits, or fewer at the least
exponent. -/
structure Canonical (m : ℕ) (e : ℤ) : Prop where
  lt : m < 2 ^ 53
  low : -1074 ≤ e
  normal : 2 ^ 52 ≤ m ∨ e = -1074

def units (m : ℕ) (e : ℤ) : ℕ := m * 2 ^ (e + 1074).toNat

theorem units_mul_pow (m k : ℕ) {e : ℤ} (he : -1074 ≤ e) :
    units (m * 2 ^ k) e = units m (e + k) := by
  have hk : (e + k + 1074).toNat = k + (e + 1074).toNat := by omega
  rw [units, units, hk, pow_add, mul_assoc]

theorem units_le_units {m n : ℕ} {e : ℤ} : units m e ≤ units n e ↔ m ≤ n :=
  Nat.mul_le_mul_right_iff (by positivity)

theorem units_lt_units {m n : ℕ} {d e : ℤ} (hm : m < 2 ^ 53) (hn : 2 ^ 52 ≤ n) (hd : -1074 ≤ d)
    (h : d < e) : units m d < units n e := by
  obtain ⟨k, rfl⟩ : ∃ k : ℕ, e = d + k := ⟨(e - d).toNat, by omega⟩
  rw [← units_mul_pow n k hd]
  apply Nat.mul_lt_mul_of_pos_right _ (by positivity)
  have hk : 2 ^ 1 ≤ 2 ^ k := Nat.pow_le_pow_right (by norm_num) (by omega)
  calc m < 2 ^ 52 * 2 ^ 1 := by omega
    _ ≤ n * 2 ^ k := Nat.mul_le_mul hn hk

theorem Canonical.units_le_iff {m n : ℕ} {d e : ℤ} (hm : Canonical m d) (hn : Canonical n e) :
    units m d ≤ units n e ↔ d < e ∨ d = e ∧ m ≤ n := by
  rcases lt_trichotomy d e with h | rfl | h
  · have hn' := hn.normal.resolve_right (by have := hm.low; omega)
    simp [h, (units_lt_units hm.lt hn' hm.low h).le]
  · simp [units_le_units]
  · have hm' := hm.normal.resolve_right (by have := hn.low; omega)
    simp [h.not_gt, h.ne', units_lt_units hn.lt hm' hn.low h]

def amount (m : ℕ) (e : ℤ) : ℚ := m * 2 ^ e

theorem amount_mul_pow (m k : ℕ) (e : ℤ) : amount (m * 2 ^ k) e = amount m (e + k) := by
  rw [amount, amount, zpow_add₀ two_ne_zero, zpow_natCast]
  push_cast
  ring

theorem amount_le_amount {m n : ℕ} {e : ℤ} : amount m e ≤ amount n e ↔ m ≤ n := by
  rw [amount, amount, mul_le_mul_iff_left₀ (by positivity), Nat.cast_le]

theorem amount_lt_amount {m n : ℕ} {d e : ℤ} (hm : m < 2 ^ 53) (hn : 2 ^ 52 ≤ n) (h : d < e) :
    amount m d < amount n e := by
  obtain ⟨k, rfl⟩ : ∃ k : ℕ, e = d + k := ⟨(e - d).toNat, by omega⟩
  rw [← amount_mul_pow, ← not_le, amount_le_amount, not_le]
  have hk : 2 ^ 1 ≤ 2 ^ k := Nat.pow_le_pow_right (by norm_num) (by omega)
  calc m < 2 ^ 52 * 2 ^ 1 := by omega
    _ ≤ n * 2 ^ k := Nat.mul_le_mul hn hk

theorem units_eq_amount (m : ℕ) {e : ℤ} (he : -1074 ≤ e) :
    (units m e : ℚ) = amount m e * 2 ^ 1074 := by
  have h : (e + 1074).toNat = (e + 1074 : ℤ) := by omega
  rw [units, amount]
  push_cast
  rw [mul_assoc, ← zpow_natCast, h, zpow_add₀ two_ne_zero]
  norm_cast

theorem units_le_iff_amount_le {m n : ℕ} {d e : ℤ} (hd : -1074 ≤ d) (he : -1074 ≤ e) :
    units m d ≤ units n e ↔ amount m d ≤ amount n e := by
  rw [← Nat.cast_le (α := ℚ), units_eq_amount m hd, units_eq_amount n he,
    mul_le_mul_iff_left₀ (by positivity)]

/-- Where the number lies that a mantissa with these two bits has been cut off from. -/
inductive Shows : ExtendedMantissa → ℚ → Prop
  | exact (m : ℕ) : Shows ⟨m, false, false⟩ m
  | below {m : ℕ} {v : ℚ} : m < v → v < m + 1 / 2 → Shows ⟨m, false, true⟩ v
  | half (m : ℕ) : Shows ⟨m, true, false⟩ (m + 1 / 2)
  | above {m : ℕ} {v : ℚ} : m + 1 / 2 < v → v < m + 1 → Shows ⟨m, true, true⟩ v

theorem Shows.shiftRightOne {em : ExtendedMantissa} {v : ℚ} (h : Shows em v) :
    Shows em.shiftRightOne (v / 2) := by
  cases h with
  | exact m =>
    obtain ⟨q, rfl | rfl⟩ := Nat.even_or_odd' m
    · have hv : ((2 * q : ℕ) : ℚ) / 2 = q := by push_cast; ring
      simpa [ExtendedMantissa.shiftRightOne, hv] using Shows.exact q
    · have hv : ((2 * q + 1 : ℕ) : ℚ) / 2 = q + 1 / 2 := by push_cast; ring
      have hq : (2 * q + 1) / 2 = q := by omega
      rw [hv]
      simpa [ExtendedMantissa.shiftRightOne, hq, -one_div] using Shows.half q
  | @below m v hlo hhi =>
    obtain ⟨q, rfl | rfl⟩ := Nat.even_or_odd' m
    · push_cast at hlo hhi
      simpa [ExtendedMantissa.shiftRightOne] using
        Shows.below (m := q) (v := v / 2) (by linarith) (by linarith)
    · push_cast at hlo hhi
      have hq : (2 * q + 1) / 2 = q := by omega
      simpa [ExtendedMantissa.shiftRightOne, hq] using
        Shows.above (m := q) (v := v / 2) (by linarith) (by linarith)
  | half m =>
    obtain ⟨q, rfl | rfl⟩ := Nat.even_or_odd' m
    · simpa [ExtendedMantissa.shiftRightOne] using
        Shows.below (m := q) (v := ((2 * q : ℕ) + 1 / 2) / 2) (by push_cast; linarith)
          (by push_cast; linarith)
    · have hq : (2 * q + 1) / 2 = q := by omega
      simpa [ExtendedMantissa.shiftRightOne, hq] using
        Shows.above (m := q) (v := ((2 * q + 1 : ℕ) + 1 / 2) / 2) (by push_cast; linarith)
          (by push_cast; linarith)
  | @above m v hlo hhi =>
    obtain ⟨q, rfl | rfl⟩ := Nat.even_or_odd' m
    · push_cast at hlo hhi
      simpa [ExtendedMantissa.shiftRightOne] using
        Shows.below (m := q) (v := v / 2) (by linarith) (by linarith)
    · push_cast at hlo hhi
      have hq : (2 * q + 1) / 2 = q := by omega
      simpa [ExtendedMantissa.shiftRightOne, hq] using
        Shows.above (m := q) (v := v / 2) (by linarith) (by linarith)

theorem shift_succ (em : ExtendedMantissa) (k : ℕ) : em >>> (k + 1) = (em >>> k).shiftRightOne :=
  rfl

theorem Shows.shift {em : ExtendedMantissa} {v : ℚ} (h : Shows em v) (k : ℕ) :
    Shows (em >>> k) (v / 2 ^ k) := by
  induction k with
  | zero =>
    rw [pow_zero, div_one]
    exact h
  | succ k ih =>
    rw [shift_succ, pow_succ, ← div_div]
    exact ih.shiftRightOne

theorem shift_mantissa (em : ExtendedMantissa) (k : ℕ) :
    (em >>> k).mantissa = em.mantissa / 2 ^ k := by
  induction k with
  | zero => exact (Nat.div_one _).symm
  | succ k ih =>
    rw [shift_succ, pow_succ, ← Nat.div_div_eq_div_mul, ← ih]
    rfl

theorem Shows.mantissa_le {em : ExtendedMantissa} {v : ℚ} (h : Shows em v) : em.mantissa ≤ v := by
  cases h <;> dsimp only <;> linarith

theorem Shows.roundedMantissa {em : ExtendedMantissa} {v : ℚ} (h : Shows em v) :
    em.mantissa ≤ em.roundedMantissa ∧ em.roundedMantissa ≤ em.mantissa + 1 ∧
      |(em.roundedMantissa : ℚ) - v| ≤ 1 / 2 := by
  have hmod : em.mantissa % 2 ≤ 1 := by omega
  have hmod' : ((em.mantissa % 2 : ℕ) : ℚ) ≤ 1 := by exact_mod_cast hmod
  have hmod₀ : (0 : ℚ) ≤ (em.mantissa % 2 : ℕ) := Nat.cast_nonneg _
  cases h with
  | exact m => simp [ExtendedMantissa.roundedMantissa, ExtendedMantissa.accuracy,
      Accuracy.roundToNearestEven]
  | @below m v hlo hhi =>
    simp only [ExtendedMantissa.roundedMantissa, ExtendedMantissa.accuracy,
      Accuracy.roundToNearestEven]
    exact ⟨le_rfl, Nat.le_succ m, abs_le.2 ⟨by linarith, by linarith⟩⟩
  | half m =>
    simp only [ExtendedMantissa.roundedMantissa, ExtendedMantissa.accuracy,
      Accuracy.roundToNearestEven] at hmod hmod' hmod₀ ⊢
    refine ⟨Nat.le_add_right m _, by omega, ?_⟩
    rw [Nat.cast_add]
    exact abs_le.2 ⟨by linarith, by linarith⟩
  | @above m v hlo hhi =>
    simp only [ExtendedMantissa.roundedMantissa, ExtendedMantissa.accuracy,
      Accuracy.roundToNearestEven]
    refine ⟨Nat.le_succ m, le_rfl, ?_⟩
    rw [Nat.cast_succ]
    exact abs_le.2 ⟨by linarith, by linarith⟩

theorem abs_sub_le_of_half {r z : ℕ} {v : ℚ} (h : |(r : ℚ) - v| ≤ 1 / 2) :
    |(r : ℚ) - v| ≤ |(z : ℚ) - v| := by
  rw [abs_le] at h
  rcases lt_trichotomy z r with hz | rfl | hz
  · have hz' : (z : ℚ) + 1 ≤ r := by exact_mod_cast hz
    rw [abs_le, abs_of_nonpos (by linarith : (z : ℚ) - v ≤ 0)]
    constructor <;> linarith
  · exact le_rfl
  · have hz' : (r : ℚ) + 1 ≤ z := by exact_mod_cast hz
    rw [abs_le, abs_of_nonneg (by linarith : (0 : ℚ) ≤ (z : ℚ) - v)]
    constructor <;> linarith

theorem shift_exact (m k : ℕ) : (⟨m * 2 ^ k, false, false⟩ : ExtendedMantissa) >>> k =
    ⟨m, false, false⟩ := by
  induction k generalizing m with
  | zero => simp [HShiftRight.hShiftRight, Nat.repeat]
  | succ k ih =>
    have hm : m * 2 ^ (k + 1) = m * 2 * 2 ^ k := by ring
    rw [shift_succ, hm, ih]
    simp [ExtendedMantissa.shiftRightOne]

theorem ofMantissaAndAccuracy_mantissa (m : ℕ) (accuracy : Accuracy) :
    (ExtendedMantissa.ofMantissaAndAccuracy m accuracy).mantissa = m := by
  obtain _ | _ | _ | _ := accuracy <;> rfl

theorem targetExponent_eq (m : ℕ) (e : ℤ) :
    Format.binary64.targetExponent (totalExponent m e) = max (m.log2 + 1 + e - 53) (-1074) := by
  have hb : (Format.binary64.mantissaBits : ℤ) = 53 := rfl
  have hm : Format.binary64.minExponent = -1074 := by decide
  rw [Format.targetExponent, hb, hm, totalExponent]

theorem shiftToTargetExponent_eq (m : ℕ) {e : ℤ} {k : ℕ} (accuracy : Accuracy)
    (hk : e + k = max (m.log2 + 1 + e - 53) (-1074)) :
    shiftToTargetExponent Format.binary64 m e accuracy =
      (ExtendedMantissa.ofMantissaAndAccuracy m accuracy >>> k, e + k) := by
  have h : (max ((m.log2 : ℤ) + 1 + e - 53) (-1074) - e).toNat = k := by omega
  simp only [shiftToTargetExponent, targetExponent_eq, shiftToExponent, h]

theorem shiftToTargetExponent_self {m : ℕ} {e : ℤ} (hm : m < 2 ^ 53) (he : -1074 ≤ e) :
    shiftToTargetExponent Format.binary64 m e .exact = (⟨m, false, false⟩, e) := by
  have hl : m.log2 ≤ 52 := by
    rcases Nat.eq_zero_or_pos m with rfl | h0
    · decide
    · exact Nat.le_of_lt_succ ((Nat.log2_lt h0.ne').2 hm)
  have h : (max ((m.log2 : ℤ) + 1 + e - 53) (-1074) - e).toNat = 0 := by omega
  simp only [shiftToTargetExponent, targetExponent_eq, shiftToExponent, h]
  simp [HShiftRight.hShiftRight, Nat.repeat, ExtendedMantissa.ofMantissaAndAccuracy]

/-- A number of the format between which and an amount no other one lies. -/
structure Nearby (q : ℚ) (n : ℕ) (d : ℤ) : Prop where
  canonical : Canonical n d
  ge : ∀ {a : ℕ} {b : ℤ}, Canonical a b → amount a b ≤ q → amount a b ≤ amount n d
  le : ∀ {a : ℕ} {b : ℤ}, Canonical a b → q ≤ amount a b → amount n d ≤ amount a b

/-- A number of the format that is as close to an amount as any other one. -/
structure Closest (q : ℚ) (n : ℕ) (d : ℤ) : Prop where
  canonical : Canonical n d
  le : ∀ {a : ℕ} {b : ℤ}, Canonical a b → |amount n d - q| ≤ |amount a b - q|

theorem Closest.nearby {q : ℚ} {n : ℕ} {d : ℤ} (h : Closest q n d) : Nearby q n d := by
  refine ⟨h.canonical, ?_, ?_⟩
  · intro a b hab hle
    have hd := h.le hab
    rw [abs_of_nonpos (sub_nonpos.2 hle), abs_le] at hd
    linarith
  · intro a b hab hle
    have hd := h.le hab
    rw [abs_of_nonneg (sub_nonneg.2 hle), abs_le] at hd
    linarith

def signed (s : Sign) (m : ℕ) (e : ℤ) : UnpackedFloat :=
  if h : m = 0 then .zero s else .finite s m e (Nat.pos_of_ne_zero h)

section

variable {m k : ℕ} {e : ℤ} (hk : e + k = max (m.log2 + 1 + e - 53) (-1074))

include hk

theorem canonical_quotient : Canonical (m / 2 ^ k) (e + k) := by
  refine ⟨?_, by omega, ?_⟩
  · rw [Nat.div_lt_iff_lt_mul (by positivity), ← pow_add]
    exact Nat.lt_log2_self.trans_le (Nat.pow_le_pow_right (by norm_num) (by omega))
  · rw [Nat.le_div_iff_mul_le (by positivity), ← pow_add]
    by_cases h : e + k = -1074
    · exact .inr h
    · left
      have hl : 52 + k = m.log2 := by omega
      have hm : m ≠ 0 := by
        rintro rfl
        rw [Nat.log2_zero] at hl
        omega
      rw [hl]
      exact Nat.log2_self_le hm

/-- Cutting off the low bits and rounding gives a number of the format, but for a carry, to which
none is closer. -/
theorem abs_rounded_sub_le {em : ExtendedMantissa} {v : ℚ} (hv : Shows em v)
    (hm : em.mantissa = m) {a : ℕ} {b : ℤ} (hab : Canonical a b) :
    |amount (em >>> k).roundedMantissa (e + k) - v * 2 ^ e| ≤ |amount a b - v * 2 ^ e| := by
  have hq := canonical_quotient hk
  have hshift := hv.shift k
  have hround := hshift.roundedMantissa.2.2
  have hscale : v * 2 ^ e = v / 2 ^ k * 2 ^ (e + k) := by
    rw [zpow_add₀ two_ne_zero, zpow_natCast]
    field_simp
  have hpow : (0 : ℚ) < 2 ^ (e + k) := by positivity
  have hdist (z : ℕ) :
      |amount (em >>> k).roundedMantissa (e + k) - v * 2 ^ e| ≤ |amount z (e + k) - v * 2 ^ e| := by
    rw [hscale, amount, amount, ← sub_mul, ← sub_mul, abs_mul, abs_mul]
    exact mul_le_mul_of_nonneg_right (abs_sub_le_of_half hround) (abs_nonneg _)
  by_cases hb : e + k ≤ b
  · obtain ⟨j, rfl⟩ : ∃ j : ℕ, b = e + k + j := ⟨(b - (e + k)).toNat, by omega⟩
    rw [← amount_mul_pow a j]
    exact hdist _
  · -- a number with a lesser exponent lies below the least mantissa with all its bits
    have hn := hq.normal.resolve_right (by have := hab.low; omega)
    have hlt := amount_lt_amount hab.lt (le_refl (2 ^ 52)) (by omega : b < e + k)
    have hle : amount (2 ^ 52) (e + k) ≤ v * 2 ^ e := by
      have hmantissa := hshift.mantissa_le
      rw [shift_mantissa, hm] at hmantissa
      rw [hscale, amount, mul_le_mul_iff_left₀ hpow]
      exact (Nat.cast_le.2 hn).trans hmantissa
    refine (hdist (2 ^ 52)).trans ?_
    rw [abs_of_nonpos (by linarith), abs_of_nonpos (by linarith)]
    linarith

theorem roundWithAccuracy_closest {accuracy : Accuracy} {v : ℚ}
    (hv : Shows (.ofMantissaAndAccuracy m accuracy) v) (s : Sign) :
    ∃ n d, roundWithAccuracy Format.binary64 s m e accuracy = signed s n d ∧
      Closest (v * 2 ^ e) n d := by
  have hq := canonical_quotient hk
  have hm := ofMantissaAndAccuracy_mantissa m accuracy
  have hclosest {a : ℕ} {b : ℤ} (hab : Canonical a b) := abs_rounded_sub_le hk hv hm hab
  have hround : roundWithAccuracy Format.binary64 s m e accuracy =
      let (em, d) := shiftToTargetExponent Format.binary64
        (ExtendedMantissa.ofMantissaAndAccuracy m accuracy >>> k).roundedMantissa (e + k) .exact
      signed s em.mantissa d := by
    rw [roundWithAccuracy, shiftToTargetExponent_eq m accuracy hk]
    rfl
  obtain ⟨hge, hle, -⟩ := (hv.shift k).roundedMantissa
  rw [shift_mantissa, hm] at hge hle
  rw [hround]
  generalize (ExtendedMantissa.ofMantissaAndAccuracy m accuracy >>> k).roundedMantissa = r at *
  obtain hlt | heq : r < 2 ^ 53 ∨ r = 2 ^ 53 := by
    have := hq.lt
    omega
  · rw [shiftToTargetExponent_self hlt hq.low]
    exact ⟨_, _, rfl, ⟨hlt, hq.low, hq.normal.imp_left hge.trans'⟩, hclosest⟩
  · -- the carry gives the mantissa one bit too many
    have hcarry : (e + k : ℤ) + (1 : ℕ) =
        max (((2 ^ 53 : ℕ).log2 : ℤ) + 1 + (e + k) - 53) (-1074) := by
      have := hq.low
      rw [Nat.log2_two_pow]
      omega
    have hshift : (⟨2 ^ 53, false, false⟩ : ExtendedMantissa) >>> 1 = ⟨2 ^ 52, false, false⟩ :=
      shift_exact (2 ^ 52) 1
    have hamount : amount (2 ^ 52) (e + k + (1 : ℕ)) = amount r (e + k) := by
      rw [← amount_mul_pow (2 ^ 52) 1, heq]
      norm_num
    rw [heq, shiftToTargetExponent_eq _ .exact hcarry]
    simp only [ExtendedMantissa.ofMantissaAndAccuracy, hshift]
    refine ⟨2 ^ 52, _, rfl, ⟨by norm_num, ?_, .inl le_rfl⟩, ?_⟩
    · have := hq.low
      omega
    · rwa [hamount]

end

theorem log2_mul_two_pow {m : ℕ} (hm : 0 < m) (j : ℕ) : (m * 2 ^ j).log2 = m.log2 + j := by
  rw [Nat.log2_eq_iff (by positivity), pow_add, add_right_comm, pow_add]
  exact ⟨Nat.mul_le_mul_right _ (Nat.log2_self_le hm.ne'),
    Nat.mul_lt_mul_of_pos_right Nat.lt_log2_self (by positivity)⟩

theorem round_closest {m : ℕ} (hm : 0 < m) (e : ℤ) (s : Sign) :
    ∃ n d, round Format.binary64 s m e = signed s n d ∧ Closest (amount m e) n d := by
  obtain ⟨j, hj⟩ : ∃ j : ℕ, (e - max ((m.log2 : ℤ) + 1 + e - 53) (-1074)).toNat = j := ⟨_, rfl⟩
  have hround : round Format.binary64 s m e =
      roundWithAccuracy Format.binary64 s (m * 2 ^ j) (e - j) .exact := by
    unfold UnpackedFloat.round
    simp only [targetExponent_eq, decreaseExponent, hj, Nat.shiftLeft_eq]
  have hamount : amount (m * 2 ^ j) (e - j) = amount m e := by
    rw [amount_mul_pow m j, sub_add_cancel]
  have hlog := log2_mul_two_pow hm j
  obtain ⟨k, hk⟩ : ∃ k : ℕ, e - j + k =
      max (((m * 2 ^ j).log2 : ℤ) + 1 + (e - j) - 53) (-1074) :=
    ⟨(max (((m * 2 ^ j).log2 : ℤ) + 1 + (e - j) - 53) (-1074) - (e - j)).toNat, by omega⟩
  have hexact : Shows (.ofMantissaAndAccuracy (m * 2 ^ j) .exact) (m * 2 ^ j : ℕ) := .exact _
  obtain ⟨n, d, he, hn⟩ := roundWithAccuracy_closest hk hexact s
  rw [← amount, hamount] at hn
  exact ⟨n, d, hround.trans he, hn⟩

structure Faithful (m : ℕ) (e : ℤ) (n : ℕ) (d : ℤ) : Prop where
  canonical : Canonical n d
  ge : ∀ {a : ℕ} {b : ℤ}, Canonical a b → units a b ≤ units m e → units a b ≤ units n d
  le : ∀ {a : ℕ} {b : ℤ}, Canonical a b → units m e ≤ units a b → units n d ≤ units a b

theorem Nearby.faithful {m n : ℕ} {e d : ℤ} (h : Nearby (amount m e) n d) (he : -1074 ≤ e) :
    Faithful m e n d := by
  refine ⟨h.canonical, ?_, ?_⟩
  · intro a b hab hle
    rw [units_le_iff_amount_le hab.low he] at hle
    rw [units_le_iff_amount_le hab.low h.canonical.low]
    exact h.ge hab hle
  · intro a b hab hle
    rw [units_le_iff_amount_le he hab.low] at hle
    rw [units_le_iff_amount_le h.canonical.low hab.low]
    exact h.le hab hle

theorem round_faithful {m : ℕ} {e : ℤ} (hm : 0 < m) (he : -1074 ≤ e) (s : Sign) :
    ∃ n d hn, round Format.binary64 s m e = .finite s n d hn ∧ Faithful m e n d := by
  obtain ⟨n, d, hr, hn⟩ := round_closest hm e s
  -- a whole number of units is not rounded to nothing
  have hpos : n ≠ 0 := by
    have hone : Canonical 1 (-1074) := ⟨by norm_num, le_rfl, .inr rfl⟩
    have hle := (hn.nearby.faithful he).ge hone (by
      rw [units, units]
      exact Nat.mul_le_mul hm (Nat.pow_le_pow_right (by norm_num) (by omega)))
    rintro rfl
    simp [units] at hle
  rw [signed, dif_neg hpos] at hr
  exact ⟨n, d, Nat.pos_of_ne_zero hpos, hr, hn.nearby.faithful he⟩

end Optima.Binary64
