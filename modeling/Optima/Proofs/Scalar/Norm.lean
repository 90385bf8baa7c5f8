import Optima.Proofs.Lanes
import Optima.Proofs.Scalar.Between

namespace Optima.Binary64

open Float.Model
open UnpackedFloat hiding pack unpack
open Scalar (NotNegative)

theorem isFinite_of_unpack_pack {u : UnpackedFloat}
    (h : (UnpackedFloat.unpack Format.binary64
      (UnpackedFloat.pack Format.binary64 u)).isFinite = true) : u.isFinite = true := by
  cases u with
  | notANumber => exact absurd h (by decide)
  | infinity s => cases s <;> exact absurd h (by decide)
  | zero s => rfl
  | finite s m e hm => rfl

theorem isFinite_of_add {a b : Float} (h : (a + b).isFinite = true) :
    a.isFinite = true ∧ b.isFinite = true := by
  have h := isFinite_of_unpack_pack h
  change a.toModel.unpack.isFinite = true ∧ b.toModel.unpack.isFinite = true
  generalize a.toModel.unpack = u at h ⊢
  generalize b.toModel.unpack = v at h ⊢
  rcases u with (_ | _) | _ | _ | ⟨_, m, e, hm⟩ <;>
    rcases v with (_ | _) | _ | _ | ⟨_, n, d, hn⟩ <;>
    simp_all [UnpackedFloat.add, UnpackedFloat.isFinite]

theorem isFinite_of_mul_self {a : Float} (h : (a * a).isFinite = true) : a.isFinite = true := by
  have h := isFinite_of_unpack_pack h
  change a.toModel.unpack.isFinite = true
  generalize a.toModel.unpack = u at h ⊢
  cases u <;> simp_all [UnpackedFloat.mul, UnpackedFloat.isFinite]

theorem mul_self_notNegative (a : Float) : NotNegative (a * a) := by
  intro h
  have hnan : (a * a).isNaN = false := h
  rw [isNaN_mul] at hnan
  rw [nonneg_iff, unpack_mul]
  generalize a.toModel.unpack = u at hnan ⊢
  have hside : ∃ s, OnSide s u := by
    cases u with
    | notANumber => cases hnan
    | infinity s => exact ⟨s, rfl⟩
    | zero s => exact ⟨s, trivial⟩
    | finite s m e hm => exact ⟨s, rfl⟩
  obtain ⟨s, hs⟩ := hside
  have hsquare := (hs.mul hs hnan).unpack_pack
  cases s <;> exact hsquare

theorem isFinite_of_sqrt {a : Float} (h : a.sqrt.isFinite = true) : a.isFinite = true := by
  have h := isFinite_of_unpack_pack h
  change a.toModel.unpack.isFinite = true
  generalize a.toModel.unpack = u at h ⊢
  cases u with
  | notANumber => cases h
  | infinity s => cases s <;> cases h
  | zero s => rfl
  | finite s m e hm => rfl

theorem exists_shows (em : ExtendedMantissa) : ∃ v, Shows em v ∧ v < em.mantissa + 1 := by
  obtain ⟨m, _ | _, _ | _⟩ := em
  · exact ⟨m, .exact m, by simp⟩
  · exact ⟨m + 1 / 4, .below (by linarith) (by linarith), by norm_num⟩
  · exact ⟨m + 1 / 2, .half m, by norm_num⟩
  · exact ⟨m + 3 / 4, .above (by linarith) (by linarith), by norm_num⟩

theorem exists_shift_sqrt {m j : ℕ} {e t : ℤ} (hm : 0 < m) (hj : e = 2 * t + j)
    (ht : t ≤ max ((m.log2 + 1 + e + 1) / 2 - 53) (-1074)) :
    ∃ k : ℕ, t + k = max (((m * 2 ^ j).sqrt.log2 : ℤ) + 1 + t - 53) (-1074) := by
  refine ⟨(max (((m * 2 ^ j).sqrt.log2 : ℤ) + 1 + t - 53) (-1074) - t).toNat, ?_⟩
  by_cases hlow : t ≤ -1074
  · omega
  · have hlog : 104 ≤ (m * 2 ^ j).log2 := by
      rw [log2_mul_two_pow hm]
      omega
    have hroot : 2 ^ 52 ≤ (m * 2 ^ j).sqrt := by
      rw [Nat.le_sqrt]
      exact (Nat.pow_le_pow_right (by norm_num) hlog).trans (Nat.log2_self_le (by positivity))
    have hbits : 52 ≤ (m * 2 ^ j).sqrt.log2 :=
      (Nat.le_log2 (by positivity)).2 hroot
    omega

theorem amount_sqrt_lt {m j : ℕ} {e t : ℤ} (hj : e = 2 * t + j) (h : amount m e < 2 ^ 1024) :
    amount (m * 2 ^ j).sqrt t < 2 ^ 512 := by
  have hsquare : amount (m * 2 ^ j).sqrt t ^ 2 ≤ amount m e := by
    have hexp : e = t + t + j := by omega
    rw [sq, amount_mul, hexp, ← amount_mul_pow, amount_le_amount]
    exact Nat.sqrt_le _
  refine lt_of_pow_lt_pow_left₀ 2 (by positivity) (hsquare.trans_lt (h.trans_eq ?_))
  rw [← pow_mul]

theorem root_amount_le {m j : ℕ} {e t : ℤ} (hm : 0 < m) (hj : e = 2 * t + j) {v : ℚ}
    (hv : v < (m * 2 ^ j).sqrt + 1) (h : amount m e < 2 ^ 1024) : v * 2 ^ t ≤ 2 ^ 1023 := by
  have hpos : 0 < (m * 2 ^ j).sqrt := Nat.sqrt_pos.2 (by positivity)
  have hone : (1 : ℚ) ≤ (m * 2 ^ j).sqrt := by exact_mod_cast hpos
  have hroot := amount_sqrt_lt hj h
  calc v * 2 ^ t ≤ 2 * (m * 2 ^ j).sqrt * 2 ^ t :=
        mul_le_mul_of_nonneg_right (by linarith) (by positivity)
    _ = 2 * amount (m * 2 ^ j).sqrt t := mul_assoc _ _ _
    _ ≤ 2 * 2 ^ 512 := mul_le_mul_of_nonneg_left hroot.le zero_le_two
    _ = 2 ^ 513 := (pow_succ' 2 512).symm
    _ ≤ 2 ^ 1023 := pow_le_pow_right₀ one_le_two (by norm_num)

theorem sqrtCore_eq {m j : ℕ} {e t : ℤ} (hj : e = 2 * t + j)
    (ht : t = min (e.ediv 2)
      (Format.binary64.targetExponent ((totalExponent m e + 1).ediv 2))) :
    ∃ accuracy, sqrtCore Format.binary64 m e = ((m * 2 ^ j).sqrt, t, accuracy) := by
  have hshift : (e - 2 * t).toNat = j := by omega
  simp only [sqrtCore, ← ht, hshift, Nat.shiftLeft_eq]
  exact ⟨_, rfl⟩

theorem Nearby.exponent_le {q : ℚ} {n : ℕ} {d : ℤ} (h : Nearby q n d) (hq : q ≤ 2 ^ 1023) :
    d ≤ 971 := by
  have hhalf : Canonical (2 ^ 52) 971 := ⟨by norm_num, by norm_num, .inl le_rfl⟩
  have hamount : amount (2 ^ 52) 971 = 2 ^ 1023 := by
    rw [amount, Nat.cast_pow, Nat.cast_ofNat, ← zpow_natCast, ← zpow_add₀ two_ne_zero]
    exact zpow_natCast 2 1023
  have hle := h.le hhalf (hq.trans_eq hamount.symm)
  rw [h.canonical.amount_le_iff hhalf] at hle
  omega

theorem isFinite_sqrt {a : Float} (ha : a.isFinite = true) (h : 0 ≤ a) :
    a.sqrt.isFinite = true := by
  have hr := representable_unpack a
  rw [nonneg_iff] at h
  change (ofUnpacked (UnpackedFloat.sqrt Format.binary64 a.toModel.unpack)).isFinite = true
  change a.toModel.unpack.isFinite = true at ha
  generalize a.toModel.unpack = u at ha h hr
  cases u with
  | notANumber => cases ha
  | infinity s => cases ha
  | zero s => cases s <;> decide
  | finite s m e hm =>
    obtain rfl : s = .positive := h
    obtain ⟨t, ht⟩ : ∃ t, t = min (e.ediv 2)
      (Format.binary64.targetExponent ((totalExponent m e + 1).ediv 2)) := ⟨_, rfl⟩
    have hhalf : t ≤ e / 2 := ht ▸ min_le_left _ _
    have htarget : t ≤ max ((m.log2 + 1 + e + 1) / 2 - 53) (-1074) := ht ▸ min_le_right _ _
    obtain ⟨j, hj⟩ : ∃ j : ℕ, e = 2 * t + j := ⟨(e - 2 * t).toNat, by omega⟩
    obtain ⟨accuracy, hcore⟩ := sqrtCore_eq hj ht
    obtain ⟨v, hv, hlt⟩ := exists_shows (.ofMantissaAndAccuracy (m * 2 ^ j).sqrt accuracy)
    obtain ⟨k, hk⟩ := exists_shift_sqrt hm hj htarget
    obtain ⟨n, d, hround, hn⟩ := roundWithAccuracy_closest hk hv .positive
    have hsqrt : UnpackedFloat.sqrt Format.binary64 (.finite .positive m e hm) =
        signed .positive n d := by
      simp only [UnpackedFloat.sqrt, hcore, hround]
    rw [ofMantissaAndAccuracy_mantissa] at hlt
    have hsmall := root_amount_le hm hj hlt (hr.1.amount_lt.2 hr.2)
    rw [hsqrt]
    exact isFinite_signed hn.canonical (hn.nearby.exponent_le hsmall) .positive

theorem dot_counted {P : ℕ → Float → Prop}
    (hadd : ∀ {i j : ℕ} {x y : Float}, P i x → P j y → P (i + j) (x + y)) (h0 : P 0 0)
    {x : Vec Float} (hx : ∀ a ∈ x, P 1 (a * a)) : P x.length (Vec.dot x x) := by
  have hsquares : ∀ y ∈ List.zipWith (· * ·) x x, P 1 y := by
    rw [List.zipWith_self, List.forall_mem_map]
    exact hx
  have hsum := Vec.dot_weighted hadd h0 hsquares
  rwa [List.map_const', List.sum_replicate, List.length_zipWith, Nat.min_self, nsmul_one,
    Nat.cast_id] at hsum

theorem dot_notNegative (x : Vec Float) : NotNegative (Vec.dot x x) :=
  dot_counted (P := fun _ a => NotNegative a) NotNegative.add (.of_le (by decide))
    fun a _ => mul_self_notNegative a

theorem isFinite_of_foldl_add {xs : List Float} {a : Float}
    (h : (xs.foldl (· + ·) a).isFinite = true) :
    a.isFinite = true ∧ ∀ x ∈ xs, x.isFinite = true := by
  induction xs generalizing a with
  | nil => exact ⟨h, List.forall_mem_nil _⟩
  | cons x xs ih =>
    obtain ⟨hsum, hxs⟩ := ih h
    obtain ⟨ha, hx⟩ := isFinite_of_add hsum
    exact ⟨ha, List.forall_mem_cons.2 ⟨hx, hxs⟩⟩

theorem isFinite_of_laneSum {a b c d e f g h : Float} {xs : List Float}
    (hs : (Vec.laneSum a b c d e f g h xs).isFinite = true) :
    (∀ x ∈ [a, b, c, d, e, f, g, h], x.isFinite = true) ∧ ∀ x ∈ xs, x.isFinite = true := by
  fun_induction Vec.laneSum a b c d e f g h xs with
  | case1 a b c d e f g h a' b' c' d' e' f' g' h' rest ih =>
    obtain ⟨hlanes, hrest⟩ := ih hs
    simp only [List.forall_mem_cons] at hlanes ⊢
    obtain ⟨ha, hb, hc, hd, he, hf, hg, hh, hnil⟩ := hlanes
    have ha := isFinite_of_add ha
    have hb := isFinite_of_add hb
    have hc := isFinite_of_add hc
    have hd := isFinite_of_add hd
    have he := isFinite_of_add he
    have hf := isFinite_of_add hf
    have hg := isFinite_of_add hg
    have hh := isFinite_of_add hh
    exact ⟨⟨ha.1, hb.1, hc.1, hd.1, he.1, hf.1, hg.1, hh.1, hnil⟩,
      ha.2, hb.2, hc.2, hd.2, he.2, hf.2, hg.2, hh.2, hrest⟩
  | case2 a b c d e f g h rest =>
    obtain ⟨hsum, hrest⟩ := isFinite_of_foldl_add hs
    obtain ⟨hsum, hdh⟩ := isFinite_of_add hsum
    obtain ⟨hsum, hcg⟩ := isFinite_of_add hsum
    obtain ⟨hsum, hbf⟩ := isFinite_of_add hsum
    obtain ⟨-, hae⟩ := isFinite_of_add hsum
    have hae := isFinite_of_add hae
    have hbf := isFinite_of_add hbf
    have hcg := isFinite_of_add hcg
    have hdh := isFinite_of_add hdh
    simp only [List.forall_mem_cons]
    exact ⟨⟨hae.1, hbf.1, hcg.1, hdh.1, hae.2, hbf.2, hcg.2, hdh.2, List.forall_mem_nil _⟩, hrest⟩

theorem isFinite_of_dot {x : Vec Float} (h : (Vec.dot x x).isFinite = true) :
    ∀ a ∈ x, a.isFinite = true := by
  have hsquares := (isFinite_of_laneSum h).2
  rw [List.zipWith_self, List.forall_mem_map] at hsquares
  exact fun a ha => isFinite_of_mul_self (hsquares a ha)

theorem isFinite_norm_iff (x : Vec Float) :
    (Vec.norm x).isFinite = true ↔ (Vec.dot x x).isFinite = true :=
  ⟨isFinite_of_sqrt, fun h => isFinite_sqrt h (dot_notNegative x (isNaN_of_isFinite h))⟩

/-- Every component is finite, but the sum of their squares is not. -/
def Overflows (x : Vec Float) : Prop :=
  (∀ a ∈ x, a.isFinite = true) ∧ (Vec.dot x x).isFinite = false

theorem isFinite_norm_eq_false_iff (x : Vec Float) :
    (Vec.norm x).isFinite = false ↔ (∃ a ∈ x, a.isFinite = false) ∨ Overflows x := by
  rw [← Bool.not_eq_true, isFinite_norm_iff]
  constructor
  · intro h
    by_cases hx : ∀ a ∈ x, a.isFinite = true
    · exact .inr ⟨hx, eq_false_of_ne_true h⟩
    · exact .inl (by simpa using hx)
  · rintro (⟨a, ha, hfalse⟩ | ⟨-, hfalse⟩) h
    · rw [isFinite_of_dot h a ha] at hfalse
      cases hfalse
    · rw [hfalse] at h
      cases h

theorem toRat_zero : toRat 0 = 0 := rfl

theorem unpack_one : (1 : Float).toModel.unpack =
    .finite .positive (2 ^ 52) (-52) (by decide) := rfl

theorem toRat_one : toRat 1 = 1 := by
  rw [toRat, unpack_one]
  norm_num [worth, signedAmount, amount]

theorem exists_canonical_amount {k : ℕ} {e : ℤ} (hk : k < 2 ^ 53) (he : -1074 ≤ e) :
    ∃ m d, Canonical m d ∧ d ≤ e ∧ amount m d = amount k e := by
  rcases Nat.eq_zero_or_pos k with rfl | hpos
  · exact ⟨0, -1074, canonical_zero, he, by rw [amount_zero, amount_zero]⟩
  · have hlog : k.log2 < 53 := (Nat.log2_lt hpos.ne').2 hk
    obtain ⟨j, hj⟩ : ∃ j, j = min (52 - k.log2) (e + 1074).toNat := ⟨_, rfl⟩
    refine ⟨k * 2 ^ j, e - j, ⟨?_, by omega, ?_⟩, by omega, ?_⟩
    · calc k * 2 ^ j < 2 ^ (k.log2 + 1) * 2 ^ j :=
            Nat.mul_lt_mul_of_pos_right Nat.lt_log2_self (by positivity)
        _ = 2 ^ (k.log2 + 1 + j) := (pow_add 2 _ _).symm
        _ ≤ 2 ^ 53 := Nat.pow_le_pow_right (by norm_num) (by omega)
    · by_cases hlow : e - j = -1074
      · exact .inr hlow
      · left
        calc 2 ^ 52 = 2 ^ (k.log2 + j) := by
              congr 1
              omega
          _ = 2 ^ k.log2 * 2 ^ j := pow_add 2 _ _
          _ ≤ k * 2 ^ j := Nat.mul_le_mul_right _ (Nat.log2_self_le hpos.ne')
    · rw [amount_mul_pow, sub_add_cancel]

theorem exists_multiple_float {k : ℕ} {e : ℤ} (hk : k < 2 ^ 53) (he : -1074 ≤ e)
    (he' : e ≤ 971) : ∃ c : Float, c.isFinite = true ∧ toRat c = k * 2 ^ e := by
  obtain ⟨m, d, hc, hd, hm⟩ := exists_canonical_amount hk he
  have hd := hd.trans he'
  exact ⟨ofUnpacked (signed .positive m d), isFinite_signed hc hd _,
    (toRat_signed hc hd _).trans hm⟩

theorem Rounds.between {q : ℚ} {x c d : Float} (h : Rounds q x) (hc : c.isFinite = true)
    (hd : d.isFinite = true) (hcq : toRat c ≤ q) (hqd : q ≤ toRat d) :
    x.isFinite = true ∧ toRat c ≤ toRat x ∧ toRat x ≤ toRat d := by
  have hcx := h.ge hc hcq
  have hxd := h.le hd hqd
  have hx := isFinite_of_between hcx hxd hc hd
  exact ⟨hx, (le_iff_toRat_le hc hx).1 hcx, (le_iff_toRat_le hx hd).1 hxd⟩

theorem Rounds.exact {q : ℚ} {x c : Float} (h : Rounds q x) (hc : c.isFinite = true)
    (hq : toRat c = q) : x.isFinite = true ∧ toRat x = q := by
  obtain ⟨hx, hle, hge⟩ := h.between hc hc hq.le hq.ge
  rw [hq] at hle hge
  exact ⟨hx, le_antisymm hge hle⟩

theorem Rounds.le_pow {n : ℕ} (hn : n ≤ 1023) {q : ℚ} {a : Float} (h : Rounds q a) (h0 : 0 ≤ q)
    (hq : q ≤ 2 ^ n) : a.isFinite = true ∧ 0 ≤ toRat a ∧ toRat a ≤ 2 ^ n := by
  obtain ⟨c, hc, hvalue⟩ := exists_multiple_float (k := 2 ^ 52) (e := n - 52) (by norm_num)
    (by omega) (by omega)
  have hpow : toRat c = 2 ^ n := by
    rw [hvalue, Nat.cast_pow, Nat.cast_ofNat, ← zpow_natCast, ← zpow_add₀ two_ne_zero,
      ← zpow_natCast]
    congr 1
    omega
  rw [← hpow] at hq ⊢
  exact h.between (c := 0) (by decide) hc h0 hq

def Moderate (k : ℕ) (a : Float) : Prop :=
  k < 2 ^ 53 → a.isFinite = true ∧ 0 ≤ toRat a ∧ toRat a ≤ k * 2 ^ (970 : ℤ)

theorem Rounds.moderate {k : ℕ} {q : ℚ} {a : Float} (h : Rounds q a) (hk : k < 2 ^ 53)
    (h0 : 0 ≤ q) (hq : q ≤ k * 2 ^ (970 : ℤ)) :
    a.isFinite = true ∧ 0 ≤ toRat a ∧ toRat a ≤ k * 2 ^ (970 : ℤ) := by
  obtain ⟨c, hc, hvalue⟩ := exists_multiple_float (e := 970) hk (by norm_num) (by norm_num)
  rw [← hvalue] at hq ⊢
  exact h.between (c := 0) (by decide) hc h0 hq

theorem Moderate.add {i j : ℕ} {a b : Float} (ha : Moderate i a) (hb : Moderate j b) :
    Moderate (i + j) (a + b) := by
  intro h
  obtain ⟨ha, ha0, hai⟩ := ha (by omega)
  obtain ⟨hb, hb0, hbj⟩ := hb (by omega)
  refine (add_rounds ha hb).moderate h (by linarith) ?_
  rw [Nat.cast_add, add_mul]
  linarith

theorem moderate_square {a : Float} (ha : a.isFinite = true) (h : |toRat a| ≤ 2 ^ 485) :
    Moderate 1 (a * a) := by
  intro h1
  refine (mul_rounds ha ha).moderate h1 (mul_self_nonneg _) ?_
  calc toRat a * toRat a = |toRat a| * |toRat a| := (abs_mul_abs_self _).symm
    _ ≤ 2 ^ 485 * 2 ^ 485 := mul_self_le_mul_self (abs_nonneg _) h
    _ = 2 ^ 970 := (pow_add 2 485 485).symm
    _ = (1 : ℕ) * 2 ^ (970 : ℤ) := by rw [Nat.cast_one, one_mul, ← zpow_natCast]; rfl

theorem isFinite_dot_of_le {x : Vec Float} (hl : x.length < 2 ^ 53)
    (h : ∀ a ∈ x, a.isFinite = true ∧ |toRat a| ≤ 2 ^ 485) : (Vec.dot x x).isFinite = true := by
  have h0 : Moderate 0 0 := fun _ => ⟨by decide, le_rfl, by simp [toRat_zero]⟩
  have hsquares : ∀ a ∈ x, Moderate 1 (a * a) := fun a ha => moderate_square (h a ha).1 (h a ha).2
  exact (dot_counted Moderate.add h0 hsquares hl).1

end Optima.Binary64
