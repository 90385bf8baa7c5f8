import Optima.Proofs.Scalar.Between
import Optima.Proofs.Scalar.Extended

namespace Optima.Binary64

open Float.Model
open UnpackedFloat hiding pack unpack

def leastPositive : Float := ofUnpacked (signed .positive 1 (-1074))

theorem canonical_one : Canonical 1 (-1074) := ⟨by norm_num, le_rfl, .inr rfl⟩

theorem isFinite_leastPositive : leastPositive.isFinite = true :=
  isFinite_signed canonical_one (by norm_num) .positive

theorem toRat_leastPositive : toRat leastPositive = 2 ^ (-1074 : ℤ) := by
  rw [leastPositive, toRat_signed canonical_one (by norm_num), signedAmount, amount, Nat.cast_one,
    one_mul]

theorem exists_multiple {a : Float} (h : a.isFinite = true) :
    ∃ k : ℤ, toRat a = k * 2 ^ (-1074 : ℤ) := by
  obtain ⟨s, m, e, hc, -, hr⟩ := exists_canonical h
  obtain ⟨k, rfl⟩ : ∃ k : ℕ, e = -1074 + k := ⟨(e + 1074).toNat, by have := hc.low; omega⟩
  have hm : amount m (-1074 + k) = ((m * 2 ^ k : ℕ) : ℤ) * 2 ^ (-1074 : ℤ) := by
    rw [amount, zpow_add₀ two_ne_zero, zpow_natCast, Int.cast_natCast, Nat.cast_mul, Nat.cast_pow,
      Nat.cast_ofNat, mul_assoc, mul_comm (2 ^ k)]
  rw [hr, hm]
  cases s with
  | positive => exact ⟨_, rfl⟩
  | negative => exact ⟨-((m * 2 ^ k : ℕ) : ℤ), by rw [signedAmount, Int.cast_neg, neg_mul]⟩

theorem sub_nonpos_of_finite {a b : Float} (ha : a.isFinite = true) (hb : b.isFinite = true) :
    a - b ≤ 0 ↔ a ≤ b := by
  have hsub := sub_rounds ha hb
  have h0 : (0 : Float).isFinite = true := by decide
  have hzero : toRat 0 = 0 := rfl
  rw [le_iff_toRat_le ha hb]
  constructor
  · intro h
    by_contra hlt
    obtain ⟨k, hk⟩ := exists_multiple ha
    obtain ⟨l, hl⟩ := exists_multiple hb
    have hunit : (0 : ℚ) < 2 ^ (-1074 : ℤ) := by positivity
    rw [hk, hl, mul_le_mul_iff_of_pos_right hunit, not_le] at hlt
    have hle : toRat leastPositive ≤ toRat a - toRat b := by
      have hone : (l : ℚ) + 1 ≤ k := by exact_mod_cast Int.add_one_le_of_lt (by exact_mod_cast hlt)
      rw [toRat_leastPositive, hk, hl, ← sub_mul]
      exact le_mul_of_one_le_left hunit.le (by linarith)
    have hpos := Scalar.Lawful.le_trans (hsub.ge isFinite_leastPositive hle) h
    rw [le_iff_toRat_le isFinite_leastPositive h0, toRat_leastPositive, hzero] at hpos
    exact hpos.not_gt hunit
  · intro h
    exact hsub.le h0 (by rw [hzero]; linarith)

theorem onSide_negative_unpack_pack {u : UnpackedFloat} (h : u.isFinite = false) :
    OnSide .negative (UnpackedFloat.unpack Format.binary64 (UnpackedFloat.pack Format.binary64 u)) ↔
      u = .infinity .negative := by
  cases u with
  | notANumber => exact ⟨fun h => h.elim, nofun⟩
  | infinity s =>
    rw [Representable.unpack_pack (u := .infinity s) trivial]
    cases s <;> simp [OnSide]
  | zero s => cases h
  | finite s m e hm => cases h

theorem sub_nonpos_of_not_finite {a b : Float} (h : a.isFinite = false ∨ b.isFinite = false) :
    a - b ≤ 0 ↔ a < b ∨ a ≤ b ∧ a.isFinite = true := by
  rw [nonpos_iff, float_lt_iff, float_le_iff]
  change a.toModel.unpack.isFinite = false ∨ b.toModel.unpack.isFinite = false at h
  change OnSide .negative (UnpackedFloat.unpack _ (UnpackedFloat.pack _ (UnpackedFloat.sub _ _ _)))
    ↔ (a.toModel.unpack.isNaN = false ∧ b.toModel.unpack.isNaN = false ∧ _) ∨
      (a.toModel.unpack.isNaN = false ∧ b.toModel.unpack.isNaN = false ∧ _) ∧
        a.toModel.unpack.isFinite = true
  generalize a.toModel.unpack = u at h ⊢
  generalize b.toModel.unpack = v at h ⊢
  have hp : -Sign.positive = .negative := rfl
  have hn : -Sign.negative = .positive := rfl
  have hsub : (UnpackedFloat.sub Format.binary64 u v).isFinite = false := by
    rcases u with (_ | _) | _ | _ | ⟨_, m, e, hm⟩ <;>
      rcases v with (_ | _) | _ | _ | ⟨_, n, d, hn⟩ <;>
      simp_all [UnpackedFloat.sub, UnpackedFloat.isFinite]
  rw [onSide_negative_unpack_pack hsub]
  rcases u with (_ | _) | _ | _ | ⟨_ | _, m, e, hm⟩ <;>
    rcases v with (_ | _) | _ | _ | ⟨_ | _, n, d, hn⟩ <;>
    simp_all [UnpackedFloat.sub, UnpackedFloat.isFinite, UnpackedFloat.isNaN, rank,
      Prod.Lex.lt_iff, Prod.Lex.le_iff]

theorem rank_neg_le {u v : UnpackedFloat} (h : rank u ≤ rank v) : rank v.neg ≤ rank u.neg := by
  have hp : -Sign.positive = .negative := rfl
  have hn : -Sign.negative = .positive := rfl
  rcases u with (_ | _) | _ | _ | ⟨_ | _, m, e, hm⟩ <;>
    rcases v with (_ | _) | _ | _ | ⟨_ | _, n, d, hn⟩ <;>
    simp_all [UnpackedFloat.neg, rank, Prod.Lex.le_iff] <;> omega

instance : Scalar.Extended Float where
  isFinite_infinity := by decide
  isFinite_nan := by decide
  isFinite_neg a := by
    change (-a).toModel.unpack.isFinite = a.toModel.unpack.isFinite
    rw [unpack_neg]
    cases a.toModel.unpack <;> rfl
  neg_le_neg {a b} h := by
    obtain ⟨ha, hb, hle⟩ := float_le_iff.1 h
    refine float_le_iff.2 ⟨by rwa [isNaN_neg], by rwa [isNaN_neg], ?_⟩
    rw [unpack_neg, unpack_neg]
    exact rank_neg_le hle
  lt_of_not_finite {a b c} ha hb hc h := by
    obtain ⟨hn, -, hle⟩ := float_le_iff.1 h
    refine float_lt_iff.2 ⟨hn, isNaN_of_isFinite hb, ?_⟩
    change c.toModel.unpack.isFinite = false at hc
    change c.toModel.unpack.isNaN = false at hn
    generalize c.toModel.unpack = u at hc hn hle ⊢
    cases u with
    | notANumber => cases hn
    | zero s => cases hc
    | finite s m e hm => cases hc
    | infinity s =>
      cases s with
      | negative => exact (rank_infinities (a := b.toModel.unpack) hb).1
      | positive => exact absurd hle (rank_infinities (a := a.toModel.unpack) ha).2.not_ge
  sub_nonpos_iff {a b} := by
    by_cases ha : a.isFinite = true
    · by_cases hb : b.isFinite = true
      · have ha' : Scalar.isFinite a = true := ha
        rw [sub_nonpos_of_finite ha hb]
        simp only [ha', and_true]
        exact ⟨.inr, fun h => h.elim Scalar.Lawful.le_of_lt id⟩
      · exact sub_nonpos_of_not_finite (.inr (eq_false_of_ne_true hb))
    · exact sub_nonpos_of_not_finite (.inl (eq_false_of_ne_true ha))

instance : Scalar.Equated Float where
  beq_iff := float_beq_iff

end Optima.Binary64
