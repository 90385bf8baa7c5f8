import Optima.Proofs.Scalar.Amount

namespace Optima.Binary64

open Float.Model
open UnpackedFloat hiding pack unpack

def Beyond (s : Sign) : UnpackedFloat → Prop
  | .infinity t => t = s
  | .finite t _ _ _ => t = s
  | _ => False

theorem Beyond.onSide {s : Sign} {u : UnpackedFloat} (h : Beyond s u) : OnSide s u := by
  cases u with
  | notANumber => exact h.elim
  | zero t => exact h.elim
  | infinity t => exact h
  | finite t m e hm => exact h

theorem pos_iff {a : Float} : 0 < a ↔ Beyond .positive a.toModel.unpack := by
  have h0 : (0 : Float).isNaN = false := by decide
  rw [float_lt_iff, and_iff_right h0]
  change a.toModel.unpack.isNaN = false ∧ rank (.zero .positive) < _ ↔ _
  rcases a.toModel.unpack with (_ | _) | _ | _ | ⟨_ | _, m, e, h⟩ <;>
    simp [Beyond, rank, Prod.Lex.lt_iff, UnpackedFloat.isNaN]

theorem neg_iff {a : Float} : a < 0 ↔ Beyond .negative a.toModel.unpack := by
  have h0 : (0 : Float).isNaN = false := by decide
  rw [float_lt_iff, and_iff_right h0]
  change a.toModel.unpack.isNaN = false ∧ _ < rank (.zero .positive) ↔ _
  rcases a.toModel.unpack with (_ | _) | _ | _ | ⟨_ | _, m, e, h⟩ <;>
    simp [Beyond, rank, Prod.Lex.lt_iff, UnpackedFloat.isNaN]

theorem isNegative_word (s : Sign) (e : BitVec 11) (m : BitVec 52) :
    (UInt64.ofBitVec (word s e m) >>> 63 == 1) = (s == .negative) := by
  have hb : word s e m >>> 63 = s.toBitVec.setWidth 64 := by
    change (s.toBitVec ++ e ++ m) >>> 63 = _
    ext i hi
    grind
  have hw : UInt64.ofBitVec (word s e m) >>> 63 = UInt64.ofBitVec (s.toBitVec.setWidth 64) := by
    rw [← hb]
    rfl
  rw [hw]
  cases s <;> rfl

theorem Beyond.isNegative {s : Sign} {a : Float} (h : Beyond s a.toModel.unpack) :
    Scalar.isNegative a = (s == .negative) := by
  obtain ⟨⟨⟨b⟩, hb⟩⟩ := a
  obtain ⟨t, e, m, rfl⟩ := exists_word b
  change Beyond s (UnpackedFloat.unpack Format.binary64 (word t e m)) at h
  have ht : t = s := by
    rw [unpack_word, decoded] at h
    split at h
    · split at h
      · exact h
      · exact h.elim
    · split at h
      · split at h
        · exact h.elim
        · exact h
      · exact h
  rw [← ht]
  exact isNegative_word t e m

theorem Representable.unpack_pack {u : UnpackedFloat} (h : Representable u) :
    UnpackedFloat.unpack Format.binary64 (UnpackedFloat.pack Format.binary64 u) = u := by
  cases u with
  | notANumber => rfl
  | infinity s => cases s <;> rfl
  | zero s => exact unpack_pack_zero s
  | finite s m e hm => exact h.1.unpack_pack s hm h.2

theorem toRat_neg (a : Float) : toRat (-a) = -toRat a := by
  rw [toRat, unpack_neg, worth_neg]
  rfl

theorem float_sub_eq (a b : Float) : a - b = a + -b := by
  change ofUnpacked (UnpackedFloat.sub _ _ _) =
    ofUnpacked (UnpackedFloat.add _ _ (-b).toModel.unpack)
  rw [sub_eq_add, unpack_neg]

theorem neg_nonpos {a : Float} (h : 0 ≤ a) : -a ≤ 0 := by
  rw [nonneg_iff] at h
  rw [nonpos_iff, unpack_neg]
  generalize a.toModel.unpack = u at h ⊢
  cases u with
  | notANumber => exact h.elim
  | zero s => trivial
  | infinity s =>
    obtain rfl : s = .positive := h
    rfl
  | finite s m e hm =>
    obtain rfl : s = .positive := h
    rfl

theorem neg_lt_self {a : Float} (h : 0 < a) : -a < a :=
  Scalar.Lawful.lt_of_le_of_lt (neg_nonpos (Scalar.Lawful.le_of_lt h)) h

theorem sub_le {a b : Float} (hb : 0 ≤ b) (h : (a - b).isNaN = false) : a - b ≤ a := by
  rw [float_sub_eq] at h ⊢
  exact add_le (neg_nonpos hb) h

theorem isNaN_div (a b : Float) : (a / b).isNaN =
    (UnpackedFloat.div Format.binary64 a.toModel.unpack b.toModel.unpack).isNaN :=
  isNaN_unpack_pack _

theorem isNaN_of_div {a b : Float} (h : (a / b).isNaN = false) : a.isNaN = false := by
  rw [isNaN_div] at h
  change a.toModel.unpack.isNaN = false
  generalize a.toModel.unpack = u at h ⊢
  cases u with
  | notANumber => cases h
  | _ => rfl

theorem OnSide.div {s t : Sign} {u v : UnpackedFloat} (hu : OnSide s u) (hv : Beyond t v)
    (h : (UnpackedFloat.div Format.binary64 u v).isNaN = false) :
    OnSide (s / t) (UnpackedFloat.div Format.binary64 u v) := by
  cases v with
  | notANumber => exact hv.elim
  | zero t => exact hv.elim
  | infinity t' =>
    obtain rfl : t' = t := hv
    cases u <;> simp_all [UnpackedFloat.div, OnSide, UnpackedFloat.isNaN]
  | finite t' n e hn =>
    obtain rfl : t' = t := hv
    cases u <;> simp_all [UnpackedFloat.div, OnSide, UnpackedFloat.isNaN]
    exact onSide_roundWithAccuracy _ _ _ _

theorem mul_div_nonneg {s : Sign} {a b c : Float} (ha : Beyond s a.toModel.unpack) (hb : 0 ≤ b)
    (hc : Beyond s c.toModel.unpack) (h : (a * b / c).isNaN = false) : 0 ≤ a * b / c := by
  have hab := isNaN_of_div h
  rw [isNaN_mul] at hab
  rw [nonneg_iff] at hb
  have hmul := (ha.onSide.mul hb hab).unpack_pack
  rw [← unpack_mul] at hmul
  rw [isNaN_div] at h
  have hdiv := (hmul.div hc h).unpack_pack
  rw [nonneg_iff]
  cases s <;> exact hdiv

theorem Canonical.exists_double {m : ℕ} {e : ℤ} (h : Canonical m e) :
    ∃ n d, Canonical n d ∧ amount n d = 2 * amount m e := by
  by_cases hm : 2 ^ 52 ≤ m
  · refine ⟨m, e + 1, ⟨h.lt, h.low.trans (by omega), .inl hm⟩, ?_⟩
    rw [amount, amount, zpow_add_one₀ two_ne_zero]
    ring
  · refine ⟨2 * m, e, ⟨by have := h.lt; omega, h.low, .inr (h.normal.resolve_left hm)⟩, ?_⟩
    rw [amount, amount]
    push_cast
    ring

theorem abs_signedAmount (s : Sign) (m : ℕ) (e : ℤ) :
    |signedAmount s (amount m e)| = amount m e := by
  cases s <;> simp [signedAmount, abs_of_nonneg (amount_nonneg m e)]

theorem abs_toRat_lt {a : Float} (h : a.isFinite = true) : |toRat a| < 2 ^ 1024 := by
  obtain ⟨s, m, e, hc, he, hr⟩ := exists_canonical h
  rw [hr, abs_signedAmount]
  exact hc.amount_lt.2 he

theorem exists_double {a : Float} (ha : a.isFinite = true) (h : |2 * toRat a| < 2 ^ 1024) :
    ∃ c : Float, c.isFinite = true ∧ toRat c = 2 * toRat a := by
  obtain ⟨s, m, e, hc, -, hr⟩ := exists_canonical ha
  obtain ⟨n, d, hd, hn⟩ := hc.exists_double
  have htwo : signedAmount s (amount n d) = 2 * toRat a := by
    rw [hr, hn]
    cases s
    · exact (mul_neg _ _).symm
    · rfl
  rw [← htwo, abs_signedAmount, hd.amount_lt] at h
  exact ⟨ofUnpacked (signed s n d), isFinite_signed hd h s, (toRat_signed hd h s).trans htwo⟩

theorem unpack_half : (0.5 : Float).toModel.unpack =
    .finite .positive (2 ^ 52) (-53) (by decide) := rfl

theorem toRat_half : toRat 0.5 = 1 / 2 := by
  rw [toRat, unpack_half]
  norm_num [worth, signedAmount, amount]

theorem midpoint_between {a b : Float} (ha : a.isFinite = true) (hb : b.isFinite = true)
    (hab : a ≤ b) (h : (a + b).isFinite = true) : a ≤ 0.5 * (a + b) ∧ 0.5 * (a + b) ≤ b := by
  have hsum := add_rounds ha hb
  have hlt := abs_lt.1 (hsum.abs_lt h)
  have hmid := mul_rounds (show (0.5 : Float).isFinite = true by decide) h
  rw [toRat_half] at hmid
  have hle := (le_iff_toRat_le ha hb).1 hab
  have hs := abs_lt.1 (abs_toRat_lt h)
  refine ⟨hmid.ge ha ?_, hmid.le hb ?_⟩
  · have hlow : 2 * toRat a ≤ toRat (a + b) := by
      by_cases hover : -2 ^ 1024 < 2 * toRat a
      · have hdouble : 2 * toRat a ≤ toRat a + toRat b := by linarith
        obtain ⟨c, hc, he⟩ := exists_double ha (abs_lt.2 ⟨hover, hdouble.trans_lt hlt.2⟩)
        rw [← he, ← le_iff_toRat_le hc h]
        exact hsum.ge hc (by linarith)
      · exact (le_of_not_gt hover).trans hs.1.le
    linarith
  · have hhigh : toRat (a + b) ≤ 2 * toRat b := by
      by_cases hover : 2 * toRat b < 2 ^ 1024
      · have hdouble : toRat a + toRat b ≤ 2 * toRat b := by linarith
        obtain ⟨c, hc, he⟩ := exists_double hb (abs_lt.2 ⟨hlt.1.trans_le hdouble, hover⟩)
        rw [← he, ← le_iff_toRat_le h hc]
        exact hsum.le hc (by linarith)
      · exact hs.2.le.trans (le_of_not_gt hover)
    linarith

theorem isFinite_add_of_between {a b x y : Float} (ha : a.isFinite = true)
    (hb : b.isFinite = true) (hx : x.isFinite = true) (hy : y.isFinite = true)
    (hxx : (x + x).isFinite = true) (hyy : (y + y).isFinite = true) (hxa : x ≤ a) (hxb : x ≤ b)
    (hay : a ≤ y) (hby : b ≤ y) : (a + b).isFinite = true := by
  have hsum := add_rounds ha hb
  rw [le_iff_toRat_le hx ha] at hxa
  rw [le_iff_toRat_le hx hb] at hxb
  rw [le_iff_toRat_le ha hy] at hay
  rw [le_iff_toRat_le hb hy] at hby
  have hx2 := (add_rounds hx hx).abs_lt hxx
  have hy2 := (add_rounds hy hy).abs_lt hyy
  rw [← two_mul] at hx2 hy2
  obtain ⟨c, hc, hce⟩ := exists_double hx hx2
  obtain ⟨d, hd, hde⟩ := exists_double hy hy2
  exact isFinite_of_between (hsum.ge hc (by linarith)) (hsum.le hd (by linarith)) hc hd

theorem isFinite_of_half_mul {a : Float} (h : (0.5 * a).isFinite = true) : a.isFinite = true := by
  change (UnpackedFloat.unpack Format.binary64 (UnpackedFloat.pack Format.binary64
    (UnpackedFloat.mul Format.binary64 (0.5 : Float).toModel.unpack a.toModel.unpack))).isFinite =
      true at h
  rw [unpack_half] at h
  change a.toModel.unpack.isFinite = true
  generalize a.toModel.unpack = u at h ⊢
  cases u with
  | notANumber => cases h
  | infinity s => cases s <;> cases h
  | _ => rfl

theorem rank_le_infinity (u : UnpackedFloat) : rank u ≤ rank (.infinity .positive) := by
  rcases u with (_ | _) | _ | (_ | _) | ⟨_ | _, m, e, h⟩ <;> simp [rank, Prod.Lex.le_iff]

theorem isFinite_of_le_of_lt {a b c : Float} (ha : a.isFinite = true) (hab : a ≤ b) (hbc : b < c) :
    b.isFinite = true := by
  obtain ⟨-, hb, hab⟩ := float_le_iff.1 hab
  obtain ⟨-, hc, hbc⟩ := float_lt_iff.1 hbc
  have hlow := (rank_infinities (a := a.toModel.unpack) ha).1.trans_le hab
  change b.toModel.unpack.isNaN = false at hb
  change b.toModel.unpack.isFinite = true
  generalize b.toModel.unpack = v at hb hlow hbc ⊢
  cases v with
  | infinity s =>
    cases s with
    | negative => exact absurd hlow (lt_irrefl _)
    | positive => exact absurd hbc (rank_le_infinity _).not_gt
  | notANumber => cases hb
  | zero s => rfl
  | finite s m e h => rfl

theorem sub_between {a b q : Float} (ha : a.isFinite = true) (hb : b.isFinite = true)
    (h0 : 0 ≤ q) (h : q < b - a) : a ≤ b - q ∧ b - q ≤ b := by
  have hq := isFinite_of_le_of_lt (by decide) h0 h
  have hlt : toRat q < toRat b - toRat a := by
    by_contra hle
    exact (Scalar.Lawful.lt_iff.1 h).2 ((sub_rounds hb ha).le hq (le_of_not_gt hle))
  have hrest := sub_rounds hb hq
  rw [le_iff_toRat_le (by decide) hq] at h0
  have hzero : toRat 0 = 0 := rfl
  exact ⟨hrest.ge ha (by linarith), hrest.le hb (by linarith)⟩

theorem neg_or_pos {a b : Float} (ha : a.isNaN = false) (hb : 0 < b) (h : ¬ a.abs < b) :
    a < 0 ∨ 0 < a := by
  rw [neg_iff, pos_iff]
  have hz (s : Sign) (hu : a.toModel.unpack = .zero s) : a.abs < b := by
    rw [float_lt_iff] at hb ⊢
    have hu' : a.abs.toModel.unpack = (0 : Float).toModel.unpack := by
      change UnpackedFloat.unpack Format.binary64
        (UnpackedFloat.pack Format.binary64 a.toModel.unpack.abs) = _
      rw [hu]
      rfl
    rw [hu']
    exact ⟨by change a.abs.toModel.unpack.isNaN = false; rw [hu']; rfl, hb.2⟩
  change a.toModel.unpack.isNaN = false at ha
  generalize a.toModel.unpack = u at ha hz ⊢
  cases u with
  | notANumber => cases ha
  | zero s => exact absurd (hz s rfl) h
  | infinity s => cases s <;> simp [Beyond]
  | finite s m e hm => cases s <;> simp [Beyond]

end Optima.Binary64
