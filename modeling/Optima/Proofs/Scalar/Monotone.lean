import Optima.Proofs.Scalar.Norm

namespace Optima.Binary64

open Float.Model
open UnpackedFloat hiding pack unpack

theorem Closest.signed_le {p : ℚ} {n a : ℕ} {d b : ℤ} (h : Closest p n d) (hp : 0 ≤ p) (s t : Sign)
    (hab : Canonical a b) : |signedAmount s (amount n d) - signedAmount s p| ≤
      |signedAmount t (amount a b) - signedAmount s p| := by
  have hflip (x y : ℚ) : |-x - -y| = |x - y| := by rw [neg_sub_neg, abs_sub_comm]
  have hsame : |signedAmount s (amount n d) - signedAmount s p| = |amount n d - p| := by
    cases s with
    | negative => exact hflip _ _
    | positive => rfl
  have hzero : |amount n d - p| ≤ p := by
    have hle := h.le canonical_zero
    rwa [amount_zero, zero_sub, abs_neg, abs_of_nonneg hp] at hle
  have hnonneg := amount_nonneg a b
  rw [hsame]
  cases s with
  | negative =>
    cases t with
    | negative => exact (h.le hab).trans_eq (hflip _ _).symm
    | positive =>
      refine hzero.trans ?_
      simp only [signedAmount, sub_neg_eq_add]
      rw [abs_of_nonneg (by linarith)]
      linarith
  | positive =>
    cases t with
    | negative =>
      refine hzero.trans ?_
      simp only [signedAmount]
      rw [abs_of_nonpos (by linarith)]
      linarith
    | positive => exact h.le hab

theorem le_of_closest {p q x y : ℚ} (hx : |x - p| ≤ |y - p|) (hy : |y - q| ≤ |x - q|) (h : p < q) :
    x ≤ y := by
  by_contra hlt
  rw [not_le] at hlt
  -- the middle of the two is not above the one amount and not below the other
  have hp : x + y ≤ 2 * p := by
    have hsq := sq_le_sq.2 hx
    by_contra hn
    nlinarith
  have hq : 2 * q ≤ x + y := by
    have hsq := sq_le_sq.2 hy
    by_contra hn
    nlinarith
  linarith

theorem isNaN_signed (s : Sign) (m : ℕ) (e : ℤ) : (ofUnpacked (signed s m e)).isNaN = false := by
  change (UnpackedFloat.unpack Format.binary64
    (UnpackedFloat.pack Format.binary64 (signed s m e))).isNaN = false
  rw [isNaN_unpack_pack, signed]
  split <;> rfl

theorem infinity_rank_le (u : UnpackedFloat) : rank (.infinity .negative) ≤ rank u := by
  rcases u with (_ | _) | _ | (_ | _) | ⟨_ | _, m, e, h⟩ <;> simp [rank, Prod.Lex.le_iff]

theorem ofUnpacked_signed_le {s t : Sign} {m n : ℕ} {d e : ℤ} (hm : Canonical m d)
    (hn : Canonical n e) (h : signedAmount s (amount m d) ≤ signedAmount t (amount n e)) :
    ofUnpacked (signed s m d) ≤ ofUnpacked (signed t n e) := by
  have hm0 := amount_nonneg m d
  have hn0 := amount_nonneg n e
  have hbelow : 971 < d → s = .negative →
      ofUnpacked (signed s m d) ≤ ofUnpacked (signed t n e) := by
    rintro hd rfl
    refine float_le_iff.2 ⟨isNaN_signed _ _ _, isNaN_signed _ _ _, ?_⟩
    rw [unpack_overflow hm hd]
    exact infinity_rank_le _
  have habove : 971 < e → t = .positive →
      ofUnpacked (signed s m d) ≤ ofUnpacked (signed t n e) := by
    rintro he rfl
    refine float_le_iff.2 ⟨isNaN_signed _ _ _, isNaN_signed _ _ _, ?_⟩
    rw [unpack_overflow hn he]
    exact rank_le_infinity _
  by_cases hd : d ≤ 971
  · by_cases he : e ≤ 971
    · rwa [le_iff_toRat_le (isFinite_signed hm hd s) (isFinite_signed hn he t),
        toRat_signed hm hd, toRat_signed hn he]
    · cases t with
      | positive => exact habove (not_le.1 he) rfl
      | negative =>
        have hlt : amount m d < amount n e :=
          (hm.amount_lt.2 hd).trans_le (not_lt.1 (mt hn.amount_lt.1 he))
        cases s <;> simp only [signedAmount] at h <;> linarith
  · have hge := not_lt.1 (mt hm.amount_lt.1 hd)
    cases s with
    | negative => exact hbelow (not_le.1 hd) rfl
    | positive =>
      cases t with
      | negative =>
        have hpos : 0 < amount m d := lt_of_lt_of_le (by positivity) hge
        simp only [signedAmount] at h
        linarith only [h, hpos, hn0]
      | positive =>
        have he : ¬ e ≤ 971 := fun he => (hge.trans h).not_gt (hn.amount_lt.2 he)
        exact habove (not_le.1 he) rfl

theorem Nearest.le {p q : ℚ} {u v : UnpackedFloat} (hu : Nearest p u) (hv : Nearest q v)
    (h : p < q) : ofUnpacked u ≤ ofUnpacked v := by
  obtain ⟨s, m, d, p, rfl, hm, hp, rfl⟩ := hu
  obtain ⟨t, n, e, q, rfl, hn, hq, rfl⟩ := hv
  exact ofUnpacked_signed_le hm.canonical hn.canonical
    (le_of_closest (hm.signed_le hp s t hn.canonical) (hn.signed_le hq t s hm.canonical) h)

theorem eq_of_worth_eq {u v : UnpackedFloat} (hu : Representable u) (hv : Representable v)
    (fu : u.isFinite = true) (fv : v.isFinite = true) (h : worth u = worth v) :
    u = v ∨ ∃ s t, u = .zero s ∧ v = .zero t := by
  have hrank : rank u = rank v :=
    le_antisymm ((rank_le_iff hu hv fu fv).2 h.le) ((rank_le_iff hv hu fv fu).2 h.ge)
  clear h hu hv
  rcases u with (_ | _) | _ | _ | ⟨_ | _, m, d, hm⟩ <;>
    rcases v with (_ | _) | _ | _ | ⟨_ | _, n, e, hn⟩ <;>
    simp_all [rank, UnpackedFloat.isFinite]

theorem packedRank_zero_add (s : Sign) {v : UnpackedFloat} (hv : Representable v)
    (fv : v.isFinite = true) :
    packedRank (UnpackedFloat.add Format.binary64 (.zero s) v) = rank v := by
  cases v with
  | notANumber => cases fv
  | infinity t => cases fv
  | zero t => cases s <;> cases t <;> decide
  | finite t n e hn => exact packedRank_eq hv

theorem packedRank_add_zero {u : UnpackedFloat} (s : Sign) (hu : Representable u)
    (fu : u.isFinite = true) :
    packedRank (UnpackedFloat.add Format.binary64 u (.zero s)) = rank u := by
  cases u with
  | notANumber => cases fu
  | infinity t => cases fu
  | zero t => cases s <;> cases t <;> decide
  | finite t n e hn => exact packedRank_eq hu

theorem packedRank_add_congr {u u' v v' : UnpackedFloat} (hu : Representable u)
    (hu' : Representable u') (hv : Representable v) (hv' : Representable v')
    (fu : u.isFinite = true) (fu' : u'.isFinite = true) (fv : v.isFinite = true)
    (fv' : v'.isFinite = true) (h : worth u = worth u') (h' : worth v = worth v') :
    packedRank (UnpackedFloat.add Format.binary64 u v) =
      packedRank (UnpackedFloat.add Format.binary64 u' v') := by
  obtain rfl | ⟨s, t, rfl, rfl⟩ := eq_of_worth_eq hu hu' fu fu' h
  · obtain rfl | ⟨s, t, rfl, rfl⟩ := eq_of_worth_eq hv hv' fv fv' h'
    · rfl
    · rw [packedRank_add_zero s hu fu, packedRank_add_zero t hu fu]
  · obtain rfl | ⟨s', t', rfl, rfl⟩ := eq_of_worth_eq hv hv' fv fv' h'
    · rw [packedRank_zero_add s hv fv, packedRank_zero_add t hv fv]
    · rw [packedRank_zero_add s hv fv, packedRank_zero_add t hv' fv']
      rfl

theorem le_cases {a b : Float} (h : a ≤ b) : a.toModel.unpack = .infinity .negative ∨
    b.toModel.unpack = .infinity .positive ∨ a.isFinite = true ∧ b.isFinite = true := by
  obtain ⟨ha, hb, h⟩ := float_le_iff.1 h
  change a.toModel.unpack.isNaN = false at ha
  change b.toModel.unpack.isNaN = false at hb
  change _ ∨ _ ∨ a.toModel.unpack.isFinite = true ∧ b.toModel.unpack.isFinite = true
  generalize a.toModel.unpack = u at ha h ⊢
  generalize b.toModel.unpack = v at hb h ⊢
  rcases u with (_ | _) | _ | _ | ⟨_ | _, m, d, hm⟩ <;>
    rcases v with (_ | _) | _ | _ | ⟨_ | _, n, e, hn⟩ <;>
    simp_all [rank, UnpackedFloat.isFinite, UnpackedFloat.isNaN, Prod.Lex.le_iff]

theorem unpack_infinity_add {a b : Float} {s : Sign} (ha : a.toModel.unpack = .infinity s)
    (hb : b.isFinite = true) : (a + b).toModel.unpack = .infinity s := by
  change b.toModel.unpack.isFinite = true at hb
  rw [unpack_add, ha]
  generalize b.toModel.unpack = v at hb ⊢
  cases v with
  | notANumber => cases hb
  | infinity t => cases hb
  | zero t => exact Representable.unpack_pack (u := .infinity s) trivial
  | finite t n e hn => exact Representable.unpack_pack (u := .infinity s) trivial

theorem exists_infinity {a : Float} (h : a.isNaN = false) (hf : a.isFinite = false) :
    ∃ s, a.toModel.unpack = .infinity s := by
  change a.toModel.unpack.isNaN = false at h
  change a.toModel.unpack.isFinite = false at hf
  generalize a.toModel.unpack = u at h hf ⊢
  cases u with
  | notANumber => cases h
  | infinity s => exact ⟨s, rfl⟩
  | zero s => cases hf
  | finite s m e hm => cases hf

theorem isNaN_add_of_finite {a b : Float} (ha : a.isNaN = false) (hb : b.isFinite = true) :
    (a + b).isNaN = false := by
  cases hf : a.isFinite with
  | true => exact (add_rounds hf hb).isNaN
  | false =>
    obtain ⟨s, hs⟩ := exists_infinity ha hf
    change (a + b).toModel.unpack.isNaN = false
    rw [unpack_infinity_add hs hb]
    rfl

section

variable {a a' b b' : Float} (hb : b.isFinite = true) (hb' : b'.isFinite = true) (hab : a ≤ a')
  (hbb : b ≤ b')

include hb hb' hab hbb

theorem add_le_add_of_finite (ha : a.isFinite = true) (ha' : a'.isFinite = true) :
    a + b ≤ a' + b' := by
  have hra := representable_unpack a
  have hra' := representable_unpack a'
  have hrb := representable_unpack b
  have hrb' := representable_unpack b'
  have hqa := (le_iff_toRat_le ha ha').1 hab
  have hqb := (le_iff_toRat_le hb hb').1 hbb
  obtain h | h := (add_le_add hqa hqb).lt_or_eq
  · exact (add_nearest hra hrb ha hb).le (add_nearest hra' hrb' ha' hb') h
  · have hqa : toRat a = toRat a' := by linarith
    have hqb : toRat b = toRat b' := by linarith
    refine float_le_iff.2 ⟨(add_rounds ha hb).isNaN, (add_rounds ha' hb').isNaN, ?_⟩
    exact (packedRank_add_congr hra hra' hrb hrb' ha ha' hb hb' hqa hqb).le

theorem add_le_add_float : a + b ≤ a' + b' := by
  have hn := isNaN_add_of_finite (Scalar.Lawful.isNaN_of_le hab).1 hb
  have hn' := isNaN_add_of_finite (Scalar.Lawful.isNaN_of_le hab).2 hb'
  obtain ha | ha' | ⟨ha, ha'⟩ := le_cases hab
  · refine float_le_iff.2 ⟨hn, hn', ?_⟩
    rw [unpack_infinity_add ha hb]
    exact infinity_rank_le _
  · refine float_le_iff.2 ⟨hn, hn', ?_⟩
    rw [unpack_infinity_add ha' hb']
    exact rank_le_infinity _
  · exact add_le_add_of_finite hb hb' hab hbb ha ha'

end

theorem shows_quotient (m : ℕ) {k : ℕ} (hk : 0 < k) :
    Shows (.ofMantissaAndAccuracy (m / k) (accuracyOfFraction (m % k) k)) ((m : ℚ) / k) := by
  have hpos : (0 : ℚ) < k := by exact_mod_cast hk
  obtain ⟨q, r, hq, hr⟩ : ∃ q r, m / k = q ∧ m % k = r := ⟨_, _, rfl, rfl⟩
  have hrk : (r : ℚ) < k := by
    rw [← hr]
    exact_mod_cast Nat.mod_lt m hk
  have hv : (m : ℚ) / k = q + r / k := by
    have hm : (m : ℚ) = k * q + r := by
      rw [← hq, ← hr]
      exact_mod_cast (Nat.div_add_mod m k).symm
    rw [hm]
    field_simp
  rw [hq, hr, hv, accuracyOfFraction]
  split
  · next h =>
    rw [h, Nat.cast_zero, zero_div, add_zero]
    exact .exact q
  · next h =>
    have hr0 : (0 : ℚ) < r := by exact_mod_cast Nat.pos_of_ne_zero h
    have hfrac0 : 0 < (r : ℚ) / k := div_pos hr0 hpos
    have hfrac1 : (r : ℚ) / k < 1 := (div_lt_one hpos).2 hrk
    rcases lt_trichotomy (2 * r) k with hlt | heq | hgt
    · have hhalf : (r : ℚ) / k < 1 / 2 := by
        rw [div_lt_div_iff₀ hpos two_pos, one_mul, mul_comm]
        exact_mod_cast hlt
      rw [compare_lt_iff_lt.2 hlt]
      exact .below (by linarith) (by linarith)
    · have hhalf : (r : ℚ) / k = 1 / 2 := by
        rw [div_eq_div_iff hpos.ne' two_ne_zero, one_mul, mul_comm]
        exact_mod_cast heq
      rw [compare_eq_iff_eq.2 heq, hhalf]
      exact .half q
    · have hhalf : 1 / 2 < (r : ℚ) / k := by
        rw [div_lt_div_iff₀ two_pos hpos, one_mul, mul_comm]
        exact_mod_cast hgt
      rw [compare_gt_iff_gt.2 hgt]
      exact .above (by linarith) (by linarith)

theorem exists_shift_div {m n j : ℕ} {d e t : ℤ} (hm : 0 < m) (hn : 0 < n) (hj : d - e = t + j)
    (ht : t ≤ max (m.log2 + 1 + d - (n.log2 + 1 + e) - 53) (-1074)) :
    ∃ k : ℕ, t + k = max (((m * 2 ^ j / n).log2 : ℤ) + 1 + t - 53) (-1074) := by
  refine ⟨(max (((m * 2 ^ j / n).log2 : ℤ) + 1 + t - 53) (-1074) - t).toNat, ?_⟩
  by_cases hlow : t ≤ -1074
  · omega
  · have hquotient : 2 ^ 52 ≤ m * 2 ^ j / n := by
      rw [Nat.le_div_iff_mul_le hn]
      calc 2 ^ 52 * n ≤ 2 ^ 52 * 2 ^ (n.log2 + 1) :=
            Nat.mul_le_mul_left _ Nat.lt_log2_self.le
        _ = 2 ^ (52 + (n.log2 + 1)) := (pow_add 2 _ _).symm
        _ ≤ 2 ^ (m.log2 + j) := Nat.pow_le_pow_right (by norm_num) (by omega)
        _ = 2 ^ m.log2 * 2 ^ j := pow_add 2 _ _
        _ ≤ m * 2 ^ j := Nat.mul_le_mul_right _ (Nat.log2_self_le hm.ne')
    have hbits : 52 ≤ (m * 2 ^ j / n).log2 :=
      (Nat.le_log2 (Nat.pos_iff_ne_zero.1 (lt_of_lt_of_le (by norm_num) hquotient))).2 hquotient
    omega

theorem div_nearest {u : UnpackedFloat} (fu : u.isFinite = true) {n : ℕ} (e : ℤ) (hn : 0 < n) :
    Nearest (worth u / amount n e)
      (UnpackedFloat.div Format.binary64 u (.finite .positive n e hn)) := by
  cases u with
  | infinity s => cases fu
  | notANumber => cases fu
  | zero s =>
    simp only [worth, zero_div]
    exact nearest_zero _
  | finite s m d hm =>
    obtain ⟨t, ht⟩ : ∃ t, t = min (d - e)
      (Format.binary64.targetExponent (totalExponent m d - totalExponent n e)) := ⟨_, rfl⟩
    have hdiff : t ≤ d - e := ht ▸ min_le_left _ _
    have htarget : t ≤ max (m.log2 + 1 + d - (n.log2 + 1 + e) - 53) (-1074) :=
      ht ▸ min_le_right _ _
    obtain ⟨j, hj⟩ : ∃ j : ℕ, d - e = t + j := ⟨(d - e - t).toNat, by omega⟩
    obtain ⟨k, hk⟩ := exists_shift_div hm hn hj htarget
    obtain ⟨p, b, hround, hp⟩ :=
      roundWithAccuracy_closest hk (shows_quotient (m * 2 ^ j) hn) (s / .positive)
    have hshift : (d - e - t).toNat = j := by omega
    refine ⟨s / .positive, p, b, _, ?_, hp, by positivity, ?_⟩
    · simp only [UnpackedFloat.div, divCore, ← ht, hshift, Nat.shiftLeft_eq, hround]
    · have hamount : amount m d / amount n e = ((m * 2 ^ j : ℕ) : ℚ) / n * 2 ^ t := by
        have hd : d = e + t + j := by omega
        rw [hd, ← amount_mul_pow, amount, amount, zpow_add₀ two_ne_zero]
        field_simp
      rw [← hamount, worth]
      cases s with
      | negative => exact neg_div _ _
      | positive => rfl

theorem isNaN_div_iff {a c : Float} (hc : 0 < c) : (a / c).isNaN = false ↔
    a.isNaN = false ∧ (a.isFinite = true ∨ c.isFinite = true) := by
  rw [pos_iff] at hc
  rw [isNaN_div]
  change _ ↔ a.toModel.unpack.isNaN = false ∧
    (a.toModel.unpack.isFinite = true ∨ c.toModel.unpack.isFinite = true)
  generalize a.toModel.unpack = u
  generalize c.toModel.unpack = v at hc ⊢
  rcases u with s | s | s | ⟨s, m, d, hm⟩ <;> rcases v with t | t | t | ⟨t, n, e, hn⟩ <;>
    simp_all [Beyond, UnpackedFloat.div, UnpackedFloat.isNaN, UnpackedFloat.isFinite]
  exact (onSide_roundWithAccuracy _ _ _ _).isNaN

theorem packedRank_zero (s : Sign) : packedRank (.zero s) = rank (.zero .positive) := by
  cases s <;> decide

theorem packedRank_infinity (s : Sign) : packedRank (.infinity s) = rank (.infinity s) :=
  packedRank_eq (u := .infinity s) trivial

theorem packedRank_div_infinity {u : UnpackedFloat} (fu : u.isFinite = true) (t : Sign) :
    packedRank (UnpackedFloat.div Format.binary64 u (.infinity t)) = rank (.zero .positive) := by
  cases u with
  | notANumber => cases fu
  | infinity s => cases fu
  | zero s => exact packedRank_zero _
  | finite s m d hm => exact packedRank_zero _

theorem packedRank_div_le {a b : Float} (hab : a ≤ b) {n : ℕ} (e : ℤ) (hn : 0 < n) :
    packedRank (UnpackedFloat.div Format.binary64 a.toModel.unpack (.finite .positive n e hn)) ≤
      packedRank
        (UnpackedFloat.div Format.binary64 b.toModel.unpack (.finite .positive n e hn)) := by
  obtain h | h | ⟨ha, hb⟩ := le_cases hab
  · rw [h]
    exact (packedRank_infinity .negative).trans_le (infinity_rank_le _)
  · rw [h]
    exact (rank_le_infinity _).trans_eq (packedRank_infinity .positive).symm
  · obtain h | h := ((le_iff_toRat_le ha hb).1 hab).lt_or_eq
    · have hlt := div_lt_div_of_pos_right h (amount_pos hn e)
      exact (float_le_iff.1 ((div_nearest ha e hn).le (div_nearest hb e hn) hlt)).2.2
    · obtain h | ⟨s, t, hs, ht⟩ :=
        eq_of_worth_eq (representable_unpack a) (representable_unpack b) ha hb h
      · rw [h]
      · rw [hs, ht]
        exact ((packedRank_zero _).trans (packedRank_zero _).symm).le

theorem div_le_div_float {a b c : Float} (hc : 0 < c) (hab : a ≤ b) (ha : (a / c).isNaN = false)
    (hb : (b / c).isNaN = false) : a / c ≤ b / c := by
  obtain ⟨-, hfa⟩ := (isNaN_div_iff hc).1 ha
  obtain ⟨-, hfb⟩ := (isNaN_div_iff hc).1 hb
  rw [pos_iff] at hc
  refine float_le_iff.2 ⟨ha, hb, ?_⟩
  change packedRank (UnpackedFloat.div Format.binary64 a.toModel.unpack c.toModel.unpack) ≤
    packedRank (UnpackedFloat.div Format.binary64 b.toModel.unpack c.toModel.unpack)
  change _ ∨ c.toModel.unpack.isFinite = true at hfa
  change _ ∨ c.toModel.unpack.isFinite = true at hfb
  generalize c.toModel.unpack = v at hc hfa hfb ⊢
  cases v with
  | notANumber => exact hc.elim
  | zero s => exact hc.elim
  | infinity s =>
    -- what is divided by infinity is finite, and the quotients are zeros
    rw [packedRank_div_infinity (hfa.resolve_right Bool.false_ne_true),
      packedRank_div_infinity (hfb.resolve_right Bool.false_ne_true)]
  | finite s n e hn =>
    obtain rfl : s = .positive := hc
    exact packedRank_div_le hab e hn

theorem div_between {a b d c : Float} (hc : 0 < c) (hab : a ≤ b) (hbd : b ≤ d)
    (ha : (a / c).isNaN = false) (hd : (d / c).isNaN = false) : a / c ≤ b / c ∧ b / c ≤ d / c := by
  obtain ⟨-, hfa⟩ := (isNaN_div_iff hc).1 ha
  obtain ⟨-, hfd⟩ := (isNaN_div_iff hc).1 hd
  have hb : (b / c).isNaN = false := by
    refine (isNaN_div_iff hc).2 ⟨(Scalar.Lawful.isNaN_of_le hbd).1, ?_⟩
    obtain hfa | hfc := hfa
    · obtain hfd | hfc := hfd
      · exact .inl (isFinite_of_between hab hbd hfa hfd)
      · exact .inr hfc
    · exact .inr hfc
  exact ⟨div_le_div_float hc hab ha hb, div_le_div_float hc hbd hb hd⟩

theorem div_rounds {a c : Float} (ha : a.isFinite = true) (hc : c.isFinite = true) (h : 0 < c) :
    Rounds (toRat a / toRat c) (a / c) := by
  rw [pos_iff] at h
  change c.toModel.unpack.isFinite = true at hc
  change Rounds (toRat a / worth c.toModel.unpack)
    (ofUnpacked (UnpackedFloat.div Format.binary64 a.toModel.unpack c.toModel.unpack))
  generalize c.toModel.unpack = v at hc h ⊢
  cases v with
  | notANumber => cases hc
  | infinity s => cases hc
  | zero s => exact h.elim
  | finite s n e hn =>
    obtain rfl : s = .positive := h
    exact (div_nearest ha e hn).rounds

theorem toFloat_rounds {n : ℕ} (hn : n < 2 ^ 53) : Rounds n n.toUInt64.toFloat := by
  have hsize : n.toUInt64.toNat = n := by
    rw [UInt64.toNat_ofNat']
    exact Nat.mod_eq_of_lt (hn.trans (by norm_num))
  change Rounds n (ofUnpacked (UnpackedFloat.ofNat Format.binary64 n.toUInt64.toNat))
  have h := (normalize_nearest n 0).rounds
  rw [zpow_zero, mul_one, Int.cast_natCast] at h
  rw [hsize]
  exact h

theorem ofScientific_nearest {n : ℕ} (hn : 2 ^ 53 ≤ n) :
    Nearest n (UnpackedFloat.ofScientific Format.binary64 n 0) := by
  have hpos : 0 < n := lt_of_lt_of_le (by norm_num) hn
  have hbits : 53 ≤ n.log2 := (Nat.le_log2 hpos.ne').2 hn
  have hlog := log2_mul_two_pow hpos 53
  have hk : (-53 : ℤ) + (n.log2 + 1 : ℕ) =
      max (((n * 2 ^ 53).log2 : ℤ) + 1 + -53 - 53) (-1074) := by
    rw [hlog]
    push_cast
    omega
  have hexact : Shows (.ofMantissaAndAccuracy (n * 2 ^ 53) .exact) (n * 2 ^ 53 : ℕ) := .exact _
  obtain ⟨m, d, hround, hm⟩ := roundWithAccuracy_closest hk hexact .positive
  refine ⟨.positive, m, d, _, ?_, hm, by positivity, ?_⟩
  · have hmantissa : n <<< 53 * 1 = n * 2 ^ 53 := by rw [mul_one, Nat.shiftLeft_eq]
    have hlow : -(2 ^ Format.binary64.exponentBits + n.log2 : ℤ) ≤ 0 :=
      neg_nonpos_of_nonneg (by positivity)
    rw [UnpackedFloat.ofScientific, dif_neg hpos.ne', if_neg (by norm_num),
      if_neg (not_lt.2 hlow), if_pos le_rfl]
    change roundWithAccuracy Format.binary64 .positive (n <<< 53 * 1) (-53) .exact = _
    rw [hmantissa, hround]
  · simp only [signedAmount]
    push_cast
    norm_num
    ring

theorem toRat_ofNat {n : ℕ} (hn : n < 2 ^ 53) :
    (Scalar.ofNat n : Float).isFinite = true ∧ toRat (Scalar.ofNat n) = n := by
  obtain ⟨c, hc, hvalue⟩ := exists_multiple_float (e := 0) hn (by norm_num) (by norm_num)
  rw [zpow_zero, mul_one] at hvalue
  obtain ⟨hx, hxn⟩ := (toFloat_rounds hn).exact hc hvalue
  have hpower : Float.exactlyRepresentablePowersOfTen[0] = 1 := by decide +kernel
  have hread : (Scalar.ofNat n : Float) = n.toUInt64.toFloat * 1 := by
    change Float.ofScientific n false 0 = _
    rw [Float.ofScientific, dif_pos ⟨hn, by norm_num⟩, ← hpower]
    rfl
  have hone : toRat n.toUInt64.toFloat * toRat 1 = n := by rw [toRat_one, mul_one, hxn]
  rw [hread]
  exact (hone ▸ mul_rounds hx (by decide)).exact hc hvalue

theorem one_le_ofNat {n : ℕ} (hn : 0 < n) : (1 : Float) ≤ Scalar.ofNat n := by
  have hone : toRat 1 ≤ n := by
    rw [toRat_one]
    exact_mod_cast hn
  by_cases h : n < 2 ^ 53
  · obtain ⟨hx, hxn⟩ := toRat_ofNat h
    rwa [le_iff_toRat_le (by decide) hx, hxn]
  · change (1 : Float) ≤ Float.ofScientific n false 0
    rw [Float.ofScientific, dif_neg (fun hsmall => h hsmall.1)]
    exact (ofScientific_nearest (not_lt.1 h)).rounds.ge (by decide) hone

theorem ofNat_pos {n : ℕ} (hn : 0 < n) : (0 : Float) < Scalar.ofNat n :=
  Scalar.Lawful.lt_of_lt_of_le (by decide) (one_le_ofNat hn)

end Optima.Binary64
