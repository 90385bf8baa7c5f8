import Optima.Proofs.Scalar.Sums

namespace Optima.Binary64

open Float.Model
open UnpackedFloat hiding pack unpack

def signedAmount : Sign → ℚ → ℚ
  | .negative, q => -q
  | .positive, q => q

def worth : UnpackedFloat → ℚ
  | .finite s m e _ => signedAmount s (amount m e)
  | _ => 0

def toRat (a : Float) : ℚ := worth a.toModel.unpack

theorem amount_nonneg (m : ℕ) (e : ℤ) : 0 ≤ amount m e := by
  unfold amount
  positivity

theorem amount_pos {m : ℕ} (h : 0 < m) (e : ℤ) : 0 < amount m e := by
  unfold amount
  positivity

@[simp] theorem amount_zero (e : ℤ) : amount 0 e = 0 := by simp [amount]

theorem Canonical.amount_le_iff {m n : ℕ} {d e : ℤ} (hm : Canonical m d) (hn : Canonical n e) :
    amount m d ≤ amount n e ↔ d < e ∨ d = e ∧ m ≤ n := by
  rw [← units_le_iff_amount_le hm.low hn.low, hm.units_le_iff hn]

theorem canonical_zero : Canonical 0 (-1074) := ⟨by norm_num, le_rfl, .inr rfl⟩

theorem canonical_top : Canonical (2 ^ 52) 972 := ⟨by norm_num, by norm_num, .inl le_rfl⟩

theorem amount_top : amount (2 ^ 52) 972 = 2 ^ 1024 := by
  have h : (2 : ℚ) ^ (972 : ℤ) = 2 ^ 972 := zpow_natCast 2 972
  rw [amount, h, Nat.cast_pow, Nat.cast_ofNat, ← pow_add]

theorem Canonical.amount_lt {m : ℕ} {e : ℤ} (h : Canonical m e) :
    amount m e < 2 ^ 1024 ↔ e ≤ 971 := by
  rw [← amount_top, ← not_le, canonical_top.amount_le_iff h, not_or]
  constructor
  · rintro ⟨hlt, heq⟩
    by_contra hgt
    obtain rfl : e = 972 := by omega
    exact heq ⟨rfl, h.normal.resolve_right (by norm_num)⟩
  · intro he
    exact ⟨by omega, fun h => by omega⟩

theorem rank_le_iff {u v : UnpackedFloat} (hu : Representable u) (hv : Representable v)
    (fu : u.isFinite = true) (fv : v.isFinite = true) : rank u ≤ rank v ↔ worth u ≤ worth v := by
  cases u with
  | infinity s => cases fu
  | notANumber => cases fu
  | zero s =>
    cases v with
    | infinity t => cases fv
    | notANumber => cases fv
    | zero t => simp [rank, worth]
    | finite t n e hn =>
      have := amount_pos hn e
      cases t with
      | negative => simpa [rank, worth, Prod.Lex.le_iff, signedAmount] using this
      | positive => simpa [rank, worth, Prod.Lex.le_iff, signedAmount] using this.le
  | finite s m d hm =>
    have hpos := amount_pos hm d
    cases v with
    | infinity t => cases fv
    | notANumber => cases fv
    | zero t =>
      cases s with
      | negative => simpa [rank, worth, Prod.Lex.le_iff, signedAmount] using hpos.le
      | positive => simpa [rank, worth, Prod.Lex.le_iff, signedAmount] using hpos
    | finite t n e hn =>
      have hpos' := amount_pos hn e
      have hle := units_le_iff_amount_le (m := m) (n := n) hu.1.low hv.1.low
      have hge := units_le_iff_amount_le (m := n) (n := m) hv.1.low hu.1.low
      cases s with
      | negative =>
        cases t with
        | negative => rw [rank_negative_le hu.1 hv.1, hge]; simp [worth, signedAmount]
        | positive =>
          have : -amount m d ≤ amount n e := by linarith
          simpa [rank, worth, Prod.Lex.le_iff, signedAmount] using this
      | positive =>
        cases t with
        | negative =>
          have : -amount n e < amount m d := by linarith
          simpa [rank, worth, Prod.Lex.le_iff, signedAmount] using this
        | positive => rw [rank_positive_le hu.1 hv.1, hle]; rfl

theorem le_iff_toRat_le {a b : Float} (ha : a.isFinite = true) (hb : b.isFinite = true) :
    a ≤ b ↔ toRat a ≤ toRat b := by
  rw [float_le_iff, and_iff_right (isNaN_of_isFinite ha), and_iff_right (isNaN_of_isFinite hb)]
  exact rank_le_iff (representable_unpack a) (representable_unpack b) ha hb

theorem lt_iff_toRat_lt {a b : Float} (ha : a.isFinite = true) (hb : b.isFinite = true) :
    a < b ↔ toRat a < toRat b := by
  rw [Scalar.Lawful.lt_iff, le_iff_toRat_le ha hb, le_iff_toRat_le hb ha, lt_iff_le_not_ge]

theorem exists_canonical {a : Float} (h : a.isFinite = true) :
    ∃ s m e, Canonical m e ∧ e ≤ 971 ∧ toRat a = signedAmount s (amount m e) := by
  have hr := representable_unpack a
  change a.toModel.unpack.isFinite = true at h
  rw [toRat]
  generalize a.toModel.unpack = u at h hr
  cases u with
  | infinity s => cases h
  | notANumber => cases h
  | zero s =>
    exact ⟨.positive, 0, -1074, canonical_zero, by norm_num, by simp [worth, signedAmount]⟩
  | finite s m e hm => exact ⟨s, m, e, hr.1, hr.2, rfl⟩

def ofUnpacked (u : UnpackedFloat) : Float := .ofModel (.pack u)

theorem unpack_ofUnpacked (u : UnpackedFloat) : (ofUnpacked u).toModel.unpack =
    UnpackedFloat.unpack Format.binary64 (UnpackedFloat.pack Format.binary64 u) := rfl

theorem unpack_pack_zero (s : Sign) : UnpackedFloat.unpack Format.binary64
    (UnpackedFloat.pack Format.binary64 (.zero s)) = .zero s := by
  cases s <;> rfl

theorem unpack_signed {m : ℕ} {e : ℤ} (h : Canonical m e) (he : e ≤ 971) (s : Sign) :
    (ofUnpacked (signed s m e)).toModel.unpack = signed s m e := by
  rw [unpack_ofUnpacked, signed]
  split
  · exact unpack_pack_zero s
  · next hm => exact h.unpack_pack s (Nat.pos_of_ne_zero hm) he

theorem isFinite_signed {m : ℕ} {e : ℤ} (h : Canonical m e) (he : e ≤ 971) (s : Sign) :
    (ofUnpacked (signed s m e)).isFinite = true := by
  change (ofUnpacked (signed s m e)).toModel.unpack.isFinite = true
  rw [unpack_signed h he, signed]
  split <;> rfl

theorem toRat_signed {m : ℕ} {e : ℤ} (h : Canonical m e) (he : e ≤ 971) (s : Sign) :
    toRat (ofUnpacked (signed s m e)) = signedAmount s (amount m e) := by
  rw [toRat, unpack_signed h he, signed]
  split
  · next hm => cases s <;> simp [hm, worth, signedAmount]
  · rfl

theorem unpack_overflow {m : ℕ} {e : ℤ} (h : Canonical m e) (he : 971 < e) (s : Sign) :
    (ofUnpacked (signed s m e)).toModel.unpack = .infinity s := by
  have hm : 0 < m := by
    have := h.normal.resolve_right (by omega)
    omega
  rw [unpack_ofUnpacked, signed, dif_neg hm.ne', unpack_pack_overflow s hm he]

/-- A rational number rounded to the format: no finite number lies between, and what is too great
for the format becomes infinite. -/
structure Rounds (q : ℚ) (x : Float) : Prop where
  isNaN : x.isNaN = false
  ge {c : Float} : c.isFinite = true → toRat c ≤ q → c ≤ x
  le {c : Float} : c.isFinite = true → q ≤ toRat c → x ≤ c
  abs_lt : x.isFinite = true → |q| < 2 ^ 1024

theorem le_infinity {a x : Float} (ha : a.isFinite = true)
    (hx : x.toModel.unpack = .infinity .positive) : a ≤ x := by
  have hn : x.isNaN = false := by
    change x.toModel.unpack.isNaN = false
    rw [hx]
    rfl
  refine float_le_iff.2 ⟨isNaN_of_isFinite ha, hn, ?_⟩
  rw [hx]
  exact (rank_infinities (a := a.toModel.unpack) ha).2.le

theorem infinity_le {a x : Float} (ha : a.isFinite = true)
    (hx : x.toModel.unpack = .infinity .negative) : x ≤ a := by
  have hn : x.isNaN = false := by
    change x.toModel.unpack.isNaN = false
    rw [hx]
    rfl
  refine float_le_iff.2 ⟨hn, isNaN_of_isFinite ha, ?_⟩
  rw [hx]
  exact (rank_infinities (a := a.toModel.unpack) ha).1.le

theorem Nearby.amount_le {q : ℚ} {n a : ℕ} {d b : ℤ} (h : Nearby q n d) (s t : Sign)
    (hq : 0 ≤ q) (hab : Canonical a b) :
    (signedAmount t (amount a b) ≤ signedAmount s q →
      signedAmount t (amount a b) ≤ signedAmount s (amount n d)) ∧
    (signedAmount s q ≤ signedAmount t (amount a b) →
      signedAmount s (amount n d) ≤ signedAmount t (amount a b)) := by
  have hnd := amount_nonneg n d
  have hle := h.le hab
  have hge := h.ge hab
  have hab := amount_nonneg a b
  have hzero : q = 0 → amount n d = 0 := by
    rintro rfl
    have := h.le canonical_zero (by simp)
    rw [amount_zero] at this
    exact le_antisymm this hnd
  cases s <;> cases t <;> simp only [signedAmount] <;> constructor <;> intro h'
  all_goals try linarith
  · linarith [hle (by linarith)]
  · linarith [hge (by linarith)]
  · linarith [hzero (by linarith)]
  · linarith [hzero (by linarith)]
  · exact hge h'
  · exact hle h'

theorem Nearby.rounds {q : ℚ} {n : ℕ} {d : ℤ} (h : Nearby q n d) (hq : 0 ≤ q) (s : Sign) :
    Rounds (signedAmount s q) (ofUnpacked (signed s n d)) := by
  by_cases hd : d ≤ 971
  · have hfin := isFinite_signed h.canonical hd s
    refine ⟨isNaN_of_isFinite hfin, ?_, ?_, ?_⟩
    · intro c hc hle
      obtain ⟨t, a, b, hab, -, he⟩ := exists_canonical hc
      rw [le_iff_toRat_le hc hfin, toRat_signed h.canonical hd, he]
      exact (h.amount_le s t hq hab).1 (he ▸ hle)
    · intro c hc hle
      obtain ⟨t, a, b, hab, -, he⟩ := exists_canonical hc
      rw [le_iff_toRat_le hfin hc, toRat_signed h.canonical hd, he]
      exact (h.amount_le s t hq hab).2 (he ▸ hle)
    · intro _
      have hlt : q < 2 ^ 1024 := by
        by_contra hge
        have hle := h.ge canonical_top (by rw [amount_top]; exact le_of_not_gt hge)
        rw [canonical_top.amount_le_iff h.canonical] at hle
        omega
      have habs : |signedAmount s q| = q := by
        cases s <;> simp [signedAmount, abs_of_nonneg hq]
      rwa [habs]
  · have hu := unpack_overflow h.canonical (not_le.1 hd) s
    have hn : (ofUnpacked (signed s n d)).isNaN = false := by
      change (ofUnpacked (signed s n d)).toModel.unpack.isNaN = false
      rw [hu]
      rfl
    have hbig {a : ℕ} {b : ℤ} (hab : Canonical a b) (hb : b ≤ 971) : amount a b < q := by
      by_contra hle
      have := (h.canonical.amount_le_iff hab).1 (h.le hab (le_of_not_gt hle))
      omega
    refine ⟨hn, ?_, ?_, ?_⟩
    · intro c hc hle
      cases s with
      | positive => exact le_infinity hc hu
      | negative =>
        obtain ⟨t, a, b, hab, hb, he⟩ := exists_canonical hc
        have := hbig hab hb
        have := amount_nonneg a b
        cases t <;> simp only [he, signedAmount] at hle <;> linarith
    · intro c hc hle
      cases s with
      | positive =>
        obtain ⟨t, a, b, hab, hb, he⟩ := exists_canonical hc
        have := hbig hab hb
        have := amount_nonneg a b
        cases t <;> simp only [he, signedAmount] at hle <;> linarith
      | negative => exact infinity_le hc hu
    · intro hf
      change (ofUnpacked (signed s n d)).toModel.unpack.isFinite = true at hf
      rw [hu] at hf
      cases hf

def Nearest (q : ℚ) (u : UnpackedFloat) : Prop :=
  ∃ s n d p, u = signed s n d ∧ Closest p n d ∧ 0 ≤ p ∧ q = signedAmount s p

theorem Nearest.rounds {q : ℚ} {u : UnpackedFloat} (h : Nearest q u) : Rounds q (ofUnpacked u) := by
  obtain ⟨s, n, d, p, rfl, hn, hp, rfl⟩ := h
  exact hn.nearby.rounds hp s

theorem Canonical.closest {m : ℕ} {e : ℤ} (h : Canonical m e) : Closest (amount m e) m e :=
  ⟨h, fun _ => by rw [sub_self, abs_zero]; exact abs_nonneg _⟩

theorem nearest_zero (s : Sign) : Nearest 0 (.zero s) :=
  ⟨s, 0, -1074, 0, rfl, by simpa using canonical_zero.closest, le_rfl,
    by cases s <;> simp [signedAmount]⟩

theorem nearest_finite {s : Sign} {m : ℕ} {e : ℤ} {hm : 0 < m}
    (h : Representable (.finite s m e hm)) :
    Nearest (signedAmount s (amount m e)) (.finite s m e hm) :=
  ⟨s, m, e, amount m e, by rw [signed, dif_neg hm.ne'], h.1.closest, amount_nonneg m e, rfl⟩

theorem round_nearest {m : ℕ} (hm : 0 < m) (e : ℤ) (s : Sign) :
    Nearest (signedAmount s (amount m e)) (UnpackedFloat.round Format.binary64 s m e) := by
  obtain ⟨n, d, he, hn⟩ := round_closest hm e s
  exact ⟨s, n, d, _, he, hn, amount_nonneg m e, rfl⟩

theorem normalize_nearest (m : ℤ) (e : ℤ) :
    Nearest (m * 2 ^ e) (UnpackedFloat.normalize Format.binary64 m e .positive) := by
  rcases lt_trichotomy m 0 with h | rfl | h
  · obtain ⟨n, rfl⟩ : ∃ n : ℕ, m = Sign.negative.apply n :=
      ⟨m.natAbs, by rw [Sign.apply]; omega⟩
    have hn : 0 < n := by simpa [Sign.apply] using h
    rw [normalize_apply .negative hn]
    simpa [Sign.apply, signedAmount, amount] using round_nearest hn e .negative
  · simpa [UnpackedFloat.normalize] using nearest_zero .positive
  · obtain ⟨n, rfl⟩ : ∃ n : ℕ, m = Sign.positive.apply n :=
      ⟨m.natAbs, by rw [Sign.apply]; omega⟩
    have hn : 0 < n := by simpa [Sign.apply] using h
    rw [normalize_apply .positive hn]
    simpa [Sign.apply, signedAmount, amount] using round_nearest hn e .positive

theorem amount_of_units_eq {m n : ℕ} {d e : ℤ} (hd : -1074 ≤ d) (he : -1074 ≤ e)
    (h : units m d = units n e) : amount m d = amount n e :=
  le_antisymm ((units_le_iff_amount_le hd he).1 h.le) ((units_le_iff_amount_le he hd).1 h.ge)

theorem apply_cast (s : Sign) (m : ℕ) (e : ℤ) :
    (s.apply m : ℚ) * 2 ^ e = signedAmount s (amount m e) := by
  cases s <;> simp [Sign.apply, signedAmount, amount]

theorem add_nearest {u v : UnpackedFloat} (hu : Representable u) (hv : Representable v)
    (fu : u.isFinite = true) (fv : v.isFinite = true) :
    Nearest (worth u + worth v) (UnpackedFloat.add Format.binary64 u v) := by
  cases u with
  | infinity s => cases fu
  | notANumber => cases fu
  | zero s =>
    cases v with
    | infinity t => cases fv
    | notANumber => cases fv
    | zero t =>
      simp only [worth, add_zero]
      cases s <;> cases t <;> exact nearest_zero _
    | finite t n e hn =>
      simp only [worth, zero_add]
      exact nearest_finite hv
  | finite s m d hm =>
    cases v with
    | infinity t => cases fv
    | notANumber => cases fv
    | zero t =>
      simp only [worth, add_zero]
      exact nearest_finite hu
    | finite t n e hn =>
      obtain ⟨p, q, j, hj, -, -, hp, hq, hadd⟩ := add_finite s t hm hn hu.1.low hv.1.low
      have hsum : worth (.finite s m d hm) + worth (.finite t n e hn) =
          ((s.apply p + t.apply q : ℤ) : ℚ) * 2 ^ j := by
        push_cast
        rw [add_mul, apply_cast, apply_cast, amount_of_units_eq hj hu.1.low hp,
          amount_of_units_eq hj hv.1.low hq]
        rfl
      rw [hadd, hsum]
      exact normalize_nearest _ j

theorem neg_signedAmount (s : Sign) (q : ℚ) : -signedAmount s q = signedAmount (-s) q := by
  cases s with
  | negative => exact InvolutiveNeg.neg_neg q
  | positive => rfl

theorem worth_neg (u : UnpackedFloat) : worth u.neg = -worth u := by
  cases u with
  | finite s m e hm => exact (neg_signedAmount s _).symm
  | _ => exact neg_zero.symm

theorem sub_eq_add (u v : UnpackedFloat) : UnpackedFloat.sub Format.binary64 u v =
    UnpackedFloat.add Format.binary64 u v.neg := by
  have happly (t : Sign) (m : ℤ) : (-t).apply m = -t.apply m := by
    cases t with
    | negative => exact (Int.neg_neg m).symm
    | positive => rfl
  cases u with
  | finite s m d hm =>
    cases v with
    | finite t n e hn =>
      simp only [UnpackedFloat.sub, UnpackedFloat.add, UnpackedFloat.neg, happly,
        Int.sub_eq_add_neg]
    | _ => rfl
  | _ => cases v <;> rfl

theorem sub_nearest {u v : UnpackedFloat} (hu : Representable u) (hv : Representable v)
    (fu : u.isFinite = true) (fv : v.isFinite = true) :
    Nearest (worth u - worth v) (UnpackedFloat.sub Format.binary64 u v) := by
  rw [sub_eq_add, sub_eq_add_neg, ← worth_neg]
  cases v with
  | infinity t => cases fv
  | notANumber => cases fv
  | zero t => exact add_nearest hu (v := .zero (-t)) trivial fu rfl
  | finite t n e hn => exact add_nearest hu (v := .finite (-t) n e hn) hv fu rfl

theorem signedAmount_mul (s t : Sign) (p q : ℚ) :
    signedAmount s p * signedAmount t q = signedAmount (s * t) (p * q) := by
  cases s with
  | negative =>
    cases t with
    | negative => exact neg_mul_neg p q
    | positive => exact neg_mul p q
  | positive =>
    cases t with
    | negative => exact mul_neg p q
    | positive => rfl

theorem amount_mul (m n : ℕ) (d e : ℤ) : amount m d * amount n e = amount (m * n) (d + e) := by
  rw [amount, amount, amount, zpow_add₀ two_ne_zero]
  push_cast
  ring

theorem exists_shift_mul {m n : ℕ} {d e : ℤ} (hm : 0 < m) (hn : 0 < n) (hd : Canonical m d)
    (he : Canonical n e) :
    ∃ k : ℕ, d + e + k = max (((m * n).log2 : ℤ) + 1 + (d + e) - 53) (-1074) := by
  refine ⟨(max (((m * n).log2 : ℤ) + 1 + (d + e) - 53) (-1074) - (d + e)).toNat, ?_⟩
  have hpos := Nat.mul_pos hm hn
  have hlog (h : 2 ^ 52 ≤ m * n) : 52 ≤ (m * n).log2 := (Nat.le_log2 hpos.ne').2 h
  obtain h | h := hd.normal
  · have := hlog (h.trans (Nat.le_mul_of_pos_right m hn))
    omega
  · obtain h' | h' := he.normal
    · have := hlog (h'.trans (Nat.le_mul_of_pos_left n hm))
      omega
    · omega

theorem mul_nearest {u v : UnpackedFloat} (hu : Representable u) (hv : Representable v)
    (fu : u.isFinite = true) (fv : v.isFinite = true) :
    Nearest (worth u * worth v) (UnpackedFloat.mul Format.binary64 u v) := by
  cases u with
  | infinity s => cases fu
  | notANumber => cases fu
  | zero s =>
    simp only [worth, zero_mul]
    cases v with
    | infinity t => cases fv
    | notANumber => cases fv
    | zero t => exact nearest_zero _
    | finite t n e hn => exact nearest_zero _
  | finite s m d hm =>
    cases v with
    | infinity t => cases fv
    | notANumber => cases fv
    | zero t =>
      simp only [worth, mul_zero]
      exact nearest_zero _
    | finite t n e hn =>
      obtain ⟨k, hk⟩ := exists_shift_mul hm hn hu.1 hv.1
      have hexact : Shows (.ofMantissaAndAccuracy (m * n) .exact) (m * n : ℕ) := .exact _
      obtain ⟨p, j, hr, hp⟩ := roundWithAccuracy_closest hk hexact (s * t)
      refine ⟨s * t, p, j, _, hr, hp, amount_nonneg _ _, ?_⟩
      simp only [worth]
      rw [signedAmount_mul, amount_mul, amount]

section

variable {a b : Float} (ha : a.isFinite = true) (hb : b.isFinite = true)

include ha hb

theorem add_rounds : Rounds (toRat a + toRat b) (a + b) :=
  (add_nearest (representable_unpack a) (representable_unpack b) ha hb).rounds

theorem sub_rounds : Rounds (toRat a - toRat b) (a - b) :=
  (sub_nearest (representable_unpack a) (representable_unpack b) ha hb).rounds

theorem mul_rounds : Rounds (toRat a * toRat b) (a * b) :=
  (mul_nearest (representable_unpack a) (representable_unpack b) ha hb).rounds

end

end Optima.Binary64
