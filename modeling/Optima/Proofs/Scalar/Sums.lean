import Optima.Proofs.Scalar.Ordered
import Optima.Proofs.Scalar.Rounding

namespace Optima.Binary64

open Float.Model
open UnpackedFloat hiding pack unpack

def OnSide (s : Sign) : UnpackedFloat → Prop
  | .notANumber => False
  | .zero _ => True
  | .infinity t => t = s
  | .finite t _ _ _ => t = s

theorem OnSide.isNaN {s : Sign} {u : UnpackedFloat} (h : OnSide s u) : u.isNaN = false := by
  cases u with
  | notANumber => exact h.elim
  | zero => rfl
  | infinity => rfl
  | finite => rfl

theorem unpack_pack_subnormal (s : Sign) {m : ℕ} (hm : 0 < m) (h : m < 2 ^ 52) :
    UnpackedFloat.unpack Format.binary64 (UnpackedFloat.pack Format.binary64
      (.finite s m (-1074) hm)) = .finite s m (-1074) hm := by
  obtain ⟨v, rfl⟩ : ∃ v : BitVec 52, m = v.toNat := ⟨.ofNat 52 m, by simp; omega⟩
  have hv : v ≠ 0#52 := by
    rintro rfl
    exact absurd hm (by decide)
  rw [pack_subnormal, unpack_word, decoded, if_neg (by decide), if_pos rfl, dif_neg hv]

theorem unpack_pack_normal (s : Sign) {m : ℕ} {e : ℤ} (hm : 0 < m) (hlo : 2 ^ 52 ≤ m)
    (hhi : m < 2 ^ 53) (he : -1074 ≤ e) (he' : e ≤ 971) :
    UnpackedFloat.unpack Format.binary64 (UnpackedFloat.pack Format.binary64
      (.finite s m e hm)) = .finite s m e hm := by
  obtain ⟨v, rfl⟩ : ∃ v : BitVec 52, m = 4503599627370496 + v.toNat :=
    ⟨.ofNat 52 (m - 4503599627370496), by simp; omega⟩
  obtain ⟨w, rfl, hw, hw'⟩ : ∃ w : BitVec 11, e = (w.toNat : ℤ) - 1075 ∧ 0 < w.toNat ∧
      w.toNat < 2047 := ⟨.ofNat 11 (e + 1075).toNat, by simp; omega⟩
  have hmax : w ≠ -1#11 := by
    rintro rfl
    exact absurd hw' (by decide)
  have hzero : w ≠ 0#11 := by
    rintro rfl
    exact absurd hw (by decide)
  rw [pack_normal s v hw hw' hm, unpack_word, decoded, if_neg hmax, if_neg hzero]

theorem unpack_pack_overflow (s : Sign) {m : ℕ} {e : ℤ} (hm : 0 < m) (he : 971 < e) :
    UnpackedFloat.unpack Format.binary64 (UnpackedFloat.pack Format.binary64
      (.finite s m e hm)) = .infinity s := by
  have hb : Format.binary64.exponentBias = 1023 := by decide
  have hp : UnpackedFloat.pack Format.binary64 (.finite s m e hm) = word s (-1#11) 0#52 := by
    simp only [UnpackedFloat.pack, hb]
    rw [if_pos (by simp; omega)]
    rfl
  rw [hp, unpack_word]
  rfl

theorem onSide_decoded (s : Sign) {e : BitVec 11} {m : BitVec 52} (h : ¬(e = -1#11 ∧ m ≠ 0#52)) :
    OnSide s (decoded s e m) := by
  unfold decoded
  split
  · next he =>
    rw [if_pos (by simpa [he] using h)]
    rfl
  · split
    · split
      · trivial
      · rfl
    · rfl

theorem pack_finite (s : Sign) {m : ℕ} (e : ℤ) (hm : 0 < m) :
    ∃ v w, UnpackedFloat.pack Format.binary64 (.finite s m e hm) = word s v w ∧
      ¬(v = -1#11 ∧ w ≠ 0#52) := by
  simp only [UnpackedFloat.pack]
  split
  · exact ⟨-1#11, 0#52, rfl, by simp⟩
  · next h =>
    split
    · refine ⟨_, _, rfl, ?_⟩
      rintro ⟨hv, -⟩
      have := congrArg BitVec.toNat hv
      simp at this
      omega
    · exact ⟨0#11, _, rfl, fun h => absurd h.1 (by decide)⟩

theorem OnSide.unpack_pack {s : Sign} {u : UnpackedFloat} (h : OnSide s u) :
    OnSide s (UnpackedFloat.unpack Format.binary64 (UnpackedFloat.pack Format.binary64 u)) := by
  cases u with
  | notANumber => exact h.elim
  | zero t => cases t <;> trivial
  | infinity t => cases t <;> cases s <;> trivial
  | finite t m e hm =>
    obtain rfl : t = s := h
    obtain ⟨v, w, hp, hvw⟩ := pack_finite t e hm
    rw [hp, unpack_word]
    exact onSide_decoded t hvw

theorem isNaN_unpack_pack (u : UnpackedFloat) :
    (UnpackedFloat.unpack Format.binary64 (UnpackedFloat.pack Format.binary64 u)).isNaN =
      u.isNaN := by
  cases u with
  | notANumber => decide
  | zero t => exact (OnSide.unpack_pack (s := t) (u := .zero t) trivial).isNaN
  | infinity t => exact (OnSide.unpack_pack (s := t) (u := .infinity t) rfl).isNaN
  | finite t m e hm => exact (OnSide.unpack_pack (s := t) (u := .finite t m e hm) rfl).isNaN

theorem onSide_roundWithAccuracy (s : Sign) (m : ℕ) (e : ℤ) (accuracy : Accuracy) :
    OnSide s (roundWithAccuracy Format.binary64 s m e accuracy) := by
  unfold roundWithAccuracy
  dsimp only
  split
  · trivial
  · rfl

theorem onSide_round (s : Sign) (m : ℕ) (e : ℤ) : OnSide s (round Format.binary64 s m e) := by
  unfold UnpackedFloat.round
  exact onSide_roundWithAccuracy _ _ _ _

theorem onSide_normalize (s : Sign) (m : ℕ) (e : ℤ) (zero : Sign) :
    OnSide s (UnpackedFloat.normalize Format.binary64 (s.apply m) e zero) := by
  unfold UnpackedFloat.normalize
  split
  · next h =>
    have h := compare_lt_iff_lt.1 h
    cases s with
    | negative => exact onSide_round _ _ _
    | positive => exact absurd h (by simp [Sign.apply])
  · trivial
  · next h =>
    have h := compare_gt_iff_gt.1 h
    cases s with
    | negative => exact absurd h (by simp [Sign.apply])
    | positive => exact onSide_round _ _ _

theorem OnSide.mul {s t : Sign} {u v : UnpackedFloat} (hu : OnSide s u) (hv : OnSide t v)
    (h : (UnpackedFloat.mul Format.binary64 u v).isNaN = false) :
    OnSide (s * t) (UnpackedFloat.mul Format.binary64 u v) := by
  cases u <;> cases v <;> simp_all [UnpackedFloat.mul, OnSide, UnpackedFloat.isNaN]
  exact onSide_roundWithAccuracy _ _ _ _

theorem apply_add (s : Sign) (m n : ℕ) : s.apply m + s.apply n = s.apply (m + n : ℕ) := by
  cases s with
  | negative =>
    simp only [Sign.apply]
    omega
  | positive => rfl

theorem OnSide.add {s : Sign} {u v : UnpackedFloat} (hu : OnSide s u) (hv : OnSide s v) :
    OnSide s (UnpackedFloat.add Format.binary64 u v) := by
  cases u <;> cases v <;> simp_all [UnpackedFloat.add, OnSide]
  · next t t' => cases t <;> cases t' <;> trivial
  · rw [apply_add]
    exact onSide_normalize _ _ _ _

theorem onSide_positive_iff {u : UnpackedFloat} (s : Sign) :
    OnSide .positive u ↔ u.isNaN = false ∧ rank (.zero s) ≤ rank u := by
  rcases u with (_ | _) | _ | _ | ⟨_ | _, m, e, h⟩ <;>
    simp [OnSide, rank, Prod.Lex.le_iff, UnpackedFloat.isNaN]

theorem onSide_negative_iff {u : UnpackedFloat} (s : Sign) :
    OnSide .negative u ↔ u.isNaN = false ∧ rank u ≤ rank (.zero s) := by
  rcases u with (_ | _) | _ | _ | ⟨_ | _, m, e, h⟩ <;>
    simp [OnSide, rank, Prod.Lex.le_iff, UnpackedFloat.isNaN]

theorem nonneg_iff {a : Float} : 0 ≤ a ↔ OnSide .positive a.toModel.unpack := by
  have h0 : (0 : Float).isNaN = false := by decide
  rw [float_le_iff, onSide_positive_iff .positive]
  exact and_iff_right h0

theorem nonpos_iff {a : Float} : a ≤ 0 ↔ OnSide .negative a.toModel.unpack := by
  have h0 : (0 : Float).isNaN = false := by decide
  rw [float_le_iff, onSide_negative_iff .positive]
  exact and_congr_right fun _ => and_iff_right h0

theorem unpack_add (a b : Float) : (a + b).toModel.unpack =
    UnpackedFloat.unpack Format.binary64 (UnpackedFloat.pack Format.binary64
      (UnpackedFloat.add Format.binary64 a.toModel.unpack b.toModel.unpack)) := rfl

theorem unpack_mul (a b : Float) : (a * b).toModel.unpack =
    UnpackedFloat.unpack Format.binary64 (UnpackedFloat.pack Format.binary64
      (UnpackedFloat.mul Format.binary64 a.toModel.unpack b.toModel.unpack)) := rfl

theorem isNaN_add (a b : Float) : (a + b).isNaN =
    (UnpackedFloat.add Format.binary64 a.toModel.unpack b.toModel.unpack).isNaN :=
  isNaN_unpack_pack _

theorem isNaN_mul (a b : Float) : (a * b).isNaN =
    (UnpackedFloat.mul Format.binary64 a.toModel.unpack b.toModel.unpack).isNaN :=
  isNaN_unpack_pack _

theorem isNaN_of_add {a b : Float} (h : (a + b).isNaN = false) :
    a.isNaN = false ∧ b.isNaN = false := by
  rw [isNaN_add] at h
  change a.toModel.unpack.isNaN = false ∧ b.toModel.unpack.isNaN = false
  generalize a.toModel.unpack = u at h ⊢
  generalize b.toModel.unpack = v at h ⊢
  cases u with
  | notANumber => cases h
  | _ =>
    cases v with
    | notANumber => cases h
    | _ => exact ⟨rfl, rfl⟩

theorem isNaN_of_mul {a b : Float} (h : (a * b).isNaN = false) :
    a.isNaN = false ∧ b.isNaN = false := by
  rw [isNaN_mul] at h
  change a.toModel.unpack.isNaN = false ∧ b.toModel.unpack.isNaN = false
  generalize a.toModel.unpack = u at h ⊢
  generalize b.toModel.unpack = v at h ⊢
  cases u with
  | notANumber => cases h
  | _ =>
    cases v with
    | notANumber => cases h
    | _ => exact ⟨rfl, rfl⟩

theorem mul_nonneg {a b : Float} (ha : 0 ≤ a) (hb : 0 ≤ b) (h : (a * b).isNaN = false) :
    0 ≤ a * b := by
  rw [isNaN_mul] at h
  rw [nonneg_iff] at ha hb
  rw [nonneg_iff, unpack_mul]
  exact (ha.mul hb h).unpack_pack

theorem mul_nonpos {a b : Float} (ha : 0 ≤ a) (hb : b ≤ 0) (h : (a * b).isNaN = false) :
    a * b ≤ 0 := by
  rw [isNaN_mul] at h
  rw [nonneg_iff] at ha
  rw [nonpos_iff] at hb
  rw [nonpos_iff, unpack_mul]
  exact (ha.mul hb h).unpack_pack

theorem add_nonneg {a b : Float} (ha : 0 ≤ a) (hb : 0 ≤ b) : 0 ≤ a + b := by
  rw [nonneg_iff] at ha hb
  rw [nonneg_iff, unpack_add]
  exact (ha.add hb).unpack_pack

def Representable : UnpackedFloat → Prop
  | .finite _ m e _ => Canonical m e ∧ e ≤ 971
  | _ => True

theorem representable_decoded (s : Sign) (e : BitVec 11) (m : BitVec 52) :
    Representable (decoded s e m) := by
  unfold decoded
  split
  · split <;> trivial
  · next hmax =>
    have hmax : e.toNat ≠ 2047 := fun h => hmax (BitVec.eq_of_toNat_eq h)
    have he := e.isLt
    have hm := m.isLt
    split
    · split
      · trivial
      · refine ⟨⟨?_, ?_, .inr rfl⟩, ?_⟩ <;> omega
    · next hzero =>
      have hzero : e.toNat ≠ 0 := fun h => hzero (BitVec.eq_of_toNat_eq h)
      refine ⟨⟨?_, ?_, .inl ?_⟩, ?_⟩ <;> omega

theorem representable_unpack (a : Float) : Representable a.toModel.unpack := by
  obtain ⟨⟨⟨b⟩, hb⟩⟩ := a
  obtain ⟨s, e, m, rfl⟩ := exists_word b
  change Representable (UnpackedFloat.unpack Format.binary64 (word s e m))
  rw [unpack_word]
  exact representable_decoded s e m

theorem Canonical.unpack_pack {m : ℕ} {e : ℤ} (h : Canonical m e) (s : Sign) (hm : 0 < m)
    (he : e ≤ 971) : UnpackedFloat.unpack Format.binary64 (UnpackedFloat.pack Format.binary64
      (.finite s m e hm)) = .finite s m e hm := by
  by_cases hlo : 2 ^ 52 ≤ m
  · exact unpack_pack_normal s hm hlo h.lt h.low he
  · obtain rfl := h.normal.resolve_left hlo
    exact unpack_pack_subnormal s hm (lt_of_not_ge hlo)

theorem rank_positive_le {m n : ℕ} {d e : ℤ} {hm : 0 < m} {hn : 0 < n} (hd : Canonical m d)
    (he : Canonical n e) :
    rank (.finite .positive m d hm) ≤ rank (.finite .positive n e hn) ↔
      units m d ≤ units n e := by
  rw [hd.units_le_iff he]
  simp [rank, Prod.Lex.le_iff]

theorem rank_negative_le {m n : ℕ} {d e : ℤ} {hm : 0 < m} {hn : 0 < n} (hd : Canonical m d)
    (he : Canonical n e) :
    rank (.finite .negative m d hm) ≤ rank (.finite .negative n e hn) ↔
      units n e ≤ units m d := by
  rw [he.units_le_iff hd]
  simp [rank, Prod.Lex.le_iff]
  omega

def packedRank (u : UnpackedFloat) : ℤ ×ₗ ℤ ×ₗ ℤ :=
  rank (UnpackedFloat.unpack Format.binary64 (UnpackedFloat.pack Format.binary64 u))

theorem packedRank_eq {u : UnpackedFloat} (h : Representable u) : packedRank u = rank u := by
  cases u with
  | notANumber => decide
  | zero t => cases t <;> decide
  | infinity t => cases t <;> decide
  | finite t m e hm => rw [packedRank, h.1.unpack_pack t hm h.2]

theorem add_finite (s t : Sign) {m n : ℕ} {d e : ℤ} (hm : 0 < m) (hn : 0 < n) (hd : -1074 ≤ d)
    (he : -1074 ≤ e) : ∃ (p q : ℕ) (j : ℤ), -1074 ≤ j ∧ 0 < p ∧ 0 < q ∧
      units p j = units m d ∧ units q j = units n e ∧
      UnpackedFloat.add Format.binary64 (.finite s m d hm) (.finite t n e hn) =
        UnpackedFloat.normalize Format.binary64 (s.apply p + t.apply q) j .positive := by
  have hj : -1074 ≤ min d e := le_min hd he
  refine ⟨m * 2 ^ (d - min d e).toNat, n * 2 ^ (e - min d e).toNat, min d e, hj, by positivity,
    by positivity, ?_, ?_, ?_⟩
  · rw [units_mul_pow _ _ hj]
    congr 1
    omega
  · rw [units_mul_pow _ _ hj]
    congr 1
    omega
  · simp only [UnpackedFloat.add, decreaseExponent, Nat.shiftLeft_eq]

theorem normalize_apply (s : Sign) {m : ℕ} (hm : 0 < m) (e : ℤ) (zero : Sign) :
    UnpackedFloat.normalize Format.binary64 (s.apply m) e zero =
      UnpackedFloat.round Format.binary64 s m e := by
  have hm' : (0 : ℤ) < m := by exact_mod_cast hm
  unfold UnpackedFloat.normalize
  cases s with
  | negative =>
    have h : compare (Sign.negative.apply m) 0 = .lt :=
      compare_lt_iff_lt.2 (by simpa [Sign.apply] using hm')
    simp only [h]
    simp [Sign.apply]
  | positive =>
    have h : compare (Sign.positive.apply m) 0 = .gt :=
      compare_gt_iff_gt.2 (by simpa [Sign.apply] using hm')
    simp only [h]
    simp [Sign.apply]

theorem OnSide.packedRank_le_zero {u : UnpackedFloat} (h : OnSide .negative u) (s : Sign) :
    packedRank u ≤ rank (.zero s) :=
  ((onSide_negative_iff s).1 h.unpack_pack).2

theorem packedRank_round_le {m n : ℕ} {d e : ℤ} {hm : 0 < m} (hn : 0 < n)
    (hd : Representable (.finite .positive m d hm)) (he : -1074 ≤ e)
    (h : units n e ≤ units m d) :
    packedRank (UnpackedFloat.round Format.binary64 .positive n e) ≤
      rank (.finite .positive m d hm) := by
  obtain ⟨k, b, hk, hr, hf⟩ := round_faithful hn he .positive
  have hle := hf.le hd.1 h
  have hb : b ≤ 971 := by
    have hcmp := (hf.canonical.units_le_iff hd.1).1 hle
    have := hd.2
    omega
  rw [hr, packedRank_eq (u := .finite .positive k b hk) ⟨hf.canonical, hb⟩]
  exact (rank_positive_le hf.canonical hd.1).2 hle

theorem packedRank_round_neg_le {m n : ℕ} {d e : ℤ} {hm : 0 < m} (hn : 0 < n)
    (hd : Representable (.finite .negative m d hm)) (he : -1074 ≤ e)
    (h : units m d ≤ units n e) :
    packedRank (UnpackedFloat.round Format.binary64 .negative n e) ≤
      rank (.finite .negative m d hm) := by
  obtain ⟨k, b, hk, hr, hf⟩ := round_faithful hn he .negative
  rw [hr]
  by_cases hb : b ≤ 971
  · rw [packedRank_eq (u := .finite .negative k b hk) ⟨hf.canonical, hb⟩]
    exact (rank_negative_le hf.canonical hd.1).2 (hf.ge hd.1 h)
  · rw [packedRank, unpack_pack_overflow .negative hk (by omega)]
    simp [rank, Prod.Lex.le_iff]

theorem packedRank_add_finite {s : Sign} {m n : ℕ} {d e : ℤ} {hm : 0 < m} {hn : 0 < n}
    (hd : Representable (.finite s m d hm)) (he : Representable (.finite .negative n e hn)) :
    packedRank (UnpackedFloat.add Format.binary64 (.finite s m d hm) (.finite .negative n e hn)) ≤
      rank (.finite s m d hm) := by
  obtain ⟨p, q, j, hj, hp, hq, hpm, -, hadd⟩ :=
    add_finite s .negative hm hn hd.1.low he.1.low
  rw [hadd]
  cases s with
  | negative =>
    rw [apply_add, normalize_apply .negative (Nat.add_pos_left hp q)]
    refine packedRank_round_neg_le (Nat.add_pos_left hp q) hd hj ?_
    rw [← hpm, units_le_units]
    exact Nat.le_add_right p q
  | positive =>
    obtain hlt | hle := lt_or_ge q p
    · -- what is left of the first number is positive
      have hsub : Sign.positive.apply p + Sign.negative.apply q =
          Sign.positive.apply (p - q : ℕ) := by
        simp only [Sign.apply]
        omega
      rw [hsub, normalize_apply .positive (Nat.sub_pos_of_lt hlt)]
      refine packedRank_round_le (Nat.sub_pos_of_lt hlt) hd hj ?_
      rw [← hpm, units_le_units]
      exact Nat.sub_le p q
    · have hsub : Sign.positive.apply p + Sign.negative.apply q =
          Sign.negative.apply (q - p : ℕ) := by
        simp only [Sign.apply]
        omega
      rw [hsub]
      have hneg := onSide_normalize .negative (q - p) j .positive
      exact (hneg.packedRank_le_zero .positive).trans
        ((onSide_positive_iff (u := .finite .positive m d hm) .positive).1 rfl).2

theorem packedRank_add_le {u v : UnpackedFloat} (hu : Representable u) (hv : Representable v)
    (hn : OnSide .negative v) (h : (UnpackedFloat.add Format.binary64 u v).isNaN = false) :
    packedRank (UnpackedFloat.add Format.binary64 u v) ≤ rank u := by
  cases v with
  | notANumber => exact hn.elim
  | infinity t =>
    obtain rfl : t = .negative := hn
    have hinf : packedRank (.infinity .negative) = rank (.infinity .negative) :=
      packedRank_eq (u := .infinity .negative) trivial
    cases u with
    | notANumber => cases h
    | infinity s =>
      cases s with
      | negative => exact le_rfl
      | positive => cases h
    | zero s => exact hinf.trans_le (rank_infinities (a := .zero s) rfl).1.le
    | finite s m d hm => exact hinf.trans_le (rank_infinities (a := .finite s m d hm) rfl).1.le
  | zero t =>
    cases u with
    | notANumber => cases h
    | infinity s => exact (packedRank_eq (u := .infinity s) trivial).le
    | zero s => cases s <;> cases t <;> decide
    | finite s m d hm => exact (packedRank_eq hu).le
  | finite t n e hn' =>
    obtain rfl : t = .negative := hn
    cases u with
    | notANumber => cases h
    | infinity s => exact (packedRank_eq (u := .infinity s) trivial).le
    | zero s =>
      change packedRank (.finite .negative n e hn') ≤ _
      exact OnSide.packedRank_le_zero (u := .finite .negative n e hn') rfl s
    | finite s m d hm => exact packedRank_add_finite hu hv

theorem add_le {a b : Float} (hb : b ≤ 0) (h : (a + b).isNaN = false) : a + b ≤ a := by
  refine float_le_iff.2 ⟨h, (isNaN_of_add h).1, ?_⟩
  rw [isNaN_add] at h
  exact packedRank_add_le (representable_unpack a) (representable_unpack b) (nonpos_iff.1 hb) h

instance : Scalar.Ordered Float where
  isNaN_of_add := isNaN_of_add
  isNaN_of_mul := isNaN_of_mul
  add_nonneg := add_nonneg
  add_le := add_le
  mul_nonneg := mul_nonneg
  mul_nonpos := mul_nonpos
  zero_le_half := by decide
  zero_le_one := by decide
  zero_le_two := by decide
  zero_le_infinity := by decide

end Optima.Binary64
