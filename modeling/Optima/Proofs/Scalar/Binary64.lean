import Mathlib
import Optima.Proofs.Scalar.Lawful

/-!
Binary64 numbers are lawful. A word is split into its sign, exponent and fraction fields, and a rank
in a lexicographic order shows that the comparisons are those of a total preorder.

That words are read and written without loss is known from Batteries, whose lemmas on the floating
point model come with the whole of Mathlib only.
-/

namespace Optima.Binary64

open Float.Model
open UnpackedFloat hiding pack unpack

def word (s : Sign) (e : BitVec 11) (m : BitVec 52) : BitVec 64 :=
  packComponents Format.binary64 s e m

def decoded (s : Sign) (e : BitVec 11) (m : BitVec 52) : UnpackedFloat :=
  if e = -1#11 then if m = 0#52 then .infinity s else .notANumber
  else if e = 0#11 then
    if h : m = 0#52 then .zero s
    else .finite s m.toNat (-1074) (by simpa [BitVec.toNat_pos, BitVec.pos_iff_ne_zero] using h)
  else .finite s (4503599627370496 + m.toNat) (e.toNat - 1075) (by omega)

theorem exists_word (b : BitVec 64) : ∃ s e m, b = word s e m :=
  ⟨_, _, _, (@packComponents_unpackSign_unpackExponent_unpackMantissa Format.binary64 b).symm⟩

theorem sign_word (s : Sign) (e : BitVec 11) (m : BitVec 52) :
    Sign.ofBitVec (@unpackSign Format.binary64 (word s e m)) = s := by
  rw [word, unpackSign_packComponents, Sign.ofBitVec_toBitVec]

theorem toNat_implicit_append (m : BitVec 52) :
    (1#1 ++ m).toNat = 4503599627370496 + m.toNat := by
  rw [BitVec.toNat_append, ← Nat.shiftLeft_add_eq_or_of_lt m.isLt]
  rfl

theorem unpack_word (s : Sign) (e : BitVec 11) (m : BitVec 52) :
    UnpackedFloat.unpack Format.binary64 (word s e m) = decoded s e m := by
  have he : @unpackExponent Format.binary64 (word s e m) = e :=
    unpackExponent_packComponents
  have hm : @unpackMantissa Format.binary64 (word s e m) = m :=
    unpackMantissa_packComponents
  simp only [UnpackedFloat.unpack, decoded, he, hm, sign_word, toNat_implicit_append]
  split
  · rfl
  · split
    · next h =>
      subst h
      rfl
    · rfl

theorem pack_subnormal (s : Sign) {m : BitVec 52} (h : 0 < m.toNat) :
    UnpackedFloat.pack Format.binary64 (.finite s m.toNat (-1074) h) = word s 0#11 m := by
  have hl : m.toNat.log2 < 52 := (Nat.log2_lt h.ne').2 m.isLt
  have hb : Format.binary64.exponentBias = 1023 := by decide
  simp [UnpackedFloat.pack, hb, Format.mantissaBits, word]
  omega

theorem pack_normal (s : Sign) {e : BitVec 11} (m : BitVec 52) (hlo : 0 < e.toNat)
    (hhi : e.toNat < 2047) (h : 0 < 4503599627370496 + m.toNat) :
    UnpackedFloat.pack Format.binary64
      (.finite s (4503599627370496 + m.toNat) (e.toNat - 1075) h) = word s e m := by
  have hl : (4503599627370496 + m.toNat).log2 = 52 := by
    have := m.isLt
    rw [Nat.log2_eq_iff h.ne']
    omega
  have hb : Format.binary64.exponentBias = 1023 := by decide
  have he : ((e.toNat : Int) - 1075 + 1023 + 52).toNat = e.toNat := by omega
  simp only [UnpackedFloat.pack, hb, Format.mantissaBits, word, hl]
  rw [if_neg (by simpa using by omega), if_pos trivial]
  congr 1
  · apply BitVec.eq_of_toNat_eq
    simp
    omega
  · apply BitVec.eq_of_toNat_eq
    simp
    omega

theorem pack_decoded {s : Sign} {e : BitVec 11} {m : BitVec 52}
    (h : ¬(e = -1#11 ∧ m ≠ 0#52)) :
    UnpackedFloat.pack Format.binary64 (decoded s e m) = word s e m := by
  by_cases he : e = -1#11
  · obtain rfl : m = 0#52 := by simpa [he] using h
    subst he
    rfl
  · by_cases hz : e = 0#11
    · subst hz
      by_cases hm : m = 0#52
      · subst hm
        rfl
      · rw [decoded, if_neg he, if_pos rfl, dif_neg hm, pack_subnormal]
    · have hlo : 0 < e.toNat := Nat.pos_of_ne_zero fun h => hz (BitVec.eq_of_toNat_eq h)
      have hhi : e.toNat ≠ 2047 := fun h => he (BitVec.eq_of_toNat_eq h)
      rw [decoded, if_neg he, if_neg hz, pack_normal s m hlo (by omega)]

theorem neg_decoded (s : Sign) {e : BitVec 11} {m : BitVec 52} :
    (decoded s e m).neg = decoded (-s) e m := by
  unfold decoded
  split
  · split <;> rfl
  · split
    · split <;> rfl
    · rfl

theorem ofModel_pack_unpack (a : Float) : Float.ofModel (.pack a.toModel.unpack) = a := by
  obtain ⟨⟨⟨b⟩, hb⟩⟩ := a
  have hinj (u v : Float.Model) : u.toBits.toBitVec = v.toBits.toBitVec → u = v := by
    intro h
    obtain ⟨⟨u⟩, _⟩ := u
    obtain ⟨⟨v⟩, _⟩ := v
    subst h
    rfl
  exact congrArg Float.ofModel (hinj _ _ (pack_unpack_of_valid hb))

theorem unpack_neg (a : Float) : (-a).toModel.unpack = a.toModel.unpack.neg := by
  obtain ⟨⟨⟨b⟩, hb⟩⟩ := a
  obtain ⟨s, e, m, rfl⟩ := exists_word b
  change UnpackedFloat.unpack Format.binary64 (UnpackedFloat.pack Format.binary64
    (UnpackedFloat.unpack Format.binary64 (word s e m)).neg) =
      (UnpackedFloat.unpack Format.binary64 (word s e m)).neg
  rw [unpack_word, neg_decoded]
  by_cases h : e = -1#11 ∧ m ≠ 0#52
  · obtain ⟨rfl, hm⟩ := h
    have hd : decoded (-s) (-1#11) m = .notANumber := by rw [decoded, if_pos rfl, if_neg hm]
    rw [hd]
    rfl
  · rw [pack_decoded h, unpack_word]

theorem neg_neg (a : Float) : - -a = a := by
  have hneg (u : UnpackedFloat) : u.neg.neg = u := by
    rcases u with (_ | _) | _ | (_ | _) | ⟨_ | _, m, e, h⟩ <;> rfl
  change Float.ofModel (.pack (-a).toModel.unpack.neg) = a
  rw [unpack_neg, hneg, ofModel_pack_unpack]

theorem isNaN_neg (a : Float) : (-a).isNaN = a.isNaN := by
  change (-a).toModel.unpack.isNaN = a.toModel.unpack.isNaN
  rw [unpack_neg]
  cases a.toModel.unpack <;> rfl

def rank : UnpackedFloat → ℤ ×ₗ ℤ ×ₗ ℤ
  | .notANumber => toLex (0, toLex (0, 0))
  | .infinity .negative => toLex (-2, toLex (0, 0))
  | .finite .negative m e _ => toLex (-1, toLex (-e, -m))
  | .zero _ => toLex (0, toLex (0, 0))
  | .finite .positive m e _ => toLex (1, toLex (e, m))
  | .infinity .positive => toLex (2, toLex (0, 0))

theorem compare_magnitudes (e₁ e₂ : ℤ) (m₁ m₂ : ℕ) :
    (compare e₁ e₂).then (compare m₁ m₂) = .lt ∧ (e₁ < e₂ ∨ e₁ = e₂ ∧ m₁ < m₂) ∨
    (compare e₁ e₂).then (compare m₁ m₂) = .eq ∧ e₁ = e₂ ∧ m₁ = m₂ ∨
    (compare e₁ e₂).then (compare m₁ m₂) = .gt ∧ (e₂ < e₁ ∨ e₁ = e₂ ∧ m₂ < m₁) := by
  rcases lt_trichotomy e₁ e₂ with h | rfl | h
  · simp [compare_lt_iff_lt.2 h, h]
  · rcases lt_trichotomy m₁ m₂ with h | rfl | h
    · simp [compare_lt_iff_lt.2 h, h, Std.ReflOrd.compare_self]
    · simp [Std.ReflOrd.compare_self]
    · simp [compare_gt_iff_gt.2 h, h, Std.ReflOrd.compare_self]
  · simp [compare_gt_iff_gt.2 h, h]

theorem le_iff_rank (a b : UnpackedFloat) :
    a.le b = true ↔ a.isNaN = false ∧ b.isNaN = false ∧ rank a ≤ rank b := by
  rcases a with (_ | _) | _ | _ | ⟨_ | _, m₁, e₁, h₁⟩ <;>
    rcases b with (_ | _) | _ | _ | ⟨_ | _, m₂, e₂, h₂⟩ <;>
    simp [UnpackedFloat.le, UnpackedFloat.compare, rank, Prod.Lex.le_iff, UnpackedFloat.isNaN]
  any_goals rfl
  -- what is left compares two finite numbers of one sign
  · rcases compare_magnitudes e₁ e₂ m₁ m₂ with ⟨h, h'⟩ | ⟨h, h'⟩ | ⟨h, h'⟩ <;> simp [h] <;> omega
  · rcases compare_magnitudes e₁ e₂ m₁ m₂ with ⟨h, h'⟩ | ⟨h, h'⟩ | ⟨h, h'⟩ <;> simp [h] <;> omega

theorem lt_iff_rank (a b : UnpackedFloat) :
    a.lt b = true ↔ a.isNaN = false ∧ b.isNaN = false ∧ rank a < rank b := by
  rcases a with (_ | _) | _ | _ | ⟨_ | _, m₁, e₁, h₁⟩ <;>
    rcases b with (_ | _) | _ | _ | ⟨_ | _, m₂, e₂, h₂⟩ <;>
    simp [UnpackedFloat.lt, UnpackedFloat.compare, rank, Prod.Lex.lt_iff, UnpackedFloat.isNaN]
  any_goals rfl
  · rcases compare_magnitudes e₁ e₂ m₁ m₂ with ⟨h, h'⟩ | ⟨h, h'⟩ | ⟨h, h'⟩ <;> simp [h] <;> omega
  · rcases compare_magnitudes e₁ e₂ m₁ m₂ with ⟨h, h'⟩ | ⟨h, h'⟩ | ⟨h, h'⟩ <;> simp [h] <;> omega

theorem beq_iff_rank (a b : UnpackedFloat) :
    a.beq b = true ↔ a.isNaN = false ∧ b.isNaN = false ∧ rank a = rank b := by
  rcases a with (_ | _) | _ | _ | ⟨_ | _, m₁, e₁, h₁⟩ <;>
    rcases b with (_ | _) | _ | _ | ⟨_ | _, m₂, e₂, h₂⟩ <;>
    simp [UnpackedFloat.beq, UnpackedFloat.compare, rank, UnpackedFloat.isNaN]
  all_goals rfl

theorem float_le_iff {a b : Float} :
    a ≤ b ↔ a.isNaN = false ∧ b.isNaN = false ∧ rank a.toModel.unpack ≤ rank b.toModel.unpack :=
  (decide_eq_true_iff (p := a.toModel.unpack.le b.toModel.unpack = true)).trans (le_iff_rank _ _)

theorem float_lt_iff {a b : Float} :
    a < b ↔ a.isNaN = false ∧ b.isNaN = false ∧ rank a.toModel.unpack < rank b.toModel.unpack :=
  (decide_eq_true_iff (p := a.toModel.unpack.lt b.toModel.unpack = true)).trans (lt_iff_rank _ _)

theorem float_beq_iff {a b : Float} : (a == b) = true ↔ a ≤ b ∧ b ≤ a := by
  rw [float_le_iff, float_le_iff]
  refine (beq_iff_rank _ _).trans ?_
  constructor
  · rintro ⟨ha, hb, h⟩
    exact ⟨⟨ha, hb, h.le⟩, hb, ha, h.ge⟩
  · rintro ⟨⟨ha, hb, hab⟩, -, -, hba⟩
    exact ⟨ha, hb, le_antisymm hab hba⟩

theorem isNaN_of_isFinite {a : Float} (h : a.isFinite = true) : a.isNaN = false := by
  change a.toModel.unpack.isFinite = true at h
  change a.toModel.unpack.isNaN = false
  revert h
  cases a.toModel.unpack <;> simp [UnpackedFloat.isFinite, UnpackedFloat.isNaN]

theorem rank_infinities {a : UnpackedFloat} (h : a.isFinite = true) :
    rank (.infinity .negative) < rank a ∧ rank a < rank (.infinity .positive) := by
  rcases a with (_ | _) | _ | (_ | _) | ⟨_ | _, m, e, h⟩ <;>
    simp [UnpackedFloat.isFinite, rank, Prod.Lex.lt_iff] at *

theorem isFinite_of_between {a b c : Float} (hab : a ≤ b) (hbc : b ≤ c) (ha : a.isFinite = true)
    (hc : c.isFinite = true) : b.isFinite = true := by
  obtain ⟨-, hb, hab⟩ := float_le_iff.1 hab
  obtain ⟨-, -, hbc⟩ := float_le_iff.1 hbc
  have hlow := (rank_infinities (a := a.toModel.unpack) ha).1.trans_le hab
  have hhigh := hbc.trans_lt (rank_infinities (a := c.toModel.unpack) hc).2
  change b.toModel.unpack.isNaN = false at hb
  change b.toModel.unpack.isFinite = true
  generalize b.toModel.unpack = v at hb hlow hhigh ⊢
  cases v with
  | infinity s =>
    cases s with
    | negative => exact absurd hlow (lt_irrefl _)
    | positive => exact absurd hhigh (lt_irrefl _)
  | notANumber => cases hb
  | zero s => rfl
  | finite s m e h => rfl

instance : Scalar.Lawful Float where
  neg_neg := neg_neg
  zero_beq_zero := by decide
  isNaN_of_isFinite := isNaN_of_isFinite
  isNaN_infinity := by decide
  isNaN_neg := isNaN_neg
  isNaN_of_le h := ⟨(float_le_iff.1 h).1, (float_le_iff.1 h).2.1⟩
  le_total {a b} ha hb := by
    rcases le_or_gt (rank a.toModel.unpack) (rank b.toModel.unpack) with h | h
    · exact .inl (float_le_iff.2 ⟨ha, hb, h⟩)
    · exact .inr (float_le_iff.2 ⟨hb, ha, h.le⟩)
  le_trans h₁ h₂ := by
    obtain ⟨ha, -, hab⟩ := float_le_iff.1 h₁
    obtain ⟨-, hc, hbc⟩ := float_le_iff.1 h₂
    exact float_le_iff.2 ⟨ha, hc, hab.trans hbc⟩
  lt_iff {a b} := by
    constructor
    · intro h
      obtain ⟨ha, hb, hab⟩ := float_lt_iff.1 h
      exact ⟨float_le_iff.2 ⟨ha, hb, hab.le⟩, fun h' => (float_le_iff.1 h').2.2.not_gt hab⟩
    · rintro ⟨h, hn⟩
      obtain ⟨ha, hb, -⟩ := float_le_iff.1 h
      exact float_lt_iff.2 ⟨ha, hb, lt_of_not_ge fun h' => hn (float_le_iff.2 ⟨hb, ha, h'⟩)⟩

end Optima.Binary64
