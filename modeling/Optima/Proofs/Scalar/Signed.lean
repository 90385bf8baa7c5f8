import Optima.Proofs.Scalar.Between
import Optima.Proofs.Scalar.Exact

/-!
The sign of zero. Two zeros of different sign are equal as numbers, and sums, products and
comparisons tell them apart only by giving such zeros again; but a quotient does tell them apart,
and an objective may. Nothing gets a negative zero by adding a zero to another number.
-/

namespace Optima.Scalar

variable {α : Type} [Scalar α]

/-- Numbers that differ in the sign of a zero, at most. -/
def Alike (a b : α) : Prop := a = b ∨ (a == 0) = true ∧ (b == 0) = true

/-- Not the negative zero. -/
def Unsigned (a : α) : Prop := (a == 0) = true → isNegative a = false

/-- The sign is all that tells two zeros apart, and arithmetic minds it only where it gives a zero
again. -/
class Signed (α : Type) [Scalar α] : Prop extends Ordered α where
  beq_zero_iff {a : α} : (a == 0) = true ↔ a ≤ 0 ∧ 0 ≤ a
  alike_of_le {a b : α} : a ≤ b → b ≤ a → Alike a b
  eq_of_zero {a b : α} : (a == 0) = true → (b == 0) = true → isNegative a = isNegative b → a = b
  eq_of_isNaN {a b : α} : isNaN a = true → isNaN b = true → a = b
  add_comm (a b : α) : a + b = b + a
  mul_comm (a b : α) : a * b = b * a
  add_zero {a b : α} : (b == 0) = true → Unsigned a → a + b = a
  zero_mul {a b : α} : (a == 0) = true → isNaN (a * b) = false → (a * b == 0) = true
  isNaN_zero_mul {a a' : α} (b : α) : (a == 0) = true → (a' == 0) = true →
    isNaN (a * b) = isNaN (a' * b)
  sub_eq (a b : α) : a - b = a + -b
  neg_zero {a : α} : (a == 0) = true → (-a == 0) = true
  neg_mul_neg (a : α) : -a * -a = a * a
  mul_self_zero {a b : α} : (a == 0) = true → (b == 0) = true → a * a = b * b
  abs_zero {a b : α} : (a == 0) = true → (b == 0) = true → abs a = abs b

namespace Alike

variable {a b c d : α}

theorem refl (a : α) : Alike a a := .inl rfl

theorem symm (h : Alike a b) : Alike b a := h.imp Eq.symm And.symm

theorem trans (h : Alike a b) (h' : Alike b c) : Alike a c := by
  obtain rfl | ⟨ha, hb⟩ := h
  · exact h'
  · obtain rfl | ⟨-, hc⟩ := h'
    · exact .inr ⟨ha, hb⟩
    · exact .inr ⟨ha, hc⟩

theorem beq_zero (h : Alike a b) : (a == 0) = (b == 0) := by
  obtain rfl | ⟨ha, hb⟩ := h
  · rfl
  · rw [ha, hb]

variable [Signed α]

theorem le_left (h : Alike a b) : a ≤ c ↔ b ≤ c := by
  obtain rfl | ⟨ha, hb⟩ := h
  · rfl
  · rw [Signed.beq_zero_iff] at ha hb
    exact ⟨Lawful.le_trans (Lawful.le_trans hb.1 ha.2), Lawful.le_trans (Lawful.le_trans ha.1 hb.2)⟩

theorem le_right (h : Alike a b) : c ≤ a ↔ c ≤ b := by
  obtain rfl | ⟨ha, hb⟩ := h
  · rfl
  · rw [Signed.beq_zero_iff] at ha hb
    exact ⟨fun hc => Lawful.le_trans hc (Lawful.le_trans ha.1 hb.2),
      fun hc => Lawful.le_trans hc (Lawful.le_trans hb.1 ha.2)⟩

theorem le_iff (h : Alike a b) (h' : Alike c d) : a ≤ c ↔ b ≤ d := h.le_left.trans h'.le_right

theorem lt_iff (h : Alike a b) (h' : Alike c d) : a < c ↔ b < d := by
  rw [Lawful.lt_iff, Lawful.lt_iff, h.le_iff h', h'.le_iff h]

theorem zero_add_zero (ha : (a == 0) = true) (hb : (b == 0) = true) : (a + b == 0) = true := by
  rw [Signed.beq_zero_iff] at ha hb ⊢
  have hnonneg := Ordered.add_nonneg ha.2 hb.2
  exact ⟨Lawful.le_trans (Ordered.add_le hb.1 (Lawful.isNaN_of_le hnonneg).2) ha.1, hnonneg⟩

theorem add_zero (hb : (b == 0) = true) : Alike (a + b) a := by
  by_cases ha : (a == 0) = true
  · exact .inr ⟨zero_add_zero ha hb, ha⟩
  · exact .inl (Signed.add_zero hb fun h => absurd h ha)

theorem add (h : Alike a b) (h' : Alike c d) : Alike (a + c) (b + d) := by
  have hzero {a c d : α} (h : Alike c d) : Alike (a + c) (a + d) := by
    obtain rfl | ⟨hc, hd⟩ := h
    · exact .refl _
    · exact (add_zero hc).trans (add_zero hd).symm
  refine (hzero h').trans ?_
  rw [Signed.add_comm a, Signed.add_comm b]
  exact hzero h

theorem neg (h : Alike a b) : Alike (-a) (-b) := by
  obtain rfl | ⟨ha, hb⟩ := h
  · exact .refl _
  · exact .inr ⟨Signed.neg_zero ha, Signed.neg_zero hb⟩

theorem sub (h : Alike a b) (h' : Alike c d) : Alike (a - c) (b - d) := by
  rw [Signed.sub_eq, Signed.sub_eq]
  exact h.add h'.neg

theorem mul (h : Alike a b) (h' : Alike c d) : Alike (a * c) (b * d) := by
  have hzero {a b c : α} (h : Alike a b) : Alike (a * c) (b * c) := by
    obtain rfl | ⟨ha, hb⟩ := h
    · exact .refl _
    · have hn := Signed.isNaN_zero_mul c ha hb
      cases hb' : isNaN (b * c) with
      | true => exact .inl (Signed.eq_of_isNaN (hn.trans hb') hb')
      | false => exact .inr ⟨Signed.zero_mul ha (hn.trans hb'), Signed.zero_mul hb hb'⟩
  refine (hzero h).trans ?_
  rw [Signed.mul_comm b, Signed.mul_comm b]
  exact hzero h'

theorem mul_self (h : Alike a b) : a * a = b * b := by
  obtain rfl | ⟨ha, hb⟩ := h
  · rfl
  · exact Signed.mul_self_zero ha hb

theorem abs (h : Alike a b) : abs a = abs b := by
  obtain rfl | ⟨ha, hb⟩ := h
  · rfl
  · exact Signed.abs_zero ha hb

end Alike

end Optima.Scalar

namespace Optima.Binary64

open Float.Model
open UnpackedFloat hiding pack unpack
open Scalar (Alike Unsigned)

theorem ofUnpacked_unpack (a : Float) : ofUnpacked a.toModel.unpack = a := ofModel_pack_unpack a

theorem eq_of_unpack {a b : Float} (h : a.toModel.unpack = b.toModel.unpack) : a = b := by
  rw [← ofUnpacked_unpack a, ← ofUnpacked_unpack b, h]

theorem add_eq (a b : Float) :
    a + b = ofUnpacked (UnpackedFloat.add Format.binary64 a.toModel.unpack b.toModel.unpack) := rfl

theorem mul_eq (a b : Float) :
    a * b = ofUnpacked (UnpackedFloat.mul Format.binary64 a.toModel.unpack b.toModel.unpack) := rfl

theorem beq_zero_iff_le {a : Float} : (a == 0) = true ↔ a ≤ 0 ∧ 0 ≤ a := float_beq_iff

theorem beq_zero_iff {a : Float} : (a == 0) = true ↔ ∃ s, a.toModel.unpack = .zero s := by
  rw [beq_zero_iff_le, nonneg_iff, nonpos_iff]
  generalize a.toModel.unpack = u
  rcases u with (_ | _) | _ | _ | ⟨_ | _, m, e, h⟩ <;> simp [OnSide]

theorem isNegative_of_zero {a : Float} {s : Sign} (h : a.toModel.unpack = .zero s) :
    Scalar.isNegative a = (s == .negative) := by
  rw [← ofUnpacked_unpack a, h]
  cases s <;> rfl

theorem unsigned_iff {a : Float} : Unsigned a ↔ a.toModel.unpack ≠ .zero .negative := by
  constructor
  · intro h hz
    have hn := h (beq_zero_iff.2 ⟨_, hz⟩)
    rw [isNegative_of_zero hz] at hn
    cases hn
  · intro h hz
    obtain ⟨s, hs⟩ := beq_zero_iff.1 hz
    rw [isNegative_of_zero hs]
    cases s with
    | positive => rfl
    | negative => exact absurd hs h

theorem isNaN_iff {a : Float} : a.isNaN = true ↔ a.toModel.unpack = .notANumber := by
  change a.toModel.unpack.isNaN = true ↔ _
  cases a.toModel.unpack <;> simp [UnpackedFloat.isNaN]

theorem eq_of_rank_eq {u v : UnpackedFloat} (hu : u.isNaN = false) (hv : v.isNaN = false)
    (h : rank u = rank v) : u = v ∨ ∃ s t, u = .zero s ∧ v = .zero t := by
  rcases u with (_ | _) | _ | _ | ⟨_ | _, m, d, hm⟩ <;>
    rcases v with (_ | _) | _ | _ | ⟨_ | _, n, e, hn⟩ <;>
    simp_all [rank, UnpackedFloat.isNaN]

theorem alike_of_le {a b : Float} (hab : a ≤ b) (hba : b ≤ a) : Alike a b := by
  obtain ⟨hna, hnb, hle⟩ := float_le_iff.1 hab
  obtain h | ⟨s, t, hs, ht⟩ := eq_of_rank_eq hna hnb (hle.antisymm (float_le_iff.1 hba).2.2)
  · exact .inl (eq_of_unpack h)
  · exact .inr ⟨beq_zero_iff.2 ⟨s, hs⟩, beq_zero_iff.2 ⟨t, ht⟩⟩

theorem add_comm_unpacked (u v : UnpackedFloat) :
    UnpackedFloat.add Format.binary64 u v = UnpackedFloat.add Format.binary64 v u := by
  rcases u with s | _ | s | ⟨s, m, d, hm⟩ <;> rcases v with t | _ | t | ⟨t, n, e, hn⟩
  case finite.finite => simp only [UnpackedFloat.add, Int.min_comm d e, Int.add_comm]
  case infinity.infinity => cases s <;> cases t <;> rfl
  case zero.zero => cases s <;> cases t <;> rfl
  all_goals rfl

theorem mul_comm_unpacked (u v : UnpackedFloat) :
    UnpackedFloat.mul Format.binary64 u v = UnpackedFloat.mul Format.binary64 v u := by
  have hsign (s t : Sign) : s * t = t * s := by cases s <;> cases t <;> rfl
  rcases u with s | _ | s | ⟨s, m, d, hm⟩ <;> rcases v with t | _ | t | ⟨t, n, e, hn⟩
  case finite.finite =>
    simp only [UnpackedFloat.mul, hsign s t, Nat.mul_comm m n, Int.add_comm d e]
  all_goals first | rfl | simp only [UnpackedFloat.mul, hsign s t]

theorem add_zero {a b : Float} (hb : (b == 0) = true) (ha : Unsigned a) : a + b = a := by
  obtain ⟨t, ht⟩ := beq_zero_iff.1 hb
  rw [unsigned_iff] at ha
  refine Eq.trans ?_ (ofUnpacked_unpack a)
  rw [add_eq, ht]
  generalize a.toModel.unpack = u at ha
  rcases u with s | _ | (_ | _) | ⟨s, m, d, hm⟩
  case zero.negative => exact absurd rfl ha
  case zero.positive => cases t <;> rfl
  all_goals rfl

theorem unpack_zero_mul {a : Float} {s : Sign} (h : a.toModel.unpack = .zero s) (b : Float) :
    (a * b).toModel.unpack = (UnpackedFloat.mul Format.binary64 (.zero s) b.toModel.unpack) := by
  rw [unpack_mul, h]
  exact Representable.unpack_pack (by cases b.toModel.unpack <;> trivial)

instance : Scalar.Signed Float where
  beq_zero_iff := beq_zero_iff_le
  alike_of_le := alike_of_le
  eq_of_zero ha hb h := by
    obtain ⟨s, hs⟩ := beq_zero_iff.1 ha
    obtain ⟨t, ht⟩ := beq_zero_iff.1 hb
    rw [isNegative_of_zero hs, isNegative_of_zero ht] at h
    refine eq_of_unpack ?_
    rw [hs, ht]
    cases s <;> cases t <;> first | rfl | cases h
  eq_of_isNaN ha hb := eq_of_unpack ((isNaN_iff.1 ha).trans (isNaN_iff.1 hb).symm)
  add_comm a b := congrArg ofUnpacked (add_comm_unpacked _ _)
  mul_comm a b := congrArg ofUnpacked (mul_comm_unpacked _ _)
  add_zero := add_zero
  zero_mul := by
    intro a b ha h
    obtain ⟨s, hs⟩ := beq_zero_iff.1 ha
    have hu := unpack_zero_mul hs b
    change (a * b).toModel.unpack.isNaN = false at h
    rw [beq_zero_iff, hu]
    rw [hu] at h
    cases hb : b.toModel.unpack with
    | zero t => exact ⟨_, rfl⟩
    | finite t m e hm => exact ⟨_, rfl⟩
    | _ =>
      rw [hb] at h
      cases h
  isNaN_zero_mul := by
    intro a a' b ha ha'
    obtain ⟨s, hs⟩ := beq_zero_iff.1 ha
    obtain ⟨t, ht⟩ := beq_zero_iff.1 ha'
    change (a * b).toModel.unpack.isNaN = (a' * b).toModel.unpack.isNaN
    rw [unpack_zero_mul hs, unpack_zero_mul ht]
    cases b.toModel.unpack <;> rfl
  sub_eq := float_sub_eq
  neg_zero ha := by
    obtain ⟨s, hs⟩ := beq_zero_iff.1 ha
    rw [beq_zero_iff, unpack_neg, hs]
    exact ⟨_, rfl⟩
  neg_mul_neg a := by
    refine congrArg ofUnpacked ?_
    rw [unpack_neg]
    have hsign (s : Sign) : -s * -s = s * s := by cases s <;> rfl
    cases a.toModel.unpack <;> simp only [UnpackedFloat.neg, UnpackedFloat.mul, hsign]
  mul_self_zero ha hb := by
    obtain ⟨s, hs⟩ := beq_zero_iff.1 ha
    obtain ⟨t, ht⟩ := beq_zero_iff.1 hb
    rw [mul_eq, mul_eq, hs, ht]
    cases s <;> cases t <;> rfl
  abs_zero := by
    intro a b ha hb
    obtain ⟨s, hs⟩ := beq_zero_iff.1 ha
    obtain ⟨t, ht⟩ := beq_zero_iff.1 hb
    change ofUnpacked a.toModel.unpack.abs = ofUnpacked b.toModel.unpack.abs
    rw [hs, ht]
    rfl

end Optima.Binary64

namespace Optima.Exact

instance : Scalar.Signed ℝ where
  beq_zero_iff {a} := by
    rw [beq_iff_eq]
    exact le_antisymm_iff
  alike_of_le hab hba := .inl (hab.antisymm hba)
  eq_of_zero ha hb _ := by
    rw [beq_iff_eq] at ha hb
    rw [ha, hb]
  eq_of_isNaN h := absurd h (by simp [Scalar.isNaN])
  add_comm := add_comm
  mul_comm := mul_comm
  add_zero hb _ := by
    rw [beq_iff_eq, literal_zero] at hb
    rw [hb, add_zero]
  zero_mul ha _ := by
    rw [beq_iff_eq, literal_zero] at ha ⊢
    rw [ha, zero_mul]
  isNaN_zero_mul _ _ _ := rfl
  sub_eq := sub_eq_add_neg
  neg_zero ha := by
    rw [beq_iff_eq, literal_zero] at ha ⊢
    rw [ha, neg_zero]
  neg_mul_neg a := neg_mul_neg a a
  mul_self_zero ha hb := by
    rw [beq_iff_eq] at ha hb
    rw [ha, hb]
  abs_zero ha hb := by
    rw [beq_iff_eq] at ha hb
    rw [ha, hb]

end Optima.Exact
