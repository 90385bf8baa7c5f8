import Mathlib.Data.List.Forall2
import Optima.Goal
import Optima.Population
import Optima.Proofs.Scalar.Extended
import Optima.Stopping

namespace Optima

open Scalar (Extended Lawful isFinite)

variable {α : Type} [Scalar α]

/-- Numbers stand for others in the same order, finite ones for finite ones; what is not finite
stands for itself. -/
structure Similar (r : α → α → Prop) : Prop where
  le {a b a' b' : α} : r a a' → r b b' → (a' ≤ b' ↔ a ≤ b)
  finite {a a' : α} : r a a' → isFinite a' = isFinite a
  fixed {a : α} : isFinite a = false → r a a

namespace Similar

variable {r : α → α → Prop} (hr : Similar r) {a b a' b' : α} {as as' : List α}

include hr

section

variable [Lawful α]

theorem lt (ha : r a a') (hb : r b b') : a' < b' ↔ a < b := by
  rw [Lawful.lt_iff, Lawful.lt_iff, hr.le ha hb, hr.le hb ha]

theorem isNaN (ha : r a a') : Scalar.isNaN a' = Scalar.isNaN a := by
  have hle {c : α} : Scalar.isNaN c = false ↔ c ≤ c :=
    ⟨Lawful.le_refl, fun h => (Lawful.isNaN_of_le h).1⟩
  have h : Scalar.isNaN a' = false ↔ Scalar.isNaN a = false := by rw [hle, hle, hr.le ha ha]
  cases hn : Scalar.isNaN a with
  | false => exact h.2 hn
  | true => exact eq_true_of_ne_false fun h' => by rw [h.1 h'] at hn; cases hn

theorem lesser (ha : r a a') (hb : r b b') : r (Scalar.lesser a b) (Scalar.lesser a' b') := by
  unfold Scalar.lesser
  rw [hr.isNaN ha]
  simp only [hr.le hb ha]
  split
  · exact hb
  · split
    · exact hb
    · exact ha

theorem beats (ha : r a a') (hb : r b b') : beats a' b' = beats a b := by
  unfold Optima.beats
  rw [hr.isNaN ha, hr.isNaN hb]
  simp only [hr.lt ha hb]

theorem firstRanked {p q u v : α × Nat} (hp : r p.1 u.1) (hp' : u.2 = p.2)
    (hq : r q.1 v.1) (hq' : v.2 = q.2) :
    r (firstRanked p q).1 (firstRanked u v).1 ∧ (firstRanked u v).2 = (firstRanked p q).2 := by
  have hcompare : compareRanked v u = compareRanked q p := by
    unfold compareRanked
    rw [hr.beats hq hp, hr.beats hp hq, hp', hq']
  unfold Optima.firstRanked
  rw [hcompare]
  split
  · exact ⟨hq, hq'⟩
  · exact ⟨hp, hp'⟩

theorem foldl_firstRanked {p u : α × Nat} (h : List.Forall₂ r as as') (n : Nat)
    (hp : r p.1 u.1) (hp' : u.2 = p.2) :
    ((as'.zipIdx n).foldl Optima.firstRanked u).2 =
      ((as.zipIdx n).foldl Optima.firstRanked p).2 := by
  induction h generalizing n p u with
  | nil => exact hp'
  | cons ha _ ih =>
    obtain ⟨h1, h2⟩ := hr.firstRanked hp hp' (q := (_, n)) (v := (_, n)) ha rfl
    exact ih (n + 1) h1 h2

theorem bestIndex (h : List.Forall₂ r as as') : bestIndex as' = bestIndex as := by
  cases h with
  | nil => rfl
  | cons ha h => exact hr.foldl_firstRanked h 1 (p := (_, 0)) (u := (_, 0)) ha rfl

theorem foldl_lesser (h : List.Forall₂ r as as') (ha : r a a') :
    r (as.foldl Scalar.lesser a) (as'.foldl Scalar.lesser a') := by
  induction h generalizing a a' with
  | nil => exact ha
  | cons hb _ ih => exact ih (hr.lesser ha hb)

end

variable [Extended α]

theorem ranked (ha : r a a') : r (Scalar.ranked a) (Scalar.ranked a') := by
  unfold Scalar.ranked
  rw [hr.isNaN ha]
  split
  · exact hr.fixed Extended.isFinite_infinity
  · exact ha

theorem least (h : List.Forall₂ r as as') : r (least as) (least as') := by
  cases h with
  | nil => exact hr.fixed Extended.isFinite_infinity
  | cons ha h => exact hr.foldl_lesser h ha

theorem sub_nonpos (ha : r a a') (hb : r b b') : a' - b' ≤ 0 ↔ a - b ≤ 0 := by
  rw [Extended.sub_nonpos_iff, Extended.sub_nonpos_iff, hr.lt ha hb, hr.le ha hb, hr.finite ha]

omit [Extended α] in
theorem diverged (h : List.Forall₂ r as as') :
    Stopping.diverged as' = Stopping.diverged as := by
  cases h with
  | nil => rfl
  | cons ha _ => rw [Stopping.diverged, hr.finite ha, Stopping.diverged]

theorem onPlateau {c : Stopping α} (hc : c.valueTolerance = none) (h : List.Forall₂ r as as') :
    c.onPlateau as' = c.onPlateau as := by
  unfold Stopping.onPlateau
  rw [hc]
  cases c.plateau with
  | none => rfl
  | some n =>
    have hleast := hr.least (List.forall₂_take n h)
    have hdrop := List.forall₂_drop n h
    simp only [Option.any_some, Option.getD_none]
    generalize as.drop n = ds at hdrop ⊢
    generalize as'.drop n = ds' at hdrop ⊢
    cases hdrop with
    | nil => rfl
    | cons hd _ => exact decide_eq_decide.2 (hr.sub_nonpos hd hleast)

theorem verdict {c : Stopping α} (hc : c.valueTolerance = none) (h : List.Forall₂ r as as')
    (i : Nat) : c.verdict i as' none = c.verdict i as none := by
  have hsettled (vs : List α) : c.valueSettled vs = false := by
    unfold Stopping.valueSettled
    rw [hc]
    split <;> rfl
  unfold Stopping.verdict
  rw [hr.diverged h, hr.onPlateau hc h, hsettled, hsettled]

end Similar

structure Rescales (r : α → α → Prop) (goal : Goal) (φ : α → α) : Prop extends Similar r where
  orient {a a' : α} : r a a' → goal.orient a' = φ (goal.orient a)

end Optima
