import Optima.Proofs.Ranking
import Optima.Proofs.Scalar.Binary64

namespace Optima

open Scalar (Lawful isNaN)

variable {α : Type} [Scalar α]

/-- The index of the earliest of the least numbers, or of the first value when none is a number. -/
structure EarliestBest (values : List α) (i : Nat) : Prop where
  lt_length : i < values.length
  number : (∃ v ∈ values, isNaN v = false) → isNaN values[i] = false
  least : ∀ v ∈ values, isNaN v = false → values[i] ≤ v
  before : ∀ j, (hj : j < i) → isNaN values[j] = false → values[i] < values[j]
  first : (∀ v ∈ values, isNaN v = true) → i = 0

/-- Neither is better: they are equal numbers, as the two zeros are, or both NaN. -/
def Tied (a b : α) : Prop := a ≤ b ∧ b ≤ a ∨ isNaN a = true ∧ isNaN b = true

variable [Lawful α] {values : List α}

namespace EarliestBest

theorem le {i j : Nat} (hi : EarliestBest values i) (hj : EarliestBest values j) : i ≤ j := by
  by_cases hnumber : ∃ v ∈ values, isNaN v = false
  · refine Nat.le_of_not_lt fun hlt => ?_
    have hlength : i < values.length := hi.lt_length
    have hbefore : values[i] < values[j] := hi.before j hlt (hj.number hnumber)
    have hleast : values[j] ≤ values[i] :=
      hj.least values[i] (List.getElem_mem hlength) (hi.number hnumber)
    exact (Lawful.lt_iff.1 hbefore).2 hleast
  · have hnone : ∀ v ∈ values, isNaN v = true := by simpa using hnumber
    rw [hi.first hnone]
    exact Nat.zero_le j

theorem of_firstBest {i : Nat} {v : α}
    (h : FirstBest (fun a b => beats a b = true) values i v) : EarliestBest values i := by
  obtain ⟨hi, rfl⟩ := List.getElem?_eq_some_iff.1 h.get
  refine ⟨hi, ?_, ?_, ?_, ?_⟩
  · rintro ⟨u, hu, hnumber⟩
    exact (le_of_not_beats hnumber (h.best u hu)).1
  · intro u hu hnumber
    exact (le_of_not_beats hnumber (h.best u hu)).2
  · intro j hj hnumber
    exact lt_of_beats (h.before j values[j] hj (List.getElem?_eq_getElem _)) hnumber
  · intro hall
    refine Nat.eq_zero_of_not_pos fun hpos => ?_
    have hnumber : isNaN values[i] = false :=
      isNaN_of_beats (h.before 0 values[0] hpos (List.getElem?_eq_getElem _))
    rw [hall values[i] (List.getElem_mem hi)] at hnumber
    cases hnumber

end EarliestBest

theorem tied_iff {a b : α} : Tied a b ↔ ¬ beats a b = true ∧ ¬ beats b a = true := by
  constructor
  · rintro (⟨hab, hba⟩ | ⟨ha, hb⟩)
    · obtain ⟨ha, hb⟩ := Lawful.isNaN_of_le hab
      exact ⟨fun h => (Lawful.lt_iff.1 (lt_of_beats h hb)).2 hba,
        fun h => (Lawful.lt_iff.1 (lt_of_beats h ha)).2 hab⟩
    · refine ⟨fun h => ?_, fun h => ?_⟩
      · rw [isNaN_of_beats h] at ha
        cases ha
      · rw [isNaN_of_beats h] at hb
        cases hb
  · rintro ⟨hab, hba⟩
    cases ha : isNaN a with
    | false =>
      obtain ⟨hb, hle⟩ := le_of_not_beats ha hab
      exact .inl ⟨(le_of_not_beats hb hba).2, hle⟩
    | true =>
      refine .inr ⟨ha, eq_true_of_ne_false fun hb => ?_⟩
      rw [(le_of_not_beats hb hba).1] at ha
      cases ha

theorem compareRanked_eq_eq {p q : α × Nat} :
    compareRanked p q = .eq ↔ Tied p.1 q.1 ∧ p.2 = q.2 := by
  rw [tied_iff]
  unfold compareRanked
  split
  · next h => simp [h]
  · next h =>
    split
    · next h' => simp [h']
    · next h' => simp [h, h']

omit [Scalar α] [Lawful α] in
theorem eq_of_mem_zipIdx {p q : α × Nat} (hp : p ∈ values.zipIdx) (hq : q ∈ values.zipIdx)
    (h : p.2 = q.2) : p = q := by
  have hvalue : values[p.2]? = some p.1 := List.mk_mem_zipIdx_iff_getElem?.1 hp
  rw [h, List.mk_mem_zipIdx_iff_getElem?.1 hq] at hvalue
  exact Prod.ext (Option.some.inj hvalue).symm h

theorem eq_of_compareRanked {p q : α × Nat} (hp : p ∈ values.zipIdx) (hq : q ∈ values.zipIdx)
    (h : compareRanked p q = .eq) : p = q :=
  eq_of_mem_zipIdx hp hq (compareRanked_eq_eq.1 h).2

theorem eq_bestIndex_iff {p : α × Nat} (hp : p ∈ values.zipIdx) :
    p.2 = bestIndex values ↔ ∀ q ∈ values.zipIdx, (compareRanked p q).isLE = true := by
  have hne : values ≠ [] := by
    rintro rfl
    cases hp
  obtain ⟨b, hb, hindex, hnot⟩ := bestIndex_least hne
  have hleast : ∀ q ∈ values.zipIdx, (compareRanked b q).isLE = true := by
    intro q hq
    rw [Ordering.isLE_iff_ne_gt, Std.OrientedCmp.gt_iff_lt]
    exact hnot q hq
  rw [← hindex]
  constructor
  · intro h
    rw [eq_of_mem_zipIdx hp hb h]
    exact hleast
  · intro h
    have htie : compareRanked p b = .eq := Std.OrientedCmp.isLE_antisymm (h b hb) (hleast p hp)
    exact (compareRanked_eq_eq.1 htie).2

/-- The best index is the one index of that kind. The order of pairs by which it is found is total,
only pairs of one index are equal in it, and its least pair in a list is that of the best index. -/
theorem bestIndex_earliest (h : values ≠ []) :
    (∀ i, bestIndex values = i ↔ EarliestBest values i) ∧
      Std.TransCmp (compareRanked (α := α)) ∧
      (∀ p q : α × Nat, compareRanked p q = .eq ↔ Tied p.1 q.1 ∧ p.2 = q.2) ∧
      ∀ p ∈ values.zipIdx,
        (∀ q ∈ values.zipIdx, compareRanked p q = .eq → p = q) ∧
        (p.2 = bestIndex values ↔ ∀ q ∈ values.zipIdx, (compareRanked p q).isLE = true) := by
  obtain ⟨v, hv⟩ := bestIndex_firstBest h
  have hbest : EarliestBest values (bestIndex values) := .of_firstBest hv
  refine ⟨?_, inferInstance, fun p q => compareRanked_eq_eq, ?_⟩
  · intro i
    constructor
    · rintro rfl
      exact hbest
    · intro hi
      exact Nat.le_antisymm (hbest.le hi) (hi.le hbest)
  · intro p hp
    exact ⟨fun q hq heq => eq_of_compareRanked hp hq heq, eq_bestIndex_iff hp⟩

def specials : List Float := [Scalar.nan, Scalar.infinity, 0, -0, Scalar.nan]

theorem earlier_zero_best : specials ≠ [] ∧ bestIndex specials = 2 ∧ EarliestBest specials 2 := by
  have hne : specials ≠ [] := List.cons_ne_nil _ _
  have hindex : bestIndex specials = 2 := by decide +kernel
  obtain ⟨hearliest, -⟩ := bestIndex_earliest hne
  exact ⟨hne, hindex, (hearliest 2).1 hindex⟩

end Optima
