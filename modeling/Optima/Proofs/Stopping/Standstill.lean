import Optima.Proofs.Stopping.Priority

namespace Optima

open Scalar (Equated Extended Lawful isFinite isNaN)

variable {α : Type} [Scalar α]

def Falls (a b : α) : Prop := b = a ∨ b < a

theorem Falls.refl (a : α) : Falls a a := .inl rfl

theorem Falls.trans [Lawful α] {a b c : α} (hab : Falls a b) (hbc : Falls b c) : Falls a c := by
  obtain rfl | hcb := hbc
  · exact hab
  obtain rfl | hba := hab
  · exact .inr hcb
  · exact .inr (Lawful.lt_of_lt_of_le hcb (Lawful.le_of_lt hba))

theorem Falls.le [Lawful α] {a b : α} (h : Falls a b) (hb : isNaN b = false) : b ≤ a := by
  obtain rfl | h := h
  · exact Lawful.le_refl hb
  · exact Lawful.le_of_lt h

theorem falls_of_le [Lawful α] {v : Nat → α} (hv : ∀ k, Falls (v k) (v (k + 1))) {j k : Nat}
    (h : j ≤ k) : Falls (v j) (v k) := by
  induction h with
  | refl => exact .refl _
  | step _ ih => exact ih.trans (hv _)

namespace Stopping

/-- The verdict on the best values `v` so far, after `t` iterations. -/
def standstill (c : Stopping α) (window : Nat) (v : Nat → α) (t : Nat) : Option Status :=
  if isFinite (v t) = false then some .diverged
  else if window ≤ t ∧ (v t == v (t - window)) = true then some .stationaryFunction
  else if c.capReached t then some .iterationExceeded
  else none

variable {c : Stopping α} {window : Nat} {v : Nat → α}

theorem onPlateau_history [Equated α] (htol : c.valueTolerance = none)
    (hc : c.plateau = some window) (hw : window ≠ 0) (hv : ∀ k, Falls (v k) (v (k + 1))) {t : Nat}
    (ht : isFinite (v t) = true) :
    c.onPlateau ((List.range (t + 1)).map v).reverse = true ↔
      window ≤ t ∧ (v t == v (t - window)) = true := by
  by_cases hle : window ≤ t
  · obtain ⟨a, rfl⟩ := Nat.exists_eq_add_of_le' hle
    have hsplit : (List.range (a + window + 1)).map v =
        (List.range a).map v ++ v a :: (List.range' (a + 1) window).map v := by
      rw [Nat.add_assoc, List.range_eq_range', List.range_eq_range', ← List.range'_append_1,
        Nat.zero_add, List.range'_succ, List.map_append, List.map_cons]
    have hlength : c.plateau = some ((List.range' (a + 1) window).map v).length := by
      rw [hc, List.length_map, List.length_range']
    -- the least value of the window is the last one
    have hnan : isNaN (v (a + window)) = false := Lawful.isNaN_of_isFinite ht
    have hbelow : ∀ b ∈ ((List.range' (a + 1) window).map v).reverse, v (a + window) ≤ b := by
      intro b hb
      obtain ⟨k, hk, rfl⟩ := List.mem_map.1 (List.mem_reverse.1 hb)
      have hka := List.mem_range'_1.1 hk
      exact (falls_of_le hv (show k ≤ a + window by omega)).le hnan
    have hlast : v (a + window) ∈ ((List.range' (a + 1) window).map v).reverse := by
      rw [List.mem_reverse]
      exact List.mem_map_of_mem (List.mem_range'_1.2 (by omega))
    obtain ⟨hmem, hleast⟩ := least_spec (List.ne_nil_of_mem hlast) fun b hb =>
      (Lawful.isNaN_of_le (hbelow b hb)).2
    have hfall : v (a + window) ≤ v a := (falls_of_le hv (Nat.le_add_right a window)).le hnan
    rw [hsplit, c.onPlateau_append hlength, htol, Option.getD_none, decide_eq_true_iff,
      Extended.sub_nonpos_iff, Nat.add_sub_cancel, and_iff_right hle, Equated.beq_iff]
    constructor
    · intro h
      have hle : v a ≤ least ((List.range' (a + 1) window).map v).reverse :=
        h.elim Lawful.le_of_lt And.left
      exact ⟨hfall, Lawful.le_trans hle (hleast _ hlast)⟩
    · rintro ⟨-, h⟩
      obtain heq | hlt := falls_of_le hv (Nat.le_add_right a window)
      · exact .inr ⟨Lawful.le_trans h (hbelow _ hmem), heq ▸ ht⟩
      · exact absurd h (Lawful.lt_iff.1 hlt).2
  · have hlength : ((List.range (t + 1)).map v).length ≤ window := by
      rw [List.length_map, List.length_range]
      omega
    rw [c.onPlateau_of_length_le _ hc hlength]
    exact iff_of_false Bool.false_ne_true fun h => hle h.1

theorem classify_history [Equated α] (htol : c.valueTolerance = none)
    (hc : c.plateau = some window) (hw : window ≠ 0) (hv : ∀ k, Falls (v k) (v (k + 1))) (t : Nat) :
    c.classify t ((List.range (t + 1)).map v) none = c.standstill window v t := by
  have hd : diverged ((List.range (t + 1)).map v).reverse = !isFinite (v t) := by
    rw [List.range_succ, List.map_append, List.reverse_append]
    rfl
  have hsettled : c.valueSettled ((List.range (t + 1)).map v).reverse = false := by
    unfold valueSettled
    split
    · rw [htol]
      rfl
    · rfl
  unfold classify verdict standstill
  rw [hd, hsettled]
  cases ht : isFinite (v t) with
  | false => rfl
  | true =>
    simp only [Bool.not_true, Bool.false_eq_true, if_false, gradientSmall, Bool.true_eq_false,
      onPlateau_history htol hc hw hv ht]

theorem le_of_standstill [Equated α] (hv : ∀ k, Falls (v k) (v (k + 1))) {t k : Nat}
    (h : c.standstill window v t = some .stationaryFunction) (hk : k < t)
    (hlt : v (k + 1) < v k) : k + 1 + window ≤ t := by
  have hflat : window ≤ t ∧ (v t == v (t - window)) = true := by
    unfold standstill at h
    repeat' split at h
    all_goals first | assumption | cases h
  by_contra hlate
  have hafter : v t ≤ v (k + 1) := by
    have hfall := falls_of_le hv hk
    exact hfall.le (Lawful.isNaN_of_le (Equated.beq_iff.1 hflat.2).1).1
  have hbefore : v k ≤ v (t - window) :=
    (falls_of_le hv (by omega)).le (Lawful.isNaN_of_le (Lawful.le_of_lt hlt)).2
  have hbelow := Lawful.lt_of_le_of_lt hafter (Lawful.lt_of_lt_of_le hlt hbefore)
  exact (Lawful.lt_iff.1 hbelow).2 (Equated.beq_iff.1 hflat.2).2

end Stopping

end Optima
