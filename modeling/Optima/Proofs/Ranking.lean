import Optima.Population
import Optima.Proofs.Scalar.Lawful
import Optima.Stopping

/-!
The earliest of the best. The tests by which the searches compare values rank them: what is better
than something no better than a third is better than the third. So a best one is found by going
through a list once, and it is the earliest one when only a better one replaces it.
-/

namespace Optima

/-- Something is better than all that are no better than what it is better than. -/
structure Ranking {β : Type} (lt : β → β → Prop) : Prop where
  asymm {a b : β} : lt a b → ¬ lt b a
  of_not {a b c : β} : lt a b → ¬ lt c b → lt a c

/-- The first of the best members of a list, at index `i`. -/
structure FirstBest {β : Type} (lt : β → β → Prop) (xs : List β) (i : Nat) (x : β) : Prop where
  get : xs[i]? = some x
  before : ∀ j y, j < i → xs[j]? = some y → lt x y
  best : ∀ y ∈ xs, ¬ lt y x

namespace Ranking

variable {β γ : Type} {lt : β → β → Prop}

theorem irrefl (h : Ranking lt) (a : β) : ¬ lt a a := fun ha => h.asymm ha ha

theorem not_trans (h : Ranking lt) {a b c : β} (hab : ¬ lt a b) (hbc : ¬ lt b c) : ¬ lt a c := by
  intro hac
  exact hab (h.of_not hac hbc)

theorem comap (h : Ranking lt) (f : γ → β) : Ranking fun x y => lt (f x) (f y) :=
  ⟨h.asymm, h.of_not⟩

def comparison (lt : β → β → Prop) [DecidableRel lt] (a b : β) : Ordering :=
  if lt a b then .lt else if lt b a then .gt else .eq

theorem isLE_comparison [DecidableRel lt] (h : Ranking lt) {a b : β} :
    (comparison lt a b).isLE = true ↔ ¬ lt b a := by
  unfold comparison
  split
  · next hab => simp [h.asymm hab]
  · split
    · next hba => simp [hba]
    · next hba => simp [hba]

theorem transCmp [DecidableRel lt] (h : Ranking lt) : Std.TransCmp (comparison lt) where
  eq_swap {a b} := by
    by_cases hab : lt a b
    · simp [comparison, hab, h.asymm hab]
    · by_cases hba : lt b a
      · simp [comparison, hab, hba]
      · simp [comparison, hab, hba]
  isLE_trans {a b c} hab hbc := by
    rw [h.isLE_comparison] at hab hbc ⊢
    exact h.not_trans hbc hab

theorem of_transCmp (cmp : β → β → Ordering) [Std.TransCmp cmp] :
    Ranking fun a b => cmp a b = .lt where
  asymm {a b} hab hba := by
    have hgt : cmp a b = .gt := Std.OrientedCmp.gt_of_lt hba
    rw [hab] at hgt
    cases hgt
  of_not {a b c} hab hcb := by
    have hbc : (cmp b c).isLE = true := by
      rw [Ordering.isLE_iff_ne_gt, Std.OrientedCmp.gt_iff_lt]
      exact hcb
    exact Std.TransCmp.lt_of_lt_of_isLE hab hbc

end Ranking

namespace FirstBest

variable {β : Type} {lt : β → β → Prop} {xs : List β} {i : Nat} {x y : β}

theorem mem (h : FirstBest lt xs i x) : x ∈ xs := List.mem_of_getElem? h.get

theorem singleton (h : Ranking lt) (x : β) : FirstBest lt [x] 0 x := by
  refine ⟨rfl, ?_, ?_⟩
  · intro j y hj
    exact absurd hj (Nat.not_lt_zero j)
  · intro y hy
    rw [List.mem_singleton.1 hy]
    exact h.irrefl x

theorem concat_of_lt (h : FirstBest lt xs i x) (hlt : Ranking lt) (hy : lt y x) :
    FirstBest lt (xs ++ [y]) xs.length y := by
  have hall : ∀ z ∈ xs, lt y z := fun z hz => hlt.of_not hy (h.best z hz)
  refine ⟨by simp, ?_, ?_⟩
  · intro j z hj hz
    rw [List.getElem?_append_left hj] at hz
    exact hall z (List.mem_of_getElem? hz)
  · intro z hz
    obtain hz | hz := List.mem_append.1 hz
    · exact hlt.asymm (hall z hz)
    · rw [List.mem_singleton.1 hz]
      exact hlt.irrefl y

theorem concat_of_not_lt (h : FirstBest lt xs i x) (hy : ¬ lt y x) :
    FirstBest lt (xs ++ [y]) i x := by
  have hi : i < xs.length := (List.getElem?_eq_some_iff.1 h.get).1
  refine ⟨?_, ?_, ?_⟩
  · rw [List.getElem?_append_left hi, h.get]
  · intro j z hj hz
    rw [List.getElem?_append_left (Nat.lt_trans hj hi)] at hz
    exact h.before j z hj hz
  · intro z hz
    obtain hz | hz := List.mem_append.1 hz
    · exact h.best z hz
    · rwa [List.mem_singleton.1 hz]

theorem of_map {γ : Type} {lt : γ → γ → Prop} {f : β → γ} {c : γ}
    (h : FirstBest lt (xs.map f) i c) :
    ∃ x, FirstBest (fun x y => lt (f x) (f y)) xs i x ∧ f x = c := by
  have hget := h.get
  rw [List.getElem?_map, Option.map_eq_some_iff] at hget
  obtain ⟨x, hx, rfl⟩ := hget
  refine ⟨x, ⟨hx, ?_, ?_⟩, rfl⟩
  · intro j y hj hy
    exact h.before j (f y) hj (by rw [List.getElem?_map, hy, Option.map_some])
  · intro y hy
    exact h.best (f y) (List.mem_map_of_mem hy)

theorem foldl (hlt : Ranking lt) (pick : β → β → β) (hpick : ∀ x y, lt y x → pick x y = y)
    (hkeep : ∀ x y, ¬ lt y x → pick x y = x) (h : FirstBest lt xs i x) (ys : List β) :
    ∃ j, FirstBest lt (xs ++ ys) j (ys.foldl pick x) := by
  induction ys generalizing xs i x with
  | nil => exact ⟨i, by rwa [List.append_nil]⟩
  | cons y ys ih =>
    rw [List.foldl_cons, List.append_cons]
    by_cases hy : lt y x
    · rw [hpick x y hy]
      exact ih (h.concat_of_lt hlt hy)
    · rw [hkeep x y hy]
      exact ih (h.concat_of_not_lt hy)

end FirstBest

open Scalar (Lawful isNaN)

variable {α : Type} [Scalar α] [Lawful α]

omit [Lawful α] in
theorem beats_iff {a b : α} : beats a b = true ↔ a < b ∨ isNaN b = true ∧ isNaN a = false := by
  simp [beats]

theorem isNaN_of_beats {a b : α} (h : beats a b = true) : isNaN a = false := by
  obtain hlt | ⟨-, ha⟩ := beats_iff.1 h
  · exact (Lawful.isNaN_of_le (Lawful.le_of_lt hlt)).1
  · exact ha

omit [Lawful α] in
theorem lt_of_beats {a b : α} (h : beats a b = true) (hb : isNaN b = false) : a < b := by
  obtain hlt | ⟨hnan, -⟩ := beats_iff.1 h
  · exact hlt
  · rw [hb] at hnan
    cases hnan

theorem le_of_not_beats {a b : α} (ha : isNaN a = false) (h : ¬ beats a b = true) :
    isNaN b = false ∧ b ≤ a := by
  rw [beats_iff, not_or] at h
  have hb : isNaN b = false := by
    cases hb : isNaN b with
    | false => rfl
    | true => exact absurd ⟨hb, ha⟩ h.2
  exact ⟨hb, Lawful.le_of_not_lt hb ha h.1⟩

theorem beats_ranking : Ranking fun a b : α => beats a b = true where
  asymm {a b} hab hba := by
    have hlt : a < b := lt_of_beats hab (isNaN_of_beats hba)
    have hgt : b < a := lt_of_beats hba (isNaN_of_beats hab)
    exact (Lawful.lt_iff.1 hlt).2 (Lawful.le_of_lt hgt)
  of_not {a b c} hab hcb := by
    rw [beats_iff]
    cases hc : isNaN c with
    | true => exact .inr ⟨rfl, isNaN_of_beats hab⟩
    | false =>
      obtain ⟨hb, hbc⟩ := le_of_not_beats hc hcb
      exact .inl (Lawful.lt_of_lt_of_le (lt_of_beats hab hb) hbc)

theorem lt_ranking {β : Type} {f : β → α} (hf : ∀ x, isNaN (f x) = false) :
    Ranking fun x y => f x < f y := by
  have h : (fun x y => f x < f y) = fun x y => beats (f x) (f y) = true := by
    funext x y
    simp [beats_iff, hf]
  rw [h]
  exact beats_ranking.comap f

theorem foldl_lesser {as : List α} (has : ∀ a ∈ as, isNaN a = false) {b : α}
    (hb : isNaN b = false) :
    as.foldl Scalar.lesser b ∈ b :: as ∧ ∀ a ∈ b :: as, as.foldl Scalar.lesser b ≤ a := by
  induction as generalizing b with
  | nil => exact ⟨List.mem_cons_self, by simpa using Lawful.le_refl hb⟩
  | cons a as ih =>
    obtain ⟨ha, has⟩ := List.forall_mem_cons.1 has
    obtain ⟨hleb, hlea, he⟩ := Scalar.lesser_le hb ha
    have hn : isNaN (Scalar.lesser b a) = false := (Lawful.isNaN_of_le hleb).1
    obtain ⟨hmem, hle⟩ := ih has hn
    obtain ⟨hfirst, hrest⟩ := List.forall_mem_cons.1 hle
    rw [List.foldl_cons]
    refine ⟨?_, ?_⟩
    · obtain hmem | hmem := List.mem_cons.1 hmem
      · rw [hmem]
        obtain he | he := he
        · rw [he]
          exact List.mem_cons_self
        · rw [he]
          exact List.mem_cons_of_mem b List.mem_cons_self
      · exact List.mem_cons_of_mem b (List.mem_cons_of_mem a hmem)
    · refine List.forall_mem_cons.2 ⟨Lawful.le_trans hfirst hleb, ?_⟩
      exact List.forall_mem_cons.2 ⟨Lawful.le_trans hfirst hlea, hrest⟩

theorem least_spec {as : List α} (hne : as ≠ []) (has : ∀ a ∈ as, isNaN a = false) :
    least as ∈ as ∧ ∀ a ∈ as, least as ≤ a := by
  obtain ⟨b, as, rfl⟩ := List.exists_cons_of_ne_nil hne
  obtain ⟨hb, has⟩ := List.forall_mem_cons.1 has
  exact foldl_lesser has hb

omit [Lawful α] in
theorem compareRanked_eq_lt {p q : α × Nat} :
    compareRanked p q = .lt ↔
      beats p.1 q.1 = true ∨ ¬ beats q.1 p.1 = true ∧ p.2 < q.2 := by
  unfold compareRanked
  split
  · next h => simp [h]
  · next h =>
    split
    · next h' => simp [h, h']
    · next h' => simp [h, h', Nat.compare_eq_lt]

omit [Lawful α] in
theorem compareRanked_eq_compareLex : compareRanked (α := α) =
    compareLex (Ranking.comparison fun p q => beats p.1 q.1 = true) (compareOn Prod.snd) := by
  funext p q
  simp only [compareRanked, compareLex, compareOn, Ranking.comparison]
  split
  · rfl
  · split
    · rfl
    · rfl

instance : Std.TransCmp (compareRanked (α := α)) := by
  have := (beats_ranking.comap (Prod.fst : α × Nat → α)).transCmp
  rw [compareRanked_eq_compareLex]
  infer_instance

theorem bestIndex_least {values : List α} (h : values ≠ []) :
    ∃ p ∈ values.zipIdx, p.2 = bestIndex values ∧
      ∀ q ∈ values.zipIdx, ¬ compareRanked q p = .lt := by
  obtain ⟨a, as, rfl⟩ := List.exists_cons_of_ne_nil h
  have hranking := Ranking.of_transCmp (compareRanked (α := α))
  obtain ⟨j, hj⟩ := FirstBest.foldl hranking firstRanked
    (fun p q hq => by simp [firstRanked, hq]) (fun p q hq => by simp [firstRanked, hq])
    (.singleton hranking (a, 0)) (as.zipIdx 1)
  exact ⟨_, hj.mem, rfl, hj.best⟩

theorem bestIndex_firstBest {values : List α} (h : values ≠ []) :
    ∃ v, FirstBest (fun a b => beats a b = true) values (bestIndex values) v := by
  obtain ⟨⟨v, i⟩, hmem, hi, hleast⟩ := bestIndex_least h
  rw [← hi]
  have hget : values[i]? = some v := List.mk_mem_zipIdx_iff_getElem?.1 hmem
  have hnot : ∀ k u, values[k]? = some u → ¬ compareRanked (u, k) (v, i) = .lt :=
    fun k u hu => hleast (u, k) (List.mk_mem_zipIdx_iff_getElem?.2 hu)
  simp only [compareRanked_eq_lt, not_or, not_and'] at hnot
  refine ⟨v, hget, ?_, ?_⟩
  · intro k u hk hu
    exact Decidable.not_not.1 ((hnot k u hu).2 hk)
  · intro u hu
    obtain ⟨k, hk⟩ := List.mem_iff_getElem?.1 hu
    exact (hnot k u hk).1

end Optima
