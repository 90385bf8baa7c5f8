import Mathlib.Algebra.BigOperators.Group.List.Basic
import Mathlib.Data.List.Forall2
import Mathlib.Tactic.Abel
import Optima.Vec

namespace Optima.Vec

section Related

variable {α : Type} [Scalar α] {R : α → α → Prop}
  (hadd : ∀ {a b c d : α}, R a b → R c d → R (a + c) (b + d))

include hadd

theorem foldl_add_related {xs ys : List α} (h : List.Forall₂ R xs ys) {a b : α} (hab : R a b) :
    R (xs.foldl (· + ·) a) (ys.foldl (· + ·) b) := by
  induction h generalizing a b with
  | nil => exact hab
  | cons hxy _ ih => exact ih (hadd hab hxy)

theorem laneSum_related (h0 : R 0 0) {a b c d e f g h a₂ b₂ c₂ d₂ e₂ f₂ g₂ h₂ : α}
    {xs ys : List α} (hxy : List.Forall₂ R xs ys) (ha : R a a₂) (hb : R b b₂) (hc : R c c₂)
    (hd : R d d₂) (he : R e e₂) (hf : R f f₂) (hg : R g g₂) (hh : R h h₂) :
    R (laneSum a b c d e f g h xs) (laneSum a₂ b₂ c₂ d₂ e₂ f₂ g₂ h₂ ys) := by
  fun_induction laneSum a b c d e f g h xs generalizing a₂ b₂ c₂ d₂ e₂ f₂ g₂ h₂ ys with
  | case1 a b c d e f g h a' b' c' d' e' f' g' h' rest ih =>
    obtain _ | ⟨ha', _ | ⟨hb', _ | ⟨hc', _ | ⟨hd', _ | ⟨he', _ | ⟨hf', _ | ⟨hg', _ |
      ⟨hh', hrest⟩⟩⟩⟩⟩⟩⟩⟩ := hxy
    rw [laneSum.eq_1]
    exact ih hrest (hadd ha ha') (hadd hb hb') (hadd hc hc') (hadd hd hd') (hadd he he')
      (hadd hf hf') (hadd hg hg') (hadd hh hh')
  | case2 a b c d e f g h rest hshort =>
    rw [laneSum.eq_2]
    · exact foldl_add_related hadd hxy
        (hadd (hadd (hadd (hadd h0 (hadd ha he)) (hadd hb hf)) (hadd hc hg)) (hadd hd hh))
    · rintro a' b' c' d' e' f' g' h' rest' rfl
      obtain _ | ⟨-, _ | ⟨-, _ | ⟨-, _ | ⟨-, _ | ⟨-, _ | ⟨-, _ | ⟨-, _ | ⟨-, -⟩⟩⟩⟩⟩⟩⟩⟩ := hxy
      exact hshort _ _ _ _ _ _ _ _ _ rfl

theorem dot_related (h0 : R 0 0) {x y z w : Vec α}
    (h : List.Forall₂ R (List.zipWith (· * ·) x y) (List.zipWith (· * ·) z w)) :
    R (dot x y) (dot z w) :=
  laneSum_related hadd h0 h h0 h0 h0 h0 h0 h0 h0 h0

end Related

variable {α M : Type} [Scalar α] [AddCommMonoid M] {P : M → α → Prop} {weight : α → M}
  (hadd : ∀ {i j : M} {x y : α}, P i x → P j y → P (i + j) (x + y))

include hadd

theorem foldl_add_weighted {xs : List α} (hxs : ∀ x ∈ xs, P (weight x) x) {i : M} {a : α}
    (ha : P i a) : P (i + (xs.map weight).sum) (xs.foldl (· + ·) a) := by
  induction xs generalizing i a with
  | nil => rwa [List.map_nil, List.sum_nil, add_zero]
  | cons x xs ih =>
    obtain ⟨hx, hxs⟩ := List.forall_mem_cons.1 hxs
    rw [List.map_cons, List.sum_cons, ← add_assoc]
    exact ih hxs (hadd ha hx)

theorem laneSum_weighted (h0 : P 0 0) {a b c d e f g h : α} {xs : List α}
    (hxs : ∀ x ∈ xs, P (weight x) x) {i₁ i₂ i₃ i₄ i₅ i₆ i₇ i₈ : M} (ha : P i₁ a) (hb : P i₂ b)
    (hc : P i₃ c) (hd : P i₄ d) (he : P i₅ e) (hf : P i₆ f) (hg : P i₇ g) (hh : P i₈ h) :
    P (i₁ + i₂ + i₃ + i₄ + i₅ + i₆ + i₇ + i₈ + (xs.map weight).sum)
      (laneSum a b c d e f g h xs) := by
  fun_induction laneSum a b c d e f g h xs generalizing i₁ i₂ i₃ i₄ i₅ i₆ i₇ i₈ with
  | case1 a b c d e f g h a' b' c' d' e' f' g' h' rest ih =>
    simp only [List.forall_mem_cons] at hxs
    obtain ⟨ha', hb', hc', hd', he', hf', hg', hh', hrest⟩ := hxs
    have hsum := ih hrest (hadd ha ha') (hadd hb hb') (hadd hc hc') (hadd hd hd') (hadd he he')
      (hadd hf hf') (hadd hg hg') (hadd hh hh')
    simp only [List.map_cons, List.sum_cons]
    convert hsum using 1
    abel
  | case2 a b c d e f g h rest =>
    have hsum := foldl_add_weighted hadd hxs
      (hadd (hadd (hadd (hadd h0 (hadd ha he)) (hadd hb hf)) (hadd hc hg)) (hadd hd hh))
    convert hsum using 1
    abel

theorem dot_weighted (h0 : P 0 0) {x y : Vec α}
    (hxy : ∀ a ∈ List.zipWith (· * ·) x y, P (weight a) a) :
    P ((List.zipWith (· * ·) x y).map weight).sum (dot x y) := by
  have hsum := laneSum_weighted hadd h0 hxy h0 h0 h0 h0 h0 h0 h0 h0
  simp only [zero_add] at hsum
  exact hsum

end Optima.Vec
