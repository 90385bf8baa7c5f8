import Optima.Proofs.Clipping
import Optima.Proofs.LineSearch.Wolfe

namespace Optima.LineSearch

open Scalar (Contracting)

section

variable {α : Type} [Scalar α] {f : LineFunction α} {x d : Vec α} {value step : α} {P : α → Prop}

/-- The search looks at steps of `P` only, and ends at one of them if it does not stay. -/
structure Reaches (f : LineFunction α) (x d : Vec α) (value : α) (P : α → Prop)
    (t : Traced (Vec α) (Outcome α)) : Prop where
  calls : ∀ y ∈ t.calls, ∃ a, P a ∧ (y = Vec.along x d a ∨
    y ∈ (f.gradient (Vec.along x d a) (f.value (Vec.along x d a))).calls)
  ended : t.value = .unchanged x value ∨ ∃ a, P a ∧ t.value.point = Vec.along x d a

theorem Reaches.pure {o : Outcome α}
    (h : o = .unchanged x value ∨ ∃ a, P a ∧ o.point = Vec.along x d a) :
    Reaches f x d value P (Pure.pure o) :=
  ⟨fun _ hy => absurd hy List.not_mem_nil, h⟩

theorem Reaches.trial (h : P step) {k : α → Traced (Vec α) (Outcome α)}
    (hk : Reaches f x d value P (k (f.value (Vec.along x d step)))) :
    Reaches f x d value P (Traced.call f.value (Vec.along x d step) >>= k) := by
  refine ⟨?_, hk.ended⟩
  rw [Traced.calls_bind, Traced.calls_call]
  exact List.forall_mem_cons.2 ⟨⟨step, h, .inl rfl⟩, hk.calls⟩

theorem backtrack_reaches (accept : α → α → Bool) {n : Nat}
    (h : ∀ a ∈ grid halving step n, P a) :
    Reaches f x d value P (backtrack f x d value accept n step) := by
  induction n generalizing step with
  | zero => exact .pure (.inl rfl)
  | succ n ih =>
    obtain ⟨hstep, hrest⟩ := List.forall_mem_cons.1 h
    refine .trial hstep ?_
    split
    · exact .pure (.inr ⟨step, hstep, rfl⟩)
    · exact ih hrest

theorem lowest_reaches {n : Nat} (h : ∀ a ∈ grid gridFactor step n, P a) {best : Outcome α}
    (hb : best = .unchanged x value ∨ ∃ a, P a ∧ best.point = Vec.along x d a) :
    Reaches f x d value P (lowest f x d n step best) := by
  induction n generalizing step best with
  | zero => exact .pure hb
  | succ n ih =>
    obtain ⟨hstep, hrest⟩ := List.forall_mem_cons.1 h
    refine .trial hstep (ih hrest ?_)
    split
    · exact .inr ⟨step, hstep, rfl⟩
    · exact hb

def Allows (c : LineSearch α) (a : α) : Prop := 0 ≤ a ∧ ∀ m ∈ c.maxStep, a ≤ m

end

variable {c : LineSearch ℝ} {f : LineFunction ℝ} {x d g : Vec ℝ} {value : ℝ}

theorem check_limitTo (h : c.check = .ok ()) {m : ℝ} (hm : 0 < m) :
    (c.limitTo m).check = .ok () := by
  cases hmax : c.maxStep with
  | none =>
    simp only [check, limitTo, hmax, Option.elim_none, Requirement.check_bind_eq_ok,
      Requirement.holds, Exact.literal_zero, decide_eq_true_eq] at h ⊢
    exact ⟨h.1, hm, h.2⟩
  | some k =>
    simp only [check, limitTo, hmax, Option.elim_some, Requirement.check_bind_eq_ok,
      Requirement.holds, Exact.literal_zero, Exact.lesser_eq, decide_eq_true_eq] at h ⊢
    exact ⟨h.1, lt_min h.2.1 hm, h.2.2⟩

theorem Allows.between {m a : ℝ} (h : (c.limitTo m).Allows a) : 0 ≤ a ∧ a ≤ m := by
  refine ⟨Exact.literal_zero.ge.trans h.1, (h.2 _ rfl).trans ?_⟩
  cases c.maxStep with
  | none => exact le_rfl
  | some k =>
    rw [Option.elim_some, Exact.lesser_eq]
    exact min_le_right k m

theorem Wolfe.Proceeds.reaches {t : Traced (Vec ℝ) (Outcome ℝ)}
    (h : (Wolfe.ofSearch c f x d value g).Proceeds t) : Reaches f x d value c.Allows t := by
  have hsteps : ∀ b ∈ (Wolfe.ofSearch c f x d value g).tried, c.Allows b.step := fun b hb =>
    ⟨Exact.literal_zero.le.trans (h.steps b hb).1.le, (h.steps b hb).2⟩
  constructor
  · intro y hy
    rw [h.calls] at hy
    obtain ⟨b, hb, hy⟩ := List.mem_flatMap.1 hy
    refine ⟨b.step, hsteps b hb, ?_⟩
    obtain rfl | hy := List.mem_cons.1 hy
    · exact .inl rfl
    · split at hy
      · exact .inr hy
      · cases hy
  · obtain ⟨b, hb, -, he⟩ | ⟨-, hu⟩ := h.settles.cases
    · exact .inr ⟨b.step, hsteps b hb, congrArg Outcome.point he⟩
    · exact .inl hu

theorem search_reaches (hc : c.check = .ok ()) (value : ℝ) (g : Vec ℝ) :
    Reaches f x d value c.Allows (c.search f x d value g) := by
  have hhalving : ∀ a ∈ c.steps halving, c.Allows a := fun a ha =>
    (steps_between hc zero_le_halving halving_le_one a ha).2
  have hgrid : ∀ a ∈ c.steps gridFactor, c.Allows a := fun a ha =>
    (steps_between hc zero_le_gridFactor gridFactor_le_one a ha).2
  have hflat (hm : c.method = .armijoGoldstein ∨ c.method = .strongWolfe)
      (hs : Vec.dot g d < @OfNat.ofNat ℝ 0 (Scalar.instOfNat 0)) :
      Reaches f x d value c.Allows (c.search f x d value g) :=
    (Wolfe.search_proceeds hc hm (by rwa [Exact.literal_zero] at hs)).reaches
  unfold search at hflat ⊢
  split
  · exact .pure (.inl rfl)
  · next hd =>
    simp only [if_neg hd] at hflat
    cases hm : c.method with
    | naive => exact backtrack_reaches _ hhalving
    | armijo =>
      dsimp only
      split
      · exact backtrack_reaches _ hhalving
      · exact .pure (.inl rfl)
    | armijoGoldstein =>
      dsimp only
      split
      · next hs => simpa only [hm, if_pos hs] using hflat (.inl hm) hs
      · exact .pure (.inl rfl)
    | strongWolfe =>
      dsimp only
      split
      · next hs => simpa only [hm, if_pos hs] using hflat (.inr hm) hs
      · exact .pure (.inl rfl)
    | lowest => exact lowest_reaches hgrid (.inl rfl)

end Optima.LineSearch
