import Optima.Box
import Optima.Proofs.Cap.Root
import Optima.Proofs.Iteration
import Optima.Proofs.Scalar.Binary64

namespace Optima.Bracketing

open Scalar (Lawful isFinite)
open Traced (Visits)

variable {α : Type} [Scalar α] {s : Bracketing α} {b : Bracket α} {t u : State α}

def ordered (x y : α) : Interval α := if x ≤ y then ⟨x, y⟩ else ⟨y, x⟩

def Bracket.interval (b : Bracket α) : Interval α := ⟨b.lower, b.upper⟩

def error (s : Bracketing α) (x : α) : α := s.function x - s.config.target

/-- The finite errors kept are those at the ends, and their signs differ. -/
structure Bracket.Changes (s : Bracketing α) (b : Bracket α) : Prop where
  lowerError : b.lowerError = s.error b.lower
  upperError : b.upperError = s.error b.upper
  isFinite_lowerError : isFinite b.lowerError = true
  isFinite_upperError : isFinite b.upperError = true
  sign : Scalar.sameSign b.lowerError b.upperError = false

def State.trial (s : Bracketing α) (t : State α) : α := t.bracket.trial s.config.method

def State.next (s : Bracketing α) (t : State α) : State α :=
  let x := t.trial s
  ⟨t.bracket.narrow x (s.error x), t.iteration + 1, t.evaluations + 1,
    ⟨t.iteration + 1, s.error x⟩ :: t.log⟩

def start (s : Bracketing α) (x y : α) : State α :=
  (s.initial (ordered x y).lower (ordered x y).upper).value

theorem runWithin_eq {x y : α} (hx : isFinite x = true) (hy : isFinite y = true) (n : Nat) :
    s.runWithin n x y = .ofIteration (s.trace n (ordered x y).lower (ordered x y).upper) := by
  have hd : demand (isFinite x && isFinite y) (.endpointNotFinite x y) = .ok () := by
    rw [demand_eq_ok, hx, hy]
    rfl
  rw [runWithin, hd, Run.accepting_ok, ordered]
  split <;> rfl

section

variable {x y : α} (hx : isFinite x = true) (hy : isFinite y = true) (n : Nat)

include hx hy

theorem runWithin_settled {r : Report α α} (h : (s.start x y).settled? s.config = some r) :
    s.runWithin n x y = ⟨.ok r, [(ordered x y).lower, (ordered x y).upper]⟩ := by
  rw [start] at h
  rw [runWithin_eq hx hy, trace_eq, h]
  rfl

theorem runWithin_unsettled (h : (s.start x y).settled? s.config = none) :
    s.runWithin n x y = .ofIteration
      (s.initial (ordered x y).lower (ordered x y).upper >>= Traced.iterate s.round n) := by
  rw [start] at h
  rw [runWithin_eq hx hy, trace_eq, h]

end

theorem Bracket.narrow_lower_or_upper (b : Bracket α) (x e : α) :
    (b.narrow x e).lower = x ∨ (b.narrow x e).upper = x := by
  unfold narrow
  split
  · exact .inl rfl
  · exact .inr rfl

theorem Bracket.Changes.narrow (h : b.Changes s) {x : α} (hx : isFinite (s.error x) = true) :
    (b.narrow x (s.error x)).Changes s := by
  have hs := h.sign
  unfold Bracket.narrow
  split
  · next he =>
    refine ⟨rfl, h.upperError, hx, h.isFinite_upperError, ?_⟩
    simp only [Scalar.sameSign, beq_iff_eq] at he hs ⊢
    rwa [he]
  · next he =>
    refine ⟨h.lowerError, rfl, h.isFinite_lowerError, hx, ?_⟩
    simp only [Scalar.sameSign, beq_iff_eq] at he ⊢
    exact beq_false_of_ne (Ne.symm he)

theorem State.settled?_none {c : Config α} (h : t.settled? c = none) :
    isFinite t.bracket.lowerError = true ∧ isFinite t.bracket.upperError = true ∧
      ¬ Scalar.abs t.bracket.lowerError < c.tolerance ∧
      ¬ Scalar.abs t.bracket.upperError < c.tolerance ∧
      Scalar.sameSign t.bracket.lowerError t.bracket.upperError = false := by
  unfold State.settled? at h
  dsimp only at h
  split at h
  · cases h
  · next hf =>
    rw [Bool.not_eq_true, Bool.not_eq_false', Bool.and_eq_true] at hf
    split at h
    · cases h
    · next hl =>
      split at h
      · cases h
      · next hu =>
        split at h
        · cases h
        · next hs => exact ⟨hf.1, hf.2, hl, hu, eq_false_of_ne_true hs⟩

theorem changes_start {x y : α} (h : (s.start x y).settled? s.config = none) :
    (s.start x y).bracket.Changes s := by
  obtain ⟨hl, hu, -, -, hs⟩ := State.settled?_none h
  exact ⟨rfl, rfl, hl, hu, hs⟩

theorem round_eq (s : Bracketing α) (t : State α) : s.round t = ⟨
    if !isFinite (s.error (t.trial s)) then
      .inr (State.finish { t.next s with bracket := t.bracket } (t.trial s)
        (s.error (t.trial s)) .diverged)
    else if Scalar.abs (s.error (t.trial s)) < s.config.tolerance ||
        (t.next s).bracket.upper - (t.next s).bracket.lower < s.config.tolerance then
      .inr ((t.next s).finish (t.trial s) (s.error (t.trial s)) .normal)
    else if s.config.stopping.capReached (t.next s).iteration then
      .inr ((t.next s).finish (t.trial s) (s.error (t.trial s)) .iterationExceeded)
    else .inl (t.next s), [t.trial s]⟩ := by
  unfold round
  dsimp only
  rw [errorAt_bind]
  ext1
  · simp only [apply_ite Traced.value, Traced.value_pure]
    rfl
  · simp only [apply_ite Traced.calls, Traced.calls_pure, ite_self]
    rfl

theorem round_inl (h : (s.round t).value = .inl u) :
    isFinite (s.error (t.trial s)) = true ∧
      ¬ Scalar.abs (s.error (t.trial s)) < s.config.tolerance ∧
      ¬ u.bracket.upper - u.bracket.lower < s.config.tolerance ∧ u = t.next s := by
  rw [round_eq] at h
  dsimp only at h
  split at h
  · cases h
  · next hf =>
    split at h
    · cases h
    · next hsmall =>
      split at h
      · cases h
      · cases h
        rw [Bool.or_eq_true, decide_eq_true_eq, decide_eq_true_eq, not_or] at hsmall
        exact ⟨by simpa using hf, hsmall.1, hsmall.2, rfl⟩

theorem round_inr {r : Report α α} (h : (s.round t).value = .inr r) :
    r.result = t.trial s ∧ r.value = s.error (t.trial s) ∧
      (r.status = .normal → isFinite (s.error (t.trial s)) = true ∧
        (Scalar.abs r.value < s.config.tolerance ∨
          (t.next s).bracket.upper - (t.next s).bracket.lower < s.config.tolerance)) := by
  rw [round_eq] at h
  dsimp only at h
  split at h
  · cases h
    exact ⟨rfl, rfl, nofun⟩
  · next hf =>
    split at h
    · next htol =>
      cases h
      rw [Bool.or_eq_true, decide_eq_true_eq, decide_eq_true_eq] at htol
      exact ⟨rfl, rfl, fun _ => ⟨by simpa using hf, htol⟩⟩
    split at h
    · cases h
      exact ⟨rfl, rfl, nofun⟩
    · cases h

theorem Bracket.Changes.visits {x y : α} (h : (s.start x y).settled? s.config = none)
    {ts : List (State α)} (ht : Visits s.round (s.start x y) ts t) : t.bracket.Changes s := by
  induction ht with
  | refl => exact changes_start h
  | tail _ hu ih =>
    obtain ⟨hf, -, -, rfl⟩ := round_inl hu
    exact ih.narrow hf

theorem runWithin_cases {x y : α} (hx : isFinite x = true) (hy : isFinite y = true) {n : Nat}
    {r : Report α α} (h : (s.runWithin n x y).value = .ok r) :
    (s.start x y).settled? s.config = some r ∨
      (s.start x y).settled? s.config = none ∧
        ∃ ts t, Visits s.round (s.start x y) ts t ∧ (s.round t).value = .inr r := by
  cases hs : (s.start x y).settled? s.config with
  | some report =>
    rw [runWithin_settled hx hy n hs] at h
    cases h
    exact .inl rfl
  | none =>
    rw [runWithin_unsettled hx hy n hs] at h
    obtain ⟨ts, t, ht, ⟨r', hr, he⟩ | he⟩ := Traced.ofIteration_visits s.round n
      (s.initial (ordered x y).lower (ordered x y).upper)
    · rw [he] at h
      cases h
      exact .inr ⟨rfl, ts, t, ht, hr⟩
    · rw [he] at h
      cases h

def rootOfTwo : Bracketing Float where
  function x := x * x
  config := { Config.standard with target := 2, tolerance := 0.1 }

end Optima.Bracketing
