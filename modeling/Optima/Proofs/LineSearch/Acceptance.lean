import Optima.Proofs.LineSearch.Outcome
import Optima.Proofs.Scalar.Exact

namespace Optima.LineSearch

open Scalar (Lawful NotNegative Ordered)

variable {α : Type} [Scalar α]

structure Forward (c : LineSearch α) : Prop where
  initialStep : NotNegative c.initialStep
  maxStep : ∀ m ∈ c.maxStep, NotNegative m
  c1 : 0 < c.c1

inductive Outcome.Accepted (c : LineSearch α) (value slope : α) : Outcome α → Prop
  | unchanged {x : Vec α} : Accepted c value slope (.unchanged x value)
  | lower {o : Outcome α} : o.value < value → Accepted c value slope o
  | sufficient {o : Outcome α} : slope < 0 → NotNegative o.step →
      c.sufficient value slope o.value o.step = true → Accepted c value slope o

structure Bracket.Forward (c : LineSearch α) (value slope : α) (b : Bracket α) : Prop where
  lower : NotNegative b.lower
  upper : ∀ u ∈ b.upper, NotNegative u
  step : NotNegative b.step
  best : ∀ o ∈ b.best, o.Accepted c value slope

variable {c : LineSearch α} {f : LineFunction α} {x d : Vec α} {value slope : α}

theorem lowest_accepted [Lawful α] (n : Nat) (step : α) {best : Outcome α}
    (hb : best = .unchanged x value ∨ best.value < value) :
    (lowest f x d n step best).value.Accepted c value slope := by
  induction n generalizing step best with
  | zero =>
    obtain rfl | hb := hb
    · exact .unchanged
    · exact .lower hb
  | succ n ih =>
    simp only [lowest, Traced.value_bind]
    apply ih
    split
    · next h =>
      right
      obtain rfl | hb := hb
      · exact h
      · exact Lawful.lt_of_lt_of_le h (Lawful.le_of_lt hb)
    · exact hb

theorem Bracket.Forward.shortened {b : Bracket α} (hb : b.Forward c value slope) :
    Bracket.Forward c value slope { b with upper := Scalar.finite? b.step } := by
  refine ⟨hb.lower, ?_, hb.step, hb.best⟩
  intro u hu
  unfold Scalar.finite? at hu
  split at hu
  · cases hu
    exact hb.step
  · cases hu

theorem Bracket.Forward.lengthened {b : Bracket α} (hb : b.Forward c value slope) :
    Bracket.Forward c value slope { b with lower := b.step } :=
  ⟨hb.step, hb.upper, hb.step, hb.best⟩

theorem Bracket.Forward.improved {b : Bracket α} (hb : b.Forward c value slope) {o : Outcome α}
    (ho : o.Accepted c value slope) :
    Bracket.Forward c value slope { b with best := some (Outcome.orBetter b.best o) } := by
  refine ⟨hb.lower, hb.upper, hb.step, ?_⟩
  intro _ h
  cases h
  exact Outcome.orBetter_of hb.best ho

variable [Ordered α]

theorem forward_of_check (h : c.check = .ok ()) : c.Forward := by
  cases hm : c.maxStep with
  | none =>
    simp only [check, hm, Requirement.check_bind_eq_ok, demand_bind_eq_ok, demand_eq_ok,
      Requirement.holds, Bool.and_eq_true, decide_eq_true_eq] at h
    obtain ⟨⟨hstep, -⟩, -, ⟨hc, -⟩, -⟩ := h
    exact ⟨.of_le (Lawful.le_of_lt hstep), by simp [hm], hc⟩
  | some m =>
    simp only [check, hm, Requirement.check_bind_eq_ok, demand_bind_eq_ok, demand_eq_ok,
      Requirement.holds, Bool.and_eq_true, decide_eq_true_eq] at h
    obtain ⟨⟨hstep, -⟩, hmax, -, ⟨hc, -⟩, -⟩ := h
    exact ⟨.of_le (Lawful.le_of_lt hstep), by simpa [hm] using .of_le (Lawful.le_of_lt hmax), hc⟩

theorem Forward.limitTo (hc : c.Forward) : (c.limitTo 1).Forward := by
  refine ⟨hc.initialStep, ?_, hc.c1⟩
  intro m hm
  cases hm
  cases h : c.maxStep with
  | none => exact .of_le Ordered.zero_le_one
  | some m => exact (hc.maxStep m h).lesser (.of_le Ordered.zero_le_one)

theorem Forward.limit (hc : c.Forward) {a : α} (ha : NotNegative a) :
    NotNegative (c.limit a) := by
  unfold LineSearch.limit
  split
  · exact ha.ranked
  · next m hm => exact ha.lesser (hc.maxStep m hm)

theorem backtrack_accepted {accept : α → α → Bool}
    (h : ∀ o : Outcome α, NotNegative o.step → accept o.value o.step = true →
      o.Accepted c value slope) (n : Nat) {step : α} (hs : NotNegative step) :
    (backtrack f x d value accept n step).value.Accepted c value slope := by
  induction n generalizing step with
  | zero => exact .unchanged
  | succ n ih =>
    simp only [backtrack, Traced.value_bind]
    split
    · next ha => exact h _ hs ha
    · exact ih (hs.mul (.of_le Ordered.zero_le_half))

theorem Bracket.Forward.next {b : Bracket α} (hc : c.Forward) (hb : b.Forward c value slope)
    {step : α} (h : b.next? c = some step) :
    Bracket.Forward c value slope { b with step } := by
  refine ⟨hb.lower, hb.upper, ?_, hb.best⟩
  unfold Bracket.next? at h
  split at h
  · next u hu =>
    cases h
    exact (NotNegative.of_le Ordered.zero_le_half).mul (hb.lower.add (hb.upper u hu))
  · split at h
    · cases h
    · cases h
      exact hc.limit ((NotNegative.of_le Ordered.zero_le_two).mul hb.step)

theorem wolfe_accepted (hc : c.Forward) (hs : slope < 0) (strong : Bool) (n : Nat) {b : Bracket α}
    (hb : b.Forward c value slope) :
    (wolfe c strong f x d value slope n b).value.Accepted c value slope := by
  have h : Bracket.Invariant c f x d value slope (Bracket.Forward c value slope)
      (Outcome.Accepted c value slope) := by
    constructor
    case unchanged => exact .unchanged
    case best => exact Bracket.Forward.best
    case tried => exact fun hb ht => .sufficient hs hb.step ht
    case improved => exact fun hb ho => hb.improved ho
    case shortened => exact Bracket.Forward.shortened
    case lengthened => exact Bracket.Forward.lengthened
    case next => exact fun hb hn => hb.next hc hn
  exact h.wolfe strong n hb

theorem search_accepted (hc : c.Forward) (g : Vec α) :
    (c.search f x d value g).value.Accepted c value (Vec.dot g d) := by
  have hstep : NotNegative (c.limit c.initialStep) := hc.limit hc.initialStep
  have hbracket : Bracket.Forward c value (Vec.dot g d) ⟨0, none, c.limit c.initialStep, none⟩ :=
    ⟨.of_le (Lawful.le_refl (Lawful.isNaN_of_le Ordered.zero_le_one).1), by simp, hstep, by simp⟩
  unfold search
  split
  · exact .unchanged
  · dsimp only
    split
    · refine backtrack_accepted (fun o _ h => .lower ?_) _ hstep
      simpa using h
    · split
      · next hs => exact backtrack_accepted (fun o => .sufficient hs) _ hstep
      · exact .unchanged
    · split
      · next hs => exact wolfe_accepted hc hs _ _ hbracket
      · exact .unchanged
    · split
      · next hs => exact wolfe_accepted hc hs _ _ hbracket
      · exact .unchanged
    · exact lowest_accepted _ _ (.inl rfl)

theorem Outcome.Accepted.le {o : Outcome α} (hc : c.Forward) (h : o.Accepted c value slope)
    (ho : ¬ o.isZero = true) : o.value ≤ value := by
  cases h with
  | unchanged => exact absurd Lawful.zero_beq_zero ho
  | lower h => exact Lawful.le_of_lt h
  | sufficient hs hstep h =>
    have h : o.value ≤ value + c.c1 * o.step * slope := of_decide_eq_true h
    have hsum := (Lawful.isNaN_of_le h).2
    obtain ⟨-, hproduct⟩ := Ordered.isNaN_of_add hsum
    obtain ⟨hscaled, -⟩ := Ordered.isNaN_of_mul hproduct
    obtain ⟨-, hnan⟩ := Ordered.isNaN_of_mul hscaled
    have hpos : 0 ≤ c.c1 * o.step :=
      Ordered.mul_nonneg (Lawful.le_of_lt hc.c1) (hstep hnan) hscaled
    have hneg : c.c1 * o.step * slope ≤ 0 :=
      Ordered.mul_nonpos hpos (Lawful.le_of_lt hs) hproduct
    exact Lawful.le_trans h (Ordered.add_le hneg hsum)

theorem Outcome.Accepted.lt {c : LineSearch ℝ} {value slope : ℝ} {o : Outcome ℝ} (hc : c.Forward)
    (h : o.Accepted c value slope) (ho : ¬ o.isZero = true) : o.value < value := by
  cases h with
  | unchanged => exact absurd Lawful.zero_beq_zero ho
  | lower h => exact h
  | sufficient hs hstep h =>
    have h : o.value ≤ value + c.c1 * o.step * slope := of_decide_eq_true h
    have hc1 := hc.c1
    have hnonneg := hstep rfl
    have hne : o.step ≠ 0 := by simpa [isZero] using ho
    rw [Exact.literal_zero] at hs hc1 hnonneg
    have hpos : 0 < c.c1 * o.step := mul_pos hc1 (hnonneg.lt_of_ne' hne)
    linarith [mul_neg_of_pos_of_neg hpos hs]

end Optima.LineSearch
