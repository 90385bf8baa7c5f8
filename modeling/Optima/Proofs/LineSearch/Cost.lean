import Optima.Proofs.Iteration
import Optima.Proofs.LineSearch.Outcome

namespace Optima

variable {α : Type}

def LineFunction.Costs (f : LineFunction α) (n g : Nat) : Prop :=
  ∀ x value, x.length ≤ n → (f.gradient x value).calls.length ≤ g

namespace LineSearch

variable [Scalar α] {f : LineFunction α} {x d : Vec α} {value slope : α} {n g : Nat}

def Outcome.due (g : Nat) (o : Outcome α) : Nat :=
  if o.isZero then 0 else o.gradient.elim g fun _ => 0

theorem Outcome.due_le (g : Nat) (o : Outcome α) : o.due g ≤ g := by
  unfold due
  split
  · exact Nat.zero_le g
  · cases o.gradient with
    | none => exact Nat.le_refl g
    | some v => exact Nat.zero_le g

theorem Outcome.due_unchanged [Scalar.Lawful α] : (Outcome.unchanged x value).due g = 0 :=
  if_pos Scalar.Lawful.zero_beq_zero

theorem Outcome.due_at (f : LineFunction α) (x d : Vec α) (step : α) :
    (Outcome.at f x d step).due g = 0 := by
  unfold due
  split <;> rfl

theorem backtrack_calls (accept : α → α → Bool) (l : Nat) (step : α) :
    (backtrack f x d value accept l step).calls.length ≤ l := by
  induction l generalizing step with
  | zero => exact Nat.le_refl 0
  | succ l ih =>
    rw [backtrack, Nat.add_comm]
    refine Traced.length_calls_bind_le (Nat.le_refl 1) ?_
    split
    · exact Nat.zero_le l
    · exact ih (step * halving)

theorem lowest_calls (l : Nat) (step : α) (best : Outcome α) :
    (lowest f x d l step best).calls.length = l := by
  induction l generalizing step best with
  | zero => rfl
  | succ l ih =>
    simp only [lowest, Traced.calls_bind, Traced.calls_call, List.length_append, ih,
      List.length_singleton]
    omega

theorem wolfe_calls (c : LineSearch α) (strong : Bool) (hf : f.Costs n g) (hx : x.length ≤ n)
    (l : Nat) (b : Bracket α) :
    (wolfe c strong f x d value slope l b).calls.length ≤ l * (1 + g) := by
  induction l generalizing b with
  | zero => exact Nat.zero_le _
  | succ l ih =>
    have hsplit : (l + 1) * (1 + g) = 1 + (g + l * (1 + g)) := by
      rw [Nat.succ_mul]
      omega
    rw [hsplit, wolfe]
    refine Traced.length_calls_bind_le (Nat.le_refl 1) ?_
    dsimp only [Traced.value_call]
    split
    · refine Traced.length_calls_bind_le (hf _ _ ?_) ?_
      · rw [Vec.along_length]; omega
      · split
        · exact Nat.zero_le _
        · split
          · exact Nat.zero_le _
          · exact ih _
    · split
      · exact Nat.zero_le _
      · exact Nat.le_add_left_of_le (ih _)

theorem wolfe_due [Scalar.Lawful α] (c : LineSearch α) (strong : Bool) (l : Nat) {b : Bracket α}
    (hb : ∀ o ∈ b.best, o.due g = 0) :
    (wolfe c strong f x d value slope l b).value.due g = 0 := by
  have h : Bracket.Invariant c f x d value slope (fun b => ∀ o ∈ b.best, o.due g = 0)
      (fun o => o.due g = 0) := by
    constructor
    case unchanged => exact Outcome.due_unchanged
    case tried => exact fun _ _ => Outcome.due_at f x d _
    case improved =>
      intro b o hb ho _ h
      cases h
      exact Outcome.orBetter_of hb ho
    case next => exact fun hb _ => hb
    all_goals exact fun hb => hb
  exact h.wolfe strong l hb

theorem due_paid {l : Nat} (hl : l ≠ 0) {t : Traced (Vec α) (Outcome α)} (ht : t.calls.length ≤ l) :
    t.calls.length + t.value.due g ≤ l * (1 + g) := by
  have hdue := t.value.due_le g
  have hg : g ≤ l * g := Nat.le_mul_of_pos_left g (Nat.pos_of_ne_zero hl)
  rw [Nat.mul_add, Nat.mul_one]
  omega

theorem search_cost [Scalar.Lawful α] (c : LineSearch α) (hc : c.maxIterations ≠ 0)
    (hf : f.Costs n g) (hx : x.length ≤ n) (v : Vec α) :
    (c.search f x d value v).calls.length + (c.search f x d value v).value.due g ≤
      c.maxIterations * (1 + g) := by
  have hnone : (pure (.unchanged x value) : Traced (Vec α) (Outcome α)).calls.length +
      (pure (.unchanged x value) : Traced (Vec α) (Outcome α)).value.due g ≤
        c.maxIterations * (1 + g) := by
    rw [Traced.value_pure, Outcome.due_unchanged]
    exact Nat.zero_le _
  have hwolfe (strong : Bool) (slope first : α) :
      (wolfe c strong f x d value slope c.maxIterations ⟨0, none, first, none⟩).calls.length +
        (wolfe c strong f x d value slope c.maxIterations ⟨0, none, first, none⟩).value.due g ≤
          c.maxIterations * (1 + g) := by
    rw [wolfe_due c strong c.maxIterations (by simp)]
    exact wolfe_calls c strong hf hx c.maxIterations _
  unfold search
  split
  · exact hnone
  · dsimp only
    split
    · exact due_paid hc (backtrack_calls _ _ _)
    · split
      · exact due_paid hc (backtrack_calls _ _ _)
      · exact hnone
    · split
      · exact hwolfe false _ _
      · exact hnone
    · split
      · exact hwolfe true _ _
      · exact hnone
    · exact due_paid hc (Nat.le_of_eq (lowest_calls _ _ _))

theorem maxIterations_ne_zero {c : LineSearch α} (h : c.check = .ok ()) : c.maxIterations ≠ 0 := by
  simp only [check, bind_eq_ok] at h
  obtain ⟨_, -, h⟩ := h
  split at h <;> simp_all

end LineSearch

end Optima
