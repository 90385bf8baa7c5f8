import Optima.LineSearch
import Optima.Proofs.Scalar.Lawful

namespace Optima.LineSearch

variable {α : Type} [Scalar α]

inductive Outcome.Found (f : LineFunction α) (x d : Vec α) (value : α) : Outcome α → Prop
  | unchanged : Found f x d value (.unchanged x value)
  | tried (step : α) (g : Option (Vec α))
      (hg : ∀ v ∈ g, v = (f.gradient (Vec.along x d step) (f.value (Vec.along x d step))).value) :
      Found f x d value ⟨step, Vec.along x d step, f.value (Vec.along x d step), g⟩

variable {f : LineFunction α} {x d : Vec α} {value : α}

theorem backtrack_found (accept : α → α → Bool) (n : Nat) (step : α) :
    (backtrack f x d value accept n step).value.Found f x d value := by
  induction n generalizing step with
  | zero => exact .unchanged
  | succ n ih =>
    simp only [backtrack, Traced.value_bind]
    split
    · exact .tried step none (by simp)
    · exact ih (step * halving)

theorem lowest_found (n : Nat) (step : α) {best : Outcome α} (hb : best.Found f x d value) :
    (lowest f x d n step best).value.Found f x d value := by
  induction n generalizing step best with
  | zero => exact hb
  | succ n ih =>
    simp only [lowest, Traced.value_bind]
    apply ih
    split
    · exact .tried step none (by simp)
    · exact hb

theorem Outcome.orBetter_of {P : Outcome α → Prop} {best : Option (Outcome α)} {o : Outcome α}
    (hb : ∀ b ∈ best, P b) (ho : P o) : P (Outcome.orBetter best o) := by
  cases best with
  | none => exact ho
  | some b =>
    simp only [Outcome.orBetter]
    split
    · exact ho
    · exact hb b rfl

omit [Scalar α] in
theorem Outcome.getD_of {P : Outcome α → Prop} {best : Option (Outcome α)} {o : Outcome α}
    (hb : ∀ b ∈ best, P b) (ho : P o) : P (best.getD o) := by
  cases best with
  | none => exact ho
  | some b => exact hb b rfl

def Outcome.at (f : LineFunction α) (x d : Vec α) (step : α) : Outcome α :=
  let point := Vec.along x d step
  ⟨step, point, f.value point, some (f.gradient point (f.value point)).value⟩

/-- `I` holds of the bracket, and `P` of the outcomes it keeps, whatever a Wolfe search does. -/
structure Bracket.Invariant (c : LineSearch α) (f : LineFunction α) (x d : Vec α) (value slope : α)
    (I : Bracket α → Prop) (P : Outcome α → Prop) : Prop where
  unchanged : P (.unchanged x value)
  best {b : Bracket α} : I b → ∀ o ∈ b.best, P o
  tried {b : Bracket α} : I b →
    c.sufficient value slope (f.value (Vec.along x d b.step)) b.step = true →
    P (.at f x d b.step)
  improved {b : Bracket α} {o : Outcome α} : I b → P o →
    I { b with best := some (Outcome.orBetter b.best o) }
  shortened {b : Bracket α} : I b → I { b with upper := Scalar.finite? b.step }
  lengthened {b : Bracket α} : I b → I { b with lower := b.step }
  next {b : Bracket α} {step : α} : I b → b.next? c = some step → I { b with step }

theorem Bracket.Invariant.wolfe {c : LineSearch α} {slope : α} {I : Bracket α → Prop}
    {P : Outcome α → Prop} (h : Bracket.Invariant c f x d value slope I P) (strong : Bool) (n : Nat)
    {b : Bracket α} (hb : I b) : P (wolfe c strong f x d value slope n b).value := by
  induction n generalizing b with
  | zero => exact Outcome.getD_of (h.best hb) h.unchanged
  | succ n ih =>
    simp only [LineSearch.wolfe, Traced.value_bind]
    split
    · next ht =>
      have ho : P (.at f x d b.step) := h.tried hb ht
      rw [Traced.value_bind]
      split
      · exact ho
      · let best := some (Outcome.orBetter b.best (.at f x d b.step))
        have hnew {p : Prop} [Decidable p] :
            I (if p then { b with upper := Scalar.finite? b.step, best }
              else { b with lower := b.step, best }) := by
          split
          · exact h.shortened (h.improved hb ho)
          · exact h.lengthened (h.improved hb ho)
        split
        · exact Outcome.getD_of (h.best hnew) h.unchanged
        · next step hn => exact ih (h.next hnew hn)
    · split
      · exact Outcome.getD_of (h.best hb) h.unchanged
      · next step hn => exact ih (h.next (h.shortened hb) hn)

theorem wolfe_found (c : LineSearch α) (strong : Bool) (slope : α) (n : Nat) {b : Bracket α}
    (hb : ∀ o ∈ b.best, o.Found f x d value) :
    (wolfe c strong f x d value slope n b).value.Found f x d value := by
  have h : Bracket.Invariant c f x d value slope (fun b => ∀ o ∈ b.best, o.Found f x d value)
      (Outcome.Found f x d value) := by
    constructor
    case unchanged => exact .unchanged
    case tried => exact fun _ _ => .tried _ _ (by simp)
    case improved =>
      intro b o hb ho _ h
      cases h
      exact Outcome.orBetter_of hb ho
    case next => exact fun hb _ => hb
    all_goals exact fun hb => hb
  exact h.wolfe strong n hb

theorem search_found (c : LineSearch α) (g : Vec α) :
    (c.search f x d value g).value.Found f x d value := by
  unfold search
  split
  · exact .unchanged
  · dsimp only
    split
    · exact backtrack_found _ _ _
    · split
      · exact backtrack_found _ _ _
      · exact .unchanged
    · split
      · exact wolfe_found _ _ _ _ (by simp)
      · exact .unchanged
    · split
      · exact wolfe_found _ _ _ _ (by simp)
      · exact .unchanged
    · exact lowest_found _ _ .unchanged

end Optima.LineSearch
