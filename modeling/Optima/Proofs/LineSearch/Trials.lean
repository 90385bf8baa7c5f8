import Mathlib.Data.List.Chain
import Optima.Proofs.Iteration
import Optima.Proofs.LineSearch.Outcome

namespace Optima.LineSearch

variable {α : Type}

structure Wolfe (α : Type) where
  config : LineSearch α
  strong : Bool
  function : LineFunction α
  start : Vec α
  direction : Vec α
  value : α
  slope : α

namespace Wolfe

variable [Scalar α] (w : Wolfe α)

def outcome (a : α) : Outcome α := .at w.function w.start w.direction a

def slopeAt (a : α) : α :=
  let point := Vec.along w.start w.direction a
  Vec.dot (w.function.gradient point (w.function.value point)).value w.direction

def decreases (a : α) : Bool := w.config.sufficient w.value w.slope (w.outcome a).value a

def accepts (a : α) : Bool := w.decreases a && w.config.flat w.strong w.slope (w.slopeAt a)

def callsAt (a : α) : List (Vec α) :=
  let point := Vec.along w.start w.direction a
  point :: if w.decreases a then (w.function.gradient point (w.function.value point)).calls else []

def narrowed (b : Bracket α) : Bracket α :=
  if w.decreases b.step then
    let best := some (Outcome.orBetter b.best (w.outcome b.step))
    if w.strong && 0 < w.slopeAt b.step then { b with upper := Scalar.finite? b.step, best }
    else { b with lower := b.step, best }
  else { b with upper := Scalar.finite? b.step }

def next? (b : Bracket α) : Option (Bracket α) :=
  if w.accepts b.step then none
  else ((w.narrowed b).next? w.config).map fun step => { w.narrowed b with step }

def trials : Nat → Bracket α → List (Bracket α)
  | 0, _ => []
  | n + 1, b => b :: (w.next? b).elim [] fun t => trials n t

def run (n : Nat) (b : Bracket α) : Traced (Vec α) (Outcome α) :=
  wolfe w.config w.strong w.function w.start w.direction w.value w.slope n b

def resume (n : Nat) (b : Bracket α) : Traced (Vec α) (Outcome α) :=
  (b.next? w.config).elim (pure (b.best.getD (.unchanged w.start w.value))) fun step =>
    w.run n { b with step }

def unchanged : Outcome α := .unchanged w.start w.value

def kept (best : Option (Outcome α)) (ts : List (Bracket α)) : Option (Outcome α) :=
  ((ts.filter (w.decreases ·.step)).map (w.outcome ·.step)).foldl
    (fun best o => some (Outcome.orBetter best o)) best

def first : Bracket α := ⟨0, none, w.config.limit w.config.initialStep, none⟩

def tried : List (Bracket α) := w.trials w.config.maxIterations w.first

def ofSearch (c : LineSearch α) (f : LineFunction α) (x d : Vec α) (value : α) (g : Vec α) :
    Wolfe α :=
  ⟨c, c.method == .strongWolfe, f, x, d, value, Vec.dot g d⟩

variable {w} {b t : Bracket α} {ts earlier later : List (Bracket α)} {n : Nat}

theorem narrowed_step : (w.narrowed b).step = b.step := by
  unfold narrowed
  split
  · dsimp only
    split <;> rfl
  · rfl

theorem narrowed_best : (w.narrowed b).best =
    if w.decreases b.step then some (Outcome.orBetter b.best (w.outcome b.step)) else b.best := by
  unfold narrowed
  split
  · dsimp only
    split <;> rfl
  · rfl

theorem kept_cons : w.kept b.best (b :: ts) = w.kept (w.narrowed b).best ts := by
  rw [narrowed_best]
  simp only [kept, List.filter_cons]
  split
  · rw [List.map_cons, List.foldl_cons]
  · rfl

theorem run_accepted (h : w.accepts b.step = true) (n : Nat) :
    w.run (n + 1) b = ⟨w.outcome b.step, w.callsAt b.step⟩ := by
  obtain ⟨hd, hf⟩ := Bool.and_eq_true_iff.1 h
  have hcalls : w.callsAt b.step = _ := congrArg (List.cons _) (if_pos hd)
  rw [hcalls]
  simp only [decreases, outcome, Outcome.at, slopeAt] at hd hf
  rw [run, wolfe, Traced.call_bind]
  simp only [Traced.bind_eq, hd, hf, if_true, Traced.calls_pure, List.append_nil]
  rfl

theorem run_rejected (h : w.accepts b.step = false) (n : Nat) :
    w.run (n + 1) b = ⟨(w.resume n (w.narrowed b)).value,
      w.callsAt b.step ++ (w.resume n (w.narrowed b)).calls⟩ := by
  unfold callsAt narrowed
  cases hd : w.decreases b.step with
  | false =>
    simp only [decreases, outcome, Outcome.at] at hd
    simp only [run, wolfe, Traced.call_bind, hd, Bool.false_eq_true, if_false]
    unfold resume
    split
    · next hn => rw [hn]; rfl
    · next hn => rw [hn]; rfl
  | true =>
    have hf : w.config.flat w.strong w.slope (w.slopeAt b.step) = false := by
      simpa [accepts, hd] using h
    simp only [decreases, slopeAt, outcome, Outcome.at] at hd hf
    rw [run, wolfe, Traced.call_bind]
    unfold resume slopeAt outcome Outcome.at
    simp only [Traced.bind_eq, hd, hf, if_true, Bool.false_eq_true, if_false]
    split
    · next hn => rw [hn]; rfl
    · next hn => rw [hn]; rfl

theorem next?_accepted (h : w.accepts b.step = true) : w.next? b = none := if_pos h

theorem next?_rejected (h : w.accepts b.step = false) :
    w.next? b = ((w.narrowed b).next? w.config).map fun step => { w.narrowed b with step } := by
  rw [next?, h]
  rfl

theorem next?_eq_some (h : w.next? b = some t) : w.accepts b.step = false ∧
    ∃ step, (w.narrowed b).next? w.config = some step ∧ t = { w.narrowed b with step } := by
  cases ha : w.accepts b.step with
  | true =>
    rw [next?_accepted ha] at h
    cases h
  | false =>
    rw [next?_rejected ha, Option.map_eq_some_iff] at h
    obtain ⟨step, hstep, rfl⟩ := h
    exact ⟨rfl, step, hstep, rfl⟩

theorem run_last (h : w.accepts b.step = false) (hn : w.next? b = none) (n : Nat) :
    w.run (n + 1) b = ⟨(w.narrowed b).best.getD w.unchanged, w.callsAt b.step⟩ := by
  rw [next?_rejected h, Option.map_eq_none_iff] at hn
  rw [run_rejected h, resume, hn]
  exact congrArg _ (List.append_nil _)

theorem run_next (hn : w.next? b = some t) (n : Nat) :
    w.run (n + 1) b = ⟨(w.run n t).value, w.callsAt b.step ++ (w.run n t).calls⟩ := by
  obtain ⟨h, step, hstep, rfl⟩ := next?_eq_some hn
  rw [run_rejected h, resume, hstep]
  rfl

theorem trials_last (hn : w.next? b = none) (n : Nat) : w.trials (n + 1) b = [b] := by
  rw [trials, hn]
  rfl

theorem trials_next (hn : w.next? b = some t) (n : Nat) :
    w.trials (n + 1) b = b :: w.trials n t := by
  rw [trials, hn]
  rfl

theorem run_eq (w : Wolfe α) (n : Nat) (b : Bracket α) : w.run n b =
    ⟨((w.trials n b).find? (w.accepts ·.step)).elim
        ((w.kept b.best (w.trials n b)).getD w.unchanged) (w.outcome ·.step),
      (w.trials n b).flatMap (w.callsAt ·.step)⟩ := by
  induction n generalizing b with
  | zero => rfl
  | succ n ih =>
    cases ha : w.accepts b.step with
    | true =>
      rw [run_accepted ha, trials_last (next?_accepted ha), List.find?_cons, ha,
        List.flatMap_singleton]
      rfl
    | false =>
      have hfind : ∀ ts, (b :: ts).find? (w.accepts ·.step) = ts.find? (w.accepts ·.step) := by
        intro ts
        rw [List.find?_cons, ha]
      cases hn : w.next? b with
      | none =>
        rw [run_last ha hn, trials_last hn, hfind, kept_cons, List.flatMap_singleton]
        rfl
      | some t =>
        have hbest : t.best = (w.narrowed b).best := by
          obtain ⟨-, step, -, rfl⟩ := next?_eq_some hn
          rfl
        rw [run_next hn, trials_next hn, ih, hfind, kept_cons, hbest, List.flatMap_cons]

theorem trials_chain (w : Wolfe α) (n : Nat) (b : Bracket α) :
    (w.trials n b).IsChain fun b t => w.next? b = some t := by
  induction n generalizing b with
  | zero => exact .nil
  | succ n ih =>
    cases hn : w.next? b with
    | none =>
      rw [trials_last hn]
      exact .singleton b
    | some t =>
      rw [trials_next hn]
      refine (ih t).cons fun y hy => ?_
      cases n with
      | zero => exact absurd hy (Option.not_mem_none y)
      | succ n =>
        cases hy
        exact hn

theorem trials_invariant {I : List (Bracket α) → Bracket α → Prop}
    (hstep : ∀ {past b t}, I past b → w.next? b = some t → I (past ++ [b]) t)
    (past : List (Bracket α)) (hb : I past b) (h : w.trials n b = earlier ++ t :: later) :
    I (past ++ earlier) t := by
  induction n generalizing past b earlier with
  | zero => exact absurd h.symm (List.append_ne_nil_of_right_ne_nil _ (List.cons_ne_nil _ _))
  | succ n ih =>
    rw [trials] at h
    cases earlier with
    | nil =>
      rw [← (List.cons.inj h).1, List.append_nil]
      exact hb
    | cons a earlier =>
      obtain ⟨rfl, hts⟩ := List.cons.inj h
      cases hn : w.next? b with
      | none =>
        rw [hn] at hts
        exact absurd hts.symm (List.append_ne_nil_of_right_ne_nil _ (List.cons_ne_nil _ _))
      | some b' =>
        rw [hn] at hts
        rw [List.append_cons]
        exact ih (past ++ [b]) (hstep hb hn) hts

end Wolfe

end Optima.LineSearch
