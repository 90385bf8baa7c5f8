import Mathlib.Tactic.Ring
import Optima.Proofs.Cap.Descent
import Optima.Proofs.Descent.Shape
import Optima.Proofs.Descent.Stall
import Optima.Proofs.LineSearch.Cost

namespace Optima

open LineSearch (Outcome)

variable {α : Type} [Scalar α] {n g : Nat}

namespace Descent

variable {c : Config α} {f : LineFunction α} {s : State α} {i : Iterate α} {d : Vec α}

/-- The line searches of an iteration in `n` dimensions. A quasi-Newton iteration may search along
the steepest direction after its own, and a sweep searches once for each coordinate at most. -/
def Method.searches (n : Nat) : Method → Nat
  | .momentum | .boxConstrained => 1
  | .bfgs => 2
  | .conjugateGradient => n

@[simp] theorem Config.search_maxIterations (c : Config α) :
    c.search.maxIterations = c.lineSearch.maxIterations := by
  unfold search
  split <;> rfl

structure Spends (n b : Nat) (t : Traced (Vec α) (Progress × State α)) : Prop where
  calls : t.calls.length ≤ b
  point : t.value.2.iterate.point.length ≤ n

omit [Scalar α] in
theorem Spends.after {β : Type} {t : Traced (Vec α) β}
    {k : β → Traced (Vec α) (Progress × State α)} {b b' : Nat} (ht : t.calls.length ≤ b)
    (hk : Spends n b' (k t.value)) : Spends n (b + b') (t >>= k) :=
  ⟨Traced.length_calls_bind_le ht hk.calls, hk.point⟩

omit [Scalar α] in
theorem Spends.mono {t : Traced (Vec α) (Progress × State α)} {b b' : Nat} (h : Spends n b t)
    (hb : b ≤ b') : Spends n b' t :=
  ⟨Nat.le_trans h.calls hb, h.point⟩

theorem search_point_length (i : Iterate α) (c : LineSearch α) (f : LineFunction α) (d : Vec α) :
    (i.search c f d).value.point.length ≤ i.point.length := by
  have h := i.search_found c f d
  generalize (i.search c f d).value = o at h ⊢
  cases h with
  | unchanged => exact Nat.le_refl _
  | tried step v hv =>
    rw [Vec.along_length]
    exact Nat.min_le_left _ _

theorem arrive_calls (hf : f.Costs n g) (box : Option (Box α)) {o : Outcome α}
    (ho : ¬ o.isZero = true) (hp : o.point.length ≤ n) :
    (arrive f box o).calls.length ≤ o.due g := by
  unfold arrive Outcome.due
  rw [if_neg ho]
  cases o.gradient with
  | none =>
    rw [← clipTo_length box] at hp
    refine Nat.le_trans (Nat.le_of_eq ?_) (hf _ o.value hp)
    rw [Traced.calls_bind, Traced.calls_pure, List.append_nil]
  | some v => exact Nat.le_refl 0

section

variable [Scalar.Lawful α] (hl : c.lineSearch.maxIterations ≠ 0) (hf : f.Costs n g)
include hl hf

theorem search_calls (hi : i.point.length ≤ n) (d : Vec α) :
    (i.search c.search f d).calls.length + (i.search c.search f d).value.due g ≤
      c.lineSearch.maxIterations * (1 + g) := by
  rw [← c.search_maxIterations] at hl ⊢
  exact c.search.search_cost hl hf hi i.gradient

theorem search_spends (hi : i.point.length ≤ n) (d : Vec α) {b : Nat}
    {k : Outcome α → Traced (Vec α) (Progress × State α)}
    (hstay : ∀ o, o.isZero = true → Spends n b (k o))
    (hmove : ∀ o, ¬ o.isZero = true →
      ∃ move : Iterate α → Traced (Vec α) (Progress × State α),
        k o = arrive f c.box o >>= move ∧ ∀ j, j.point.length ≤ n → Spends n b (move j)) :
    Spends n (c.lineSearch.maxIterations * (1 + g) + b) (i.search c.search f d >>= k) := by
  have hsearch := search_calls hl hf hi d
  by_cases ho : (i.search c.search f d).value.isZero = true
  · exact .after (Nat.le_of_add_right_le hsearch) (hstay _ ho)
  · have hp := Nat.le_trans (search_point_length i c.search f d) hi
    have harrive := arrive_calls hf c.box ho hp
    obtain ⟨move, hk, hspends⟩ := hmove _ ho
    have hnext := hspends (arrive f c.box (i.search c.search f d).value).value <| by
      rwa [arrive_point, clipTo_length]
    constructor
    · have hcalls := hnext.calls
      rw [Traced.calls_bind, hk, Traced.calls_bind, List.length_append, List.length_append]
      omega
    · rw [Traced.value_bind, hk, Traced.value_bind]
      exact hnext.point

theorem searched_spends (hi : i.point.length ≤ n) (d : Vec α) (stay : Progress × State α)
    (move : Iterate α → Progress × State α) (hstay : stay.2.iterate.point.length ≤ n)
    (hmove : ∀ j, (move j).2.iterate = j) :
    Spends n (c.lineSearch.maxIterations * (1 + g)) (do
      let o ← i.search c.search f d
      if o.isZero then pure stay
      else
        let j ← arrive f c.box o
        pure (move j)) := by
  refine search_spends (b := 0) hl hf hi d ?_ ?_
  · intro o ho
    rw [if_pos ho]
    exact ⟨Nat.le_refl 0, hstay⟩
  · intro o ho
    refine ⟨fun j => pure (move j), if_neg ho, fun j hj => ⟨Nat.le_refl 0, ?_⟩⟩
    rwa [Traced.value_pure, hmove]

theorem momentumStep_spends (hs : s.iterate.point.length ≤ n) :
    Spends n (c.lineSearch.maxIterations * (1 + g)) (momentumStep c f s) :=
  searched_spends hl hf hs (momentumDirection c s) _ _ hs fun _ => rfl

theorem bfgsStep_spends (hs : s.iterate.point.length ≤ n) :
    Spends n (2 * (c.lineSearch.maxIterations * (1 + g))) (bfgsStep c f s) := by
  rw [Nat.two_mul]
  cases hd : quasiNewton s with
  | none =>
    rw [bfgsStep, hd]
    exact ⟨Nat.zero_le _, hs⟩
  | some d =>
    cases hdn : s.iterate.descends d with
    | true =>
      simp only [bfgsStep, hd, hdn, if_true, Bool.and_true]
      refine search_spends hl hf hs d ?_ ?_
      · -- the steepest direction is searched as well
        intro o ho
        rw [if_pos ho]
        exact searched_spends hl hf hs _ _ _ hs fun _ => rfl
      · intro o ho
        refine ⟨fun j => pure (.moved, afterStep s s.curvature j), ?_, fun j hj => ?_⟩
        · rw [if_neg ho, if_neg ho]
        · exact ⟨Nat.zero_le _, hj⟩
    | false =>
      simp only [bfgsStep, hd, hdn, Bool.and_false, Bool.false_eq_true, if_false]
      exact .mono (searched_spends hl hf hs _ _ _ hs fun _ => rfl) (Nat.le_add_right _ _)

theorem sweep_spends (hessian : Vec α → Option (Mat α)) (k : Nat) (hi : i.point.length ≤ n)
    (d : Vec α) (moved : Bool) :
    Spends n (k * (c.lineSearch.maxIterations * (1 + g))) (sweep c f hessian s k i d moved) := by
  induction k generalizing i d moved with
  | zero => exact ⟨Nat.zero_le _, hi⟩
  | succ k ih =>
    have hstay (p : Progress) : Spends n ((k + 1) * (c.lineSearch.maxIterations * (1 + g)))
        (pure (p, { s with iterate := i })) := ⟨Nat.zero_le _, hi⟩
    rw [Nat.succ_mul, Nat.add_comm] at hstay ⊢
    unfold sweep
    dsimp only
    split
    · exact hstay _
    split
    · exact hstay _
    split
    · exact hstay _
    split
    · -- the curvature along the direction is negative: it is searched
      refine search_spends hl hf hi d ?_ ?_
      · intro o ho
        rw [if_pos ho]
        exact ⟨Nat.zero_le _, hi⟩
      · intro o ho
        exact ⟨_, if_neg ho, fun j hj => ih hj _ _⟩
    · -- a value and a gradient, no more than one trial costs
      have htrial : 1 + g ≤ c.lineSearch.maxIterations * (1 + g) :=
        Nat.le_mul_of_pos_left _ (Nat.pos_of_ne_zero hl)
      have hx (a : α) : (Vec.along i.point d a).length ≤ n := by
        rw [Vec.along_length]
        omega
      refine .mono (b := 1 + (g + k * (c.lineSearch.maxIterations * (1 + g)))) ?_ (by omega)
      refine .after (Nat.le_refl 1) (.after (hf _ _ (hx _)) ?_)
      split
      · exact ih (hx _) _ _
      · exact ⟨Nat.zero_le _, hx _⟩

end

variable {s : Descent α} {x : Vec α}

theorem function_costs (s : Descent α) (n : Nat) : s.function.Costs n n := by
  intro x value hx
  unfold function Objective.lineFunction
  dsimp only
  split
  · exact Nat.zero_le n
  · rwa [Difference.calls_gradient_length]

theorem function_costs_zero (hg : ∀ y, (s.objective.gradient y).isSome = true) (n : Nat) :
    s.function.Costs n 0 := by
  intro x value _
  obtain ⟨v, hv⟩ := Option.isSome_iff_exists.1 (hg x)
  simp [function, Objective.lineFunction, Objective.oriented, hv]

theorem step_spends [Scalar.Lawful α] (hl : s.config.lineSearch.maxIterations ≠ 0)
    (hf : s.function.Costs n g) {t : Trail α} (ht : t.state.iterate.point.length ≤ n) :
    Spends n (s.config.method.searches n * (s.config.lineSearch.maxIterations * (1 + g)))
      (step s.config (s.objective.oriented s.config.goal) t.state) := by
  unfold step
  cases s.config.method with
  | momentum => exact (momentumStep_spends hl hf ht).mono (Nat.le_of_eq (Nat.one_mul _).symm)
  | bfgs => exact bfgsStep_spends hl hf ht
  | conjugateGradient =>
    exact (sweep_spends hl hf _ _ ht _ _).mono (Nat.mul_le_mul_right _ ht)
  | boxConstrained => exact (momentumStep_spends hl hf ht).mono (Nat.le_of_eq (Nat.one_mul _).symm)

theorem reported_calls (s : Descent α) (t : Trail α) :
    (s.reported t).calls = (step s.config (s.objective.oriented s.config.goal) t.state).calls := by
  rw [reported, Traced.calls_map, round, Traced.calls_bind, Traced.calls_metered,
    Traced.value_metered]
  generalize step s.config (s.objective.oriented s.config.goal) t.state = w
  obtain ⟨⟨progress, u⟩, calls⟩ := w
  refine (List.append_right_eq_self ..).2 ?_
  cases progress with
  | moved =>
    dsimp only
    split <;> rfl
  | stalled => rfl
  | failed status => rfl

theorem reported_evaluations {t : Trail α} {xs : List (Vec α)} (ht : t.evaluations = xs.length) :
    Sum.elim Trail.evaluations Report.evaluations (s.reported t).value =
      (xs ++ (s.reported t).calls).length := by
  have hcounted : (s.counted t).evaluations = (xs ++ (s.reported t).calls).length := by
    rw [List.length_append, reported_calls, ← ht]
    rfl
  rw [reported_value]
  split
  · exact hcounted
  · exact hcounted
  · split <;> exact hcounted

theorem trace_evaluations {m : Nat} {r : Report α (Vec α)} (hr : (s.trace m x).value = some r) :
    r.evaluations = (s.trace m x).calls.length := by
  have hinitial : (s.initial x).value.evaluations = (s.initial x).calls.length := by
    rw [initial_value]
  cases hv : (s.initial x).value.verdict s.config with
  | some status =>
    rw [trace_of_verdict hv] at hr ⊢
    cases hr
    exact hinitial
  | none =>
    rw [trace_of_verdict_none hv] at hr ⊢
    refine Traced.iterate_invariant (I := fun xs (t : Trail α) => t.evaluations = xs.length)
      (P := fun xs (r : Report α (Vec α)) => r.evaluations = xs.length) ?_ ?_ hinitial hr
    · intro xs t u ht hu
      have h := reported_evaluations (s := s) ht
      rwa [hu] at h
    · intro xs t r ht hr
      have h := reported_evaluations (s := s) ht
      rwa [hr] at h

theorem initial_calls (hf : s.function.Costs x.length g) : (s.initial x).calls.length ≤ 1 + g := by
  unfold initial
  refine Traced.length_calls_bind_le (Nat.le_refl 1) ?_
  dsimp only
  split
  · rw [Traced.calls_bind, Traced.calls_pure, List.append_nil]
    exact hf _ _ (Nat.le_of_eq (clipTo_length _ x))
  · exact Nat.zero_le g

theorem initial_point_length (s : Descent α) (x : Vec α) :
    (s.initial x).value.state.iterate.point.length ≤ x.length := by
  rw [initial_value]
  exact Nat.le_of_eq (clipTo_length _ x)

theorem iterate_calls [Scalar.Lawful α] (hl : s.config.lineSearch.maxIterations ≠ 0)
    (hf : s.function.Costs n g) {cap : Nat} (hcap : s.config.stopping.maxIterations = some cap)
    {xs : List (Vec α)} {t : Trail α} (hxs : xs.length ≤ 1 + g) (ht : t.iteration = 0)
    (hp : t.state.iterate.point.length ≤ n) (hv : t.verdict s.config = none) {m : Nat}
    {r : Report α (Vec α)} (hr : (Traced.iterate s.reported m t).value = some r) :
    (xs ++ (Traced.iterate s.reported m t).calls).length ≤ 1 + g +
      cap * (s.config.method.searches n * (s.config.lineSearch.maxIterations * (1 + g))) := by
  have hspends {t : Trail α} (hp : t.state.iterate.point.length ≤ n) := step_spends hl hf hp
  generalize s.config.method.searches n * (s.config.lineSearch.maxIterations * (1 + g)) = b
    at hspends ⊢
  have hopen {t : Trail α} (hv : t.verdict s.config = none) : t.iteration < cap := by
    have := Trail.not_capReached_of_verdict hv
    rw [Stopping.capReached_iff] at this
    simpa [hcap] using this
  -- an iteration is begun only below the cap, and costs the same whatever comes of it
  refine Traced.iterate_invariant (I := fun xs t => xs.length ≤ 1 + g + t.iteration * b ∧
    t.state.iterate.point.length ≤ n ∧ t.iteration < cap)
    (P := fun xs _ => xs.length ≤ 1 + g + cap * b) ?_ ?_ ?_ hr
  · rintro xs t u ⟨hxs, hp, hi⟩ hu
    have hstep := hspends hp
    rw [reported_value] at hu
    rw [List.length_append, reported_calls]
    split at hu
    · cases hu
    · cases hu
    · next v hv =>
      split at hu
      · cases hu
      · next hn =>
        cases hu
        have hb : ((s.counted t).extend s.config v).iteration * b = t.iteration * b + b :=
          Nat.succ_mul _ _
        have hcalls := hstep.calls
        have hpoint := hstep.point
        rw [← advance, hv] at hpoint
        exact ⟨by omega, hpoint, hopen hn⟩
  · rintro xs t r ⟨hxs, hp, hi⟩ -
    have hcalls := (hspends hp).calls
    have hb : (t.iteration + 1) * b ≤ cap * b := Nat.mul_le_mul_right b hi
    rw [Nat.succ_mul] at hb
    rw [List.length_append, reported_calls]
    omega
  · rw [ht, Nat.zero_mul]
    exact ⟨hxs, hp, ht ▸ hopen hv⟩

theorem trace_calls [Scalar.Lawful α] (hl : s.config.lineSearch.maxIterations ≠ 0)
    (hf : s.function.Costs x.length g) {cap : Nat}
    (hcap : s.config.stopping.maxIterations = some cap) {m : Nat} {r : Report α (Vec α)}
    (hr : (s.trace m x).value = some r) :
    (s.trace m x).calls.length ≤ (1 + g) *
      (1 + s.config.method.searches x.length * cap * s.config.lineSearch.maxIterations) := by
  have hinitial := initial_calls hf
  have hbound : (1 + g) *
      (1 + s.config.method.searches x.length * cap * s.config.lineSearch.maxIterations) = 1 + g +
        cap * (s.config.method.searches x.length *
          (s.config.lineSearch.maxIterations * (1 + g))) := by ring
  rw [hbound]
  cases hv : (s.initial x).value.verdict s.config with
  | some status =>
    rw [trace_of_verdict hv]
    exact Nat.le_add_right_of_le hinitial
  | none =>
    rw [trace_of_verdict_none hv] at hr ⊢
    refine iterate_calls hl hf hcap hinitial ?_ (s.initial_point_length x) hv hr
    rw [initial_value]

theorem trace_ends {cap : Nat} (hcap : s.config.stopping.maxIterations = some cap)
    (hx : s.checkStart x = .ok ()) :
    ∃ r, (s.trace s.config.stopping.budget x).value = some r := by
  have hends := (run_keeps hcap x).ends
  rw [run, runWithin, hx] at hends
  cases hr : (s.trace s.config.stopping.budget x).value with
  | none => exact absurd (by simp [Run.ofIteration, hr, Run.conclude]) hends
  | some r => exact ⟨r, rfl⟩

theorem run_calls [Scalar.Lawful α] (hl : s.config.lineSearch.maxIterations ≠ 0)
    (hf : s.function.Costs x.length g) {cap : Nat}
    (hcap : s.config.stopping.maxIterations = some cap) :
    (s.run x).calls.length ≤ (1 + g) *
      (1 + s.config.method.searches x.length * cap * s.config.lineSearch.maxIterations) := by
  cases hx : s.checkStart x with
  | error e =>
    rw [run, runWithin, hx]
    exact Nat.zero_le _
  | ok =>
    obtain ⟨r, hr⟩ := trace_ends hcap hx
    rw [run, runWithin, hx]
    exact trace_calls hl hf hcap hr

/-- A run with a cap ends and counts its calls. They are no more than the start and, for each
iteration up to the cap, all the trials of its line searches, each with the value and the
differences that make a gradient there. -/
theorem run_budget [Scalar.Lawful α] {s : Descent α} (hs : s.check = .ok ()) {cap : Nat}
    (hcap : s.config.stopping.maxIterations = some cap) (x : Vec α) :
    (s.checkStart x = .ok () → ∃ r, (s.run x).value = .ok r) ∧
    (∀ r, (s.run x).value = .ok r → r.evaluations = (s.run x).calls.length) ∧
    (s.run x).calls.length ≤ (1 + x.length) *
      (1 + s.config.method.searches x.length * cap * s.config.lineSearch.maxIterations) ∧
    ((∀ y, (s.objective.gradient y).isSome = true) → (s.run x).calls.length ≤
      1 + s.config.method.searches x.length * cap * s.config.lineSearch.maxIterations) := by
  have hl := LineSearch.maxIterations_ne_zero (Config.parts_of_check (config_check hs)).1
  refine ⟨?_, ?_, run_calls hl (s.function_costs x.length) hcap, ?_⟩
  · intro hx
    obtain ⟨r, hr⟩ := trace_ends hcap hx
    refine ⟨r, ?_⟩
    rw [run, runWithin, hx]
    simp [Run.ofIteration, hr, Run.conclude]
  · intro r hr
    obtain ⟨htrace, hcalls, -⟩ := ends_of_runWithin hr
    exact (trace_evaluations htrace).trans (congrArg List.length hcalls).symm
  · intro hg
    have h := run_calls hl (function_costs_zero hg x.length) hcap
    rwa [Nat.add_zero, Nat.one_mul] at h

theorem misled_budget : (misled.capped 1).check = .ok () ∧
    (misled.capped 1).config.stopping.maxIterations = some 1 ∧
    ∃ r, ((misled.capped 1).run [0]).value = .ok r ∧ r.evaluations = 101 ∧
      ((misled.capped 1).run [0]).calls.length ≤ 1 + 2 * 1 * 50 := by
  have hs : (misled.capped 1).check = .ok () := by decide +kernel
  obtain ⟨hends, hcount, -, hbound⟩ := run_budget hs rfl [0]
  obtain ⟨r, hr⟩ := hends (by decide +kernel)
  refine ⟨hs, rfl, r, hr, ?_, hbound fun _ => rfl⟩
  rw [hcount r hr]
  decide +kernel

end Descent

end Optima
