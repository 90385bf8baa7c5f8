import Optima.Proofs.Descent.Searched
import Optima.Proofs.LineSearch.Acceptance
import Optima.Proofs.Scalar.Sums

namespace Optima.Descent

open Scalar (Lawful Ordered)

variable {α : Type} [Scalar α]

/-- The oriented values of a run with this log, the value at the start first. -/
def history (s : Descent α) (x : Vec α) (log : List (Entry α)) : List α :=
  s.config.goal.orient (s.objective.value (clipTo s.config.box x)) ::
    log.map fun e => s.config.goal.orient e.value

/-- All along a run, and in its report, each oriented value is in this relation to every earlier
one; the last one is reported. -/
structure Descending (R : α → α → Prop) (s : Descent α) (x : Vec α) : Prop where
  passes : ∀ t, s.Passes x t → (s.history x t.log.reverse).Pairwise fun a b => R b a
  report : ∀ n r, (s.runWithin n x).value = .ok r →
    (s.history x r.convergence).Pairwise fun a b => R b a
  last : ∀ n r, (s.runWithin n x).value = .ok r →
    (s.history x r.convergence).getLast? = some (s.config.goal.orient r.value)
  start : ∀ n r, (s.runWithin n x).value = .ok r →
    s.config.goal.orient r.value =
        s.config.goal.orient (s.objective.value (clipTo s.config.box x)) ∨
      R (s.config.goal.orient r.value)
        (s.config.goal.orient (s.objective.value (clipTo s.config.box x)))

variable {s : Descent α} {x : Vec α} {R : α → α → Prop}

theorem Config.search_forward [Ordered α] {c : Config α} (h : c.check = .ok ()) :
    c.search.Forward := by
  have hf := LineSearch.forward_of_check (parts_of_check h).1
  unfold search
  split
  · exact hf.limitTo
  · exact hf

theorem Passes.history_eq [Lawful α] {t : Trail α} (ht : s.Passes x t) :
    s.history x t.log.reverse = t.values.reverse := by
  induction ht with
  | initial =>
    rw [initial_value]
    rfl
  | @moved t u _ _ _ ih =>
    simp only [history, Trail.extend, counted_values, counted_log, List.reverse_cons,
      List.map_append, List.map_cons, List.map_nil, Goal.orient_orient] at ih ⊢
    rw [← List.cons_append, ih]

theorem Passes.pairwise (htrans : ∀ {a b c : α}, R a b → R b c → R a c)
    (hstep : ∀ t u, s.Passes x t → s.advance t = (.moved, u) →
      R u.iterate.value t.state.iterate.value) {t : Trail α} (ht : s.Passes x t) :
    t.values.Pairwise R := by
  induction ht with
  | initial =>
    rw [initial_value]
    exact List.pairwise_singleton _ _
  | @moved t u ht _ hu ih =>
    refine List.pairwise_cons.2 ⟨?_, ih⟩
    have hlatest := hstep t u ht hu
    obtain ⟨vs, hvs⟩ := ht.values_eq
    rw [hvs] at ih
    rw [counted_values, hvs]
    intro v hv
    obtain rfl | hv := List.mem_cons.1 hv
    · exact hlatest
    · exact htrans hlatest ((List.pairwise_cons.1 ih).1 v hv)

theorem Ends.latest {r : Report α (Vec α)} (h : s.Ends x r) :
    ∃ t, s.Passes x t ∧ r.convergence = t.log.reverse ∧
      r.value = s.config.goal.orient t.state.iterate.value := by
  cases h with
  | @stopped t _ ht => exact ⟨t, ht, rfl, congrArg s.config.goal.orient ht.headD_values⟩
  | @stalled t _ ht => exact ⟨t, ht, rfl, congrArg s.config.goal.orient ht.headD_values⟩
  | @failed t _ _ ht => exact ⟨t, ht, rfl, congrArg s.config.goal.orient ht.headD_values⟩

theorem descending [Lawful α] (htrans : ∀ {a b c : α}, R a b → R b c → R a c)
    (hstep : ∀ t u, s.Passes x t → s.advance t = (.moved, u) →
      R u.iterate.value t.state.iterate.value) : s.Descending R x := by
  have hpasses : ∀ t, s.Passes x t → (s.history x t.log.reverse).Pairwise fun a b => R b a := by
    intro t ht
    rw [ht.history_eq, List.pairwise_reverse]
    exact ht.pairwise (R := R) htrans hstep
  have hreport : ∀ n r, (s.runWithin n x).value = .ok r →
      (s.history x r.convergence).Pairwise (fun a b => R b a) ∧
        (s.history x r.convergence).getLast? = some (s.config.goal.orient r.value) := by
    intro n r hr
    obtain ⟨-, -, hend⟩ := ends_of_runWithin hr
    obtain ⟨t, ht, hlog, hvalue⟩ := hend.latest
    obtain ⟨vs, hvs⟩ := ht.values_eq
    rw [hlog, hvalue]
    refine ⟨hpasses t ht, ?_⟩
    rw [ht.history_eq, hvs, List.getLast?_reverse, List.head?_cons, Goal.orient_orient]
  refine ⟨hpasses, fun n r hr => (hreport n r hr).1, fun n r hr => (hreport n r hr).2, ?_⟩
  intro n r hr
  obtain ⟨hp, hl⟩ := hreport n r hr
  obtain h | h := List.mem_cons.1 (List.mem_of_getLast? hl)
  · exact .inl h
  · exact .inr ((List.pairwise_cons.1 hp).1 _ h)

theorem advance_accepted [Ordered α] (hc : s.config.search.Forward)
    (hm : s.config.method ≠ .conjugateGradient) {t : Trail α} {u : State α}
    (hu : s.advance t = (.moved, u)) :
    ∃ (o : LineSearch.Outcome α) (slope : α), ¬ o.isZero = true ∧ u.iterate.value = o.value ∧
      o.Accepted s.config.search t.state.iterate.value slope := by
  have h := advance_searched hm t
  rw [hu] at h
  cases h with
  | @moved d _ hz hi =>
    refine ⟨_, _, hz, ?_, LineSearch.search_accepted hc _⟩
    rw [hi, arrive_value]

/-- Over binary64 numbers the oriented values of a run never increase; over the real numbers they
decrease. The objective is any function, NaN and infinity among its values. -/
theorem runs_descend :
    (∀ s : Descent Float, s.check = .ok () → s.config.method ≠ .conjugateGradient →
      ∀ x, s.Descending (· ≤ ·) x) ∧
    ∀ s : Descent ℝ, s.check = .ok () → s.config.method ≠ .conjugateGradient →
      ∀ x, s.Descending (· < ·) x := by
  constructor
  · intro s hc hm x
    have hf := Config.search_forward (config_check hc)
    refine descending Lawful.le_trans ?_
    intro t u _ hu
    obtain ⟨o, slope, hz, ho, ha⟩ := advance_accepted hf hm hu
    rw [ho]
    exact ha.le hf hz
  · intro s hc hm x
    have hf := Config.search_forward (config_check hc)
    refine descending lt_trans ?_
    intro t u _ hu
    obtain ⟨o, slope, hz, ho, ha⟩ := advance_accepted hf hm hu
    rw [ho]
    exact ha.lt hf hz

def parabola (α : Type) [Scalar α] : Descent α where
  objective := .withGradient (fun x => x.getD 0 0 * x.getD 0 0) fun x => x.map (2 * ·)
  config := Config.standard

theorem parabola_check : (parabola ℝ).check = .ok () := by
  have hc : (parabola ℝ).config.check = .ok () :=
    Exact.standard_check .momentum (by decide) .minimize
  rw [Descent.check, hc]
  rfl

theorem parabola_run : ((parabola Float).run [1]).value =
    .ok ⟨[0], 0, .gradientConvergence, 1, 3, [⟨1, 0⟩]⟩ := by
  decide +kernel

theorem parabola_descends :
    (parabola Float).Descending (· ≤ ·) [1] ∧ (parabola ℝ).Descending (· < ·) [1] ∧
      ∃ r, ((parabola Float).run [1]).value = .ok r ∧
        (parabola Float).history [1] r.convergence = [1, 0] :=
  ⟨runs_descend.1 (parabola Float) (by decide +kernel) (by decide) [1],
    runs_descend.2 (parabola ℝ) parabola_check (by decide) [1],
    _, parabola_run, by decide +kernel⟩

end Optima.Descent
