import Optima.Proofs.Cap
import Optima.Proofs.Reports
import Optima.Proofs.Root.Bracket

namespace Optima

open Scalar (Lawful)

variable {α ι χ : Type}

/-- The count of evaluations in the report is the number of calls that the run made. -/
def Run.Counted (run : Run α ι χ) : Prop := run.Gives fun xs r => r.evaluations = xs.length

theorem Run.Counted.iterate {σ : Type} {step : σ → Traced ι (σ ⊕ Report α χ)} {I : σ → Prop}
    (evaluations : σ → Nat) (next : ∀ t u, I t → (step t).value = .inl u → I u)
    (count : ∀ t, I t → Sum.elim evaluations (·.evaluations) (step t).value =
      evaluations t + (step t).calls.length)
    {t : Traced ι σ} (ht : I t.value) (hc : evaluations t.value = t.calls.length) (n : Nat) :
    (Run.ofIteration (t >>= Traced.iterate step n)).Counted := by
  refine Run.Gives.iterate (I := fun xs t => I t ∧ evaluations t = xs.length) ?_ ?_ ⟨ht, hc⟩ n
  · rintro xs t u ⟨hi, hxs⟩ hu
    have hcount := count t hi
    rw [hu, Sum.elim_inl] at hcount
    exact ⟨next t u hi hu, by rw [hcount, hxs, List.length_append]⟩
  · rintro xs t r ⟨hi, hxs⟩ hr
    have hcount := count t hi
    rw [hr, Sum.elim_inr] at hcount
    rw [hcount, hxs, List.length_append]

variable [Scalar α]

namespace Simplex

variable {c : Config α} {box : Box α} {f : Vec α → α} {s : Simplex α}

theorem shrinkTowardBest_inner_length (c : Config α) (box : Box α) (f : Vec α → α)
    (s : Simplex α) : (shrinkTowardBest c box f s).value.inner.length = s.inner.length := by
  simp only [shrinkTowardBest, Traced.value_bind, Traced.value_forEach, Traced.value_pure,
    List.length_map]

theorem shrinkTowardBest_calls_length (c : Config α) (box : Box α) (f : Vec α → α)
    (s : Simplex α) : (shrinkTowardBest c box f s).calls.length = s.inner.length + 1 := by
  rw [shrinkTowardBest_calls, List.length_map, drawn, List.length_map, List.length_append,
    List.length_singleton]

theorem step_counted (hs : s.inner.length + 1 = box.length) (center : Vec α) :
    (step c box f s center).value.2 = (step c box f s center).calls.length ∧
      (step c box f s center).value.1.inner.length = s.inner.length := by
  by_cases h : f (toward box center (-c.reflection) s.worst.point) < s.best.value
  · rw [step_expanded rfl rfl h]
    exact ⟨rfl, rfl⟩
  by_cases h' : f (toward box center (-c.reflection) s.worst.point) < s.secondWorst.value
  · rw [step_reflected rfl h h']
    exact ⟨rfl, rfl⟩
  by_cases hlt : f (toward box center c.contraction s.worst.point) < s.worst.value
  · rw [step_contracted rfl rfl h h' hlt]
    exact ⟨rfl, rfl⟩
  · rw [step_shrunk rfl rfl h h' hlt]
    refine ⟨?_, shrinkTowardBest_inner_length c box f s⟩
    rw [List.length_cons, List.length_cons, shrinkTowardBest_calls_length, hs, Nat.add_comm]

end Simplex

namespace SimplexSearch

variable {s : SimplexSearch α}

theorem candidates_counted {t : State α} (ht : t.simplex.inner.length + 1 = s.box.length) :
    (Simplex.step s.config s.box s.ranked t.simplex.sort (s.center t)).value.2 =
        (s.candidates t).length ∧
      (Simplex.step s.config s.box s.ranked t.simplex.sort (s.center t)).value.1.inner.length =
        t.simplex.inner.length := by
  rw [← t.simplex.sort_inner_length] at ht ⊢
  exact Simplex.step_counted ht (s.center t)

theorem round_counted {t : State α} (ht : t.simplex.inner.length + 1 = s.box.length) :
    Sum.elim State.evaluations (·.evaluations) (s.round t).value =
      t.evaluations + (s.round t).calls.length := by
  have hcandidates := (candidates_counted ht).1
  rw [candidates] at hcandidates
  unfold round
  dsimp only
  split
  · rw [call_bind]
    dsimp only
    split
    · rfl
    split
    · rfl
    · rw [Traced.value_bind, Traced.calls_bind, Traced.calls_pure, List.append_nil,
        List.length_cons, ← center, ← hcandidates]
      exact Nat.add_right_comm t.evaluations 1 _
  · rfl

theorem round_inner_length {t u : State α} (ht : t.simplex.inner.length + 1 = s.box.length)
    (h : (s.round t).value = .inl u) : u.simplex.inner.length + 1 = s.box.length := by
  rw [(round_inl h).2.1, (candidates_counted ht).2, ht]

theorem Runs.counted (hs : s.check = .ok ()) {xs : List (Vec α)} {run : Run α (Vec α) (Vec α)}
    (h : s.Runs xs run) : run.Counted := by
  refine h.gives hs fun n simplex hv hlength _ => ?_
  refine Run.Counted.iterate State.evaluations
    (I := fun t => t.simplex.inner.length + 1 = s.box.length)
    (fun _ _ => round_inner_length) (fun _ => round_counted) ?_ ?_ n
  · rw [simplex.vertices_length] at hlength
    exact Nat.succ.inj hlength
  · rw [List.length_map, hv, List.length_map]

end SimplexSearch

namespace Swarm

variable {γ : Type} [WordSource γ] [Lawful α] {s : Swarm α}

theorem round_counted (hs : s.check = .ok ()) {t : State α γ} (ht : ∃ xs, t.Sound s xs) :
    Sum.elim State.evaluations (·.evaluations) (s.round t).value =
      t.evaluations + (s.round t).calls.length := by
  obtain ⟨xs, ht⟩ := ht
  cases h : (s.round t).value with
  | inl u =>
    obtain ⟨hu, hcalls⟩ := ht.round (check_box hs) h
    rw [hcalls, positionsAt, List.flatMap_singleton, List.length_map, hu.size, (round_inl h).1]
    rfl
  | inr r =>
    obtain ⟨hcalls, status, rfl⟩ := round_inr h
    rw [hcalls]
    rfl

theorem runFrom_counted (hs : s.check = .ok ()) (g : γ) : (s.runFrom g).Counted := by
  refine runFrom_gives fun start hstart n => ?_
  cases hstart with
  | @intro positions velocities g' g'' hp hc hv =>
    have hlen := velocities_length (congrArg Prod.fst hv)
    refine Run.Counted.iterate State.evaluations (I := fun t => ∃ xs, t.Sound s xs) ?_
      (fun _ => round_counted hs) ?_ ?_ n
    · rintro t u ⟨xs, ht⟩ hu
      exact ⟨_, (ht.round (check_box hs) hu).1⟩
    · exact ⟨_, (State.Sound.initial hs hc hlen.1 hlen.2 g'').1⟩
    · rw [initial_eq, List.length_map, (checkPositions_length hc).1]

omit [Lawful α] in
theorem runFrom_evaluations (s : Swarm α) (g : γ) :
    (s.runFrom g).Gives fun _ r => r.evaluations = s.config.size * (r.iterations + 1) := by
  refine runFrom_gives fun start hstart n => ?_
  refine .iterate (I := fun _ t => t.evaluations = s.config.size * (t.iteration + 1)) ?_ ?_ ?_ n
  · intro xs t u ht hu
    rw [(round_inl hu).1]
    exact congrArg (· + s.config.size) ht
  · intro xs t r ht hr
    obtain ⟨-, status, rfl⟩ := round_inr hr
    exact ht
  · cases hstart with
    | intro hp hc hv =>
      rw [initial_eq]
      exact (Nat.mul_one _).symm

end Swarm

namespace Evolution

variable {γ : Type} [WordSource γ] {s : Evolution α}

theorem round_counted (hs : s.check = .ok ()) {t u : State α γ} {xs : List (Vec α)}
    (ht : t.Sound s xs) (hu : (s.round t).value = .inl u) :
    u.evaluations = t.evaluations + (s.round t).calls.length := by
  obtain ⟨trials, hbred⟩ := ht.bred hs
  obtain ⟨rfl, hcalls, -⟩ := round_inl hu
  rw [hcalls, hbred.calls, List.length_map, ← hbred.count]
  rfl

theorem runFrom_counted [Lawful α] (hs : s.check = .ok ()) (g : γ) : (s.runFrom g).Counted := by
  refine runFrom_gives (I := fun xs t => t.Sound s xs ∧ t.evaluations = xs.length) ?_ ?_ ?_
  · rintro xs t u ⟨ht, hxs⟩ hu
    refine ⟨(ht.round hs hu).1, ?_⟩
    rw [round_counted hs ht hu, hxs, List.length_append]
  · rintro xs t r ⟨-, hxs⟩ hr
    obtain ⟨-, status, rfl, -⟩ := round_inr hr
    exact hxs
  · refine ⟨.initial hs g, ?_⟩
    rw [initial_eq]

end Evolution

namespace Newton

variable {s : Newton α}

theorem slope_counted (s : Newton α) (x : α) :
    (s.slope x).value.2 = (s.slope x).calls.length := by
  unfold slope
  split
  · rfl
  · rw [Traced.calls_map, Difference.calls_derivative_length, Traced.value_map]

theorem round_counted (s : Newton α) (t : State α) :
    Sum.elim State.evaluations (·.evaluations) (s.round t).value =
      t.evaluations + (s.round t).calls.length := by
  have hslope := s.slope_counted t.point
  have hadd (n : Nat) : t.evaluations + 1 + n = t.evaluations + (n + 1) :=
    Nat.add_right_comm _ _ _
  unfold round
  rw [Traced.call_bind]
  dsimp only
  split
  · rfl
  split
  · rfl
  split
  · rfl
  rw [Traced.value_bind, Traced.calls_bind, List.length_cons, List.length_append, ← hslope]
  split
  · exact hadd _
  split
  · exact hadd _
  · exact hadd _

theorem run_counted (s : Newton α) (x : α) : (s.run x).Counted :=
  run_gives fun n => Run.Counted.iterate State.evaluations (I := fun _ => True)
    (fun _ _ _ _ => trivial) (fun t _ => s.round_counted t) trivial rfl n

end Newton

namespace Bracketing

variable {s : Bracketing α}

theorem round_counted (s : Bracketing α) (t : State α) :
    Sum.elim State.evaluations (·.evaluations) (s.round t).value =
      t.evaluations + (s.round t).calls.length := by
  rw [round_eq]
  dsimp only
  repeat' split
  all_goals rfl

theorem run_counted (s : Bracketing α) (a b : α) : (s.run a b).Counted := by
  refine run_gives ?_ fun lower upper n => ?_
  · intro lower upper r hr
    exact (State.settled?_report hr).2.1
  · exact Run.Counted.iterate State.evaluations (I := fun _ => True) (fun _ _ _ _ => trivial)
      (fun t _ => s.round_counted t) trivial rfl n

theorem run_evaluations (s : Bracketing α) (a b : α) :
    (s.run a b).Gives fun _ r => r.evaluations = 2 + r.iterations := by
  refine run_gives ?_ fun lower upper n => ?_
  · intro lower upper r hr
    obtain ⟨hiterations, hevaluations, -⟩ := State.settled?_report hr
    rw [hiterations, hevaluations]
    rfl
  · refine .iterate (I := fun _ t => t.evaluations = 2 + t.iteration) ?_ ?_ rfl n
    · intro xs t u ht hu
      obtain ⟨-, -, -, rfl⟩ := round_inl hu
      exact congrArg Nat.succ ht
    · intro xs t r ht hr
      have hcount := s.round_counted t
      rw [hr, Sum.elim_inr, round_eq] at hcount
      rw [hcount, (round_last hr).1, ht]
      rfl

end Bracketing

/-- Every run of a search that keeps its count by hand reports the number of its calls, wherever it
starts, whatever the random words are and however it ends: all particles of a swarm at the start and
in each iteration, and the ends of a bracket and one point in each iteration among them. -/
theorem runs_counted {γ : Type} [Lawful α] [WordSource γ] :
    (∀ s : SimplexSearch α, s.check = .ok () → ∀ xs run, s.Runs xs run → run.Counted) ∧
      (∀ s : Swarm α, s.check = .ok () →
        s.run.Counted ∧ (∀ g : γ, (s.runFrom g).Counted) ∧
          (∀ r, s.run.value = .ok r → r.evaluations = s.config.size * (r.iterations + 1)) ∧
          ∀ (g : γ) r, (s.runFrom g).value = .ok r →
            r.evaluations = s.config.size * (r.iterations + 1)) ∧
      (∀ s : Evolution α, s.check = .ok () →
        s.run.Counted ∧ ∀ g : γ, (s.runFrom g).Counted) ∧
      (∀ (s : Newton α) (start : α), (s.run start).Counted) ∧
      ∀ (s : Bracketing α) (a b : α), (s.run a b).Counted ∧
        ∀ r, (s.run a b).value = .ok r → r.evaluations = 2 + r.iterations := by
  refine ⟨?_, ?_, ?_, Newton.run_counted, ?_⟩
  · intro s hs xs run h
    exact h.counted hs
  · intro s hs
    exact ⟨Swarm.runFrom_counted hs _, Swarm.runFrom_counted hs,
      s.runFrom_evaluations _, s.runFrom_evaluations⟩
  · intro s hs
    exact ⟨Evolution.runFrom_counted hs _, Evolution.runFrom_counted hs⟩
  · intro s a b
    exact ⟨s.run_counted a b, s.run_evaluations a b⟩

theorem gutter_counted : SimplexSearch.gutter.check = .ok () ∧ Swarm.pair.check = .ok () ∧
    Evolution.brood.check = .ok () ∧ (SimplexSearch.gutter.runStart [1, 1]).calls.length = 16 ∧
    Swarm.pair.run.calls.length = 2 * (2 + 1) ∧ Evolution.brood.run.calls.length = 15 ∧
    ((diagonal.capped 1).run 1).calls.length = 2 ∧ (halted.run (-1) 2).calls.length = 2 + 1 := by
  have hgutter : SimplexSearch.gutter.check = .ok () := by decide +kernel
  have hpair : Swarm.pair.check = .ok () := by decide +kernel
  have hbrood : Evolution.brood.check = .ok () := by decide +kernel
  obtain ⟨hsimplex, hswarm, hevolution, hnewton, hbracketing⟩ :=
    runs_counted (α := Float) (γ := ChaCha)
  refine ⟨hgutter, hpair, hbrood, ?_, ?_, ?_, ?_, ?_⟩
  · exact (hsimplex _ hgutter _ _ (.start _ [1, 1]) _ SimplexSearch.gutter_run).symm
  · exact ((hswarm _ hpair).1 _ Swarm.pair_run).symm
  · exact ((hevolution _ hbrood).1 _ Evolution.brood_run).symm
  · exact (hnewton _ 1 _ (congrArg Traced.value diagonal_run)).symm
  · exact ((hbracketing halted (-1) 2).1 _ halted_run).symm

end Optima
