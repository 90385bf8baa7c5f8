import Optima.Proofs.Cap.Descent
import Optima.Proofs.Cap.Evolution
import Optima.Proofs.Cap.Root
import Optima.Proofs.Cap.Simplex
import Optima.Proofs.Cap.Swarm

/-!
What the cap on iterations does to a run of any of the six solvers: it cuts the run short and
changes nothing else, and the run keeps to it.
-/

namespace Optima

/-- A run with the smaller of two caps logs a beginning of what the run with the greater one logs;
if it ends by itself, the two runs are the same. -/
theorem runs_truncate {α γ : Type} [Scalar α] [WordSource γ] {n n' : Nat} (h : n ≤ n') :
    (∀ (s : Descent α) (start : Vec α),
        ((s.capped n).run start).Truncates ((s.capped n').run start)) ∧
      (∀ s : SimplexSearch α,
        (∀ start, ((s.capped n).runStart start).Truncates ((s.capped n').runStart start)) ∧
        (∀ points, ((s.capped n).runPoints points).Truncates ((s.capped n').runPoints points)) ∧
        (∀ generator,
          ((s.capped n).runWith generator).Truncates ((s.capped n').runWith generator)) ∧
        ∀ g : γ, ((s.capped n).runRandom g).Truncates ((s.capped n').runRandom g)) ∧
      (∀ s : Swarm α, (s.capped n).run.Truncates (s.capped n').run ∧
        ∀ g : γ, ((s.capped n).runFrom g).Truncates ((s.capped n').runFrom g)) ∧
      (∀ s : Evolution α, (s.capped n).run.Truncates (s.capped n').run ∧
        ∀ g : γ, ((s.capped n).runFrom g).Truncates ((s.capped n').runFrom g)) ∧
      (∀ (s : Newton α) (start : α),
        ((s.capped n).run start).Truncates ((s.capped n').run start)) ∧
      ∀ (s : Bracketing α) (a b : α),
        ((s.capped n).run a b).Truncates ((s.capped n').run a b) := by
  refine ⟨?_, ?_, ?_, ?_, ?_, ?_⟩
  · intro s start
    exact s.run_truncates h start
  · intro s
    refine ⟨?_, ?_, ?_, ?_⟩
    · intro start
      exact s.runStart_truncates h start
    · intro points
      exact s.runPoints_truncates h points
    · intro generator
      exact s.runPoints_truncates h _
    · intro g
      exact s.runRandom_truncates h g
  · intro s
    exact ⟨s.runFrom_truncates h _, fun g => s.runFrom_truncates h g⟩
  · intro s
    exact ⟨s.runFrom_truncates h _, fun g => s.runFrom_truncates h g⟩
  · intro s start
    exact s.run_truncates h start
  · intro s a b
    exact s.run_truncates h a b

def diagonal : Newton Float where
  function x := x * x
  derivative := some fun x => 2 * x
  config := { Newton.Config.standard with target := 2 }

theorem diagonal_run : (diagonal.capped 1).run 1 =
    ⟨.ok ⟨1.5, 0.25, .iterationExceeded, 1, 2, [⟨0, -1⟩, ⟨1, 0.25⟩]⟩, [1, 1.5]⟩ := by
  ext1 <;> decide +kernel

theorem diagonal_ends : ((diagonal.capped 9).run 1).value.map
    (fun r => (r.status, r.iterations)) = .ok (.normal, 4) := by
  decide +kernel

theorem diagonal_truncates : 1 ≤ 9 ∧ 9 ≤ 100 ∧
    (∃ r, ((diagonal.capped 9).run 1).value = .ok r ∧
      [⟨0, -1⟩, ⟨1, 0.25⟩] <+: r.convergence ∧ r.status = .normal) ∧
    (diagonal.capped 100).run 1 = (diagonal.capped 9).run 1 := by
  have hend := diagonal_ends
  cases hr : ((diagonal.capped 9).run 1).value with
  | error e => rw [hr] at hend; cases hend
  | ok r =>
    rw [hr] at hend
    injection hend with hend
    have hs : r.status = .normal := congrArg Prod.fst hend
    obtain ⟨-, -, -, -, hshort, -⟩ :=
      runs_truncate (α := Float) (γ := ChaCha) (show 1 ≤ 9 by decide)
    obtain ⟨-, -, -, -, hlong, -⟩ :=
      runs_truncate (α := Float) (γ := ChaCha) (show 9 ≤ 100 by decide)
    refine ⟨by decide, by decide, ⟨r, rfl, ?_, hs⟩, ?_⟩
    · exact (hshort diagonal 1).log _ _ (congrArg Traced.value diagonal_run) hr
    · exact (hlong diagonal 1).same r hr (by rw [hs]; decide)

/-- Every run ends and keeps to its cap; the search for a root between two points is given one step
at least. Differential evolution may go on drawing infeasible trials when their number is not
limited; what it reports keeps to the cap all the same. -/
theorem runs_keep {α γ : Type} [Scalar α] [WordSource γ] {n : Nat} :
    (∀ s : Descent α, s.config.stopping.maxIterations = some n →
        ∀ start, (s.run start).Keeps n) ∧
      (∀ s : SimplexSearch α, s.check = .ok () → s.config.stopping.maxIterations = some n →
        (∀ start, (s.runStart start).Keeps n) ∧ (∀ points, (s.runPoints points).Keeps n) ∧
        (∀ generator, (s.runWith generator).Keeps n) ∧ ∀ g : γ, (s.runRandom g).Keeps n) ∧
      (∀ s : Swarm α, s.config.stopping.maxIterations = some n →
        s.run.Keeps n ∧ ∀ g : γ, (s.runFrom g).Keeps n) ∧
      (∀ s : Evolution α, s.config.stopping.maxIterations = some n →
        (s.config.maxResamples ≠ none → s.run.Keeps n ∧ ∀ g : γ, (s.runFrom g).Keeps n) ∧
        (∀ r, s.run.value = .ok r → r.Within n) ∧
        ∀ (g : γ) r, (s.runFrom g).value = .ok r → r.Within n) ∧
      (∀ s : Newton α, s.config.stopping.maxIterations = some n →
        ∀ start, (s.run start).Keeps n) ∧
      ∀ s : Bracketing α, s.config.stopping.maxIterations = some n → n ≠ 0 →
        ∀ a b, (s.run a b).Keeps n := by
  refine ⟨?_, ?_, ?_, ?_, ?_, ?_⟩
  · intro s hn start
    exact Descent.run_keeps hn start
  · intro s hs hn
    refine ⟨?_, ?_, ?_, ?_⟩
    · intro start
      exact SimplexSearch.runStart_keeps hs hn start
    · intro points
      exact SimplexSearch.runPoints_keeps hs hn points
    · intro generator
      exact SimplexSearch.runPoints_keeps hs hn _
    · intro g
      exact SimplexSearch.runRandom_keeps hs hn g
  · intro s hn
    exact ⟨Swarm.runFrom_keeps hn _, fun g => Swarm.runFrom_keeps hn g⟩
  · intro s hn
    refine ⟨?_, fun r => Evolution.runFrom_within hn, fun g r => Evolution.runFrom_within hn⟩
    intro hr
    exact ⟨Evolution.runFrom_keeps hn hr _, Evolution.runFrom_keeps hn hr⟩
  · intro s hn start
    exact Newton.run_keeps hn start
  · intro s hn hpos a b
    have hmax : max n 1 = n := Nat.max_eq_left (Nat.one_le_iff_ne_zero.2 hpos)
    exact hmax ▸ Bracketing.run_keeps hn a b

def halted : Bracketing Float where
  function x := x
  config := { Bracketing.Config.standard with stopping := .afterIterations 0 }

theorem halted_run : (halted.run (-1) 2).value =
    .ok ⟨0.5, 0.5, .iterationExceeded, 1, 3, [⟨1, 0.5⟩]⟩ := by
  decide +kernel

def sparse (maxResamples : Option Nat) : Evolution Float where
  objective := .ofValue fun x => x.getD 0 0
  population := [[0], [1], [2], [3], [4]]
  feasible x := [[0], [1], [2], [3], [4]].contains x
  config := { Evolution.Config.standard with
    crossover := 1, maxResamples, stopping := .afterIterations 1 }

def triangle : SimplexSearch Float where
  objective := .ofValue fun x => x.getD 1 0
  box := [⟨-1, 1⟩, ⟨-1, 1⟩]
  config := { Simplex.Config.standard with stopping := .afterIterations 1 }

theorem single_step_kept :
    (∃ r, ((diagonal.capped 1).run 1).value = .ok r ∧ r.status = .iterationExceeded ∧
      r.iterations = 1) ∧
    (triangle.runStart [1, 1]).Keeps 1 ∧ (sparse (some 3)).run.Keeps 1 ∧
      ((halted.capped 1).run (-1) 2).Keeps 1 := by
  obtain ⟨-, hsimplex, -, hevolution, hnewton, hbracketing⟩ :=
    runs_keep (α := Float) (γ := ChaCha) (n := 1)
  refine ⟨?_, ?_, ?_, ?_⟩
  · have hr := congrArg Traced.value diagonal_run
    exact ⟨_, hr, rfl, ((hnewton (diagonal.capped 1) rfl 1).within _ hr).exceeded rfl⟩
  · exact (hsimplex triangle (by decide +kernel) rfl).1 [1, 1]
  · exact ((hevolution (sparse (some 3)) rfl).1 (by decide)).1
  · exact hbracketing (halted.capped 1) rfl (by decide) (-1) 2

instance zeros : WordSource Unit where
  next32 g := (0, g)
  next64 g := (0, g)

theorem sparse_candidate :
    (Evolution.candidate (sparse none).config (sparse none).population 0).run () = ([5.4], ()) := by
  ext1
  decide +kernel

theorem sparse_unfinished : ((sparse none).runFrom ()).value = .error .unfinished := by
  refine Evolution.runFrom_of_stuck ?_
  have hpoints : ((sparse none).initial ()).value.population.map (·.point) =
      (sparse none).population := by decide +kernel
  refine Evolution.round_of_trial_none rfl rfl (by decide +kernel) rfl (by decide) (g := ()) ?_
  rw [hpoints]
  exact Prod.ext (Evolution.trial_eq_none sparse_candidate (by decide +kernel) _)
    (Subsingleton.elim _ _)

/-- A step beyond the cap, and a trial that no number of attempts ends. -/
theorem cap_not_kept :
    (¬ ∀ (s : Bracketing Float) (n : Nat) (a b : Float), s.config.check = .ok () →
      s.config.stopping.maxIterations = some n → (s.run a b).Keeps n) ∧
    (sparse none).check = .ok () ∧ (sparse none).config.stopping.maxIterations = some 1 ∧
      (sparse none).config.maxResamples = none ∧
      (∀ attempts, ((Evolution.trial (sparse none).config (sparse none).feasible
        (sparse none).population 0 attempts).run ()).1 = none) ∧
      ((sparse none).runFrom ()).value = .error .unfinished := by
  refine ⟨?_, by decide +kernel, rfl, rfl, ?_, sparse_unfinished⟩
  · intro h
    have hkeep := h halted 0 (-1) 2 (by decide +kernel) rfl
    exact absurd (hkeep.within _ halted_run).iterations (by decide)
  · exact Evolution.trial_eq_none sparse_candidate (by decide +kernel)

end Optima
