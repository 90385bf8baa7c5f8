import Optima.Proofs.Cap.Curtailed
import Optima.Proofs.Evolution.Run
import Optima.Proofs.Frame

namespace Optima.Evolution

variable {α γ : Type} [Scalar α] [WordSource γ]

abbrev capped (s : Evolution α) (n : Nat) : Evolution α :=
  { s with config := { s.config with stopping := s.config.stopping.withMaxIterations n } }

theorem round_grows (s : Evolution α) (t : State α γ) :
    ∀ l ∈ Traced.logged (fun u => u.log.reverse) (Option.map (·.convergence)) (s.round t).value,
      t.log.reverse <+: l := by
  intro l hl
  obtain ⟨status, he, -⟩ | ⟨-, ⟨-, he⟩ | ⟨-, he⟩⟩ := s.round_cases t
  · rw [he] at hl
    cases hl
    exact List.prefix_rfl
  · rw [he] at hl
    cases hl
    simp [State.next]
  · rw [he] at hl
    cases hl

theorem round_curtails (s : Evolution α) {n n' : Nat} (h : n ≤ n') :
    Traced.Curtails (s.capped n).round (s.capped n').round
      (fun t : State α γ => t.log.reverse) (Option.map (·.convergence))
      (fun o => ∃ r, o = some r ∧ r.status = .iterationExceeded) := by
  constructor
  · intro t
    exact (s.capped n').round_grows t
  · intro t
    have hg := (s.capped n').round_grows t
    obtain hc | hc := s.config.stopping.capReached_mono h t.iteration
    · by_cases hf : Scalar.isFinite (bestOf t.population).value = true
      · right
        refine ⟨some (t.finish s .iterationExceeded), ?_, ⟨_, rfl, rfl⟩, ?_⟩
        · simp only [round, if_pos hf, if_pos hc]
          rfl
        · rintro l ⟨⟩
          exact hg
      · left
        simp only [round, if_neg hf]
        rfl
    · left
      simp only [round, hc, generation_frame, settles_frame]
      rfl

theorem runFrom_truncates (s : Evolution α) {n n' : Nat} (h : n ≤ n') (g : γ) :
    ((s.capped n).runFrom g).Truncates ((s.capped n').runFrom g) := by
  unfold runFrom runWithin
  rw [trace_eq, trace_eq]
  exact .join_iterate (s.round_curtails h) (Nat.succ_le_succ h) (s.initial g)

theorem round_next {s : Evolution α} {t u : State α γ} (h : (s.round t).value = .inl u) :
    u.iteration = t.iteration + 1 ∧ ¬ s.config.stopping.capReached t.iteration = true := by
  obtain ⟨rfl, -, hc⟩ := round_inl h
  exact ⟨rfl, Bool.eq_false_iff.1 hc⟩

theorem round_last {s : Evolution α} {t : State α γ} {r : Report α (Vec α)}
    (h : (s.round t).value = .inr (some r)) : r.iterations = t.iteration ∧
      (r.status = .iterationExceeded → s.config.stopping.capReached t.iteration = true) := by
  obtain ⟨-, status, rfl, hc⟩ := round_inr h
  exact ⟨rfl, hc⟩

theorem round_within {s : Evolution α} {n : Nat} (hn : s.config.stopping.maxIterations = some n)
    {t : State α γ} (ht : t.iteration ≤ n) {r : Report α (Vec α)}
    (h : (s.round t).value = .inr (some r)) : r.Within n := by
  obtain ⟨hi, he⟩ := round_last h
  rw [← hi] at ht he
  exact s.config.stopping.within_of_capReached hn ht he

/-- Only a generation that never ends keeps a run with a cap from its end. -/
theorem runFrom_ends {s : Evolution α} {n : Nat} (hn : s.config.stopping.maxIterations = some n)
    (g : γ) : ∃ o, (s.runFrom g).value = Run.conclude o ∧
      (o = none → s.config.maxResamples = none) ∧ ∀ r, o = some r → r.Within n := by
  have hlast : ∀ (t : State α γ) o, t.iteration ≤ n → (s.round t).value = .inr o →
      (o = none → s.config.maxResamples = none) ∧ ∀ r, o = some r → r.Within n := by
    intro t o ht h
    constructor
    · rintro rfl
      exact (round_stuck h).1
    · rintro r rfl
      exact round_within hn ht h
  obtain ⟨o, ho, hend⟩ := s.config.stopping.iterate_ends hn State.iteration
    (fun _ _ h => round_next h) hlast (s := (s.initial g).value) rfl
  refine ⟨o, ?_, hend⟩
  rw [runFrom, runWithin, trace_eq, Run.ofIteration, Traced.value_map, Traced.value_bind, ho]
  rfl

theorem runFrom_keeps {s : Evolution α} {n : Nat} (hn : s.config.stopping.maxIterations = some n)
    (hr : s.config.maxResamples ≠ none) (g : γ) : (s.runFrom g).Keeps n := by
  obtain ⟨o, he, hnone, hsome⟩ := runFrom_ends hn g
  cases o with
  | none => exact absurd (hnone rfl) hr
  | some r =>
    refine ⟨by rw [he]; exact nofun, ?_⟩
    intro r' hr'
    rw [he] at hr'
    cases hr'
    exact hsome r rfl

theorem runFrom_within {s : Evolution α} {n : Nat} (hn : s.config.stopping.maxIterations = some n)
    {g : γ} {r : Report α (Vec α)} (h : (s.runFrom g).value = .ok r) : r.Within n := by
  obtain ⟨o, he, -, hsome⟩ := runFrom_ends hn g
  rw [he] at h
  cases o with
  | none => cases h
  | some r' =>
    cases h
    exact hsome _ rfl

theorem round_of_trial_none {s : Evolution α} (hm : s.config.maxResamples = none)
    (hu : s.config.update = .inPlace) {t : State α γ} {g : γ}
    (hf : Scalar.isFinite (bestOf t.population).value = true)
    (hc : s.config.stopping.capReached t.iteration = false) (hne : 0 < t.population.length)
    (h : (trial s.config s.feasible (t.population.map (·.point)) 0 s.config.attempts).run
      t.generator = (none, g)) : (s.round t).value = .inr none := by
  have hgives : s.config.givesUp = false := by rw [Config.givesUp, hm]; rfl
  obtain ⟨ks, hks⟩ : ∃ ks, List.range t.population.length = 0 :: ks := by
    obtain ⟨n, hn⟩ := Nat.exists_eq_succ_of_ne_zero hne.ne'
    exact ⟨_, (congrArg List.range hn).trans List.range_succ_eq_map⟩
  have hgeneration : (generation s.config s.feasible s.oriented t.population).run t.generator =
      pure ((t.population, 0), g) := by
    rw [generation, hu, hks]
    exact (inPlaceGeneration_none h).trans (if_neg (Bool.eq_false_iff.1 hgives))
  obtain ⟨status, he, ⟨-, hs⟩ | ⟨-, hs⟩⟩ | ⟨-, ⟨hsettles, -⟩ | ⟨-, he⟩⟩ := s.round_cases t
  · rw [hf] at hs
    cases hs
  · rw [hc] at hs
    cases hs
  · rw [hgeneration, Config.settles, hgives, Bool.false_or] at hsettles
    exact absurd (beq_iff_eq.1 hsettles) hne.ne
  · rw [he]

theorem runFrom_of_stuck {s : Evolution α} {g : γ}
    (h : (s.round (s.initial g).value).value = .inr none) :
    (s.runFrom g).value = .error .unfinished := by
  obtain ⟨n, hn⟩ := s.config.stopping.exists_budget_eq
  rw [runFrom, hn, runWithin, trace_eq, Run.ofIteration, Traced.value_map, Traced.value_bind,
    Traced.iterate_succ_inr h]
  rfl

theorem trial_eq_none {c : Config α} {feasible : Vec α → Bool} {points : List (Vec α)} {k : Nat}
    {g : γ} {x : Vec α} (hc : (candidate c points k).run g = (x, g)) (hx : feasible x = false)
    (attempts : Nat) : ((trial c feasible points k attempts).run g).1 = none := by
  induction attempts with
  | zero => rfl
  | succ attempts ih =>
    rw [trial, Draw.run_bind, hc]
    simpa only [hx, Bool.false_eq_true, if_false] using ih

end Optima.Evolution
