import Optima.Proofs.Root.Newton
import Optima.Root.Bracketing

namespace Optima

open Traced (call_bind)

variable {α : Type} [Scalar α]

namespace Newton

abbrev capped (s : Newton α) (n : Nat) : Newton α :=
  { s with config := { s.config with stopping := s.config.stopping.withMaxIterations n } }

theorem round_log (s : Newton α) (t : State α) :
    Sum.elim (fun u => u.log.reverse) (fun r => r.convergence) (s.round t).value =
      t.log.reverse ++ [⟨t.iteration, s.function t.point - s.config.target⟩] := by
  cases h : (s.round t).value with
  | inl u =>
    obtain ⟨-, -, -, rfl⟩ := value_round_inl h
    exact List.reverse_cons
  | inr r =>
    obtain ⟨-, -, -, hlog, -⟩ := value_round_inr h
    rw [Sum.elim_inr, hlog]
    exact List.reverse_cons

theorem round_curtails (s : Newton α) {n n' : Nat} (h : n ≤ n') :
    Traced.Curtails (s.capped n).round (s.capped n').round (fun t => t.log.reverse)
      (fun r => some r.convergence) (fun r => r.status = .iterationExceeded) := by
  refine .of_total ?_ ?_
  · intro t
    rw [round_log]
    exact List.prefix_append _ _
  · intro t
    rw [round_log]
    obtain hc | hc := s.config.stopping.capReached_mono h t.iteration
    · unfold round
      rw [call_bind, call_bind]
      dsimp only
      split
      · exact .inl rfl
      split
      · exact .inl rfl
      · exact .inr ⟨_, rfl, rfl, by simp [State.finish]⟩
    · left
      simp only [round, hc]
      rfl

theorem run_truncates (s : Newton α) {n n' : Nat} (h : n ≤ n') (start : α) :
    ((s.capped n).run start).Truncates ((s.capped n').run start) := by
  unfold run runWithin
  exact .accepting (.iterate (s.round_curtails h) (Nat.succ_le_succ h) (pure (.initial start)))

theorem round_next {s : Newton α} {t u : State α} (h : (s.round t).value = .inl u) :
    u.iteration = t.iteration + 1 ∧ ¬ s.config.stopping.capReached t.iteration = true := by
  obtain ⟨hearly, -, -, rfl⟩ := value_round_inl h
  exact ⟨rfl, (early?_eq_none hearly).2.2⟩

theorem round_last {s : Newton α} {t : State α} {r : Report α α}
    (h : (s.round t).value = .inr r) : r.iterations = t.iteration ∧
      (r.status = .iterationExceeded → s.config.stopping.capReached t.iteration = true) := by
  refine ⟨(value_round_inr h).2.2.1, fun hs => ?_⟩
  have hend := ends_of_round h
  rwa [hs] at hend

theorem run_keeps {s : Newton α} {n : Nat} (hn : s.config.stopping.maxIterations = some n)
    (start : α) : (s.run start).Keeps n := by
  unfold run runWithin
  refine .accepting fun _ => .ofIteration ?_
  exact s.config.stopping.iterate_within hn State.iteration (fun _ _ h => round_next h)
    (fun _ _ h => round_last h) rfl

end Newton

namespace Bracketing

abbrev capped (s : Bracketing α) (n : Nat) : Bracketing α :=
  { s with config := { s.config with stopping := s.config.stopping.withMaxIterations n } }

theorem errorAt_bind (s : Bracketing α) (x : α) {β : Type} (k : α → Traced α β) :
    s.errorAt x >>= k = ⟨(k (s.function x - s.config.target)).value,
      x :: (k (s.function x - s.config.target)).calls⟩ := rfl

theorem round_log (s : Bracketing α) (t : State α) :
    Sum.elim (fun u => u.log.reverse) (fun r => r.convergence) (s.round t).value =
      t.log.reverse ++ [⟨t.iteration + 1,
        s.function (t.bracket.trial s.config.method) - s.config.target⟩] := by
  unfold round
  dsimp only
  rw [errorAt_bind]
  dsimp only
  split
  · simp [State.finish]
  split
  · simp [State.finish]
  split
  · simp [State.finish]
  · simp

theorem round_curtails (s : Bracketing α) {n n' : Nat} (h : n ≤ n') :
    Traced.Curtails (s.capped n).round (s.capped n').round (fun t => t.log.reverse)
      (fun r => some r.convergence) (fun r => r.status = .iterationExceeded) := by
  refine .of_total ?_ ?_
  · intro t
    rw [round_log]
    exact List.prefix_append _ _
  · intro t
    rw [round_log]
    obtain hc | hc := s.config.stopping.capReached_mono h (t.iteration + 1)
    · unfold round
      dsimp only
      rw [errorAt_bind, errorAt_bind]
      dsimp only
      split
      · exact .inl rfl
      split
      · exact .inl rfl
      · exact .inr ⟨_, rfl, rfl, by simp [State.finish]⟩
    · left
      simp only [round, hc]
      rfl

theorem trace_eq (s : Bracketing α) (m : Nat) (lower upper : α) :
    s.trace m lower upper =
      match (s.initial lower upper).value.settled? s.config with
      | some report => ⟨some report, (s.initial lower upper).calls⟩
      | none => s.initial lower upper >>= Traced.iterate s.round m := by
  cases hs : (s.initial lower upper).value.settled? s.config <;> ext1 <;> simp [trace, hs]

theorem trace_truncates (s : Bracketing α) {n n' m m' : Nat} (h : n ≤ n') (hm : m ≤ m')
    (lower upper : α) : (Run.ofIteration ((s.capped n).trace m lower upper)).Truncates
      (.ofIteration ((s.capped n').trace m' lower upper)) := by
  have hsame (k : Nat) : ((s.capped k).initial lower upper).value.settled? (s.capped k).config =
      (s.initial lower upper).value.settled? s.config := rfl
  simp only [trace_eq, hsame]
  cases (s.initial lower upper).value.settled? s.config with
  | some report => exact .refl _
  | none => exact .iterate (s.round_curtails h) hm (s.initial lower upper)

theorem run_truncates (s : Bracketing α) {n n' : Nat} (h : n ≤ n') (a b : α) :
    ((s.capped n).run a b).Truncates ((s.capped n').run a b) := by
  unfold run runWithin
  refine .accepting ?_
  split
  · exact s.trace_truncates h (Nat.succ_le_succ h) a b
  · exact s.trace_truncates h (Nat.succ_le_succ h) b a

theorem round_next {s : Bracketing α} {t u : State α} (h : (s.round t).value = .inl u) :
    u.iteration = t.iteration + 1 ∧ ¬ s.config.stopping.capReached u.iteration = true := by
  unfold round at h
  dsimp only at h
  rw [errorAt_bind] at h
  dsimp only at h
  split at h
  · cases h
  split at h
  · cases h
  split at h
  · cases h
  · next hc =>
    cases h
    exact ⟨rfl, hc⟩

theorem round_last {s : Bracketing α} {t : State α} {r : Report α α}
    (h : (s.round t).value = .inr r) : r.iterations = t.iteration + 1 ∧
      (r.status = .iterationExceeded → s.config.stopping.capReached r.iterations = true) := by
  unfold round at h
  dsimp only at h
  rw [errorAt_bind] at h
  dsimp only at h
  split at h
  · cases h
    exact ⟨rfl, nofun⟩
  split at h
  · cases h
    exact ⟨rfl, nofun⟩
  split at h
  · next hc =>
    cases h
    exact ⟨rfl, fun _ => hc⟩
  · cases h

theorem State.settled?_some {c : Config α} {t : State α} {r : Report α α}
    (h : t.settled? c = some r) :
    r.iterations = t.iteration ∧ r.status ≠ .iterationExceeded := by
  unfold settled? at h
  dsimp only at h
  repeat' split at h
  all_goals cases h
  all_goals exact ⟨rfl, nofun⟩

theorem trace_keeps {s : Bracketing α} {n : Nat} (hn : s.config.stopping.maxIterations = some n)
    (lower upper : α) : (Run.ofIteration
      (s.trace s.config.stopping.budget lower upper)).Keeps (max n 1) := by
  have hcap (i : Nat) : s.config.stopping.capReached i = true ↔ n ≤ i := by simp [hn]
  have hbudget : s.config.stopping.budget = n + 1 := by simp [Stopping.budget, hn]
  rw [trace_eq, hbudget]
  split
  · next r hr =>
    refine .ofIteration ⟨r, rfl, ?_⟩
    obtain ⟨hi, he⟩ := State.settled?_some hr
    have h0 : r.iterations = 0 := hi
    exact ⟨by omega, fun h => absurd h he⟩
  · refine .ofIteration (Traced.iterate_ends (fun t => n - t.iteration)
      (I := fun t => t.iteration = 0 ∨ t.iteration < n) ?_ ?_ (.inl rfl) ?_)
    · intro t u ht hu
      obtain ⟨hi, hc⟩ := round_next hu
      rw [hcap] at hc
      omega
    · intro t r ht hr
      obtain ⟨hi, he⟩ := round_last hr
      rw [hcap] at he
      refine ⟨by omega, ?_⟩
      intro h
      have := he h
      omega
    · exact Nat.lt_succ_of_le (Nat.sub_le _ _)

theorem run_keeps {s : Bracketing α} {n : Nat} (hn : s.config.stopping.maxIterations = some n)
    (a b : α) : (s.run a b).Keeps (max n 1) := by
  unfold run runWithin
  refine .accepting fun _ => ?_
  split
  · exact trace_keeps hn a b
  · exact trace_keeps hn b a

end Bracketing

end Optima
