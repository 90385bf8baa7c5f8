import Optima.Proofs.Cap.Curtailed
import Optima.Proofs.Frame
import Optima.Proofs.Swarm.Run

namespace Optima.Swarm

variable {α γ : Type} [Scalar α] [WordSource γ]

abbrev capped (s : Swarm α) (n : Nat) : Swarm α :=
  { s with config := { s.config with stopping := s.config.stopping.withMaxIterations n } }

theorem round_grows (s : Swarm α) (t : State α γ) :
    t.log.reverse <+:
      Sum.elim (fun u => u.log.reverse) (fun r => r.convergence) (s.round t).value := by
  cases h : (s.round t).value with
  | inl u =>
    rw [Sum.elim_inl, (round_inl h).1]
    simp [State.next]
  | inr r =>
    obtain ⟨-, status, rfl⟩ := round_inr h
    exact List.prefix_rfl

theorem round_curtails (s : Swarm α) {n n' : Nat} (h : n ≤ n') :
    Traced.Curtails (s.capped n).round (s.capped n').round
      (fun t : State α γ => t.log.reverse) (fun r => some r.convergence)
      (fun r => r.status = .iterationExceeded) := by
  refine .of_total ?_ ?_
  · intro t
    exact (s.capped n').round_grows t
  · intro t
    have hg := (s.capped n').round_grows t
    obtain hv | hv := s.config.stopping.verdict_mono h t.iteration t.values none
    · right
      refine ⟨t.finish s .iterationExceeded, ?_, rfl, hg⟩
      simp only [round, hv]
      rfl
    · left
      simp only [round, hv, sweep_frame]
      rfl

theorem runFrom_truncates (s : Swarm α) {n n' : Nat} (h : n ≤ n') (g : γ) :
    ((s.capped n).runFrom g).Truncates ((s.capped n').runFrom g) := by
  have hp (k : Nat) : ((s.capped k).positions : Draw γ _) = s.positions := rfl
  have hv (k : Nat) : ((s.capped k).velocities : Draw γ _) = s.velocities := rfl
  unfold runFrom runWithin
  simp only [hp, hv]
  split
  · exact .refl _
  · next positions g' _ =>
    refine .accepting ?_
    split
    · exact .refl _
    · next velocities g'' _ =>
      exact .iterate (s.round_curtails h) (Nat.succ_le_succ h)
        (s.initial positions velocities g'')

theorem round_next {s : Swarm α} {t u : State α γ} (h : (s.round t).value = .inl u) :
    u.iteration = t.iteration + 1 ∧ ¬ s.config.stopping.capReached t.iteration = true := by
  refine ⟨by rw [(round_inl h).1]; rfl, ?_⟩
  unfold round at h
  dsimp only at h
  split at h
  · cases h
  · next hv => exact s.config.stopping.not_capReached_of_verdict hv

theorem round_last {s : Swarm α} {t : State α γ} {r : Report α (Vec α)}
    (h : (s.round t).value = .inr r) : r.iterations = t.iteration ∧
      (r.status = .iterationExceeded → s.config.stopping.capReached t.iteration = true) := by
  unfold round at h
  dsimp only at h
  split at h
  · next status hv =>
    cases h
    refine ⟨rfl, ?_⟩
    intro hs
    cases hs
    exact s.config.stopping.capReached_of_verdict hv
  · cases h

theorem runFrom_keeps {s : Swarm α} {n : Nat} (hn : s.config.stopping.maxIterations = some n)
    (g : γ) : (s.runFrom g).Keeps n := by
  unfold runFrom runWithin
  split
  · exact .overflow n
  · refine .accepting fun _ => ?_
    split
    · exact .overflow n
    · exact .ofIteration (s.config.stopping.iterate_within hn State.iteration
        (fun _ _ h => round_next h) (fun _ _ h => round_last h) rfl)

end Optima.Swarm
