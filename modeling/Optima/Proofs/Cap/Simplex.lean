import Mathlib.Data.List.Infix
import Optima.Proofs.Cap.Curtailed
import Optima.Proofs.Simplex.Run

namespace Optima.SimplexSearch

variable {α : Type} [Scalar α]

abbrev capped (s : SimplexSearch α) (n : Nat) : SimplexSearch α :=
  { s with config := { s.config with stopping := s.config.stopping.withMaxIterations n } }

theorem round_grows (s : SimplexSearch α) (t : State α) :
    t.log.reverse <+:
      Sum.elim (fun u => u.log.reverse) (fun r => r.convergence) (s.round t).value := by
  cases h : (s.round t).value with
  | inl u =>
    rw [Sum.elim_inl, (round_inl h).2.2, List.reverse_cons]
    exact List.prefix_append _ _
  | inr r =>
    rw [Sum.elim_inr, (round_inr h).2.2]

theorem round_curtails (s : SimplexSearch α) {n n' : Nat} (h : n ≤ n') :
    Traced.Curtails (s.capped n).round (s.capped n').round (fun t => t.log.reverse)
      (fun r => some r.convergence) (fun r => r.status = .iterationExceeded) := by
  refine .of_total ?_ ?_
  · intro t
    exact (s.capped n').round_grows t
  · intro t
    obtain hc | hc := s.config.stopping.capReached_mono h t.iteration
    · have hcut : (s.capped n).round t = (s.capped n').round t ∨
          ∃ r, ((s.capped n).round t).value = .inr r ∧ r.status = .iterationExceeded := by
        have hr (k : Nat) : (s.capped k).ranked = s.ranked := rfl
        unfold round
        dsimp only
        split
        · rw [call_bind, call_bind, hr, hr]
          dsimp only
          split
          · exact .inl rfl
          · exact .inr ⟨_, rfl, rfl⟩
        · exact .inl rfl
      obtain heq | ⟨r, hr, hs⟩ := hcut
      · exact .inl heq
      · refine .inr ⟨r, hr, hs, ?_⟩
        rw [(round_inr hr).2.2]
        exact (s.capped n').round_grows t
    · left
      simp only [round, hc]
      rfl

theorem trace_eq_of_initial {s : SimplexSearch α} {points : List (Vec α)} {t : State α}
    (h : (s.initial points).value = some t) (m : Nat) :
    s.trace m points = (⟨t, (s.initial points).calls⟩ : Traced (Vec α) (State α)) >>=
      Traced.iterate s.round m := by
  ext1 <;> simp [trace, h]

theorem trace_truncates (s : SimplexSearch α) {n n' m m' : Nat} (h : n ≤ n') (hm : m ≤ m')
    (points : List (Vec α)) : (Run.ofIteration ((s.capped n).trace m points)).Truncates
      (.ofIteration ((s.capped n').trace m' points)) := by
  have hsame (k : Nat) : (s.capped k).initial points = s.initial points := rfl
  cases hi : (s.initial points).value with
  | none =>
    have hnone (k m : Nat) : (s.capped k).trace m points = ⟨none, (s.initial points).calls⟩ := by
      ext1 <;> simp [trace, hsame, hi]
    rw [hnone, hnone]
    exact .refl _
  | some t =>
    rw [trace_eq_of_initial ((congrArg Traced.value (hsame n)).trans hi),
      trace_eq_of_initial ((congrArg Traced.value (hsame n')).trans hi)]
    exact .iterate (s.round_curtails h) hm _

theorem runPoints_truncates (s : SimplexSearch α) {n n' : Nat} (h : n ≤ n')
    (points : List (Vec α)) :
    ((s.capped n).runPoints points).Truncates ((s.capped n').runPoints points) := by
  unfold runPoints runPointsWithin
  exact .accepting (s.trace_truncates h (Nat.succ_le_succ h) points)

theorem runStart_truncates (s : SimplexSearch α) {n n' : Nat} (h : n ≤ n') (start : Vec α) :
    ((s.capped n).runStart start).Truncates ((s.capped n').runStart start) := by
  unfold runStart runStartWithin
  exact .accepting (s.trace_truncates h (Nat.succ_le_succ h) (s.axisPoints start))

theorem runRandom_truncates {γ : Type} [WordSource γ] (s : SimplexSearch α) {n n' : Nat}
    (h : n ≤ n') (g : γ) :
    ((s.capped n).runRandom g).Truncates ((s.capped n').runRandom g) := by
  unfold runRandom runRandomWithin
  dsimp only
  split
  · next points _ => exact s.trace_truncates h (Nat.succ_le_succ h) points
  · exact .refl _

theorem round_next {s : SimplexSearch α} {t u : State α} (h : (s.round t).value = .inl u) :
    u.iteration = t.iteration + 1 ∧ ¬ s.config.stopping.capReached t.iteration = true := by
  unfold round at h
  dsimp only at h
  split at h
  · rw [call_bind] at h
    dsimp only at h
    split at h
    · cases h
    split at h
    · cases h
    · next hc =>
      cases h
      exact ⟨rfl, hc⟩
  · cases h

theorem round_last {s : SimplexSearch α} {t : State α} {r : Report α (Vec α)}
    (h : (s.round t).value = .inr r) : r.iterations = t.iteration ∧
      (r.status = .iterationExceeded → s.config.stopping.capReached t.iteration = true) := by
  unfold round at h
  dsimp only at h
  split at h
  · rw [call_bind] at h
    dsimp only at h
    split at h
    · cases h
      exact ⟨rfl, nofun⟩
    split at h
    · next hc =>
      cases h
      exact ⟨rfl, fun _ => hc⟩
    · cases h
  · cases h
    exact ⟨rfl, nofun⟩

theorem trace_keeps {s : SimplexSearch α} (hs : s.check = .ok ()) {n : Nat}
    (hn : s.config.stopping.maxIterations = some n) {xs : List (Vec α)}
    (hxs : xs.length = s.box.length + 1) :
    (Run.ofIteration (s.trace s.config.stopping.budget xs)).Keeps n := by
  have hsize : 2 ≤ xs.length := by
    rw [hxs]
    exact Nat.succ_le_succ (List.length_pos_iff.2 ((Box.check_eq_ok _).1 (check_box hs)).1)
  obtain ⟨simplex, -, hi⟩ := s.initial_some hsize
  rw [trace_eq_of_initial (congrArg Traced.value hi)]
  exact .ofIteration (s.config.stopping.iterate_within hn State.iteration
    (fun _ _ h => round_next h) (fun _ _ h => round_last h) rfl)

theorem runPoints_keeps {s : SimplexSearch α} (hs : s.check = .ok ()) {n : Nat}
    (hn : s.config.stopping.maxIterations = some n) (points : List (Vec α)) :
    (s.runPoints points).Keeps n := by
  unfold runPoints runPointsWithin
  exact .accepting fun h => trace_keeps hs hn (checkPoints_length h).1

theorem runStart_keeps {s : SimplexSearch α} (hs : s.check = .ok ()) {n : Nat}
    (hn : s.config.stopping.maxIterations = some n) (start : Vec α) :
    (s.runStart start).Keeps n := by
  unfold runStart runStartWithin
  refine .accepting fun h => trace_keeps hs hn ?_
  rw [demand_eq_ok, beq_iff_eq] at h
  exact (axisPoints_length h).1

theorem runRandom_keeps {γ : Type} [WordSource γ] {s : SimplexSearch α} (hs : s.check = .ok ())
    {n : Nat} (hn : s.config.stopping.maxIterations = some n) (g : γ) :
    (s.runRandom g).Keeps n := by
  unfold runRandom runRandomWithin
  split
  · next points h => exact trace_keeps hs hn (Draw.points_length h).1
  · exact .overflow n

end Optima.SimplexSearch
