import Optima.Proofs.Cap.Curtailed
import Optima.Proofs.Descent.Searched
import Optima.Proofs.Frame
import Optima.Proofs.Iteration

namespace Optima.Descent

variable {α : Type} [Scalar α]

abbrev capped (s : Descent α) (n : Nat) : Descent α :=
  { s with config := { s.config with stopping := s.config.stopping.withMaxIterations n } }

theorem Trail.verdict_mono (s : Descent α) {n n' : Nat} (h : n ≤ n') (t : Trail α) :
    t.verdict (s.capped n).config = some .iterationExceeded ∨
      t.verdict (s.capped n).config = t.verdict (s.capped n').config := by
  have hg (k : Nat) : gradientNorm (s.capped k).config t.state.iterate =
      gradientNorm s.config t.state.iterate := rfl
  simp only [verdict, hg]
  split
  · exact s.config.stopping.verdict_mono h _ _ _
  · exact .inr rfl

def reported (s : Descent α) (t : Trail α) : Traced (Vec α) (Trail α ⊕ Report α (Vec α)) :=
  Sum.map id (fun q => q.1.report s.config q.2) <$>
    round s.config (s.objective.oriented s.config.goal) t

theorem reported_value (s : Descent α) (t : Trail α) :
    (s.reported t).value =
      match s.advance t with
      | (.stalled, u) =>
        .inr (Trail.report s.config { s.counted t with state := u } .stationaryFunction)
      | (.failed status, u) =>
        .inr (Trail.report s.config { s.counted t with state := u } status)
      | (.moved, u) =>
        match ((s.counted t).extend s.config u).verdict s.config with
        | some status => .inr (((s.counted t).extend s.config u).report s.config status)
        | none => .inl ((s.counted t).extend s.config u) := by
  rw [reported, Traced.value_map, round_value]
  obtain ⟨_ | _ | status, u⟩ := s.advance t
  · dsimp only
    cases ((s.counted t).extend s.config u).verdict s.config <;> rfl
  · rfl
  · rfl

theorem reported_grows (s : Descent α) (t : Trail α) :
    t.log.reverse <+:
      Sum.elim (fun u => u.log.reverse) (fun r => r.convergence) (s.reported t).value := by
  rw [reported_value]
  split
  · exact List.prefix_rfl
  · exact List.prefix_rfl
  · split <;> simp [Trail.extend, Trail.report]

theorem reported_curtails (s : Descent α) {n n' : Nat} (h : n ≤ n') :
    Traced.Curtails (s.capped n).reported (s.capped n').reported (fun t => t.log.reverse)
      (fun r => some r.convergence) (fun r => r.status = .iterationExceeded) := by
  refine .of_total ?_ ?_
  · intro t
    exact (s.capped n').reported_grows t
  · intro t
    have hstep (k : Nat) : step (s.capped k).config (s.objective.oriented s.config.goal) t.state =
        step s.config (s.objective.oriented s.config.goal) t.state := step_frame s.config _ _ _ _
    unfold reported round
    rw [hstep, hstep]
    generalize (step s.config (s.objective.oriented s.config.goal) t.state).metered
      t.evaluations = w
    obtain ⟨⟨⟨progress, u⟩, evaluations⟩, calls⟩ := w
    cases progress with
    | stalled => exact .inl rfl
    | failed status => exact .inl rfl
    | moved =>
      have hx (k : Nat) (t : Trail α) : t.extend (s.capped k).config u = t.extend s.config u := rfl
      have hr (k : Nat) (t : Trail α) : t.report (s.capped k).config = t.report s.config := rfl
      obtain hv | hv := Trail.verdict_mono s h (Trail.extend s.config { t with evaluations } u)
      · right
        refine ⟨(Trail.extend s.config { t with evaluations } u).report s.config
          .iterationExceeded, ?_, rfl, ?_⟩
        · simp only [Traced.value_map, Traced.value_bind, hx, hv]
          rfl
        · simp only [Traced.value_map, Traced.value_bind, hx]
          cases (Trail.extend s.config { t with evaluations } u).verdict (s.capped n').config <;>
            exact List.prefix_rfl
      · left
        ext1 <;> simp only [Traced.value_map, Traced.calls_map, Traced.value_bind,
          Traced.calls_bind, hx, hr, hv]

theorem trace_of_verdict {s : Descent α} {x : Vec α} {status : Status}
    (h : (s.initial x).value.verdict s.config = some status) (m : Nat) :
    s.trace m x = ⟨some ((s.initial x).value.report s.config status), (s.initial x).calls⟩ := by
  ext1
  · simp only [trace_value, h]
  · simp only [trace, Traced.calls_bind, h]
    split <;> exact List.append_nil _

theorem iterate_reported (s : Descent α) (m : Nat) (t : Trail α) :
    Traced.iterate s.reported m t = Option.map (fun q => q.1.report s.config q.2) <$>
      Traced.iterate (round s.config (s.objective.oriented s.config.goal)) m t := by
  have hs (t : Trail α) : s.reported (id t) = Sum.map id (fun q => q.1.report s.config q.2) <$>
      round s.config (s.objective.oriented s.config.goal) t := rfl
  exact Traced.iterate_map hs m t

theorem trace_of_verdict_none {s : Descent α} {x : Vec α}
    (h : (s.initial x).value.verdict s.config = none) (m : Nat) :
    s.trace m x = s.initial x >>= Traced.iterate s.reported m := by
  ext1
  · simp only [trace_value, h, Traced.value_bind, iterate_reported, Traced.value_map]
  · have hf := (Passes.initial (s := s) (x := x)).isFinite_value h
    simp only [trace, Traced.calls_bind, h, if_pos hf, Traced.calls_pure, List.append_nil,
      iterate_reported, Traced.calls_map]

theorem trace_truncates (s : Descent α) {n n' m m' : Nat} (h : n ≤ n') (hm : m ≤ m')
    (x : Vec α) : (Run.ofIteration ((s.capped n).trace m x)).Truncates
      (.ofIteration ((s.capped n').trace m' x)) := by
  have hi (k : Nat) : (s.capped k).initial x = s.initial x := rfl
  have hr (k : Nat) (t : Trail α) : t.report (s.capped k).config = t.report s.config := rfl
  obtain hv | hv := Trail.verdict_mono s h (s.initial x).value
  · -- the first run is over before its first iteration
    rw [trace_of_verdict hv, hi, hr]
    refine .ofIteration ?_ ?_
    · intro r r' hq _
      cases hq
      rw [initial_value]
      exact List.nil_prefix
    · intro r hq hne
      cases hq
      exact absurd rfl hne
  · cases hv' : (s.initial x).value.verdict (s.capped n').config with
    | some status =>
      rw [trace_of_verdict (hv.trans hv'), trace_of_verdict hv', hi, hi, hr, hr]
      exact .refl _
    | none =>
      rw [trace_of_verdict_none (hv.trans hv'), trace_of_verdict_none hv', hi, hi]
      exact .iterate (s.reported_curtails h) hm (s.initial x)

theorem run_truncates (s : Descent α) {n n' : Nat} (h : n ≤ n') (x : Vec α) :
    ((s.capped n).run x).Truncates ((s.capped n').run x) := by
  unfold run runWithin
  exact .accepting (s.trace_truncates h (Nat.succ_le_succ h) x)

theorem sweep_failed (c : Config α) (f : LineFunction α) (hessian : Vec α → Option (Mat α))
    (s : State α) (n : Nat) (i : Iterate α) (d : Vec α) (moved : Bool) {status : Status}
    (h : (sweep c f hessian s n i d moved).value.1 = .failed status) : status = .badFunction := by
  have hstop {i : Iterate α} {moved : Bool} {status : Status} :
      ¬ ((if moved then Progress.moved else .stalled, { s with iterate := i }) :
        Progress × State α).1 = .failed status := by
    cases moved <;> nofun
  induction n generalizing i d moved with
  | zero => exact absurd h hstop
  | succ n ih =>
    unfold sweep at h
    dsimp only at h
    split at h
    · exact absurd h hstop
    split at h
    · cases h
      rfl
    split at h
    · cases h
      rfl
    split at h
    · rw [Traced.value_bind] at h
      split at h
      · exact absurd h hstop
      · exact ih _ _ _ h
    · rw [Traced.value_bind, Traced.value_bind] at h
      split at h
      · exact ih _ _ _ h
      · cases h

theorem advance_failed {s : Descent α} {t : Trail α} {u : State α} {status : Status}
    (h : s.advance t = (.failed status, u)) : status = .badFunction := by
  by_cases hm : s.config.method = .conjugateGradient
  · refine sweep_failed s.config s.function (s.objective.oriented s.config.goal).hessian t.state
      t.state.iterate.point.length t.state.iterate t.state.iterate.steepest false ?_
    simp only [advance, step, hm] at h
    exact congrArg Prod.fst h
  · have hs := advance_searched hm t
    rw [h] at hs
    exact hs.status_of_failed

theorem Trail.not_capReached_of_verdict {c : Config α} {t : Trail α} (h : t.verdict c = none) :
    ¬ c.stopping.capReached t.iteration = true := by
  unfold verdict at h
  dsimp only at h
  split at h
  · exact c.stopping.not_capReached_of_verdict h
  · cases h

theorem Trail.capReached_of_verdict {c : Config α} {t : Trail α}
    (h : t.verdict c = some .iterationExceeded) : c.stopping.capReached t.iteration = true := by
  unfold verdict at h
  dsimp only at h
  split at h
  · exact c.stopping.capReached_of_verdict h
  · cases h

theorem iterate_within {s : Descent α} {n : Nat} (hn : s.config.stopping.maxIterations = some n)
    {t : Trail α} (ht : t.log.length = t.iteration) (hv : t.verdict s.config = none) :
    ∃ r, (Traced.iterate s.reported s.config.stopping.budget t).value = some r ∧ r.Within n := by
  have hcap (i : Nat) : s.config.stopping.capReached i = true ↔ n ≤ i := by simp [hn]
  have hbudget : s.config.stopping.budget = n + 1 := by simp [Stopping.budget, hn]
  have hopen {t : Trail α} (hv : t.verdict s.config = none) : t.iteration < n := by
    have := Trail.not_capReached_of_verdict hv
    rw [hcap] at this
    omega
  refine Traced.iterate_ends (fun t => n - t.iteration)
    (I := fun t => t.log.length = t.iteration ∧ t.iteration < n) ?_ ?_ ⟨ht, hopen hv⟩ (by omega)
  · rintro t u ⟨hl, hi⟩ hu
    rw [reported_value] at hu
    split at hu
    · cases hu
    · cases hu
    · split at hu
      · cases hu
      · next hv =>
        cases hu
        refine ⟨⟨congrArg (· + 1) hl, hopen hv⟩, ?_⟩
        change n - (t.iteration + 1) < n - t.iteration
        omega
  · rintro t r ⟨hl, hi⟩ hr
    rw [reported_value] at hr
    split at hr
    · cases hr
      refine ⟨Nat.le_trans (Nat.le_of_eq hl) (Nat.le_of_lt hi), ?_⟩
      intro he
      cases he
    · next ha =>
      cases hr
      refine ⟨Nat.le_trans (Nat.le_of_eq hl) (Nat.le_of_lt hi), ?_⟩
      intro he
      cases (advance_failed ha).symm.trans he
    · split at hr
      · next hv =>
        cases hr
        refine ⟨Nat.le_trans (Nat.le_of_eq (congrArg (· + 1) hl)) hi, ?_⟩
        intro he
        cases he
        have hle : n ≤ t.iteration + 1 := (hcap _).1 (Trail.capReached_of_verdict hv)
        change t.log.length + 1 = n
        omega
      · cases hr

theorem run_keeps {s : Descent α} {n : Nat} (hn : s.config.stopping.maxIterations = some n)
    (x : Vec α) : (s.run x).Keeps n := by
  unfold run runWithin
  refine .accepting fun _ => .ofIteration ?_
  cases hv : (s.initial x).value.verdict s.config with
  | some status =>
    rw [trace_of_verdict hv]
    have hlen : (s.initial x).value.log.length = 0 := by rw [initial_value]; rfl
    refine ⟨_, rfl, Nat.le_trans (Nat.le_of_eq hlen) (Nat.zero_le n), ?_⟩
    intro he
    cases he
    have hle := Trail.capReached_of_verdict hv
    rw [Stopping.capReached_iff, initial_value] at hle
    obtain ⟨m, hm, hle⟩ := hle
    cases hn.symm.trans hm
    exact hlen.trans (Nat.le_zero.1 hle).symm
  | none =>
    rw [trace_of_verdict_none hv]
    refine iterate_within hn ?_ hv
    rw [initial_value]
    rfl

end Optima.Descent
