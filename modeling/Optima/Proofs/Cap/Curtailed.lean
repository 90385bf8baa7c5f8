import Optima.Proofs.Iteration

namespace Optima

namespace Traced

variable {ι σ ρ ε : Type} {step step' : σ → Traced ι (σ ⊕ ρ)} {log : σ → List ε}
  {final : ρ → Option (List ε)} {cut : ρ → Prop} {s : σ} {r r' : ρ} {l l' : List ε} {m m' : Nat}

def logged (log : σ → List ε) (final : ρ → Option (List ε)) : σ ⊕ ρ → Option (List ε) :=
  Sum.elim (fun t => some (log t)) final

/-- The first step goes the way of the second unless it cuts the iteration short, and then what has
been logged so far is the beginning of what the second logs. -/
structure Curtails (step step' : σ → Traced ι (σ ⊕ ρ)) (log : σ → List ε)
    (final : ρ → Option (List ε)) (cut : ρ → Prop) : Prop where
  grows : ∀ t, ∀ l ∈ logged log final (step' t).value, log t <+: l
  follows : ∀ t, step t = step' t ∨ ∃ r, (step t).value = .inr r ∧ cut r ∧
    ∀ l ∈ final r, ∀ l' ∈ logged log final (step' t).value, l <+: l'

theorem Curtails.of_total {final : ρ → List ε}
    (grows : ∀ t, log t <+: Sum.elim log final (step' t).value)
    (follows : ∀ t, step t = step' t ∨
      ∃ r, (step t).value = .inr r ∧ cut r ∧ final r <+: Sum.elim log final (step' t).value) :
    Curtails step step' log (fun r => some (final r)) cut := by
  have hlogged (x : σ ⊕ ρ) :
      logged log (fun r => some (final r)) x = some (Sum.elim log final x) := by
    cases x <;> rfl
  constructor
  · intro t l hl
    rw [hlogged] at hl
    cases hl
    exact grows t
  · intro t
    obtain h | ⟨r, hr, hcut, hle⟩ := follows t
    · exact .inl h
    · refine .inr ⟨r, hr, hcut, ?_⟩
      intro l hl l' hl'
      rw [hlogged] at hl'
      cases hl
      cases hl'
      exact hle

theorem Curtails.grows_iterate (h : Curtails step step' log final cut)
    (hr : (iterate step' m s).value = some r) (hl : l ∈ final r) : log s <+: l := by
  induction m generalizing s with
  | zero => cases hr
  | succ m ih =>
    have hs := h.grows s
    cases ht : (step' s).value with
    | inl t =>
      rw [ht] at hs
      rw [iterate_succ_inl ht] at hr
      exact (hs _ rfl).trans (ih hr)
    | inr q =>
      rw [ht] at hs
      rw [iterate_succ_inr ht] at hr
      cases hr
      exact hs l hl

theorem Curtails.final_le (h : Curtails step step' log final cut)
    (hr : (iterate step m s).value = some r) (hr' : (iterate step' m' s).value = some r')
    (hl : l ∈ final r) (hl' : l' ∈ final r') : l <+: l' := by
  induction m generalizing m' s with
  | zero => cases hr
  | succ m ih =>
    cases m' with
    | zero => cases hr'
    | succ m' =>
      obtain heq | ⟨q, hq, -, hle⟩ := h.follows s
      · cases ht : (step' s).value with
        | inl t =>
          rw [iterate_succ_inl (heq ▸ ht)] at hr
          rw [iterate_succ_inl ht] at hr'
          exact ih hr hr'
        | inr q =>
          rw [iterate_succ_inr (heq ▸ ht)] at hr
          rw [iterate_succ_inr ht] at hr'
          cases hr
          cases hr'
          cases hl.symm.trans hl'
          exact List.prefix_rfl
      · rw [iterate_succ_inr hq] at hr
        cases hr
        cases ht : (step' s).value with
        | inl t =>
          rw [ht] at hle
          rw [iterate_succ_inl ht] at hr'
          exact (hle l hl _ rfl).trans (h.grows_iterate hr' hl')
        | inr q' =>
          rw [ht] at hle
          rw [iterate_succ_inr ht] at hr'
          cases hr'
          exact hle l hl l' hl'

theorem Curtails.iterate_eq (h : Curtails step step' log final cut) (hm : m ≤ m')
    (hr : (iterate step m s).value = some r) (hc : ¬ cut r) :
    iterate step' m' s = iterate step m s := by
  induction m generalizing m' s with
  | zero => cases hr
  | succ m ih =>
    obtain ⟨m', rfl⟩ : ∃ k, m' = k + 1 := ⟨m' - 1, by omega⟩
    obtain heq | ⟨q, hq, hcut, -⟩ := h.follows s
    · cases ht : (step' s).value with
      | inl t =>
        have ht' : (step s).value = .inl t := heq ▸ ht
        rw [iterate_succ_inl ht'] at hr
        rw [iterate_succ_inl ht', iterate_succ_inl ht, ih (Nat.le_of_succ_le_succ hm) hr, heq]
      | inr q => rw [iterate_succ_inr ht, iterate_succ_inr (heq ▸ ht), heq]
    · rw [iterate_succ_inr hq] at hr
      cases hr
      exact absurd hcut hc

theorem iterate_ends {I : σ → Prop} {P : ρ → Prop} (left : σ → Nat)
    (next : ∀ t u, I t → (step t).value = .inl u → I u ∧ left u < left t)
    (last : ∀ t r, I t → (step t).value = .inr r → P r) (hs : I s) (hm : left s < m) :
    ∃ r, (iterate step m s).value = some r ∧ P r := by
  induction m generalizing s with
  | zero => omega
  | succ m ih =>
    cases ht : (step s).value with
    | inl t =>
      obtain ⟨hi, hl⟩ := next s t hs ht
      rw [iterate_succ_inl ht]
      exact ih hi (by omega)
    | inr r =>
      rw [iterate_succ_inr ht]
      exact ⟨r, rfl, last s r hs ht⟩

end Traced

variable {α ι χ : Type}

namespace Run

/-- The first run is the second one, cut short by its cap or not at all. -/
structure Truncates (run run' : Run α ι χ) : Prop where
  log : ∀ r r', run.value = .ok r → run'.value = .ok r' → r.convergence <+: r'.convergence
  same : ∀ r, run.value = .ok r → r.status ≠ .iterationExceeded → run' = run

theorem Truncates.refl (run : Run α ι χ) : run.Truncates run := by
  refine ⟨?_, fun _ _ _ => rfl⟩
  intro r r' h h'
  rw [h] at h'
  cases h'
  exact List.prefix_rfl

theorem Truncates.accepting {input : Except (Error α) Unit} {run run' : Unit → Run α ι χ}
    (h : (run ()).Truncates (run' ())) :
    (Run.accepting input run).Truncates (.accepting input run') := by
  cases input with
  | ok => exact h
  | error e => exact .refl _

theorem ofIteration_ok {t : Traced ι (Option (Report α χ))} {r : Report α χ} :
    (Run.ofIteration t).value = .ok r ↔ t.value = some r := by
  cases h : t.value <;> simp [ofIteration, conclude, h]

theorem Truncates.ofIteration {t t' : Traced ι (Option (Report α χ))}
    (log : ∀ r r', t.value = some r → t'.value = some r' → r.convergence <+: r'.convergence)
    (same : ∀ r, t.value = some r → r.status ≠ .iterationExceeded → t' = t) :
    (Run.ofIteration t).Truncates (.ofIteration t') := by
  constructor
  · intro r r' h h'
    exact log r r' (ofIteration_ok.1 h) (ofIteration_ok.1 h')
  · intro r h hr
    rw [same r (ofIteration_ok.1 h) hr]

theorem Truncates.iterate {σ : Type} {step step' : σ → Traced ι (σ ⊕ Report α χ)}
    {log : σ → List (Entry α)}
    (h : Traced.Curtails step step' log (fun r => some r.convergence)
      (fun r => r.status = .iterationExceeded))
    {m m' : Nat} (hm : m ≤ m') (start : Traced ι σ) :
    (Run.ofIteration (start >>= Traced.iterate step m)).Truncates
      (.ofIteration (start >>= Traced.iterate step' m')) := by
  refine .ofIteration ?_ ?_
  · intro r r' hr hr'
    exact h.final_le hr hr' rfl rfl
  · intro r hr hne
    have heq := h.iterate_eq hm hr hne
    ext1 <;> simp only [Traced.value_bind, Traced.calls_bind, heq]

theorem Truncates.join_iterate {σ : Type} {step step' : σ → Traced ι (σ ⊕ Option (Report α χ))}
    {log : σ → List (Entry α)}
    (h : Traced.Curtails step step' log (Option.map (·.convergence))
      (fun o => ∃ r, o = some r ∧ r.status = .iterationExceeded))
    {m m' : Nat} (hm : m ≤ m') (start : Traced ι σ) :
    (Run.ofIteration (Option.join <$> (start >>= Traced.iterate step m))).Truncates
      (.ofIteration (Option.join <$> (start >>= Traced.iterate step' m'))) := by
  refine .ofIteration ?_ ?_
  · intro r r' hr hr'
    exact h.final_le (Option.join_eq_some_iff.1 hr) (Option.join_eq_some_iff.1 hr') rfl rfl
  · intro r hr hne
    have heq := h.iterate_eq hm (Option.join_eq_some_iff.1 hr) (by
      rintro ⟨_, ⟨⟩, hcut⟩
      exact hne hcut)
    congr 1
    ext1 <;> simp only [Traced.value_bind, Traced.calls_bind, heq]

end Run

/-- The report is of at most `n` iterations, and says that the cap was reached only after all of
them. -/
structure Report.Within (n : Nat) (r : Report α χ) : Prop where
  iterations : r.iterations ≤ n
  exceeded : r.status = .iterationExceeded → r.iterations = n

namespace Run

/-- The run ends, and keeps to a cap of `n` iterations. -/
structure Keeps (n : Nat) (run : Run α ι χ) : Prop where
  ends : run.value ≠ .error .unfinished
  within : ∀ r, run.value = .ok r → r.Within n

theorem Keeps.refuse (n : Nat) (e : Error α) : (Run.refuse e : Run α ι χ).Keeps n :=
  ⟨by simp [Run.refuse], by simp [Run.refuse]⟩

theorem Keeps.overflow (n : Nat) : (Run.overflow : Run α ι χ).Keeps n :=
  ⟨by simp [Run.overflow], by simp [Run.overflow]⟩

theorem Keeps.accepting {n : Nat} {input : Except (Error α) Unit} {run : Unit → Run α ι χ}
    (h : input = .ok () → (run ()).Keeps n) : (Run.accepting input run).Keeps n := by
  cases input with
  | ok => exact h rfl
  | error e => exact .refuse n e

theorem Keeps.ofIteration {n : Nat} {t : Traced ι (Option (Report α χ))}
    (h : ∃ r, t.value = some r ∧ r.Within n) : (Run.ofIteration t).Keeps n := by
  obtain ⟨r, hr, hw⟩ := h
  have hv := ofIteration_ok.2 hr
  constructor
  · rw [hv]
    exact nofun
  · intro r' hr'
    rw [hv] at hr'
    cases hr'
    exact hw

end Run

namespace Stopping

variable (c : Stopping α)

@[simp] theorem capReached_withMaxIterations (n i : Nat) :
    (c.withMaxIterations n).capReached i = decide (n ≤ i) := rfl

theorem capReached_mono {n n' : Nat} (h : n ≤ n') (i : Nat) :
    (c.withMaxIterations n).capReached i = true ∨
      (c.withMaxIterations n).capReached i = (c.withMaxIterations n').capReached i := by
  simp only [capReached_withMaxIterations, decide_eq_true_eq, decide_eq_decide]
  omega

def uncapped : Stopping α := { c with maxIterations := none }

variable [Scalar α]

theorem verdict_eq (i : Nat) (recent : List α) (norm : Option α) :
    c.verdict i recent norm = (c.uncapped.verdict i recent norm).or
      (if c.capReached i then some .iterationExceeded else none) := by
  have hg : c.uncapped.gradientSmall norm = c.gradientSmall norm := rfl
  have hv : c.uncapped.valueSettled recent = c.valueSettled recent := rfl
  have hp : c.uncapped.onPlateau recent = c.onPlateau recent := rfl
  simp only [verdict, hg, hv, hp]
  cases diverged recent <;> cases c.gradientSmall norm <;> cases c.valueSettled recent <;>
    cases c.onPlateau recent <;> rfl

theorem uncapped_verdict_ne (i : Nat) (recent : List α) (norm : Option α) :
    c.uncapped.verdict i recent norm ≠ some .iterationExceeded := by
  have hc : c.uncapped.capReached i = false := rfl
  simp only [verdict, hc, Bool.false_eq_true, if_false]
  repeat' split
  all_goals decide

theorem capReached_of_verdict {i : Nat} {recent : List α} {norm : Option α}
    (h : c.verdict i recent norm = some .iterationExceeded) : c.capReached i = true := by
  cases hc : c.capReached i with
  | true => rfl
  | false =>
    rw [verdict_eq, hc, if_neg Bool.false_ne_true, Option.or_none] at h
    exact absurd h (c.uncapped_verdict_ne i recent norm)

theorem not_capReached_of_verdict {i : Nat} {recent : List α} {norm : Option α}
    (h : c.verdict i recent norm = none) : ¬ c.capReached i = true := by
  intro hc
  rw [verdict_eq, if_pos hc] at h
  simp at h

theorem verdict_mono {n n' : Nat} (h : n ≤ n') (i : Nat) (recent : List α) (norm : Option α) :
    (c.withMaxIterations n).verdict i recent norm = some .iterationExceeded ∨
      (c.withMaxIterations n).verdict i recent norm =
        (c.withMaxIterations n').verdict i recent norm := by
  have hu : (c.withMaxIterations n).uncapped = (c.withMaxIterations n').uncapped := rfl
  rw [verdict_eq, verdict_eq (c.withMaxIterations n'), hu]
  cases (c.withMaxIterations n').uncapped.verdict i recent norm with
  | some status => exact .inr rfl
  | none =>
    obtain hc | hc := c.capReached_mono h i
    · exact .inl (if_pos hc)
    · exact .inr (by rw [hc])

omit [Scalar α] in
theorem iterate_ends {n : Nat} (hc : c.maxIterations = some n) {σ ρ : Type} {P : ρ → Prop}
    {step : σ → Traced ι (σ ⊕ ρ)} (iteration : σ → Nat)
    (next : ∀ t u, (step t).value = .inl u →
      iteration u = iteration t + 1 ∧ ¬ c.capReached (iteration t) = true)
    (last : ∀ t r, iteration t ≤ n → (step t).value = .inr r → P r)
    {s : σ} (hs : iteration s = 0) :
    ∃ r, (Traced.iterate step c.budget s).value = some r ∧ P r := by
  have hcap (i : Nat) : c.capReached i = true ↔ n ≤ i := by simp [hc]
  have hbudget : c.budget = n + 1 := by simp [budget, hc]
  refine Traced.iterate_ends (fun t => n - iteration t) (I := fun t => iteration t ≤ n) ?_ last
    (by omega) (by omega)
  intro t u ht hu
  obtain ⟨hi, hn⟩ := next t u hu
  rw [hcap] at hn
  omega

omit [Scalar α] in
theorem within_of_capReached {n : Nat} (hc : c.maxIterations = some n) {r : Report α χ}
    (hr : r.iterations ≤ n)
    (he : r.status = .iterationExceeded → c.capReached r.iterations = true) : r.Within n := by
  refine ⟨hr, fun h => Nat.le_antisymm hr ?_⟩
  simpa [hc] using he h

omit [Scalar α] in
theorem iterate_within {n : Nat} (hc : c.maxIterations = some n) {σ : Type}
    {step : σ → Traced ι (σ ⊕ Report α χ)} (iteration : σ → Nat)
    (next : ∀ t u, (step t).value = .inl u →
      iteration u = iteration t + 1 ∧ ¬ c.capReached (iteration t) = true)
    (last : ∀ t r, (step t).value = .inr r → r.iterations = iteration t ∧
      (r.status = .iterationExceeded → c.capReached (iteration t) = true))
    {s : σ} (hs : iteration s = 0) :
    ∃ r, (Traced.iterate step c.budget s).value = some r ∧ r.Within n := by
  refine c.iterate_ends hc iteration next ?_ hs
  intro t r ht hr
  obtain ⟨hi, he⟩ := last t r hr
  rw [← hi] at ht he
  exact c.within_of_capReached hc ht he

end Stopping

end Optima
