import Optima.Descent.Run

namespace Optima.Descent

variable {α : Type} [Scalar α]

def function (s : Descent α) : LineFunction α :=
  (s.objective.oriented s.config.goal).lineFunction s.config.differenceStep

def advance (s : Descent α) (t : Trail α) : Progress × State α :=
  (step s.config (s.objective.oriented s.config.goal) t.state).value

/-- The trail with the calls of the iteration from it counted. -/
def counted (s : Descent α) (t : Trail α) : Trail α :=
  { t with evaluations := t.evaluations +
      (step s.config (s.objective.oriented s.config.goal) t.state).calls.length }

@[simp] theorem counted_state (s : Descent α) (t : Trail α) : (s.counted t).state = t.state := rfl

@[simp] theorem counted_iteration (s : Descent α) (t : Trail α) :
    (s.counted t).iteration = t.iteration := rfl

@[simp] theorem counted_values (s : Descent α) (t : Trail α) :
    (s.counted t).values = t.values := rfl

@[simp] theorem counted_log (s : Descent α) (t : Trail α) : (s.counted t).log = t.log := rfl

/-- The trails that a run from `x` passes through, one for each iterate. -/
inductive Passes (s : Descent α) (x : Vec α) : Trail α → Prop
  | initial : Passes s x (s.initial x).value
  | moved {t : Trail α} {u : State α} : Passes s x t → t.verdict s.config = none →
      s.advance t = (.moved, u) → Passes s x ((s.counted t).extend s.config u)

inductive Ends (s : Descent α) (x : Vec α) : Report α (Vec α) → Prop
  | stopped {t : Trail α} {status : Status} : s.Passes x t →
      t.verdict s.config = some status → Ends s x (t.report s.config status)
  | stalled {t : Trail α} {u : State α} : s.Passes x t → t.verdict s.config = none →
      s.advance t = (.stalled, u) →
      Ends s x (Trail.report s.config { s.counted t with state := u } .stationaryFunction)
  | failed {t : Trail α} {u : State α} {status : Status} : s.Passes x t →
      t.verdict s.config = none → s.advance t = (.failed status, u) →
      Ends s x (Trail.report s.config { s.counted t with state := u } status)

variable {s : Descent α} {x : Vec α}

def origin (s : Descent α) (x : Vec α) : Iterate α :=
  let o := s.objective.oriented s.config.goal
  let y := clipTo s.config.box x
  ⟨y, o.value y, if Scalar.isFinite (o.value y) then
    (s.function.gradient y (o.value y)).value else []⟩

theorem initial_value (s : Descent α) (x : Vec α) :
    (s.initial x).value =
      ⟨⟨s.origin x, none, Mat.identity (s.origin x).point.length⟩, 0,
        (s.initial x).calls.length, [(s.origin x).value], []⟩ := by
  simp only [initial, Traced.value_bind, Traced.calls_bind]
  by_cases h : Scalar.isFinite ((s.objective.oriented s.config.goal).value
    (clipTo s.config.box x)) = true
  · simp [h, origin, function, Nat.add_comm]
  · simp [h, origin]

theorem round_value (s : Descent α) (t : Trail α) :
    (round s.config (s.objective.oriented s.config.goal) t).value =
      match s.advance t with
      | (.stalled, u) => .inr ({ s.counted t with state := u }, .stationaryFunction)
      | (.failed status, u) => .inr ({ s.counted t with state := u }, status)
      | (.moved, u) =>
        match ((s.counted t).extend s.config u).verdict s.config with
        | some status => .inr ((s.counted t).extend s.config u, status)
        | none => .inl ((s.counted t).extend s.config u) := by
  simp only [round, Traced.value_bind, Traced.value_metered, advance, counted]
  generalize step s.config (s.objective.oriented s.config.goal) t.state = w
  obtain ⟨⟨_ | _ | status, u⟩, calls⟩ := w
  · dsimp only
    cases (Trail.extend s.config _ u).verdict s.config <;> rfl
  · rfl
  · rfl

theorem trace_value (s : Descent α) (n : Nat) (x : Vec α) :
    (s.trace n x).value =
      match (s.initial x).value.verdict s.config with
      | some status => some ((s.initial x).value.report s.config status)
      | none =>
        (Traced.iterate (round s.config (s.objective.oriented s.config.goal)) n
          (s.initial x).value).value.map fun r => r.1.report s.config r.2 := by
  simp only [trace, Traced.value_bind]
  generalize ht : (s.initial x).value = t
  split
  · cases t.verdict s.config <;> rfl
  · next hf =>
    have hd : Stopping.diverged t.values = true := by
      subst ht
      simpa [initial_value, Stopping.diverged] using hf
    have hv : t.verdict s.config = some .diverged := by
      simp only [Trail.verdict, Stopping.verdict, hd]
      split <;> rfl
    rw [hv]
    rfl

theorem passes_of_reaches {t : Trail α}
    (h0 : (s.initial x).value.verdict s.config = none)
    (h : Traced.Reaches (round s.config (s.objective.oriented s.config.goal))
      (s.initial x).value t) : s.Passes x t ∧ t.verdict s.config = none := by
  induction h with
  | refl => exact ⟨.initial, h0⟩
  | @tail t u _ hu ih =>
    rw [round_value] at hu
    split at hu
    · cases hu
    · cases hu
    · next v hv =>
      split at hu
      · cases hu
      · next hn =>
        cases hu
        exact ⟨.moved ih.1 ih.2 hv, hn⟩

theorem ends_of_trace {n : Nat} {r : Report α (Vec α)} (h : (s.trace n x).value = some r) :
    s.Ends x r := by
  rw [trace_value] at h
  split at h
  · next hv =>
    cases h
    exact .stopped .initial hv
  · next h0 =>
    obtain ⟨⟨t, status⟩, hi, rfl⟩ := Option.map_eq_some_iff.1 h
    obtain ⟨t', ht', he⟩ := Traced.exists_reaches_of_iterate hi
    obtain ⟨hp, hv⟩ := passes_of_reaches h0 ht'
    rw [round_value] at he
    split at he
    · next hs =>
      cases he
      exact .stalled hp hv hs
    · next hf =>
      cases he
      exact .failed hp hv hf
    · next hm =>
      split at he
      · next hu =>
        cases he
        exact .stopped (.moved hp hv hm) hu
      · cases he

theorem ends_of_runWithin {n : Nat} {r : Report α (Vec α)}
    (h : (s.runWithin n x).value = .ok r) :
    (s.trace n x).value = some r ∧ (s.runWithin n x).calls = (s.trace n x).calls ∧
      s.Ends x r := by
  cases hc : s.checkStart x with
  | error e =>
    rw [runWithin, hc] at h
    cases h
  | ok =>
    rw [runWithin, hc, Run.accepting_ok] at h ⊢
    cases ht : (s.trace n x).value with
    | none => simp [Run.ofIteration, ht, Run.conclude] at h
    | some r' =>
      simp only [Run.ofIteration, ht, Run.conclude, Except.ok.injEq] at h
      subst h
      exact ⟨rfl, rfl, ends_of_trace ht⟩

theorem Trail.verdict_ne_badFunction (c : Config α) (t : Trail α) :
    t.verdict c ≠ some .badFunction := by
  unfold verdict Stopping.verdict
  dsimp only
  repeat' split
  all_goals decide

theorem Passes.values_eq {t : Trail α} (ht : s.Passes x t) :
    ∃ vs, t.values = t.state.iterate.value :: vs := by
  cases ht with
  | initial => exact ⟨[], by rw [initial_value]⟩
  | @moved t => exact ⟨t.values, rfl⟩

theorem Passes.headD_values {t : Trail α} (ht : s.Passes x t) :
    t.values.headD Scalar.nan = t.state.iterate.value := by
  obtain ⟨vs, hvs⟩ := ht.values_eq
  rw [hvs, List.headD_cons]

theorem Passes.isFinite_value {t : Trail α} (ht : s.Passes x t)
    (hv : t.verdict s.config = none) : Scalar.isFinite t.state.iterate.value = true := by
  obtain ⟨vs, hvs⟩ := ht.values_eq
  rw [Trail.verdict] at hv
  split at hv
  · by_cases h : Scalar.isFinite t.state.iterate.value = true
    · exact h
    · simp [Stopping.verdict, hvs, Stopping.diverged, h] at hv
  · cases hv

theorem Passes.invariant {P : State α → Prop}
    (h0 : Scalar.isFinite (s.origin x).value = true → P (s.initial x).value.state)
    (hs : ∀ t : Trail α, P t.state → P (s.advance t).2) {t : Trail α} (ht : s.Passes x t)
    (hf : Scalar.isFinite t.state.iterate.value = true) : P t.state := by
  induction ht with
  | initial =>
    apply h0
    rwa [initial_value] at hf
  | @moved t u ht hv hu ih =>
    have h := hs t (ih (ht.isFinite_value hv))
    rwa [hu] at h

theorem Passes.initial_verdict {t : Trail α} (ht : s.Passes x t)
    (hv : t.verdict s.config = none) : (s.initial x).value.verdict s.config = none := by
  induction ht with
  | initial => exact hv
  | moved _ hv' _ ih => exact ih hv'

theorem Passes.iterate {n : Nat} {t : Trail α} {r : Trail α × Status} (ht : s.Passes x t)
    (hv : t.verdict s.config = none)
    (h : (Traced.iterate (round s.config (s.objective.oriented s.config.goal)) n
      (s.initial x).value).value = some r) :
    ∃ m, (Traced.iterate (round s.config (s.objective.oriented s.config.goal)) m t).value =
      some r := by
  induction ht with
  | initial => exact ⟨n, h⟩
  | @moved t u _ hv' hu ih =>
    obtain ⟨m, hm⟩ := ih hv'
    cases m with
    | zero => cases hm
    | succ m =>
      have hr : (round s.config (s.objective.oriented s.config.goal) t).value =
          .inl ((s.counted t).extend s.config u) := by
        simp only [round_value, hu, hv]
      rw [Traced.iterate_succ_inl hr] at hm
      exact ⟨m, hm⟩

theorem Passes.report_eq {n : Nat} {t : Trail α} {r : Report α (Vec α)} {r' : Trail α × Status}
    (ht : s.Passes x t) (hv : t.verdict s.config = none)
    (hr : (round s.config (s.objective.oriented s.config.goal) t).value = .inr r')
    (h : (s.trace n x).value = some r) : r = r'.1.report s.config r'.2 := by
  simp only [trace_value, ht.initial_verdict hv] at h
  obtain ⟨q, hq, rfl⟩ := Option.map_eq_some_iff.1 h
  obtain ⟨m, hm⟩ := ht.iterate hv hq
  cases m with
  | zero => cases hm
  | succ m =>
    rw [Traced.iterate_succ_inr hr] at hm
    cases hm
    rfl

theorem Ends.eq {n : Nat} {r r' : Report α (Vec α)} (h : s.Ends x r')
    (hr : (s.trace n x).value = some r) : r = r' := by
  cases h with
  | @stopped t status ht hv =>
    cases ht with
    | initial =>
      simp only [trace_value, hv] at hr
      cases hr
      rfl
    | moved ht hv' hu => exact ht.report_eq hv' (by simp only [round_value, hu, hv]; rfl) hr
  | stalled ht hv hu => exact ht.report_eq hv (by simp only [round_value, hu]; rfl) hr
  | failed ht hv hu => exact ht.report_eq hv (by simp only [round_value, hu]; rfl) hr

end Optima.Descent
