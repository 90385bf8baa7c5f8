import Mathlib.RingTheory.Polynomial.SmallDegreeVieta
import Optima.Proofs.Root.Newton
import Optima.Proofs.Scalar.Exact

namespace Optima

open Traced (iterate path)

def Report.charged {α χ : Type} (r : Report α χ) (k : Nat) : Report α χ :=
  { r with evaluations := r.evaluations + k }

namespace Newton

variable {α : Type}

def State.charged (t : State α) (k : Nat) : State α := { t with evaluations := t.evaluations + k }

variable [Scalar α]

def withoutDerivative (s : Newton α) : Newton α := { s with derivative := none }

/-- The number of slopes that a run computes: one at each state where the error does not end it. -/
def slopes (s : Newton α) (n : Nat) (start : α) : Nat :=
  (path s.round n (.initial start)).countP fun t => (s.early? t).isNone

theorem descend_charged (s : Newton α) (t : State α) (slope : α) (k m : Nat) :
    s.descend (t.charged k) (slope, m) =
      (s.descend t (slope, 0)).map (·.charged (k + m)) (·.charged (k + m)) := by
  have hcount : (t.charged k).evaluations + 1 + m = t.evaluations + 1 + 0 + (k + m) := by
    simp only [State.charged]
    omega
  unfold descend
  dsimp only
  rw [hcount]
  split
  · rfl
  split
  · rfl
  · rfl

theorem finish_charged (s : Newton α) (t : State α) (error : α) (status : Status) (k : Nat) :
    ((t.charged k).called s).finish error status =
      ((t.called s).finish error status).charged k := by
  have hcount : (t.charged k).evaluations + 1 = t.evaluations + 1 + k := by
    simp only [State.charged]
    omega
  simp only [State.finish, State.called, hcount]
  rfl

section

variable {s : Newton α} {d : α → α} (hd : s.derivative = some d)
  (hexact : ∀ x, (Difference.derivative s.function x s.config.derivativeStep).value = d x)

include hd hexact

theorem value_round_withoutDerivative (t : State α) (k : Nat) :
    (s.withoutDerivative.round (t.charged k)).value = (s.round t).value.map
      (·.charged (k + if (s.early? t).isNone then 2 else 0))
      (·.charged (k + if (s.early? t).isNone then 2 else 0)) := by
  have hearly : s.withoutDerivative.early? (t.charged k) = s.early? t := rfl
  have hslope : (s.slope t.point).value = (d t.point, 0) := by
    rw [slope, hd]
    rfl
  have hblind : (s.withoutDerivative.slope (t.charged k).point).value = (d t.point, 2) :=
    congrArg (·, 2) (hexact t.point)
  rw [value_round, value_round, hearly, hslope, hblind]
  cases s.early? t with
  | none => exact s.descend_charged t (d t.point) k 2
  | some status => exact congrArg Sum.inr (s.finish_charged t _ status k)

theorem value_iterate_withoutDerivative (n : Nat) (t : State α) (k : Nat) :
    (iterate s.withoutDerivative.round n (t.charged k)).value = (iterate s.round n t).value.map
      (·.charged (k + 2 * (path s.round n t).countP fun u => (s.early? u).isNone)) := by
  induction n generalizing t k with
  | zero => rfl
  | succ n ih =>
    have hround := value_round_withoutDerivative hd hexact t k
    have hcount (m : Nat) : k + 2 * (m + if (s.early? t).isNone then 1 else 0) =
        k + (if (s.early? t).isNone then 2 else 0) + 2 * m := by split <;> omega
    cases ht : (s.round t).value with
    | inl u =>
      rw [ht, Sum.map_inl] at hround
      rw [Traced.iterate_succ_inl hround, Traced.iterate_succ_inl ht, Traced.path_succ_inl ht, ih,
        List.countP_cons, hcount]
    | inr r =>
      rw [ht, Sum.map_inr] at hround
      rw [Traced.iterate_succ_inr hround, Traced.iterate_succ_inr ht, Traced.path_succ_inr ht,
        List.countP_cons, hcount]
      rfl

theorem value_runWithin_withoutDerivative (n : Nat) (start : α) :
    (s.withoutDerivative.runWithin n start).value =
      (s.runWithin n start).value.map (·.charged (2 * s.slopes n start)) := by
  have hiterate := value_iterate_withoutDerivative hd hexact n (.initial start) 0
  have hstart : (State.initial start).charged 0 = State.initial start := rfl
  rw [hstart, Nat.zero_add] at hiterate
  unfold runWithin slopes
  cases demand (Scalar.isFinite start) (Error.startNotFinite start) with
  | error e => rfl
  | ok =>
    rw [Run.accepting_ok, Run.accepting_ok, Run.ofIteration, Run.ofIteration, hiterate]
    cases (iterate s.round n (.initial start)).value <;> rfl

end

end Newton

open Polynomial

theorem central_difference_quadratic {p : ℝ[X]} (hp : p.degree ≤ 2) {h : ℝ} (hh : h ≠ 0) (x : ℝ) :
    (p.eval (x + h) - p.eval (x - h)) / (2 * h) = p.derivative.eval x := by
  rw [eq_quadratic_of_degree_le_two hp]
  simp only [eval_add, eval_mul, eval_C, eval_pow, eval_X, derivative_mul,
    derivative_C, zero_mul, derivative_X_pow_succ, Nat.cast_one, map_add, map_one, pow_one,
    zero_add, derivative_X, mul_one, add_zero, eval_one]
  field_simp
  ring

theorem Difference.stepAt_pos {eps : ℝ} (h : 0 < eps) (x : ℝ) : 0 < stepAt x eps := by
  unfold stepAt
  split
  · next hx =>
    rw [Exact.literal_one, Exact.abs_eq] at hx
    exact mul_pos (one_pos.trans hx) h
  · exact h

theorem Difference.derivative_quadratic {p : ℝ[X]} (hp : p.degree ≤ 2) {eps : Option ℝ}
    (heps : 0 < eps.getD centralStep) (x : ℝ) :
    (derivative (fun x => p.eval x) x eps).value = p.derivative.eval x := by
  rw [← central_difference_quadratic hp (stepAt_pos heps x).ne' x]
  have htwo : @OfNat.ofNat ℝ 2 (Scalar.instOfNat 2) = 2 := Nat.cast_ofNat
  change _ / (@OfNat.ofNat ℝ 2 (Scalar.instOfNat 2) * _) = _
  rw [htwo]
  rfl

namespace Newton

theorem Config.derivativeStep_pos {c : Config ℝ} (h : c.check = .ok ()) :
    0 < c.derivativeStep.getD Difference.centralStep := by
  cases hs : c.derivativeStep with
  | none =>
    change (0 : ℝ) < 6.06e-6
    norm_num
  | some step =>
    simp only [check, hs, Requirement.check_bind_eq_ok, Requirement.holds] at h
    obtain ⟨-, -, -, hstep, -⟩ := h
    simpa using hstep

theorem countP_path {s : Newton ℝ} {n : Nat} {t : State ℝ} {r : Report ℝ ℝ}
    (hr : (iterate s.round n t).value = some r) :
    t.iteration + (path s.round n t).countP (fun u => (s.early? u).isNone) =
      r.iterations + if r.status = .badFunction then 1 else 0 := by
  induction n generalizing t with
  | zero => cases hr
  | succ n ih =>
    cases ht : (s.round t).value with
    | inl u =>
      obtain ⟨hearly, -, -, hu⟩ := value_round_inl ht
      have hiteration : u.iteration = t.iteration + 1 := by rw [hu]
      rw [Traced.iterate_succ_inl ht] at hr
      have hrest := ih hr
      rw [hiteration] at hrest
      rw [Traced.path_succ_inl ht, List.countP_cons_of_pos (by rw [hearly]; rfl)]
      omega
    | inr q =>
      rw [Traced.iterate_succ_inr ht] at hr
      cases hr
      obtain ⟨-, -, hiteration, -, hearly | ⟨hearly, ⟨hf, -⟩ | ⟨-, hs⟩⟩⟩ := value_round_inr ht
      · have hne : r.status ≠ .badFunction := by
          obtain ⟨-, hs⟩ | ⟨-, ⟨-, hs⟩ | ⟨-, hs⟩⟩ := early?_cases hearly <;> rw [hs] <;> decide
        rw [Traced.path_succ_inr ht,
          List.countP_cons_of_neg (by rw [hearly]; exact Bool.false_ne_true), if_neg hne,
          hiteration]
        rfl
      · cases hf
      · rw [Traced.path_succ_inr ht, List.countP_cons_of_pos (by rw [hearly]; rfl), if_pos hs,
          hiteration]
        rfl

theorem slopes_eq {s : Newton ℝ} {n : Nat} {start : ℝ} {r : Report ℝ ℝ}
    (hr : (s.runWithin n start).value = .ok r) :
    s.slopes n start = r.iterations + if r.status = .badFunction then 1 else 0 := by
  have h := countP_path (iterate_of_runWithin hr).2
  rwa [State.initial, Nat.zero_add] at h

/-- Without the derivative of a polynomial of degree at most two a run goes the same way, and only
makes two more evaluations for each slope that it computes, one at every step and one where it ends
for a flat slope. -/
theorem runs_agree_on_quadratics {p : ℝ[X]} (hp : p.degree ≤ 2) {s : Newton ℝ}
    (hf : s.function = fun x => p.eval x)
    (hd : s.derivative = some fun x => p.derivative.eval x) (hc : s.config.check = .ok ()) (n : Nat)
    (start : ℝ) :
    (s.withoutDerivative.runWithin n start).value =
      (s.runWithin n start).value.map (·.charged (2 * s.slopes n start)) ∧
    ∀ r, (s.runWithin n start).value = .ok r →
      s.slopes n start = r.iterations + if r.status = .badFunction then 1 else 0 := by
  refine ⟨value_runWithin_withoutDerivative hd ?_ n start, fun r => slopes_eq⟩
  rw [hf]
  exact Difference.derivative_quadratic hp (Config.derivativeStep_pos hc)

noncomputable def rootless : Newton ℝ where
  function x := (X ^ 2 + 1 : ℝ[X]).eval x
  derivative := some fun x => (X ^ 2 + 1 : ℝ[X]).derivative.eval x
  config := .standard

theorem rootless_check : rootless.config.check = .ok () := by
  simp only [rootless, Config.check, Config.standard, Stopping.check, Stopping.afterIterations,
    Stopping.checkTolerance, Requirement.check_bind_eq_ok, Requirement.holds, Exact.literal_zero,
    Exact.literal_scientific, Exact.isFinite_eq, decide_eq_true_eq]
  exact ⟨trivial, by norm_num, by norm_num, rfl⟩

theorem rootless_error (x : ℝ) : rootless.error x = x ^ 2 + 1 := by
  simp [error, rootless, Config.standard]

theorem rootless_round {t : State ℝ} (h : t.iteration < 100) :
    (rootless.round t).value = rootless.descend t (2 * t.point, 0) := by
  have hslope : (rootless.slope t.point).value = (2 * t.point, 0) := by
    simp [slope, rootless, one_add_one_eq_two]
  have hlarge : ¬ |t.point ^ 2 + 1| ≤ (1e-10 : ℝ) := by
    rw [not_le, abs_of_pos (by positivity)]
    calc (1e-10 : ℝ) < 1 := by norm_num
      _ ≤ t.point ^ 2 + 1 := le_add_of_nonneg_left (sq_nonneg _)
  have hcap : rootless.config.stopping.capReached t.iteration = false := by
    rw [← Bool.not_eq_true, Stopping.capReached_iff]
    rintro ⟨n, hn, hle⟩
    cases hn
    omega
  have hearly : rootless.early? t = none := by
    simp only [early?, rootless_error, hcap]
    exact if_neg hlarge
  rw [value_round, hearly, hslope]
  rfl

theorem rootless_run : (rootless.runWithin 2 1).value =
    .ok ⟨0, 1, .badFunction, 1, 2, [⟨0, 2⟩, ⟨1, 1⟩]⟩ := by
  have hfirst : (rootless.round (.initial 1)).value = .inl ⟨0, 1, 1, [⟨0, 2⟩]⟩ := by
    have hsteep : ¬ |2 * (1 : ℝ)| ≤ (1e-14 : ℝ) := by norm_num
    have herror : rootless.error 1 = 2 := by norm_num [rootless_error]
    have hpoint : 1 - 2 / (2 * 1 : ℝ) = 0 := by norm_num
    rw [rootless_round (by decide), descend]
    refine (if_neg Bool.false_ne_true).trans ((if_neg hsteep).trans ?_)
    simp only [State.called, State.initial, herror, hpoint]
  have hsecond : (rootless.round ⟨0, 1, 1, [⟨0, 2⟩]⟩).value =
      .inr ⟨0, 1, .badFunction, 1, 2, [⟨0, 2⟩, ⟨1, 1⟩]⟩ := by
    have hflat : |2 * (0 : ℝ)| ≤ (1e-14 : ℝ) := by norm_num
    have herror : rootless.error 0 = 1 := by norm_num [rootless_error]
    rw [rootless_round (by decide), descend]
    refine (if_neg Bool.false_ne_true).trans ((if_pos hflat).trans ?_)
    simp only [State.called, herror]
    rfl
  change Run.conclude (iterate rootless.round 2 (.initial 1)).value = _
  rw [Traced.iterate_succ_inl hfirst, Traced.iterate_succ_inr hsecond]
  rfl

theorem rootless_agrees : (X ^ 2 + 1 : ℝ[X]).degree ≤ 2 ∧ rootless.config.check = .ok () ∧
    (rootless.withoutDerivative.runWithin 2 1).value =
      .ok ⟨0, 1, .badFunction, 1, 6, [⟨0, 2⟩, ⟨1, 1⟩]⟩ := by
  have hp : (X ^ 2 + 1 : ℝ[X]).degree ≤ 2 := by compute_degree
  obtain ⟨hruns, hslopes⟩ := runs_agree_on_quadratics hp (s := rootless) rfl rfl rootless_check 2 1
  refine ⟨hp, rootless_check, ?_⟩
  rw [hruns, hslopes _ rootless_run, rootless_run]
  rfl

end Newton

end Optima
