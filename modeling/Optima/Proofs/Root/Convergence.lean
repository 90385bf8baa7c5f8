import Optima.Proofs.Root.Newton
import Optima.Proofs.Scalar.Magnitude

/-!
What a run of Newton's iteration reports, in binary64 arithmetic. The value is the error at the
result, within the tolerance if the run ends normally; the result is finite just where no step
overflowed, and no step does as long as the errors are moderate for the slope tolerance.
-/

namespace Optima.Newton

open Binary64 (Within toRat)
open Traced (iterate path)

section

variable {α : Type} [Scalar α] {s : Newton α} {t : State α} {n : Nat} {r : Report α α}

theorem grows_of_iterate (h : (iterate s.round n t).value = some r) :
    t.iteration ≤ r.iterations ∧ ∀ e ∈ t.log, e ∈ r.convergence := by
  induction n generalizing t with
  | zero => cases h
  | succ n ih =>
    cases ht : (s.round t).value with
    | inl u =>
      obtain ⟨-, -, -, rfl⟩ := value_round_inl ht
      rw [Traced.iterate_succ_inl ht] at h
      obtain ⟨hle, hlog⟩ := ih h
      exact ⟨Nat.le_of_succ_le hle, fun e he => hlog e (List.mem_cons_of_mem _ he)⟩
    | inr q =>
      rw [Traced.iterate_succ_inr ht] at h
      cases h
      obtain ⟨-, -, hi, hlog, -⟩ := value_round_inr ht
      rw [hlog]
      exact ⟨hi.ge, fun e he => List.mem_reverse.2 (List.mem_cons_of_mem _ he)⟩

end

variable {s : Newton Float} {t : State Float} {n : Nat} {r : Report Float Float}

/-- The step from a point is too long for a number, or leads from the finite numbers. -/
def Overflows (s : Newton Float) (x : Float) : Prop :=
  (s.error x / (s.slope x).value.1).isFinite = false ∨
    x.isFinite = true ∧ (x - s.error x / (s.slope x).value.1).isFinite = false

theorem isFinite_step_iff (s : Newton Float) (x : Float) :
    (x - s.error x / (s.slope x).value.1).isFinite = true ↔
      x.isFinite = true ∧ ¬ s.Overflows x := by
  constructor
  · intro h
    obtain ⟨hx, hq⟩ := Binary64.isFinite_of_sub h
    refine ⟨hx, ?_⟩
    rintro (hq' | ⟨-, h'⟩)
    · rw [hq] at hq'
      cases hq'
    · rw [h] at h'
      cases h'
  · rintro ⟨hx, h⟩
    exact eq_true_of_ne_false fun hf => h (.inr ⟨hx, hf⟩)

theorem isFinite_result_iff (h : (iterate s.round n t).value = some r) :
    r.result.isFinite = true ↔ t.point.isFinite = true ∧
      ∀ u ∈ path s.round n t, ∀ v, (s.round u).value = .inl v → ¬ s.Overflows u.point := by
  induction n generalizing t with
  | zero => cases h
  | succ n ih =>
    cases ht : (s.round t).value with
    | inl u =>
      obtain ⟨-, -, -, hu⟩ := value_round_inl ht
      have hpoint : u.point.isFinite = true ↔ t.point.isFinite = true ∧ ¬ s.Overflows t.point := by
        rw [hu]
        exact s.isFinite_step_iff t.point
      rw [Traced.iterate_succ_inl ht] at h
      rw [ih h, hpoint, Traced.path_succ_inl ht, List.forall_mem_cons, and_assoc]
      simp [ht]
    | inr q =>
      rw [Traced.iterate_succ_inr ht] at h
      cases h
      rw [(value_round_inr ht).1, Traced.path_succ_inr ht, List.forall_mem_singleton]
      simp [ht]

theorem within_point (hc : 0 ≤ s.config.slopeTolerance)
    (h : (iterate s.round n t).value = some r)
    (herror : ∀ e ∈ r.convergence, |toRat e.value| ≤ 2 ^ 970 * toRat s.config.slopeTolerance)
    (hr : r.iterations < 2 ^ 52) (ht : Within (2 ^ 52 + t.iteration) t.point) :
    Within (2 ^ 52 + r.iterations) r.result := by
  induction n generalizing t with
  | zero => cases h
  | succ n ih =>
    cases hround : (s.round t).value with
    | inl u =>
      obtain ⟨hearly, hfinite, hsteep, hu⟩ := value_round_inl hround
      rw [Traced.iterate_succ_inl hround] at h
      obtain ⟨hle, hlog⟩ := grows_of_iterate h
      have hentry : |toRat (s.error t.point)| ≤ 2 ^ 970 * toRat s.config.slopeTolerance := by
        refine herror ⟨t.iteration, s.error t.point⟩ (hlog _ ?_)
        rw [hu]
        exact List.mem_cons_self
      have hiteration : u.iteration = t.iteration + 1 := by rw [hu]
      have hstep := Binary64.within_div (early?_eq_none hearly).1 hfinite hc hsteep hentry
      refine ih h ?_
      have hpoint := ht.sub hstep (by omega)
      rw [hu]
      exact hpoint
    | inr q =>
      rw [Traced.iterate_succ_inr hround] at h
      cases h
      obtain ⟨hresult, -, hiteration, -⟩ := value_round_inr hround
      rw [hresult, hiteration]
      exact ht

theorem Config.slopeTolerance_nonneg {c : Config Float} (h : c.check = .ok ()) :
    0 ≤ c.slopeTolerance := by
  simp only [check, Requirement.check_bind_eq_ok] at h
  obtain ⟨-, -, hslope, -⟩ := h
  simpa [Requirement.holds] using hslope

/-- A run reports the error at its result, which is within the tolerance if the run ends normally.
The result is finite just where no step that the run takes overflows. None does if the errors are
at most `2 ^ 970` times the slope tolerance, from a start up to `2 ^ 1022`. -/
theorem result_finite_iff {s : Newton Float} (hc : s.config.check = .ok ()) {n : Nat}
    {start : Float} {r : Report Float Float} (hr : (s.runWithin n start).value = .ok r) :
    r.value = s.function r.result - s.config.target ∧
    (r.status = .normal → r.value.isFinite = true ∧ r.value.abs ≤ s.config.tolerance) ∧
    (r.result.isFinite = true ↔ ∀ t ∈ path s.round n (.initial start), ∀ u,
      (s.round t).value = .inl u → ¬ s.Overflows t.point) ∧
    ((∀ e ∈ r.convergence, |toRat e.value| ≤ 2 ^ 970 * toRat s.config.slopeTolerance) →
      |toRat start| ≤ 2 ^ 1022 → r.iterations < 2 ^ 52 → r.result.isFinite = true) := by
  obtain ⟨hstart, hiterate⟩ := iterate_of_runWithin hr
  obtain ⟨t, -, ht⟩ := Traced.exists_mem_path hiterate
  obtain ⟨hresult, hvalue, -⟩ := value_round_inr ht
  refine ⟨by rw [hvalue, hresult, error], ?_, ?_, ?_⟩
  · intro hn
    have hend := ends_of_round ht
    rw [hn] at hend
    rw [hvalue]
    exact hend
  · exact (isFinite_result_iff hiterate).trans (and_iff_right hstart)
  · intro herror hs hi
    have hwithin : Within (2 ^ 52 + (State.initial start : State Float).iteration) start := by
      rw [show (State.initial start : State Float).iteration = 0 from rfl, Nat.add_zero]
      exact Binary64.within_of_le hstart hs
    exact (within_point (Config.slopeTolerance_nonneg hc) hiterate herror hi hwithin).1

def line : Newton Float where
  function x := 2 * x
  derivative := some fun _ => 2
  config := { Config.standard with slopeTolerance := 1 }

theorem line_run : (line.run 1).value = .ok ⟨0, 0, .normal, 1, 2, [⟨0, 2⟩, ⟨1, 0⟩]⟩ := by
  decide +kernel

theorem line_result : line.config.check = .ok () ∧ (0 : Float).abs ≤ line.config.tolerance ∧
    (0 : Float).isFinite = true := by
  have hc : line.config.check = .ok () := by decide +kernel
  obtain ⟨-, hnormal, -, hfinite⟩ := result_finite_iff hc line_run
  refine ⟨hc, (hnormal rfl).2, hfinite ?_ ?_ (by decide)⟩
  · have htwo : toRat 2 = 2 := (Binary64.toRat_ofNat (n := 2) (by norm_num)).2
    have hone : toRat line.config.slopeTolerance = 1 := Binary64.toRat_one
    have hpow : (2 : ℚ) ≤ 2 ^ 970 := le_self_pow₀ one_le_two (by decide)
    simp only [List.forall_mem_cons, htwo, hone, Binary64.toRat_zero, mul_one, abs_two, abs_zero]
    exact ⟨hpow, zero_le_two.trans hpow, by simp⟩
  · rw [Binary64.toRat_one, abs_one]
    exact one_le_pow₀ one_le_two

def ramp : Newton Float where
  function x := if 0 < 1e300 - 1e-9 * x then 1e300 - 1e-9 * x else 0
  derivative := some fun _ => -1e-9
  config := .standard

theorem ramp_run : (ramp.run 0).value =
    .ok ⟨Scalar.infinity, 0, .normal, 1, 2, [⟨0, 1e300⟩, ⟨1, 0⟩]⟩ := by
  decide +kernel

theorem converged_at_infinity :
    ¬ ∀ (s : Newton Float) (start : Float) (r : Report Float Float), s.config.check = .ok () →
      start.isFinite = true → (s.run start).value = .ok r → r.status = .normal →
      r.result.isFinite = true ∧ r.value = s.function r.result - s.config.target ∧
        r.value.abs ≤ s.config.tolerance := by
  intro h
  obtain ⟨hfinite, -⟩ := h ramp 0 _ (by decide +kernel) (by decide) ramp_run rfl
  exact absurd hfinite (by decide)

end Optima.Newton
