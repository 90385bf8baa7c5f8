import Optima.Proofs.Linear.Matrix
import Optima.Proofs.LineSearch.Grid

namespace Optima.LineSearch

variable {f : LineFunction ℝ} {x d : Vec ℝ}

/-- Where every step within a bound is accepted, halving comes to an accepted step that is the first
one or longer than half of the bound. -/
theorem backtrack_halves {value : ℝ} {accept : ℝ → ℝ → Bool} {n k : ℕ} {first bound : ℝ}
    (hpos : 0 < first) (haccept : ∀ a, 0 < a → a ≤ first → a ≤ bound →
      accept (f.value (Vec.along x d a)) a = true) (hk : k < n) (hbound : first / 2 ^ k ≤ bound) :
    ∃ a, (backtrack f x d value accept n first).value = .tried f x d a ∧
      accept (f.value (Vec.along x d a)) a = true ∧ 0 < a ∧ a ≤ first ∧
      min first (bound / 2) ≤ a := by
  induction n generalizing first k with
  | zero => exact absurd hk (Nat.not_lt_zero k)
  | succ n ih =>
    by_cases h : accept (f.value (Vec.along x d first)) first = true
    · refine ⟨first, ?_, h, hpos, le_rfl, min_le_left _ _⟩
      simp only [backtrack, Traced.value_bind, Traced.value_call, h, if_true]
      rfl
    · have hhalf : first * halving = first / 2 := by
        rw [halving, Exact.literal_scientific]
        norm_num
        ring
      have hlong : bound < first := by
        by_contra hle
        exact h (haccept first hpos le_rfl (not_lt.1 hle))
      cases k with
      | zero =>
        rw [pow_zero, div_one] at hbound
        exact absurd hbound hlong.not_ge
      | succ k =>
        obtain ⟨a, ha, hacc, ha0, hale, hmin⟩ := ih (k := k) (half_pos hpos)
          (fun a ha0 hale => haccept a ha0 (hale.trans (half_le_self hpos.le)))
          (Nat.lt_of_succ_lt_succ hk) (by rwa [div_div, ← pow_succ'])
        have hnext : (backtrack f x d value accept (n + 1) first).value =
            (backtrack f x d value accept n (first / 2)).value := by
          simp only [backtrack, Traced.value_bind, Traced.value_call, h, hhalf,
            Bool.false_eq_true, if_false]
        refine ⟨a, hnext.trans ha, hacc, ha0, hale.trans (half_le_self hpos.le), ?_⟩
        rw [min_eq_right (by linarith)] at hmin
        exact (min_le_right _ _).trans hmin

/-- The search for a sufficient decrease succeeds on a function that a parabola bounds from above,
if one of its steps is short enough for the parabola: its step is the first one, or longer than half
of what the parabola allows. -/
theorem armijo_succeeds {c : LineSearch ℝ} {g : Vec ℝ} {s K : ℝ} (hm : c.method = .armijo)
    (hfirst : 0 < c.limit c.initialStep) (hslope : Vec.dot g d = -s) (hs : 0 < s) (hK : 0 < K)
    (hsmooth : ∀ a, 0 < a → a ≤ c.limit c.initialStep →
      f.value (Vec.along x d a) ≤ f.value x - a * s + K / 2 * a ^ 2)
    {k : ℕ} (hk : k < c.maxIterations)
    (hstep : c.limit c.initialStep / 2 ^ k ≤ 2 * (1 - c.c1) * s / K) :
    ∃ a, (c.search f x d (f.value x) g).value = .tried f x d a ∧ 0 < a ∧
      min (c.limit c.initialStep) ((1 - c.c1) * s / K) ≤ a ∧
      f.value (Vec.along x d a) ≤ f.value x - c.c1 * a * s := by
  have hneg : Vec.dot g d < 0 := by linarith
  have haccept : ∀ a, 0 < a → a ≤ c.limit c.initialStep → a ≤ 2 * (1 - c.c1) * s / K →
      c.sufficient (f.value x) (Vec.dot g d) (f.value (Vec.along x d a)) a = true := by
    intro a ha hle hbound
    rw [le_div_iff₀ hK] at hbound
    have hquadratic : K / 2 * a ^ 2 ≤ (1 - c.c1) * s * a :=
      calc K / 2 * a ^ 2 = a * K * (a / 2) := by ring
        _ ≤ 2 * (1 - c.c1) * s * (a / 2) := mul_le_mul_of_nonneg_right hbound (half_pos ha).le
        _ = (1 - c.c1) * s * a := by ring
    have hvalue := hsmooth a ha hle
    simp only [sufficient, decide_eq_true_eq, hslope]
    linarith
  obtain ⟨a, hsearch, hacc, ha, -, hmin⟩ := backtrack_halves hfirst haccept hk hstep
  refine ⟨a, ?_, ha, ?_, ?_⟩
  · have hneg' : Vec.dot g d < @OfNat.ofNat ℝ 0 (Scalar.instOfNat 0) := by
      rwa [Exact.literal_zero]
    simp only [search, hm, Vec.isZero_of_dot_neg hneg, if_pos hneg', Bool.false_eq_true, if_false]
    exact hsearch
  · convert hmin using 2
    ring
  · simp only [sufficient, decide_eq_true_eq, hslope] at hacc
    linarith

noncomputable def square : LineFunction ℝ where
  value x := x.getD 0 0 ^ 2
  gradient x _ := pure (x.map (2 * ·))

theorem square_along (a : ℝ) :
    square.value (Vec.along [1] [-4] a) = square.value [1] - a * 8 + 32 / 2 * a ^ 2 := by
  simp only [square, Vec.along, Vec.add, Vec.scale, List.map_cons, List.map_nil,
    List.zipWith_cons_cons, List.zipWith_nil_left, List.getD_cons_zero]
  ring

theorem square_succeeds : (standard : LineSearch ℝ).method = .armijo ∧
    0 < (standard : LineSearch ℝ).limit (standard : LineSearch ℝ).initialStep ∧
    Vec.dot [2] [-4] = -(8 : ℝ) ∧ 2 < (standard : LineSearch ℝ).maxIterations ∧
    ∃ a, (standard.search square [1] [-4] (square.value [1]) [2]).value =
      .tried square [1] [-4] a ∧ 0.2499 ≤ a := by
  have hfirst : (standard : LineSearch ℝ).limit (standard : LineSearch ℝ).initialStep = 1 :=
    Exact.literal_one
  have hc1 : (standard : LineSearch ℝ).c1 = 1e-4 := rfl
  have hdot : Vec.dot [2] [-4] = -(8 : ℝ) := by
    rw [Vec.dot_cons, Vec.dot_nil]
    norm_num
  have hpos : 0 < (standard : LineSearch ℝ).limit (standard : LineSearch ℝ).initialStep := by
    rw [hfirst]
    exact one_pos
  obtain ⟨a, hsearch, -, hmin, -⟩ := armijo_succeeds (c := standard) (f := square) (x := [1])
    (K := 32) (k := 2) rfl hpos hdot (by norm_num) (by norm_num)
    (fun a _ _ => (square_along a).le) (by decide) (by rw [hfirst, hc1]; norm_num)
  refine ⟨rfl, hpos, hdot, by decide, a, hsearch, ?_⟩
  rw [hfirst, hc1] at hmin
  exact le_trans (by norm_num) hmin

end Optima.LineSearch
