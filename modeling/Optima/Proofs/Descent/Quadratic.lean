import Mathlib.Algebra.Order.Star.Real
import Mathlib.Tactic.FinCases
import Optima.Proofs.Descent.Sweep
import Optima.Proofs.Linear.Conjugate

namespace Optima

open Matrix

/-- A symmetric matrix whose form is positive, and further from zero than the singularity test of
a sweep allows for any entry. -/
structure Mat.Definite (n : Nat) (a : Mat ℝ) : Prop where
  square : a.Square n
  symm : (a.toMatrix n).IsSymm
  curved : ∀ d : Fin n → ℝ, d ≠ 0 → ∀ i j,
    2⁻¹ ^ 52 * (d ⬝ᵥ d * |a.toMatrix n i j|) < d ⬝ᵥ a.toMatrix n *ᵥ d

namespace Objective

/-- At points with `n` coordinates, `xᵀ a x / 2 - bᵀ x + k` with its gradient and Hessian. -/
structure Quadratic (o : Objective ℝ) (n : Nat) (a : Mat ℝ) (b : Vec ℝ) (k : ℝ) : Prop where
  value : ∀ x, x.length = n → o.value x = Mat.quadraticForm x a x / 2 - Vec.dot b x + k
  gradient : ∀ x, x.length = n → o.gradient x = some (Vec.sub (Mat.mulVec a x) b)
  hessian : ∀ x, x.length = n → o.hessian x = some a

/-- The only one of the points with `n` coordinates at which the value is least. -/
structure Minimizer (o : Objective ℝ) (n : Nat) (x : Vec ℝ) : Prop where
  length : x.length = n
  least : ∀ y, y.length = n → y ≠ x → o.value x < o.value y

end Objective

variable {n : Nat} {a : Mat ℝ} {b : Vec ℝ} {k : ℝ} {o : Objective ℝ}

theorem Mat.Definite.pos (ha : a.Definite n) {d : Fin n → ℝ} (hd : d ≠ 0) :
    0 < d ⬝ᵥ a.toMatrix n *ᵥ d := by
  obtain ⟨i, hi⟩ := Function.ne_iff.1 hd
  refine lt_of_le_of_lt ?_ (ha.curved d hd i i)
  have hdd : 0 ≤ d ⬝ᵥ d := by simpa using dotProduct_star_self_nonneg d
  positivity

theorem Mat.Definite.posDef (ha : a.Definite n) : (a.toMatrix n).PosDef := by
  apply PosDef.of_dotProduct_mulVec_pos
  · apply IsHermitian.ext
    intro i j
    simpa using ha.symm.apply i j
  · intro d hd
    rw [star_trivial]
    exact ha.pos hd

theorem Mat.Definite.magnitude_lt (ha : a.Definite n) {d : Vec ℝ} (hd : d.length = n)
    (h0 : d.toFun n ≠ 0) :
    Scalar.epsilon * (Vec.dot d d * a.magnitude) < Mat.quadraticForm d a d := by
  rw [Mat.quadraticForm_eq ha.square hd hd, Vec.dot_eq hd hd, Exact.epsilon_eq]
  obtain hm | ⟨r, hr, v, hv, hm⟩ := Mat.magnitude_cases a
  · rw [hm, mul_zero, mul_zero]
    exact ha.pos h0
  · obtain ⟨i, j, hij⟩ := ha.square.exists_entry hr hv
    rw [hm, ← hij]
    exact ha.curved _ h0 i j

namespace Objective.Quadratic

theorem toFun_gradient (ha : a.Square n) (hb : b.length = n) {x : Vec ℝ} (hx : x.length = n) :
    (Vec.sub (Mat.mulVec a x) b).toFun n = a.toMatrix n *ᵥ x.toFun n - b.toFun n := by
  rw [Vec.toFun_sub (by rw [Mat.mulVec_length, ha.length]) hb, Mat.toFun_mulVec ha hx]

theorem value_eq (ho : o.Quadratic n a b k) (ha : a.Square n) (hb : b.length = n) {x : Vec ℝ}
    (hx : x.length = n) :
    o.value x = x.toFun n ⬝ᵥ a.toMatrix n *ᵥ x.toFun n / 2 - b.toFun n ⬝ᵥ x.toFun n + k := by
  rw [ho.value x hx, Mat.quadraticForm_eq ha hx hx, Vec.dot_eq hb hx]

theorem minimizer (ho : o.Quadratic n a b k) (ha : a.Definite n) (hb : b.length = n) {x : Vec ℝ}
    (hx : x.length = n) (hg : a.toMatrix n *ᵥ x.toFun n = b.toFun n) : o.Minimizer n x := by
  refine ⟨hx, ?_⟩
  intro y hy hne
  have hd : y.toFun n - x.toFun n ≠ 0 := by
    intro h0
    exact hne (Vec.ext_toFun hy hx (sub_eq_zero.1 h0))
  have hpos := ha.pos hd
  rw [mulVec_sub, dotProduct_sub, sub_dotProduct, sub_dotProduct,
    Descent.dotProduct_mulVec_comm ha.posDef.isHermitian (x.toFun n) (y.toFun n), hg,
    dotProduct_comm (y.toFun n) (b.toFun n), dotProduct_comm (x.toFun n) (b.toFun n)] at hpos
  rw [ho.value_eq ha.square hb hx, ho.value_eq ha.square hb hy, hg,
    dotProduct_comm (x.toFun n) (b.toFun n)]
  linarith

end Objective.Quadratic

namespace Descent

/-- The iterate keeps the function's value and gradient at its point. -/
structure Iterate.Exact (o : Objective ℝ) (n : Nat) (i : Iterate ℝ) : Prop where
  point : i.point.length = n
  value : i.value = o.value i.point
  gradient : o.gradient i.point = some i.gradient

/-- The iterate is the only minimum, and its gradient vanishes. -/
structure Iterate.Solved (o : Objective ℝ) (n : Nat) (i : Iterate ℝ) : Prop where
  exact : i.Exact o n
  minimizer : o.Minimizer n i.point
  stationary : Vec.isZero i.gradient = true

theorem Iterate.Exact.gradient_eq {i : Iterate ℝ} (hi : i.Exact o n) (ho : o.Quadratic n a b k) :
    i.gradient = Vec.sub (Mat.mulVec a i.point) b := by
  have hg := hi.gradient
  rw [ho.gradient i.point hi.point] at hg
  exact (Option.some.inj hg).symm

theorem Iterate.Exact.gradient_length {i : Iterate ℝ} (hi : i.Exact o n)
    (ho : o.Quadratic n a b k) (ha : a.Square n) (hb : b.length = n) : i.gradient.length = n := by
  rw [hi.gradient_eq ho, Vec.sub_length, Mat.mulVec_length, ha.length, hb, min_self]

theorem Iterate.Exact.solved {i : Iterate ℝ} (hi : i.Exact o n) (ho : o.Quadratic n a b k)
    (ha : a.Definite n) (hb : b.length = n) (hg : i.gradient.toFun n = 0) : i.Solved o n := by
  refine ⟨hi, ?_, ?_⟩
  · apply ho.minimizer ha hb hi.point
    rw [hi.gradient_eq ho, Objective.Quadratic.toFun_gradient ha.square hb hi.point] at hg
    exact sub_eq_zero.1 hg
  · rw [Vec.isZero_iff (hi.gradient_length ho ha.square hb), hg]

noncomputable def nextIterate (o : Objective ℝ) (a : Mat ℝ) (b : Vec ℝ) (i : Iterate ℝ)
    (d : Vec ℝ) : Iterate ℝ :=
  let x := Vec.along i.point d (-(Vec.dot d i.gradient) / Mat.quadraticForm d a d)
  ⟨x, o.value x, Vec.sub (Mat.mulVec a x) b⟩

noncomputable def nextDirection (a : Mat ℝ) (g d : Vec ℝ) : Vec ℝ :=
  Vec.sub (Vec.scale d (Mat.quadraticForm g a d / Mat.quadraticForm d a d)) g

theorem sweep_succ (ho : o.Quadratic n a b k) (ha : a.Definite n) (c : Config ℝ)
    (eps : Option ℝ) (s : State ℝ) (m : Nat) {i : Iterate ℝ} {d : Vec ℝ}
    (hx : i.point.length = n) (hd : d.length = n) (h0 : d.toFun n ≠ 0) (moved : Bool) :
    (sweep c (o.lineFunction eps) o.hessian s (m + 1) i d moved).value =
      (sweep c (o.lineFunction eps) o.hessian s m (nextIterate o a b i d)
        (nextDirection a (nextIterate o a b i d).gradient d) true).value := by
  have hz : Vec.isZero d = false := by
    rw [← Bool.not_eq_true, Vec.isZero_iff hd]
    exact h0
  have hcurv := ha.magnitude_lt hd h0
  have hpos : 0 < Mat.quadraticForm d a d := by
    rw [Mat.quadraticForm_eq ha.square hd hd]
    exact ha.pos h0
  have hsing : ¬ Scalar.abs (Mat.quadraticForm d a d) ≤
      Scalar.epsilon * (Vec.dot d d * a.magnitude) := by
    rw [Exact.abs_eq, abs_of_pos hpos]
    exact not_le.2 hcurv
  have hneg : ¬ Mat.quadraticForm d a d < @OfNat.ofNat ℝ 0 (Scalar.instOfNat 0) := by
    rw [Exact.literal_zero]
    exact not_lt.2 hpos.le
  have hnext : (Vec.along i.point d
      (-(Vec.dot d i.gradient) / Mat.quadraticForm d a d)).length = n := by
    rw [Vec.along_length, hx, hd, min_self]
  rw [sweep]
  simp only [hz, ho.hessian i.point hx, hsing, hneg, if_false, Bool.false_eq_true,
    Objective.lineFunction, Traced.value_bind, Traced.value_call, ho.gradient _ hnext,
    Traced.value_pure, Exact.isFinite_eq, if_true]
  rfl

theorem nextIterate_exact (ho : o.Quadratic n a b k) {i : Iterate ℝ} {d : Vec ℝ}
    (hx : i.point.length = n) (hd : d.length = n) : (nextIterate o a b i d).Exact o n := by
  have hnext : (nextIterate o a b i d).point.length = n := by
    rw [nextIterate, Vec.along_length, hx, hd, min_self]
  exact ⟨hnext, rfl, ho.gradient _ hnext⟩

theorem nextIterate_gradient (ho : o.Quadratic n a b k) (ha : a.Definite n) (hb : b.length = n)
    {i : Iterate ℝ} {d : Vec ℝ} (hi : i.Exact o n) (hd : d.length = n) :
    (nextIterate o a b i d).gradient.toFun n =
      i.gradient.toFun n +
        (-(d.toFun n ⬝ᵥ i.gradient.toFun n) / (d.toFun n ⬝ᵥ a.toMatrix n *ᵥ d.toFun n)) •
          a.toMatrix n *ᵥ d.toFun n := by
  have hg := hi.gradient_length ho ha.square hb
  have hnext := (nextIterate_exact ho hi.point hd).point
  rw [nextIterate] at hnext ⊢
  rw [Objective.Quadratic.toFun_gradient ha.square hb hnext, Vec.toFun_along hi.point hd,
    Vec.dot_eq hd hg, Mat.quadraticForm_eq ha.square hd hd, hi.gradient_eq ho,
    Objective.Quadratic.toFun_gradient ha.square hb hi.point, mulVec_add, mulVec_smul]
  abel

theorem sweep_solved (ho : o.Quadratic n a b k) (ha : a.Definite n) (hb : b.length = n)
    (c : Config ℝ) (eps : Option ℝ) (s : State ℝ) (m : Nat) {W : Submodule ℝ (Fin n → ℝ)}
    {i : Iterate ℝ} {d : Vec ℝ} (hi : i.Exact o n) (hd : d.length = n)
    (h : Conjugate (a.toMatrix n) W (i.gradient.toFun n) (d.toFun n))
    (hm : n ≤ m + Module.finrank ℝ W) (moved : Bool) :
    (∀ status, (sweep c (o.lineFunction eps) o.hessian s m i d moved).value.1 ≠ .failed status) ∧
      (sweep c (o.lineFunction eps) o.hessian s m i d moved).value.2.iterate.Solved o n := by
  induction m generalizing W i d moved with
  | zero =>
    refine ⟨?_, hi.solved ho ha hb (h.gradient_eq_zero_of_finrank (by omega))⟩
    cases moved <;> exact fun _ => Progress.noConfusion
  | succ m ih =>
    by_cases h0 : d.toFun n = 0
    · have hz : Vec.isZero d = true := (Vec.isZero_iff hd).2 h0
      rw [sweep]
      simp only [hz, if_true, Traced.value_pure]
      refine ⟨?_, hi.solved ho ha hb (h.gradient_eq_zero h0)⟩
      cases moved <;> exact fun _ => Progress.noConfusion
    · have hnext := nextIterate_exact ho hi.point hd (n := n) (a := a) (b := b)
      have hg := hnext.gradient_length ho ha.square hb
      rw [sweep_succ ho ha c eps s m hi.point hd h0]
      apply ih hnext
      · rw [nextDirection, Vec.sub_length, Vec.scale_length, hd, hg, min_self]
      · rw [nextDirection, Vec.toFun_sub (by rw [Vec.scale_length, hd]) hg, Vec.toFun_scale hd,
          Mat.quadraticForm_eq ha.square hg hd, Mat.quadraticForm_eq ha.square hd hd]
        exact h.step ha.posDef h0 rfl (nextIterate_gradient ho ha hb hi hd) rfl
      · have hlt := h.finrank_lt ha.posDef h0
        omega

theorem conjugateStep_solved (ho : o.Quadratic n a b k) (ha : a.Definite n) (hb : b.length = n)
    (c : Config ℝ) (eps : Option ℝ) {s : State ℝ} (hs : s.iterate.Exact o n) :
    (∀ status, (conjugateStep c (o.lineFunction eps) o.hessian s).value.1 ≠ .failed status) ∧
      (conjugateStep c (o.lineFunction eps) o.hessian s).value.2.iterate.Solved o n := by
  have hg := hs.gradient_length ho ha.square hb
  apply sweep_solved ho ha hb c eps s _ hs (W := ⊥)
  · rw [Iterate.steepest, Vec.neg_length, hg]
  · rw [Iterate.steepest, Vec.toFun_neg hg]
    exact .start _ _
  · rw [hs.point]
    exact Nat.le_add_right n _

theorem norm_of_isZero {g : Vec ℝ} (hg : Vec.isZero g = true) : Vec.norm g = 0 := by
  have hd : Vec.dot g g = 0 := by
    rw [Vec.dot_eq rfl rfl, (Vec.isZero_iff rfl).1 hg, dotProduct_zero]
  rw [Vec.norm, hd]
  exact Real.sqrt_zero

section Run

variable {s : Descent ℝ}

theorem origin_exact (hm : s.config.method = .conjugateGradient)
    (ho : (s.objective.oriented s.config.goal).Quadratic n a b k) {x : Vec ℝ} (hx : x.length = n) :
    (s.origin x).Exact (s.objective.oriented s.config.goal) n ∧ (s.origin x).point = x := by
  have hp : (s.origin x).point = x := by
    simp [origin, Config.box, hm, clipTo]
  have hg := ho.gradient x hx
  refine ⟨⟨by rw [hp, hx], rfl, ?_⟩, hp⟩
  rw [hp, hg]
  simp [origin, Config.box, hm, clipTo, function, Objective.lineFunction, hg]

theorem verdict_eq_of_norm_lt (hm : s.config.method = .conjugateGradient) {eps : ℝ}
    (he : s.config.stopping.gradientTolerance = some eps) {t : Trail ℝ}
    (ht : Vec.norm t.state.iterate.gradient < eps) :
    t.verdict s.config = some .gradientConvergence := by
  have hd : Stopping.diverged t.values = false := by
    cases t.values <;> simp [Stopping.diverged]
  simp [Trail.verdict, gradientNorm, Config.box, hm, Stopping.verdict, hd,
    Stopping.gradientSmall, he, ht]

theorem initial_verdict_eq_none (hm : s.config.method = .conjugateGradient)
    (hc : s.config.stopping.check = .ok ()) {eps : ℝ}
    (he : s.config.stopping.gradientTolerance = some eps)
    (hmax : s.config.stopping.maxIterations ≠ some 0) {x : Vec ℝ}
    (hn : ¬ Vec.norm (s.origin x).gradient < eps) :
    (s.initial x).value.verdict s.config = none := by
  have hplateau : s.config.stopping.onPlateau [(s.origin x).value] = false := by
    rw [Stopping.onPlateau]
    cases hp : s.config.stopping.plateau with
    | none => rfl
    | some w =>
      cases w with
      | zero => exact absurd hp (Stopping.plateau_ne_zero hc)
      | succ w => simp
  have hcap : s.config.stopping.capReached 0 = false := by
    rw [← Bool.not_eq_true, Stopping.capReached_iff]
    rintro ⟨m, h, hle⟩
    rw [Nat.le_zero.1 hle] at h
    exact hmax h
  rw [initial_value]
  simp [Trail.verdict, gradientNorm, Config.box, hm, Stopping.verdict, Stopping.diverged,
    Stopping.gradientSmall, Stopping.valueSettled, he, hn, hplateau, hcap]

theorem advance_solved (hm : s.config.method = .conjugateGradient) (ha : a.Definite n)
    (hb : b.length = n) (ho : (s.objective.oriented s.config.goal).Quadratic n a b k)
    {t : Trail ℝ} (ht : t.state.iterate.Exact (s.objective.oriented s.config.goal) n)
    (hz : Vec.isZero t.state.iterate.gradient = false) :
    ∃ u, s.advance t = (.moved, u) ∧
      u.iterate.Solved (s.objective.oriented s.config.goal) n := by
  have hstep : s.advance t =
      (conjugateStep s.config s.function (s.objective.oriented s.config.goal).hessian
        t.state).value := by
    simp only [advance, step, hm]
    rfl
  obtain ⟨hfail, hsolved⟩ := conjugateStep_solved ho ha hb s.config s.config.differenceStep ht
  have hswept := advance_swept hm (t := t) ht.value
  rw [← function, ← hstep] at hfail hsolved
  generalize s.advance t = r at hfail hsolved hswept
  obtain ⟨progress, u⟩ := r
  cases progress with
  | moved => exact ⟨u, rfl, hsolved⟩
  | stalled =>
    have hg := hsolved.stationary
    rw [hswept.iterate_of_stalled.2, hz] at hg
    cases hg
  | failed status => exact absurd rfl (hfail status)

theorem trace_converges (hm : s.config.method = .conjugateGradient) (ha : a.Definite n)
    (hb : b.length = n) (ho : (s.objective.oriented s.config.goal).Quadratic n a b k)
    (hc : s.config.stopping.check = .ok ()) {eps : ℝ}
    (he : s.config.stopping.gradientTolerance = some eps) (h0 : 0 < eps)
    (hmax : s.config.stopping.maxIterations ≠ some 0) {x : Vec ℝ} (hx : x.length = n) (m : Nat) :
    ∃ r, (s.trace (m + 1) x).value = some r ∧ r.status = .gradientConvergence ∧
      (r.iterations = 0 ∧ r.result = x ∧ Vec.norm (s.origin x).gradient < eps ∨
        r.iterations = 1 ∧ (s.objective.oriented s.config.goal).Minimizer n r.result) := by
  obtain ⟨horigin, hpoint⟩ := origin_exact hm ho hx
  have hinit : (s.initial x).value.state.iterate = s.origin x := by rw [initial_value]
  rw [trace_value]
  by_cases hn : Vec.norm (s.origin x).gradient < eps
  · have hv : (s.initial x).value.verdict s.config = some .gradientConvergence :=
      verdict_eq_of_norm_lt hm he (by rwa [hinit])
    rw [hv]
    refine ⟨_, rfl, rfl, .inl ⟨?_, ?_, hn⟩⟩
    · rw [initial_value]
      rfl
    · rw [Trail.report, hinit, hpoint]
  · have hz : Vec.isZero (s.origin x).gradient = false := by
      rw [← Bool.not_eq_true]
      intro hz
      rw [norm_of_isZero hz] at hn
      exact hn h0
    obtain ⟨u, hu, hsolved⟩ := advance_solved hm ha hb ho (t := (s.initial x).value)
      (by rwa [hinit]) (by rwa [hinit])
    have hv := verdict_eq_of_norm_lt hm he
      (t := (s.counted (s.initial x).value).extend s.config u) (by
      rw [Trail.extend, norm_of_isZero hsolved.stationary]
      exact h0)
    have hr : (round s.config (s.objective.oriented s.config.goal) (s.initial x).value).value =
        .inr ((s.counted (s.initial x).value).extend s.config u, .gradientConvergence) := by
      simp only [round_value, hu, hv]
    rw [initial_verdict_eq_none hm hc he hmax hn]
    simp only [Traced.iterate_succ_inr hr]
    refine ⟨_, rfl, rfl, .inr ⟨?_, hsolved.minimizer⟩⟩
    rw [initial_value]
    rfl

end Run

/-- In exact arithmetic a sweep along conjugate directions ends at the only minimum of a quadratic
function, with no gradient left, from every point. So a run ends with a small gradient, at its
start or after one iteration. -/
theorem sweep_minimizer {s : Descent ℝ} {n : Nat} {a : Mat ℝ} {b : Vec ℝ} {k : ℝ}
    (hm : s.config.method = .conjugateGradient) (ha : a.Definite n) (hb : b.length = n)
    (ho : (s.objective.oriented s.config.goal).Quadratic n a b k) :
    (∀ t : State ℝ, t.iterate.Exact (s.objective.oriented s.config.goal) n →
      ∀ r, (conjugateStep s.config s.function (s.objective.oriented s.config.goal).hessian
        t).value = r →
      (∀ status, r.1 ≠ .failed status) ∧
        r.2.iterate.Solved (s.objective.oriented s.config.goal) n) ∧
    ∀ (x : Vec ℝ) (eps : ℝ), x.length = n → s.check = .ok () → s.checkStart x = .ok () →
      s.config.stopping.gradientTolerance = some eps → 0 < eps →
      s.config.stopping.maxIterations ≠ some 0 →
      ∃ r, (s.run x).value = .ok r ∧ r.status = .gradientConvergence ∧
        (r.iterations = 0 ∧ r.result = x ∧ Vec.norm (s.origin x).gradient < eps ∨
          r.iterations = 1 ∧ (s.objective.oriented s.config.goal).Minimizer n r.result) := by
  refine ⟨?_, ?_⟩
  · rintro t ht r rfl
    exact conjugateStep_solved ho ha hb s.config s.config.differenceStep ht
  · intro x eps hx hc hstart he h0 hmax
    obtain ⟨m, hbudget⟩ := s.config.stopping.exists_budget_eq
    obtain ⟨r, hr, hstatus, hend⟩ :=
      trace_converges hm ha hb ho (stopping_check hc) he h0 hmax hx m
    refine ⟨r, ?_, hstatus, hend⟩
    rw [run, runWithin, hstart, hbudget, Run.accepting_ok, Run.ofIteration, hr]
    rfl

noncomputable def dome : Descent ℝ where
  objective := .withHessian
    (fun x => x.getD 0 0 - x.getD 0 0 ^ 2 - x.getD 0 0 * x.getD 1 0 - x.getD 1 0 ^ 2)
    (fun x => [1 - 2 * x.getD 0 0 - x.getD 1 0, -x.getD 0 0 - 2 * x.getD 1 0])
    (fun _ => [[-2, -1], [-1, -2]])
  config := { Config.standard with method := .conjugateGradient, goal := .maximize }

theorem dome_quadratic : (dome.objective.oriented dome.config.goal).Quadratic 2 [[2, 1], [1, 2]]
    [1, 0] 0 := by
  constructor
  · intro x hx
    obtain ⟨u, v, rfl⟩ := List.length_eq_two.1 hx
    simp [dome, Objective.oriented, Objective.withHessian, Objective.withGradient, Config.standard,
      Mat.quadraticForm, Mat.mulVec]
    ring
  · intro x hx
    obtain ⟨u, v, rfl⟩ := List.length_eq_two.1 hx
    simp [dome, Objective.oriented, Objective.withHessian, Objective.withGradient, Config.standard,
      Mat.mulVec, Vec.sub, Goal.orientVec]
    constructor <;> ring
  · intro x hx
    simp [dome, Objective.oriented, Objective.withHessian, Config.standard, Goal.orientVec]

theorem dome_definite : Mat.Definite 2 [[2, 1], [1, 2]] := by
  have hsquare : Mat.Square 2 [[(2 : ℝ), 1], [1, 2]] := by
    constructor
    · rfl
    · intro r hr
      obtain rfl | rfl : r = [2, 1] ∨ r = [1, 2] := by simpa using hr
      · rfl
      · rfl
  refine ⟨hsquare, ?_, ?_⟩
  · ext i j
    fin_cases i <;> fin_cases j <;> rfl
  · intro d hd i j
    have hentry : |Mat.toMatrix 2 [[(2 : ℝ), 1], [1, 2]] i j| ≤ 2 := by
      fin_cases i <;> fin_cases j <;> simp [Mat.toMatrix, Vec.toFun]
    have hform : d ⬝ᵥ Mat.toMatrix 2 [[(2 : ℝ), 1], [1, 2]] *ᵥ d =
        d ⬝ᵥ d + (d 0 + d 1) ^ 2 := by
      simp [Matrix.mulVec, dotProduct, Fin.sum_univ_two, Mat.toMatrix, Vec.toFun]
      ring
    have hpos : 0 < d ⬝ᵥ d := by
      simpa using dotProduct_star_self_pos_iff.2 hd
    rw [hform]
    nlinarith [sq_nonneg (d 0 + d 1), mul_le_mul_of_nonneg_left hentry hpos.le]

theorem dome_check : dome.check = .ok () := by
  have hc : dome.config.check = .ok () :=
    Exact.standard_check .conjugateGradient (by decide) .maximize
  rw [Descent.check, hc]
  rfl

theorem dome_origin : Vec.norm (dome.origin [0, 0]).gradient = 1 := by
  have ho := (origin_exact rfl dome_quadratic rfl (x := [0, 0])).1
  rw [ho.gradient_eq dome_quadratic, (origin_exact rfl dome_quadratic rfl (x := [0, 0])).2]
  have hg : Vec.sub (Mat.mulVec [[2, 1], [1, 2]] [0, 0]) [1, 0] = ([-1, 0] : Vec ℝ) := by
    simp [Mat.mulVec, Vec.sub]
  rw [hg, Vec.norm, Vec.dot_cons, Vec.dot_cons, Vec.dot_nil]
  norm_num [Scalar.sqrt]

theorem dome_converges :
    ∃ r, (dome.run [0, 0]).value = .ok r ∧ r.status = .gradientConvergence ∧ r.iterations = 1 ∧
      (dome.objective.oriented dome.config.goal).Minimizer 2 r.result := by
  obtain ⟨-, hrun⟩ := sweep_minimizer rfl dome_definite rfl dome_quadratic
  obtain ⟨r, hr, hstatus, ⟨-, -, hn⟩ | ⟨hi, hmin⟩⟩ :=
    hrun [0, 0] 1e-8 rfl dome_check rfl rfl (by norm_num)
      (by simp [dome, Config.standard, Stopping.standard])
  · rw [dome_origin] at hn
    norm_num at hn
  · exact ⟨r, hr, hstatus, hi, hmin⟩

end Descent

end Optima
