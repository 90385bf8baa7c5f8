import Mathlib.Algebra.Order.Star.Real
import Optima.Proofs.Descent.Shape
import Optima.Proofs.Linear.Inverse
import Optima.Proofs.Linear.Secant

namespace Optima.Descent

open Matrix

variable {n : Nat}

structure State.Curved (n : Nat) (s : State ℝ) : Prop where
  shaped : s.iterate.Shaped n
  square : s.curvature.Square n
  posDef : (s.curvature.toMatrix n).PosDef

theorem identity_posDef (n : Nat) : ((Mat.identity n).toMatrix n).PosDef := by
  rw [Mat.toMatrix_identity]
  exact PosDef.one

theorem State.Curved.fresh {s : State ℝ} (h : s.iterate.Shaped n)
    (hc : s.curvature = Mat.identity n) : s.Curved n := by
  refine ⟨h, ?_, ?_⟩
  · rw [hc]
    exact Mat.Square.identity n
  · rw [hc]
    exact identity_posDef n

theorem quasiNewton_descends {s : State ℝ} (h : s.Curved n) :
    ∃ d, quasiNewton s = some d ∧ d.length = n ∧
      (s.iterate.descends d = true ↔ Vec.isZero s.iterate.gradient = false) := by
  obtain ⟨b, hb, hs, hinv⟩ := Mat.inverse?_spec h.square h.posDef.isUnit
  have hg := h.shaped.gradient
  have hl : (Mat.mulVec b s.iterate.gradient).length = n := by rw [Mat.mulVec_length, hs.length]
  refine ⟨Vec.neg (Mat.mulVec b s.iterate.gradient), by rw [quasiNewton, hb]; rfl, ?_, ?_⟩
  · rw [Vec.neg_length, hl]
  · have hz := Vec.isZero_iff hg
    rw [← Bool.not_eq_true, hz]
    simp only [Iterate.descends, decide_eq_true_eq, Exact.literal_zero]
    rw [Vec.dot_eq (by rw [Vec.neg_length, hl]) hg, Vec.toFun_neg hl, Mat.toFun_mulVec hs hg, hinv]
    constructor
    · intro hneg h0
      simp [h0] at hneg
    · intro h0
      have hpos := h.posDef.inv.dotProduct_mulVec_pos h0
      rw [star_trivial, dotProduct_comm] at hpos
      rw [neg_dotProduct]
      exact neg_neg_of_pos hpos

theorem afterStep_curved {s : State ℝ} {b : Mat ℝ} {j : Iterate ℝ} (hs : s.iterate.Shaped n)
    (hj : j.Shaped n) (hb : b.Square n) (hp : (b.toMatrix n).PosDef) :
    (afterStep s b j).Curved n := by
  have hstep : (Vec.sub j.point s.iterate.point).length = n := by simp [hj.point, hs.point]
  have hchange : (Vec.sub j.gradient s.iterate.gradient).length = n := by
    simp [hj.gradient, hs.gradient]
  simp only [afterStep]
  cases hu : secantUpdate b (Vec.sub j.point s.iterate.point)
      (Vec.sub j.gradient s.iterate.gradient) with
  | none => exact ⟨hj, hb, hp⟩
  | some b' =>
    obtain ⟨hb', hp', _⟩ := secantUpdate_posDef hb hp hstep hchange hu
    exact ⟨hj, hb', hp'⟩

theorem bfgsStep_curved {f : LineFunction ℝ} (hf : f.Dimension n) (c : Config ℝ) {s : State ℝ}
    (h : s.Curved n) :
    (bfgsStep c f s).value.2.Curved n ∧ ∀ status, (bfgsStep c f s).value.1 ≠ .failed status := by
  obtain ⟨d, hd, hdl, _⟩ := quasiNewton_descends h
  have hi := h.shaped
  have hone := identity_posDef n
  have hsq := Mat.Square.identity n
  cases hdn : s.iterate.descends d with
  | true =>
    simp only [bfgsStep, hd, hdn, hi.point, if_true, Bool.and_true, Traced.value_bind]
    split
    · -- no step along the quasi-Newton direction is acceptable
      rw [Traced.value_bind]
      split
      · exact ⟨.fresh hi rfl, by simp⟩
      · exact ⟨afterStep_curved hi (hi.arrive hf hi.steepest _ _) hsq hone, by simp⟩
    · exact ⟨afterStep_curved hi (hi.arrive hf hdl _ _) h.square h.posDef, by simp⟩
  | false =>
    simp only [bfgsStep, hd, hdn, hi.point, Bool.and_false, Bool.false_eq_true, if_false,
      Traced.value_bind]
    split
    · exact ⟨.fresh hi rfl, by simp⟩
    · exact ⟨afterStep_curved hi (hi.arrive hf hi.steepest _ _) hsq hone, by simp⟩

/-- The quasi-Newton step searches along the direction before it tries anything else. If a step is
found there, it goes there and keeps its curvature, updated where that is safe. -/
structure Pursues (c : Config ℝ) (f : LineFunction ℝ) (u : State ℝ) (d : Vec ℝ) : Prop where
  searched : (u.iterate.search c.search f d).calls <+: (bfgsStep c f u).calls
  kept : (u.iterate.search c.search f d).value.isZero = false → (bfgsStep c f u).value =
    (.moved, afterStep u u.curvature (arrive f c.box (u.iterate.search c.search f d).value).value)

theorem bfgsStep_pursues (c : Config ℝ) (f : LineFunction ℝ) {u : State ℝ} {d : Vec ℝ}
    (hq : quasiNewton u = some d) (hd : u.iterate.descends d = true) : Pursues c f u d := by
  constructor
  · simp only [bfgsStep, hq, hd, if_true, Traced.calls_bind]
    exact List.prefix_append _ _
  · intro hz
    simp only [bfgsStep, hq, hd, if_true, Bool.and_true, Traced.value_bind, hz,
      Bool.false_eq_true, if_false, Traced.value_pure]

theorem advance_bfgs {s : Descent ℝ} (hm : s.config.method = .bfgs) (t : Trail ℝ) :
    s.advance t = (bfgsStep s.config s.function t.state).value := by
  simp only [advance, step, hm]
  rfl

theorem Passes.curved {s : Descent ℝ} {x : Vec ℝ} (hm : s.config.method = .bfgs)
    (hd : s.objective.Dimension x.length) {t : Trail ℝ} (ht : s.Passes x t) :
    t.state.Curved x.length ∧ ∀ status, (s.advance t).1 ≠ .failed status := by
  have hstep : ∀ t : Trail ℝ, t.state.Curved x.length →
      (s.advance t).2.Curved x.length ∧ ∀ status, (s.advance t).1 ≠ .failed status := by
    intro t h
    rw [advance_bfgs hm]
    exact bfgsStep_curved (function_dimension hd) s.config h
  have hc : t.state.Curved x.length := by
    apply ht.invariant (P := State.Curved x.length)
    · intro h0
      rw [initial_value]
      have ho := origin_shaped hd h0
      exact .fresh ho (by rw [ho.point])
    · intro t h
      exact (hstep t h).1
    · rfl
  exact ⟨hc, (hstep t hc).2⟩

/-- In exact arithmetic the secant update of a symmetric positive definite curvature is one again
and satisfies the secant equation. So every curvature that a run meets is one, its quasi-Newton
direction exists and descends exactly where the gradient does not vanish; there the iteration
searches along that direction and does not start over with its curvature, and the run does not end
with a singular one. -/
theorem curvature_posDef :
    (∀ (n : Nat) (b b' : Mat ℝ) (step change : Vec ℝ), b.Square n → (b.toMatrix n).PosDef →
      step.length = n → change.length = n → secantUpdate b step change = some b' →
      b'.Square n ∧ (b'.toMatrix n).PosDef ∧ Mat.mulVec b' step = change) ∧
    ∀ (s : Descent ℝ) (x : Vec ℝ), s.config.method = .bfgs → s.objective.Dimension x.length →
      (∀ t, s.Passes x t →
        t.state.curvature.Square x.length ∧ (t.state.curvature.toMatrix x.length).PosDef ∧
        (∃ d, quasiNewton t.state = some d ∧
          (t.state.iterate.descends d = true ↔ Vec.isZero t.state.iterate.gradient = false) ∧
          (Vec.isZero t.state.iterate.gradient = false →
            Pursues s.config s.function t.state d)) ∧
        s.advance t = (bfgsStep s.config s.function t.state).value ∧
        ∀ status, (s.advance t).1 ≠ .failed status) ∧
      ∀ n r, (s.runWithin n x).value = .ok r → r.status ≠ .badFunction := by
  refine ⟨?_, ?_⟩
  · intro n b b' step change hb hp hs hc hu
    exact secantUpdate_posDef hb hp hs hc hu
  · intro s x hm hd
    refine ⟨?_, ?_⟩
    · intro t ht
      obtain ⟨hc, hf⟩ := ht.curved hm hd
      obtain ⟨d, hq, _, hdesc⟩ := quasiNewton_descends hc
      have hpursues (hg : Vec.isZero t.state.iterate.gradient = false) :
          Pursues s.config s.function t.state d :=
        bfgsStep_pursues s.config s.function hq (hdesc.2 hg)
      exact ⟨hc.square, hc.posDef, ⟨d, hq, hdesc, hpursues⟩, advance_bfgs hm t, hf⟩
    · intro n r hr
      obtain ⟨-, -, hend⟩ := ends_of_runWithin hr
      cases hend with
      | @stopped t status ht hv =>
        intro hs
        have hb : status = .badFunction := hs
        rw [hb] at hv
        exact t.verdict_ne_badFunction s.config hv
      | stalled ht hv hu => exact Status.noConfusion
      | @failed t u status ht hv hu =>
        have h := (ht.curved hm hd).2 status
        rw [hu] at h
        exact absurd rfl h

noncomputable def bowl : Descent ℝ where
  objective := .withGradient (fun x => x.getD 0 0 * x.getD 0 0) (fun x => x.map (2 * ·))
  config := { Config.standard with method := .bfgs }

theorem bowl_curvature :
    (∀ t, bowl.Passes [1] t → ∃ d, quasiNewton t.state = some d ∧
      (t.state.iterate.descends d = true ↔ Vec.isZero t.state.iterate.gradient = false) ∧
      (Vec.isZero t.state.iterate.gradient = false →
        Pursues bowl.config bowl.function t.state d)) ∧
      secantUpdate [[1]] [1] [2] = some ([[2]] : Mat ℝ) ∧ Mat.mulVec [[2]] [1] = ([2] : Vec ℝ) := by
  obtain ⟨hsec, hrun⟩ := curvature_posDef
  have hu : secantUpdate [[1]] [1] [2] = some ([[2]] : Mat ℝ) := by
    have h1 := Exact.epsilon_lt_one
    have h2 := h1.trans one_lt_two
    simp [secantUpdate, Mat.mulVec, Mat.sub, Mat.add, Mat.quotient, Mat.outer, Vec.sub, Vec.add,
      Vec.quotient, h1, h2]
  refine ⟨?_, hu, ?_⟩
  · intro t ht
    refine ((hrun bowl [1] rfl ?_).1 t ht).2.2.1
    intro y hy g hg
    cases hg
    rw [List.length_map, hy]
  · have h1 : Mat.toMatrix 1 [[1]] = 1 := by
      ext i j
      fin_cases i
      fin_cases j
      simp [Mat.toMatrix, Vec.toFun]
    refine (hsec 1 [[1]] [[2]] [1] [2] ⟨rfl, by simp⟩ ?_ rfl rfl hu).2.2
    rw [h1]
    exact PosDef.one

end Optima.Descent
