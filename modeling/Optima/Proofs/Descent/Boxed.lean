import Mathlib.Control.Monad.Basic
import Optima.Proofs.Containment
import Optima.Proofs.Descent.Shape
import Optima.Proofs.Scalar.Binary64

/-!
Descent within a box. Every iterate lies in the box. The value kept for an iterate was computed
before the point was clipped, so it is the objective's value there only if the clip has not
changed the value.
-/

namespace Optima.Descent

variable {α : Type} [Scalar α]

/-- The outcome of the line search of an iteration along a momentum direction. -/
def searched (s : Descent α) (t : Trail α) : LineSearch.Outcome α :=
  (t.state.iterate.search s.config.search s.function (momentumDirection s.config t.state)).value

/-- The value of the iterate, the latest value of the history and that of the log are the
objective's value at the iterate. -/
structure Kept (s : Descent α) (t : Trail α) : Prop where
  iterate : s.config.goal.orient t.state.iterate.value = s.objective.value t.state.iterate.point
  history : ∀ v ∈ t.values.head?,
    s.config.goal.orient v = s.objective.value t.state.iterate.point
  log : ∀ e ∈ t.log.head?, e.value = s.objective.value t.state.iterate.point

variable {s : Descent α} {x : Vec α} {box : Box α}

omit [Scalar α] in
theorem box_eq (hm : s.config.method = .boxConstrained) (hb : s.config.bounds = some box) :
    s.config.box = some box := by
  simp [Config.box, hm, hb]

theorem advance_boxed (hm : s.config.method = .boxConstrained) (t : Trail α) :
    s.advance t =
      if (s.searched t).isZero then (.stalled, t.state)
      else (.moved, { t.state with
        iterate := (arrive s.function s.config.box (s.searched t)).value
        direction := some (momentumDirection s.config t.state) }) := by
  simp only [advance, step, hm, momentumStep, Traced.value_bind]
  rw [← function, ← searched]
  split <;> rfl

theorem Passes.kept_iff {t : Trail α} (ht : s.Passes x t) :
    s.Kept t ↔
      s.config.goal.orient t.state.iterate.value = s.objective.value t.state.iterate.point := by
  constructor
  · exact Kept.iterate
  · intro h
    cases ht with
    | initial =>
      rw [initial_value] at h ⊢
      constructor
      · exact h
      · intro v hv
        cases hv
        exact h
      · intro e he
        cases he
    | @moved t u =>
      constructor
      · exact h
      · intro v hv
        cases hv
        exact h
      · intro e he
        cases he
        exact h

theorem searched_found (s : Descent α) (t : Trail α) :
    (s.searched t).Found s.function t.state.iterate.point (momentumDirection s.config t.state)
      t.state.iterate.value :=
  t.state.iterate.search_found _ _ _

theorem searched_value [Scalar.Lawful α] {t : Trail α} (h : (s.searched t).isZero = false) :
    (s.searched t).value = s.function.value (s.searched t).point := by
  have hf := s.searched_found t
  generalize s.searched t = o at h hf
  cases hf with
  | unchanged =>
    have h0 : (LineSearch.Outcome.unchanged t.state.iterate.point
        t.state.iterate.value).isZero = true :=
      Scalar.Lawful.zero_beq_zero
    rw [h0] at h
    cases h
  | tried => rfl

theorem Passes.shaped (hm : s.config.method = .boxConstrained)
    (hd : s.objective.Dimension x.length) {t : Trail α} (ht : s.Passes x t)
    (hf : Scalar.isFinite t.state.iterate.value = true) : t.state.Shaped x.length := by
  refine ht.invariant (P := State.Shaped x.length) ?_ ?_ hf
  · intro h0
    rw [initial_value]
    exact ⟨origin_shaped hd h0, by simp⟩
  · intro t h
    simp only [advance, step, hm]
    exact momentumStep_shaped (function_dimension hd) s.config h

theorem Passes.contains [Scalar.Lawful α] (hm : s.config.method = .boxConstrained)
    (hb : s.config.bounds = some box) (hc : box.check = .ok ()) (hx : x.length = box.length)
    (hd : s.objective.Dimension x.length) {t : Trail α} (ht : s.Passes x t) :
    box.Contains t.state.iterate.point := by
  have hclip : ∀ y : Vec α, y.length = x.length →
      box.Contains (clipTo s.config.box y) := by
    intro y hy
    rw [box_eq hm hb]
    exact Box.contains_clip (fun i hi => Box.ordered hc hi) (hy.trans hx)
  cases ht with
  | initial =>
    rw [initial_value]
    exact hclip x rfl
  | @moved t u ht hv hu =>
    have hs := ht.shaped hm hd (ht.isFinite_value hv)
    have hp := (s.searched_found t).shaped (function_dimension hd) hs.iterate.point
      (momentumDirection_length s.config hs)
    rw [advance_boxed hm] at hu
    split at hu
    · cases hu
    · cases hu
      simp only [Trail.extend, arrive_point]
      exact hclip _ hp.1

theorem Passes.kept_extend_iff [Scalar.Lawful α] (hm : s.config.method = .boxConstrained)
    (hb : s.config.bounds = some box) {t : Trail α} {u : State α} (ht : s.Passes x t)
    (hv : t.verdict s.config = none) (hu : s.advance t = (.moved, u)) :
    s.Kept ((s.counted t).extend s.config u) ↔
      s.objective.value (box.clip (s.searched t).point) =
        s.objective.value (s.searched t).point := by
  rw [(ht.moved hv hu).kept_iff]
  rw [advance_boxed hm] at hu
  split at hu
  · cases hu
  · next hz =>
    cases hu
    simp only [Trail.extend, arrive_point, arrive_value, searched_value (by simpa using hz),
      box_eq hm hb]
    have ho : s.config.goal.orient (s.function.value (s.searched t).point) =
        s.objective.value (s.searched t).point :=
      Goal.orient_orient _ _
    rw [ho]
    exact eq_comm

theorem Ends.boxed (hm : s.config.method = .boxConstrained) {r : Report α (Vec α)}
    (h : s.Ends x r) : ∃ t status, s.Passes x t ∧ r.result = t.state.iterate.point ∧
      r.convergence = t.log.reverse ∧ r.value = (t.report s.config status).value := by
  cases h with
  | @stopped t status ht hv => exact ⟨t, status, ht, rfl, rfl, rfl⟩
  | @stalled t u ht hv hu =>
    rw [advance_boxed hm] at hu
    split at hu
    · cases hu
      exact ⟨t, .stationaryFunction, ht, rfl, rfl, rfl⟩
    · cases hu
  | failed ht hv hu =>
    rw [advance_boxed hm] at hu
    split at hu <;> cases hu

theorem Passes.report_value_iff {t : Trail α} (ht : s.Passes x t) (status : Status) :
    (t.report s.config status).value = s.objective.value (t.report s.config status).result ↔
      s.Kept t := by
  rw [ht.kept_iff]
  simp only [Trail.report, ht.headD_values]

/-- Descent within an accepted box passes through points of the box only. It starts with the right
value, goes on to keep the right one at exactly the iterations where clipping the point that the
line search found does not change the value, and reports what it keeps. -/
theorem boxed_descent {s : Descent Float} {box : Box Float} {x : Vec Float}
    (hm : s.config.method = .boxConstrained) (hb : s.config.bounds = some box)
    (hc : box.check = .ok ()) (hx : x.length = box.length)
    (hd : s.objective.Dimension x.length) :
    (∀ t, s.Passes x t → box.Contains t.state.iterate.point) ∧
      s.Kept (s.initial x).value ∧
      (∀ t u, s.Passes x t → t.verdict s.config = none → s.advance t = (.moved, u) →
        (s.Kept ((s.counted t).extend s.config u) ↔
          s.objective.value (box.clip (s.searched t).point) =
            s.objective.value (s.searched t).point)) ∧
      ∀ n r, (s.runWithin n x).value = .ok r →
        ∃ t, s.Passes x t ∧ r.result = t.state.iterate.point ∧ r.convergence = t.log.reverse ∧
          (r.value = s.objective.value r.result ↔ s.Kept t) := by
  refine ⟨?_, ?_, ?_, ?_⟩
  · intro t ht
    exact ht.contains hm hb hc hx hd
  · rw [Passes.initial.kept_iff, initial_value]
    exact Goal.orient_orient _ _
  · intro t u ht hv hu
    exact ht.kept_extend_iff hm hb hv hu
  · intro n r hr
    obtain ⟨-, -, hend⟩ := ends_of_runWithin hr
    obtain ⟨t, status, ht, hresult, hlog, hvalue⟩ := hend.boxed hm
    refine ⟨t, ht, hresult, hlog, ?_⟩
    rw [hvalue, hresult]
    exact ht.report_value_iff status

/-- The function `-x` on an interval whose upper end is not `-3 + (0.1 - -3)`. -/
def wall : Descent Float where
  objective := .withGradient (fun x => -x.getD 0 0) (fun x => x.map fun _ => -10)
  config := Config.standard.within [⟨-5, 0.1⟩]

theorem wall_dimension (n : Nat) : wall.objective.Dimension n := by
  intro y hy g hg
  cases hg
  rw [List.length_map, hy]

theorem wall_run : (wall.run [-3]).value =
    .ok ⟨[0.1], -0.10000000000000009, .gradientConvergence, 1, 2, [⟨1, -0.10000000000000009⟩]⟩ := by
  decide +kernel

theorem wall_value : (-0.10000000000000009 : Float) ≠ wall.objective.value [0.1] := by
  decide +kernel

theorem wall_descent :
    (∀ t, wall.Passes [-3] t → Box.Contains [⟨-5, 0.1⟩] t.state.iterate.point) ∧
      wall.Kept (wall.initial [-3]).value ∧ ∃ t, wall.Passes [-3] t ∧ ¬ wall.Kept t := by
  obtain ⟨hc, h0, -, hr⟩ :=
    boxed_descent rfl rfl (by decide +kernel) rfl (wall_dimension [(-3 : Float)].length)
  refine ⟨hc, h0, ?_⟩
  obtain ⟨t, ht, -, -, hiff⟩ := hr _ _ wall_run
  exact ⟨t, ht, fun hk => wall_value (hiff.2 hk)⟩

theorem boxed_report_inconsistent :
    ¬ ∀ (s : Descent Float) (x : Vec Float) (r : Report Float (Vec Float)),
      s.config.method = .boxConstrained → s.objective.Dimension x.length → s.check = .ok () →
      (s.run x).value = .ok r → r.value = s.objective.value r.result := by
  intro h
  exact wall_value (h wall [-3] _ rfl (wall_dimension _) (by decide +kernel) wall_run)

end Optima.Descent
