import Optima.Proofs.Descent.Arrival
import Optima.Proofs.Descent.Passage

namespace Optima

variable {α : Type}

def Objective.Dimension (o : Objective α) (n : Nat) : Prop :=
  ∀ x, x.length = n → ∀ g ∈ o.gradient x, g.length = n

def LineFunction.Dimension (f : LineFunction α) (n : Nat) : Prop :=
  ∀ x value, x.length = n → (f.gradient x value).value.length = n

variable [Scalar α]

theorem Objective.Dimension.oriented {o : Objective α} {n : Nat} (h : o.Dimension n) (goal : Goal) :
    (o.oriented goal).Dimension n := by
  intro x hx g hg
  obtain ⟨g', hg', rfl⟩ := Option.map_eq_some_iff.1 hg
  simp [h x hx g' hg']

theorem Objective.Dimension.lineFunction {o : Objective α} {n : Nat} (h : o.Dimension n)
    (eps : Option α) : (o.lineFunction eps).Dimension n := by
  intro x value hx
  simp only [Objective.lineFunction]
  split
  · next g hg => exact h x hx g hg
  · simp [hx]

theorem LineSearch.Outcome.Found.shaped {f : LineFunction α} {n : Nat} (hf : f.Dimension n)
    {x d : Vec α} {value : α} {o : LineSearch.Outcome α} (h : o.Found f x d value)
    (hx : x.length = n) (hd : d.length = n) :
    o.point.length = n ∧ ∀ g ∈ o.gradient, g.length = n := by
  cases h with
  | unchanged => exact ⟨hx, by simp [LineSearch.Outcome.unchanged]⟩
  | tried step g hg =>
    have hp : (Vec.along x d step).length = n := by simp [hx, hd]
    refine ⟨hp, ?_⟩
    intro v hv
    rw [hg v hv]
    exact hf _ _ hp

namespace Descent

structure Iterate.Shaped (n : Nat) (i : Iterate α) : Prop where
  point : i.point.length = n
  gradient : i.gradient.length = n

structure State.Shaped (n : Nat) (s : State α) : Prop where
  iterate : s.iterate.Shaped n
  direction : ∀ d ∈ s.direction, d.length = n

variable {f : LineFunction α} {n : Nat}

@[simp] theorem clipTo_length (box : Option (Box α)) (x : Vec α) :
    (clipTo box x).length = x.length := by
  cases box <;> simp [clipTo]

@[simp] theorem constrainTo_length (box : Option (Box α)) (x d : Vec α) :
    (constrainTo box x d).length = d.length := by
  cases box <;> simp [constrainTo]

theorem Iterate.Shaped.steepest {i : Iterate α} (h : i.Shaped n) : i.steepest.length = n := by
  simp [Iterate.steepest, h.gradient]

theorem Iterate.Shaped.arrive (hf : f.Dimension n) {i : Iterate α} (h : i.Shaped n) {d : Vec α}
    (hd : d.length = n) (c : LineSearch α) (box : Option (Box α)) :
    (arrive f box (i.search c f d).value).value.Shaped n := by
  obtain ⟨hp, hg⟩ := (i.search_found c f d).shaped hf h.point hd
  constructor
  · simp [hp]
  · rw [arrive_gradient]
    cases ho : (i.search c f d).value.gradient with
    | none => exact hf _ _ (by simp [hp])
    | some g => exact hg g ho

theorem momentumDirection_length (c : Config α) {s : State α} (h : s.Shaped n) :
    (momentumDirection c s).length = n := by
  have hs : (constrainTo c.box s.iterate.point s.iterate.steepest).length = n := by
    simp [h.iterate.steepest]
  cases hp : s.direction with
  | none => simp [momentumDirection, hp, hs]
  | some previous =>
    by_cases hm : 0 < c.momentum
    · simp only [momentumDirection, hp, if_pos hm]
      split
      · simp [h.iterate.gradient, h.direction previous hp]
      · exact hs
    · simp [momentumDirection, hp, hm, hs]

theorem momentumStep_shaped (hf : f.Dimension n) (c : Config α) {s : State α} (h : s.Shaped n) :
    (momentumStep c f s).value.2.Shaped n := by
  have hd := momentumDirection_length c h
  simp only [momentumStep, Traced.value_bind]
  split
  · exact h
  · refine ⟨h.iterate.arrive hf hd _ _, ?_⟩
    intro d hm
    cases hm
    exact hd

variable {s : Descent α} {x : Vec α}

theorem function_dimension (h : s.objective.Dimension n) : s.function.Dimension n :=
  (h.oriented s.config.goal).lineFunction s.config.differenceStep

theorem origin_shaped (hd : s.objective.Dimension x.length)
    (hf : Scalar.isFinite (s.origin x).value = true) : (s.origin x).Shaped x.length := by
  rw [origin] at hf ⊢
  dsimp only at hf ⊢
  rw [if_pos hf]
  exact ⟨by simp, function_dimension hd _ _ (by simp)⟩

end Descent

end Optima
