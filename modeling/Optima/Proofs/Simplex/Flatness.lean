import Optima.Proofs.Cap.Simplex

namespace Optima.SimplexSearch

open Scalar (Lawful)

variable {α : Type} [Scalar α] {s : SimplexSearch α}

/-- The value at the centroid is close to the best value. -/
def State.Level (s : SimplexSearch α) (t : State α) : Prop :=
  Scalar.abs (s.ranked (s.center t) - t.simplex.sort.best.value) < s.config.tolerance

theorem round_of_level {t : State α} (hf : Scalar.isFinite t.simplex.sort.best.value = true)
    (h : t.Level s) : (s.round t).value = .inr
      (State.finish s ⟨t.simplex.sort, t.iteration, t.evaluations + 1, t.log⟩ .normal) := by
  rw [State.Level, center] at h
  unfold round
  dsimp only
  rw [if_pos hf, call_bind]
  dsimp only
  rw [if_pos h]
  rfl

theorem level_of_normal {t : State α} {r : Report α (Vec α)} (h : (s.round t).value = .inr r)
    (hr : r.status = .normal) : t.Level s ∧
      r = State.finish s ⟨t.simplex.sort, t.iteration, t.evaluations + 1, t.log⟩ .normal := by
  unfold round at h
  dsimp only at h
  split at h
  · rw [call_bind] at h
    dsimp only at h
    split at h
    · next hl =>
      cases h
      exact ⟨hl, rfl⟩
    split at h
    · cases h
      cases hr
    · cases h
  · cases h
    cases hr

theorem iteration_le_of_reaches {t u : State α} (h : Traced.Reaches s.round t u) :
    t.iteration ≤ u.iteration := by
  induction h with
  | refl => exact Nat.le_refl _
  | tail _ hu ih =>
    have := (round_next hu).1
    omega

theorem round_of_iterations_eq_zero {n : Nat} {t : State α} (ht : t.iteration = 0)
    {r : Report α (Vec α)} (h : (Traced.iterate s.round n t).value = some r)
    (hr : r.iterations = 0) : (s.round t).value = .inr r := by
  cases n with
  | zero => cases h
  | succ n =>
    cases hs : (s.round t).value with
    | inr q =>
      rw [Traced.iterate_succ_inr hs] at h
      cases h
      rfl
    | inl u =>
      rw [Traced.iterate_succ_inl hs] at h
      obtain ⟨v, hv, hlast⟩ := Traced.exists_reaches_of_iterate h
      have hu := (round_next hs).1
      have hle := iteration_le_of_reaches hv
      have he := (round_last hlast).1
      omega

/-- A run is reported converged before its first iteration only when the value at the centroid of
all vertices but the worst is within the tolerance of the best value; what it reports is then the
best of the vertices that it started from. The converse is stated from two dimensions on. In
dimension one it is left out on purpose: the centroid is the best vertex there, and so its value
tells nothing about the other one. -/
theorem normal_at_start [Lawful α] (hs : s.check = .ok ()) {xs : List (Vec α)}
    {run : Run α (Vec α) (Vec α)} (h : s.Runs xs run) {r : Report α (Vec α)}
    (hr : run.value = .ok r) :
    ∃ u : Simplex α, u.Sorted ∧
      u.vertices.Perm (xs.map fun x => ⟨s.box.clip x, s.ranked (s.box.clip x)⟩) ∧
      let value := s.ranked (Vec.centroid s.box.length (u.base.map (·.point)))
      (r.status = .normal → r.iterations = 0 →
        Scalar.abs (value - u.best.value) < s.config.tolerance ∧
        r = ⟨u.best.point, s.config.goal.orient u.best.value, .normal, 0, s.box.length + 2, []⟩) ∧
      (2 ≤ s.box.length → Scalar.isFinite u.best.value = true →
        Scalar.abs (value - u.best.value) < s.config.tolerance →
        r.status = .normal ∧ r.iterations = 0) := by
  obtain ⟨e, he⟩ | ⟨n, hlength, -, hrun⟩ := h.starts
  · rw [he] at hr
    cases hr
  have hsize : 2 ≤ xs.length := by
    rw [hlength]
    exact Nat.succ_le_succ (List.length_pos_iff.2 ((Box.check_eq_ok _).1 (check_box hs)).1)
  obtain ⟨simplex, hvertices, hi⟩ := s.initial_some hsize
  have hnan : ∀ v ∈ simplex.vertices, Scalar.isNaN v.value = false := by
    rw [hvertices]
    intro v hv
    obtain ⟨x, -, rfl⟩ := List.mem_map.1 hv
    exact Lawful.isNaN_ranked _
  obtain ⟨hsorted, hperm⟩ := Simplex.sort_spec hnan
  let start : State α := ⟨simplex, 0, xs.length, []⟩
  have hend : (Traced.iterate s.round n start).value = some r := by
    rw [hrun, trace_eq_of_initial (congrArg Traced.value hi)] at hr
    exact Run.ofIteration_ok.1 hr
  refine ⟨simplex.sort, hsorted, hvertices ▸ hperm, ?_, ?_⟩
  · intro hnormal hzero
    obtain ⟨hl, rfl⟩ := level_of_normal (round_of_iterations_eq_zero rfl hend hzero) hnormal
    refine ⟨hl, ?_⟩
    simp only [State.finish, start, hlength]
    rfl
  · intro _ hf hl
    have hround := round_of_level (t := start) hf hl
    cases n with
    | zero => cases hend
    | succ n =>
      rw [Traced.iterate_succ_inr hround] at hend
      cases hend
      exact ⟨rfl, rfl⟩

/-- The second coordinate, which does not tell two of the three corners below apart. -/
def ledge : SimplexSearch Float where
  objective := .ofValue fun x => x.getD 1 0
  box := [⟨-1, 1⟩, ⟨-1, 1⟩]
  config := { Simplex.Config.standard with stopping := .afterIterations 0 }

def ledgeCorners : List (Vec Float) := [[0, 0], [1, 0], [0, 1]]

theorem ledge_run :
    (ledge.runPoints ledgeCorners).value = .ok ⟨[0, 0], 0, .normal, 0, 4, []⟩ := by
  decide +kernel

theorem ledge_normal : ledge.check = .ok () ∧
    (ledge.runPoints ledgeCorners).value = .ok ⟨[0, 0], 0, .normal, 0, 4, []⟩ ∧
    ∃ u : Simplex Float, u.Sorted ∧ u.best.point = [0, 0] ∧
      Scalar.abs (ledge.ranked (Vec.centroid 2 (u.base.map (·.point))) - u.best.value) <
        (1e-10 : Float) := by
  have hs : ledge.check = .ok () := by decide +kernel
  obtain ⟨u, hsorted, -, hnormal, -⟩ :=
    normal_at_start hs (.points ledge.config.stopping.budget ledgeCorners) ledge_run
  obtain ⟨hlevel, hr⟩ := hnormal rfl rfl
  injection hr with hpoint
  exact ⟨hs, ledge_run, u, hsorted, hpoint.symm, hlevel⟩

theorem ledge_finite {x : Vec Float} (hx : ledge.box.Contains x) :
    Scalar.isFinite (ledge.objective.value x) = true := by
  match x, hx with
  | [_, _], ⟨_, h, _⟩ =>
    exact Binary64.isFinite_of_between h.1 h.2 (by decide +kernel) (by decide +kernel)

/-- The values of the vertices may be far apart all the same. -/
theorem normal_start_not_flat : ¬ ∀ (s : SimplexSearch Float) (xs : List (Vec Float))
    (run : Run Float (Vec Float) (Vec Float)) (r : Report Float (Vec Float)),
    s.check = .ok () →
    (∀ x, s.box.Contains x → Scalar.isFinite (s.objective.value x) = true) →
    s.Runs xs run → run.value = .ok r → r.status = .normal → r.iterations = 0 →
    ∀ x ∈ xs, ∀ y ∈ xs,
      (∀ z ∈ xs, s.ranked (s.box.clip y) ≤ s.ranked (s.box.clip z)) →
      Scalar.abs (s.ranked (s.box.clip x) - s.ranked (s.box.clip y)) ≤ s.config.tolerance := by
  intro h
  have hflat := h ledge ledgeCorners _ _ (by decide +kernel) (fun _ => ledge_finite)
    (.points ledge.config.stopping.budget ledgeCorners) ledge_run rfl rfl [0, 1]
    (by simp [ledgeCorners]) [0, 0] (by simp [ledgeCorners])
    (by decide +kernel)
  revert hflat
  decide +kernel

end Optima.SimplexSearch
