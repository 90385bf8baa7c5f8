import Optima.Proofs.Centroid
import Optima.Proofs.Simplex.Run

/-!
Where the simplex search evaluates its objective. Vertices and candidates are in the box; the
centroid at which a simplex is tested is not clipped, and is in the box only as far as rounding
keeps it there.
-/

namespace Optima

open Binary64 (HasMultiples)
open Scalar (Lawful)

variable {α : Type} [Scalar α]

theorem Simplex.Steps.inner_length {c : Config α} {box : Box α} {f : Vec α → α}
    {s u : Simplex α} {xs : List (Vec α)} (h : Steps c box f s xs u) :
    u.inner.length = s.inner.length := by
  cases h with
  | replaced _ _ => rfl
  | shrunk =>
    have h := congrArg List.length (shrinkTowardBest_vertices c box f s)
    simpa [drawn] using h

namespace SimplexSearch

variable {s : SimplexSearch α}

theorem mem_calls_of_inr {t : State α} {r : Report α (Vec α)} (h : (s.round t).value = .inr r)
    {x : Vec α} (hx : x ∈ (s.round t).calls) : x = s.center t := by
  unfold round at h hx
  dsimp only at h hx
  split at h
  · next hf =>
    rw [if_pos hf, call_bind] at hx
    rw [call_bind] at h
    dsimp only at h hx
    split at h
    · next hl =>
      rw [if_pos hl] at hx
      exact List.mem_singleton.1 hx
    · next hl =>
      rw [if_neg hl] at hx
      split at h
      · next hc =>
        rw [if_pos hc] at hx
        exact List.mem_singleton.1 hx
      · cases h
  · next hf =>
    rw [if_neg hf] at hx
    cases hx

theorem mem_round_calls {t : State α} {x : Vec α} (hx : x ∈ (s.round t).calls) :
    x = s.center t ∨ ∃ u, (s.round t).value = .inl u ∧ x ∈ s.candidates t := by
  cases h : (s.round t).value with
  | inl u =>
    rw [(round_inl h).1, List.mem_cons] at hx
    exact hx.imp_right fun hx => ⟨u, rfl, hx⟩
  | inr r => exact .inl (mem_calls_of_inr h hx)

theorem center_mem_calls {t : State α} (h : Scalar.isFinite t.simplex.sort.best.value = true) :
    s.center t ∈ (s.round t).calls := by
  unfold round
  dsimp only
  rw [if_pos h, call_bind]
  exact List.mem_cons_self

omit [Scalar α] in
theorem checkPoints_replicate {x : Vec α} (hx : x.length = s.box.length) :
    s.checkPoints (List.replicate (s.box.length + 1) x) = .ok () := by
  rw [checkPoints, demand_bind_eq_ok]
  refine ⟨by simp, ?_⟩
  split
  · next y hy =>
    have hne := List.find?_some hy
    rw [List.eq_of_mem_replicate (List.mem_of_find?_eq_some hy)] at hne
    simp [hx] at hne
  · rfl

variable [Lawful α]

theorem State.Sound.base_contained {t : State α} {xs : List (Vec α)} (ht : t.Sound s xs) :
    ∀ y ∈ t.simplex.sort.base.map (·.point), s.box.Contains y := by
  refine List.forall_mem_map.2 fun v hv => (ht.vertices v ?_).contains
  exact ht.sort.2.mem_iff.1 (List.mem_append_left [t.simplex.sort.worst] hv)

def State.Spans (s : SimplexSearch α) (t : State α) : Prop :=
  (∃ xs, t.Sound s xs) ∧ t.simplex.inner.length + 1 = s.box.length

omit [Lawful α] in
theorem State.Spans.base_length {t : State α} (ht : t.Spans s) :
    (t.simplex.sort.base.map (·.point)).length = s.box.length := by
  rw [← ht.2, List.length_map, Simplex.base, List.length_cons, Simplex.sort_inner_length]

theorem State.Spans.center_eq {t : State α} (ht : t.Spans s) {y : Vec α}
    (h : ∀ v ∈ t.simplex.vertices, v.point = y) :
    s.center t = Vec.centroid s.box.length (List.replicate s.box.length y) := by
  obtain ⟨_, hsound⟩ := ht.1
  refine congrArg _ (List.eq_replicate_iff.2 ⟨ht.base_length, List.forall_mem_map.2 ?_⟩)
  intro v hv
  exact h v (hsound.sort.2.mem_iff.1 (List.mem_append_left [t.simplex.sort.worst] hv))

theorem State.Spans.round (hbox : s.box.check = .ok ()) {t u : State α} (ht : t.Spans s)
    (h : (s.round t).value = .inl u) : u.Spans s := by
  obtain ⟨⟨xs, hsound⟩, hlength⟩ := ht
  refine ⟨⟨_, hsound.round hbox h⟩, ?_⟩
  rw [(hsound.stepped hbox h).steps.inner_length, Simplex.sort_inner_length, hlength]

theorem trace_spans (hs : s.check = .ok ()) (n : Nat) {xs : List (Vec α)}
    (hlength : xs.length = s.box.length + 1) (hdim : ∀ x ∈ xs, x.length = s.box.length) :
    ∃ start : State α,
      start.simplex.vertices = xs.map (fun x => ⟨s.box.clip x, s.ranked (s.box.clip x)⟩) ∧
        (∀ t ∈ Traced.path s.round n start, t.Spans s) ∧ start.Spans s ∧
        (s.trace n xs).calls = start.simplex.vertices.map (·.point) ++
          Traced.callsAt s.round (Traced.path s.round n start) := by
  have hbox := check_box hs
  have hsize : 2 ≤ xs.length := by
    rw [hlength]
    exact Nat.succ_le_succ (List.length_pos_iff.2 ((Box.check_eq_ok _).1 hbox).1)
  obtain ⟨start, hvertices, hlog, htrace⟩ := s.trace_eq n hsize
  have hstart : start.Spans s := by
    refine ⟨⟨_, State.Sound.initial hbox hdim hvertices hlog⟩, ?_⟩
    have hcount := congrArg List.length hvertices
    rw [Simplex.vertices_length, List.length_map, hlength] at hcount
    omega
  refine ⟨start, hvertices, ?_, hstart, ?_⟩
  · exact Traced.path_invariant (Q := fun _ => True) (fun _ _ ht _ hu => ht.round hbox hu) hstart
      (fun _ _ => trivial)
  · rw [htrace, Traced.calls_bind, Traced.iterate_calls]

theorem Runs.mem_calls (hs : s.check = .ok ()) {xs : List (Vec α)} {run : Run α (Vec α) (Vec α)}
    (h : s.Runs xs run) {x : Vec α} (hx : x ∈ run.calls) :
    s.box.Contains x ∨ ∃ ys : List (Vec α), ys.length = s.box.length ∧
      (∀ y ∈ ys, s.box.Contains y) ∧ x = Vec.centroid s.box.length ys := by
  obtain ⟨e, rfl⟩ | ⟨n, hlength, hdim, rfl⟩ := h.starts
  · cases hx
  obtain ⟨start, -, hpath, ⟨⟨_, hstart⟩, -⟩, hcalls⟩ := trace_spans hs n hlength hdim
  obtain hx | hx := List.mem_append.1 (hcalls ▸ hx)
  · obtain ⟨v, hv, rfl⟩ := List.mem_map.1 hx
    exact .inl (hstart.vertices v hv).contains
  · obtain ⟨t, ht, hx⟩ := List.mem_flatMap.1 hx
    obtain ⟨⟨ys, hsound⟩, -⟩ := hpath t ht
    obtain rfl | ⟨u, hu, hx⟩ := mem_round_calls hx
    · exact .inr ⟨_, (hpath t ht).base_length, hsound.base_contained, rfl⟩
    · exact .inl ((hsound.stepped (check_box hs) hu).contains x hx)

theorem exists_run_of_replicate (hs : s.check = .ok ())
    (hf : ∀ y, Scalar.isFinite (s.ranked y) = true) {x : Vec α} (hx : x.length = s.box.length) :
    ∃ xs run, s.Runs xs run ∧
      Vec.centroid s.box.length (List.replicate s.box.length (s.box.clip x)) ∈ run.calls := by
  obtain ⟨xs, hxs⟩ : ∃ xs, xs = List.replicate (s.box.length + 1) x := ⟨_, rfl⟩
  have hmem : ∀ y ∈ xs, y = x := by
    rw [hxs]
    exact fun y hy => List.eq_of_mem_replicate hy
  have hlength : xs.length = s.box.length + 1 := by rw [hxs, List.length_replicate]
  refine ⟨xs, _, .points 1 xs, ?_⟩
  rw [runPointsWithin, hxs, checkPoints_replicate hx, ← hxs, Run.accepting_ok]
  obtain ⟨start, hvertices, -, hstart, hcalls⟩ :=
    trace_spans hs 1 hlength (fun y hy => by rw [hmem y hy, hx])
  obtain ⟨ys, hsound⟩ := hstart.1
  have hpoint : ∀ v ∈ start.simplex.vertices, v.point = s.box.clip x := by
    rw [hvertices]
    exact List.forall_mem_map.2 fun y hy => congrArg s.box.clip (hmem y hy)
  have hbest : Scalar.isFinite start.simplex.sort.best.value = true := by
    rw [(hsound.vertices _ hsound.best_le.1).value]
    exact hf _
  rw [← hstart.center_eq hpoint]
  change _ ∈ (s.trace 1 xs).calls
  rw [hcalls]
  exact List.mem_append_right _ (List.mem_append_left _ (center_mem_calls hbest))

/-- A run calls its objective in the box, but for the centroids of points of the box at which it
tests a simplex. The box is steady just where no run calls any objective outside of it, and it is
when the multiples of its bounds are not rounded. -/
theorem runs_contained {s : SimplexSearch Float} (hs : s.check = .ok ()) :
    (∀ xs run, s.Runs xs run → ∀ x ∈ run.calls, s.box.Contains x ∨
      ∃ ys : List (Vec Float), ys.length = s.box.length ∧ (∀ y ∈ ys, s.box.Contains y) ∧
        x = Vec.centroid s.box.length ys) ∧
    (s.box.Steady ↔ ∀ (o : Objective Float) xs run, Runs { s with objective := o } xs run →
      ∀ x ∈ run.calls, s.box.Contains x) ∧
    (s.box.length < 2 ^ 53 →
      (∀ i ∈ s.box, HasMultiples s.box.length i.lower ∧ HasMultiples s.box.length i.upper) →
        s.box.Steady) := by
  have hbox := check_box hs
  refine ⟨fun xs run h x hx => h.mem_calls hs hx, ⟨?_, ?_⟩, Box.steady_of_multiples hbox⟩
  · intro hsteady o xs run h x hx
    obtain hx | ⟨ys, hl, hys, rfl⟩ := Runs.mem_calls (s := { s with objective := o }) hs h hx
    · exact hx
    · exact hsteady.contains_centroid hbox hl hys
  · intro h corner hcorner
    have hin : s.box.Contains corner := by
      obtain ⟨hlower, hupper⟩ := Box.contains_corners hbox
      obtain rfl | hcorner := List.mem_cons.1 hcorner
      · exact hlower
      · rwa [List.mem_singleton.1 hcorner]
    -- the objective does not matter as long as it is finite
    let flat : SimplexSearch Float := { s with objective := .ofValue fun _ => 0 }
    have hf : ∀ y, Scalar.isFinite (flat.ranked y) = true := by
      intro y
      change Scalar.isFinite (Scalar.ranked (s.config.goal.orient (0 : Float))) = true
      cases s.config.goal <;> decide
    obtain ⟨xs, run, hrun, hx⟩ := exists_run_of_replicate (s := flat) hs hf hin.length
    exact Box.contains_replicate hbox hin (h _ xs run hrun _ hx)

def kerb (upper : Float) : SimplexSearch Float where
  objective := .ofValue fun x => if 0.1 < x.getD 2 0 then 1 else 0
  box := List.replicate 3 ⟨-1, upper⟩
  config := { Simplex.Config.standard with stopping := .afterIterations 0 }

theorem kerb_steady : (kerb 1).box.Steady ∧
    ∀ x ∈ ((kerb 1).runStart [0, 0, 0]).calls, (kerb 1).box.Contains x := by
  have hs : (kerb 1).check = .ok () := by decide +kernel
  obtain ⟨-, hsteady, hmultiples⟩ := runs_contained hs
  have hbounds : ∀ i ∈ (kerb 1).box, HasMultiples 3 i.lower ∧ HasMultiples 3 i.upper := by
    have hone : |Binary64.toRat 1| = (1 : ℕ) := by
      rw [Binary64.toRat_one, abs_one, Nat.cast_one]
    refine List.forall_mem_replicate.2 (.inr ⟨?_, ?_⟩)
    · refine Binary64.hasMultiples_of_whole (m := 1) (by norm_num) ?_
      rw [Binary64.toRat_neg, abs_neg, hone]
    · exact Binary64.hasMultiples_of_whole (by norm_num) hone
  have hbox := hmultiples (by decide) hbounds
  exact ⟨hbox, hsteady.1 hbox (kerb 1).objective _ _
    (.start (kerb 1).config.stopping.budget [0, 0, 0])⟩

theorem kerb_center : ((kerb 0.1).runStart [0.1, 0.1, 0.1]).calls.getLast? =
    some [0.08166666666666668, 0.08166666666666667, 0.10000000000000002] := by
  decide +kernel

theorem centroid_escapes :
    ¬ ∀ (s : SimplexSearch Float) (xs : List (Vec Float)) (run : Run Float (Vec Float) (Vec Float)),
      s.check = .ok () → s.Runs xs run → ∀ x ∈ run.calls, s.box.Contains x := by
  intro h
  obtain ⟨-, -, ⟨-, hle⟩, -⟩ := h (kerb 0.1) _ _ (by decide +kernel)
    (.start (kerb 0.1).config.stopping.budget [0.1, 0.1, 0.1]) _
    (List.mem_of_getLast? kerb_center)
  revert hle
  decide +kernel

end SimplexSearch

end Optima
