import Mathlib.Tactic.Module
import Optima.Proofs.Clipping
import Optima.Proofs.Simplex.Run
import Optima.Proofs.Simplex.Volume

/-!
The shape of the simplex in exact arithmetic. The simplex around a start point is not degenerate,
and an iteration that the box does not interfere with scales its volume by a positive factor, one
for each way to move: so no run loses a dimension by itself.
-/

namespace Optima

namespace Simplex

/-- The ways in which an iteration moves a simplex. -/
inductive Move
  | reflected
  | expanded
  | contracted
  | shrunk
  deriving DecidableEq

section

variable {α : Type} [Scalar α]

def move (c : Config α) (box : Box α) (f : Vec α → α) (s : Simplex α) (center : Vec α) : Move :=
  let r := toward box center (-c.reflection) s.worst.point
  if f r < s.best.value then
    if f (toward box center c.expansion r) < f r then .expanded else .reflected
  else if f r < s.secondWorst.value then .reflected
  else if f (toward box center c.contraction s.worst.point) < s.worst.value then .contracted
  else .shrunk

/-- Clipping changes no point of an iteration: it evaluates the same points as without a box. -/
def Unclipped (c : Config α) (box : Box α) (f : Vec α → α) (s : Simplex α) (center : Vec α) :
    Prop :=
  (step c box f s center).calls = (step c [] f s center).calls

end

noncomputable def Move.ratio (c : Config ℝ) (n : ℕ) : Move → ℝ
  | .reflected => c.reflection
  | .expanded => c.reflection * c.expansion
  | .contracted => c.contraction
  | .shrunk => c.shrink ^ n

theorem Config.coefficients_pos {c : Config ℝ} (hc : c.check = .ok ()) :
    0 < c.reflection ∧ 0 < c.expansion ∧ 0 < c.contraction ∧ 0 < c.shrink ∧ 0 < c.initialStep ∧
      c.initialStep ≤ 1 := by
  simp only [check, Requirement.check_bind_eq_ok, demand_bind_eq_ok, Requirement.holds,
    Bool.and_eq_true, decide_eq_true_eq, Exact.literal_zero, Exact.literal_one] at hc
  obtain ⟨-, hr, ⟨he, -⟩, ⟨hk, -⟩, ⟨hs, -⟩, ⟨hi, hi1⟩, -⟩ := hc
  exact ⟨hr, zero_lt_one.trans he, hk, hs, hi, hi1⟩

theorem Move.ratio_pos {c : Config ℝ} (hc : c.check = .ok ()) (n : ℕ) (m : Move) :
    0 < m.ratio c n := by
  obtain ⟨hr, he, hk, hs, -⟩ := Config.coefficients_pos hc
  cases m with
  | reflected => exact hr
  | expanded => exact mul_pos hr he
  | contracted => exact hk
  | shrunk => exact pow_pos hs n

variable {n : ℕ} {s : Simplex ℝ} {c : Config ℝ} {box : Box ℝ} {f : Vec ℝ → ℝ} {center : Vec ℝ}

theorem toward_nil {x : Vec ℝ} (hc : center.length = n) (hx : x.length = n) (k : ℝ) :
    (toward [] center k x).length = n ∧
      Vec.toFun n (toward [] center k x) = (1 - k) • Vec.toFun n center + k • Vec.toFun n x := by
  rw [toward, Box.clip_nil, Vec.linearCombination, Exact.literal_one]
  have hleft : (Vec.scale center (1 - k)).length = n := by rw [Vec.scale_length, hc]
  have hright : (Vec.scale x k).length = n := by rw [Vec.scale_length, hx]
  refine ⟨by rw [Vec.add_length, hleft, hright, Nat.min_self], ?_⟩
  rw [Vec.add, Vec.toFun_zipWith _ hleft hright, Vec.toFun_scale hc, Vec.toFun_scale hx]
  rfl

theorem toward_of_contains {x y : Vec ℝ} {k : ℝ} (hy : toward [] center k x = y)
    (h : box.Contains y) : toward box center k x = y := by
  rw [toward, Box.clip_nil] at hy
  rw [toward, hy, Box.clip_eq_self h]

/-- A simplex of the same dimension whose volume is `k` times as large, up to sign. -/
structure Scaled (n : ℕ) (s : Simplex ℝ) (k : ℝ) (u : Simplex ℝ) : Prop where
  spans : u.Spans n
  volume : u.volume n = |k| * s.volume n

theorem Scaled.of_pos {u : Simplex ℝ} {k : ℝ} (h : Scaled n s k u) (hk : 0 < k)
    (hs : s.Nondegenerate n) : u.Nondegenerate n ∧ u.volume n = k * s.volume n := by
  have hvolume := h.volume
  rw [abs_of_pos hk] at hvolume
  refine ⟨?_, hvolume⟩
  rw [nondegenerate_iff] at hs ⊢
  rw [hvolume]
  exact mul_ne_zero hk.ne' hs

theorem Scaled.trans {u w : Simplex ℝ} {k l : ℝ} (h : Scaled n s k u)
    (hw : Scaled n u l w) : Scaled n s (k * l) w := by
  refine ⟨hw.spans, ?_⟩
  rw [hw.volume, h.volume, abs_mul]
  ring

theorem Scaled.replaced (h : s.Spans n) {v : Vertex ℝ} (hv : v.point.length = n) {k : ℝ}
    (he : Vec.toFun n v.point =
      (1 - k) • baseCentroid (s.corners n) + k • Vec.toFun n s.worst.point) :
    Scaled n s k { s with worst := v } := by
  refine ⟨h.replaced hv, ?_⟩
  rw [Simplex.volume, edges, corners_replaced h hv, he, ← corners_last h,
    det_edgesOf_update h.pos, abs_mul]
  rfl

theorem Scaled.shrunk (h : s.Spans n) (c : Config ℝ) (f : Vec ℝ → ℝ) :
    Scaled n s (c.shrink ^ n) (shrinkTowardBest c [] f s).value := by
  have hv := shrinkTowardBest_vertices c [] f s
  have hbest := h.point _ s.best_mem
  have hpoint : ∀ v ∈ s.inner ++ [s.worst], v.point.length = n := fun v hv =>
    h.point v (List.mem_cons_of_mem _ hv)
  have hcount : (s.inner ++ [s.worst]).length = n := by simp [h.count]
  constructor
  · constructor
    · have hlength := congrArg List.length hv
      rw [vertices_length, List.length_cons, drawn, List.length_map, hcount] at hlength
      omega
    · rw [hv]
      refine List.forall_mem_cons.2 ⟨hbest, List.forall_mem_map.2 ?_⟩
      intro v hv
      exact (toward_nil hbest (hpoint v hv) _).1
  · have hcorners : ∀ i : Fin n, corners n (shrinkTowardBest c [] f s).value i.succ =
        (1 - c.shrink) • s.corners n 0 + c.shrink • s.corners n i.succ := by
      intro i
      have hi : (i : ℕ) < (s.inner ++ [s.worst]).length := hcount.symm ▸ i.isLt
      have hold : s.corners n i.succ = Vec.toFun n (s.inner ++ [s.worst])[(i : ℕ)].point := by
        rw [corners, vertices, List.map_cons, Fin.val_succ, List.getD_cons_succ,
          List.getD_eq_getElem _ _ (by rwa [List.length_map]), List.getElem_map]
      rw [hold, corners, hv, drawn, List.map_cons, Fin.val_succ, List.getD_cons_succ,
        List.getD_eq_getElem _ _ (by rwa [List.length_map, List.length_map]), List.getElem_map,
        List.getElem_map, corners_zero]
      exact (toward_nil hbest (hpoint _ (List.getElem_mem _)) _).2
    have hzero : corners n (shrinkTowardBest c [] f s).value 0 = s.corners n 0 := by
      rw [corners, hv]
      rfl
    rw [Simplex.volume, edges, det_edgesOf_shrink hzero hcorners, abs_mul]
    rfl

theorem shrinkTowardBest_congr {box' : Box ℝ}
    (h : (shrinkTowardBest c box f s).calls = (shrinkTowardBest c box' f s).calls) :
    (shrinkTowardBest c box f s).value = (shrinkTowardBest c box' f s).value := by
  rw [shrinkTowardBest_calls, shrinkTowardBest_calls, drawn, drawn, List.map_map, List.map_map,
    List.map_inj_left] at h
  have hpoint : ∀ v ∈ s.inner ++ [s.worst],
      toward box s.best.point c.shrink v.point = toward box' s.best.point c.shrink v.point := h
  have hworst := hpoint s.worst (by simp)
  simp only [shrinkTowardBest, Traced.value_bind, Traced.value_forEach, Traced.value_pure, evaluate,
    Traced.value_call, hworst, Simplex.mk.injEq, and_true, true_and]
  refine List.map_congr_left fun v hv => ?_
  rw [hpoint v (List.mem_append_left [s.worst] hv)]

theorem Unclipped.reflected (h : Unclipped c box f s center) :
    toward [] center (-c.reflection) s.worst.point =
      toward box center (-c.reflection) s.worst.point := by
  simp only [Unclipped, step, evaluate_bind] at h
  exact (List.cons.inj h).1.symm

theorem Unclipped.expanded (h : Unclipped c box f s center) {r : Vec ℝ}
    (hr : toward box center (-c.reflection) s.worst.point = r) (hb : f r < s.best.value) :
    toward [] center c.expansion r = toward box center c.expansion r := by
  have hr0 := h.reflected.trans hr
  rw [Unclipped, step_expanded hr rfl hb, step_expanded hr0 rfl hb] at h
  exact (List.cons.inj (List.cons.inj h).2).1.symm

theorem exists_step_calls {r : Vec ℝ} (hr : toward box center (-c.reflection) s.worst.point = r)
    (hb : ¬ f r < s.best.value) (hw : ¬ f r < s.secondWorst.value) :
    ∃ xs, (step c box f s center).calls =
      r :: toward box center c.contraction s.worst.point :: xs := by
  by_cases hlt : f (toward box center c.contraction s.worst.point) < s.worst.value
  · exact ⟨_, by rw [step_contracted hr rfl hb hw hlt]⟩
  · exact ⟨_, by rw [step_shrunk hr rfl hb hw hlt]⟩

theorem Unclipped.contracted (h : Unclipped c box f s center) {r : Vec ℝ}
    (hr : toward box center (-c.reflection) s.worst.point = r) (hb : ¬ f r < s.best.value)
    (hw : ¬ f r < s.secondWorst.value) :
    toward [] center c.contraction s.worst.point =
      toward box center c.contraction s.worst.point := by
  obtain ⟨xs, hxs⟩ := exists_step_calls hr hb hw
  obtain ⟨ys, hys⟩ := exists_step_calls (h.reflected.trans hr) hb hw
  rw [Unclipped, hxs, hys] at h
  exact (List.cons.inj (List.cons.inj h).2).1.symm

theorem Unclipped.shrunk (h : Unclipped c box f s center) {r k : Vec ℝ}
    (hr : toward box center (-c.reflection) s.worst.point = r)
    (hk : toward box center c.contraction s.worst.point = k) (hb : ¬ f r < s.best.value)
    (hw : ¬ f r < s.secondWorst.value) (hlt : ¬ f k < s.worst.value) :
    (shrinkTowardBest c box f s).value = (shrinkTowardBest c [] f s).value := by
  have hr0 := h.reflected.trans hr
  have hk0 := (h.contracted hr hb hw).trans hk
  rw [Unclipped, step_shrunk hr hk hb hw hlt, step_shrunk hr0 hk0 hb hw hlt] at h
  exact shrinkTowardBest_congr (List.cons.inj (List.cons.inj h).2).2

theorem step_scaled (h : s.Spans n) (hcenter : center = Vec.centroid n (s.base.map (·.point)))
    (hfree : Unclipped c box f s center) :
    Scaled n s ((move c box f s center).ratio c n) (step c box f s center).value.1 := by
  have hworst := h.point _ s.worst_mem
  have hlength : center.length = n := by
    rw [hcenter]
    exact Vec.centroid_length (List.forall_mem_map.2 fun v hv =>
      h.point v (List.mem_append_left [s.worst] hv))
  have hmean : Vec.toFun n center = baseCentroid (s.corners n) := by rw [hcenter, toFun_centroid h]
  obtain ⟨r, hr⟩ : ∃ r, toward box center (-c.reflection) s.worst.point = r := ⟨_, rfl⟩
  obtain ⟨hrl, hre⟩ := toward_nil hlength hworst (-c.reflection)
  rw [hfree.reflected, hr] at hrl hre
  rw [hmean] at hre
  have hreflected : Scaled n s c.reflection { s with worst := ⟨r, f r⟩ } := by
    obtain ⟨hspans, hvolume⟩ := Scaled.replaced h (v := ⟨r, f r⟩) hrl hre
    exact ⟨hspans, by rwa [abs_neg] at hvolume⟩
  by_cases hb : f r < s.best.value
  · obtain ⟨e, he⟩ : ∃ e, toward box center c.expansion r = e := ⟨_, rfl⟩
    rw [step_expanded hr he hb]
    by_cases her : f e < f r
    · have hmove : move c box f s center = .expanded := by simp [move, hr, he, hb, her]
      obtain ⟨hel, hee⟩ := toward_nil hlength hrl c.expansion
      rw [hfree.expanded hr hb, he] at hel hee
      have hcombined : Vec.toFun n e =
          (1 - -(c.reflection * c.expansion)) • baseCentroid (s.corners n) +
            -(c.reflection * c.expansion) • Vec.toFun n s.worst.point := by
        rw [hee, hmean, hre]
        module
      obtain ⟨hspans, hvolume⟩ := Scaled.replaced h (v := ⟨e, f e⟩) hel hcombined
      rw [if_pos her, hmove]
      exact ⟨hspans, by rwa [abs_neg] at hvolume⟩
    · have hmove : move c box f s center = .reflected := by simp [move, hr, he, hb, her]
      rw [if_neg her, hmove]
      exact hreflected
  · by_cases hw : f r < s.secondWorst.value
    · have hmove : move c box f s center = .reflected := by simp [move, hr, hb, hw]
      rw [step_reflected hr hb hw, hmove]
      exact hreflected
    · obtain ⟨k, hk⟩ : ∃ k, toward box center c.contraction s.worst.point = k := ⟨_, rfl⟩
      by_cases hlt : f k < s.worst.value
      · have hmove : move c box f s center = .contracted := by simp [move, hr, hk, hb, hw, hlt]
        obtain ⟨hkl, hke⟩ := toward_nil hlength hworst c.contraction
        rw [hfree.contracted hr hb hw, hk] at hkl hke
        rw [hmean] at hke
        rw [step_contracted hr hk hb hw hlt, hmove]
        exact Scaled.replaced h hkl hke
      · have hmove : move c box f s center = .shrunk := by simp [move, hr, hk, hb, hw, hlt]
        rw [step_shrunk hr hk hb hw hlt, hmove]
        dsimp only
        rw [hfree.shrunk hr hk hb hw hlt]
        exact Scaled.shrunk h c f

end Simplex

theorem Interval.clip_corner_ne {i : Interval ℝ} (h : i.lower < i.upper) {a : ℝ} (ha : i.Contains a)
    {t : ℝ} (h0 : 0 < t) (h1 : t ≤ 1) :
    i.clip (if a + t * i.width ≤ i.upper then a + t * i.width else a - t * i.width) ≠ a := by
  obtain ⟨hl, hu⟩ := ha
  have hwidth : 0 < i.width := sub_pos.2 h
  have hstep : 0 < t * i.width := mul_pos h0 hwidth
  have hle : t * i.width ≤ i.upper - i.lower := mul_le_of_le_one_left hwidth.le h1
  split
  · next hroom =>
    rw [clip_eq_self ⟨by linarith, hroom⟩]
    linarith
  · next hroom =>
    obtain ⟨he, -⟩ | ⟨he, -⟩ | ⟨he, hc⟩ := clip_cases h.le (a - t * i.width)
    all_goals
      rw [he]
      linarith

namespace SimplexSearch

open Simplex (Scaled corners)

variable {s : SimplexSearch ℝ}

noncomputable def moved (s : SimplexSearch ℝ) (i : Interval ℝ) (a : ℝ) : ℝ :=
  if a + s.config.initialStep * i.width ≤ i.upper then a + s.config.initialStep * i.width
  else a - s.config.initialStep * i.width

theorem axisPoints_getD (s : SimplexSearch ℝ) (x : Vec ℝ) {k : ℕ} (hk : k < s.box.length) :
    (s.axisPoints x).getD (k + 1) [] = (s.box.clip x).modify k (s.moved s.box[k]) := by
  rw [axisPoints, List.getD_cons_succ, List.getD_eq_getElem _ _ (by simpa using hk)]
  simp only [List.getElem_map, List.getElem_zipIdx, Nat.zero_add]
  rfl

section Initial

variable {x : Vec ℝ} {simplex : Simplex ℝ}

theorem corners_initial_zero (hbox : s.box.check = .ok ()) (hx : x.length = s.box.length)
    (hv : simplex.vertices =
      (s.axisPoints x).map (fun x => ⟨s.box.clip x, s.ranked (s.box.clip x)⟩)) :
    simplex.corners s.box.length 0 = Vec.toFun s.box.length (s.box.clip x) := by
  have hclip := Box.contains_clip (fun i hi => Box.ordered hbox hi) hx
  rw [Simplex.corners, hv]
  exact congrArg (Vec.toFun s.box.length) (Box.clip_eq_self hclip)

theorem corners_initial_succ (hbox : s.box.check = .ok ()) (hx : x.length = s.box.length)
    (hv : simplex.vertices =
      (s.axisPoints x).map (fun x => ⟨s.box.clip x, s.ranked (s.box.clip x)⟩))
    (k j : Fin s.box.length) :
    simplex.corners s.box.length k.succ j =
      if k = j then s.box[k].clip (s.moved s.box[k] (simplex.corners s.box.length 0 j))
      else simplex.corners s.box.length 0 j := by
  have hclip := Box.contains_clip (fun i hi => Box.ordered hbox hi) hx
  have hl : (s.axisPoints x).length = s.box.length + 1 := (axisPoints_length hx).1
  have hpoint : simplex.corners s.box.length k.succ =
      Vec.toFun s.box.length (s.box.clip ((s.box.clip x).modify k (s.moved s.box[k]))) := by
    rw [Simplex.corners, hv, List.map_map, Fin.val_succ, List.getD_eq_getElem _ _ (by simp [hl]),
      List.getElem_map, ← List.getD_eq_getElem _ [], axisPoints_getD]
    rfl
  have hj : (j : ℕ) < (s.box.clip x).length := by rw [Box.clip_length, hx]; exact j.isLt
  rw [hpoint, corners_initial_zero hbox hx hv, Vec.toFun_apply (by simp [hx]),
    Vec.toFun_apply (by simp [hx]), Box.getElem_clip _ _ _ j.isLt (by simpa using hj),
    List.getElem_modify]
  simp only [Fin.ext_iff]
  split
  · next hkj =>
    obtain rfl := Fin.ext hkj
    rfl
  · exact Interval.clip_eq_self (hclip.getElem j.isLt hj)

theorem edges_initial (hbox : s.box.check = .ok ()) (hx : x.length = s.box.length)
    (hv : simplex.vertices =
      (s.axisPoints x).map (fun x => ⟨s.box.clip x, s.ranked (s.box.clip x)⟩)) :
    simplex.edges s.box.length = Matrix.diagonal fun k =>
      s.box[k].clip (s.moved s.box[k] (corners s.box.length simplex 0 k)) -
        corners s.box.length simplex 0 k := by
  ext k j
  rw [Simplex.edges, Simplex.edgesOf, Matrix.of_apply, Pi.sub_apply,
    corners_initial_succ hbox hx hv, Matrix.diagonal_apply]
  split
  · next hkj => rw [hkj]
  · exact sub_self _

theorem initial_nondegenerate (hb : s.box.check = .ok ()) (hc : s.config.check = .ok ())
    (hbox : ∀ i ∈ s.box, i.lower < i.upper) (hx : x.length = s.box.length) :
    ∃ t, (s.initial (s.axisPoints x)).value = some t ∧
      (∀ v ∈ t.simplex.vertices, s.box.Contains v.point) ∧ t.simplex.Spans s.box.length ∧
      t.simplex.Nondegenerate s.box.length := by
  obtain ⟨-, -, -, -, h0, h1⟩ := Simplex.Config.coefficients_pos hc
  obtain ⟨hl, hpoints⟩ := axisPoints_length hx
  have hpos : 0 < s.box.length := List.length_pos_iff.2 ((Box.check_eq_ok _).1 hb).1
  have hsize : 2 ≤ (s.axisPoints x).length := by omega
  obtain ⟨simplex, hv, hi⟩ := s.initial_some hsize
  have hcontains : ∀ v ∈ simplex.vertices, s.box.Contains v.point := by
    rw [hv]
    exact List.forall_mem_map.2 fun y hy =>
      Box.contains_clip (fun i hi => Box.ordered hb hi) (hpoints y hy)
  have hspans : simplex.Spans s.box.length := by
    refine ⟨?_, fun v hv => (hcontains v hv).length⟩
    have hcount := congrArg List.length hv
    rw [Simplex.vertices_length, List.length_map, hl] at hcount
    omega
  refine ⟨_, by rw [hi], hcontains, hspans, ?_⟩
  have hclip := Box.contains_clip (fun i hi => Box.ordered hb hi) hx
  rw [Simplex.nondegenerate_iff, Simplex.volume, edges_initial hb hx hv, abs_ne_zero,
    Matrix.det_diagonal, Finset.prod_ne_zero_iff]
  intro k _
  rw [sub_ne_zero, corners_initial_zero hb hx hv, Vec.toFun_apply hclip.length]
  exact Interval.clip_corner_ne (hbox _ (List.getElem_mem _)) (hclip.getElem _ _) h0 h1

end Initial

section Ways

variable {α : Type} [Scalar α]

def move (s : SimplexSearch α) (t : State α) : Simplex.Move :=
  Simplex.move s.config s.box s.ranked t.simplex.sort (s.center t)

def Unclipped (s : SimplexSearch α) (t : State α) : Prop :=
  Simplex.Unclipped s.config s.box s.ranked t.simplex.sort (s.center t)

end Ways

theorem round_scaled {t u : State ℝ} (ht : t.simplex.Spans s.box.length) (hfree : s.Unclipped t)
    (h : (s.round t).value = .inl u) :
    Scaled s.box.length t.simplex ((s.move t).ratio s.config s.box.length) u.simplex := by
  have hperm := (Simplex.sort_spec (s := t.simplex) fun _ _ => rfl).2
  obtain ⟨hspans, hvolume⟩ := Simplex.step_scaled (ht.of_perm hperm) rfl hfree
  rw [(round_inl h).2.1]
  refine ⟨hspans, ?_⟩
  rw [← Simplex.volume_perm ht hperm]
  exact hvolume

noncomputable def ratio (s : SimplexSearch ℝ) (ts : List (State ℝ)) : ℝ :=
  (ts.map fun t => (s.move t).ratio s.config s.box.length).prod

theorem ratio_pos (hc : s.config.check = .ok ()) (ts : List (State ℝ)) : 0 < s.ratio ts :=
  List.prod_pos (List.forall_mem_map.2 fun t _ => (s.move t).ratio_pos hc _)

theorem visits_scaled {start t : State ℝ} {ts : List (State ℝ)}
    (h : start.simplex.Spans s.box.length) (hfree : ∀ u ∈ ts, s.Unclipped u)
    (ht : Traced.Visits s.round start ts t) :
    Scaled s.box.length start.simplex (s.ratio ts) t.simplex := by
  induction ht with
  | refl => exact ⟨h, by simp [ratio]⟩
  | @tail ts t u _ hu ih =>
    obtain ⟨hts, ht⟩ := List.forall_mem_append.1 hfree
    have hprefix := ih hts
    have hlast := round_scaled hprefix.spans (ht t List.mem_cons_self) hu
    rw [ratio, List.map_append, List.prod_append, List.map_singleton, List.prod_singleton]
    exact hprefix.trans hlast

/-- In exact arithmetic the simplex around a start point lies in the box and has independent edges
from its first vertex. An iteration that the box does not interfere with keeps them independent: it
scales the volume by the factor of its move. So does a run, by the product of these factors. -/
theorem simplices_nondegenerate {c : Simplex.Config ℝ} (hc : c.check = .ok ()) :
    (∀ (o : Objective ℝ) (box : Box ℝ) (x : Vec ℝ), box.check = .ok () →
      (∀ i ∈ box, i.lower < i.upper) → x.length = box.length →
      ∃ t, ((⟨o, box, c⟩ : SimplexSearch ℝ).initial (axisPoints ⟨o, box, c⟩ x)).value = some t ∧
        (∀ v ∈ t.simplex.vertices, box.Contains v.point) ∧ t.simplex.Spans box.length ∧
        t.simplex.Nondegenerate box.length) ∧
    (∀ (n : ℕ) (box : Box ℝ) (f : Vec ℝ → ℝ) (s : Simplex ℝ), s.Spans n → s.Nondegenerate n →
      ∀ center, center = Vec.centroid n (s.base.map (·.point)) →
        Simplex.Unclipped c box f s center →
        (Simplex.step c box f s center).value.1.Nondegenerate n ∧
          (Simplex.step c box f s center).value.1.volume n =
            (Simplex.move c box f s center).ratio c n * s.volume n) ∧
    ∀ s : SimplexSearch ℝ, s.config = c → ∀ start ts t, Traced.Visits s.round start ts t →
      start.simplex.Spans s.box.length → start.simplex.Nondegenerate s.box.length →
      (∀ u ∈ ts, s.Unclipped u) →
      t.simplex.Nondegenerate s.box.length ∧
        t.simplex.volume s.box.length = s.ratio ts * start.simplex.volume s.box.length := by
  refine ⟨?_, ?_, ?_⟩
  · intro o box x hb hbox hx
    exact initial_nondegenerate (s := ⟨o, box, c⟩) hb hc hbox hx
  · rintro n box f s hspans hs center hcenter hfree
    exact (Simplex.step_scaled hspans hcenter hfree).of_pos (Simplex.Move.ratio_pos hc n _) hs
  · rintro s rfl start ts t ht hspans hs hfree
    exact (visits_scaled hspans hfree ht).of_pos (ratio_pos hc ts) hs

end SimplexSearch

namespace Simplex

theorem Config.standard_check : (Config.standard : Config ℝ).check = .ok () := by
  simp only [Config.check, Config.standard, Stopping.check, Stopping.afterIterations,
    Stopping.checkTolerance, Requirement.check_bind_eq_ok, demand_bind_eq_ok, Requirement.holds,
    Exact.literal_zero, Exact.literal_one, Exact.literal_scientific]
  refine ⟨?_, ?_, ?_, ?_, ?_, ?_, rfl⟩ <;> norm_num

def triangle : Simplex ℝ := ⟨⟨[0, 0], 0⟩, [⟨[0, 1], 0⟩], ⟨[1, 0], 1⟩⟩

theorem triangle_spans : triangle.Spans 2 := by
  refine ⟨rfl, ?_⟩
  simp [triangle, vertices]

theorem triangle_volume : triangle.volume 2 = 1 := by
  rw [volume, Matrix.det_fin_two]
  norm_num [edges, edgesOf, corners, Vec.toFun, triangle, vertices]

noncomputable def around : Box ℝ := [⟨-5, 5⟩, ⟨-5, 5⟩]

theorem triangle_expands :
    (step .standard around (·.getD 0 0) triangle [0, 1 / 2]).value.1.Nondegenerate 2 ∧
      (step .standard around (·.getD 0 0) triangle [0, 1 / 2]).value.1.volume 2 =
        2 * triangle.volume 2 := by
  have hreflection : (Config.standard : Config ℝ).reflection = 1 := Exact.literal_one
  have hexpansion : (Config.standard : Config ℝ).expansion = 2 := Nat.cast_ofNat
  have hcenter : [0, 1 / 2] = Vec.centroid 2 (triangle.base.map (·.point)) := by
    have hcount : (Scalar.ofNat 2 : ℝ) = 2 := Nat.cast_ofNat
    simp only [triangle, base, Vec.centroid, Vec.zeros, Vec.add, Vec.quotient, List.map, List.foldl,
      List.replicate, List.zipWith, List.isEmpty, List.length, Exact.literal_zero, hcount]
    norm_num
  have hr0 : toward [] [0, 1 / 2] (-Config.standard.reflection) triangle.worst.point =
      [(-1 : ℝ), 1] := by
    rw [hreflection, toward, Box.clip_nil, Vec.linearCombination, Exact.literal_one]
    norm_num [Vec.scale, Vec.add, triangle]
  have he0 : toward [] [0, 1 / 2] Config.standard.expansion [(-1 : ℝ), 1] = [-2, 3 / 2] := by
    rw [hexpansion, toward, Box.clip_nil, Vec.linearCombination, Exact.literal_one]
    norm_num [Vec.scale, Vec.add]
  have hr : toward around _ _ _ = _ := toward_of_contains hr0
    (by norm_num [around, Box.Contains, Interval.Contains])
  have he : toward around _ _ _ = _ := toward_of_contains he0
    (by norm_num [around, Box.Contains, Interval.Contains])
  have hb : (fun x : Vec ℝ => x.getD 0 0) [-1, 1] < triangle.best.value := by
    norm_num [triangle]
  have hmove : move .standard around (·.getD 0 0) triangle [0, 1 / 2] = .expanded := by
    simp only [move, hr, he]
    norm_num [triangle]
  have hnondegenerate : triangle.Nondegenerate 2 := by
    rw [nondegenerate_iff, triangle_volume]
    exact one_ne_zero
  obtain ⟨-, hstep, -⟩ := SimplexSearch.simplices_nondegenerate Config.standard_check
  obtain ⟨hs, hv⟩ := hstep 2 around (·.getD 0 0) triangle triangle_spans hnondegenerate _ hcenter
    (by rw [Unclipped, step_expanded hr he hb, step_expanded hr0 he0 hb])
  refine ⟨hs, ?_⟩
  rw [hv, hmove, Move.ratio, hreflection, hexpansion, one_mul]

end Simplex

end Optima
