import Mathlib.LinearAlgebra.Matrix.DotProduct
import Optima.Proofs.Clipping
import Optima.Proofs.Descent.Boxed
import Optima.Proofs.LineSearch.Reach
import Optima.Proofs.Linear.Matrix

/-!
Descent within a box in exact arithmetic. Clamping the steepest direction gives the first step of
the projected gradient: it stays in the box, it descends by at least the square of its own length,
and it vanishes just where the point is critical for the box.
-/

namespace Optima

namespace Interval

variable {i : Interval ℝ} {a : ℝ}

theorem clip_shift_cases (h : i.Contains a) (c : ℝ) :
    (i.shift a).clip c = c ∧ i.Contains (a + c) ∨
      (i.shift a).clip c = i.lower - a ∧ c ≤ i.lower - a ∨
      (i.shift a).clip c = i.upper - a ∧ i.upper - a ≤ c := by
  refine (clip_cases (i := i.shift a) (sub_le_sub_right (h.1.trans h.2) a) c).imp_left ?_
  rintro ⟨he, hl, hu⟩
  exact ⟨he, sub_le_iff_le_add'.1 hl, le_sub_iff_add_le'.1 hu⟩

theorem contains_add_shift (h : i.Contains a) (c : ℝ) {t : ℝ} (h0 : 0 ≤ t) (h1 : t ≤ 1) :
    i.Contains (a + (i.shift a).clip c * t) := by
  have hl : i.lower - a ≤ (i.shift a).clip c := (i.shift a).contains_clip
    (sub_le_sub_right (h.1.trans h.2) a) c |>.1
  have hu : (i.shift a).clip c ≤ i.upper - a := (i.shift a).contains_clip
    (sub_le_sub_right (h.1.trans h.2) a) c |>.2
  obtain ⟨hal, hau⟩ := h
  constructor <;> nlinarith

theorem mul_clip_shift_le (h : i.Contains a) (g : ℝ) :
    g * (i.shift a).clip (-g) ≤ -((i.shift a).clip (-g) * (i.shift a).clip (-g)) := by
  obtain ⟨he, -⟩ | ⟨he, hc⟩ | ⟨he, hc⟩ := clip_shift_cases h (-g)
  · rw [he]
    linarith
  · rw [he]
    nlinarith [h.1]
  · rw [he]
    nlinarith [h.2]

/-- The conditions of Karush, Kuhn and Tucker at `a`, for a slope `g`: nonnegative multipliers of
the two faces, each zero off its face, balance the slope. -/
def Critical (i : Interval ℝ) (a g : ℝ) : Prop :=
  ∃ p q, 0 ≤ p ∧ 0 ≤ q ∧ p * (a - i.lower) = 0 ∧ q * (i.upper - a) = 0 ∧ g = p - q

theorem clip_shift_eq_zero_iff (h : i.Contains a) (g : ℝ) :
    (i.shift a).clip (-g) = 0 ↔ i.Critical a g := by
  have hcases := clip_shift_cases h (-g)
  constructor
  · intro hz
    rw [hz] at hcases
    obtain ⟨he, -⟩ | ⟨he, hc⟩ | ⟨he, hc⟩ := hcases
    · exact ⟨0, 0, le_rfl, le_rfl, zero_mul _, zero_mul _, by linarith⟩
    · have hface : a - i.lower = 0 := by linarith
      exact ⟨g, 0, by linarith, le_rfl, by rw [hface, mul_zero], zero_mul _, (sub_zero g).symm⟩
    · have hface : i.upper - a = 0 := he.symm
      exact ⟨0, -g, le_rfl, by linarith, zero_mul _, by rw [hface, mul_zero], by ring⟩
  · rintro ⟨p, q, hp, hq, hpl, hqu, rfl⟩
    obtain ⟨hl, hu⟩ := h
    obtain ⟨he, hl', hu'⟩ | ⟨he, hc⟩ | ⟨he, hc⟩ := hcases
    all_goals
      rw [he]
      obtain hp0 | hp0 := mul_eq_zero.1 hpl <;> obtain hq0 | hq0 := mul_eq_zero.1 hqu <;> linarith

theorem critical_iff (h : i.Contains a) (g : ℝ) :
    i.Critical a g ↔ ∀ b, i.Contains b → 0 ≤ g * (b - a) := by
  constructor
  · rintro ⟨p, q, hp, hq, hpl, hqu, rfl⟩ b ⟨hl, hu⟩
    have hsplit : (p - q) * (b - a) = p * (b - i.lower) + q * (i.upper - b) := by linarith
    rw [hsplit]
    exact add_nonneg (mul_nonneg hp (sub_nonneg.2 hl)) (mul_nonneg hq (sub_nonneg.2 hu))
  · intro hg
    rw [← clip_shift_eq_zero_iff h]
    have hstep := hg _ (by simpa using contains_add_shift h (-g) zero_le_one le_rfl)
    rw [add_sub_cancel_left] at hstep
    nlinarith [mul_clip_shift_le h g]

end Interval

namespace Box

def Critical : Box ℝ → Vec ℝ → Vec ℝ → Prop
  | [], [], [] => True
  | i :: box, a :: x, c :: g => i.Critical a c ∧ Critical box x g
  | _, _, _ => False

variable {box : Box ℝ} {x : Vec ℝ}

theorem contains_along (h : box.Contains x) {d : Vec ℝ} (hd : d.length = x.length) {t : ℝ}
    (h0 : 0 ≤ t) (h1 : t ≤ 1) : box.Contains (Vec.along x (box.clampDirection x d) t) := by
  induction box generalizing x d with
  | nil =>
    cases x with
    | nil => trivial
    | cons => cases h
  | cons i box ih =>
    cases x with
    | nil => cases h
    | cons a x =>
      cases d with
      | nil => cases hd
      | cons c d => exact ⟨Interval.contains_add_shift h.1 c h0 h1, ih h.2 (Nat.succ.inj hd)⟩

theorem dot_clampDirection_le (h : box.Contains x) {g : Vec ℝ} (hg : g.length = x.length) :
    Vec.dot g (box.clampDirection x (Vec.neg g)) ≤
      -Vec.dot (box.clampDirection x (Vec.neg g)) (box.clampDirection x (Vec.neg g)) := by
  induction box generalizing x g with
  | nil =>
    cases x with
    | nil =>
      rw [List.length_eq_zero_iff.1 hg]
      simp [Vec.neg, clampDirection]
    | cons => cases h
  | cons i box ih =>
    cases x with
    | nil => cases h
    | cons a x =>
      cases g with
      | nil => cases hg
      | cons c g =>
        have hrest := ih h.2 (Nat.succ.inj hg)
        have hfirst := Interval.mul_clip_shift_le h.1 c
        simp only [Vec.neg, List.map_cons, clampDirection, Vec.dot_cons] at hrest ⊢
        linarith

theorem isZero_clampDirection_iff (h : box.Contains x) {g : Vec ℝ} (hg : g.length = x.length) :
    Vec.isZero (box.clampDirection x (Vec.neg g)) = true ↔ box.Critical x g := by
  induction box generalizing x g with
  | nil =>
    cases x with
    | nil =>
      rw [List.length_eq_zero_iff.1 hg]
      exact iff_of_true rfl trivial
    | cons => cases h
  | cons i box ih =>
    cases x with
    | nil => cases h
    | cons a x =>
      cases g with
      | nil => cases hg
      | cons c g =>
        have hrest := ih h.2 (Nat.succ.inj hg)
        have hfirst := Interval.clip_shift_eq_zero_iff h.1 c
        simp only [Vec.neg, List.map_cons, clampDirection, Vec.isZero, List.all_cons,
          Bool.and_eq_true, beq_iff_eq, Exact.literal_zero] at hrest ⊢
        exact and_congr hfirst hrest

theorem critical_iff (h : box.Contains x) {g : Vec ℝ} (hg : g.length = x.length) :
    box.Critical x g ↔ ∀ y, box.Contains y → 0 ≤ Vec.dot g (Vec.sub y x) := by
  induction box generalizing x g with
  | nil =>
    cases x with
    | nil =>
      rw [List.length_eq_zero_iff.1 hg]
      exact iff_of_true trivial fun y _ => (Vec.dot_nil _).ge
    | cons => cases h
  | cons i box ih =>
    cases x with
    | nil => cases h
    | cons a x =>
      cases g with
      | nil => cases hg
      | cons c g =>
        rw [Critical, ih h.2 (Nat.succ.inj hg), Interval.critical_iff h.1]
        constructor
        · rintro ⟨hfirst, hrest⟩ y hy
          cases y with
          | nil => cases hy
          | cons b y =>
            rw [Vec.sub, List.zipWith_cons_cons, Vec.dot_cons]
            exact add_nonneg (hfirst b hy.1) (hrest y hy.2)
        · intro hall
          -- Each part of the box is reached with the other coordinates left where they are.
          constructor
          · intro b hb
            have hb := hall (b :: x) ⟨hb, h.2⟩
            rw [Vec.sub, List.zipWith_cons_cons, Vec.dot_cons] at hb
            have hzero : Vec.dot g (List.zipWith (· - ·) x x) = 0 :=
              Vec.dot_of_isZero (by simp [Vec.isZero, List.zipWith_self])
            rwa [hzero, add_zero] at hb
          · intro y hy
            have hy := hall (a :: y) ⟨h.1, hy⟩
            rwa [Vec.sub, List.zipWith_cons_cons, Vec.dot_cons, sub_self, mul_zero, zero_add] at hy

end Box

namespace Vec

theorem dot_comm (x y : Vec ℝ) : dot x y = dot y x := by
  rw [dot_eq_sum, dot_eq_sum, List.zipWith_comm_of_comm mul_comm]

theorem dot_self_nonneg (x : Vec ℝ) : 0 ≤ dot x x := by
  rw [dot_eq rfl rfl]
  exact Finset.sum_nonneg fun i _ => mul_self_nonneg _

theorem dot_self_eq_zero_iff {x : Vec ℝ} : dot x x = 0 ↔ isZero x = true := by
  rw [dot_eq rfl rfl, isZero_iff rfl, dotProduct_self_eq_zero]

theorem norm_eq_zero_iff {x : Vec ℝ} : norm x = 0 ↔ isZero x = true := by
  rw [← dot_self_eq_zero_iff]
  exact Real.sqrt_eq_zero (dot_self_nonneg x)

end Vec

namespace Descent

theorem Config.bounds_of_box {α : Type} {c : Config α} {box : Box α} (hb : c.box = some box) :
    c.method = .boxConstrained ∧ c.bounds = some box := by
  rw [Config.box] at hb
  split at hb
  · next hm => exact ⟨hm, hb⟩
  · cases hb

theorem momentumDirection_cases {α : Type} [Scalar α] {c : Config α} {box : Box α}
    (hb : c.box = some box) (u : State α) :
    momentumDirection c u = box.clampDirection u.iterate.point u.iterate.steepest ∨
      u.iterate.descends (momentumDirection c u) = true ∧
        ∃ previous ∈ u.direction, momentumDirection c u = box.clampDirection u.iterate.point
          (Vec.sub (Vec.scale previous c.momentum) u.iterate.gradient) := by
  simp only [momentumDirection, hb, constrainTo, Option.elim_some]
  cases u.direction with
  | none => exact .inl (ite_self _)
  | some previous =>
    by_cases hm : 0 < c.momentum
    · simp only [if_pos hm]
      split
      · next hd => exact .inr ⟨hd, previous, rfl, rfl⟩
      · exact .inl rfl
    · simp only [if_neg hm]
      exact .inl (ite_self _)

theorem momentumStep_calls {α : Type} [Scalar α] {c : Config α} {f : LineFunction α} {u : State α}
    {y : Vec α} (hy : y ∈ (momentumStep c f u).calls) :
    let search := u.iterate.search c.search f (momentumDirection c u)
    y ∈ search.calls ∨
      y ∈ (f.gradient (clipTo c.box search.value.point) search.value.value).calls := by
  rw [momentumStep, Traced.calls_bind, List.mem_append] at hy
  refine hy.imp_right fun hy => ?_
  split at hy
  · cases hy
  · rw [Traced.calls_bind, Traced.calls_pure, List.append_nil, arrive] at hy
    split at hy
    · cases hy
    · rwa [Traced.calls_bind, Traced.calls_pure, List.append_nil] at hy

variable {c : Config ℝ} {box : Box ℝ} {u : State ℝ}

theorem Iterate.descends_iff {i : Iterate ℝ} {d : Vec ℝ} :
    i.descends d = true ↔ Vec.dot i.gradient d < 0 := by
  rw [Vec.dot_comm]
  simp [descends]

/-- What an iteration within a box is sure of: no step up to one leads out of the box, the direction
descends unless it is zero at a critical point, and a zero norm tells a critical point. -/
structure Guided (c : Config ℝ) (box : Box ℝ) (u : State ℝ) : Prop where
  contains : ∀ a, 0 ≤ a → a ≤ 1 →
    box.Contains (Vec.along u.iterate.point (momentumDirection c u) a)
  descends : Vec.dot u.iterate.gradient (momentumDirection c u) < 0 ∨
    Vec.isZero (momentumDirection c u) = true ∧ box.Critical u.iterate.point u.iterate.gradient
  critical : gradientNorm c u.iterate = 0 ↔ box.Critical u.iterate.point u.iterate.gradient

theorem guided (hb : c.box = some box) (hx : box.Contains u.iterate.point)
    (hu : u.Shaped box.length) : Guided c box u := by
  have hg : u.iterate.gradient.length = u.iterate.point.length := by
    rw [hu.iterate.gradient, hu.iterate.point]
  have hle := Box.dot_clampDirection_le hx hg
  have hzero := Box.isZero_clampDirection_iff hx hg
  constructor
  · intro a h0 h1
    obtain he | ⟨-, previous, hp, he⟩ := momentumDirection_cases hb u
    · rw [he]
      exact Box.contains_along hx (by rw [hu.iterate.steepest, hu.iterate.point]) h0 h1
    · rw [he]
      have hlength : (Vec.sub (Vec.scale previous c.momentum) u.iterate.gradient).length =
          u.iterate.point.length := by
        simp [hu.direction previous hp, hu.iterate.gradient, hu.iterate.point]
      exact Box.contains_along hx hlength h0 h1
  · obtain he | ⟨hd, -⟩ := momentumDirection_cases hb u
    · rw [he]
      obtain hz | hpos := (Vec.dot_self_nonneg
        (box.clampDirection u.iterate.point u.iterate.steepest)).eq_or_lt
      · have hz := Vec.dot_self_eq_zero_iff.1 hz.symm
        exact .inr ⟨hz, hzero.1 hz⟩
      · exact .inl (hle.trans_lt (neg_neg_of_pos hpos))
    · exact .inl (Iterate.descends_iff.1 hd)
  · rw [← hzero, ← Vec.norm_eq_zero_iff, gradientNorm, hb]
    rfl

/-- What an iteration within a box does with that direction: it calls the function in the box, or
for a gradient there, and moves to where its line search ended, which the clip leaves as it is. -/
structure Confined (s : Descent ℝ) (box : Box ℝ) (t : Trail ℝ) : Prop where
  calls : ∀ y ∈ (step s.config (s.objective.oriented s.config.goal) t.state).calls,
    ∃ z v, box.Contains z ∧ (y = z ∨ y ∈ (s.function.gradient z v).calls)
  searched : box.Contains (s.searched t).point
  moved : ∀ u, s.advance t = (.moved, u) → u.iterate.point = (s.searched t).point ∧
    u.direction = some (momentumDirection s.config t.state)

theorem Guided.confined {s : Descent ℝ} {t : Trail ℝ} (hb : s.config.box = some box)
    (hl : s.config.lineSearch.check = .ok ()) (hx : box.Contains t.state.iterate.point)
    (h : Guided s.config box t.state) : Confined s box t := by
  obtain ⟨hm, -⟩ := Config.bounds_of_box hb
  have hc : s.config.search = s.config.lineSearch.limitTo 1 := by
    rw [Config.search, hm]
    exact congrArg s.config.lineSearch.limitTo Exact.literal_one
  have hreach := LineSearch.search_reaches (f := s.function) (x := t.state.iterate.point)
    (d := momentumDirection s.config t.state) (LineSearch.check_limitTo hl zero_lt_one)
    t.state.iterate.value t.state.iterate.gradient
  have hcontains {a : ℝ} (ha : (s.config.lineSearch.limitTo 1).Allows a) : box.Contains
      (Vec.along t.state.iterate.point (momentumDirection s.config t.state) a) :=
    h.contains a ha.between.1 ha.between.2
  rw [← hc] at hreach hcontains
  have hsearched : box.Contains (s.searched t).point := by
    obtain he | ⟨a, ha, he⟩ := hreach.ended
    · rw [searched, Iterate.search, he]
      exact hx
    · rw [searched, Iterate.search, he]
      exact hcontains ha
  have hclip : clipTo s.config.box (s.searched t).point = (s.searched t).point := by
    rw [hb]
    exact Box.clip_eq_self hsearched
  refine ⟨?_, hsearched, ?_⟩
  · intro y hy
    simp only [step, hm] at hy
    obtain hy | hy := momentumStep_calls hy
    · obtain ⟨a, ha, hy⟩ := hreach.calls y hy
      exact ⟨_, _, hcontains ha, hy⟩
    · exact ⟨_, _, hclip.symm ▸ hsearched, .inr hy⟩
  · intro u hu
    rw [advance_boxed hm] at hu
    split at hu
    · cases hu
    · cases hu
      exact ⟨(arrive_point _ _ _).trans hclip, rfl⟩

/-- In exact arithmetic the steepest direction, clamped to an accepted box at one of its points,
leads out of the box for no step up to one, descends by at least the square of its length, and is
zero exactly at critical points. So, whatever the momentum, every iteration of descent within the
box is guided, and those of a run are. An accepted run hands that direction to its line search,
which looks nowhere else than in the box. -/
theorem boxed_guided {box : Box ℝ} (hc : box.check = .ok ()) :
    (∀ x g : Vec ℝ, box.Contains x → g.length = x.length →
      (∀ a, 0 ≤ a → a ≤ 1 →
        box.Contains (Vec.along x (box.clampDirection x (Vec.neg g)) a)) ∧
      Vec.dot g (box.clampDirection x (Vec.neg g)) ≤
        -Vec.dot (box.clampDirection x (Vec.neg g)) (box.clampDirection x (Vec.neg g)) ∧
      (Vec.isZero (box.clampDirection x (Vec.neg g)) = true ↔ box.Critical x g)) ∧
    ∀ c : Config ℝ, c.box = some box →
      (∀ u : State ℝ, box.Contains u.iterate.point → u.Shaped box.length → Guided c box u) ∧
      ∀ o x t, Objective.Dimension o x.length → x.length = box.length →
        Passes ⟨o, c⟩ x t → Guided c box t.state ∧ (c.check = .ok () → Confined ⟨o, c⟩ box t) := by
  refine ⟨?_, ?_⟩
  · intro x g hx hg
    refine ⟨?_, Box.dot_clampDirection_le hx hg, Box.isZero_clampDirection_iff hx hg⟩
    intro a h0 h1
    exact Box.contains_along hx (by rw [Vec.neg_length, hg]) h0 h1
  · intro c hb
    refine ⟨fun u hx hu => guided hb hx hu, ?_⟩
    intro o x t hd hx ht
    obtain ⟨hm, hbounds⟩ := Config.bounds_of_box hb
    have hcontains := ht.contains hm hbounds hc hx hd
    have hguided : Guided c box t.state := by
      refine guided hb hcontains ?_
      rw [← hx]
      exact ht.shaped hm hd rfl
    exact ⟨hguided, fun hcheck =>
      hguided.confined hb (Config.parts_of_check hcheck).1 hcontains⟩

noncomputable def cornered : Box ℝ := [⟨-1, 1⟩, ⟨0, 2⟩]

noncomputable def offset : Objective ℝ :=
  .withGradient (fun x => (x.getD 0 0 - 3) ^ 2 + (x.getD 1 0 + 2) ^ 2)
    fun x => [2 * (x.getD 0 0 - 3), 2 * (x.getD 1 0 + 2)]

theorem cornered_guided :
    (∀ t, Passes ⟨offset, Config.standard.within cornered⟩ [-4, 5] t →
      Guided (Config.standard.within cornered) cornered t.state ∧
        Confined ⟨offset, Config.standard.within cornered⟩ cornered t) ∧
      ∀ y, cornered.Contains y → 0 ≤ Vec.dot [-4, 4] (Vec.sub y [1, 0]) := by
  have hcheck : cornered.check = .ok () := by
    rw [Box.check_eq_ok]
    refine ⟨List.cons_ne_nil _ _, ?_⟩
    norm_num [cornered]
  have hconfig := Exact.standard_check_within hcheck
  obtain ⟨hsteepest, hruns⟩ := boxed_guided hcheck
  constructor
  · intro t ht
    have hdim : Objective.Dimension offset 2 := by
      intro x hx g hg
      cases hg
      rfl
    exact ((hruns _ rfl).2 offset [-4, 5] t hdim rfl ht).imp_right (· hconfig)
  · have hx : cornered.Contains [1, 0] := by
      norm_num [cornered, Box.Contains, Interval.Contains]
    have hclamp : cornered.clampDirection [1, 0] (Vec.neg [-4, 4]) = [0, 0] := by
      norm_num [cornered, Vec.neg, Box.clampDirection, Interval.clip_eq, Interval.shift]
    rw [← Box.critical_iff (g := [-4, 4]) hx rfl, ← (hsteepest [1, 0] [-4, 4] hx rfl).2.2, hclamp]
    simp [Vec.isZero]

end Descent

end Optima
