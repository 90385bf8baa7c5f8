import Mathlib.Tactic.IntervalCases
import Optima.Proofs.Containment
import Optima.Proofs.Descent.Passage
import Optima.Proofs.Descent.Arrival
import Optima.Proofs.LineSearch.Signs
import Optima.Proofs.Matching

/-!
Descent within a box that never binds. It goes with the same descent without the box, whose steps
are no longer than one, from iterate to iterate: the clip leaves every point as it is, and the
clamp changes no more of a direction than the signs of zeros.
-/

namespace Optima

open Scalar (Alike Signed Unsigned Lawful isNaN isNegative greater lesser)

variable {α : Type} [Scalar α]

namespace Interval

/-- A number of the interval that clipping leaves as it is: at a bound, it is not a zero of another
sign. Two negative zeros are left out as well, since the difference of them is a positive one. -/
def Keeps (i : Interval α) (a : α) : Prop :=
  i.Contains a ∧ ∀ b ∈ [i.lower, i.upper], (a == 0) = true → (b == 0) = true →
    isNegative a = false ∧ isNegative b = false

instance (i : Interval α) (a : α) : Decidable (i.Keeps a) :=
  inferInstanceAs (Decidable ((i.lower ≤ a ∧ a ≤ i.upper) ∧ ∀ b ∈ [i.lower, i.upper], _))

variable [Signed α] {i : Interval α} {a : α}

theorem Keeps.eq_bound (h : i.Keeps a) {b : α} (hb : b ∈ [i.lower, i.upper]) (hab : a ≤ b)
    (hba : b ≤ a) : b = a := by
  obtain he | ⟨ha, hz⟩ := Signed.alike_of_le hba hab
  · exact he
  · obtain ⟨hs, ht⟩ := h.2 b hb hz ha
    exact Signed.eq_of_zero ha hz (ht.trans hs.symm)

theorem Keeps.clip_eq (h : i.Keeps a) : i.clip a = a := by
  obtain he | ⟨b, hb, he, hab, hba⟩ := clip_eq_or_bound h.1
  · exact he
  · rw [he, h.eq_bound hb hab hba]

theorem Keeps.alikeAt_sub (h : i.Keeps a) {b c : α} (hb : b ∈ [i.lower, i.upper])
    (hbc : b - a ≤ c) (hcb : c ≤ b - a) : Scalar.AlikeAt a (b - a) c := by
  obtain he | ⟨hd, hc⟩ := Signed.alike_of_le hbc hcb
  · exact .inl he
  · refine .inr ⟨?_, hd, hc⟩
    intro ha
    -- The bound of a zero at no distance is a zero itself.
    have hz : Alike (b - a) b := by
      rw [Signed.sub_eq]
      exact Alike.add_zero (Signed.neg_zero ha)
    exact (h.2 b hb ha (hz.beq_zero.symm.trans hd)).1

theorem Keeps.clip_shift (h : i.Keeps a) {c : α} (hc : (i.shift a).Contains c) :
    Scalar.AlikeAt a ((i.shift a).clip c) c := by
  obtain he | ⟨b, hb, he, hcb, hbc⟩ := clip_eq_or_bound hc
  · exact .inl he
  · obtain ⟨d, hd, rfl⟩ : ∃ d ∈ [i.lower, i.upper], d - a = b := by
      simpa [shift, eq_comm] using hb
    rw [he]
    exact h.alikeAt_sub hd hbc hcb

end Interval

namespace Box

def Keeps : Box α → Vec α → Prop
  | [], [] => True
  | i :: box, a :: x => i.Keeps a ∧ Keeps box x
  | _, _ => False

def Allows : Box α → Vec α → Vec α → Prop
  | i :: box, a :: x, c :: d => (i.shift a).Contains c ∧ Allows box x d
  | _, _, _ => True

instance decidableKeeps : (box : Box α) → (x : Vec α) → Decidable (box.Keeps x)
  | [], [] => .isTrue trivial
  | [], _ :: _ => .isFalse id
  | _ :: _, [] => .isFalse id
  | i :: box, a :: x =>
    have := decidableKeeps box x
    inferInstanceAs (Decidable (i.Keeps a ∧ Keeps box x))

instance decidableAllows : (box : Box α) → (x d : Vec α) → Decidable (box.Allows x d)
  | i :: box, a :: x, c :: d =>
    have := decidableAllows box x d
    inferInstanceAs (Decidable (((i.shift a).lower ≤ c ∧ c ≤ (i.shift a).upper) ∧ Allows box x d))
  | [], _, _ => .isTrue trivial
  | _ :: _, [], _ => .isTrue trivial
  | _ :: _, _ :: _, [] => .isTrue trivial

variable {box : Box α} {x c d : Vec α}

theorem Keeps.length (h : box.Keeps x) : x.length = box.length := by
  induction box generalizing x with
  | nil =>
    cases x with
    | nil => rfl
    | cons => cases h
  | cons i box ih =>
    cases x with
    | nil => cases h
    | cons a x => exact congrArg Nat.succ (ih h.2)

variable [Signed α]

theorem Keeps.clip_eq (h : box.Keeps x) : box.clip x = x := by
  induction box generalizing x with
  | nil => exact clip_nil x
  | cons i box ih =>
    cases x with
    | nil => rfl
    | cons a x => exact congrArg₂ List.cons h.1.clip_eq (ih h.2)

theorem Allows.congr (h : Vec.AlikeAt x c d) (hd : box.Allows x d) : box.Allows x c := by
  induction h generalizing box with
  | refl => exact hd
  | cons h _ ih =>
    cases box with
    | nil => trivial
    | cons i box =>
      refine ⟨⟨?_, ?_⟩, ih hd.2⟩
      · exact h.alike.le_right.2 hd.1.1
      · exact h.alike.le_left.2 hd.1.2

theorem Keeps.clampDirection (h : box.Keeps x) (hd : box.Allows x d) :
    Vec.AlikeAt x (box.clampDirection x d) d := by
  induction box generalizing x d with
  | nil => exact .refl x d
  | cons i box ih =>
    cases x with
    | nil => cases h
    | cons a x =>
      cases d with
      | nil => exact .refl _ []
      | cons c d => exact .cons (h.1.clip_shift hd.1) (ih h.2 hd.2)

end Box

namespace Descent

/-- Momentum descent whose steps are no longer than one. -/
def Config.unboxed (c : Config α) : Config α :=
  { c with method := .momentum, lineSearch := c.lineSearch.limitTo 1 }

def unboxed (s : Descent α) : Descent α := { s with config := s.config.unboxed }

def within (s : Descent α) (box : Box α) : Descent α := { s with config := s.config.within box }

/-- A box that does not bind an iteration: neither the point nor a direction that is tried. -/
structure Slack (box : Box α) (momentum : α) (u : State α) : Prop where
  keeps : box.Keeps u.iterate.point
  steepest : box.Allows u.iterate.point u.iterate.steepest
  mixed : ∀ previous ∈ u.direction, 0 < momentum →
    box.Allows u.iterate.point (Vec.sub (Vec.scale previous momentum) u.iterate.gradient)

structure Alongside (u v : State α) : Prop where
  iterate : v.iterate = u.iterate
  direction : Option.Rel (Vec.AlikeAt u.iterate.point) v.direction u.direction

variable [Signed α] {s : Descent α} {box : Box α} {x : Vec α} {u v : State α}

theorem Iterate.descends_congr (i : Iterate α) {c d : Vec α} (h : Vec.AlikeAt i.point c d) :
    i.descends c = i.descends d :=
  decide_eq_decide.2 ((Vec.dot_alike h.alike (List.forall₂_same.2 fun a _ => .refl a)).lt_iff
    (.refl 0))

theorem Slack.momentumDirection {c : Config α} (h : Slack box c.momentum u) (ha : Alongside u v) :
    Vec.AlikeAt u.iterate.point (momentumDirection (c.within box) v)
      (momentumDirection c.unboxed u) := by
  have hchoose {m m' p p' : Vec α} (hm : Vec.AlikeAt u.iterate.point m' m)
      (hp : Vec.AlikeAt u.iterate.point p' p) :
      Vec.AlikeAt u.iterate.point (if u.iterate.descends m' then m' else p')
        (if u.iterate.descends m then m else p) := by
    rw [u.iterate.descends_congr hm]
    split
    · exact hm
    · exact hp
  have hsteepest := h.keeps.clampDirection h.steepest
  rw [Descent.momentumDirection, Descent.momentumDirection, ha.iterate]
  refine hchoose ?_ hsteepest
  have hdirection := ha.direction
  generalize hv : v.direction = dv at hdirection
  generalize hu : u.direction = du at hdirection
  cases hdirection with
  | none => exact hsteepest
  | @some q p hqp =>
    by_cases hm : 0 < c.momentum
    · have hmix := hqp.mix c.momentum u.iterate.gradient
      have hallowed := h.mixed p hu hm
      dsimp only
      rw [if_pos (c := 0 < (c.within box).momentum) hm, if_pos (c := 0 < c.unboxed.momentum) hm]
      exact (h.keeps.clampDirection (hallowed.congr hmix)).trans hmix
    · dsimp only
      rw [if_neg (c := 0 < (c.within box).momentum) hm, if_neg (c := 0 < c.unboxed.momentum) hm]
      exact hsteepest

theorem Slack.gradientNorm {c : Config α} (h : Slack box c.momentum u) :
    gradientNorm (c.within box) u.iterate = gradientNorm c.unboxed u.iterate :=
  (Vec.norm_congr (h.keeps.clampDirection h.steepest).alike).trans (Vec.norm_neg _)

theorem arrive_slack {f : LineFunction α} {o : LineSearch.Outcome α} (h : box.Keeps o.point) :
    arrive f (some box) o = arrive f none o := by
  have hclip : clipTo (some box) o.point = clipTo none o.point := h.clip_eq
  rw [arrive, arrive, hclip]

theorem found_alikeAt {f : LineFunction α} {c d : Vec α} {value : α} {o : LineSearch.Outcome α}
    (h : o.Found f x d value) (hd : Vec.AlikeAt x c d) : Vec.AlikeAt o.point c d := by
  cases h with
  | unchanged => exact hd
  | tried step g hg =>
    have hnext := hd.next step
    rwa [hd.along_eq] at hnext

theorem momentumStep_slack {c : Config α} {f : LineFunction α} (h : Slack box c.momentum u)
    (ha : Alongside u v)
    (hnext : (momentumStep c.unboxed f u).value.1 = .moved →
      box.Keeps (momentumStep c.unboxed f u).value.2.iterate.point) :
    Traced.Matches (fun p q => q.1 = p.1 ∧ Alongside p.2 q.2) (momentumStep c.unboxed f u)
      (momentumStep (c.within box) f v) := by
  have hd := h.momentumDirection ha
  have hsearch : v.iterate.search (c.within box).search f (momentumDirection (c.within box) v) =
      u.iterate.search c.unboxed.search f (momentumDirection c.unboxed u) := by
    rw [ha.iterate]
    exact LineSearch.search_congr (c.lineSearch.limitTo 1) hd _
  have hfound := u.iterate.search_found c.unboxed.search f (momentumDirection c.unboxed u)
  simp only [momentumStep] at hnext ⊢
  rw [hsearch]
  generalize u.iterate.search c.unboxed.search f (Descent.momentumDirection c.unboxed u) = search
    at *
  refine .bind_self ?_
  split
  · exact .pure ⟨rfl, ha⟩
  · next hz =>
    simp only [Traced.value_bind, if_neg hz] at hnext
    have hkeeps : box.Keeps search.value.point := by
      have hpoint := hnext rfl
      rwa [Traced.value_pure, arrive_point] at hpoint
    have harrive : arrive f (c.within box).box search.value = arrive f c.unboxed.box search.value :=
      arrive_slack hkeeps
    rw [harrive]
    refine .bind_self (.pure ⟨rfl, rfl, .some ?_⟩)
    rw [arrive_point]
    exact found_alikeAt hfound hd

structure Paired (t t' : Trail α) : Prop where
  state : Alongside t.state t'.state
  iteration : t'.iteration = t.iteration
  evaluations : t'.evaluations = t.evaluations
  values : t'.values = t.values
  log : t'.log = t.log

namespace Paired

variable {c : Config α} {t t' : Trail α}

theorem verdict_eq (h : Paired t t') (hs : Slack box c.momentum t.state) :
    t'.verdict (c.within box) = t.verdict c.unboxed := by
  simp only [Trail.verdict, h.state.iterate, hs.gradientNorm, h.iteration, h.values]
  rfl

omit [Signed α] in
theorem report_eq (h : Paired t t') (box : Box α) (status : Status) :
    t'.report (c.within box) status = t.report c.unboxed status := by
  simp only [Trail.report, h.state.iterate, h.evaluations, h.values, h.log]
  rfl

omit [Signed α] in
theorem extend (h : Paired t t') (box : Box α) (hu : Alongside u v) :
    Paired (t.extend c.unboxed u) (t'.extend (c.within box) v) := by
  refine ⟨hu, congrArg (· + 1) h.iteration, h.evaluations, ?_, ?_⟩
  · simp only [Trail.extend, hu.iterate, h.values]
  · simp only [Trail.extend, hu.iterate, h.iteration, h.log]
    rfl

end Paired

/-- No iterate of the unboxed run is bound by the box. -/
def NeverBinds (s : Descent α) (box : Box α) (x : Vec α) : Prop :=
  ∀ t, s.unboxed.Passes x t → Slack box s.config.momentum t.state

theorem round_slack (h : s.NeverBinds box x) {t t' : Trail α} (ht : s.unboxed.Passes x t)
    (hv : t.verdict s.unboxed.config = none) (hp : Paired t t') :
    Traced.Matches
      (Sum.LiftRel
        (fun t t' => (s.unboxed.Passes x t ∧ t.verdict s.unboxed.config = none) ∧ Paired t t')
        fun r r' => r'.1.report (s.within box).config r'.2 = r.1.report s.unboxed.config r.2)
      (round s.unboxed.config (s.objective.oriented s.config.goal) t)
      (round (s.within box).config (s.objective.oriented s.config.goal) t') := by
  have hstep := momentumStep_slack (f := s.function) (h t ht) hp.state fun hm =>
    (h _ (ht.moved hv (Prod.ext hm rfl))).keeps
  have hmetered := hstep.metered t.evaluations
  refine Traced.Matches.bind (R := fun p q => p = (s.unboxed.advance t,
    (s.unboxed.counted t).evaluations) ∧ (q.1.1 = p.1.1 ∧ Alongside p.1.2 q.1.2) ∧ q.2 = p.2)
    ⟨⟨rfl, hp.evaluations ▸ hmetered.value⟩, hp.evaluations ▸ hmetered.calls⟩ ?_
  rintro ⟨⟨progress, u⟩, evaluations⟩ ⟨⟨progress', v⟩, evaluations'⟩ ⟨he, ⟨hq, hu⟩, hcount⟩
  obtain rfl : progress' = progress := hq
  obtain rfl : evaluations = evaluations' := hcount.symm
  obtain ⟨hadvance, hevaluations⟩ := Prod.mk.inj he
  have hcounted : s.unboxed.counted t = { t with evaluations } := by rw [hevaluations]; rfl
  have hbegun : Paired { t with evaluations } { t' with evaluations } :=
    ⟨hp.state, hp.iteration, rfl, hp.values, hp.log⟩
  have hended : Paired { t with state := u, evaluations } { t' with state := v, evaluations } :=
    ⟨hu, hp.iteration, rfl, hp.values, hp.log⟩
  cases progress' with
  | stalled => exact .pure (.inr (hended.report_eq box _))
  | failed status => exact .pure (.inr (hended.report_eq box _))
  | moved =>
    have hnext := ht.moved hv hadvance.symm
    rw [hcounted] at hnext
    have hpaired : Paired (Trail.extend s.unboxed.config { t with evaluations } u)
        (Trail.extend (s.within box).config { t' with evaluations } v) :=
      hbegun.extend box hu
    have hverdict : (Trail.extend (s.within box).config { t' with evaluations } v).verdict
        (s.within box).config = (Trail.extend s.unboxed.config { t with evaluations } u).verdict
          s.unboxed.config := hpaired.verdict_eq (h _ hnext)
    dsimp only
    rw [hverdict]
    cases hnone : (Trail.extend s.unboxed.config { t with evaluations } u).verdict
      s.unboxed.config with
    | some status => exact .pure (.inr (hpaired.report_eq box status))
    | none => exact .pure (.inl ⟨⟨hnext, hnone⟩, hpaired⟩)

omit [Signed α] in
theorem NeverBinds.keeps (h : s.NeverBinds box x) : box.Keeps x := by
  have hstart := (h _ .initial).keeps
  rwa [initial_value] at hstart

theorem initial_slack (h : s.NeverBinds box x) :
    (s.within box).initial x = s.unboxed.initial x := by
  have hclip : clipTo (s.within box).config.box x = clipTo s.unboxed.config.box x := h.keeps.clip_eq
  simp only [initial]
  rw [hclip]
  rfl

theorem trace_slack (h : s.NeverBinds box x) (n : Nat) :
    (s.within box).trace n x = s.unboxed.trace n x := by
  have hpaired : Paired (s.unboxed.initial x).value (s.unboxed.initial x).value :=
    ⟨⟨rfl, by rw [initial_value]; exact .none⟩, rfl, rfl, rfl, rfl⟩
  have hverdict : (s.unboxed.initial x).value.verdict (s.within box).config =
      (s.unboxed.initial x).value.verdict s.unboxed.config := hpaired.verdict_eq (h _ .initial)
  have hreport (status : Status) : (s.unboxed.initial x).value.report (s.within box).config status =
      (s.unboxed.initial x).value.report s.unboxed.config status := hpaired.report_eq box status
  have hmatches : Traced.Matches Eq (s.unboxed.trace n x) ((s.within box).trace n x) := by
    simp only [trace, initial_slack h]
    refine .bind_self ?_
    split
    · rw [hverdict]
      cases hnone : (s.unboxed.initial x).value.verdict s.unboxed.config with
      | some status => exact .pure (congrArg some (hreport status).symm)
      | none =>
        refine (Traced.Matches.iterate (fun t t' hp => round_slack h hp.1.1 hp.1.2 hp.2) n
          ⟨⟨.initial, hnone⟩, hpaired⟩).bind fun o o' ho => .pure ?_
        cases ho with
        | none => rfl
        | some hr => exact congrArg some hr.symm
    · exact .pure (congrArg some (hreport .diverged).symm)
  exact (Traced.ext hmatches.value hmatches.calls.symm).symm

omit [Signed α] in
theorem checkStart_slack (hx : s.unboxed.checkStart x = .ok ()) (h : box.Keeps x) :
    (s.within box).checkStart x = .ok () := by
  simp only [checkStart, bind_eq_ok] at hx ⊢
  obtain ⟨_, hstart, -⟩ := hx
  exact ⟨(), hstart, by simp [within, Config.within, h.length]⟩

/-- Within a box that never binds, a run is the one without the box. -/
theorem slack_box_run (hx : s.unboxed.checkStart x = .ok ()) (h : s.NeverBinds box x) :
    (∀ n, (s.within box).runWithin n x = s.unboxed.runWithin n x) ∧
      (s.within box).run x = s.unboxed.run x := by
  have hruns (n : Nat) : (s.within box).runWithin n x = s.unboxed.runWithin n x := by
    rw [runWithin, runWithin, hx, checkStart_slack hx h.keeps, trace_slack h]
  exact ⟨hruns, hruns _⟩

def successor (s : Descent α) (t : Trail α) : Trail α :=
  (s.counted t).extend s.config (s.advance t).2

omit [Signed α] in
theorem Passes.eq_iterate {t : Trail α} {n : Nat}
    (hn : (s.successor^[n] (s.initial x).value).verdict s.config ≠ none) (ht : s.Passes x t) :
    ∃ k ≤ n, t = s.successor^[k] (s.initial x).value := by
  induction ht with
  | initial => exact ⟨0, Nat.zero_le n, rfl⟩
  | @moved t u _ hv hu ih =>
    obtain ⟨k, hk, rfl⟩ := ih
    have hlt : k ≠ n := by
      rintro rfl
      exact hn hv
    refine ⟨k + 1, by omega, ?_⟩
    rw [Function.iterate_succ_apply', successor, hu]

def inner : Descent Float where
  objective := .withGradient (fun x => 0.5 * x.getD 0 0 * x.getD 0 0) id
  config := { Config.standard with
    momentum := 0.5
    lineSearch := { LineSearch.standard with initialStep := 0.5 } }

theorem inner_neverBinds : inner.NeverBinds [⟨-1, 1⟩] [1] := by
  intro t ht
  obtain ⟨k, hk, rfl⟩ := ht.eq_iterate (n := 2) (by decide +kernel)
  interval_cases k <;> exact ⟨by decide +kernel, by decide +kernel, by decide +kernel⟩

theorem inner_box_run : inner.NeverBinds [⟨-1, 1⟩] [1] ∧
    ((inner.within [⟨-1, 1⟩]).run [1]).value =
      .ok ⟨[0], 0, .gradientConvergence, 2, 3, [⟨1, 0.125⟩, ⟨2, 0⟩]⟩ := by
  have hrun := (slack_box_run (by decide +kernel) inner_neverBinds).2
  refine ⟨inner_neverBinds, ?_⟩
  rw [hrun]
  decide +kernel

/-- The function `1 / x` between the bounds `-1` and `1`, which tells the zeros apart. -/
def poles : Descent Float where
  objective := .withGradient (fun x => Scalar.greater (-1) (Scalar.lesser 1 (1 / x.getD 0 0)))
    fun _ => [0]
  config := Config.standard

/-- Clipping replaces a negative zero by a bound that is the positive one. -/
theorem poles_clipped :
    ¬ ∀ (s : Descent Float) (box : Box Float) (x : Vec Float),
      (s.within box).check = .ok () → s.unboxed.checkStart x = .ok () →
      (∀ t, s.unboxed.Passes x t → box.Contains t.state.iterate.point ∧
        box.Allows t.state.iterate.point t.state.iterate.steepest ∧
        ∀ previous ∈ t.state.direction, 0 < s.config.momentum →
          box.Allows t.state.iterate.point
            (Vec.sub (Vec.scale previous s.config.momentum) t.state.iterate.gradient)) →
      ((s.within box).run x).value = (s.unboxed.run x).value := by
  intro h
  have hrun := h poles [⟨0, 1⟩] [-0.0] (by decide +kernel) (by decide +kernel) ?_
  · have hbox : ((poles.within [⟨0, 1⟩]).run [-0.0]).value =
        .ok ⟨[0], 1, .gradientConvergence, 0, 1, []⟩ := by decide +kernel
    have hunboxed : (poles.unboxed.run [-0.0]).value =
        .ok ⟨[-0.0], -1, .gradientConvergence, 0, 1, []⟩ := by decide +kernel
    rw [hbox, hunboxed] at hrun
    revert hrun
    decide +kernel
  · intro t ht
    obtain ⟨k, hk, rfl⟩ := ht.eq_iterate (n := 0) (by decide +kernel)
    obtain rfl := Nat.le_zero.1 hk
    have hcontains : (0 : Float) ≤ -0.0 ∧ (-0.0 : Float) ≤ 1 := by decide +kernel
    exact ⟨⟨hcontains, trivial⟩, by decide +kernel, by decide +kernel⟩

end Descent

end Optima
