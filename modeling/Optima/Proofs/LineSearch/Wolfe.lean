import Mathlib.Data.List.Chain
import Optima.Proofs.LineSearch.Smooth
import Optima.Proofs.LineSearch.Trials

/-!
Searches for a step that decreases the value enough and where the slope is flat, in exact
arithmetic. They keep a bracket: at its lower end the slope is still too steep, and its upper end is
too long a step. What they try lies strictly inside, and they settle on the first trial that will
do, or else on the best of those that decrease the value enough.
-/

namespace Optima.LineSearch.Wolfe

variable {c : LineSearch ℝ} {w : Wolfe ℝ} {b t : Bracket ℝ} {past : List (Bracket ℝ)}

/-- The value decreases enough, but the slope is still too steep. -/
def Steep (w : Wolfe ℝ) (a : ℝ) : Prop :=
  w.decreases a = true ∧ w.slopeAt a < w.config.c2 * w.slope

/-- The value does not decrease enough, or the slope already rises where it must be flat. -/
def Long (w : Wolfe ℝ) (a : ℝ) : Prop :=
  w.decreases a = false ∨ w.strong = true ∧ 0 < w.slopeAt a

/-- What becomes of the bracket of a trial: one end moves to it, and the next trial is in the middle
or, while there is no upper end, up to twice as far. -/
structure Follows (w : Wolfe ℝ) (b t : Bracket ℝ) : Prop where
  ends : (w.Steep b.step ∧ t.lower = b.step ∧ t.upper = b.upper) ∨
    (w.Long b.step ∧ t.lower = b.lower ∧ t.upper = some b.step)
  middle : ∀ u ∈ t.upper, t.step = (t.lower + u) / 2
  beyond : t.upper = none →
    (∀ m ∈ w.config.maxStep, t.step ≤ m) ∧ (t.step = 2 * b.step ∨ t.lower < t.step)

theorem narrowed_ends (hs : w.slope < 0) (h : w.accepts b.step = false) :
    (w.Steep b.step ∧ (w.narrowed b).lower = b.step ∧ (w.narrowed b).upper = b.upper) ∨
    (w.Long b.step ∧ (w.narrowed b).lower = b.lower ∧ (w.narrowed b).upper = some b.step) := by
  unfold narrowed
  cases hd : w.decreases b.step with
  | false => exact .inr ⟨.inl hd, rfl, rfl⟩
  | true =>
    have hflat : w.config.flat w.strong w.slope (w.slopeAt b.step) = false := by
      simpa [accepts, hd] using h
    simp only [if_true]
    split
    · next hrise =>
      simp only [Bool.and_eq_true, decide_eq_true_eq, Exact.literal_zero] at hrise
      exact .inr ⟨.inr hrise, rfl, rfl⟩
    · next hrise =>
      refine .inl ⟨⟨hd, ?_⟩, rfl, rfl⟩
      cases hstrong : w.strong with
      | false => simpa [flat, hstrong] using hflat
      | true =>
        -- a slope that does not rise is as steep as it is large
        have hfall : w.slopeAt b.step ≤ 0 := by simpa [hstrong] using hrise
        have hlarge : w.config.c2 * |w.slope| < |w.slopeAt b.step| := by
          simpa [flat, hstrong] using hflat
        rw [abs_of_nonpos hfall, abs_of_neg hs] at hlarge
        linarith

theorem next?_cases {step : ℝ} (h : b.next? c = some step) :
    (∃ u, b.upper = some u ∧ step = (b.lower + u) / 2) ∨
    (b.upper = none ∧ (∀ m ∈ c.maxStep, step ≤ m) ∧
      (step = 2 * b.step ∨ b.lower < step)) := by
  unfold Bracket.next? at h
  cases hu : b.upper with
  | some u =>
    rw [hu] at h
    have hstep := Option.some_inj.1 h
    refine .inl ⟨u, rfl, ?_⟩
    rw [← hstep, Exact.literal_scientific]
    norm_num
    ring
  | none =>
    rw [hu] at h
    have htwo : @OfNat.ofNat ℝ 2 (Scalar.instOfNat 2) = 2 := Nat.cast_ofNat
    dsimp only at h
    rw [htwo] at h
    refine .inr ⟨rfl, ?_⟩
    cases hm : c.maxStep with
    | none =>
      simp only [atLimit, limit, hm, Exact.isFinite_eq, Bool.not_true, Bool.and_false,
        Bool.false_eq_true, if_false] at h
      exact ⟨fun m hm => absurd hm (Option.not_mem_none m), .inl (Option.some_inj.1 h).symm⟩
    | some m =>
      simp only [atLimit, limit, hm, decide_eq_true_eq] at h
      split at h
      · cases h
      · next hlower =>
        have hstep := Option.some_inj.1 h
        obtain ⟨-, hle, hfar | hmax⟩ := Scalar.lesser_le (a := 2 * b.step) (b := m) rfl rfl
        · exact ⟨fun k hk => Option.some_inj.1 hk ▸ hstep ▸ hle, .inl (hstep.symm.trans hfar)⟩
        · refine ⟨fun k hk => Option.some_inj.1 hk ▸ hstep ▸ hle, .inr ?_⟩
          rwa [← hstep, hmax, ← not_le]

theorem next?_follows (hs : w.slope < 0) (h : w.next? b = some t) : w.Follows b t := by
  obtain ⟨ha, step, hstep, rfl⟩ := next?_eq_some h
  obtain ⟨u, hu, rfl⟩ | ⟨hu, hmax, hnext⟩ := next?_cases hstep
  · refine ⟨narrowed_ends hs ha, fun v hv => ?_, fun hnone => ?_⟩
    · rw [Option.some_inj.1 (hu.symm.trans hv)]
    · exact absurd (hu.symm.trans hnone) (Option.some_ne_none u)
  · refine ⟨narrowed_ends hs ha, fun v hv => ?_, fun _ => ⟨hmax, ?_⟩⟩
    · exact absurd (hv.symm.trans hu) (Option.some_ne_none v)
    · rwa [narrowed_step] at hnext

/-- The trial is inside its bracket, in the middle once there is an upper end, and the bracket is
within the limit. -/
structure Inside (c : LineSearch ℝ) (b : Bracket ℝ) : Prop where
  lower : 0 ≤ b.lower
  lower_lt : b.lower < b.step
  middle : ∀ u ∈ b.upper, b.step = (b.lower + u) / 2
  le_max : ∀ m ∈ c.maxStep, b.step ≤ m
  upper_le : ∀ u ∈ b.upper, ∀ m ∈ c.maxStep, u ≤ m

theorem Inside.pos (h : Inside c b) : 0 < b.step := h.lower.trans_lt h.lower_lt

theorem Inside.lt_upper (h : Inside c b) : ∀ u ∈ b.upper, b.step < u := by
  intro u hu
  have hmiddle := h.middle u hu
  have hlower := h.lower_lt
  linarith

/-- The ends of a bracket come from trials before: at the lower end the slope is still too steep,
and the upper end is too long. -/
structure Justified (w : Wolfe ℝ) (earlier : List (Bracket ℝ)) (b : Bracket ℝ) : Prop where
  lower : b.lower = 0 ∨ (∃ t ∈ earlier, t.step = b.lower) ∧ w.Steep b.lower
  upper : ∀ u ∈ b.upper, (∃ t ∈ earlier, t.step = u) ∧ w.Long u

theorem Follows.inside (h : w.Follows b t) (hb : Inside w.config b) : Inside w.config t := by
  have hlower : 0 ≤ t.lower := by
    obtain ⟨-, hl, -⟩ | ⟨-, hl, -⟩ := h.ends
    · exact hl ▸ hb.pos.le
    · exact hl ▸ hb.lower
  have hends : ∀ u ∈ t.upper, t.lower < u ∧ ∀ m ∈ w.config.maxStep, u ≤ m := by
    intro u hu
    obtain ⟨-, hl, hupper⟩ | ⟨-, hl, hupper⟩ := h.ends
    · rw [hupper] at hu
      exact ⟨hl ▸ hb.lt_upper u hu, hb.upper_le u hu⟩
    · rw [hupper] at hu
      cases hu
      exact ⟨hl ▸ hb.lower_lt, hb.le_max⟩
  cases hu : t.upper with
  | some u =>
    have hmiddle := h.middle u hu
    obtain ⟨hlt, hmax⟩ := hends u hu
    refine ⟨hlower, by linarith, h.middle, fun m hm => ?_, fun v hv => (hends v hv).2⟩
    have hle := hmax m hm
    linarith
  | none =>
    obtain ⟨hmax, hfar | hlt⟩ := h.beyond hu
    · refine ⟨hlower, ?_, h.middle, hmax, fun v hv => (hends v hv).2⟩
      obtain ⟨-, hl, -⟩ | ⟨-, -, hupper⟩ := h.ends
      · have hpos := hb.pos
        linarith
      · exact absurd (hu.symm.trans hupper) (Option.some_ne_none b.step).symm
    · exact ⟨hlower, hlt, h.middle, hmax, fun v hv => (hends v hv).2⟩

theorem Follows.justified (h : w.Follows b t) (hb : w.Justified past b) :
    w.Justified (past ++ [b]) t := by
  have hpast : ∀ {a : ℝ}, (∃ t ∈ past, t.step = a) → ∃ t ∈ past ++ [b], t.step = a :=
    fun ⟨t, ht, hstep⟩ => ⟨t, List.mem_append_left [b] ht, hstep⟩
  have hlast : ∃ t ∈ past ++ [b], t.step = b.step :=
    ⟨b, List.mem_append_right past List.mem_cons_self, rfl⟩
  obtain ⟨hsteep, hl, hu⟩ | ⟨hlong, hl, hu⟩ := h.ends
  · refine ⟨.inr ?_, fun u hmem => ?_⟩
    · rw [hl]
      exact ⟨hlast, hsteep⟩
    · rw [hu] at hmem
      exact (hb.upper u hmem).imp_left hpast
  · refine ⟨?_, fun u hmem => ?_⟩
    · rw [hl]
      exact hb.lower.imp_right (And.imp_left hpast)
    · rw [hu] at hmem
      cases hmem
      exact ⟨hlast, hlong⟩

theorem Follows.halves (h : w.Follows b t) (hb : Inside w.config b) :
    ∀ u ∈ b.upper, ∃ v ∈ t.upper, v - t.lower = (u - b.lower) / 2 := by
  intro u hu
  have hmiddle := hb.middle u hu
  obtain ⟨-, hl, hupper⟩ | ⟨-, hl, hupper⟩ := h.ends
  · exact ⟨u, hupper ▸ hu, by linarith⟩
  · exact ⟨b.step, hupper, by linarith⟩

theorem trials_inside {n : ℕ} (hs : w.slope < 0) (hb : Inside w.config b) :
    ∀ t ∈ w.trials n b, Inside w.config t := by
  intro t ht
  obtain ⟨earlier, later, hts⟩ := List.append_of_mem ht
  exact trials_invariant (I := fun _ t => Inside w.config t)
    (fun hi hn => (next?_follows hs hn).inside hi) [] hb hts

/-- The outcome of a search: that of the first trial that is accepted; without one, the best of
those that decrease the value enough, of equals the first; without one, no change. -/
inductive Settles (w : Wolfe ℝ) (ts : List (Bracket ℝ)) : Outcome ℝ → Prop
  | accepted {t : Bracket ℝ} : ts.find? (w.accepts ·.step) = some t →
      Settles w ts (w.outcome t.step)
  | kept {t : Bracket ℝ} {i : ℕ} : (∀ t ∈ ts, w.accepts t.step = false) →
      FirstBest (fun s t => (w.outcome s.step).value < (w.outcome t.step).value)
        (ts.filter (w.decreases ·.step)) i t → Settles w ts (w.outcome t.step)
  | unchanged : (∀ t ∈ ts, w.decreases t.step = false) → Settles w ts w.unchanged

theorem kept_firstBest {ts : List (Bracket ℝ)} (hne : ts.filter (w.decreases ·.step) ≠ []) :
    ∃ i t, FirstBest (fun s t => (w.outcome s.step).value < (w.outcome t.step).value)
      (ts.filter (w.decreases ·.step)) i t ∧ w.kept none ts = some (w.outcome t.step) := by
  unfold kept
  obtain ⟨t, ts, hts⟩ := List.exists_cons_of_ne_nil hne
  rw [hts]
  have hranking : Ranking fun o p : Outcome ℝ => o.value < p.value := lt_ranking fun _ => rfl
  obtain ⟨i, hi⟩ := FirstBest.foldl hranking (fun o p => Outcome.orBetter (some o) p)
    (fun _ _ h => if_pos h) (fun _ _ h => if_neg h) (.singleton hranking (w.outcome t.step))
    (ts.map (w.outcome ·.step))
  have hmap : [w.outcome t.step] ++ ts.map (w.outcome ·.step) =
      (t :: ts).map (w.outcome ·.step) := rfl
  rw [hmap] at hi
  obtain ⟨s, hs, heq⟩ := hi.of_map
  refine ⟨i, s, hs, ?_⟩
  rw [heq, List.map_cons, List.foldl_cons]
  exact List.foldl_hom some (fun _ _ => rfl)

theorem run_settles (w : Wolfe ℝ) (n : ℕ) {b : Bracket ℝ} (hb : b.best = none) :
    w.Settles (w.trials n b) (w.run n b).value := by
  rw [run_eq, hb]
  cases hfind : (w.trials n b).find? (w.accepts ·.step) with
  | some t => exact .accepted hfind
  | none =>
    by_cases hts : (w.trials n b).filter (w.decreases ·.step) = []
    · have hkept : w.kept none (w.trials n b) = none := by
        rw [kept, hts]
        rfl
      rw [Option.elim_none, hkept]
      refine .unchanged fun t ht => ?_
      simpa using List.filter_eq_nil_iff.1 hts t ht
    · obtain ⟨i, t, ht, hkept⟩ := kept_firstBest hts
      rw [Option.elim_none, hkept]
      refine .kept (fun t ht => ?_) ht
      simpa using List.find?_eq_none.1 hfind t ht

theorem isZero_outcome {a : ℝ} (h : 0 < a) : ¬ (w.outcome a).isZero = true := by
  simpa [Outcome.isZero, outcome, Outcome.at] using h.ne'

theorem Settles.cases {ts : List (Bracket ℝ)} {o : Outcome ℝ} (h : w.Settles ts o) :
    (∃ t ∈ ts, w.decreases t.step = true ∧ o = w.outcome t.step) ∨
    (∀ t ∈ ts, w.decreases t.step = false) ∧ o = w.unchanged := by
  cases h with
  | accepted hfind =>
    have ht := List.find?_some hfind
    exact .inl ⟨_, List.mem_of_find?_eq_some hfind, (Bool.and_eq_true_iff.1 ht).1, rfl⟩
  | kept _ hbest =>
    obtain ⟨hmem, hdec⟩ := List.mem_filter.1 hbest.mem
    exact .inl ⟨_, hmem, hdec, rfl⟩
  | unchanged hnone => exact .inr ⟨hnone, rfl⟩

theorem Settles.eq_of_find? {ts : List (Bracket ℝ)} {o : Outcome ℝ} (h : w.Settles ts o)
    (hfind : ts.find? (w.accepts ·.step) = some t) : o = w.outcome t.step := by
  have ht := List.find?_some hfind
  have hmem := List.mem_of_find?_eq_some hfind
  cases h with
  | accepted hs => rw [Option.some_inj.1 (hs.symm.trans hfind)]
  | kept hnone => exact absurd ((hnone t hmem).symm.trans ht) Bool.false_ne_true
  | unchanged hnone =>
    have hdec := (Bool.and_eq_true_iff.1 ht).1
    exact absurd ((hnone t hmem).symm.trans hdec) Bool.false_ne_true

theorem Settles.unchanged_iff {ts : List (Bracket ℝ)} {o : Outcome ℝ} (h : w.Settles ts o)
    (hpos : ∀ t ∈ ts, 0 < t.step) :
    (o = w.unchanged ↔ ∀ t ∈ ts, w.decreases t.step = false) ∧
    (o.isZero = true ↔ o = w.unchanged) ∧ (¬ o.isZero = true → o = w.outcome o.step) := by
  have hzero : w.unchanged.isZero = true := Scalar.Lawful.zero_beq_zero
  obtain ⟨t, ht, hdec, rfl⟩ | ⟨hnone, rfl⟩ := h.cases
  · have hmoved := isZero_outcome (w := w) (hpos t ht)
    have hne : w.outcome t.step ≠ w.unchanged := fun h => hmoved (h ▸ hzero)
    refine ⟨iff_of_false hne fun h => ?_, iff_of_false hmoved hne, fun _ => rfl⟩
    exact Bool.false_ne_true ((h t ht).symm.trans hdec)
  · exact ⟨iff_of_true rfl hnone, iff_of_true hzero rfl, fun h => absurd hzero h⟩

/-- What a search for a flat slope tries, and what comes of it. -/
structure Proceeds (w : Wolfe ℝ) (r : Traced (Vec ℝ) (Outcome ℝ)) : Prop where
  calls : r.calls = w.tried.flatMap (w.callsAt ·.step)
  steps : ∀ b ∈ w.tried, 0 < b.step ∧ ∀ m ∈ w.config.maxStep, b.step ≤ m
  brackets : ∀ earlier b later, w.tried = earlier ++ b :: later →
    w.Justified earlier b ∧ b.lower < b.step ∧ ∀ u ∈ b.upper, b.step < u
  halves : w.tried.IsChain fun b t =>
    ∀ u ∈ b.upper, ∃ v ∈ t.upper, v - t.lower = (u - b.lower) / 2
  settles : w.Settles w.tried r.value
  unchanged : r.value = w.unchanged ↔ ∀ b ∈ w.tried, w.decreases b.step = false
  isZero : r.value.isZero = true ↔ r.value = w.unchanged
  found : ¬ r.value.isZero = true → r.value = w.outcome r.value.step

theorem run_proceeds (hs : w.slope < 0) (hfirst : Inside w.config w.first) :
    w.Proceeds (w.run w.config.maxIterations w.first) := by
  have hinside : ∀ t ∈ w.tried, Inside w.config t := trials_inside hs hfirst
  have hsettles : w.Settles w.tried (w.run w.config.maxIterations w.first).value :=
    run_settles w w.config.maxIterations rfl
  obtain ⟨hunchanged, hzero, hfound⟩ := hsettles.unchanged_iff fun t ht => (hinside t ht).pos
  refine ⟨?calls, ?steps, ?brackets, ?halves, hsettles, hunchanged, hzero, hfound⟩
  case calls => rw [run_eq]; rfl
  case steps => exact fun b hb => ⟨(hinside b hb).pos, (hinside b hb).le_max⟩
  case brackets =>
    intro earlier b later hts
    have hb : b ∈ w.tried := hts ▸ List.mem_append_right earlier List.mem_cons_self
    have hnone : w.Justified [] w.first :=
      ⟨.inl Exact.literal_zero, fun u hu => absurd hu (Option.not_mem_none u)⟩
    have hjustified := trials_invariant (I := w.Justified)
      (fun hi hn => (next?_follows hs hn).justified hi) [] hnone hts
    exact ⟨hjustified, (hinside b hb).lower_lt, (hinside b hb).lt_upper⟩
  case halves =>
    exact (trials_chain w _ _).imp_of_mem_imp fun b t hb _ hn =>
      (next?_follows hs hn).halves (hinside b hb)

/-- How a search for a flat slope goes in exact arithmetic: its trials, their brackets, and what
it settles on. -/
theorem search_proceeds {c : LineSearch ℝ} {f : LineFunction ℝ} {x d g : Vec ℝ} {value : ℝ}
    (hc : c.check = .ok ()) (hm : c.method = .armijoGoldstein ∨ c.method = .strongWolfe)
    (hs : Vec.dot g d < 0) :
    (ofSearch c f x d value g).Proceeds (c.search f x d value g) := by
  obtain ⟨-, hpos, hmax⟩ := first_of_check hc
  rw [Exact.literal_zero] at hpos
  have hfirst : Inside c (ofSearch c f x d value g).first := by
    refine ⟨Exact.literal_zero.ge, ?_, ?_, hmax, ?_⟩
    · exact Exact.literal_zero.trans_lt hpos
    · exact fun u hu => absurd hu (Option.not_mem_none u)
    · exact fun u hu => absurd hu (Option.not_mem_none u)
  have hrun : c.search f x d value g =
      (ofSearch c f x d value g).run c.maxIterations (ofSearch c f x d value g).first := by
    have hs' : Vec.dot g d < @OfNat.ofNat ℝ 0 (Scalar.instOfNat 0) := by rwa [Exact.literal_zero]
    unfold search
    rw [Vec.isZero_of_dot_neg hs]
    simp only [ofSearch, run, first, Bool.false_eq_true, if_false]
    obtain hm | hm := hm
    · rw [hm]
      exact if_pos hs'
    · rw [hm]
      exact if_pos hs'
  rw [hrun]
  exact run_proceeds hs hfirst

noncomputable def ofSquare : Wolfe ℝ := ofSearch (ofMethod .strongWolfe) square [1] [-2] 1 [2]

theorem ofSquare_decreases (a : ℝ) :
    ofSquare.decreases a = decide ((1 - 2 * a) ^ 2 ≤ 1 + 1e-4 * a * -4) := by
  have hvalue : (ofSquare.outcome a).value = (1 - 2 * a) ^ 2 := by
    simp [ofSquare, ofSearch, outcome, Outcome.at, square, Vec.along, Vec.add, Vec.scale]
    ring
  have hslope : ofSquare.slope = -4 := by
    change Vec.dot [2] [-2] = (-4 : ℝ)
    norm_num
  rw [decreases, hvalue, hslope]
  rfl

theorem ofSquare_slopeAt (a : ℝ) : ofSquare.slopeAt a = -4 * (1 - 2 * a) := by
  simp [ofSquare, ofSearch, slopeAt, square, Vec.along, Vec.add, Vec.scale]
  ring

theorem ofSquare_find? : ofSquare.tried.find? (ofSquare.accepts ·.step) =
    some ⟨0, some 1, 1 / 2, none⟩ := by
  have hfirst : ofSquare.first = ⟨0, none, 1, none⟩ := by
    simp [first, ofSquare, ofSearch, ofMethod, standard, limit, Scalar.ranked, Scalar.isNaN]
  have hlong : ofSquare.decreases 1 = false := by
    rw [ofSquare_decreases]
    norm_num
  have hrejected : ofSquare.accepts 1 = false := by rw [accepts, hlong, Bool.false_and]
  have hflat : ofSquare.accepts (1 / 2) = true := by
    rw [accepts, ofSquare_decreases, ofSquare_slopeAt, Bool.and_eq_true]
    refine ⟨by norm_num, ?_⟩
    simp [flat, ofSquare, ofSearch, ofMethod, standard]
    norm_num
  have hnext : ofSquare.next? ⟨0, none, 1, none⟩ = some ⟨0, some 1, 1 / 2, none⟩ := by
    have hnarrowed : ofSquare.narrowed ⟨0, none, 1, none⟩ = ⟨0, some 1, 1, none⟩ := by
      simp [narrowed, hlong, Scalar.finite?]
    rw [next?_rejected hrejected, hnarrowed]
    simp only [Bracket.next?, Option.map_some, Exact.literal_scientific]
    norm_num
  have htried : ofSquare.tried =
      ⟨0, none, 1, none⟩ :: ofSquare.trials 49 ⟨0, some 1, 1 / 2, none⟩ := by
    rw [tried, hfirst]
    exact trials_next hnext 49
  rw [htried, trials, List.find?_cons, hrejected, List.find?_cons, hflat]

theorem square_settles : (ofMethod .strongWolfe : LineSearch ℝ).check = .ok () ∧
    Vec.dot [2] [-2] < (0 : ℝ) ∧
    ((ofMethod .strongWolfe).search square [1] [-2] (1 : ℝ) [2]).value =
      .at square [1] [-2] (1 / 2) := by
  have hc : (ofMethod .strongWolfe : LineSearch ℝ).check = .ok () := by
    simp only [check, ofMethod, standard, Requirement.check_bind_eq_ok, demand_bind_eq_ok,
      demand_eq_ok, Requirement.holds, Exact.literal_zero, Exact.literal_one,
      Exact.literal_scientific, Exact.isFinite_eq]
    refine ⟨?_, rfl, ?_⟩ <;> norm_num
  have hs : Vec.dot [2] [-2] < (0 : ℝ) := by
    rw [Vec.dot_cons, Vec.dot_nil]
    norm_num
  have hproceeds : ofSquare.Proceeds ((ofMethod .strongWolfe).search square [1] [-2] (1 : ℝ) [2]) :=
    search_proceeds hc (.inr rfl) hs
  exact ⟨hc, hs, hproceeds.settles.eq_of_find? ofSquare_find?⟩

end Optima.LineSearch.Wolfe
