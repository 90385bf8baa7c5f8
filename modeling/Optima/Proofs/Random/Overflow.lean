import Optima.Proofs.Random.Draws
import Optima.Proofs.Scalar.Norm
import Optima.Proofs.Scalar.Underflow
import Optima.Proofs.Simplex.Run
import Optima.Proofs.Swarm.Run

/-!
When a run that starts at random ends at once, because a number is to be drawn from a range whose
width overflows. The bounds and the scale of the velocities are checked one by one, but a width is
a difference of bounds, and a velocity is drawn from a multiple of one.
-/

namespace Optima

variable {α γ : Type} [Scalar α]

/-- A number can be drawn from the interval: it is not empty, and its width is a number. -/
def Interval.Drawable (i : Interval α) : Prop := i.lower < i.upper ∧ Scalar.isFinite i.width = true

def Box.ranges (box : Box α) : List (Interval α) := box.filter fun i => i.lower < i.upper

theorem Box.lt_of_mem_ranges {box : Box α} {r : Interval α} (h : r ∈ box.ranges) :
    r.lower < r.upper := by
  simpa using (List.mem_filter.1 h).2

omit [Scalar α] in
theorem Run.ofIteration_ne_overflow {ι χ : Type} (t : Traced ι (Option (Report α χ))) :
    (Run.ofIteration t).value ≠ .error .rangeOverflow := by
  intro h
  cases Run.ofIteration_error h

namespace Draw

theorem whileSome_eq_none_iff {β δ : Type} {d : β → Draw γ (Option δ)} {p : β → Prop}
    {bs : List β} (h : ∀ b ∈ bs, ∀ g, ((d b).run g).1 = none ↔ p b) (g : γ) :
    ((whileSome d bs).run g).1 = none ↔ ∃ b ∈ bs, p b := by
  induction bs generalizing g with
  | nil => simp [whileSome]
  | cons b bs ih =>
    obtain ⟨hb, hbs⟩ := List.forall_mem_cons.1 h
    rw [whileSome, run_bind, List.exists_mem_cons_iff, ← hb g, ← ih hbs ((d b).run g).2]
    cases ((d b).run g).1 with
    | none => exact iff_of_true rfl (.inl rfl)
    | some c =>
      simp only [run_bind, reduceCtorEq, false_or]
      cases ((whileSome d bs).run ((d b).run g).2).1 with
      | none => exact iff_of_true rfl rfl
      | some cs => exact iff_of_false (Option.some_ne_none _) (Option.some_ne_none _)

variable [WordSource γ]

theorem range_eq_none_iff (lower upper : α) (g : γ) :
    ((range lower upper).run g).1 = none ↔ Scalar.isFinite (upper - lower) = false := by
  rw [range]
  split
  · next h =>
    rw [h]
    exact iff_of_false (Option.some_ne_none _) (by decide)
  · next h => exact iff_of_true rfl (eq_false_of_ne_true h)

theorem inInterval_eq_none_iff {i : Interval α} (hl : Scalar.isFinite i.lower = true)
    (hu : Scalar.isFinite i.upper = true) (g : γ) :
    ((inInterval i).run g).1 = none ↔ i.lower < i.upper ∧ ¬ i.Drawable := by
  rw [inInterval, if_pos hl, if_pos hu]
  split
  · next h =>
    rw [range_eq_none_iff, Interval.Drawable, Interval.width]
    simp [h]
  · next h => exact iff_of_false (Option.some_ne_none _) fun h' => h h'.1

theorem points_eq_none_iff {box : Box α} (hb : box.check = .ok ()) {n : Nat} (hn : 0 < n) (g : γ) :
    ((points box n).run g).1 = none ↔ ∃ r ∈ box.ranges, ¬ r.Drawable := by
  have hfinite := ((Box.check_eq_ok box).1 hb).2
  have hpoint (g : γ) : ((point box).run g).1 = none ↔ ∃ r ∈ box.ranges, ¬ r.Drawable := by
    rw [point, whileSome_eq_none_iff fun i hi g =>
      inInterval_eq_none_iff (hfinite i hi).1 (hfinite i hi).2.1 g]
    simp [Box.ranges, and_assoc]
  rw [points, whileSome_eq_none_iff fun _ _ => hpoint]
  exact ⟨fun ⟨_, _, h⟩ => h, fun h => ⟨0, List.mem_range.2 hn, h⟩⟩

end Draw

namespace Swarm

variable {s : Swarm α}

/-- The intervals that the components of the initial velocities are drawn from; the others are
zero. -/
def velocityRanges (s : Swarm α) : List (Interval α) :=
  ((s.box.map fun i => s.config.velocityScale * i.width).filter (0 < ·)).map fun a => ⟨-a, a⟩

/-- A run is to draw a number that cannot be drawn: a coordinate, or, once the positions are
accepted, a velocity. -/
inductive Blocked (s : Swarm α) : Prop
  | position {r : Interval α} : s.generator = none → r ∈ s.box.ranges → ¬ r.Drawable → Blocked s
  | velocity {r : Interval α} :
      (∀ generate ∈ s.generator, s.checkPositions (generate s.config.size) = .ok ()) →
      r ∈ s.velocityRanges → ¬ r.Drawable → Blocked s

variable [WordSource γ]

theorem velocityIn_eq_none_iff (i : Interval α) (g : γ) :
    ((s.velocityIn i).run g).1 = none ↔ 0 < s.config.velocityScale * i.width ∧
      Scalar.isFinite (s.config.velocityScale * i.width - -(s.config.velocityScale * i.width)) =
        false := by
  rw [velocityIn]
  split
  · next h =>
    rw [Draw.range_eq_none_iff]
    exact (and_iff_right h).symm
  · next h => exact iff_of_false (Option.some_ne_none _) fun h' => h h'.1

theorem velocities_eq_none_iff (hs : s.check = .ok ()) (g : γ) :
    (s.velocities.run g).1 = none ↔
      ∃ r ∈ s.velocityRanges, Scalar.isFinite r.width = false := by
  have hone (g : γ) : ((Draw.whileSome s.velocityIn s.box).run g).1 = none ↔
      ∃ r ∈ s.velocityRanges, Scalar.isFinite r.width = false := by
    rw [Draw.whileSome_eq_none_iff fun i _ g => velocityIn_eq_none_iff i g]
    simp [velocityRanges, Interval.width, and_assoc]
  rw [velocities, Draw.whileSome_eq_none_iff fun _ _ => hone]
  exact ⟨fun ⟨_, _, h⟩ => h, fun h => ⟨0, List.mem_range.2 (check_size hs), h⟩⟩

omit [WordSource γ] in
theorem check_velocityScale (hs : s.check = .ok ()) :
    0 < s.config.velocityScale ∧ Scalar.isFinite s.config.velocityScale = true := by
  rw [check, bind_eq_ok] at hs
  obtain ⟨_, hconfig, -⟩ := hs
  simp only [Config.check, demand_bind_eq_ok, Requirement.check_bind_eq_ok] at hconfig
  simpa [Requirement.holds] using hconfig.2.2.2.2.1

theorem overflow_iff_of_positions (hs : s.check = .ok ()) (n : Nat) {g g' : γ}
    {xs : List (Vec α)} (h : s.positions.run g = (some xs, g')) :
    (s.runWithin n g).value = .error .rangeOverflow ↔ s.checkPositions xs = .ok () ∧
      ∃ r ∈ s.velocityRanges, Scalar.isFinite r.width = false := by
  rw [← velocities_eq_none_iff hs g', runWithin, h]
  dsimp only
  cases s.checkPositions xs with
  | error e => exact iff_of_false (by simp [Run.refuse]) (by simp)
  | ok =>
    rw [Run.accepting_ok]
    split
    · next hv =>
      rw [hv]
      exact iff_of_true rfl ⟨rfl, rfl⟩
    · next hv =>
      rw [hv]
      exact iff_of_false (Run.ofIteration_ne_overflow _) (by simp)

end Swarm

namespace Binary64

/-- The bounds are so far from the greatest numbers that no width overflows. -/
def Bounded (i : Interval Float) : Prop := |toRat i.lower| ≤ 2 ^ 1021 ∧ |toRat i.upper| ≤ 2 ^ 1021

theorem Bounded.width {i : Interval Float} (h : Bounded i) (hl : i.lower.isFinite = true)
    (hu : i.upper.isFinite = true) (hlu : i.lower ≤ i.upper) :
    i.width.isFinite = true ∧ 0 ≤ toRat i.width ∧ toRat i.width ≤ 2 ^ 1022 := by
  obtain ⟨hlow, hhigh⟩ := h
  rw [abs_le] at hlow hhigh
  rw [le_iff_toRat_le hl hu] at hlu
  refine (sub_rounds hu hl).le_pow (by norm_num) (by linarith) ?_
  calc toRat i.upper - toRat i.lower = toRat i.upper + -toRat i.lower := sub_eq_add_neg _ _
    _ ≤ 2 ^ 1021 + 2 ^ 1021 := add_le_add hhigh.2 (neg_le.1 hlow.1)
    _ = 2 ^ 1022 := by rw [← two_mul, ← pow_succ']

theorem isFinite_span {a : Float} (ha : a.isFinite = true) (h0 : 0 ≤ toRat a)
    (h : toRat a ≤ 2 ^ 1022) : (a - -a).isFinite = true := by
  have hneg : (-a).isFinite = true := (Scalar.Extended.isFinite_neg a).trans ha
  have hrounds := sub_rounds ha hneg
  rw [toRat_neg, sub_neg_eq_add] at hrounds
  refine (hrounds.le_pow le_rfl (by linarith) ?_).1
  calc toRat a + toRat a ≤ 2 ^ 1022 + 2 ^ 1022 := add_le_add h h
    _ = 2 ^ 1023 := by rw [← two_mul, ← pow_succ']

end Binary64

open Binary64 (Bounded)

namespace Swarm

variable {s : Swarm Float}

theorem lt_of_mem_velocityRanges {r : Interval Float} (h : r ∈ s.velocityRanges) :
    r.lower < r.upper := by
  obtain ⟨a, ha, rfl⟩ := List.mem_map.1 h
  exact Binary64.neg_lt_self (by simpa using (List.mem_filter.1 ha).2)

theorem velocity_drawable_iff {r : Interval Float} (h : r ∈ s.velocityRanges) :
    ¬ r.Drawable ↔ Scalar.isFinite r.width = false := by
  simp [Interval.Drawable, lt_of_mem_velocityRanges h]

theorem exists_velocity_iff : (∃ r ∈ s.velocityRanges, Scalar.isFinite r.width = false) ↔
    ∃ r ∈ s.velocityRanges, ¬ r.Drawable :=
  exists_congr fun _ => and_congr_right fun hr => (velocity_drawable_iff hr).symm

variable [WordSource γ]

theorem overflow_iff_of_given (hs : s.check = .ok ()) {generate : Nat → List (Vec Float)}
    (hg : s.generator = some generate) (n : Nat) (g : γ) :
    (s.runWithin n g).value = .error .rangeOverflow ↔ s.Blocked := by
  have hpositions : s.positions.run g = (some (generate s.config.size), g) := by
    rw [positions, hg]
    rfl
  rw [overflow_iff_of_positions hs n hpositions, exists_velocity_iff]
  constructor
  · rintro ⟨hcheck, r, hr, hd⟩
    exact .velocity (by simpa [hg] using hcheck) hr hd
  · rintro (⟨hnone, -, -⟩ | ⟨hcheck, hr, hd⟩)
    · cases hg.symm.trans hnone
    · exact ⟨hcheck generate hg, _, hr, hd⟩

theorem overflow_iff_of_drawn (hs : s.check = .ok ()) (hg : s.generator = none) (n : Nat) (g : γ) :
    (s.runWithin n g).value = .error .rangeOverflow ↔ s.Blocked := by
  have hpositions : s.positions.run g = (Draw.points s.box s.config.size).run g := by
    rw [positions, hg]
  have hpoints := Draw.points_eq_none_iff (check_box hs) (check_size hs) g
  cases hxs : ((Draw.points s.box s.config.size).run g).1 with
  | none =>
    have hrun : s.runWithin n g = .overflow := by
      rw [runWithin, hpositions, ← Prod.eta ((Draw.points s.box s.config.size).run g), hxs]
    obtain ⟨r, hr, hd⟩ := hpoints.1 hxs
    rw [hrun]
    exact iff_of_true rfl (.position hg hr hd)
  | some xs =>
    rw [hxs] at hpoints
    obtain ⟨hl, hdim⟩ := Draw.points_length hxs
    rw [← Prod.eta ((Draw.points s.box s.config.size).run g), hxs] at hpositions
    rw [overflow_iff_of_positions hs n hpositions, exists_velocity_iff]
    constructor
    · rintro ⟨-, r, hr, hd⟩
      exact .velocity (by simp [hg]) hr hd
    · rintro (⟨-, hr, hd⟩ | ⟨-, hr, hd⟩)
      · cases hpoints.2 ⟨_, hr, hd⟩
      · exact ⟨checkPositions_of_length hl hdim, _, hr, hd⟩

theorem overflow_iff (hs : s.check = .ok ()) (n : Nat) (g : γ) :
    (s.runWithin n g).value = .error .rangeOverflow ↔ s.Blocked := by
  cases hg : s.generator with
  | none => exact overflow_iff_of_drawn hs hg n g
  | some generate => exact overflow_iff_of_given hs hg n g

end Swarm

theorem Box.drawable_of_bounded {box : Box Float} (hb : box.check = .ok ())
    (h : ∀ i ∈ box, Bounded i) {r : Interval Float} (hr : r ∈ box.ranges) : r.Drawable := by
  obtain ⟨hi, -⟩ := List.mem_filter.1 hr
  have hlt := lt_of_mem_ranges hr
  obtain ⟨hl, hu, -⟩ := ((Box.check_eq_ok box).1 hb).2 r hi
  exact ⟨hlt, ((h r hi).width hl hu (Scalar.Lawful.le_of_lt hlt)).1⟩

theorem Swarm.not_blocked_of_bounded {s : Swarm Float} (hs : s.check = .ok ())
    (h : ∀ i ∈ s.box, Bounded i) (hv : s.config.velocityScale ≤ 1) : ¬ s.Blocked := by
  rintro (⟨-, hr, hd⟩ | ⟨-, hr, hd⟩)
  · exact hd (Box.drawable_of_bounded (check_box hs) h hr)
  · rw [velocity_drawable_iff hr] at hd
    obtain ⟨a, ha, rfl⟩ := List.mem_map.1 hr
    obtain ⟨i, hi, rfl⟩ := List.mem_map.1 (List.mem_filter.1 ha).1
    obtain ⟨hl, hu, -⟩ := ((Box.check_eq_ok s.box).1 (check_box hs)).2 i hi
    obtain ⟨hpos, hfinite⟩ := check_velocityScale hs
    have hpos := (Binary64.le_iff_toRat_le (by decide) hfinite).1 (Scalar.Lawful.le_of_lt hpos)
    have hone := (Binary64.le_iff_toRat_le hfinite (by decide)).1 hv
    rw [Binary64.toRat_zero] at hpos
    rw [Binary64.toRat_one] at hone
    obtain ⟨hw, hw0, hwle⟩ := (h i hi).width hl hu (Box.ordered (check_box hs) hi)
    obtain ⟨hspan, hspan0, hspanle⟩ := (Binary64.mul_rounds hfinite hw).le_pow (by norm_num)
      (mul_nonneg hpos hw0) ((mul_le_of_le_one_left hw0 hone).trans hwle)
    exact absurd ((Binary64.isFinite_span hspan hspan0 hspanle).symm.trans hd) (by decide)

theorem SimplexSearch.overflow_iff {s : SimplexSearch Float} (hs : s.check = .ok ())
    [WordSource γ] (n : Nat) (g : γ) :
    (s.runRandomWithin n g).value = .error .rangeOverflow ↔ ∃ r ∈ s.box.ranges, ¬ r.Drawable := by
  rw [← Draw.points_eq_none_iff (check_box hs) (Nat.succ_pos s.box.length) g, runRandomWithin]
  split
  · next h =>
    rw [h]
    exact iff_of_false (Run.ofIteration_ne_overflow _) (Option.some_ne_none _)
  · next h =>
    rw [h]
    exact iff_of_true rfl rfl

/-- No range that an accepted swarm or simplex search draws from at random is empty, and a run fails
to draw just where the width of one is not finite, whatever the random words are. This cannot be
when the bounds are small enough and the velocities are drawn from no more than the width of the
box. -/
theorem random_runs_overflow {γ : Type} [WordSource γ] :
    (∀ s : Swarm Float, s.check = .ok () → ∀ (n : Nat) (g : γ),
      (∀ r ∈ s.box.ranges ++ s.velocityRanges, r.lower < r.upper) ∧
        ((s.runWithin n g).value = .error .rangeOverflow ↔ s.Blocked) ∧
        ((∀ i ∈ s.box, Bounded i) → s.config.velocityScale ≤ 1 → ¬ s.Blocked)) ∧
    ∀ s : SimplexSearch Float, s.check = .ok () → ∀ (n : Nat) (g : γ),
      (∀ r ∈ s.box.ranges, r.lower < r.upper) ∧
        ((s.runRandomWithin n g).value = .error .rangeOverflow ↔
          ∃ r ∈ s.box.ranges, ¬ r.Drawable) ∧
        ((∀ i ∈ s.box, Bounded i) → ∀ r ∈ s.box.ranges, r.Drawable) := by
  constructor
  · intro s hs n g
    refine ⟨?_, Swarm.overflow_iff hs n g, Swarm.not_blocked_of_bounded hs⟩
    intro r hr
    obtain hr | hr := List.mem_append.1 hr
    · exact Box.lt_of_mem_ranges hr
    · exact Swarm.lt_of_mem_velocityRanges hr
  · intro s hs n g
    refine ⟨fun r => Box.lt_of_mem_ranges, SimplexSearch.overflow_iff hs n g, ?_⟩
    intro h r hr
    exact Box.drawable_of_bounded (SimplexSearch.check_box hs) h hr

def gale (scale : Float) : Swarm Float where
  objective := .ofValue fun _ => 0
  box := [⟨-1, 1⟩]
  config := { Swarm.Config.standard with
    size := 2, velocityScale := scale, stopping := .afterIterations 0 }
  generator := some fun _ => [[0], [0.5]]

def expanse : SimplexSearch Float where
  objective := .ofValue fun _ => 0
  box := [⟨-1e308, 1e308⟩]
  config := .standard

theorem gale_run : ((gale 1e308).run).value = .error .rangeOverflow := by
  decide +kernel

theorem expanse_run : (expanse.runRandom (ChaCha.ofSeed 42)).value = .error .rangeOverflow := by
  decide +kernel

theorem gale_blocked : (gale 1e308).Blocked ∧ ¬ (gale 1).Blocked ∧
    ∃ r ∈ expanse.box.ranges, ¬ r.Drawable := by
  have hgale : (gale 1e308).check = .ok () := by decide +kernel
  have hcalm : (gale 1).check = .ok () := by decide +kernel
  have hexpanse : expanse.check = .ok () := by decide +kernel
  have hgaleRun := gale_run
  have hexpanseRun := expanse_run
  rw [Swarm.run, Swarm.runFrom] at hgaleRun
  rw [SimplexSearch.runRandom] at hexpanseRun
  have hbounded : ∀ i ∈ (gale 1).box, Bounded i := by
    have hone : (1 : ℚ) ≤ 2 ^ 1021 := one_le_pow₀ one_le_two
    refine List.forall_mem_singleton.2 ⟨?_, ?_⟩
    · rw [Binary64.toRat_neg, Binary64.toRat_one, abs_neg, abs_one]
      exact hone
    · rw [Binary64.toRat_one, abs_one]
      exact hone
  exact ⟨(random_runs_overflow.1 _ hgale _ _).2.1.1 hgaleRun,
    (random_runs_overflow.1 _ hcalm 0 (ChaCha.ofSeed 42)).2.2 hbounded (by decide +kernel),
    (random_runs_overflow.2 _ hexpanse _ _).2.1.1 hexpanseRun⟩

theorem random_runs_panic :
    (¬ ∀ s : Swarm Float, s.check = .ok () → s.run.value ≠ .error .rangeOverflow) ∧
      ¬ ∀ (s : SimplexSearch Float) (g : ChaCha), s.check = .ok () →
        (s.runRandom g).value ≠ .error .rangeOverflow := by
  constructor
  · intro h
    exact h (gale 1e308) (by decide +kernel) gale_run
  · intro h
    exact h expanse (ChaCha.ofSeed 42) (by decide +kernel) expanse_run

end Optima
