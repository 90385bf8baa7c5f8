import Mathlib.Data.Real.Basic
import Optima.Proofs.Cap.Curtailed
import Optima.Proofs.Root.Containment
import Optima.Proofs.Scalar.Exact

namespace Optima.Bracketing

open Traced (Visits)

/-- The function takes values of both signs as close to the point as one likes. -/
def ChangesSignAt (f : ℝ → ℝ) (c : ℝ) : Prop :=
  ∀ ε > 0, ∃ p q, |p - c| < ε ∧ |q - c| < ε ∧ Scalar.sameSign (f p) (f q) = false

/-- The last point up to which the sign of the lower end is met again and again. -/
theorem exists_changesSignAt {f : ℝ → ℝ} {a b : ℝ} (hab : a ≤ b)
    (h : Scalar.sameSign (f a) (f b) = false) : ∃ c, a ≤ c ∧ c ≤ b ∧ ChangesSignAt f c := by
  obtain ⟨alike, halike⟩ : ∃ alike : Set ℝ, ∀ p, p ∈ alike ↔
      p ≤ b ∧ Scalar.sameSign (f p) (f a) = true := ⟨{p | _ ∧ _}, fun _ => Iff.rfl⟩
  have ha : a ∈ alike := (halike a).2 ⟨hab, by simp [Scalar.sameSign]⟩
  have hbound : BddAbove alike := ⟨b, fun p hp => ((halike p).1 hp).1⟩
  have hle : sSup alike ≤ b := csSup_le ⟨a, ha⟩ fun p hp => ((halike p).1 hp).1
  refine ⟨sSup alike, le_csSup hbound ha, hle, ?_⟩
  intro ε hε
  obtain ⟨p, hp, hlt⟩ := exists_lt_of_lt_csSup ⟨a, ha⟩ (sub_lt_self (sSup alike) hε)
  have hple := le_csSup hbound hp
  have hpa := ((halike p).1 hp).2
  -- a point with the other sign lies beyond, unless it is the upper end itself
  obtain ⟨q, hq, hqa⟩ : ∃ q, |q - sSup alike| < ε ∧ Scalar.sameSign (f q) (f a) = false := by
    obtain heq | hlt := hle.eq_or_lt
    · refine ⟨b, by rwa [heq, sub_self, abs_zero], ?_⟩
      rwa [Scalar.sameSign, Bool.beq_comm, ← Scalar.sameSign]
    · refine ⟨min (sSup alike + ε / 2) b, ?_, ?_⟩
      · have hmin : sSup alike < min (sSup alike + ε / 2) b := lt_min (by linarith) hlt
        rw [abs_of_pos (sub_pos.2 hmin)]
        have := min_le_left (sSup alike + ε / 2) b
        linarith
      · refine eq_false_of_ne_true fun hs => ?_
        have hmem := le_csSup hbound ((halike _).2 ⟨min_le_right _ _, hs⟩)
        exact hmem.not_gt (lt_min (by linarith) hlt)
  refine ⟨p, q, ?_, hq, ?_⟩
  · rw [abs_sub_comm, abs_of_nonneg (by linarith)]
    linarith
  · rw [Scalar.sameSign, beq_iff_eq] at hpa
    rwa [Scalar.sameSign, hpa, Bool.beq_comm, ← Scalar.sameSign]

/-- The least number of halvings, and at least one, that take the width below the tolerance. -/
noncomputable def halvings (width tolerance : ℝ) : ℕ :=
  sInf {k | 1 ≤ k ∧ width < tolerance * 2 ^ k}

theorem halvings_le {width tolerance : ℝ} {k : ℕ} (hk : 1 ≤ k) (h : width < tolerance * 2 ^ k) :
    halvings width tolerance ≤ k := Nat.sInf_le ⟨hk, h⟩

theorem halvings_spec (width : ℝ) {tolerance : ℝ} (h : 0 < tolerance) :
    1 ≤ halvings width tolerance ∧ width < tolerance * 2 ^ halvings width tolerance := by
  obtain ⟨k, hk⟩ := pow_unbounded_of_one_lt (width / tolerance) one_lt_two
  refine Nat.sInf_mem (s := {k | 1 ≤ k ∧ width < tolerance * 2 ^ k}) ⟨k + 1, by omega, ?_⟩
  rw [div_lt_iff₀' h] at hk
  refine hk.trans_le (mul_le_mul_of_nonneg_left ?_ h.le)
  exact pow_le_pow_right₀ one_le_two (Nat.le_succ k)

variable {s : Bracketing ℝ} {b : Bracket ℝ} {i : Interval ℝ} {k : ℕ}

/-- A bracket that is left of an interval when it was halved `k` times: the error changes its sign
over it. -/
structure Bracket.Halved (s : Bracketing ℝ) (i : Interval ℝ) (k : ℕ) (b : Bracket ℝ) : Prop
    extends b.Changes s where
  width : b.upper - b.lower = i.width / 2 ^ k
  ge : i.lower ≤ b.lower
  le : b.upper ≤ i.upper

theorem Bracket.trial_dichotomy (b : Bracket ℝ) :
    b.trial .dichotomy = b.lower + (b.upper - b.lower) / 2 := by
  rw [trial, Exact.literal_scientific]
  norm_num
  ring

theorem Bracket.Halved.lower_le (h : b.Halved s i k) (hi : i.lower ≤ i.upper) :
    b.lower ≤ b.upper := by
  have hwidth : 0 ≤ i.width / 2 ^ k := div_nonneg (sub_nonneg.2 hi) (by positivity)
  rw [← h.width] at hwidth
  exact sub_nonneg.1 hwidth

theorem Bracket.Halved.narrow (h : b.Halved s i k) (hi : i.lower ≤ i.upper) :
    (b.narrow (b.trial .dichotomy) (s.error (b.trial .dichotomy))).Halved s i (k + 1) := by
  have hle := h.lower_le hi
  have hge := h.ge
  have hu := h.le
  have hwidth := h.width
  have hmiddle := b.trial_dichotomy
  have hhalf : i.width / 2 ^ (k + 1) = (b.upper - b.lower) / 2 := by
    rw [hwidth, pow_succ, div_div]
  refine ⟨h.toChanges.narrow rfl, ?_, ?_, ?_⟩ <;> unfold Bracket.narrow <;> split <;> dsimp only
  all_goals linarith

variable {t : State ℝ} {x y : ℝ}

theorem ordered_le (x y : ℝ) : (ordered x y).lower ≤ (ordered x y).upper := by
  unfold ordered
  split
  · assumption
  · next hxy => exact (not_le.1 hxy).le

theorem ordered_width (x y : ℝ) : (ordered x y).width = |x - y| := by
  unfold ordered
  split
  · next hxy => rw [abs_sub_comm, abs_of_nonneg (sub_nonneg.2 hxy), Interval.width]
  · next hxy => rw [abs_of_pos (sub_pos.2 (not_le.1 hxy)), Interval.width]

theorem start_unsettled (hx : s.config.tolerance ≤ |s.error x|)
    (hy : s.config.tolerance ≤ |s.error y|)
    (hsign : Scalar.sameSign (s.error x) (s.error y) = false) :
    (s.start x y).settled? s.config = none := by
  have hcomm : Scalar.sameSign (s.error y) (s.error x) = false := by
    rwa [Scalar.sameSign, Bool.beq_comm, ← Scalar.sameSign]
  have hstart : (s.start x y).bracket.lowerError = s.error (ordered x y).lower ∧
      (s.start x y).bracket.upperError = s.error (ordered x y).upper := ⟨rfl, rfl⟩
  unfold State.settled?
  obtain ⟨hl, hu⟩ | ⟨hl, hu⟩ := ordered_cases x y <;>
    simp [hstart, hl, hu, hx.not_gt, hy.not_gt, hsign, hcomm]

theorem State.next_halved (hm : s.config.method = .dichotomy)
    (h : t.bracket.Halved s (ordered x y) t.iteration) :
    (t.next s).bracket.Halved s (ordered x y) (t.iteration + 1) := by
  have hn := h.narrow (ordered_le x y)
  rw [← hm] at hn
  exact hn

theorem visits_halved (hm : s.config.method = .dichotomy)
    (h : (s.start x y).settled? s.config = none) {ts : List (State ℝ)}
    (ht : Visits s.round (s.start x y) ts t) :
    t.iteration = ts.length ∧ t.bracket.Halved s (ordered x y) t.iteration := by
  induction ht with
  | refl =>
    refine ⟨rfl, changes_start h, ?_, le_rfl, le_rfl⟩
    exact (div_one _).symm.trans (congrArg (_ / ·) (pow_zero 2).symm)
  | tail _ hu ih =>
    obtain ⟨-, -, -, rfl⟩ := round_inl hu
    refine ⟨?_, State.next_halved hm ih.2⟩
    rw [List.length_append, ← ih.1]
    rfl

theorem Bracket.Halved.narrow_of_le (htol : 0 < s.config.tolerance)
    (h : b.Halved s (ordered x y) k) (hk : halvings |x - y| s.config.tolerance ≤ k) :
    b.upper - b.lower < s.config.tolerance := by
  obtain ⟨-, hlt⟩ := halvings_spec |x - y| htol
  rw [h.width, ordered_width, div_lt_iff₀ (by positivity)]
  refine hlt.trans_le (mul_le_mul_of_nonneg_left ?_ htol.le)
  exact pow_le_pow_right₀ one_le_two hk

theorem round_of_halved (hm : s.config.method = .dichotomy) (htol : 0 < s.config.tolerance)
    (hcap : ∀ n, s.config.stopping.maxIterations = some n →
      halvings |x - y| s.config.tolerance ≤ n)
    (h : t.bracket.Halved s (ordered x y) t.iteration) :
    (s.round t).value = .inr ((t.next s).finish (t.trial s) (s.error (t.trial s)) .normal) ∨
      (s.round t).value = .inl (t.next s) ∧
        (t.next s).iteration < halvings |x - y| s.config.tolerance := by
  rw [round_eq]
  dsimp only
  rw [Exact.isFinite_eq, Bool.not_true, if_neg Bool.false_ne_true]
  split
  · exact .inl rfl
  · next hwide =>
    rw [Bool.or_eq_true, decide_eq_true_eq, decide_eq_true_eq, not_or] at hwide
    have hnext : t.iteration + 1 < halvings |x - y| s.config.tolerance := by
      by_contra hle
      exact hwide.2 ((State.next_halved hm h).narrow_of_le htol (not_lt.1 hle))
    have hopen : ¬ s.config.stopping.capReached (t.next s).iteration = true := by
      rw [Stopping.capReached_iff]
      rintro ⟨n, hn, hle⟩
      exact (hnext.trans_le (hcap n hn)).not_ge hle
    rw [if_neg hopen]
    exact .inr ⟨rfl, hnext⟩

theorem runWithin_halves (hm : s.config.method = .dichotomy) (htol : 0 < s.config.tolerance)
    (hs : (s.start x y).settled? s.config = none)
    (hcap : ∀ n, s.config.stopping.maxIterations = some n →
      halvings |x - y| s.config.tolerance ≤ n)
    {n : ℕ} (hn : halvings |x - y| s.config.tolerance ≤ n) :
    ∃ r, (s.runWithin n x y).value = .ok r ∧ r.status = .normal ∧
      r.iterations ≤ halvings |x - y| s.config.tolerance := by
  obtain ⟨hfirst, -⟩ := halvings_spec |x - y| htol
  have hends : ∃ r, (Traced.iterate s.round n (s.start x y)).value = some r ∧
      r.status = .normal ∧ r.iterations ≤ halvings |x - y| s.config.tolerance := by
    refine Traced.iterate_ends (fun t => halvings |x - y| s.config.tolerance - 1 - t.iteration)
      (I := fun t => t.bracket.Halved s (ordered x y) t.iteration ∧
        t.iteration < halvings |x - y| s.config.tolerance)
      ?_ ?_ ⟨(visits_halved hm hs .refl).2, hfirst⟩ (by omega)
    · rintro t u ⟨hhalved, ht⟩ hu
      obtain he | ⟨he, hnext⟩ := round_of_halved hm htol hcap hhalved
      · rw [he] at hu
        cases hu
      · rw [he] at hu
        cases hu
        have hstep : (t.next s).iteration = t.iteration + 1 := rfl
        exact ⟨⟨State.next_halved hm hhalved, hnext⟩, by omega⟩
    · rintro t r ⟨hhalved, ht⟩ hr
      obtain he | ⟨he, -⟩ := round_of_halved hm htol hcap hhalved
      · rw [he] at hr
        cases hr
        exact ⟨rfl, ht⟩
      · rw [he] at hr
        cases hr
  obtain ⟨r, hr, hstatus, hiterations⟩ := hends
  refine ⟨r, ?_, hstatus, hiterations⟩
  rw [runWithin_unsettled rfl rfl n hs]
  exact Run.ofIteration_ok.2 hr

/-- In exact arithmetic a search by the middle of the bracket, from two points whose errors differ
in sign and are not below the tolerance, halves the bracket in every iteration and keeps a change of
sign in it. Unless the cap forbids as many iterations as take the width below the tolerance, it ends
normally after no more of them, at an end of its last bracket: as far from a change of sign as that
bracket is wide, at most. -/
theorem dichotomy_converges {s : Bracketing ℝ} {x y : ℝ} (hm : s.config.method = .dichotomy)
    (htol : 0 < s.config.tolerance) (hx : s.config.tolerance ≤ |s.error x|)
    (hy : s.config.tolerance ≤ |s.error y|)
    (hsign : Scalar.sameSign (s.error x) (s.error y) = false)
    (hcap : ∀ n, s.config.stopping.maxIterations = some n →
      halvings |x - y| s.config.tolerance ≤ n) :
    (∀ ts t, Visits s.round (s.start x y) ts t → t.iteration = ts.length ∧
      t.bracket.Halved s (ordered x y) ts.length ∧
      (t.next s).bracket.Halved s (ordered x y) (ts.length + 1)) ∧
    ∀ n, halvings |x - y| s.config.tolerance ≤ n → ∃ r, (s.runWithin n x y).value = .ok r ∧
      r.status = .normal ∧ r.iterations ≤ halvings |x - y| s.config.tolerance ∧
      ∃ ts t, Visits s.round (s.start x y) ts t ∧ r.iterations = ts.length + 1 ∧
        (r.result = (t.next s).bracket.lower ∨ r.result = (t.next s).bracket.upper) ∧
        ∃ c, (t.next s).bracket.interval.Contains c ∧ ChangesSignAt s.error c ∧
          |r.result - c| ≤ |x - y| / 2 ^ r.iterations := by
  have hs := start_unsettled hx hy hsign
  have hvisits : ∀ ts t, Visits s.round (s.start x y) ts t → t.iteration = ts.length ∧
      t.bracket.Halved s (ordered x y) ts.length ∧
      (t.next s).bracket.Halved s (ordered x y) (ts.length + 1) := by
    intro ts t ht
    obtain ⟨hi, hhalved⟩ := visits_halved hm hs ht
    rw [← hi]
    exact ⟨rfl, hhalved, State.next_halved hm hhalved⟩
  refine ⟨hvisits, ?_⟩
  intro n hn
  obtain ⟨r, hr, hstatus, hiterations⟩ := runWithin_halves hm htol hs hcap hn
  refine ⟨r, hr, hstatus, hiterations, ?_⟩
  obtain hsettled | ⟨-, ts, t, ht, hend⟩ := runWithin_cases rfl rfl hr
  · rw [hs] at hsettled
    cases hsettled
  obtain ⟨hi, -, hhalved⟩ := hvisits ts t ht
  have hcount : r.iterations = ts.length + 1 := by rw [(round_last hend).1, hi]
  have hresult : r.result = (t.next s).bracket.lower ∨ r.result = (t.next s).bracket.upper := by
    rw [(round_inr hend).1]
    exact (t.bracket.narrow_lower_or_upper _ _).imp Eq.symm Eq.symm
  have hle := hhalved.lower_le (ordered_le x y)
  obtain ⟨c, hlower, hupper, hc⟩ := exists_changesSignAt hle (f := s.error) (by
    rw [← hhalved.lowerError, ← hhalved.upperError]
    exact hhalved.sign)
  refine ⟨ts, t, ht, hcount, hresult, c, ⟨hlower, hupper⟩, hc, ?_⟩
  have hwidth := hhalved.width
  rw [ordered_width, ← hcount] at hwidth
  rw [← hwidth]
  obtain he | he := hresult
  · rw [he, abs_of_nonpos (by linarith)]
    linarith
  · rw [he, abs_of_nonneg (by linarith)]
    linarith

noncomputable def cubicRoot : Bracketing ℝ where
  function x := x ^ 3 - x - 2
  config := .standard

theorem cubicRoot_converges : ∃ r, (cubicRoot.run 1 2).value = .ok r ∧ r.status = .normal ∧
    r.iterations ≤ 34 ∧ ∃ c, ChangesSignAt cubicRoot.error c ∧
      |r.result - c| ≤ 1 / 2 ^ r.iterations := by
  have htol : cubicRoot.config.tolerance = 1e-10 := Exact.literal_scientific _ _ _
  have herror (x : ℝ) : cubicRoot.error x = x ^ 3 - x - 2 := by
    have htarget : cubicRoot.config.target = 0 := Exact.literal_zero
    rw [error, htarget, sub_zero]
    rfl
  have hhalvings : halvings |1 - 2| cubicRoot.config.tolerance ≤ 34 := by
    rw [htol]
    exact halvings_le (by norm_num) (by norm_num)
  have hlower : cubicRoot.error 1 = -2 := by rw [herror]; norm_num
  have hupper : cubicRoot.error 2 = 4 := by rw [herror]; norm_num
  obtain ⟨-, hrun⟩ := dichotomy_converges (s := cubicRoot) (x := 1) (y := 2) rfl
    (by rw [htol]; norm_num) (by rw [htol, hlower]; norm_num) (by rw [htol, hupper]; norm_num)
    (by rw [hlower, hupper]; norm_num [Scalar.sameSign, Scalar.isNegative])
    (by
      rintro n hn
      cases hn
      exact hhalvings.trans (by norm_num))
  obtain ⟨r, hr, hstatus, hiterations, ts, t, -, -, -, c, -, hc, hle⟩ :=
    hrun cubicRoot.config.stopping.budget (hhalvings.trans (by decide))
  refine ⟨r, hr, hstatus, hiterations.trans hhalvings, c, hc, ?_⟩
  norm_num at hle ⊢
  exact hle

end Optima.Bracketing
