import Optima.Proofs.Root.Bracket
import Optima.Proofs.Scalar.Between

/-!
Where a bracketing search evaluates its function. In exact arithmetic the middle of a bracket and
the root of the secant lie in it; in binary64 arithmetic the sum of the ends may overflow, and the
part of the bracket that the secant cuts off may be rounded up beyond the whole of it.
-/

namespace Optima.Bracketing

section

open Scalar (isFinite)
open Traced (path)

variable {α : Type} [Scalar α]

/-- All the points at which a run evaluates the function, and the one it reports, are in the
interval. -/
def Stays (i : Interval α) (r : Run α α α) : Prop :=
  (∀ z ∈ r.calls, i.Contains z) ∧ ∀ report, r.value = .ok report → i.Contains report.result

def brackets (s : Bracketing α) (n : Nat) (x y : α) : List (Bracket α) :=
  if ((s.start x y).settled? s.config).isSome then []
  else (path s.round n (s.start x y)).map State.bracket

/-- What the root of the secant is taken off the upper end. -/
def Bracket.part (b : Bracket α) : α :=
  b.upperError * (b.upper - b.lower) / (b.upperError - b.lowerError)

variable (s : Bracketing α)

theorem round_calls (t : State α) : (s.round t).calls = [t.trial s] := by
  rw [round_eq]

theorem callsAt_round (ts : List (State α)) :
    Traced.callsAt s.round ts = (ts.map State.bracket).map (Bracket.trial s.config.method) := by
  induction ts with
  | nil => rfl
  | cons t ts ih =>
    rw [Traced.callsAt_cons, round_calls, ih]
    rfl

theorem runWithin_calls {x y : α} (hx : isFinite x = true) (hy : isFinite y = true) (n : Nat) :
    (s.runWithin n x y).calls = (ordered x y).lower :: (ordered x y).upper ::
      (s.brackets n x y).map (Bracket.trial s.config.method) := by
  rw [brackets]
  cases hs : (s.start x y).settled? s.config with
  | some report =>
    rw [runWithin_settled hx hy n hs]
    rfl
  | none =>
    rw [runWithin_unsettled hx hy n hs]
    change _ :: _ :: (Traced.iterate s.round n (s.start x y)).calls = _
    rw [Traced.iterate_calls, callsAt_round]
    rfl

theorem ordered_cases (x y : α) : (ordered x y).lower = x ∧ (ordered x y).upper = y ∨
    (ordered x y).lower = y ∧ (ordered x y).upper = x := by
  unfold ordered
  split
  · exact .inl ⟨rfl, rfl⟩
  · exact .inr ⟨rfl, rfl⟩

theorem contains_ends [Scalar.Lawful α] {x y : α} (hx : isFinite x = true)
    (hy : isFinite y = true) : (ordered x y).Contains (ordered x y).lower ∧
      (ordered x y).Contains (ordered x y).upper := by
  have hnx := Scalar.Lawful.isNaN_of_isFinite hx
  have hny := Scalar.Lawful.isNaN_of_isFinite hy
  have hle : (ordered x y).lower ≤ (ordered x y).upper := by
    unfold ordered
    split
    · next h => exact h
    · next h => exact (Scalar.Lawful.le_total hnx hny).resolve_left h
  obtain ⟨hl, hu⟩ := Scalar.Lawful.isNaN_of_le hle
  exact ⟨⟨Scalar.Lawful.le_refl hl, hle⟩, ⟨hle, Scalar.Lawful.le_refl hu⟩⟩

structure Bracket.Apart (s : Bracketing α) (b : Bracket α) : Prop extends b.Changes s where
  lower : ¬ Scalar.abs b.lowerError < s.config.tolerance
  upper : ¬ Scalar.abs b.upperError < s.config.tolerance

variable {s}

theorem Bracket.Apart.narrow {b : Bracket α} (h : b.Apart s) {x : α}
    (hx : isFinite (s.error x) = true)
    (hapart : ¬ Scalar.abs (s.error x) < s.config.tolerance) :
    (b.narrow x (s.error x)).Apart s := by
  refine ⟨h.toChanges.narrow hx, ?_, ?_⟩
  · unfold Bracket.narrow
    split
    · exact hapart
    · exact h.lower
  · unfold Bracket.narrow
    split
    · exact h.upper
    · exact hapart

theorem apart_start {x y : α} (h : (s.start x y).settled? s.config = none) :
    (s.start x y).bracket.Apart s := by
  obtain ⟨-, -, hl, hu, -⟩ := State.settled?_none h
  exact ⟨changes_start h, hl, hu⟩

theorem settled?_result {x y : α} {r : Report α α}
    (h : (s.start x y).settled? s.config = some r) :
    r.result = (ordered x y).lower ∨ r.result = (ordered x y).upper := by
  unfold State.settled? at h
  dsimp only at h
  repeat' split at h
  all_goals cases h
  · exact .inl rfl
  · exact .inl rfl
  · exact .inr rfl
  · exact .inl rfl

theorem result_mem_calls {x y : α} (hx : isFinite x = true) (hy : isFinite y = true) {n : Nat}
    {r : Report α α} (h : (s.runWithin n x y).value = .ok r) :
    r.result ∈ (s.runWithin n x y).calls := by
  rw [runWithin_calls s hx hy, List.mem_cons, List.mem_cons, brackets]
  cases hs : (s.start x y).settled? s.config with
  | some report =>
    rw [runWithin_settled hx hy n hs] at h
    cases h
    exact (settled?_result hs).imp_right .inl
  | none =>
    rw [runWithin_unsettled hx hy n hs] at h
    change Run.conclude (Traced.iterate s.round n (s.start x y)).value = _ at h
    cases hi : (Traced.iterate s.round n (s.start x y)).value with
    | none =>
      rw [hi] at h
      cases h
    | some report =>
      rw [hi] at h
      cases h
      obtain ⟨t, ht, hr⟩ := Traced.exists_mem_path hi
      rw [(round_inr hr).1]
      exact .inr (.inr (List.mem_map_of_mem (List.mem_map_of_mem ht)))

theorem stays_iff [Scalar.Lawful α] {x y : α} (hx : isFinite x = true) (hy : isFinite y = true)
    (n : Nat) : Stays (ordered x y) (s.runWithin n x y) ↔
      ∀ b ∈ s.brackets n x y, (ordered x y).Contains (b.trial s.config.method) := by
  obtain ⟨hl, hu⟩ := contains_ends hx hy
  constructor
  · intro h b hb
    apply h.1
    rw [runWithin_calls s hx hy]
    exact List.mem_cons_of_mem _ (List.mem_cons_of_mem _ (List.mem_map_of_mem hb))
  · intro h
    have hcalls : ∀ z ∈ (s.runWithin n x y).calls, (ordered x y).Contains z := by
      rw [runWithin_calls s hx hy, List.forall_mem_cons, List.forall_mem_cons, List.forall_mem_map]
      exact ⟨hl, hu, h⟩
    exact ⟨hcalls, fun r hr => hcalls _ (result_mem_calls hx hy hr)⟩

theorem brackets_invariant {P Q : Bracket α → Prop} {x y : α} {n : Nat}
    (hstart : (s.start x y).settled? s.config = none → P (s.start x y).bracket)
    (hstep : ∀ t u, P t.bracket → Q t.bracket → (s.round t).value = .inl u → P u.bracket)
    (hq : ∀ b ∈ s.brackets n x y, Q b) : ∀ b ∈ s.brackets n x y, P b := by
  rw [brackets] at hq ⊢
  cases hs : (s.start x y).settled? s.config with
  | some report => exact fun b hb => nomatch hb
  | none =>
    simp only [hs, Option.isSome_none, Bool.false_eq_true, if_false, List.forall_mem_map] at hq ⊢
    exact Traced.path_invariant hstep (hstart hs) hq

end

section

open Binary64

variable {s : Bracketing Float} {b : Bracket Float} {i : Interval Float}

theorem positive_of_check (h : s.config.check = .ok ()) : 0 < s.config.tolerance := by
  simp only [Config.check, Requirement.check_bind_eq_ok] at h
  simpa [Requirement.holds] using h.2.1

structure Bracket.Inside (i : Interval Float) (b : Bracket Float) : Prop where
  isFinite_lower : b.lower.isFinite = true
  isFinite_upper : b.upper.isFinite = true
  ordered : b.lower ≤ b.upper
  ge : i.lower ≤ b.lower
  le : b.upper ≤ i.upper

theorem inside_start {x y : Float} (hx : x.isFinite = true) (hy : y.isFinite = true) :
    (s.start x y).bracket.Inside (ordered x y) := by
  obtain ⟨hl, hu⟩ := contains_ends (α := Float) hx hy
  have hf : (ordered x y).lower.isFinite = true ∧ (ordered x y).upper.isFinite = true := by
    obtain ⟨hl, hu⟩ | ⟨hl, hu⟩ := ordered_cases x y <;> rw [hl, hu]
    · exact ⟨hx, hy⟩
    · exact ⟨hy, hx⟩
  exact ⟨hf.1, hf.2, hl.2, hl.1, hu.2⟩

namespace Bracket.Inside

variable (h : b.Inside i)

include h

theorem contains {x : Float} (hx : b.interval.Contains x) : i.Contains x :=
  ⟨Scalar.Lawful.le_trans h.ge hx.1, Scalar.Lawful.le_trans hx.2 h.le⟩

theorem narrow {x : Float} (hx : b.interval.Contains x) (e : Float) : (b.narrow x e).Inside i := by
  have hf := isFinite_of_between hx.1 hx.2 h.isFinite_lower h.isFinite_upper
  obtain ⟨hge, hle⟩ := h.contains hx
  unfold Bracket.narrow
  split
  · exact ⟨hf, h.isFinite_upper, hx.2, hge, h.le⟩
  · exact ⟨h.isFinite_lower, hf, hx.1, h.ge, hle⟩

theorem middle (hf : (b.lower + b.upper).isFinite = true) :
    b.interval.Contains (b.trial .dichotomy) :=
  midpoint_between h.isFinite_lower h.isFinite_upper h.ordered hf

theorem width_nonneg : 0 ≤ b.upper - b.lower := by
  refine (sub_rounds h.isFinite_upper h.isFinite_lower).ge (by decide) ?_
  have hle := (le_iff_toRat_le h.isFinite_lower h.isFinite_upper).1 h.ordered
  have hzero : toRat 0 = 0 := rfl
  linarith

theorem secant (h0 : 0 ≤ b.part) (hlt : b.part < b.upper - b.lower) :
    b.interval.Contains (b.trial .falsePosition) :=
  sub_between h.isFinite_lower h.isFinite_upper h0 hlt

end Bracket.Inside

theorem Bracket.Apart.beyond (h : b.Apart s) (htol : 0 < s.config.tolerance) :
    ∃ sign, Beyond sign b.upperError.toModel.unpack ∧
      Beyond sign (b.upperError - b.lowerError).toModel.unpack := by
  have hlower := h.isFinite_lowerError
  have hupper := h.isFinite_upperError
  have hsub := sub_rounds hupper hlower
  have hzero : toRat 0 = 0 := rfl
  have h0 : (0 : Float).isFinite = true := by decide
  have hsign := h.sign
  obtain hl | hl := neg_or_pos (isNaN_of_isFinite hlower) htol h.lower <;>
    obtain hu | hu := neg_or_pos (isNaN_of_isFinite hupper) htol h.upper
  · rw [Scalar.sameSign, (neg_iff.1 hl).isNegative, (neg_iff.1 hu).isNegative] at hsign
    cases hsign
  · rw [lt_iff_toRat_lt hlower h0] at hl
    exact ⟨.positive, pos_iff.1 hu,
      pos_iff.1 (Scalar.Lawful.lt_of_lt_of_le hu (hsub.ge hupper (by linarith)))⟩
  · rw [lt_iff_toRat_lt h0 hlower] at hl
    refine ⟨.negative, neg_iff.1 hu, neg_iff.1 ?_⟩
    exact Scalar.Lawful.lt_of_le_of_lt (hsub.le hupper (by linarith)) hu
  · rw [Scalar.sameSign, (pos_iff.1 hl).isNegative, (pos_iff.1 hu).isNegative] at hsign
    cases hsign

theorem Bracket.Apart.part_nonneg (h : b.Apart s) (htol : 0 < s.config.tolerance)
    (hi : b.Inside i) (hn : b.part.isNaN = false) : 0 ≤ b.part := by
  obtain ⟨sign, hu, hd⟩ := h.beyond htol
  exact mul_div_nonneg hu hi.width_nonneg hd hn

theorem le_of_not_narrow {a b tolerance : Float} (ha : a.isFinite = true) (hb : b.isFinite = true)
    (htol : 0 < tolerance) (h : ¬ b - a < tolerance) : a ≤ b := by
  by_contra hab
  rw [le_iff_toRat_le ha hb, not_le] at hab
  have hzero : toRat 0 = 0 := rfl
  have hle : b - a ≤ 0 := (sub_rounds hb ha).le (by decide) (by linarith)
  exact h (Scalar.Lawful.lt_of_le_of_lt hle htol)

theorem Bracket.Apart.secant_le (h : b.Apart s) (htol : 0 < s.config.tolerance) (hi : b.Inside i)
    (hn : (b.trial .falsePosition).isNaN = false) : b.trial .falsePosition ≤ b.upper := by
  change (b.upper - b.part).isNaN = false at hn
  have hpart : b.part.isNaN = false := by
    rw [float_sub_eq] at hn
    rw [← isNaN_neg]
    exact (isNaN_of_add hn).2
  exact sub_le (h.part_nonneg htol hi hpart) hn

section

variable {x y : Float} (hx : x.isFinite = true) (hy : y.isFinite = true) (n : Nat)

include hx hy

theorem dichotomy_inside (hm : s.config.method = .dichotomy)
    (hf : ∀ b ∈ s.brackets n x y, (b.lower + b.upper).isFinite = true) :
    ∀ b ∈ s.brackets n x y, b.Inside (ordered x y) := by
  refine brackets_invariant (fun _ => inside_start hx hy) ?_ hf
  intro t u ht hsum hu
  obtain ⟨-, -, -, rfl⟩ := round_inl hu
  refine ht.narrow ?_ _
  rw [State.trial, hm]
  exact ht.middle hsum

theorem isFinite_sum_of_double (hxx : (x + x).isFinite = true) (hyy : (y + y).isFinite = true)
    (h : b.Inside (ordered x y)) : (b.lower + b.upper).isFinite = true := by
  have hlow := Scalar.Lawful.le_trans h.ge h.ordered
  have hhigh := Scalar.Lawful.le_trans h.ordered h.le
  have hge := h.ge
  have hle := h.le
  obtain ⟨hl, hu⟩ | ⟨hl, hu⟩ := ordered_cases x y <;> rw [hl] at hlow hge <;>
    rw [hu] at hhigh hle
  · exact isFinite_add_of_between h.isFinite_lower h.isFinite_upper hx hy hxx hyy hge hlow hhigh hle
  · exact isFinite_add_of_between h.isFinite_lower h.isFinite_upper hy hx hyy hxx hge hlow hhigh hle

theorem dichotomy_inside_of_double (hm : s.config.method = .dichotomy)
    (hxx : (x + x).isFinite = true) (hyy : (y + y).isFinite = true) :
    ∀ b ∈ s.brackets n x y, b.Inside (ordered x y) := by
  refine brackets_invariant (Q := fun _ => True) (fun _ => inside_start hx hy) ?_
    (fun _ _ => trivial)
  intro t u ht _ hu
  obtain ⟨-, -, -, rfl⟩ := round_inl hu
  refine ht.narrow ?_ _
  rw [State.trial, hm]
  exact ht.middle (isFinite_sum_of_double hx hy hxx hyy ht)

variable (htol : 0 < s.config.tolerance) (hm : s.config.method = .falsePosition)

include htol hm

theorem secant_inside (hlt : ∀ b ∈ s.brackets n x y, b.part < b.upper - b.lower) :
    ∀ b ∈ s.brackets n x y, b.Inside (ordered x y) ∧ b.Apart s := by
  refine brackets_invariant (fun hs => ⟨inside_start hx hy, apart_start hs⟩) ?_ hlt
  rintro t u ⟨hin, hap⟩ hpart hu
  obtain ⟨hf, he, -, rfl⟩ := round_inl hu
  refine ⟨hin.narrow ?_ _, hap.narrow hf he⟩
  have hn := (Scalar.Lawful.isNaN_of_le (Scalar.Lawful.le_of_lt hpart)).1
  rw [State.trial, hm]
  exact hin.secant (hap.part_nonneg htol hin hn) hpart

/-- The root of the secant may fall below its bracket, but as long as it does not fall below the
first one there is no way out. -/
theorem secant_inside_of_ge
    (hge : ∀ b ∈ s.brackets n x y, (ordered x y).lower ≤ b.trial .falsePosition) :
    ∀ b ∈ s.brackets n x y, b.Inside (ordered x y) ∧ b.Apart s := by
  refine brackets_invariant (fun hs => ⟨inside_start hx hy, apart_start hs⟩) ?_ hge
  rintro t u ⟨hin, hap⟩ hlow hu
  obtain ⟨hf, he, hwide, rfl⟩ := round_inl hu
  refine ⟨?_, hap.narrow hf he⟩
  have hle := hap.secant_le htol hin (Scalar.Lawful.isNaN_of_le hlow).2
  have hfin := isFinite_of_between hlow hle (inside_start (s := s) hx hy).isFinite_lower
    hin.isFinite_upper
  have htrial : t.trial s = t.bracket.trial .falsePosition := by rw [State.trial, hm]
  rw [← htrial] at hlow hle hfin
  simp only [State.next, Bracket.narrow] at hwide ⊢
  split at hwide
  · next hsame =>
    rw [if_pos hsame]
    exact ⟨hfin, hin.isFinite_upper, hle, hlow, hin.le⟩
  · next hsame =>
    rw [if_neg hsame]
    exact ⟨hin.isFinite_lower, hfin, le_of_not_narrow hin.isFinite_lower hfin htol hwide, hin.ge,
      Scalar.Lawful.le_trans hle hin.le⟩

end

/-- A run by the middle of the bracket evaluates and reports points between the ends that it is
given exactly as long as no sum of ends overflows, which none does where the ends can be doubled.
A run by the secant can leave them only below; it does not as long as the part of each bracket that
the secant cuts off has not been rounded up to the whole of it. -/
theorem run_stays_iff (s : Bracketing Float) (hc : s.config.check = .ok ()) {x y : Float}
    (hx : x.isFinite = true) (hy : y.isFinite = true) (n : Nat) :
    (s.config.method = .dichotomy →
      (Stays (ordered x y) (s.runWithin n x y) ↔
        ∀ b ∈ s.brackets n x y, (b.lower + b.upper).isFinite = true) ∧
      ((x + x).isFinite = true → (y + y).isFinite = true →
        Stays (ordered x y) (s.runWithin n x y))) ∧
    (s.config.method = .falsePosition →
      (Stays (ordered x y) (s.runWithin n x y) ↔
        ∀ b ∈ s.brackets n x y, (ordered x y).lower ≤ b.trial .falsePosition) ∧
      ((∀ b ∈ s.brackets n x y, b.part < b.upper - b.lower) →
        Stays (ordered x y) (s.runWithin n x y))) := by
  have htol := positive_of_check hc
  have hends := inside_start (s := s) hx hy
  rw [stays_iff hx hy]
  refine ⟨fun hm => ⟨⟨?_, ?_⟩, ?_⟩, fun hm => ⟨⟨?_, ?_⟩, ?_⟩⟩ <;> rw [hm]
  · intro h b hb
    obtain ⟨hl, hu⟩ := h b hb
    exact isFinite_of_half_mul
      (isFinite_of_between hl hu hends.isFinite_lower hends.isFinite_upper)
  · intro hf b hb
    have hin := dichotomy_inside hx hy n hm hf b hb
    exact hin.contains (hin.middle (hf b hb))
  · intro hxx hyy b hb
    have hin := dichotomy_inside_of_double hx hy n hm hxx hyy b hb
    exact hin.contains (hin.middle (isFinite_sum_of_double hx hy hxx hyy hin))
  · intro h b hb
    exact (h b hb).1
  · intro hge b hb
    obtain ⟨hin, hap⟩ := secant_inside_of_ge hx hy n htol hm hge b hb
    have hn := (Scalar.Lawful.isNaN_of_le (hge b hb)).2
    exact ⟨hge b hb, Scalar.Lawful.le_trans (hap.secant_le htol hin hn) hin.le⟩
  · intro hlt b hb
    obtain ⟨hin, hap⟩ := secant_inside hx hy n htol hm hlt b hb
    have hn := (Scalar.Lawful.isNaN_of_le (Scalar.Lawful.le_of_lt (hlt b hb))).1
    exact hin.contains (hin.secant (hap.part_nonneg htol hin hn) (hlt b hb))

def secantOfTwo : Bracketing Float :=
  { rootOfTwo with config := { rootOfTwo.config with method := .falsePosition } }

theorem secantOfTwo_part :
    ∀ b ∈ secantOfTwo.brackets 8 3 0, b.part < b.upper - b.lower := by
  decide +kernel

theorem rootOfTwo_stays : Stays (ordered 3 0) (rootOfTwo.runWithin 8 3 0) ∧
    Stays (ordered 3 0) (secantOfTwo.runWithin 8 3 0) := by
  obtain ⟨hmiddle, -⟩ :=
    run_stays_iff rootOfTwo (by decide +kernel) (x := 3) (y := 0) (by decide) (by decide) 8
  obtain ⟨-, hsecant⟩ :=
    run_stays_iff secantOfTwo (by decide +kernel) (x := 3) (y := 0) (by decide) (by decide) 8
  exact ⟨(hmiddle rfl).2 (by decide) (by decide), (hsecant rfl).2 secantOfTwo_part⟩

def distantRoot : Bracketing Float where
  function x := x - 1.2e308
  config := { Config.standard with stopping := .afterIterations 1 }

theorem distantRoot_calls :
    (distantRoot.run 1e308 1.7e308).calls = [1e308, 1.7e308, Scalar.infinity] := by
  decide +kernel

def highJump : Bracketing Float where
  function x := if x ≤ 2.1 then -1e-5 else 1e15
  config := { Config.standard with method := .falsePosition, stopping := .afterIterations 1 }

theorem highJump_calls :
    (highJump.run 2.1 5.4).calls = [2.1, 5.4, 2.0999999999999996] := by
  decide +kernel

theorem trial_points_escape :
    distantRoot.config.check = .ok () ∧
      ¬ Stays (ordered 1e308 1.7e308) (distantRoot.run 1e308 1.7e308) ∧
    highJump.config.check = .ok () ∧ ¬ Stays (ordered 2.1 5.4) (highJump.run 2.1 5.4) := by
  refine ⟨by decide +kernel, ?_, by decide +kernel, ?_⟩
  · intro h
    have hmem : Scalar.infinity ∈ (distantRoot.run 1e308 1.7e308).calls := by
      simp [distantRoot_calls]
    exact absurd (h.1 _ hmem).2 (by decide +kernel)
  · intro h
    have hmem : 2.0999999999999996 ∈ (highJump.run 2.1 5.4).calls := by simp [highJump_calls]
    exact absurd (h.1 _ hmem).1 (by decide +kernel)

end

end Optima.Bracketing
