import Mathlib.Data.List.Basic
import Optima.Proofs.Ranking
import Optima.Proofs.Scalar.Contracting

namespace Optima.LineSearch

open Scalar (Contracting Lawful Ordered isNaN)

variable {α : Type} [Scalar α]

def grid (factor first : α) (n : Nat) : List α := List.iterate (· * factor) first n

/-- The outcome at a step, without the gradient there. -/
def Outcome.tried (f : LineFunction α) (x d : Vec α) (step : α) : Outcome α :=
  ⟨step, Vec.along x d step, f.value (Vec.along x d step), none⟩

/-- The outcome at the best of the steps that qualify; nothing has changed where none does. -/
inductive Outcome.Selected (f : LineFunction α) (x d : Vec α) (value : α) (steps : List α)
    (qualifies : α → Prop) (better : α → α → Prop) : Outcome α → Prop
  | unchanged : (∀ a ∈ steps, ¬ qualifies a) →
      Selected f x d value steps qualifies better (.unchanged x value)
  | tried {a : α} : a ∈ steps → qualifies a → (∀ b ∈ steps, qualifies b → better a b) →
      Selected f x d value steps qualifies better (.tried f x d a)

variable {f : LineFunction α} {x d : Vec α} {value a first factor : α} {n : Nat} {as : List α}
  {qualifies : α → Prop} {better : α → α → Prop}

theorem Outcome.Selected.cons {o : Outcome α} (ha : ¬ qualifies a)
    (h : o.Selected f x d value as qualifies better) :
    o.Selected f x d value (a :: as) qualifies better := by
  cases h with
  | unchanged hnone => exact .unchanged (List.forall_mem_cons.2 ⟨ha, hnone⟩)
  | tried hmem hq hbest =>
    refine .tried (List.mem_cons_of_mem _ hmem) hq (List.forall_mem_cons.2 ⟨?_, hbest⟩)
    exact fun h => absurd h ha

theorem backtrack_selected [Lawful α] (f : LineFunction α) (x d : Vec α) (value : α)
    (accept : α → α → Bool)
    (hgrid : (grid halving first n).Pairwise fun a b => b ≤ a)
    (hnan : ∀ a ∈ grid halving first n, isNaN a = false) :
    (backtrack f x d value accept n first).value.Selected f x d value (grid halving first n)
      (fun a => accept (f.value (Vec.along x d a)) a = true) fun a b => b ≤ a := by
  induction n generalizing first with
  | zero => exact .unchanged fun a ha => absurd ha List.not_mem_nil
  | succ n ih =>
    obtain ⟨hle, hgrid⟩ := List.pairwise_cons.1 hgrid
    obtain ⟨hfirst, hnan⟩ := List.forall_mem_cons.1 hnan
    simp only [backtrack, Traced.value_bind]
    split
    · next h =>
      refine .tried List.mem_cons_self h (List.forall_mem_cons.2 ⟨?_, ?_⟩)
      · exact fun _ => Lawful.le_refl hfirst
      · exact fun b hb _ => hle b hb
    · next h => exact (ih hgrid hnan).cons h

def Outcome.lower (o p : Outcome α) : Outcome α := if beats p.value o.value then p else o

theorem lowest_eq_foldl [Lawful α] {best : Outcome α} (hb : isNaN best.value = false) :
    (lowest f x d n first best).value =
      ((grid gridFactor first n).map (.tried f x d)).foldl Outcome.lower best := by
  induction n generalizing first best with
  | zero => rfl
  | succ n ih =>
    have hpick : (if f.value (Vec.along x d first) < best.value then .tried f x d first else best) =
        best.lower (.tried f x d first) := by
      simp only [Outcome.lower, beats_iff, hb, Bool.false_eq_true, false_and, or_false]
      rfl
    have hnan : isNaN (best.lower (.tried f x d first)).value = false := by
      rw [← hpick]
      split
      · next h => exact (Lawful.isNaN_of_le (Lawful.le_of_lt h)).1
      · exact hb
    exact (congrArg (fun o => (lowest f x d n (first * gridFactor) o).value) hpick).trans (ih hnan)

theorem lowest_selected [Lawful α] (hv : isNaN value = false)
    (hgrid : (grid gridFactor first n).Pairwise fun a b => b ≤ a)
    (hnan : ∀ a ∈ grid gridFactor first n, isNaN a = false) :
    (lowest f x d n first (.unchanged x value)).value.Selected f x d value
      (grid gridFactor first n) (fun a => f.value (Vec.along x d a) < value)
      fun a b => f.value (Vec.along x d a) ≤ f.value (Vec.along x d b) ∧
        (f.value (Vec.along x d b) ≤ f.value (Vec.along x d a) → b ≤ a) := by
  have hranking := (beats_ranking (α := α)).comap Outcome.value
  obtain ⟨i, hi⟩ := FirstBest.foldl hranking Outcome.lower (fun _ _ h => if_pos h)
    (fun _ _ h => if_neg h) (.singleton hranking (.unchanged x value))
    ((grid gridFactor first n).map (.tried f x d))
  rw [← lowest_eq_foldl hv, List.singleton_append] at hi
  cases i with
  | zero =>
    -- the given value is the best of all
    have ho := hi.get
    rw [List.getElem?_cons_zero, Option.some_inj] at ho
    rw [← ho]
    refine .unchanged fun a ha hlt => ?_
    have hbest := hi.best _ (List.mem_cons_of_mem _ (List.mem_map_of_mem ha))
    rw [← ho] at hbest
    exact hbest (beats_iff.2 (.inl hlt))
  | succ k =>
    have ho := hi.get
    rw [List.getElem?_cons_succ, List.getElem?_map, Option.map_eq_some_iff] at ho
    obtain ⟨a, ha, ho⟩ := ho
    rw [← ho] at hi ⊢
    refine .tried (List.mem_of_getElem? ha) ?_ fun b hb hlt => ⟨?_, fun hle => ?_⟩
    · exact lt_of_beats (hi.before 0 _ (Nat.zero_lt_succ k) List.getElem?_cons_zero) hv
    · have hnb := (Lawful.isNaN_of_le (Lawful.le_of_lt hlt)).1
      exact (le_of_not_beats hnb
        (hi.best _ (List.mem_cons_of_mem _ (List.mem_map_of_mem hb)))).2
    · obtain ⟨j, hj⟩ := List.mem_iff_getElem?.1 hb
      obtain hjk | rfl | hkj := Nat.lt_trichotomy j k
      · -- an earlier step, whose value is not as low
        have hbefore := hi.before (j + 1) (.tried f x d b) (Nat.succ_lt_succ hjk) (by
          rw [List.getElem?_cons_succ, List.getElem?_map, hj, Option.map_some])
        have hlt' := lt_of_beats hbefore (Lawful.isNaN_of_le hle).1
        exact absurd hle (Lawful.lt_iff.1 hlt').2
      · rw [Option.some_inj.1 (hj.symm.trans ha)]
        exact Lawful.le_refl (hnan a (List.mem_of_getElem? ha))
      · obtain ⟨hk, rfl⟩ := List.getElem?_eq_some_iff.1 ha
        obtain ⟨hlen, rfl⟩ := List.getElem?_eq_some_iff.1 hj
        exact List.pairwise_iff_getElem.1 hgrid k j hk hlen hkj

section Steps

variable [Contracting α]

theorem grid_between (h0 : 0 ≤ factor) (h1 : factor ≤ 1) (hfin : Scalar.isFinite first = true)
    (hpos : 0 ≤ first) :
    ∀ a ∈ grid factor first n, Scalar.isFinite a = true ∧ 0 ≤ a ∧ a ≤ first := by
  induction n generalizing first with
  | zero => exact fun a ha => absurd ha List.not_mem_nil
  | succ n ih =>
    obtain ⟨hmul, hle⟩ := Contracting.mul_between hfin hpos h0 h1
    have hfin' := Contracting.isFinite_of_between hmul hle Contracting.isFinite_zero hfin
    refine List.forall_mem_cons.2 ⟨⟨hfin, hpos, ?_⟩, fun a ha => ?_⟩
    · exact Lawful.le_refl (Lawful.isNaN_of_isFinite hfin)
    · obtain ⟨hafin, ha0, ha1⟩ := ih hfin' hmul a ha
      exact ⟨hafin, ha0, Lawful.le_trans ha1 hle⟩

theorem grid_pairwise (h0 : 0 ≤ factor) (h1 : factor ≤ 1) (hfin : Scalar.isFinite first = true)
    (hpos : 0 ≤ first) : (grid factor first n).Pairwise fun a b => b ≤ a := by
  induction n generalizing first with
  | zero => exact .nil
  | succ n ih =>
    obtain ⟨hmul, hle⟩ := Contracting.mul_between hfin hpos h0 h1
    have hfin' := Contracting.isFinite_of_between hmul hle Contracting.isFinite_zero hfin
    refine List.pairwise_cons.2 ⟨fun a ha => ?_, ih hfin' hmul⟩
    exact Lawful.le_trans (grid_between h0 h1 hfin' hmul a ha).2.2 hle

def steps (c : LineSearch α) (factor : α) : List α :=
  grid factor (c.limit c.initialStep) c.maxIterations

theorem first_of_check {c : LineSearch α} (h : c.check = .ok ()) :
    Scalar.isFinite (c.limit c.initialStep) = true ∧ 0 < c.limit c.initialStep ∧
      ∀ m ∈ c.maxStep, c.limit c.initialStep ≤ m := by
  cases hm : c.maxStep with
  | none =>
    simp only [check, hm, Requirement.check_bind_eq_ok, Requirement.holds, Bool.and_eq_true,
      decide_eq_true_eq] at h
    obtain ⟨⟨hpos, hfin⟩, -⟩ := h
    have hlimit : c.limit c.initialStep = c.initialStep := by
      simp [limit, hm, Scalar.ranked, Lawful.isNaN_of_isFinite hfin]
    rw [hlimit]
    exact ⟨hfin, hpos, fun m hm => absurd hm (Option.not_mem_none m)⟩
  | some m =>
    simp only [check, hm, Requirement.check_bind_eq_ok, Requirement.holds, Bool.and_eq_true,
      decide_eq_true_eq] at h
    obtain ⟨⟨hpos, hfin⟩, hmpos, -⟩ := h
    have hmnan := (Lawful.isNaN_of_le (Lawful.le_of_lt hmpos)).2
    obtain ⟨hle, hlem, heq⟩ := Scalar.lesser_le (Lawful.isNaN_of_isFinite hfin) hmnan
    have hlimit : c.limit c.initialStep = Scalar.lesser c.initialStep m := by simp [limit, hm]
    have hlt : 0 < Scalar.lesser c.initialStep m := by
      obtain heq | heq := heq
      · rwa [heq]
      · rwa [heq]
    rw [hlimit]
    refine ⟨?_, hlt, fun k hk => ?_⟩
    · exact Contracting.isFinite_of_between (Lawful.le_of_lt hlt) hle Contracting.isFinite_zero hfin
    · rwa [← Option.some_inj.1 hk]

theorem steps_pairwise {c : LineSearch α} (hc : c.check = .ok ()) (h0 : 0 ≤ factor)
    (h1 : factor ≤ 1) : (c.steps factor).Pairwise fun a b => b ≤ a := by
  obtain ⟨hfin, hpos, -⟩ := first_of_check hc
  exact grid_pairwise h0 h1 hfin (Lawful.le_of_lt hpos)

theorem steps_between {c : LineSearch α} (hc : c.check = .ok ()) (h0 : 0 ≤ factor)
    (h1 : factor ≤ 1) :
    ∀ a ∈ c.steps factor, isNaN a = false ∧ 0 ≤ a ∧ ∀ m ∈ c.maxStep, a ≤ m := by
  obtain ⟨hfin, hpos, hmax⟩ := first_of_check hc
  intro a ha
  obtain ⟨hafin, hnonneg, hle⟩ := grid_between h0 h1 hfin (Lawful.le_of_lt hpos) a ha
  exact ⟨Lawful.isNaN_of_isFinite hafin, hnonneg, fun m hm => Lawful.le_trans hle (hmax m hm)⟩

theorem Outcome.Selected.taken {c : LineSearch α} (hc : c.check = .ok ()) (h0 : 0 ≤ factor)
    (h1 : factor ≤ 1) {o : Outcome α}
    (h : o.Selected f x d value (c.steps factor) qualifies better) (ho : ¬ o.isZero = true) :
    o.point = Vec.along x d o.step ∧ o.value = f.value o.point ∧ 0 < o.step ∧
      ∀ m ∈ c.maxStep, o.step ≤ m := by
  cases h with
  | unchanged => exact absurd Lawful.zero_beq_zero ho
  | tried ha =>
    obtain ⟨-, hnonneg, hmax⟩ := steps_between hc h0 h1 _ ha
    exact ⟨rfl, rfl, Contracting.pos_of_ne_zero hnonneg ho, hmax⟩

variable {c : LineSearch α} {g : Vec α}

theorem zero_le_halving : (0 : α) ≤ halving := Ordered.zero_le_half

theorem halving_le_one : (halving : α) ≤ 1 := Contracting.half_le_one

theorem zero_le_gridFactor : (0 : α) ≤ gridFactor := Contracting.zero_le_fourFifths

theorem gridFactor_le_one : (gridFactor : α) ≤ 1 := Contracting.fourFifths_le_one

theorem search_naive (hc : c.check = .ok ()) (hm : c.method = .naive) (hd : Vec.isZero d = false) :
    (c.search f x d value g).value.Selected f x d value (c.steps halving)
      (fun a => f.value (Vec.along x d a) < value) fun a b => b ≤ a := by
  have h := backtrack_selected f x d value (fun trial _ => trial < value)
    (steps_pairwise hc zero_le_halving halving_le_one)
    fun a ha => (steps_between hc zero_le_halving halving_le_one a ha).1
  simp only [decide_eq_true_eq] at h
  simp only [search, hd, hm, Bool.false_eq_true, if_false]
  exact h

theorem search_armijo (hc : c.check = .ok ()) (hm : c.method = .armijo)
    (hd : Vec.isZero d = false) (hs : Vec.dot g d < 0) :
    (c.search f x d value g).value.Selected f x d value (c.steps halving)
      (fun a => f.value (Vec.along x d a) ≤ value + c.c1 * a * Vec.dot g d) fun a b => b ≤ a := by
  have h := backtrack_selected f x d value (c.sufficient value (Vec.dot g d))
    (steps_pairwise hc zero_le_halving halving_le_one)
    fun a ha => (steps_between hc zero_le_halving halving_le_one a ha).1
  simp only [sufficient, decide_eq_true_eq] at h
  simp only [search, hd, hm, hs, Bool.false_eq_true, if_false, if_true]
  exact h

theorem search_lowest (hc : c.check = .ok ()) (hm : c.method = .lowest)
    (hd : Vec.isZero d = false) (hv : isNaN value = false) :
    (c.search f x d value g).value.Selected f x d value (c.steps gridFactor)
      (fun a => f.value (Vec.along x d a) < value)
      fun a b => f.value (Vec.along x d a) ≤ f.value (Vec.along x d b) ∧
        (f.value (Vec.along x d b) ≤ f.value (Vec.along x d a) → b ≤ a) := by
  simp only [search, hd, hm, Bool.false_eq_true, if_false]
  exact lowest_selected hv (steps_pairwise hc zero_le_gridFactor gridFactor_le_one)
    fun a ha => (steps_between hc zero_le_gridFactor gridFactor_le_one a ha).1

/-- What a search over a grid of steps chooses: the longest step that is accepted, or, for the
search for the lowest value, the one with the least value below the given value. -/
theorem search_selected (hc : c.check = .ok ()) (hv : Scalar.isFinite value = true) :
    (Vec.isZero d = true → (c.search f x d value g).value = .unchanged x value) ∧
    (Vec.isZero d = false → c.method = .naive →
      (c.search f x d value g).value.Selected f x d value (c.steps halving)
        (fun a => f.value (Vec.along x d a) < value) fun a b => b ≤ a) ∧
    (Vec.isZero d = false → c.method = .armijo →
      (¬ Vec.dot g d < 0 → (c.search f x d value g).value = .unchanged x value) ∧
      (Vec.dot g d < 0 → (c.search f x d value g).value.Selected f x d value (c.steps halving)
        (fun a => f.value (Vec.along x d a) ≤ value + c.c1 * a * Vec.dot g d)
        fun a b => b ≤ a)) ∧
    (Vec.isZero d = false → c.method = .lowest →
      (c.search f x d value g).value.Selected f x d value (c.steps gridFactor)
        (fun a => f.value (Vec.along x d a) < value)
        fun a b => f.value (Vec.along x d a) ≤ f.value (Vec.along x d b) ∧
          (f.value (Vec.along x d b) ≤ f.value (Vec.along x d a) → b ≤ a)) ∧
    (c.method = .naive ∨ c.method = .armijo ∨ c.method = .lowest →
      ¬ (c.search f x d value g).value.isZero = true →
      (c.search f x d value g).value.point =
          Vec.along x d (c.search f x d value g).value.step ∧
        (c.search f x d value g).value.value = f.value (c.search f x d value g).value.point ∧
        0 < (c.search f x d value g).value.step ∧
        ∀ m ∈ c.maxStep, (c.search f x d value g).value.step ≤ m) := by
  have hnan := Lawful.isNaN_of_isFinite hv
  have hzero (hd : Vec.isZero d = true) :
      (c.search f x d value g).value = .unchanged x value := by
    simp [search, hd]
  have huphill (hm : c.method = .armijo) (hs : ¬ Vec.dot g d < 0) :
      (c.search f x d value g).value = .unchanged x value := by
    simp [search, hm, hs]
  have hstay : (c.search f x d value g).value = .unchanged x value →
      (c.search f x d value g).value.isZero = true := by
    intro h
    rw [h]
    exact Lawful.zero_beq_zero
  refine ⟨hzero, fun hd hm => search_naive hc hm hd,
    fun hd hm => ⟨huphill hm, search_armijo hc hm hd⟩, fun hd hm => search_lowest hc hm hd hnan,
    fun hm ho => ?_⟩
  have hd : Vec.isZero d = false := eq_false_of_ne_true fun hd => ho (hstay (hzero hd))
  obtain hm | hm | hm := hm
  · exact (search_naive hc hm hd).taken hc zero_le_halving halving_le_one ho
  · have hs : Vec.dot g d < 0 := by
      by_contra hs
      exact ho (hstay (huphill hm hs))
    exact (search_armijo hc hm hd hs).taken hc zero_le_halving halving_le_one ho
  · exact (search_lowest hc hm hd hnan).taken hc zero_le_gridFactor gridFactor_le_one ho

end Steps

def halfParabola : LineFunction Float where
  value x := if x.getD 0 0 < 0 then Scalar.nan else x.getD 0 0 * x.getD 0 0
  gradient x _ := pure (x.map (2 * ·))

theorem halfParabola_lowest : (ofMethod .lowest : LineSearch Float).check = .ok () ∧
    Scalar.isFinite (1 : Float) = true ∧
    ((ofMethod .lowest).search halfParabola [1] [-2] 1 [2]).value.Selected halfParabola [1] [-2] 1
      ((ofMethod .lowest).steps gridFactor)
      (fun a => halfParabola.value (Vec.along [1] [-2] a) < 1)
      (fun a b => halfParabola.value (Vec.along [1] [-2] a) ≤
          halfParabola.value (Vec.along [1] [-2] b) ∧
        (halfParabola.value (Vec.along [1] [-2] b) ≤ halfParabola.value (Vec.along [1] [-2] a) →
          b ≤ a)) ∧
    ((ofMethod .lowest).search halfParabola [1] [-2] 1 [2]).value.step = 0.8 * 0.8 * 0.8 * 0.8 ∧
    0 < ((ofMethod .lowest).search halfParabola [1] [-2] 1 [2]).value.step := by
  have hc : (ofMethod .lowest : LineSearch Float).check = .ok () := by decide +kernel
  have hv : Scalar.isFinite (1 : Float) = true := by decide
  obtain ⟨-, -, -, hlowest, htaken⟩ :=
    search_selected (f := halfParabola) (x := [1]) (d := [-2]) (g := [2]) hc hv
  refine ⟨hc, hv, hlowest (by decide +kernel) rfl, by decide +kernel, ?_⟩
  exact (htaken (.inr (.inr rfl)) (by decide +kernel)).2.2.1

end Optima.LineSearch
