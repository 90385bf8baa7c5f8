import Mathlib.Data.List.GetD
import Mathlib.Data.List.ReduceOption
import Optima.Evolution.Trial
import Optima.Proofs.Random.Draws
import Optima.Proofs.Ranking

namespace Optima.Evolution

open Scalar (Lawful isNaN)

variable {α γ : Type} [Scalar α]

structure Member.Sound (feasible : Vec α → Bool) (f : Vec α → α) (n : Nat) (m : Member α) :
    Prop where
  feasible : feasible m.point = true
  length : m.point.length = n
  value : m.value = f m.point

def Member.challenged (p : Member α) : Option (Member α) → Member α
  | none => p
  | some m => if beats m.value p.value then m else p

/-- A generation in which the slots of `ps` are challenged by `trials`. -/
structure Bred (feasible : Vec α → Bool) (f : Vec α → α) (n : Nat) (ps : List (Member α))
    (trials : List (Option (Member α)))
    (t : Traced (Vec α) ((List (Member α) × Nat) × γ)) : Prop where
  length : trials.length = ps.length
  sound : ∀ m, some m ∈ trials → m.Sound feasible f n
  population : t.value.1.1 = List.zipWith Member.challenged ps trials
  count : t.value.1.2 = trials.reduceOption.length
  calls : t.calls = trials.reduceOption.map (·.point)

/-- A slot before and after it was challenged by a trial, or by none. -/
structure Slot (p : Member α) (trial : Option (Member α)) (q : Member α) : Prop where
  holder : q = p ∨ trial = some q
  noWorse : isNaN p.value = false → isNaN q.value = false ∧ q.value ≤ p.value
  revived : isNaN p.value = true → ∀ m, trial = some m → isNaN m.value = false → q = m
  unbeaten : ∀ m, trial = some m → ¬ beats m.value q.value = true

/-- A population before and after a generation in which its slots were challenged by `trials`,
made at the points `xs` in this order. -/
structure Succeeds (ps : List (Member α)) (trials : List (Option (Member α))) (xs : List (Vec α))
    (qs : List (Member α)) : Prop where
  length : trials.length = ps.length
  calls : xs = trials.reduceOption.map (·.point)
  slot : ∀ (k : Nat) (p q : Member α) (o : Option (Member α)), ps[k]? = some p →
    trials[k]? = some o → qs[k]? = some q → Slot p o q

theorem Member.challenged_of_beats {p m : Member α} (h : beats m.value p.value = true) :
    p.challenged (some m) = m := if_pos h

theorem Member.challenged_of_not {p m : Member α} (h : ¬ beats m.value p.value = true) :
    p.challenged (some m) = p := if_neg h

section

variable [Lawful α]

theorem Member.not_beats_challenged (p : Member α) (o : Option (Member α)) :
    ¬ beats p.value (p.challenged o).value = true ∧
      ∀ m, o = some m → ¬ beats m.value (p.challenged o).value = true := by
  have hr := beats_ranking (α := α)
  cases o with
  | none => exact ⟨hr.irrefl _, by simp⟩
  | some m =>
    by_cases h : beats m.value p.value = true
    · rw [challenged_of_beats h]
      refine ⟨hr.asymm h, ?_⟩
      rintro _ ⟨⟩
      exact hr.irrefl _
    · rw [challenged_of_not h]
      refine ⟨hr.irrefl _, ?_⟩
      rintro _ ⟨⟩
      exact h

theorem Member.challenged_slot (p : Member α) (o : Option (Member α)) :
    Slot p o (p.challenged o) := by
  obtain ⟨hp, hm⟩ := p.not_beats_challenged o
  have holder : p.challenged o = p ∨ o = some (p.challenged o) := by
    cases o with
    | none => exact .inl rfl
    | some m =>
      by_cases h : beats m.value p.value = true
      · exact .inr (by rw [challenged_of_beats h])
      · exact .inl (challenged_of_not h)
  refine ⟨holder, fun h => le_of_not_beats h hp, ?_, hm⟩
  rintro hnan m rfl hm'
  obtain h | h := holder
  · have := (le_of_not_beats hm' (hm m rfl)).1
    rw [h, hnan] at this
    cases this
  · exact (Option.some.inj h).symm

end

section

variable {feasible : Vec α → Bool} {f : Vec α → α} {n : Nat} {ps : List (Member α)}
  {trials : List (Option (Member α))} {t : Traced (Vec α) ((List (Member α) × Nat) × γ)}

theorem Bred.getElem? (h : Bred feasible f n ps trials t) (k : Nat) :
    t.value.1.1[k]? = (ps[k]?).bind fun p => (trials[k]?).map p.challenged := by
  rw [h.population, List.getElem?_zipWith]
  cases ps[k]? <;> cases trials[k]? <;> rfl

theorem Bred.mem (h : Bred feasible f n ps trials t) {q : Member α} (hq : q ∈ t.value.1.1) :
    q ∈ ps ∨ some q ∈ trials := by
  obtain ⟨k, hk⟩ := List.mem_iff_getElem?.1 hq
  rw [h.getElem?, Option.bind_eq_some_iff] at hk
  obtain ⟨p, hp, hk⟩ := hk
  obtain ⟨o, ho, rfl⟩ := Option.map_eq_some_iff.1 hk
  have hpm := List.mem_of_getElem? hp
  have hom := List.mem_of_getElem? ho
  cases o with
  | none => exact .inl hpm
  | some m =>
    by_cases hb : beats m.value p.value = true
    · rw [Member.challenged_of_beats hb]
      exact .inr hom
    · rw [Member.challenged_of_not hb]
      exact .inl hpm

theorem Bred.challenged_mem (h : Bred feasible f n ps trials t) {k : Nat} {p : Member α}
    {o : Option (Member α)} (hp : ps[k]? = some p) (ho : trials[k]? = some o) :
    p.challenged o ∈ t.value.1.1 := by
  apply List.mem_of_getElem? (i := k)
  rw [h.getElem?, hp, ho]
  rfl

theorem Bred.size (h : Bred feasible f n ps trials t) : t.value.1.1.length = ps.length := by
  rw [h.population, List.length_zipWith, h.length, Nat.min_self]

theorem Bred.members (h : Bred feasible f n ps trials t) (hps : ∀ p ∈ ps, p.Sound feasible f n) :
    ∀ q ∈ t.value.1.1, q.Sound feasible f n := by
  intro q hq
  obtain hq | hq := h.mem hq
  · exact hps q hq
  · exact h.sound q hq

theorem Bred.mem_calls (h : Bred feasible f n ps trials t) {x : Vec α} :
    x ∈ t.calls ↔ ∃ m, some m ∈ trials ∧ m.point = x := by
  rw [h.calls, List.mem_map]
  simp only [List.reduceOption_mem_iff]

theorem Bred.evaluated (h : Bred feasible f n ps trials t) :
    ∀ x ∈ t.calls, feasible x = true ∧ x.length = n := by
  intro x hx
  obtain ⟨m, hm, rfl⟩ := h.mem_calls.1 hx
  exact ⟨(h.sound m hm).feasible, (h.sound m hm).length⟩

theorem Bred.settles_iff (h : Bred feasible f n ps trials t) (c : Config α) :
    c.settles ps.length t.value.1.2 = true ↔ (c.maxResamples = none → none ∉ trials) := by
  have hcount : t.value.1.2 = ps.length ↔ none ∉ trials := by
    rw [h.count, ← h.length, List.reduceOption_length_eq_iff]
    exact ⟨fun hall hn => Bool.noConfusion (hall none hn),
      fun hn o ho => Option.isSome_iff_ne_none.2 fun he => hn (he ▸ ho)⟩
  rw [Config.settles, Bool.or_eq_true, beq_iff_eq, hcount, Config.givesUp]
  cases c.maxResamples <;> simp

section

variable [Lawful α]

theorem Bred.kept (h : Bred feasible f n ps trials t) {p : Member α} (hp : p ∈ ps) :
    ∃ q ∈ t.value.1.1, ¬ beats p.value q.value = true := by
  obtain ⟨k, hk⟩ := List.mem_iff_getElem?.1 hp
  have hlt : k < trials.length := by
    rw [h.length]
    exact (List.getElem?_eq_some_iff.1 hk).1
  exact ⟨_, h.challenged_mem hk (List.getElem?_eq_getElem hlt), (p.not_beats_challenged _).1⟩

theorem Bred.found (h : Bred feasible f n ps trials t) {x : Vec α} (hx : x ∈ t.calls) :
    ∃ q ∈ t.value.1.1, ¬ beats (f x) q.value = true := by
  obtain ⟨m, hm, rfl⟩ := h.mem_calls.1 hx
  rw [← (h.sound m hm).value]
  obtain ⟨k, hk⟩ := List.mem_iff_getElem?.1 hm
  have hlt : k < ps.length := by
    rw [← h.length]
    exact (List.getElem?_eq_some_iff.1 hk).1
  exact ⟨_, h.challenged_mem (List.getElem?_eq_getElem hlt) hk,
    (Member.not_beats_challenged _ _).2 m rfl⟩

theorem Bred.succeeds (h : Bred feasible f n ps trials t) :
    Succeeds ps trials t.calls t.value.1.1 := by
  refine ⟨h.length, h.calls, ?_⟩
  intro k p q o hp ho hq
  rw [h.getElem?, hp, ho] at hq
  obtain rfl : p.challenged o = q := Option.some.inj hq
  exact p.challenged_slot o

end

end

theorem contest_append (ps : List (Member α)) (p m : Member α) (qs : List (Member α)) :
    contest (ps ++ p :: qs) ps.length m = ps ++ p.challenged (some m) :: qs := by
  induction ps with
  | nil => rfl
  | cons q ps ih => exact congrArg (q :: ·) ih

theorem contest_length (ps : List (Member α)) (k : Nat) (m : Member α) :
    (contest ps k m).length = ps.length := List.length_modify _ _ _

theorem mem_contest {ps : List (Member α)} {k : Nat} {m q : Member α} (h : q ∈ contest ps k m) :
    q ∈ ps ∨ q = m := by
  obtain ⟨i, hi⟩ := List.mem_iff_getElem?.1 h
  rw [contest, List.getElem?_modify, Option.map_eq_map, Option.map_eq_some_iff] at hi
  obtain ⟨p, hp, rfl⟩ := hi
  have hmem := List.mem_of_getElem? hp
  split
  · split
    · exact .inr rfl
    · exact .inl hmem
  · exact .inl hmem

theorem settle_foldl (done : List (Member α)) {ps : List (Member α)}
    {ts : List (Nat × Option (Member α))}
    (h : ts.map Prod.fst = List.range' done.length ps.length) (calls : Nat) :
    ts.foldl settle (done ++ ps, calls) =
      (done ++ List.zipWith Member.challenged ps (ts.map Prod.snd),
        calls + (ts.map Prod.snd).reduceOption.length) := by
  induction ps generalizing done ts calls with
  | nil =>
    obtain rfl : ts = [] := List.map_eq_nil_iff.1 h
    rfl
  | cons p ps ih =>
    rw [List.length_cons, List.range'_succ] at h
    obtain ⟨⟨k, o⟩, ts, rfl, rfl, h⟩ := List.map_eq_cons_iff.1 h
    have hsettle : settle (done ++ p :: ps, calls) (done.length, o) =
        (done ++ [p.challenged o] ++ ps, calls + [o].reduceOption.length) := by
      cases o with
      | none => rw [List.append_assoc]; rfl
      | some m => rw [List.append_assoc]; exact congrArg (·, _) (contest_append done p m ps)
    have hrest := ih (done ++ [p.challenged o]) (by
      rwa [List.length_append, List.length_singleton]) (calls + [o].reduceOption.length)
    rw [List.foldl_cons, hsettle, hrest, List.append_assoc, Nat.add_assoc, ← List.length_append,
      ← List.reduceOption_append]
    rfl

theorem exists_unchallenged (ks : List Nat) (s : List (Member α) × Nat) :
    ∃ ts : List (Nat × Option (Member α)), ts.map Prod.fst = ks ∧
      (∀ m, some m ∉ ts.map Prod.snd) ∧ ts.foldl settle s = s ∧
      (ts.map Prod.snd).reduceOption = [] := by
  induction ks with
  | nil => exact ⟨[], rfl, by simp, rfl, rfl⟩
  | cons k ks ih =>
    obtain ⟨ts, hts, hnone, hfold, hreduce⟩ := ih
    exact ⟨(k, none) :: ts, congrArg (k :: ·) hts, by simpa using hnone, hfold, hreduce⟩

theorem Bred.of_settle {feasible : Vec α → Bool} {f : Vec α → α} {n : Nat} {ps : List (Member α)}
    {ts : List (Nat × Option (Member α))} {t : Traced (Vec α) ((List (Member α) × Nat) × γ)}
    (hts : ts.map Prod.fst = List.range ps.length)
    (hsound : ∀ m, some m ∈ ts.map Prod.snd → m.Sound feasible f n)
    (hvalue : t.value.1 = ts.foldl settle (ps, 0))
    (hcalls : t.calls = (ts.map Prod.snd).reduceOption.map (·.point)) :
    Bred feasible f n ps (ts.map Prod.snd) t := by
  rw [List.range_eq_range'] at hts
  have hfold : ts.foldl settle (ps, 0) = _ := settle_foldl [] hts 0
  rw [hfold] at hvalue
  refine ⟨?_, hsound, ?_, ?_, hcalls⟩
  · simpa using congrArg List.length hts
  · rw [hvalue, List.nil_append]
  · rw [hvalue, Nat.zero_add]

variable {c : Config α} {feasible : Vec α → Bool} {f : Vec α → α} {n : Nat}
  [WordSource γ]

theorem crossover_length {target x y z : Vec α} (ht : target.length = n) (hx : x.length = n)
    (hy : y.length = n) (hz : z.length = n) (g : γ) :
    ((crossover c target x y z).run g).1.length = n := by
  induction n generalizing target x y z g with
  | zero =>
    rw [List.length_eq_zero_iff.1 ht]
    rfl
  | succ n ih =>
    obtain ⟨own, target, rfl⟩ := List.exists_cons_of_length_eq_add_one ht
    obtain ⟨a, x, rfl⟩ := List.exists_cons_of_length_eq_add_one hx
    obtain ⟨b, y, rfl⟩ := List.exists_cons_of_length_eq_add_one hy
    obtain ⟨d, z, rfl⟩ := List.exists_cons_of_length_eq_add_one hz
    exact congrArg Nat.succ
      (ih (Nat.succ.inj ht) (Nat.succ.inj hx) (Nat.succ.inj hy) (Nat.succ.inj hz) _)

theorem skip_lt {k i length : Nat} (hk : k < length) (hi : i < length - 1) :
    skip k i < length := by
  unfold skip
  split <;> omega

theorem candidate_length {points : List (Vec α)} (hpoints : ∀ x ∈ points, x.length = n)
    (hsize : 4 ≤ points.length) {k : Nat} (hk : k < points.length) (g : γ) :
    ((candidate c points k).run g).1.length = n := by
  have hget : ∀ i, i < points.length → (points.getD i []).length = n := by
    intro i hi
    rw [List.getD_eq_getElem _ _ hi]
    exact hpoints _ (List.getElem_mem hi)
  rw [candidate, Draw.run_bind]
  obtain ⟨hlength, hmem⟩ := Draw.sample_spec (show 3 ≤ points.length - 1 by omega) g
  generalize ((Draw.sample (points.length - 1) 3).run g).1 = picks at hlength hmem
  -- the default of `getD` is in range as well, as there are other members
  have hpick : ∀ i, (points.getD (skip k (picks.getD i 0)) []).length = n := by
    intro i
    apply hget
    apply skip_lt hk
    by_cases hi : i < picks.length
    · rw [List.getD_eq_getElem _ _ hi]
      exact hmem _ (List.getElem_mem hi)
    · rw [List.getD_eq_default _ _ (Nat.le_of_not_lt hi)]
      omega
  exact crossover_length (hget k hk) (hpick 0) (hpick 1) (hpick 2) _

theorem trial_spec {points : List (Vec α)} (hpoints : ∀ x ∈ points, x.length = n)
    (hsize : 4 ≤ points.length) {k attempts : Nat} (hk : k < points.length) {g : γ} {x : Vec α}
    (h : ((trial c feasible points k attempts).run g).1 = some x) :
    feasible x = true ∧ x.length = n := by
  induction attempts generalizing g with
  | zero => cases h
  | succ attempts ih =>
    rw [trial, Draw.run_bind] at h
    split at h
    · next hf =>
      cases h
      exact ⟨hf, candidate_length hpoints hsize hk g⟩
    · exact ih h

theorem inPlaceGeneration_none {k : Nat} {ks : List Nat} {ps : List (Member α)} {calls : Nat}
    {g g' : γ} (h : (trial c feasible (ps.map (·.point)) k c.attempts).run g = (none, g')) :
    (inPlaceGeneration c feasible f (k :: ks) ps calls).run g =
      if c.givesUp then (inPlaceGeneration c feasible f ks ps calls).run g'
      else pure ((ps, calls), g') := by
  simp only [inPlaceGeneration, StateT.run_bind, Sampled.run_draw, h]
  cases c.givesUp <;> rfl

theorem inPlaceGeneration_some {k : Nat} {ks : List Nat} {ps : List (Member α)} {calls : Nat}
    {g g' : γ} {x : Vec α}
    (h : (trial c feasible (ps.map (·.point)) k c.attempts).run g = (some x, g')) :
    (inPlaceGeneration c feasible f (k :: ks) ps calls).run g =
      let t := (inPlaceGeneration c feasible f ks (contest ps k ⟨x, f x⟩) (calls + 1)).run g'
      ⟨t.value, x :: t.calls⟩ := by
  simp only [inPlaceGeneration, StateT.run_bind, Sampled.run_draw, h]
  rfl

theorem inPlaceGeneration_settle (c : Config α) (feasible : Vec α → Bool) (f : Vec α → α)
    {ks : List Nat} {ps : List (Member α)} (hlength : ∀ m ∈ ps, m.point.length = n)
    (hsize : 4 ≤ ps.length) (hks : ∀ k ∈ ks, k < ps.length)
    (calls : Nat) (g : γ) :
    let t := (inPlaceGeneration c feasible f ks ps calls).run g
    ∃ ts : List (Nat × Option (Member α)), ts.map Prod.fst = ks ∧
      (∀ m, some m ∈ ts.map Prod.snd → m.Sound feasible f n) ∧
      t.value.1 = ts.foldl settle (ps, calls) ∧
      t.calls = (ts.map Prod.snd).reduceOption.map (·.point) := by
  induction ks generalizing ps calls g with
  | nil => exact ⟨[], rfl, by simp, rfl, rfl⟩
  | cons k ks ih =>
    have hk : k < ps.length := hks k List.mem_cons_self
    have hrest : ∀ k ∈ ks, k < ps.length := fun k hk => hks k (List.mem_cons_of_mem _ hk)
    rcases htrial : (trial c feasible (ps.map (·.point)) k c.attempts).run g with ⟨_ | x, g'⟩
    · rw [inPlaceGeneration_none htrial]
      split
      · obtain ⟨ts, hts, hsound, hvalue, hcalls⟩ := ih hlength hsize hrest calls g'
        refine ⟨(k, none) :: ts, congrArg (k :: ·) hts, ?_, hvalue, hcalls⟩
        simpa using hsound
      · -- none of the slots that are left is challenged
        obtain ⟨ts, hts, hnone, hfold, hreduce⟩ := exists_unchallenged (k :: ks) (ps, calls)
        refine ⟨ts, hts, fun m hm => absurd hm (hnone m), hfold.symm, ?_⟩
        rw [hreduce]
        rfl
    · have hx : feasible x = true ∧ x.length = n :=
        trial_spec (List.forall_mem_map.2 hlength) (by rwa [List.length_map])
          (by rwa [List.length_map]) (congrArg Prod.fst htrial)
      have hlength' : ∀ m ∈ contest ps k ⟨x, f x⟩, m.point.length = n := by
        intro m hm
        obtain hm | rfl := mem_contest hm
        · exact hlength m hm
        · exact hx.2
      obtain ⟨ts, hts, hsound, hvalue, hcalls⟩ := ih hlength' (by rwa [contest_length])
        (by rwa [contest_length]) (calls + 1) g'
      rw [inPlaceGeneration_some htrial]
      refine ⟨(k, some ⟨x, f x⟩) :: ts, congrArg (k :: ·) hts, ?_, hvalue, ?_⟩
      · intro m hm
        obtain hm | hm := List.mem_cons.1 hm
        · cases hm
          exact ⟨hx.1, hx.2, rfl⟩
        · exact hsound m hm
      · exact congrArg (x :: ·) hcalls

omit [WordSource γ] in
theorem seededTrial_spec (c : Config α) (feasible : Vec α → Bool) (f : Vec α → α)
    {points : List (Vec α)} (hpoints : ∀ x ∈ points, x.length = n) (hsize : 4 ≤ points.length)
    {p : Nat × UInt64} (hk : p.1 < points.length) :
    let t := seededTrial c feasible f points p
    t.value.1 = p.1 ∧ (∀ m, t.value.2 = some m → m.Sound feasible f n) ∧
      t.calls = [t.value.2].reduceOption.map (·.point) := by
  unfold seededTrial
  split
  · exact ⟨rfl, by simp, rfl⟩
  · next x hx =>
    obtain ⟨hfeasible, hlength⟩ := trial_spec hpoints hsize hk hx
    refine ⟨rfl, ?_, rfl⟩
    intro m hm
    cases hm
    exact ⟨hfeasible, hlength, rfl⟩

omit [WordSource γ] in
theorem forEach_seededTrial (c : Config α) (feasible : Vec α → Bool) (f : Vec α → α)
    {points : List (Vec α)} (hpoints : ∀ x ∈ points, x.length = n) (hsize : 4 ≤ points.length)
    {ps : List (Nat × UInt64)} (hks : ∀ p ∈ ps, p.1 < points.length) :
    let t := Traced.forEach (seededTrial c feasible f points) ps
    t.value.map Prod.fst = ps.map Prod.fst ∧
      (∀ m, some m ∈ t.value.map Prod.snd → m.Sound feasible f n) ∧
      t.calls = (t.value.map Prod.snd).reduceOption.map (·.point) := by
  induction ps with
  | nil => exact ⟨rfl, by simp, rfl⟩
  | cons p ps ih =>
    obtain ⟨hfst, hsound, hcalls⟩ :=
      seededTrial_spec c feasible f hpoints hsize (hks p List.mem_cons_self)
    obtain ⟨hfsts, hsounds, hcallss⟩ := ih fun p hp => hks p (List.mem_cons_of_mem _ hp)
    simp only [Traced.forEach, Traced.value_bind, Traced.calls_bind, Traced.value_pure,
      Traced.calls_pure, List.append_nil, List.map_cons, hfst, hfsts, hcalls, hcallss, true_and]
    refine ⟨?_, ?_⟩
    · intro m hm
      obtain hm | hm := List.mem_cons.1 hm
      · exact hsound m hm.symm
      · exact hsounds m hm
    · rw [← List.map_append, ← List.reduceOption_append]
      rfl

theorem generation_bred (c : Config α) (feasible : Vec α → Bool) (f : Vec α → α)
    {ps : List (Member α)} (hlength : ∀ m ∈ ps, m.point.length = n) (hsize : 4 ≤ ps.length)
    (g : γ) :
    ∃ trials, Bred feasible f n ps trials ((generation c feasible f ps).run g) := by
  unfold generation
  split
  · obtain ⟨ts, hts, hsound, hvalue, hcalls⟩ := inPlaceGeneration_settle c feasible f hlength
      hsize (fun k hk => List.mem_range.1 hk) 0 g
    exact ⟨_, .of_settle hts hsound hvalue hcalls⟩
  · have hseeds := Draw.replicate_length Draw.word64 ps.length g
    have hks : ∀ p ∈ (List.range ps.length).zip ((Draw.seeds ps.length).run g).1,
        p.1 < (ps.map (·.point)).length := by
      intro p hp
      rw [List.length_map]
      exact List.mem_range.1 (List.of_mem_zip hp).1
    obtain ⟨hfst, hsound, hcalls⟩ := forEach_seededTrial c feasible f
      (List.forall_mem_map.2 hlength) (by rwa [List.length_map]) hks
    rw [List.map_fst_zip (by rw [List.length_range]; exact Nat.le_of_eq hseeds.symm)] at hfst
    refine ⟨_, .of_settle hfst hsound rfl ?_⟩
    refine Eq.trans ?_ hcalls
    exact (List.append_nil _).trans (List.append_nil _)

end Optima.Evolution
