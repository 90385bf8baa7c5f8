import Optima.Evolution.Run
import Optima.Proofs.Evolution.Generation
import Optima.Proofs.Iteration
import Optima.Proofs.Scalar.Binary64

namespace Optima.Evolution

open Scalar (Lawful isNaN)
open Traced (Visits callsAt)

variable {α γ : Type} [Scalar α]

theorem check_population {s : Evolution α} (hs : s.check = .ok ()) :
    4 < s.population.length ∧ ∀ x ∈ s.population, s.feasible x = true ∧ x.length = s.dimension := by
  rw [check, bind_eq_ok] at hs
  obtain ⟨_, -, h⟩ := hs
  rw [checkPopulation, demand_bind_eq_ok, demand_bind_eq_ok, decide_eq_true_iff] at h
  obtain ⟨hsize, -, h⟩ := h
  refine ⟨hsize, ?_⟩
  split at h
  · cases h
  · next hdim =>
    split at h
    · cases h
    · next hfeas =>
      intro x hx
      rw [List.findIdx?_eq_none_iff] at hfeas
      rw [List.find?_eq_none] at hdim
      obtain ⟨i, hi⟩ := List.mem_iff_getElem?.1 hx
      refine ⟨by simpa using hfeas x hx, ?_⟩
      have := hdim (x, i) (List.mem_zipIdx_iff_getElem?.2 hi)
      simpa using this

structure State.Sound (s : Evolution α) (xs : List (Vec α)) (t : State α γ) : Prop where
  size : t.population.length = s.population.length
  members : ∀ m ∈ t.population, m.Sound s.feasible s.oriented s.dimension
  evaluated : ∀ x ∈ xs, s.feasible x = true ∧ x.length = s.dimension
  held : ∀ m ∈ t.population, m.point ∈ xs
  best : ∀ x ∈ xs, ∃ m ∈ t.population, ¬ beats (s.oriented x) m.value = true

section

variable [WordSource γ] {s : Evolution α}

def State.next (s : Evolution α) (t : State α γ) : (List (Member α) × Nat) × γ → State α γ
  | ((population, calls), generator) =>
    ⟨population, t.iteration + 1, t.evaluations + calls,
      ⟨t.iteration + 1, s.config.goal.orient (bestOf population).value⟩ :: t.log, generator⟩

/-- All that a round can come to: a report before it begins, a generation that ends, and one that
never does. -/
theorem round_cases (s : Evolution α) (t : State α γ) :
    let w := (generation s.config s.feasible s.oriented t.population).run t.generator
    (∃ status, s.round t = ⟨.inr (some (t.finish s status)), []⟩ ∧
      (status = .diverged ∧ Scalar.isFinite (bestOf t.population).value = false ∨
        status = .iterationExceeded ∧ s.config.stopping.capReached t.iteration = true)) ∨
    s.config.stopping.capReached t.iteration = false ∧
      (s.config.settles t.population.length w.value.1.2 = true ∧
          s.round t = ⟨.inl (t.next s w.value), w.calls⟩ ∨
        s.config.settles t.population.length w.value.1.2 = false ∧
          s.round t = ⟨.inr none, w.calls⟩) := by
  unfold round
  dsimp only [StateT.run]
  by_cases hf : Scalar.isFinite (bestOf t.population).value = true
  · rw [if_pos hf]
    cases s.config.stopping.capReached t.iteration with
    | true => exact .inl ⟨_, rfl, .inr ⟨rfl, rfl⟩⟩
    | false =>
      refine .inr ⟨rfl, ?_⟩
      obtain ⟨⟨⟨population, calls⟩, generator⟩, xs⟩ :=
        generation s.config s.feasible s.oriented t.population t.generator
      rw [if_neg Bool.false_ne_true, Traced.bind_eq]
      dsimp only
      cases s.config.settles t.population.length calls with
      | true => exact .inl ⟨rfl, Traced.ext rfl (List.append_nil xs)⟩
      | false => exact .inr ⟨rfl, Traced.ext rfl (List.append_nil xs)⟩
  · exact .inl ⟨_, if_neg hf, .inl ⟨rfl, Bool.eq_false_iff.2 hf⟩⟩

theorem round_inl {t u : State α γ} (h : (s.round t).value = .inl u) :
    u = t.next s ((generation s.config s.feasible s.oriented t.population).run t.generator).value ∧
      (s.round t).calls =
        ((generation s.config s.feasible s.oriented t.population).run t.generator).calls ∧
      s.config.stopping.capReached t.iteration = false := by
  obtain ⟨status, he, -⟩ | ⟨hc, ⟨-, he⟩ | ⟨-, he⟩⟩ := s.round_cases t
  · rw [he] at h
    cases h
  · rw [he] at h ⊢
    cases h
    exact ⟨rfl, rfl, hc⟩
  · rw [he] at h
    cases h

theorem round_inr {t : State α γ} {r : Report α (Vec α)} (h : (s.round t).value = .inr (some r)) :
    (s.round t).calls = [] ∧ ∃ status, r = t.finish s status ∧
      (status = .iterationExceeded → s.config.stopping.capReached t.iteration = true) := by
  obtain ⟨status, he, hs⟩ | ⟨-, ⟨-, he⟩ | ⟨-, he⟩⟩ := s.round_cases t
  · rw [he] at h ⊢
    cases h
    refine ⟨rfl, status, rfl, ?_⟩
    rintro rfl
    obtain ⟨hd, -⟩ | ⟨-, hc⟩ := hs
    · cases hd
    · exact hc
  · rw [he] at h
    cases h
  · rw [he] at h
    cases h

theorem round_stuck {t : State α γ} (h : (s.round t).value = .inr none) :
    s.config.maxResamples = none ∧ (s.round t).calls =
      ((generation s.config s.feasible s.oriented t.population).run t.generator).calls := by
  obtain ⟨status, he, -⟩ | ⟨-, ⟨-, he⟩ | ⟨hsettles, he⟩⟩ := s.round_cases t
  · rw [he] at h
    cases h
  · rw [he] at h
    cases h
  · rw [he]
    refine ⟨?_, rfl⟩
    rw [Config.settles, Bool.or_eq_false_iff] at hsettles
    exact Option.isSome_eq_false_iff.1 hsettles.1 |> Option.isNone_iff_eq_none.1

omit [WordSource γ] in
theorem initial_eq (s : Evolution α) (g : γ) :
    s.initial g = ⟨⟨s.population.map fun x => ⟨x, s.oriented x⟩, 0, s.population.length, [], g⟩,
      s.population⟩ := by
  have hzip : ∀ xs : List (Vec α), List.zipWith Member.mk xs (xs.map s.oriented) =
      xs.map fun x => ⟨x, s.oriented x⟩ := by
    intro xs
    rw [List.zipWith_map_right, List.zipWith_self]
  ext1
  · simp only [initial, Traced.value_bind, Traced.value_forEach, Traced.value_call,
      Traced.value_pure, hzip]
  · simp only [initial, Traced.calls_bind, Traced.calls_forEach, Traced.calls_call,
      Traced.calls_pure, List.append_nil, List.flatMap_singleton']

theorem runWithin_visits (s : Evolution α) (n : Nat) (g : γ) :
    ∃ ts t, Visits s.round (s.initial g).value ts t ∧
      ((∃ r, (s.round t).value = .inr (some r) ∧
          s.runWithin n g = ⟨.ok r, s.population ++ callsAt s.round ts⟩) ∨
        (s.round t).value = .inr none ∧ s.runWithin n g =
          ⟨.error .unfinished, s.population ++ (callsAt s.round ts ++ (s.round t).calls)⟩ ∨
        s.runWithin n g = ⟨.error .unfinished, s.population ++ callsAt s.round ts⟩) := by
  have hstart : (s.initial g).calls = s.population := by rw [initial_eq]
  have hrun : s.runWithin n g =
    ⟨Run.conclude (Traced.iterate s.round n (s.initial g).value).value.join,
      s.population ++ (Traced.iterate s.round n (s.initial g).value).calls⟩ := by
    rw [runWithin, trace_eq, Run.ofIteration, Traced.value_map, Traced.calls_map,
      Traced.calls_bind, hstart]
    rfl
  obtain ⟨ts, t, o, ht, hr, he⟩ | ⟨ts, t, ht, he⟩ :=
    Traced.iterate_visits s.round n (s.initial g).value
  · rw [he, Traced.callsAt_concat] at hrun
    cases o with
    | some r =>
      rw [(round_inr hr).1, List.append_nil] at hrun
      exact ⟨ts, t, ht, .inl ⟨r, hr, hrun⟩⟩
    | none => exact ⟨ts, t, ht, .inr (.inl ⟨hr, hrun⟩)⟩
  · rw [he] at hrun
    exact ⟨ts, t, ht, .inr (.inr hrun)⟩

variable [Lawful α]

omit [WordSource γ] in
theorem State.Sound.initial (hs : s.check = .ok ()) (g : γ) :
    (s.initial g).value.Sound s s.population := by
  obtain ⟨-, hmem⟩ := check_population hs
  rw [initial_eq]
  refine ⟨List.length_map _, ?_, hmem, ?_, ?_⟩
  · intro m hm
    obtain ⟨x, hx, rfl⟩ := List.mem_map.1 hm
    exact ⟨(hmem x hx).1, (hmem x hx).2, rfl⟩
  · intro m hm
    obtain ⟨x, hx, rfl⟩ := List.mem_map.1 hm
    exact hx
  · intro x hx
    exact ⟨_, List.mem_map_of_mem hx, beats_ranking.irrefl _⟩

omit [Lawful α] in
theorem State.Sound.bred (hs : s.check = .ok ()) {t : State α γ} {xs : List (Vec α)}
    (ht : t.Sound s xs) : ∃ trials, Bred s.feasible s.oriented s.dimension t.population trials
      ((generation s.config s.feasible s.oriented t.population).run t.generator) := by
  apply generation_bred
  · exact fun m hm => (ht.members m hm).length
  · rw [ht.size]
    exact Nat.le_of_lt (check_population hs).1

theorem State.Sound.round (hs : s.check = .ok ()) {t u : State α γ} {xs : List (Vec α)}
    (ht : t.Sound s xs) (h : (s.round t).value = .inl u) :
    u.Sound s (xs ++ (s.round t).calls) ∧
      ∃ trials, Succeeds t.population trials (s.round t).calls u.population := by
  obtain ⟨trials, hbred⟩ := ht.bred hs
  obtain ⟨rfl, hcalls, -⟩ := round_inl h
  rw [hcalls]
  refine ⟨⟨hbred.size.trans ht.size, hbred.members ht.members, ?_, ?_, ?_⟩, trials, hbred.succeeds⟩
  · exact List.forall_mem_append.2 ⟨ht.evaluated, hbred.evaluated⟩
  · intro q hq
    obtain hq | hq := hbred.mem hq
    · exact List.mem_append_left _ (ht.held q hq)
    · exact List.mem_append_right _ (hbred.mem_calls.2 ⟨q, hq, rfl⟩)
  · intro x hx
    obtain hx | hx := List.mem_append.1 hx
    · obtain ⟨p, hp, hxp⟩ := ht.best x hx
      obtain ⟨q, hq, hpq⟩ := hbred.kept hp
      exact ⟨q, hq, beats_ranking.not_trans hxp hpq⟩
    · exact hbred.found hx

theorem initial_visits (hs : s.check = .ok ()) {g : γ} {ts : List (State α γ)} {t : State α γ}
    (ht : Visits s.round (s.initial g).value ts t) :
    t.Sound s (s.population ++ callsAt s.round ts) := by
  induction ht with
  | refl =>
    rw [Traced.callsAt_nil, List.append_nil]
    exact .initial hs g
  | tail _ hu ih =>
    rw [Traced.callsAt_concat, ← List.append_assoc]
    exact (ih.round hs hu).1

omit [WordSource γ] in
theorem State.Sound.bestOf (hs : s.check = .ok ()) {t : State α γ} {xs : List (Vec α)}
    (ht : t.Sound s xs) :
    bestOf t.population ∈ t.population ∧
      ∀ x ∈ xs, ¬ beats (s.oriented x) (bestOf t.population).value = true := by
  have hne : t.population.map (·.value) ≠ [] := by
    apply List.ne_nil_of_length_pos
    rw [List.length_map, ht.size]
    exact Nat.lt_of_le_of_lt (Nat.zero_le 4) (check_population hs).1
  obtain ⟨v, hv⟩ := bestIndex_firstBest hne
  obtain ⟨b, hb, rfl⟩ := hv.of_map
  have hbest : Evolution.bestOf t.population = b := by
    rw [Evolution.bestOf, List.getD_eq_getElem?_getD, hb.get]
    rfl
  rw [hbest]
  refine ⟨hb.mem, ?_⟩
  intro x hx
  obtain ⟨m, hm, hxm⟩ := ht.best x hx
  exact beats_ranking.not_trans hxm (hb.best m hm)

omit [WordSource γ] in
theorem State.Sound.finish (hs : s.check = .ok ()) {t : State α γ} {xs : List (Vec α)}
    (ht : t.Sound s xs) (status : Status) :
    let r := t.finish s status
    r.value = s.objective.value r.result ∧ r.result ∈ xs ∧
      ∀ x ∈ xs, isNaN (s.objective.value x) = false → isNaN r.value = false ∧
        s.config.goal.orient r.value ≤ s.config.goal.orient (s.objective.value x) := by
  obtain ⟨hmem, hbest⟩ := ht.bestOf hs
  have hvalue := (ht.members _ hmem).value
  simp only [State.finish, Goal.isNaN_orient, Goal.orient_orient]
  refine ⟨?_, ht.held _ hmem, ?_⟩
  · rw [hvalue]
    exact Goal.orient_orient _ _
  · intro x hx hnan
    have hnan' : isNaN (s.oriented x) = false := by rwa [oriented, Goal.isNaN_orient]
    exact le_of_not_beats hnan' (hbest x hx)

end

/-- Differential evolution loses nothing, in either order of update and whatever the random words
are. It evaluates its objective at feasible points of the dimension of the population only; from
one generation to the next every slot is challenged at most once and holds a feasible member with
its value, which a better trial only replaces; and its report has the best of all evaluations that
gave a number. -/
theorem runWithin_bestMember [WordSource γ] {s : Evolution Float} (hs : s.check = .ok ()) (n : Nat)
    (g : γ) :
    (∀ x ∈ (s.runWithin n g).calls, s.feasible x = true ∧ x.length = s.dimension) ∧
      (∀ ts t, Visits s.round (s.initial g).value ts t →
        t.population.length = s.population.length ∧
        (∀ m ∈ t.population, m.Sound s.feasible s.oriented s.dimension) ∧
        ∀ u, (s.round t).value = .inl u →
          ∃ trials, Succeeds t.population trials (s.round t).calls u.population) ∧
      ∀ r, (s.runWithin n g).value = .ok r →
        (∃ ts t, Visits s.round (s.initial g).value ts t ∧
          (s.runWithin n g).calls = s.population ++ callsAt s.round ts ∧
          ∃ m ∈ t.population, r.result = m.point) ∧
        r.value = s.objective.value r.result ∧ r.result ∈ (s.runWithin n g).calls ∧
        ∀ x ∈ (s.runWithin n g).calls, isNaN (s.objective.value x) = false →
          isNaN r.value = false ∧
            s.config.goal.orient r.value ≤ s.config.goal.orient (s.objective.value x) := by
  refine and_left_comm.1 ⟨?_, ?_⟩
  · intro ts t ht
    have hsound := initial_visits hs ht
    exact ⟨hsound.size, hsound.members, fun u hu => (hsound.round hs hu).2⟩
  · obtain ⟨ts, t, ht, ⟨r, hr, he⟩ | ⟨hr, he⟩ | he⟩ := s.runWithin_visits n g
    · obtain ⟨-, status, rfl, -⟩ := round_inr hr
      have hsound := initial_visits hs ht
      rw [he]
      refine ⟨hsound.evaluated, ?_⟩
      intro r hr
      cases hr
      exact ⟨⟨ts, t, ht, rfl, _, (hsound.bestOf hs).1, rfl⟩, hsound.finish hs status⟩
    · have hsound := initial_visits hs ht
      obtain ⟨trials, hbred⟩ := hsound.bred hs
      rw [he, (round_stuck hr).2, ← List.append_assoc]
      refine ⟨List.forall_mem_append.2 ⟨hsound.evaluated, hbred.evaluated⟩, ?_⟩
      intro r hr
      cases hr
    · rw [he]
      refine ⟨(initial_visits hs ht).evaluated, ?_⟩
      intro r hr
      cases hr

def brood : Evolution Float where
  objective := .ofValue fun x => Float.sqrt (x.getD 0 0)
  population := [[-1], [1], [4], [9], [16]]
  feasible x := x.getD 0 0 < 20
  config := { Config.standard with stopping := .afterIterations 2 }

theorem brood_run : brood.run.value =
    .ok ⟨[0.6000000000000001], 0.7745966692414834, .iterationExceeded, 2, 15,
      [⟨1, 1⟩, ⟨2, 0.7745966692414834⟩]⟩ := by
  decide +kernel

theorem brood_best :
    brood.check = .ok () ∧
      (∀ x ∈ brood.run.calls, brood.feasible x = true ∧ x.length = brood.dimension) ∧
      ∀ x ∈ brood.run.calls, isNaN (brood.objective.value x) = false →
        (0.7745966692414834 : Float) ≤ brood.objective.value x := by
  have hs : brood.check = .ok () := by decide +kernel
  obtain ⟨hc, -, hr⟩ := runWithin_bestMember hs brood.config.stopping.budget
    (ChaCha.ofSeed (UInt64.ofNat brood.config.seed))
  obtain ⟨-, -, -, hbest⟩ := hr _ brood_run
  exact ⟨hs, hc, fun x hx hnan => (hbest x hx hnan).2⟩

end Optima.Evolution
