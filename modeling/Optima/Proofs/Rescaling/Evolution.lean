import Optima.Evolution.Run
import Optima.Proofs.Image
import Optima.Proofs.Matching
import Optima.Proofs.Rescaling.Similar

namespace Optima.Evolution

open Scalar (Extended)

variable {α γ : Type} [Scalar α] [WordSource γ] {r : α → α → Prop} {f f' : Vec α → α}

structure Member.Similar (r : α → α → Prop) (m m' : Member α) : Prop where
  point : m'.point = m.point
  value : r m.value m'.value

def SimilarTally (r : α → α → Prop) (q q' : List (Member α) × Nat) : Prop :=
  List.Forall₂ (Member.Similar r) q.1 q'.1 ∧ q'.2 = q.2

section

variable {ms ms' : List (Member α)} {m m' : Member α}

omit [Scalar α] in
theorem points_eq (h : List.Forall₂ (Member.Similar r) ms ms') :
    ms'.map (·.point) = ms.map (·.point) := by
  induction h with
  | nil => rfl
  | cons hm _ ih => rw [List.map_cons, List.map_cons, hm.point, ih]

variable [Extended α] (hr : Optima.Similar r)

include hr

theorem bestOf_similar (h : List.Forall₂ (Member.Similar r) ms ms') :
    (bestOf ms).Similar r (bestOf ms') := by
  have hvalues : List.Forall₂ r (ms.map (·.value)) (ms'.map (·.value)) := by
    rw [List.forall₂_map_left_iff, List.forall₂_map_right_iff]
    exact h.imp fun _ _ hm => hm.value
  have hget := forall₂_getElem? h (bestIndex (ms.map (·.value)))
  unfold bestOf
  rw [hr.bestIndex hvalues, List.getD_eq_getElem?_getD, List.getD_eq_getElem?_getD]
  generalize ms[bestIndex (ms.map (·.value))]? = q at hget ⊢
  generalize ms'[bestIndex (ms.map (·.value))]? = q' at hget ⊢
  cases hget with
  | none => exact ⟨rfl, hr.fixed Extended.isFinite_nan⟩
  | some hm => exact hm

theorem contest_similar (h : List.Forall₂ (Member.Similar r) ms ms') (k : Nat)
    (hm : m.Similar r m') :
    List.Forall₂ (Member.Similar r) (contest ms k m) (contest ms' k m') := by
  unfold contest
  induction h generalizing k with
  | nil => cases k <;> exact .nil
  | cons hq h ih =>
    cases k with
    | zero =>
      rw [List.modify_zero_cons, List.modify_zero_cons, hr.beats hm.value hq.value]
      split
      · exact .cons hm h
      · exact .cons hq h
    | succ k =>
      rw [List.modify_succ_cons, List.modify_succ_cons]
      exact .cons hq (ih k)

theorem settle_similar {q q' : List (Member α) × Nat} (h : SimilarTally r q q') (k : Nat)
    {o o' : Option (Member α)} (ho : Option.Rel (Member.Similar r) o o') :
    SimilarTally r (settle q (k, o)) (settle q' (k, o')) := by
  cases ho with
  | none => exact h
  | some hm => exact ⟨contest_similar hr h.1 k hm, congrArg (· + 1) h.2⟩

theorem foldl_settle_similar {os os' : List (Nat × Option (Member α))}
    (hos : List.Forall₂ (fun o o' => o'.1 = o.1 ∧ Option.Rel (Member.Similar r) o.2 o'.2) os os')
    {q q' : List (Member α) × Nat} (h : SimilarTally r q q') :
    SimilarTally r (os.foldl settle q) (os'.foldl settle q') := by
  induction hos generalizing q q' with
  | nil => exact h
  | @cons o o' _ _ ho _ ih =>
    obtain ⟨k, o⟩ := o
    obtain ⟨k', o'⟩ := o'
    obtain ⟨rfl, ho⟩ := ho
    exact ih (settle_similar hr h k' ho)

variable (hf : ∀ x, r (f x) (f' x)) (c : Config α) (feasible : Vec α → Bool)

include hf

theorem inPlaceGeneration_matches (ks : List Nat) (h : List.Forall₂ (Member.Similar r) ms ms')
    (calls : Nat) :
    Sampled.Matches (SimilarTally r)
      (inPlaceGeneration c feasible f ks ms calls :
        Sampled γ (Vec α) (List (Member α) × Nat))
      (inPlaceGeneration c feasible f' ks ms' calls) := by
  induction ks generalizing ms ms' calls with
  | nil => exact .pure ⟨h, rfl⟩
  | cons k ks ih =>
    unfold inPlaceGeneration
    rw [points_eq h]
    refine (Sampled.Matches.draw _).bind ?_
    rintro (_ | x) _ rfl
    · dsimp only
      split
      · exact ih h calls
      · exact .pure ⟨h, rfl⟩
    · refine (Sampled.Matches.call (hf x)).bind ?_
      intro a a' ha
      have hm : Member.Similar r ⟨x, a⟩ ⟨x, a'⟩ := ⟨rfl, ha⟩
      exact ih (contest_similar hr h k hm) (calls + 1)

omit [WordSource γ] [Extended α] hr in
theorem seededTrial_matches (points : List (Vec α)) (p : Nat × UInt64) :
    Traced.Matches (fun q q' => q'.1 = q.1 ∧ Option.Rel (Member.Similar r) q.2 q'.2)
      (seededTrial c feasible f points p) (seededTrial c feasible f' points p) := by
  unfold seededTrial
  split
  · exact .pure ⟨rfl, .none⟩
  · next x _ =>
    refine (Traced.Matches.call (hf x)).bind ?_
    intro a a' ha
    exact .pure ⟨rfl, .some ⟨rfl, ha⟩⟩

theorem batchedGeneration_matches (h : List.Forall₂ (Member.Similar r) ms ms') :
    Sampled.Matches (SimilarTally r)
      (batchedGeneration c feasible f ms : Sampled γ (Vec α) (List (Member α) × Nat))
      (batchedGeneration c feasible f' ms') := by
  unfold batchedGeneration
  rw [← h.length_eq, points_eq h]
  refine (Sampled.Matches.draw _).bind ?_
  rintro seeds _ rfl
  have hall : Traced.Matches
      (List.Forall₂ fun o o' => o'.1 = o.1 ∧ Option.Rel (Member.Similar r) o.2 o'.2)
      (Traced.forEach (seededTrial c feasible f (ms.map (·.point)))
        ((List.range ms.length).zip seeds))
      (Traced.forEach (seededTrial c feasible f' (ms.map (·.point)))
        ((List.range ms.length).zip seeds)) := by
    refine .forEach (P := Eq) ?_ (List.forall₂_same.2 fun _ _ => rfl)
    rintro p _ rfl
    exact seededTrial_matches hf c feasible _ p
  refine (Sampled.Matches.lift hall).bind ?_
  intro os os' hos
  exact .pure (foldl_settle_similar hr hos ⟨h, rfl⟩)

theorem generation_matches (h : List.Forall₂ (Member.Similar r) ms ms') :
    Sampled.Matches (SimilarTally r)
      (generation c feasible f ms : Sampled γ (Vec α) (List (Member α) × Nat))
      (generation c feasible f' ms') := by
  unfold generation
  cases c.update with
  | inPlace =>
    rw [← h.length_eq]
    exact inPlaceGeneration_matches hr hf c feasible _ h 0
  | batched => exact batchedGeneration_matches hr hf c feasible h

end

def rescaled (φ : α → α) (s : Evolution α) : Evolution α :=
  { s with objective := s.objective.rescaled φ }

structure State.Similar (r : α → α → Prop) (φ : α → α) (t t' : State α γ) : Prop where
  population : List.Forall₂ (Member.Similar r) t.population t'.population
  iteration : t'.iteration = t.iteration
  evaluations : t'.evaluations = t.evaluations
  log : t'.log = t.log.map (Entry.image φ)
  generator : t'.generator = t.generator

variable [Extended α] {φ : α → α} {s : Evolution α} (hr : Rescales r s.config.goal φ)

include hr

omit [WordSource γ] in
theorem State.finish_image {t t' : State α γ} (ht : t.Similar r φ t') (status : Status) :
    t'.finish (s.rescaled φ) status = (t.finish s status).image φ := by
  have hbest := bestOf_similar hr.toSimilar ht.population
  unfold State.finish Report.image
  rw [hbest.point, ht.iteration, ht.evaluations, ht.log, ← List.map_reverse]
  congr 1
  exact hr.orient hbest.value

variable (hv : ∀ x, r (s.config.goal.orient (s.objective.value x))
  (s.config.goal.orient (φ (s.objective.value x))))

include hv

theorem round_matches {t t' : State α γ} (ht : t.Similar r φ t') :
    Traced.Matches
      (Sum.LiftRel (State.Similar r φ) fun report report' => report' = report.map (·.image φ))
      (s.round t) ((s.rescaled φ).round t') := by
  have hbest := bestOf_similar hr.toSimilar ht.population
  unfold round
  dsimp only
  rw [hr.finite hbest.value]
  split
  · rw [ht.iteration]
    change Traced.Matches _ _ (if s.config.stopping.capReached t.iteration = true then _ else _)
    split
    · exact .pure (.inr (congrArg some (State.finish_image hr ht .iterationExceeded)))
    · have horiented (x : Vec α) : r (s.oriented x) ((s.rescaled φ).oriented x) := hv x
      have hgen := generation_matches (γ := γ) hr.toSimilar horiented s.config s.feasible
        ht.population t.generator
      rw [ht.generator]
      refine hgen.bind ?_
      rintro ⟨⟨ms, calls⟩, g⟩ ⟨⟨ms', _⟩, _⟩ ⟨⟨hms, rfl⟩, rfl⟩
      dsimp only
      rw [← ht.population.length_eq]
      change Traced.Matches _ _ (if s.config.settles _ _ = true then _ else _)
      split
      · refine .pure (.inl ⟨hms, rfl, ?_, ?_, rfl⟩)
        · exact congrArg (· + _) ht.evaluations
        · dsimp only
          rw [ht.log, List.map_cons, Entry.image,
            ← hr.orient (bestOf_similar hr.toSimilar hms).value]
          rfl
      · exact .pure (.inr rfl)
  · exact .pure (.inr (congrArg some (State.finish_image hr ht .diverged)))

omit [WordSource γ] [Extended α] hr in
theorem initial_matches (g : γ) :
    Traced.Matches (State.Similar r φ) (s.initial g) ((s.rescaled φ).initial g) := by
  unfold initial
  refine Traced.Matches.bind (R := List.Forall₂ r) (.forEach (P := Eq) ?_ ?_) ?_
  · rintro x _ rfl
    exact .call (hv x)
  · exact List.forall₂_same.2 fun _ _ => rfl
  · intro values values' hvalues
    refine .pure ⟨?_, rfl, rfl, rfl, rfl⟩
    refine forall₂_zipWith (R := Eq) ?_ (List.forall₂_same.2 fun _ _ => rfl) hvalues
    rintro x _ a a' rfl ha
    exact ⟨rfl, ha⟩

theorem runWithin_rescaled (n : Nat) (g : γ) :
    (s.rescaled φ).runWithin n g = (s.runWithin n g).image φ := by
  unfold runWithin
  rw [← Run.ofIteration_image, trace_eq, trace_eq,
    (initial_matches hv g).iterate_eq_map (fun _ _ ht => round_matches hr hv ht) n]
  congr 1
  rw [Functor.map_map, Functor.map_map]
  congr 1
  funext o
  exact Option.join_map_eq_map_join

end Optima.Evolution
