import Optima.Proofs.Image
import Optima.Proofs.Iteration
import Optima.Proofs.Matching
import Optima.Proofs.Rescaling.Similar
import Optima.Swarm.Run

namespace Optima.Swarm

open Scalar (Extended)

variable {α γ : Type} [Scalar α] [WordSource γ] {r : α → α → Prop} {f f' : Vec α → α}

structure Particle.Similar (r : α → α → Prop) (p p' : Particle α) : Prop where
  position : p'.position = p.position
  velocity : p'.velocity = p.velocity
  bestPosition : p'.bestPosition = p.bestPosition
  value : r p.value p'.value
  bestValue : r p.bestValue p'.bestValue

structure Best.Similar (r : α → α → Prop) (b b' : Best α) : Prop where
  position : b'.position = b.position
  value : r b.value b'.value

section

variable [Extended α] (hr : Optima.Similar r) {ps ps' : List (Particle α)} {p p' : Particle α}
  {b b' : Best α}

include hr

theorem Best.Similar.after (hb : b.Similar r b') (hp : p.Similar r p') :
    (b.after p).Similar r (b'.after p') := by
  unfold Best.after
  simp only [hr.lt hp.bestValue hb.value]
  split
  · exact ⟨hp.bestPosition, hp.bestValue⟩
  · exact hb

theorem Best.Similar.foldl (h : List.Forall₂ (Particle.Similar r) ps ps') (hb : b.Similar r b') :
    (ps.foldl Best.after b).Similar r (ps'.foldl Best.after b') := by
  induction h generalizing b b' with
  | nil => exact hb
  | cons hp _ ih => exact ih (hb.after hr hp)

theorem bestOf_similar (h : List.Forall₂ (Particle.Similar r) ps ps') :
    (bestOf ps).Similar r (bestOf ps') := by
  have hvalues : List.Forall₂ r (ps.map (·.bestValue)) (ps'.map (·.bestValue)) := by
    rw [List.forall₂_map_left_iff, List.forall₂_map_right_iff]
    exact h.imp fun _ _ hp => hp.bestValue
  have hget := forall₂_getElem? h (bestIndex (ps.map (·.bestValue)))
  unfold bestOf
  rw [hr.bestIndex hvalues]
  generalize ps[bestIndex (ps.map (·.bestValue))]? = q at hget ⊢
  generalize ps'[bestIndex (ps.map (·.bestValue))]? = q' at hget ⊢
  cases hget with
  | none => exact ⟨rfl, hr.fixed Extended.isFinite_infinity⟩
  | some hp => exact ⟨hp.bestPosition, hp.bestValue⟩

variable (hf : ∀ x, r (f x) (f' x))

include hf

theorem advance_matches (c : Config α) (box : Box α) (best : Vec α) (hp : p.Similar r p') :
    Sampled.Matches (Particle.Similar r) (advance c box f best p : Sampled γ (Vec α) (Particle α))
      (advance c box f' best p') := by
  unfold advance
  rw [hp.position, hp.velocity, hp.bestPosition]
  refine (Sampled.Matches.draw _).bind ?_
  rintro v _ rfl
  refine (Sampled.Matches.call (hf _)).bind ?_
  intro a a' ha
  simp only [hr.lt ha hp.bestValue]
  split
  · exact .pure ⟨rfl, rfl, rfl, ha, ha⟩
  · exact .pure ⟨rfl, rfl, rfl, ha, hp.bestValue⟩

theorem sequentialSweep_matches (c : Config α) (box : Box α)
    (h : List.Forall₂ (Particle.Similar r) ps ps') (hb : b.Similar r b') :
    Sampled.Matches (fun q q' => List.Forall₂ (Particle.Similar r) q.1 q'.1 ∧ q.2.Similar r q'.2)
      (sequentialSweep c box f ps b : Sampled γ (Vec α) (List (Particle α) × Best α))
      (sequentialSweep c box f' ps' b') := by
  induction h generalizing b b' with
  | nil => exact .pure ⟨.nil, hb⟩
  | cons hp _ ih =>
    unfold sequentialSweep
    rw [hb.position]
    refine (advance_matches hr hf c box b.position hp).bind ?_
    intro q q' hq
    refine (ih (hb.after hr hq)).bind ?_
    rintro ⟨qs, best⟩ ⟨qs', best'⟩ ⟨hqs, hbest⟩
    exact .pure ⟨.cons hq hqs, hbest⟩

theorem batchedSweep_matches (c : Config α) (box : Box α)
    (h : List.Forall₂ (Particle.Similar r) ps ps') (hb : b.Similar r b') :
    Sampled.Matches (fun q q' => List.Forall₂ (Particle.Similar r) q.1 q'.1 ∧ q.2.Similar r q'.2)
      (batchedSweep c box f ps b : Sampled γ (Vec α) (List (Particle α) × Best α))
      (batchedSweep c box f' ps' b') := by
  unfold batchedSweep
  rw [h.length_eq.symm, hb.position]
  refine (Sampled.Matches.draw _).bind ?_
  rintro seeds _ rfl
  have hall : Traced.Matches (List.Forall₂ (Particle.Similar r))
      (Traced.forEach (advanceSeeded c box f b.position) (ps.zip seeds))
      (Traced.forEach (advanceSeeded c box f' b.position) (ps'.zip seeds)) := by
    refine .forEach (P := fun q q' => q.1.Similar r q'.1 ∧ q'.2 = q.2) ?_
      (forall₂_zipWith (fun hq hs => ⟨hq, hs.symm⟩) h (List.forall₂_same.2 fun _ _ => rfl))
    rintro ⟨q, seed⟩ ⟨q', _⟩ ⟨hq, rfl⟩
    exact (advance_matches hr hf c box b.position hq).isolated _
  refine (Sampled.Matches.lift hall).bind ?_
  intro qs qs' hqs
  exact .pure ⟨hqs, hb.foldl hr hqs⟩

theorem sweep_matches (c : Config α) (box : Box α)
    (h : List.Forall₂ (Particle.Similar r) ps ps') (hb : b.Similar r b') :
    Sampled.Matches (fun q q' => List.Forall₂ (Particle.Similar r) q.1 q'.1 ∧ q.2.Similar r q'.2)
      (sweep c box f ps b : Sampled γ (Vec α) (List (Particle α) × Best α))
      (sweep c box f' ps' b') := by
  unfold sweep
  cases c.update with
  | sequential => exact sequentialSweep_matches hr hf c box h hb
  | batched => exact batchedSweep_matches hr hf c box h hb

end

def rescaled (φ : α → α) (s : Swarm α) : Swarm α := { s with objective := s.objective.rescaled φ }

structure State.Similar (r : α → α → Prop) (φ : α → α) (t t' : State α γ) : Prop where
  particles : List.Forall₂ (Particle.Similar r) t.particles t'.particles
  best : t.best.Similar r t'.best
  iteration : t'.iteration = t.iteration
  evaluations : t'.evaluations = t.evaluations
  values : List.Forall₂ r t.values t'.values
  log : t'.log = t.log.map (Entry.image φ)
  generator : t'.generator = t.generator

variable [Extended α] {φ : α → α} {s : Swarm α} (hr : Rescales r s.config.goal φ)

include hr

omit [WordSource γ] [Extended α] in
theorem State.finish_image {t t' : State α γ} (ht : t.Similar r φ t') (status : Status) :
    t'.finish (s.rescaled φ) status = (t.finish s status).image φ := by
  unfold State.finish Report.image
  rw [ht.best.position, ht.iteration, ht.evaluations, ht.log, ← List.map_reverse]
  congr 1
  exact hr.orient ht.best.value

variable (hv : ∀ x, r (s.config.goal.orient (s.objective.value x))
  (s.config.goal.orient (φ (s.objective.value x))))

include hv

omit [WordSource γ] in
theorem ranked_similar (x : Vec α) : r (s.ranked x) ((s.rescaled φ).ranked x) :=
  hr.ranked (hv x)

theorem round_matches (hc : s.config.stopping.valueTolerance = none) {t t' : State α γ}
    (ht : t.Similar r φ t') :
    Traced.Matches (Sum.LiftRel (State.Similar r φ) fun report report' => report' = report.image φ)
      (s.round t) ((s.rescaled φ).round t') := by
  have hverdict : (s.rescaled φ).config.stopping.verdict t'.iteration t'.values none =
      s.config.stopping.verdict t.iteration t.values none := by
    rw [ht.iteration]
    exact hr.verdict hc ht.values t.iteration
  unfold round
  dsimp only
  rw [hverdict]
  cases s.config.stopping.verdict t.iteration t.values none with
  | some status => exact .pure (.inr (State.finish_image hr ht status))
  | none =>
    have hsweep := sweep_matches (γ := γ) hr.toSimilar (ranked_similar hr hv) s.config s.box
      ht.particles ht.best t.generator
    dsimp only
    rw [ht.generator]
    refine hsweep.bind ?_
    rintro ⟨⟨ps, b⟩, g⟩ ⟨⟨ps', b'⟩, _⟩ ⟨⟨hps, hb⟩, rfl⟩
    refine .pure (.inl ⟨hps, hb, ?_, ?_, .cons hb.value ht.values, ?_, rfl⟩)
    · exact congrArg (· + 1) ht.iteration
    · exact congrArg (· + s.config.size) ht.evaluations
    · dsimp only
      rw [ht.log, ht.iteration, List.map_cons, Entry.image, ← hr.orient hb.value]
      rfl

omit [WordSource γ] in
theorem initial_matches (positions velocities : List (Vec α)) (g : γ) :
    Traced.Matches (State.Similar r φ) (s.initial positions velocities g)
      ((s.rescaled φ).initial positions velocities g) := by
  unfold initial
  refine Traced.Matches.bind (R := List.Forall₂ r) (.forEach (P := Eq) ?_ ?_) ?_
  · rintro x _ rfl
    exact .call (ranked_similar hr hv x)
  · exact List.forall₂_same.2 fun _ _ => rfl
  · intro values values' hvalues
    have hps : List.Forall₂ (Particle.Similar r)
        (List.zipWith (fun x p => Particle.start x p.1 p.2) (positions.map s.box.clip)
          (velocities.zip values))
        (List.zipWith (fun x p => Particle.start x p.1 p.2) (positions.map s.box.clip)
          (velocities.zip values')) := by
      refine forall₂_zipWith (R := Eq) (Q := fun p p' => p'.1 = p.1 ∧ r p.2 p'.2) ?_
        (List.forall₂_same.2 fun _ _ => rfl)
        (forall₂_zipWith (fun hp hv => ⟨hp.symm, hv⟩) (List.forall₂_same.2 fun _ _ => rfl) hvalues)
      rintro x _ ⟨v, a⟩ ⟨_, a'⟩ rfl ⟨rfl, ha⟩
      exact ⟨rfl, rfl, rfl, ha, ha⟩
    have hb := bestOf_similar hr.toSimilar hps
    exact .pure ⟨hps, hb, rfl, rfl, .cons hb.value .nil, rfl, rfl⟩

theorem trace_rescaled (hc : s.config.stopping.valueTolerance = none) (n : Nat)
    (positions velocities : List (Vec α)) (g : γ) :
    (s.rescaled φ).trace n positions velocities g =
      Option.map (Report.image φ) <$> s.trace n positions velocities g := by
  exact (initial_matches hr hv positions velocities g).iterate_eq_map
    (fun _ _ ht => round_matches hr hv hc ht) n

theorem runWithin_rescaled (hc : s.config.stopping.valueTolerance = none) (n : Nat) (g : γ) :
    (s.rescaled φ).runWithin n g = (s.runWithin n g).image φ := by
  have hp : ((s.rescaled φ).positions : Draw γ _) = s.positions := rfl
  have hvel : ((s.rescaled φ).velocities : Draw γ _) = s.velocities := rfl
  have hcheck : ∀ ps, (s.rescaled φ).checkPositions ps = s.checkPositions ps := fun _ => rfl
  simp only [runWithin, hp, hvel, hcheck, trace_rescaled hr hv hc, Run.ofIteration_image]
  cases StateT.run s.positions g with
  | mk positions g =>
    cases positions with
    | none => rfl
    | some positions =>
      simp only [Run.image_accepting]
      congr 1
      funext u
      cases StateT.run s.velocities g with
      | mk velocities g => cases velocities <;> rfl

end Optima.Swarm
