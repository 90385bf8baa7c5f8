import Mathlib.Data.List.Forall2
import Optima.Proofs.Containment
import Optima.Proofs.Random.Draws
import Optima.Proofs.Ranking
import Optima.Swarm.Run

namespace Optima.Swarm

variable {α γ : Type} [Scalar α]

structure Particle.Sound (f : Vec α → α) (n : Nat) (p : Particle α) : Prop where
  position : p.position.length = n
  velocity : p.velocity.length = n
  bestPosition : p.bestPosition.length = n
  bestValue : p.bestValue = f p.bestPosition

/-- A particle before and after it moves. -/
structure Particle.Moves (box : Box α) (f : Vec α → α) (p q : Particle α) : Prop where
  sound : q.Sound f box.length
  contains : box.Contains q.position
  best : q.bestPosition = if f q.position < f p.bestPosition then q.position else p.bestPosition

theorem Particle.Moves.all {box : Box α} {f : Vec α → α} {ps qs : List (Particle α)}
    (h : List.Forall₂ (Particle.Moves box f) ps qs) :
    ∀ q ∈ qs, q.Sound f box.length ∧ box.Contains q.position := by
  induction h with
  | nil => simp
  | cons hpq _ ih => exact List.forall_mem_cons.2 ⟨⟨hpq.sound, hpq.contains⟩, ih⟩

/-- A sweep over the particles `ps`, with the best position of all before it. -/
structure Swept (box : Box α) (f : Vec α → α) (ps : List (Particle α)) (best : Best α)
    (t : Traced (Vec α) ((List (Particle α) × Best α) × γ)) : Prop where
  moves : List.Forall₂ (Particle.Moves box f) ps t.value.1.1
  best : t.value.1.2 = t.value.1.1.foldl Best.after best
  calls : t.calls = t.value.1.1.map (·.position)

def Particle.moveTo (p : Particle α) (v x : Vec α) (value : α) : Particle α :=
  if value < p.bestValue then ⟨x, v, value, x, value⟩
  else ⟨x, v, value, p.bestPosition, p.bestValue⟩

variable {c : Config α} {box : Box α} {f : Vec α → α} {n : Nat}

@[simp] theorem Particle.moveTo_position (p : Particle α) (v x : Vec α) (value : α) :
    (p.moveTo v x value).position = x := by
  unfold moveTo
  split <;> rfl

theorem Particle.moveTo_bestPosition (p : Particle α) (v x : Vec α) (value : α) :
    (p.moveTo v x value).bestPosition = if value < p.bestValue then x else p.bestPosition := by
  unfold moveTo
  split <;> rfl

theorem Particle.Sound.moveTo {p : Particle α} (hp : p.Sound f n) {v x : Vec α}
    (hv : v.length = n) (hx : x.length = n) : (p.moveTo v x (f x)).Sound f n := by
  unfold Particle.moveTo
  split
  · exact ⟨hx, hv, hx, rfl⟩
  · exact ⟨hx, hv, hp.bestPosition, hp.bestValue⟩

theorem steer_length [WordSource γ] {n : Nat} {x v own all : Vec α} (hx : x.length = n)
    (hv : v.length = n) (hown : own.length = n) (hall : all.length = n) (g : γ) :
    ((steer c x v own all).run g).1.length = n := by
  induction n generalizing x v own all g with
  | zero =>
    rw [List.length_eq_zero_iff.1 hx]
    rfl
  | succ n ih =>
    obtain ⟨a, x, rfl⟩ := List.exists_cons_of_length_eq_add_one hx
    obtain ⟨b, v, rfl⟩ := List.exists_cons_of_length_eq_add_one hv
    obtain ⟨o, own, rfl⟩ := List.exists_cons_of_length_eq_add_one hown
    obtain ⟨d, all, rfl⟩ := List.exists_cons_of_length_eq_add_one hall
    exact congrArg Nat.succ
      (ih (Nat.succ.inj hx) (Nat.succ.inj hv) (Nat.succ.inj hown) (Nat.succ.inj hall) _)

theorem Best.after_position_length {n : Nat} {b : Best α} (hb : b.position.length = n)
    {p : Particle α} (hp : p.bestPosition.length = n) : (b.after p).position.length = n := by
  unfold Best.after
  split
  · exact hp
  · exact hb

variable [WordSource γ] [Scalar.Lawful α]

omit [Scalar.Lawful α] in
theorem advance_run (best : Vec α) (p : Particle α) (g : γ) :
    (advance c box f best p).run g =
      let r := (steer c p.position p.velocity p.bestPosition best).run g
      let x := box.clip (Vec.add p.position r.1)
      ⟨(p.moveTo r.1 x (f x), r.2), [x]⟩ := rfl

theorem advance_moves (hbox : ∀ i ∈ box, i.lower ≤ i.upper) {best : Vec α}
    (hbest : best.length = box.length) {p : Particle α} (hp : p.Sound f box.length) (g : γ) :
    p.Moves box f ((advance c box f best p).run g).value.1 ∧
      ((advance c box f best p).run g).calls =
        [((advance c box f best p).run g).value.1.position] := by
  rw [advance_run]
  have hv := steer_length (c := c) hp.position hp.velocity hp.bestPosition hbest g
  generalize (steer c p.position p.velocity p.bestPosition best).run g = r at hv
  obtain ⟨v, g'⟩ := r
  have hadd : (Vec.add p.position v).length = box.length := by
    rw [Vec.add_length, hp.position, hv, Nat.min_self]
  refine ⟨?_, by rw [Particle.moveTo_position]⟩
  refine ⟨?_, by rw [Particle.moveTo_position]; exact Box.contains_clip hbox hadd, ?_⟩
  · exact hp.moveTo hv (by rw [Box.clip_length, hadd])
  · rw [Particle.moveTo_position, Particle.moveTo_bestPosition, hp.bestValue]

theorem sequentialSweep_swept (hbox : ∀ i ∈ box, i.lower ≤ i.upper) {ps : List (Particle α)}
    (hps : ∀ p ∈ ps, p.Sound f box.length) {best : Best α}
    (hbest : best.position.length = box.length) (g : γ) :
    Swept box f ps best ((sequentialSweep c box f ps best).run g) := by
  induction ps generalizing best g with
  | nil => exact ⟨.nil, rfl, rfl⟩
  | cons p ps ih =>
    obtain ⟨hmoves, hcalls⟩ :=
      advance_moves (c := c) hbox hbest (hps p List.mem_cons_self) g
    simp only [sequentialSweep, StateT.run_bind]
    generalize (advance c box f best.position p).run g = t at hmoves hcalls
    obtain ⟨⟨q, g'⟩, calls⟩ := t
    obtain rfl : calls = [q.position] := hcalls
    have hrest := ih (fun p hp => hps p (List.mem_cons_of_mem _ hp))
      (Best.after_position_length hbest hmoves.sound.bestPosition) g'
    constructor
    · exact .cons hmoves hrest.moves
    · exact hrest.best
    · simp only [Traced.calls_bind, StateT.run_pure, Traced.calls_pure, List.append_nil,
        hrest.calls]
      rfl

theorem advanceSeeded_moves (hbox : ∀ i ∈ box, i.lower ≤ i.upper) {best : Vec α}
    (hbest : best.length = box.length) {ps : List (Particle α)} {seeds : List UInt64}
    (hps : ∀ p ∈ ps, p.Sound f box.length) (hseeds : seeds.length = ps.length) :
    List.Forall₂ (Particle.Moves box f) ps
        (Traced.forEach (advanceSeeded c box f best) (ps.zip seeds)).value ∧
      (Traced.forEach (advanceSeeded c box f best) (ps.zip seeds)).calls =
        (Traced.forEach (advanceSeeded c box f best) (ps.zip seeds)).value.map
          (·.position) := by
  induction ps generalizing seeds with
  | nil => exact ⟨.nil, rfl⟩
  | cons p ps ih =>
    obtain ⟨seed, seeds, rfl⟩ := List.exists_cons_of_length_eq_add_one hseeds
    obtain ⟨hmoves, hcalls⟩ := advance_moves (c := c) hbox hbest (hps p List.mem_cons_self)
      (ChaCha.ofSeed seed)
    obtain ⟨hrest, hrests⟩ := ih (fun p hp => hps p (List.mem_cons_of_mem _ hp))
      (Nat.succ.inj hseeds)
    refine ⟨.cons hmoves hrest, ?_⟩
    simp only [List.zip_cons_cons, Traced.forEach, Traced.calls_bind, Traced.calls_pure,
      List.append_nil, hrests, Traced.value_bind, Traced.value_pure, List.map_cons, advanceSeeded,
      Sampled.isolated, Traced.calls_map, Traced.value_map]
    exact congrArg (· ++ _) hcalls

theorem batchedSweep_swept (hbox : ∀ i ∈ box, i.lower ≤ i.upper) {ps : List (Particle α)}
    (hps : ∀ p ∈ ps, p.Sound f box.length) {best : Best α}
    (hbest : best.position.length = box.length) (g : γ) :
    Swept box f ps best ((batchedSweep c box f ps best).run g) := by
  obtain ⟨hmoves, hcalls⟩ := advanceSeeded_moves (c := c) hbox hbest hps
    (Draw.replicate_length Draw.word64 ps.length g)
  refine ⟨hmoves, rfl, ?_⟩
  refine Eq.trans ?_ hcalls
  exact (List.append_nil _).trans (List.append_nil _)

theorem sweep_swept (hbox : ∀ i ∈ box, i.lower ≤ i.upper) {ps : List (Particle α)}
    (hps : ∀ p ∈ ps, p.Sound f box.length) {best : Best α}
    (hbest : best.position.length = box.length) (g : γ) :
    Swept box f ps best ((sweep c box f ps best).run g) := by
  unfold sweep
  split
  · exact sequentialSweep_swept hbox hps hbest g
  · exact batchedSweep_swept hbox hps hbest g

end Optima.Swarm
