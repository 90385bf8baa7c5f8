import Optima.Proofs.Evolution.Run
import Optima.Proofs.Swarm.Run

/-!
The seeds of the workers of a batched run. The master generator gives one word to each worker, and
nothing else is drawn from it once the run has started: which seed a worker has is told by its
place in the stream of words, whatever the workers do with theirs.
-/

namespace Optima

open Traced (Visits)

namespace Draw

variable {γ : Type} [WordSource γ]

def after (g : γ) : Nat → γ
  | 0 => g
  | n + 1 => (word64.run (after g n)).2

/-- The word at a place of the stream, counted from zero. -/
def wordAt (g : γ) (n : Nat) : UInt64 := (word64.run (after g n)).1

theorem after_add (g : γ) (m n : Nat) : after (after g m) n = after g (m + n) := by
  induction n with
  | zero => rfl
  | succ n ih => exact congrArg (fun g => (word64.run g).2) ih

theorem wordAt_after (g : γ) (m n : Nat) : wordAt (after g m) n = wordAt g (m + n) :=
  congrArg (fun g => (word64.run g).1) (after_add g m n)

theorem seeds_run (n : Nat) (g : γ) :
    (seeds n).run g = ((List.range n).map (wordAt g), after g n) := by
  induction n generalizing g with
  | zero => rfl
  | succ n ih =>
    have hwords : wordAt (after g 1) = wordAt g ∘ Nat.succ := by
      funext k
      rw [wordAt_after, Nat.add_comm]
      rfl
    change (wordAt g 0 :: ((seeds n).run (after g 1)).1, ((seeds n).run (after g 1)).2) = _
    rw [ih, List.range_succ_eq_map, List.map_cons, List.map_map, after_add, Nat.add_comm, hwords]

theorem seeds_length (n : Nat) (g : γ) : ((seeds n).run g).1.length = n :=
  replicate_length word64 n g

theorem seeds_after (n : Nat) (g : γ) (m : Nat) :
    ((seeds n).run (after g m)).1 = (List.range n).map fun k => wordAt g (m + k) := by
  rw [seeds_run]
  exact List.map_congr_left fun k _ => wordAt_after g m k

end Draw

variable {α γ : Type} [Scalar α]

namespace Evolution

def seededGeneration (c : Config α) (feasible : Vec α → Bool) (f : Vec α → α)
    (population : List (Member α)) (seeds : List UInt64) :
    Traced (Vec α) (List (Member α) × Nat) :=
  (fun trials => trials.foldl settle (population, 0)) <$>
    Traced.forEach (seededTrial c feasible f (population.map (·.point)))
      ((List.range population.length).zip seeds)

theorem settle_foldl_length (s : List (Member α) × Nat) (ts : List (Nat × Option (Member α))) :
    (ts.foldl settle s).1.length = s.1.length := by
  induction ts generalizing s with
  | nil => rfl
  | cons t ts ih =>
    obtain ⟨k, o⟩ := t
    rw [List.foldl_cons, ih]
    cases o with
    | none => rfl
    | some m => exact contest_length s.1 k m

variable [WordSource γ] {s : Evolution α}

theorem batchedGeneration_run (c : Config α) (feasible : Vec α → Bool) (f : Vec α → α)
    (ps : List (Member α)) (g : γ) :
    (batchedGeneration c feasible f ps).run g =
      (·, ((Draw.seeds ps.length).run g).2) <$>
        seededGeneration c feasible f ps ((Draw.seeds ps.length).run g).1 := by
  ext1
  · rfl
  · rw [Traced.calls_map, seededGeneration, Traced.calls_map]
    exact (List.append_nil _).trans (List.append_nil _)

def State.seeds (t : State α γ) : List UInt64 :=
  ((Draw.seeds t.population.length).run t.generator).1

/-- The generation made at a state is that of workers with its seeds. -/
def State.Delegates (s : Evolution α) (t : State α γ) : Prop :=
  let w := seededGeneration s.config s.feasible s.oriented t.population t.seeds
  ∀ u, (s.round t).value = .inl u → u.population = w.value.1 ∧ (s.round t).calls = w.calls

theorem generation_batched {c : Config α} (hb : c.update = .batched) (feasible : Vec α → Bool)
    (f : Vec α → α) (ps : List (Member α)) :
    (generation c feasible f ps : Sampled γ (Vec α) _) = batchedGeneration c feasible f ps := by
  rw [generation, hb]

variable (hb : s.config.update = .batched)

include hb

theorem round_batched {t u : State α γ} (h : (s.round t).value = .inl u) :
    u = t.next s ((seededGeneration s.config s.feasible s.oriented t.population t.seeds).value,
        ((Draw.seeds t.population.length).run t.generator).2) ∧
      (s.round t).calls =
        (seededGeneration s.config s.feasible s.oriented t.population t.seeds).calls := by
  obtain ⟨hu, hcalls, -⟩ := round_inl h
  rw [generation_batched hb, batchedGeneration_run] at hu hcalls
  exact ⟨hu, hcalls.trans (Traced.calls_map _ _)⟩

theorem delegates (t : State α γ) : t.Delegates s := by
  intro u hu
  obtain ⟨rfl, hcalls⟩ := round_batched hb hu
  exact ⟨rfl, hcalls⟩

theorem visits_stream {g : γ} {ts : List (State α γ)} {t : State α γ}
    (h : Visits s.round (s.initial g).value ts t) :
    t.population.length = s.population.length ∧
      t.generator = Draw.after g (ts.length * s.population.length) := by
  induction h with
  | refl =>
    rw [initial_eq, List.length_nil, Nat.zero_mul]
    exact ⟨List.length_map _, rfl⟩
  | @tail ts t u _ hu ih =>
    obtain ⟨hlength, hgenerator⟩ := ih
    obtain ⟨rfl, -⟩ := round_batched hb hu
    constructor
    · exact (settle_foldl_length _ _).trans hlength
    · change ((Draw.seeds t.population.length).run t.generator).2 = _
      rw [hlength, hgenerator, Draw.seeds_run, Draw.after_add, List.length_append,
        List.length_singleton, Nat.succ_mul]

theorem seeds_eq {g : γ} {ts : List (State α γ)} {t : State α γ}
    (h : Visits s.round (s.initial g).value ts t) :
    t.seeds = (List.range s.population.length).map
      fun k => Draw.wordAt g (ts.length * s.population.length + k) := by
  obtain ⟨hlength, hgenerator⟩ := visits_stream hb h
  rw [State.seeds, hlength, hgenerator, Draw.seeds_after]

end Evolution

namespace Swarm

def seededSweep (c : Config α) (box : Box α) (f : Vec α → α) (ps : List (Particle α))
    (best : Best α) (seeds : List UInt64) : Traced (Vec α) (List (Particle α) × Best α) :=
  (fun ps => (ps, ps.foldl Best.after best)) <$>
    Traced.forEach (advanceSeeded c box f best.position) (ps.zip seeds)

variable [WordSource γ] {s s' : Swarm α}

theorem batchedSweep_run (c : Config α) (box : Box α) (f : Vec α → α) (ps : List (Particle α))
    (best : Best α) (g : γ) :
    (batchedSweep c box f ps best).run g =
      (·, ((Draw.seeds ps.length).run g).2) <$>
        seededSweep c box f ps best ((Draw.seeds ps.length).run g).1 := by
  ext1
  · rfl
  · rw [Traced.calls_map, seededSweep, Traced.calls_map]
    exact (List.append_nil _).trans (List.append_nil _)

def State.seeds (t : State α γ) : List UInt64 :=
  ((Draw.seeds t.particles.length).run t.generator).1

def State.Delegates (s : Swarm α) (t : State α γ) : Prop :=
  let w := seededSweep s.config s.box s.ranked t.particles t.best t.seeds
  ∀ u, (s.round t).value = .inl u →
    u.particles = w.value.1 ∧ u.best = w.value.2 ∧ (s.round t).calls = w.calls

theorem sweep_batched {c : Config α} (hb : c.update = .batched) (box : Box α) (f : Vec α → α)
    (ps : List (Particle α)) (best : Best α) :
    (sweep c box f ps best : Sampled γ (Vec α) _) = batchedSweep c box f ps best := by
  rw [sweep, hb]

/-- Before the first sweep as many words are drawn for swarms of the same size in the same box, with
initial velocities of the same scale, when both draw their positions or neither does. -/
theorem Starts.generator_eq {g : γ} {start start' : Traced (Vec α) (State α γ)}
    (h : s.Starts g start) (h' : s'.Starts g start') (hsize : s.config.size = s'.config.size)
    (hbox : s.box = s'.box) (hscale : s.config.velocityScale = s'.config.velocityScale)
    (hgenerator : s.generator.isSome = s'.generator.isSome) :
    start.value.generator = start'.value.generator := by
  have hpositions : (s.positions.run g).2 = (s'.positions.run g).2 := by
    unfold positions
    cases hs : s.generator <;> cases hs' : s'.generator <;> rw [hs, hs'] at hgenerator
    · dsimp only
      rw [hsize, hbox]
    · cases hgenerator
    · cases hgenerator
    · rfl
  have hvelocities : (s.velocities : Draw γ _) = s'.velocities := by
    have hin : (s.velocityIn : Interval α → Draw γ _) = s'.velocityIn := by
      funext i
      rw [velocityIn, velocityIn, hscale]
    rw [velocities, velocities, hin, hsize, hbox]
  cases h with
  | intro hp hc hv =>
    cases h' with
    | intro hp' hc' hv' =>
      rw [hp, hp'] at hpositions
      obtain rfl := hpositions
      rw [hvelocities, hv'] at hv
      rw [initial_eq, initial_eq]
      exact (congrArg Prod.snd hv).symm

theorem Starts.particles_length {g : γ} {start : Traced (Vec α) (State α γ)}
    (h : s.Starts g start) : start.value.particles.length = s.config.size := by
  cases h with
  | @intro positions velocities g' g'' hp hc hv =>
    have hpositions := (checkPositions_length hc).1
    have hvelocities := (velocities_length (congrArg Prod.fst hv)).1
    rw [initial_eq]
    simp [Swarm.start, hpositions, hvelocities]

section

variable (hb : s.config.update = .batched)

include hb

theorem round_batched {t u : State α γ} (h : (s.round t).value = .inl u) :
    u = t.next s
        ((seededSweep s.config s.box s.ranked t.particles t.best t.seeds).value,
          ((Draw.seeds t.particles.length).run t.generator).2) ∧
      (s.round t).calls =
        (seededSweep s.config s.box s.ranked t.particles t.best t.seeds).calls := by
  obtain ⟨hu, hcalls⟩ := round_inl h
  rw [sweep_batched hb, batchedSweep_run] at hu hcalls
  exact ⟨hu, hcalls.trans (Traced.calls_map _ _)⟩

theorem delegates (t : State α γ) : t.Delegates s := by
  intro u hu
  obtain ⟨rfl, hcalls⟩ := round_batched hb hu
  exact ⟨rfl, rfl, hcalls⟩

theorem Starts.visits_stream {g : γ} {start : Traced (Vec α) (State α γ)} (hs : s.Starts g start)
    {ts : List (State α γ)} {t : State α γ} (h : Visits s.round start.value ts t) :
    t.particles.length = s.config.size ∧
      t.generator = Draw.after start.value.generator (ts.length * s.config.size) := by
  induction h with
  | refl =>
    rw [List.length_nil, Nat.zero_mul]
    exact ⟨hs.particles_length, rfl⟩
  | @tail ts t u _ hu ih =>
    obtain ⟨hlength, hgenerator⟩ := ih
    obtain ⟨rfl, -⟩ := round_batched hb hu
    constructor
    · change (Traced.forEach _ (t.particles.zip t.seeds)).value.length = _
      rw [Traced.value_forEach, List.length_map, List.length_zip, State.seeds, Draw.seeds_length,
        Nat.min_self, hlength]
    · change ((Draw.seeds t.particles.length).run t.generator).2 = _
      rw [hlength, hgenerator, Draw.seeds_run, Draw.after_add, List.length_append,
        List.length_singleton, Nat.succ_mul]

theorem Starts.seeds_eq {g : γ} {start : Traced (Vec α) (State α γ)} (hs : s.Starts g start)
    {ts : List (State α γ)} {t : State α γ} (h : Visits s.round start.value ts t) :
    t.seeds = (List.range s.config.size).map
      fun k => Draw.wordAt start.value.generator (ts.length * s.config.size + k) := by
  obtain ⟨hlength, hgenerator⟩ := hs.visits_stream hb h
  rw [State.seeds, hlength, hgenerator, Draw.seeds_after]

end

end Swarm

/-- Two batched runs of the same size from one generator, of differential evolution or of swarms
that draw alike before they start: in a generation that both come to, all workers have the same
seeds in both runs, whatever the functions, the feasible points and the members are. Worker `k` of
the generation after `t` others, among `n` workers, has the word at the place `t * n + k` of the
stream that follows the start, and its generation is made of nothing but workers with these
seeds. -/
theorem workers_isolated [WordSource γ] :
    (∀ s s' : Evolution α, s.config.update = .batched → s'.config.update = .batched →
      s'.population.length = s.population.length → ∀ (g : γ) ts t ts' t',
      Visits s.round (s.initial g).value ts t → Visits s'.round (s'.initial g).value ts' t' →
      ts'.length = ts.length →
        t.Delegates s ∧ t'.Delegates s' ∧ t'.seeds = t.seeds ∧
        t.seeds = (List.range s.population.length).map
          fun k => Draw.wordAt g (ts.length * s.population.length + k)) ∧
    ∀ s s' : Swarm α, s.config.update = .batched → s'.config.update = .batched →
      s'.config.size = s.config.size → s'.box = s.box →
      s'.config.velocityScale = s.config.velocityScale →
      s'.generator.isSome = s.generator.isSome → ∀ (g : γ) start ts t start' ts' t',
      s.Starts g start → s'.Starts g start' →
      Visits s.round start.value ts t → Visits s'.round start'.value ts' t' →
      ts'.length = ts.length →
        t.Delegates s ∧ t'.Delegates s' ∧ t'.seeds = t.seeds ∧
        t.seeds = (List.range s.config.size).map
          fun k => Draw.wordAt start.value.generator (ts.length * s.config.size + k) := by
  constructor
  · intro s s' hb hb' hsize g ts t ts' t' h h' hlength
    have hseeds := Evolution.seeds_eq hb h
    have hseeds' := Evolution.seeds_eq hb' h'
    rw [hsize, hlength, ← hseeds] at hseeds'
    exact ⟨Evolution.delegates hb t, Evolution.delegates hb' t', hseeds', hseeds⟩
  · intro s s' hb hb' hsize hbox hscale hgenerator g start ts t start' ts' t' hs hs' h h' hlength
    have hseeds := hs.seeds_eq hb h
    have hseeds' := hs'.seeds_eq hb' h'
    rw [hs'.generator_eq hs hsize hbox hscale hgenerator, hsize, hlength, ← hseeds] at hseeds'
    exact ⟨Swarm.delegates hb t, Swarm.delegates hb' t', hseeds', hseeds⟩

omit [Scalar α] in
theorem Run.exists_visits {ι χ σ : Type} {step : σ → Traced ι (σ ⊕ Report α χ)} {t : Traced ι σ}
    (h : (Run.ofIteration (t >>= Traced.iterate step 1)).value = .error .unfinished) :
    ∃ u, Visits step t.value [t.value] u := by
  cases hs : (step t.value).value with
  | inl u => exact ⟨u, .tail .refl hs⟩
  | inr r =>
    rw [Run.ofIteration, Traced.value_bind, Traced.iterate_succ_inr hs] at h
    cases h

theorem Evolution.exists_visits [WordSource γ] {s : Evolution α} {g : γ}
    (hm : s.config.maxResamples ≠ none) (h : (s.runWithin 1 g).value = .error .unfinished) :
    ∃ t, Visits s.round (s.initial g).value [(s.initial g).value] t := by
  cases hs : (s.round (s.initial g).value).value with
  | inl u => exact ⟨u, .tail .refl hs⟩
  | inr o =>
    cases o with
    | none => exact absurd (round_stuck hs).1 hm
    | some r =>
      rw [runWithin, trace_eq, Run.ofIteration, Traced.value_map, Traced.value_bind,
        Traced.iterate_succ_inr hs] at h
      cases h

theorem Swarm.exists_visits [WordSource γ] {s : Swarm α} {g : γ}
    (h : (s.runWithin 1 g).value = .error .unfinished) (hcalls : (s.runWithin 1 g).calls ≠ []) :
    ∃ start t, s.Starts g start ∧ Visits s.round start.value [start.value] t := by
  obtain ⟨e, he⟩ | ⟨start, hstart, hrun⟩ := s.runWithin_starts 1 g
  · rw [he] at hcalls
    exact absurd rfl hcalls
  · rw [hrun] at h
    obtain ⟨t, ht⟩ := Run.exists_visits h
    exact ⟨start, t, hstart, ht⟩

def batchedBrood : Evolution Float :=
  { Evolution.brood with config := { Evolution.brood.config with update := .batched } }

def litter : Evolution Float where
  objective := .ofValue fun x => x.getD 0 0 + x.getD 1 0
  population := [[0, 0], [0, 1], [1, 0], [1, 1], [2, 2]]
  feasible x := [[0, 0], [0, 1], [1, 0], [1, 1], [2, 2]].contains x
  config := { batchedBrood.config with weight := 0.5, maxResamples := some 2 }

theorem broods_go_on : (batchedBrood.runWithin 1 (ChaCha.ofSeed 5)).value = .error .unfinished ∧
    (litter.runWithin 1 (ChaCha.ofSeed 5)).value = .error .unfinished := by
  constructor <;> decide +kernel

def flock : Swarm Float where
  objective := .ofValue fun x => x.getD 0 0 * x.getD 0 0
  box := [⟨-1, 1⟩]
  config := { Swarm.Config.standard with size := 2, update := .batched }

def gang : Swarm Float where
  objective := .ofValue fun x => x.getD 0 0
  box := [⟨-1, 1⟩]
  config := { Swarm.Config.standard with
    goal := .maximize, size := 2, update := .batched, inertia := 0.5 }

theorem flocks_go_on : (flock.runWithin 1 (ChaCha.ofSeed 5)).value = .error .unfinished ∧
    (flock.runWithin 1 (ChaCha.ofSeed 5)).calls ≠ [] ∧
    (gang.runWithin 1 (ChaCha.ofSeed 5)).value = .error .unfinished ∧
    (gang.runWithin 1 (ChaCha.ofSeed 5)).calls ≠ [] := by
  refine ⟨?_, ?_, ?_, ?_⟩ <;> decide +kernel

theorem second_workers_isolated :
    (∃ t t', Visits batchedBrood.round (batchedBrood.initial (ChaCha.ofSeed 5)).value
        [(batchedBrood.initial (ChaCha.ofSeed 5)).value] t ∧
      Visits litter.round (litter.initial (ChaCha.ofSeed 5)).value
        [(litter.initial (ChaCha.ofSeed 5)).value] t' ∧ t'.seeds = t.seeds ∧
      t.seeds = (List.range 5).map fun k => Draw.wordAt (ChaCha.ofSeed 5) (1 * 5 + k)) ∧
    ∃ start t start' t', flock.Starts (ChaCha.ofSeed 5) start ∧
      gang.Starts (ChaCha.ofSeed 5) start' ∧ Visits flock.round start.value [start.value] t ∧
      Visits gang.round start'.value [start'.value] t' ∧ t'.seeds = t.seeds ∧
      t.seeds = (List.range 2).map fun k => Draw.wordAt start.value.generator (1 * 2 + k) := by
  obtain ⟨hevolution, hswarm⟩ := workers_isolated (α := Float) (γ := ChaCha)
  constructor
  · obtain ⟨t, ht⟩ := Evolution.exists_visits (by decide) broods_go_on.1
    obtain ⟨t', ht'⟩ := Evolution.exists_visits (by decide) broods_go_on.2
    obtain ⟨-, -, hsame, hseeds⟩ := hevolution batchedBrood litter rfl rfl (by decide)
      (ChaCha.ofSeed 5) _ t _ t' ht ht' (by simp only [List.length_singleton])
    have hsize : batchedBrood.population.length = 5 := rfl
    rw [hsize, List.length_singleton] at hseeds
    exact ⟨t, t', ht, ht', hsame, hseeds⟩
  · obtain ⟨hvalue, hcalls, hvalue', hcalls'⟩ := flocks_go_on
    obtain ⟨start, t, hs, ht⟩ := Swarm.exists_visits hvalue hcalls
    obtain ⟨start', t', hs', ht'⟩ := Swarm.exists_visits hvalue' hcalls'
    obtain ⟨-, -, hsame, hseeds⟩ := hswarm flock gang rfl rfl rfl rfl rfl rfl (ChaCha.ofSeed 5)
      start _ t start' _ t' hs hs' ht ht' (by simp only [List.length_singleton])
    have hsize : flock.config.size = 2 := rfl
    rw [hsize, List.length_singleton] at hseeds
    exact ⟨start, t, start', t', hs, hs', ht, ht', hsame, hseeds⟩

end Optima
