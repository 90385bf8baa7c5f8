import Optima.Proofs.Iteration
import Optima.Proofs.Scalar.Binary64
import Optima.Proofs.Swarm.Best

namespace Optima.Swarm

open Scalar (Lawful)
open Traced (Visits callsAt)

variable {α γ : Type} [Scalar α] {s : Swarm α}

theorem check_box (hs : s.check = .ok ()) : s.box.check = .ok () := by
  rw [check, bind_eq_ok] at hs
  obtain ⟨_, -, hbox⟩ := hs
  exact hbox

theorem check_size (hs : s.check = .ok ()) : 0 < s.config.size := by
  rw [check, bind_eq_ok] at hs
  obtain ⟨_, hconfig, -⟩ := hs
  rw [Config.check, demand_bind_eq_ok, decide_eq_true_iff] at hconfig
  exact Nat.lt_of_lt_of_le Nat.zero_lt_two hconfig.1

omit [Scalar α] in
theorem checkPositions_length {xs : List (Vec α)} (h : s.checkPositions xs = .ok ()) :
    xs.length = s.config.size ∧ ∀ x ∈ xs, x.length = s.box.length := by
  rw [checkPositions, demand_bind_eq_ok, beq_iff_eq] at h
  obtain ⟨hlength, hfind⟩ := h
  refine ⟨hlength, ?_⟩
  split at hfind
  · cases hfind
  · next hnone => simpa using hnone

omit [Scalar α] in
theorem checkPositions_of_length {xs : List (Vec α)} (hl : xs.length = s.config.size)
    (hxs : ∀ x ∈ xs, x.length = s.box.length) : s.checkPositions xs = .ok () := by
  have hnone : xs.find? (fun x => x.length != s.box.length) = none := by simpa using hxs
  rw [checkPositions, demand_bind_eq_ok, hnone]
  exact ⟨beq_iff_eq.2 hl, rfl⟩

theorem initial_eq (s : Swarm α) (positions velocities : List (Vec α)) (g : γ) :
    s.initial positions velocities g =
      let ps := start s.ranked (positions.map s.box.clip) velocities
      ⟨⟨ps, bestOf ps, 0, s.config.size, [(bestOf ps).value], [], g⟩,
        positions.map s.box.clip⟩ := by
  ext1
  · simp only [initial, Traced.value_bind, Traced.value_forEach, Traced.value_call,
      Traced.value_pure, zipWith_start]
  · simp only [initial, Traced.calls_bind, Traced.calls_forEach, Traced.calls_call,
      Traced.calls_pure, List.append_nil, List.flatMap_singleton']

def positionsAt (ts : List (State α γ)) : List (Vec α) :=
  ts.flatMap fun t => t.particles.map (·.position)

structure State.Sound (s : Swarm α) (xs : List (Vec α)) (t : State α γ) : Prop where
  size : t.particles.length = s.config.size
  particles : ∀ p ∈ t.particles, p.Sound s.ranked s.box.length
  leads : t.best.Leads s.box s.ranked xs t.particles
  contains : ∀ x ∈ xs, s.box.Contains x
  count : xs.length = (t.iteration + 1) * s.config.size
  iterations : t.log.reverse.map (·.iteration) = List.range' 1 t.iteration
  log : ∀ e ∈ t.log, ∃ i x,
    FirstBest (fun x y => s.ranked x < s.ranked y)
      (xs.take ((e.iteration + 1) * s.config.size)) i x ∧
    e.value = s.config.goal.orient (s.ranked x)

theorem State.Sound.logged_le {t : State α γ} {xs : List (Vec α)} (ht : t.Sound s xs) {e : Entry α}
    (he : e ∈ t.log) : (e.iteration + 1) * s.config.size ≤ xs.length := by
  have hk : e.iteration ∈ List.range' 1 t.iteration := by
    rw [← ht.iterations]
    exact List.mem_map_of_mem (List.mem_reverse.2 he)
  have hle := (List.mem_range'_1.1 hk).2
  rw [ht.count]
  apply Nat.mul_le_mul_right
  omega

theorem State.Sound.initial [Lawful α] (hs : s.check = .ok ()) {positions velocities : List (Vec α)}
    (hp : s.checkPositions positions = .ok ()) (hv : velocities.length = s.config.size)
    (hvs : ∀ v ∈ velocities, v.length = s.box.length) (g : γ) :
    let t := s.initial positions velocities g
    t.value.Sound s t.calls ∧ t.calls = positionsAt [t.value] := by
  obtain ⟨hlength, hdim⟩ := checkPositions_length hp
  have hxs : ∀ x ∈ positions.map s.box.clip, x.length = s.box.length := by
    intro x hx
    obtain ⟨y, hy, rfl⟩ := List.mem_map.1 hx
    rw [Box.clip_length, hdim y hy]
  have hvl : velocities.length = (positions.map s.box.clip).length := by
    rw [List.length_map, hv, hlength]
  obtain ⟨hpos, hmem⟩ := start_spec (f := s.ranked) hvl
  rw [initial_eq]
  refine ⟨⟨?_, ?_, ?_, ?_, ?_, rfl, by simp⟩, ?_⟩
  · simpa [hlength] using congrArg List.length hpos
  · intro p hp
    obtain ⟨hvel, he, hval⟩ := hmem p hp
    have hx : p.position.length = s.box.length := by
      apply hxs
      rw [← hpos]
      exact List.mem_map_of_mem hp
    exact ⟨hx, hvs _ hvel, by rw [he, hx], hval⟩
  · refine bestOf_start_leads (fun _ => Lawful.isNaN_ranked _) ?_ hxs hvl
    apply List.ne_nil_of_length_pos
    rw [List.length_map, hlength]
    exact check_size hs
  · intro x hx
    obtain ⟨y, hy, rfl⟩ := List.mem_map.1 hx
    exact Box.contains_clip (fun i hi => Box.ordered (check_box hs) hi) (hdim y hy)
  · simp [hlength]
  · simp [positionsAt, hpos]

def State.next (s : Swarm α) (t : State α γ) : (List (Particle α) × Best α) × γ → State α γ
  | ((particles, best), generator) =>
    ⟨particles, best, t.iteration + 1, t.evaluations + s.config.size, best.value :: t.values,
      ⟨t.iteration + 1, s.config.goal.orient best.value⟩ :: t.log, generator⟩

variable [WordSource γ]

theorem velocities_length {vs : List (Vec α)} {g : γ} (h : (s.velocities.run g).1 = some vs) :
    vs.length = s.config.size ∧ ∀ v ∈ vs, v.length = s.box.length := by
  obtain ⟨hlength, hmem⟩ := Draw.whileSome_spec h
  refine ⟨by rw [hlength, List.length_range], ?_⟩
  intro v hv
  obtain ⟨_, _, _, hd⟩ := hmem v hv
  exact (Draw.whileSome_spec hd).1

/-- What a run may start from. -/
inductive Starts (s : Swarm α) (g : γ) : Traced (Vec α) (State α γ) → Prop
  | intro {positions velocities : List (Vec α)} {g' g'' : γ} :
      s.positions.run g = (some positions, g') → s.checkPositions positions = .ok () →
      s.velocities.run g' = (some velocities, g'') →
      Starts s g (s.initial positions velocities g'')

theorem runWithin_starts (s : Swarm α) (n : Nat) (g : γ) :
    (∃ e, s.runWithin n g = ⟨.error e, []⟩) ∨
      ∃ t, s.Starts g t ∧ s.runWithin n g = .ofIteration (t >>= Traced.iterate s.round n) := by
  unfold runWithin
  split
  · exact .inl ⟨_, rfl⟩
  · next positions g' hp =>
    cases hc : s.checkPositions positions with
    | error e => exact .inl ⟨_, rfl⟩
    | ok =>
      rw [Run.accepting_ok]
      split
      · exact .inl ⟨_, rfl⟩
      · next velocities g'' hv => exact .inr ⟨_, .intro hp hc hv, rfl⟩

theorem round_inl {t u : State α γ} (h : (s.round t).value = .inl u) :
    u = t.next s ((sweep s.config s.box s.ranked t.particles t.best).run t.generator).value ∧
      (s.round t).calls =
        ((sweep s.config s.box s.ranked t.particles t.best).run t.generator).calls := by
  unfold round at h ⊢
  dsimp only at h ⊢
  split at h
  · cases h
  · cases h
    exact ⟨rfl, List.append_nil _⟩

theorem round_inr {t : State α γ} {r : Report α (Vec α)} (h : (s.round t).value = .inr r) :
    (s.round t).calls = [] ∧ ∃ status, r = t.finish s status := by
  unfold round at h ⊢
  dsimp only at h ⊢
  split at h
  · next status _ =>
    cases h
    exact ⟨rfl, status, rfl⟩
  · cases h

variable [Lawful α]

theorem State.Sound.round (hbox : s.box.check = .ok ()) {t u : State α γ} {xs : List (Vec α)}
    (ht : t.Sound s xs) (h : (s.round t).value = .inl u) :
    u.Sound s (xs ++ (s.round t).calls) ∧ (s.round t).calls = positionsAt [u] := by
  have hswept := sweep_swept (c := s.config) (fun i hi => Box.ordered hbox hi) ht.particles
    ht.leads.length t.generator
  obtain ⟨rfl, hcalls⟩ := round_inl h
  rw [hcalls]
  generalize (sweep s.config s.box s.ranked t.particles t.best).run t.generator = w at hswept ⊢
  have hmoved := Particle.Moves.all hswept.moves
  have hleads := ht.leads.swept (fun _ => Lawful.isNaN_ranked _) hswept
  have hsize : w.value.1.1.length = s.config.size := by
    rw [← hswept.moves.length_eq, ht.size]
  have hcount : (xs ++ w.calls).length = (t.iteration + 2) * s.config.size := by
    rw [List.length_append, hswept.calls, List.length_map, ht.count, hsize, ← Nat.succ_mul]
  refine ⟨⟨hsize, fun q hq => (hmoved q hq).1, hleads, ?_, hcount, ?_, ?_⟩, ?_⟩
  · apply List.forall_mem_append.2 ⟨ht.contains, ?_⟩
    rw [hswept.calls]
    exact List.forall_mem_map.2 fun q hq => (hmoved q hq).2
  · simp only [State.next, List.reverse_cons, List.map_append, ht.iterations, List.map_cons,
      List.map_nil, List.range'_1_concat]
    rw [Nat.add_comm 1]
  · intro e he
    obtain rfl | he := List.mem_cons.1 he
    · -- the sweep is the last one so far
      obtain ⟨i, hi⟩ := hleads.first
      refine ⟨i, _, ?_, congrArg s.config.goal.orient hleads.value⟩
      rwa [List.take_of_length_le (Nat.le_of_eq hcount)]
    · obtain ⟨i, x, hx, hval⟩ := ht.log e he
      refine ⟨i, x, ?_, hval⟩
      rwa [List.take_append_of_le_length (ht.logged_le he)]
  · rw [hswept.calls]
    exact (List.append_nil _).symm

theorem Starts.visits (hs : s.check = .ok ()) {g : γ} {start : Traced (Vec α) (State α γ)}
    (h : s.Starts g start) {ts : List (State α γ)} {t : State α γ}
    (ht : Visits s.round start.value ts t) :
    start.calls ++ callsAt s.round ts = positionsAt (ts ++ [t]) ∧
      t.Sound s (positionsAt (ts ++ [t])) ∧
      ∀ u ∈ ts ++ [t], u.particles.length = s.config.size := by
  induction ht with
  | refl =>
    cases h with
    | @intro positions velocities g' g'' hp hc hv =>
      have hlen := velocities_length (congrArg Prod.fst hv)
      obtain ⟨hsound, hcalls⟩ := State.Sound.initial hs hc hlen.1 hlen.2 g''
      rw [Traced.callsAt_nil, List.append_nil, List.nil_append, ← hcalls]
      refine ⟨rfl, hsound, ?_⟩
      intro u hu
      rw [List.mem_singleton.1 hu]
      exact hsound.size
  | @tail ts t u _ hu ih =>
    obtain ⟨hcalls, hsound, hsize⟩ := ih
    obtain ⟨hnext, hround⟩ := hsound.round (check_box hs) hu
    have hpos : positionsAt (ts ++ [t] ++ [u]) = positionsAt (ts ++ [t]) ++ (s.round t).calls := by
      rw [hround]
      exact List.flatMap_append
    rw [hpos]
    refine ⟨?_, hnext, ?_⟩
    · rw [Traced.callsAt_concat, ← List.append_assoc, hcalls]
    · intro v hv
      obtain hv | hv := List.mem_append.1 hv
      · exact hsize v hv
      · rw [List.mem_singleton.1 hv]
        exact hnext.size

/-- No evaluation is lost, in either order of update and whatever the random words are: a run
evaluates its function in the box only, at the positions of its particles at the start and after
each sweep; its report has the earliest of the best of them, and its log the best after each
sweep. -/
theorem runWithin_firstBest {s : Swarm Float} (hs : s.check = .ok ()) (n : Nat) (g : γ) :
    (∀ x ∈ (s.runWithin n g).calls, s.box.Contains x) ∧
      ∀ r, (s.runWithin n g).value = .ok r →
        (∃ start ts t, s.Starts g start ∧ Visits s.round start.value ts t ∧
          (s.runWithin n g).calls = positionsAt (ts ++ [t]) ∧
          ∀ u ∈ ts ++ [t], u.particles.length = s.config.size) ∧
        (s.runWithin n g).calls.length = (r.iterations + 1) * s.config.size ∧
        (∃ i, FirstBest (fun x y => s.ranked x < s.ranked y) (s.runWithin n g).calls i r.result) ∧
        r.value = s.config.goal.orient (s.ranked r.result) ∧
        r.convergence.map (·.iteration) = List.range' 1 r.iterations ∧
        ∀ e ∈ r.convergence, ∃ i x,
          FirstBest (fun x y => s.ranked x < s.ranked y)
            ((s.runWithin n g).calls.take ((e.iteration + 1) * s.config.size)) i x ∧
          e.value = s.config.goal.orient (s.ranked x) := by
  obtain ⟨e, he⟩ | ⟨start, hstart, hrun⟩ := s.runWithin_starts n g
  · rw [he]
    exact ⟨by simp, by simp⟩
  rw [hrun]
  obtain ⟨ts, t, ht, ⟨r, hr, he⟩ | he⟩ := Traced.ofIteration_visits s.round n start
  · obtain ⟨hend, status, rfl⟩ := round_inr hr
    obtain ⟨hcalls, hsound, hsize⟩ := hstart.visits hs ht
    have hall : start.calls ++ callsAt s.round (ts ++ [t]) = positionsAt (ts ++ [t]) := by
      rw [Traced.callsAt_concat, hend, List.append_nil, hcalls]
    rw [he, hall]
    refine ⟨hsound.contains, ?_⟩
    intro r hr
    cases hr
    refine ⟨⟨start, ts, t, hstart, ht, rfl, hsize⟩, hsound.count, hsound.leads.first, ?_,
      hsound.iterations, ?_⟩
    · exact congrArg s.config.goal.orient hsound.leads.value
    · intro e he
      exact hsound.log e (List.mem_reverse.1 he)
  · obtain ⟨hcalls, hsound, -⟩ := hstart.visits hs ht
    rw [he, hcalls]
    refine ⟨hsound.contains, ?_⟩
    intro r hr
    cases hr

def pair : Swarm Float where
  objective := .ofValue fun x => Float.sqrt (x.getD 0 0)
  box := [⟨-4, 4⟩]
  config := { Config.standard with size := 2, stopping := .afterIterations 2 }
  generator := some fun _ => [[-4], [9]]

theorem pair_run : pair.run.value =
    .ok ⟨[0.7389260036023544], 0.8596080523135846, .iterationExceeded, 2, 6,
      [⟨1, 0.9400934116164782⟩, ⟨2, 0.8596080523135846⟩]⟩ := by
  decide +kernel

theorem pair_best :
    pair.check = .ok () ∧ (∀ x ∈ pair.run.calls, pair.box.Contains x) ∧
      (∃ i, FirstBest (fun x y => pair.ranked x < pair.ranked y) pair.run.calls i
        [0.7389260036023544]) ∧ pair.run.calls.length = 6 := by
  have hs : pair.check = .ok () := by decide +kernel
  obtain ⟨hc, hr⟩ := runWithin_firstBest hs pair.config.stopping.budget
    (ChaCha.ofSeed (UInt64.ofNat pair.config.seed))
  obtain ⟨-, hcount, hfirst, -⟩ := hr _ pair_run
  exact ⟨hs, hc, hfirst, hcount⟩

end Optima.Swarm
