import Optima.Proofs.Cap.Swarm
import Optima.Proofs.Stopping.Standstill

namespace Optima

open Scalar (Equated Lawful)

variable {α : Type} [Scalar α]

namespace Swarm

variable {γ : Type} [WordSource γ]

theorem Best.after_falls (b : Best α) (p : Particle α) : Falls b.value (b.after p).value := by
  unfold after
  split
  · next h => exact .inr h
  · exact .refl _

theorem foldl_after_falls [Lawful α] (ps : List (Particle α)) (b : Best α) :
    Falls b.value (ps.foldl Best.after b).value := by
  induction ps generalizing b with
  | nil => exact .refl _
  | cons p ps ih => exact (b.after_falls p).trans (ih (b.after p))

variable (c : Config α) (box : Box α) (f : Vec α → α)

theorem sequentialSweep_falls [Lawful α] (ps : List (Particle α)) (b : Best α) (g : γ) :
    Falls b.value ((sequentialSweep c box f ps b).run g).value.1.2.value := by
  induction ps generalizing b g with
  | nil => exact .refl _
  | cons p ps ih => exact (b.after_falls _).trans (ih _ _)

theorem sweep_falls [Lawful α] (ps : List (Particle α)) (b : Best α) (g : γ) :
    Falls b.value ((sweep c box f ps b).run g).value.1.2.value := by
  unfold sweep
  split
  · exact sequentialSweep_falls c box f ps b g
  · exact foldl_after_falls _ b

variable (s : Swarm α)

def State.after (t : State α γ) : Nat → State α γ
  | 0 => t
  | k + 1 =>
    let u := t.after k
    u.next s ((sweep s.config s.box s.ranked u.particles u.best).run u.generator).value

def State.bestAfter (t : State α γ) (k : Nat) : α := (t.after s k).best.value

variable {s}

theorem State.bestAfter_falls [Lawful α] (t : State α γ) (k : Nat) :
    Falls (t.bestAfter s k) (t.bestAfter s (k + 1)) :=
  sweep_falls s.config s.box s.ranked _ _ _

structure State.Unswept (t : State α γ) : Prop where
  iteration : t.iteration = 0
  values : t.values = [t.best.value]
  log : t.log = []

theorem Starts.unswept {g : γ} {start : Traced (Vec α) (State α γ)} (h : s.Starts g start) :
    start.value.Unswept := by
  cases h with
  | intro hp hc hv =>
    rw [initial_eq]
    exact ⟨rfl, rfl, rfl⟩

theorem State.Unswept.after {t : State α γ} (ht : t.Unswept) (k : Nat) :
    (t.after s k).iteration = k ∧
      (t.after s k).values = ((List.range (k + 1)).map (t.bestAfter s)).reverse ∧
      (t.after s k).log.reverse =
        (List.range k).map fun i => ⟨i + 1, s.config.goal.orient (t.bestAfter s (i + 1))⟩ := by
  induction k with
  | zero => exact ⟨ht.iteration, ht.values, by rw [State.after, ht.log]; rfl⟩
  | succ k ih =>
    obtain ⟨hiteration, hvalues, hlog⟩ := ih
    refine ⟨congrArg Nat.succ hiteration, ?_, ?_⟩
    · rw [List.range_succ, List.map_append, List.reverse_append, ← hvalues]
      rfl
    · rw [List.range_succ, List.map_append, ← hlog, State.after, State.next, List.reverse_cons,
        hiteration]
      rfl

theorem value_round (t : State α γ) : (s.round t).value =
    ((s.config.stopping.verdict t.iteration t.values none).map (t.finish s)).elim
      (.inl (t.after s 1)) .inr := by
  unfold round
  dsimp only
  split
  · next h =>
    rw [h]
    rfl
  · next h =>
    rw [h]
    rfl

omit [WordSource γ] in
theorem check_stopping (hs : s.check = .ok ()) : s.config.stopping.check = .ok () := by
  rw [check, bind_eq_ok] at hs
  obtain ⟨_, hconfig, -⟩ := hs
  simp only [Config.check, demand_bind_eq_ok, Requirement.check_bind_eq_ok] at hconfig
  exact hconfig.2.2.2.2.2

theorem Starts.runWithin_eq {g : γ} {start : Traced (Vec α) (State α γ)} (h : s.Starts g start)
    (n : Nat) : s.runWithin n g = .ofIteration (start >>= Traced.iterate s.round n) := by
  cases h with
  | intro hp hc hv =>
    rw [runWithin, hp]
    dsimp only
    rw [hc, Run.accepting_ok, hv]
    rfl

section

variable [Equated α] {window : Nat} (hw : window ≠ 0)
  (htol : s.config.stopping.valueTolerance = none) (hc : s.config.stopping.plateau = some window)

include hw htol hc

theorem State.Unswept.value_round {t : State α γ} (ht : t.Unswept) (k : Nat) :
    (s.round (t.after s k)).value =
      ((s.config.stopping.standstill window (t.bestAfter s) k).map ((t.after s k).finish s)).elim
        (.inl (t.after s (k + 1))) .inr := by
  obtain ⟨hiteration, hvalues, -⟩ := ht.after k (s := s)
  rw [Swarm.value_round, hiteration, hvalues,
    ← Stopping.classify_history htol hc hw t.bestAfter_falls]
  rfl

theorem value_runWithin {g : γ} {start : Traced (Vec α) (State α γ)} (h : s.Starts g start)
    (n : Nat) (r : Report α (Vec α)) :
    (s.runWithin n g).value = .ok r ↔ ∃ t < n, ∃ status,
      s.config.stopping.standstill window (start.value.bestAfter s) t = some status ∧
      (∀ k < t, s.config.stopping.standstill window (start.value.bestAfter s) k = none) ∧
      r = (start.value.after s t).finish s status := by
  have hiterate := Traced.iterate_eq_findSome? (h.unswept.value_round hw htol hc) n 0
  rw [h.runWithin_eq, Run.ofIteration_ok, Traced.value_bind]
  change (Traced.iterate s.round n (start.value.after s 0)).value = some r ↔ _
  rw [hiterate, ← List.range_eq_range', findSome?_range_eq_some_iff]
  refine exists_congr fun t => and_congr_right fun _ => ?_
  simp only [Option.map_eq_some_iff, Option.map_eq_none_iff]
  constructor
  · rintro ⟨⟨status, hstatus, rfl⟩, hnone⟩
    exact ⟨status, hstatus, hnone, rfl⟩
  · rintro ⟨status, hstatus, hnone, rfl⟩
    exact ⟨⟨status, hstatus, rfl⟩, hnone⟩

end

/-- Whatever the function, the order of update and the random words are, a swarm with a window and
no tolerance ends after the first sweep with a standstill: a best value that is not finite, else
one equal to that of a window before, else the cap. So it is never found stationary within a window
of sweeps after an improvement. The log has the best values. -/
theorem ends_at_standstill [Equated α] (hs : s.check = .ok ())
    (htol : s.config.stopping.valueTolerance = none) {window : Nat}
    (hc : s.config.stopping.plateau = some window) {g : γ} {start : Traced (Vec α) (State α γ)}
    (h : s.Starts g start) (n : Nat) :
    let best := start.value.bestAfter s
    (∀ r, (s.runWithin n g).value = .ok r ↔ ∃ t < n, ∃ status,
      s.config.stopping.standstill window best t = some status ∧
      (∀ k < t, s.config.stopping.standstill window best k = none) ∧
      r = (start.value.after s t).finish s status) ∧
    ∀ r, (s.runWithin n g).value = .ok r →
      r.value = s.config.goal.orient (best r.iterations) ∧
      r.convergence = (List.range r.iterations).map
        (fun k => ⟨k + 1, s.config.goal.orient (best (k + 1))⟩) ∧
      (r.status = .stationaryFunction → ∀ k < r.iterations, best (k + 1) < best k →
        k + 1 + window ≤ r.iterations) := by
  have hw : window ≠ 0 := fun h0 => Stopping.plateau_ne_zero (check_stopping hs) (h0 ▸ hc)
  have hends := value_runWithin hw htol hc h n
  refine ⟨hends, ?_⟩
  intro r hr
  obtain ⟨t, -, status, hstatus, -, rfl⟩ := (hends r).1 hr
  obtain ⟨hiteration, -, hlog⟩ := h.unswept.after t (s := s)
  have hiterations : ((start.value.after s t).finish s status).iterations = t := hiteration
  rw [hiterations]
  refine ⟨rfl, hlog, ?_⟩
  rintro rfl k hk hlt
  exact Stopping.le_of_standstill start.value.bestAfter_falls hstatus hk hlt

def stair : Swarm Float where
  objective := .ofValue fun x =>
    if x.getD 0 0 < 0.25 then (if -0.25 < x.getD 0 0 then 0 else 1) else 2
  box := [⟨-1, 1⟩]
  config := { Config.standard with
    size := 2, update := .batched, stopping := ⟨some 12, some 2, none, none⟩ }
  generator := some fun _ => [[-1], [1]]

theorem stair_run : stair.run.value =
    .ok ⟨[0.10964500786314713], 0, .stationaryFunction, 4, 10,
      [⟨1, 1⟩, ⟨2, 0⟩, ⟨3, 0⟩, ⟨4, 0⟩]⟩ := by
  decide +kernel

theorem stair_ends : stair.check = .ok () ∧ stair.config.stopping.valueTolerance = none ∧
    stair.config.stopping.plateau = some 2 ∧
    ∃ start, stair.Starts (ChaCha.ofSeed 42) start ∧
      stair.config.stopping.standstill 2 (start.value.bestAfter stair) 4 =
        some .stationaryFunction ∧
      ∀ k < 4, stair.config.stopping.standstill 2 (start.value.bestAfter stair) k = none := by
  have hs : stair.check = .ok () := by decide +kernel
  obtain ⟨e, he⟩ | ⟨start, hstart, -⟩ :=
    stair.runWithin_starts stair.config.stopping.budget (ChaCha.ofSeed 42)
  · have hr := stair_run
    rw [show stair.run = _ from he] at hr
    cases hr
  · obtain ⟨hends, -⟩ := ends_at_standstill hs rfl rfl hstart stair.config.stopping.budget
    obtain ⟨t, -, status, hstatus, hnone, hr⟩ := (hends _).1 stair_run
    have ht : t = 4 :=
      (hstart.unswept.after t (s := stair)).1.symm.trans (congrArg (·.iterations) hr).symm
    have hstationary : status = .stationaryFunction := (congrArg (·.status) hr).symm
    subst ht hstationary
    exact ⟨hs, rfl, rfl, start, hstart, hstatus, hnone⟩

end Swarm

end Optima
