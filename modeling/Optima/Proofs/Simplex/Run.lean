import Optima.Proofs.Iteration
import Optima.Proofs.Random.Draws
import Optima.Proofs.Ranking
import Optima.Proofs.Scalar.Binary64
import Optima.Proofs.Simplex.Step
import Optima.Simplex.Run

namespace Optima

open Scalar (Lawful isNaN)
open Traced (Visits callsAt)

variable {α : Type} [Scalar α]

theorem Simplex.exists_least [Lawful α] (s : Simplex α)
    (h : ∀ v ∈ s.vertices, isNaN v.value = false) :
    ∃ b ∈ s.vertices, b.value = least (s.vertices.map (·.value)) ∧
      ∀ v ∈ s.vertices, b.value ≤ v.value := by
  have hne : s.vertices.map (·.value) ≠ [] := List.cons_ne_nil _ _
  obtain ⟨hmem, hle⟩ := least_spec hne (List.forall_mem_map.2 h)
  obtain ⟨b, hb, he⟩ := List.mem_map.1 hmem
  refine ⟨b, hb, he, ?_⟩
  intro v hv
  rw [he]
  exact hle _ (List.mem_map_of_mem hv)

namespace SimplexSearch

open Simplex (Steps Stepped)

variable {s : SimplexSearch α}

/-- The runs of a search from the vertices `xs`, whatever these come from. -/
inductive Runs (s : SimplexSearch α) : List (Vec α) → Run α (Vec α) (Vec α) → Prop
  | start (n : Nat) (x : Vec α) : Runs s (s.axisPoints x) (s.runStartWithin n x)
  | points (n : Nat) (xs : List (Vec α)) : Runs s xs (s.runPointsWithin n xs)
  | generated (f : Nat → List (Vec α)) : Runs s (f (s.box.length + 1)) (s.runWith f)
  | random {γ : Type} [WordSource γ] (n : Nat) (g : γ) :
      Runs s (((Draw.points s.box (s.box.length + 1)).run g).1.getD []) (s.runRandomWithin n g)

theorem check_box (hs : s.check = .ok ()) : s.box.check = .ok () := by
  rw [check, bind_eq_ok] at hs
  obtain ⟨_, hbox, -⟩ := hs
  exact hbox

omit [Scalar α] in
theorem checkPoints_length {xs : List (Vec α)} (h : s.checkPoints xs = .ok ()) :
    xs.length = s.box.length + 1 ∧ ∀ x ∈ xs, x.length = s.box.length := by
  rw [checkPoints, demand_bind_eq_ok, beq_iff_eq] at h
  obtain ⟨hlength, hfind⟩ := h
  refine ⟨hlength, ?_⟩
  split at hfind
  · cases hfind
  · next hnone => simpa using hnone

theorem axisPoints_length {x : Vec α} (hx : x.length = s.box.length) :
    (s.axisPoints x).length = s.box.length + 1 ∧
      ∀ y ∈ s.axisPoints x, y.length = s.box.length := by
  refine ⟨by simp [axisPoints], ?_⟩
  refine List.forall_mem_cons.2 ⟨by rw [Box.clip_length, hx], ?_⟩
  intro y hy
  obtain ⟨p, -, rfl⟩ := List.mem_map.1 hy
  rw [List.length_modify, Box.clip_length, hx]

theorem runPointsWithin_starts (s : SimplexSearch α) (n : Nat) (xs : List (Vec α)) :
    (∃ e, s.runPointsWithin n xs = ⟨.error e, []⟩) ∨
      ∃ m, xs.length = s.box.length + 1 ∧ (∀ x ∈ xs, x.length = s.box.length) ∧
        s.runPointsWithin n xs = .ofIteration (s.trace m xs) := by
  unfold runPointsWithin
  cases hc : s.checkPoints xs with
  | error e => exact .inl ⟨_, rfl⟩
  | ok =>
    obtain ⟨hlength, hdim⟩ := checkPoints_length hc
    exact .inr ⟨n, hlength, hdim, rfl⟩

theorem Runs.starts {xs : List (Vec α)} {run : Run α (Vec α) (Vec α)} (h : s.Runs xs run) :
    (∃ e, run = ⟨.error e, []⟩) ∨
      ∃ n, xs.length = s.box.length + 1 ∧ (∀ x ∈ xs, x.length = s.box.length) ∧
        run = .ofIteration (s.trace n xs) := by
  cases h with
  | start n x =>
    unfold runStartWithin
    dsimp only
    cases hc : demand (x.length == s.box.length)
      (.startDimension s.box.length x.length : Error α) with
    | error e => exact .inl ⟨_, rfl⟩
    | ok =>
      rw [demand_eq_ok, beq_iff_eq] at hc
      obtain ⟨hlength, hdim⟩ := axisPoints_length hc
      exact .inr ⟨n, hlength, hdim, rfl⟩
  | points n xs => exact s.runPointsWithin_starts n xs
  | generated f => exact s.runPointsWithin_starts _ _
  | random n g =>
    unfold runRandomWithin
    split
    · next xs hxs =>
      obtain ⟨hlength, hdim⟩ := Draw.points_length hxs
      rw [hxs]
      exact .inr ⟨n, hlength, hdim, rfl⟩
    · exact .inl ⟨_, rfl⟩

theorem initial_eq (s : SimplexSearch α) (xs : List (Vec α)) :
    s.initial xs =
      let vs := xs.map fun x => (⟨s.box.clip x, s.ranked (s.box.clip x)⟩ : Vertex α)
      ⟨(Simplex.ofList? vs).map fun simplex => ⟨simplex, 0, vs.length, []⟩, vs.map (·.point)⟩ := by
  ext1
  · simp only [initial, Traced.value_bind, Traced.value_forEach, Traced.value_pure]
    rfl
  · simp only [initial, Traced.calls_bind, Traced.calls_forEach, Traced.calls_pure,
      List.append_nil, List.map_map]
    exact List.map_eq_flatMap.symm

theorem initial_some (s : SimplexSearch α) {xs : List (Vec α)} (hxs : 2 ≤ xs.length) :
    ∃ simplex : Simplex α,
      simplex.vertices = xs.map (fun x => ⟨s.box.clip x, s.ranked (s.box.clip x)⟩) ∧
        s.initial xs = ⟨some ⟨simplex, 0, xs.length, []⟩, simplex.vertices.map (·.point)⟩ := by
  match xs, hxs with
  | x :: y :: xs, _ =>
    obtain ⟨simplex, hs, hv⟩ := Simplex.ofList?_vertices
      (⟨s.box.clip x, s.ranked (s.box.clip x)⟩ : Vertex α) ⟨s.box.clip y, s.ranked (s.box.clip y)⟩
      (xs.map fun x => ⟨s.box.clip x, s.ranked (s.box.clip x)⟩)
    refine ⟨simplex, hv, ?_⟩
    rw [initial_eq, hv]
    simp only [List.map_cons, hs, Option.map_some, List.length_cons, List.length_map]

theorem trace_eq (s : SimplexSearch α) (n : Nat) {xs : List (Vec α)} (hxs : 2 ≤ xs.length) :
    ∃ t : State α,
      t.simplex.vertices = xs.map (fun x => ⟨s.box.clip x, s.ranked (s.box.clip x)⟩) ∧
        t.log = [] ∧
        s.trace n xs = (⟨t, t.simplex.vertices.map (·.point)⟩ : Traced (Vec α) (State α)) >>=
          Traced.iterate s.round n := by
  obtain ⟨simplex, hv, hi⟩ := s.initial_some hxs
  refine ⟨⟨simplex, 0, xs.length, []⟩, hv, rfl, ?_⟩
  rw [trace, hi]
  rfl

def center (s : SimplexSearch α) (t : State α) : Vec α :=
  Vec.centroid s.box.length (t.simplex.sort.base.map (·.point))

def candidates (s : SimplexSearch α) (t : State α) : List (Vec α) :=
  (Simplex.step s.config s.box s.ranked t.simplex.sort (s.center t)).calls

theorem call_bind {β : Type} (x : Vec α) (k : α → Traced (Vec α) β) :
    Traced.call s.ranked x >>= k = ⟨(k (s.ranked x)).value, x :: (k (s.ranked x)).calls⟩ := rfl

theorem round_inl {t u : State α} (h : (s.round t).value = .inl u) :
    (s.round t).calls = s.center t :: s.candidates t ∧
      u.simplex = (Simplex.step s.config s.box s.ranked t.simplex.sort (s.center t)).value.1 ∧
      u.log = ⟨t.iteration + 1, s.config.goal.orient
        (least (u.simplex.vertices.map (·.value)))⟩ :: t.log := by
  unfold round at h ⊢
  dsimp only at h ⊢
  split at h
  · next hf =>
    rw [call_bind] at h
    rw [if_pos hf, call_bind]
    dsimp only at h ⊢
    split at h
    · cases h
    · next hn =>
      rw [if_neg hn]
      split at h
      · cases h
      · next hc =>
        rw [if_neg hc]
        cases h
        exact ⟨congrArg (s.center t :: ·) (List.append_nil _), rfl, rfl⟩
  · cases h

theorem round_inr {t : State α} {r : Report α (Vec α)} (h : (s.round t).value = .inr r) :
    r.result = t.simplex.sort.best.point ∧
      r.value = s.config.goal.orient t.simplex.sort.best.value ∧
      r.convergence = t.log.reverse := by
  unfold round at h
  dsimp only at h
  split at h
  · rw [call_bind] at h
    dsimp only at h
    split at h
    · cases h
      exact ⟨rfl, rfl, rfl⟩
    · split at h
      · cases h
        exact ⟨rfl, rfl, rfl⟩
      · cases h
  · cases h
    exact ⟨rfl, rfl, rfl⟩

/-- A state of a run that has evaluated the vertices `xs`. -/
structure State.Sound (s : SimplexSearch α) (xs : List (Vec α)) (t : State α) : Prop where
  vertices : ∀ v ∈ t.simplex.vertices, v.Sound s.box s.ranked
  held : ∀ v ∈ t.simplex.vertices, v.point ∈ xs
  least : ∀ x ∈ xs, ∃ v ∈ t.simplex.vertices, v.value ≤ s.ranked x
  recorded : ∀ e ∈ t.log, ∃ v ∈ t.simplex.vertices, v.value ≤ s.config.goal.orient e.value
  log : (t.log.map fun e => s.config.goal.orient e.value).Pairwise (· ≤ ·)

variable [Lawful α]

theorem State.Sound.notNaN {t : State α} {xs : List (Vec α)} (ht : t.Sound s xs) :
    ∀ v ∈ t.simplex.vertices, isNaN v.value = false := by
  intro v hv
  rw [(ht.vertices v hv).value]
  exact Lawful.isNaN_ranked _

theorem State.Sound.sort {t : State α} {xs : List (Vec α)} (ht : t.Sound s xs) :
    t.simplex.sort.Sorted ∧ t.simplex.sort.vertices.Perm t.simplex.vertices :=
  Simplex.sort_spec ht.notNaN

theorem State.Sound.stepped (hbox : s.box.check = .ok ()) {t u : State α} {xs : List (Vec α)}
    (ht : t.Sound s xs) (h : (s.round t).value = .inl u) :
    Stepped s.config s.box s.ranked t.simplex.sort (s.candidates t) u.simplex := by
  obtain ⟨hsorted, hperm⟩ := ht.sort
  have hsound : ∀ v ∈ t.simplex.sort.vertices, v.Sound s.box s.ranked := by
    intro v hv
    exact ht.vertices v (hperm.mem_iff.1 hv)
  rw [(round_inl h).2.1]
  refine Simplex.step_stepped (fun i hi => Box.ordered hbox hi) (fun _ => Lawful.isNaN_ranked _)
    hsorted hsound (Vec.centroid_length ?_)
  intro x hx
  obtain ⟨v, hv, rfl⟩ := List.mem_map.1 hx
  exact (hsound v (List.mem_append_left [t.simplex.sort.worst] hv)).contains.length

theorem State.Sound.round (hbox : s.box.check = .ok ()) {t u : State α} {xs : List (Vec α)}
    (ht : t.Sound s xs) (h : (s.round t).value = .inl u) : u.Sound s (xs ++ s.candidates t) := by
  obtain ⟨-, hperm⟩ := ht.sort
  have hstep := ht.stepped hbox h
  have hkept : ∀ v ∈ t.simplex.vertices, ∃ w ∈ u.simplex.vertices, w.value ≤ v.value := by
    intro v hv
    exact hstep.kept v (hperm.mem_iff.2 hv)
  have hnan : ∀ v ∈ u.simplex.vertices, isNaN v.value = false := by
    intro v hv
    rw [(hstep.sound v hv).value]
    exact Lawful.isNaN_ranked _
  obtain ⟨b, hb, hbl, hbest⟩ := u.simplex.exists_least hnan
  have hold : ∀ e ∈ t.log, b.value ≤ s.config.goal.orient e.value := by
    intro e he
    obtain ⟨v, hv, hle⟩ := ht.recorded e he
    obtain ⟨w, hw, hwv⟩ := hkept v hv
    exact Lawful.le_trans (hbest w hw) (Lawful.le_trans hwv hle)
  have hlog : u.log = ⟨t.iteration + 1, s.config.goal.orient b.value⟩ :: t.log := by
    rw [(round_inl h).2.2, hbl]
  refine ⟨hstep.sound, ?_, ?_, ?_, ?_⟩
  · intro w hw
    obtain hw | hw := hstep.origin w hw
    · exact List.mem_append_left _ (ht.held w (hperm.mem_iff.1 hw))
    · exact List.mem_append_right _ hw
  · intro x hx
    obtain hx | hx := List.mem_append.1 hx
    · obtain ⟨v, hv, hle⟩ := ht.least x hx
      obtain ⟨w, hw, hwv⟩ := hkept v hv
      exact ⟨w, hw, Lawful.le_trans hwv hle⟩
    · exact hstep.found x hx
  · rw [hlog]
    refine List.forall_mem_cons.2 ⟨⟨b, hb, ?_⟩, fun e he => ⟨b, hb, hold e he⟩⟩
    rw [Goal.orient_orient]
    exact hbest b hb
  · rw [hlog]
    refine List.pairwise_cons.2 ⟨?_, ht.log⟩
    dsimp only
    rw [Goal.orient_orient]
    exact List.forall_mem_map.2 hold

/-- The vertices that were evaluated by a run from `start` on its way through the states `ts`: those
it started from, and all candidates. -/
def evaluated (s : SimplexSearch α) (start : State α) (ts : List (State α)) : List (Vec α) :=
  start.simplex.vertices.map (·.point) ++ ts.flatMap s.candidates

theorem State.Sound.initial (hbox : s.box.check = .ok ()) {xs : List (Vec α)}
    (hxs : ∀ x ∈ xs, x.length = s.box.length) {start : State α}
    (hvertices : start.simplex.vertices =
      xs.map (fun x => ⟨s.box.clip x, s.ranked (s.box.clip x)⟩)) (hlog : start.log = []) :
    start.Sound s (s.evaluated start []) := by
  refine ⟨?_, ?_, ?_, by simp [hlog], by simp [hlog]⟩
  · intro v hv
    rw [hvertices] at hv
    obtain ⟨x, hx, rfl⟩ := List.mem_map.1 hv
    exact ⟨Box.contains_clip (fun i hi => Box.ordered hbox hi) (hxs x hx), rfl⟩
  · intro v hv
    exact List.mem_append_left _ (List.mem_map_of_mem hv)
  · intro x hx
    rw [evaluated, List.flatMap_nil, List.append_nil, hvertices] at hx
    obtain ⟨v, hv, rfl⟩ := List.mem_map.1 hx
    refine ⟨v, by rwa [hvertices], ?_⟩
    obtain ⟨y, -, rfl⟩ := List.mem_map.1 hv
    exact Lawful.le_refl (Lawful.isNaN_ranked _)

theorem State.Sound.visits (hbox : s.box.check = .ok ()) {start : State α}
    (h0 : start.Sound s (s.evaluated start [])) {ts : List (State α)} {t : State α}
    (ht : Visits s.round start ts t) : t.Sound s (s.evaluated start ts) := by
  induction ht with
  | refl => exact h0
  | @tail ts t u _ hu ih =>
    have hnext := ih.round hbox hu
    rw [evaluated, List.append_assoc] at hnext
    rw [evaluated, List.flatMap_append, List.flatMap_singleton]
    exact hnext

theorem State.Sound.best_le {t : State α} {xs : List (Vec α)} (ht : t.Sound s xs) :
    t.simplex.sort.best ∈ t.simplex.vertices ∧
      ∀ x ∈ xs, t.simplex.sort.best.value ≤ s.ranked x := by
  obtain ⟨hsorted, hperm⟩ := ht.sort
  have hmem := hperm.mem_iff.1 t.simplex.sort.best_mem
  refine ⟨hmem, ?_⟩
  intro x hx
  obtain ⟨v, hv, hle⟩ := ht.least x hx
  refine Lawful.le_trans ?_ hle
  obtain rfl | hv := List.mem_cons.1 (hperm.mem_iff.2 hv)
  · exact Lawful.le_refl (ht.notNaN _ hmem)
  · exact hsorted.best_le hv

/-- The best vertex is never lost, from whatever start: a run keeps its vertices and its candidates
in the box; an iteration other than a shrink replaces the worst vertex of the sorted simplex by a
strictly better one, and nothing else; the recorded values never get worse; and the report has the
least of the values at the vertices that the run started from and at all candidates. -/
theorem runs_least {s : SimplexSearch Float} (hs : s.check = .ok ()) {xs : List (Vec Float)}
    {run : Run Float (Vec Float) (Vec Float)} (h : s.Runs xs run) :
    (∃ e, run = ⟨.error e, []⟩) ∨
      ∃ start : State Float,
        start.simplex.vertices = xs.map (fun x => ⟨s.box.clip x, s.ranked (s.box.clip x)⟩) ∧
        (∀ ts t, Visits s.round start ts t →
          (∀ v ∈ t.simplex.vertices, s.box.Contains v.point ∧ v.value = s.ranked v.point) ∧
          t.simplex.sort.Sorted ∧ t.simplex.sort.vertices.Perm t.simplex.vertices ∧
          ∀ u, (s.round t).value = .inl u →
            (s.round t).calls = s.center t :: s.candidates t ∧
            (∀ x ∈ s.candidates t, s.box.Contains x) ∧
            t.simplex.sort.best ∈ u.simplex.vertices ∧
            Steps s.config s.box s.ranked t.simplex.sort (s.candidates t) u.simplex) ∧
        ∃ ts t, Visits s.round start ts t ∧
          ((∃ e, run = ⟨.error e, start.simplex.vertices.map (·.point) ++ callsAt s.round ts⟩) ∨
          ∃ r, run =
              ⟨.ok r, start.simplex.vertices.map (·.point) ++ callsAt s.round (ts ++ [t])⟩ ∧
            r.value = s.config.goal.orient (s.ranked r.result) ∧
            r.result ∈ s.evaluated start ts ∧
            (∀ x ∈ s.evaluated start ts, s.ranked r.result ≤ s.ranked x) ∧
            (r.convergence.map fun e => s.config.goal.orient e.value).Pairwise
              fun a b => b ≤ a) := by
  have hbox := check_box hs
  obtain he | ⟨n, hlength, hdim, hrun⟩ := h.starts
  · exact .inl he
  have hsize : 2 ≤ xs.length := by
    rw [hlength]
    exact Nat.succ_le_succ (List.length_pos_iff.2 ((Box.check_eq_ok _).1 hbox).1)
  obtain ⟨start, hvertices, hlog, htrace⟩ := s.trace_eq n hsize
  have hstart := State.Sound.initial hbox hdim hvertices hlog
  refine .inr ⟨start, hvertices, ?_, ?_⟩
  · intro ts t ht
    have hsound := hstart.visits hbox ht
    refine ⟨fun v hv => ⟨(hsound.vertices v hv).contains, (hsound.vertices v hv).value⟩,
      hsound.sort.1, hsound.sort.2, ?_⟩
    intro u hu
    have hstep := hsound.stepped hbox hu
    exact ⟨(round_inl hu).1, hstep.contains, hstep.best, hstep.steps⟩
  · rw [hrun, htrace]
    obtain ⟨ts, t, ht, ⟨r, hr, he⟩ | he⟩ := Traced.ofIteration_visits s.round n
      (⟨start, start.simplex.vertices.map (·.point)⟩ : Traced (Vec Float) (State Float))
    · refine ⟨ts, t, ht, .inr ⟨r, he, ?_⟩⟩
      obtain ⟨hresult, hvalue, hconv⟩ := round_inr hr
      have hsound := hstart.visits hbox ht
      obtain ⟨hmem, hle⟩ := hsound.best_le
      have hb := (hsound.vertices _ hmem).value
      rw [hresult, hvalue, hconv, ← hb]
      refine ⟨rfl, hsound.held _ hmem, hle, ?_⟩
      rw [List.map_reverse]
      exact List.pairwise_reverse.2 hsound.log
    · exact ⟨ts, t, ht, .inl ⟨_, he⟩⟩

def gutter : SimplexSearch Float where
  objective := .ofValue fun x => Float.sqrt (x.getD 0 0) + x.getD 1 0 * x.getD 1 0
  box := [⟨-4, 4⟩, ⟨-1, 1⟩]
  config := { Simplex.Config.standard with stopping := .afterIterations 4 }

theorem gutter_run : (gutter.runStart [1, 1]).value =
    .ok ⟨[0.20000000000000018, 0.75], 1.009713595499958, .iterationExceeded, 4, 16,
      [⟨1, 1.169713595499958⟩, ⟨2, 1.009713595499958⟩, ⟨3, 1.009713595499958⟩,
        ⟨4, 1.009713595499958⟩]⟩ := by
  decide +kernel

theorem gutter_least :
    gutter.check = .ok () ∧ ∃ start ts,
      start.simplex.vertices.map (·.point) = [[1, 1], [1.4, 1], [1, 0.9]] ∧
        [0.20000000000000018, 0.75] ∈ gutter.evaluated start ts ∧
        ∀ x ∈ gutter.evaluated start ts,
          gutter.ranked [0.20000000000000018, 0.75] ≤ gutter.ranked x := by
  have hs : gutter.check = .ok () := by decide +kernel
  have hrun : (gutter.runStartWithin gutter.config.stopping.budget [1, 1]).value = _ := gutter_run
  obtain ⟨e, he⟩ | ⟨start, hstart, -, ts, t, -, ⟨e, he⟩ | ⟨r, he, -, hmem, hle, -⟩⟩ :=
    runs_least hs (.start gutter.config.stopping.budget [1, 1])
  · rw [he] at hrun
    cases hrun
  · rw [he] at hrun
    cases hrun
  · rw [he] at hrun
    cases hrun
    refine ⟨hs, start, ts, ?_, hmem, hle⟩
    rw [hstart, List.map_map]
    decide +kernel

end SimplexSearch

end Optima
