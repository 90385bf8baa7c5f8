import Mathlib.Data.List.Basic
import Optima.Proofs.Descent.Searched
import Optima.Proofs.Scalar.Binary64

namespace Optima

open LineSearch (Outcome)
open Scalar (Lawful)

variable {α : Type} [Scalar α]

theorem Stopping.verdict_cases {c : Stopping α} {k : Nat} {recent : List α} {norm : Option α}
    {status : Status} (h : c.verdict k recent norm = some status) :
    diverged recent = true ∧ status = .diverged ∨
      c.gradientSmall norm = true ∧ status = .gradientConvergence ∨
      c.valueSettled recent = true ∧ status = .normal ∨
      c.onPlateau recent = true ∧ status = .stationaryFunction ∨
      c.capReached k = true ∧ status = .iterationExceeded := by
  unfold verdict at h
  repeat' split at h
  all_goals cases h
  all_goals simp [*]

namespace Descent

variable {s : Descent α} {x : Vec α}

/-- The value and the gradient kept with the point are the function's there. -/
structure Iterate.Fresh (f : LineFunction α) (i : Iterate α) : Prop where
  value : i.Faithful f
  gradient : i.gradient = (f.gradient i.point i.value).value

theorem arrive_fresh [Lawful α] {f : LineFunction α} {x d : Vec α} {value : α} {o : Outcome α}
    (h : o.Found f x d value) (hz : ¬ o.isZero = true) : (arrive f none o).value.Fresh f := by
  cases h with
  | unchanged => exact absurd Lawful.zero_beq_zero hz
  | tried step g hg =>
    cases g with
    | none => exact ⟨rfl, rfl⟩
    | some v => exact ⟨rfl, hg v rfl⟩

theorem Searched.fresh [Lawful α] {c : Config α} {f : LineFunction α} {u w : State α} {p : Progress}
    (hb : c.box = none) (h : Searched c f u (p, w)) (hu : u.iterate.Fresh f) :
    w.iterate.Fresh f := by
  cases h with
  | stalled hw => rwa [hw]
  | failed => exact hu
  | moved hz hw =>
    rw [hw, hb]
    exact arrive_fresh (u.iterate.search_found _ f _) hz

theorem Searched.unmoved {c : Config α} {f : LineFunction α} {u w : State α} {p : Progress}
    (h : Searched c f u (p, w)) (hp : p ≠ .moved) : w.iterate = u.iterate := by
  cases h with
  | stalled hw => exact hw
  | failed => rfl
  | moved => exact absurd rfl hp

/-- What the stopping criteria say of a state that a run came to through the states `us`. -/
def verdictAt (s : Descent α) (us : List (State α)) (u : State α) : Option Status :=
  s.config.stopping.classify us.length ((us ++ [u]).map (·.iterate.value))
    (some (Vec.norm u.iterate.gradient))

/-- The states of a run, the earliest first. It goes on from a state only with a finite gradient
and without a verdict. -/
inductive Route (s : Descent α) (x : Vec α) : List (State α) → State α → Prop
  | start : Route s x [] (s.initial x).value.state
  | step {us : List (State α)} {u w : State α} : Route s x us u →
      Scalar.isFinite (Vec.norm u.iterate.gradient) = true → s.verdictAt us u = none →
      (step s.config (s.objective.oriented s.config.goal) u).value = (.moved, w) →
      Route s x (us ++ [u]) w

/-- The ways in which a run ends at a state that it came to through the states `us`. -/
inductive Stops (s : Descent α) (us : List (State α)) (u : State α) : Status → Prop
  | unbounded : Scalar.isFinite (Vec.norm u.iterate.gradient) = false → Stops s us u .diverged
  | verdict {status : Status} : Scalar.isFinite (Vec.norm u.iterate.gradient) = true →
      s.verdictAt us u = some status → Stops s us u status
  | stalled {w : State α} : Scalar.isFinite (Vec.norm u.iterate.gradient) = true →
      s.verdictAt us u = none → w.iterate = u.iterate →
      (step s.config (s.objective.oriented s.config.goal) u).value = (.stalled, w) →
      Stops s us u .stationaryFunction
  | failed {w : State α} : Scalar.isFinite (Vec.norm u.iterate.gradient) = true →
      s.verdictAt us u = none → w.iterate = u.iterate →
      (step s.config (s.objective.oriented s.config.goal) u).value = (.failed .badFunction, w) →
      Stops s us u .badFunction

def entries (s : Descent α) (us : List (State α)) : List (Entry α) :=
  us.mapIdx fun k u => ⟨k + 1, s.config.goal.orient u.iterate.value⟩

/-- The states that a trail came along, with what it kept of them. -/
structure Trail.Follows (s : Descent α) (x : Vec α) (us : List (State α)) (t : Trail α) : Prop where
  route : s.Route x us t.state
  iteration : t.iteration = us.length
  values : t.values.reverse = (us ++ [t.state]).map (·.iterate.value)
  log : t.log.reverse = s.entries (us ++ [t.state]).tail

omit [Scalar α] in
theorem Config.box_eq_none {c : Config α} (h : c.method = .momentum ∨ c.method = .bfgs) :
    c.box = none := by
  obtain h | h := h <;> rw [box, h]

omit [Scalar α] in
theorem Config.not_conjugate {c : Config α} (h : c.method = .momentum ∨ c.method = .bfgs) :
    c.method ≠ .conjugateGradient := by
  obtain h | h := h <;> rw [h] <;> decide

theorem Trail.Follows.verdict_eq {us : List (State α)} {t : Trail α} (h : t.Follows s x us)
    (hb : s.config.box = none) : t.verdict s.config =
      if Scalar.isFinite (Vec.norm t.state.iterate.gradient) then s.verdictAt us t.state
      else some .diverged := by
  rw [verdictAt, ← h.values, Stopping.classify, List.reverse_reverse, ← h.iteration, Trail.verdict,
    gradientNorm, hb]

theorem Trail.Follows.of_verdict_eq_none {us : List (State α)} {t : Trail α}
    (h : t.Follows s x us) (hb : s.config.box = none) (hv : t.verdict s.config = none) :
    Scalar.isFinite (Vec.norm t.state.iterate.gradient) = true ∧ s.verdictAt us t.state = none := by
  rw [h.verdict_eq hb] at hv
  split at hv
  · next hf => exact ⟨hf, hv⟩
  · cases hv

theorem Passes.follows (hb : s.config.box = none) {t : Trail α} (ht : s.Passes x t) :
    ∃ us, t.Follows s x us := by
  induction ht with
  | initial =>
    refine ⟨[], .start, ?_, ?_, ?_⟩
    all_goals rw [initial_value]
    all_goals rfl
  | @moved t w _ hv hw ih =>
    obtain ⟨us, hus⟩ := ih
    obtain ⟨hf, hn⟩ := hus.of_verdict_eq_none hb hv
    refine ⟨us ++ [t.state], hus.route.step hf hn hw, ?_, ?_, ?_⟩
    · simp [Trail.extend, hus.iteration]
    · simp [Trail.extend, hus.values]
    · rw [List.tail_append_of_ne_nil (by simp)]
      simp [Trail.extend, hus.log, entries, List.mapIdx_concat, hus.iteration]

theorem Trail.Follows.counted {us : List (State α)} {t : Trail α} (h : t.Follows s x us) :
    (s.counted t).Follows s x us :=
  ⟨h.route, h.iteration, h.values, h.log⟩

theorem Trail.Follows.report_eq {us : List (State α)} {t : Trail α} (h : t.Follows s x us)
    {w : State α} (hw : w.iterate = t.state.iterate) (status : Status) :
    Trail.report s.config { t with state := w } status =
      ⟨t.state.iterate.point, s.config.goal.orient t.state.iterate.value, status, us.length,
        t.evaluations, s.entries (us ++ [t.state]).tail⟩ := by
  have hvalues : t.values = t.state.iterate.value :: (us.map (·.iterate.value)).reverse := by
    rw [← List.reverse_reverse t.values, h.values, List.map_append, List.reverse_append]
    rfl
  have hlength : t.log.length = us.length := by
    rw [← List.length_reverse, h.log, entries, List.length_mapIdx, List.length_tail,
      List.length_append]
    rfl
  simp only [report, hw, hvalues, h.log, hlength, List.headD_cons]

theorem Ends.stops (hb : s.config.box = none) (hm : s.config.method ≠ .conjugateGradient)
    {r : Report α (Vec α)} (h : s.Ends x r) :
    ∃ us u, s.Route x us u ∧ s.Stops us u r.status ∧
      r = ⟨u.iterate.point, s.config.goal.orient u.iterate.value, r.status, us.length,
        r.evaluations, s.entries (us ++ [u]).tail⟩ := by
  cases h with
  | @stopped t status ht hv =>
    obtain ⟨us, hus⟩ := ht.follows hb
    refine ⟨us, t.state, hus.route, ?_, hus.report_eq rfl status⟩
    rw [hus.verdict_eq hb] at hv
    split at hv
    · next hf => exact .verdict hf hv
    · next hf =>
      cases hv
      exact .unbounded (eq_false_of_ne_true hf)
  | @stalled t w ht hv hw =>
    obtain ⟨us, hus⟩ := ht.follows hb
    obtain ⟨hf, hn⟩ := hus.of_verdict_eq_none hb hv
    have hsearched := advance_searched hm t
    rw [hw] at hsearched
    have hi := hsearched.unmoved (by decide)
    exact ⟨us, t.state, hus.route, .stalled hf hn hi hw, hus.counted.report_eq hi _⟩
  | @failed t w status ht hv hw =>
    obtain ⟨us, hus⟩ := ht.follows hb
    obtain ⟨hf, hn⟩ := hus.of_verdict_eq_none hb hv
    have hsearched := advance_searched hm t
    rw [hw] at hsearched
    obtain rfl := hsearched.status_of_failed
    have hi := hsearched.unmoved (by decide)
    exact ⟨us, t.state, hus.route, .failed hf hn hi hw, hus.counted.report_eq hi _⟩

theorem Route.fresh [Lawful α] (hb : s.config.box = none)
    (hm : s.config.method ≠ .conjugateGradient)
    (hx : Scalar.isFinite (s.function.value x) = true) {us : List (State α)} {u : State α}
    (h : s.Route x us u) : ∀ v ∈ us ++ [u], v.iterate.Fresh s.function := by
  induction h with
  | start =>
    have horigin : s.origin x = ⟨x, s.function.value x,
        (s.function.gradient x (s.function.value x)).value⟩ := by
      rw [origin, hb]
      exact congrArg (Iterate.mk x (s.function.value x)) (if_pos hx)
    rw [initial_value, horigin]
    exact List.forall_mem_singleton.2 ⟨rfl, rfl⟩
  | @step us u w _ _ _ hw ih =>
    refine List.forall_mem_append.2 ⟨ih, List.forall_mem_singleton.2 ?_⟩
    have hsearched : Searched s.config s.function u (.moved, w) := by
      rw [← hw]
      exact advance_searched hm ⟨u, 0, 0, [], []⟩
    exact hsearched.fresh hb (ih u (List.mem_append_right us List.mem_cons_self))

theorem stops_of_runWithin [Lawful α] (hm : s.config.method = .momentum ∨ s.config.method = .bfgs)
    (hx : Scalar.isFinite (s.function.value x) = true) {n : Nat} {r : Report α (Vec α)}
    (hr : (s.runWithin n x).value = .ok r) :
    ∃ us u, s.Route x us u ∧ (∀ v ∈ us ++ [u], v.iterate.Fresh s.function) ∧
      s.Stops us u r.status ∧ r.result = u.iterate.point ∧
      r.value = s.config.goal.orient u.iterate.value ∧ r.iterations = us.length ∧
      r.convergence = s.entries (us ++ [u]).tail := by
  have hb := Config.box_eq_none hm
  have hc := Config.not_conjugate hm
  obtain ⟨-, -, hend⟩ := ends_of_runWithin hr
  obtain ⟨us, u, hroute, hstops, he⟩ := hend.stops hb hc
  rw [he] at hstops ⊢
  exact ⟨us, u, hroute, hroute.fresh hb hc hx, hstops, rfl, rfl, rfl, rfl⟩

theorem Stops.gradient_lt {us : List (State α)} {u : State α}
    (h : s.Stops us u .gradientConvergence) :
    ∃ eps, s.config.stopping.gradientTolerance = some eps ∧ Vec.norm u.iterate.gradient < eps := by
  cases h with
  | verdict _ hv =>
    obtain ⟨-, h⟩ | ⟨h, -⟩ | ⟨-, h⟩ | ⟨-, h⟩ | ⟨-, h⟩ := Stopping.verdict_cases hv
    case inr.inl =>
      cases he : s.config.stopping.gradientTolerance with
      | none => simp [Stopping.gradientSmall, he] at h
      | some eps => exact ⟨eps, rfl, by simpa [Stopping.gradientSmall, he] using h⟩
    all_goals cases h

theorem Stops.change_lt {us : List (State α)} {u : State α} (h : s.Stops us u .normal) :
    ∃ eps vs v, s.config.stopping.valueTolerance = some eps ∧ us = vs ++ [v] ∧
      Scalar.abs (u.iterate.value - v.iterate.value) < eps := by
  cases h with
  | verdict _ hv =>
    obtain ⟨-, h⟩ | ⟨-, h⟩ | ⟨h, -⟩ | ⟨-, h⟩ | ⟨-, h⟩ := Stopping.verdict_cases hv
    case inr.inr.inl =>
      obtain rfl | ⟨vs, v, rfl⟩ := List.eq_nil_or_concat' us
      · simp [Stopping.valueSettled] at h
      · cases he : s.config.stopping.valueTolerance with
        | none => simp [Stopping.valueSettled, he] at h
        | some eps => exact ⟨eps, vs, v, rfl, rfl, by simpa [Stopping.valueSettled, he] using h⟩
    all_goals cases h

/-- Every value and gradient that a run keeps is the one at its iterate. The run goes on from an
iterate only with a finite gradient norm and without a verdict on the history up to it, and its
report says why it stopped at the last one. -/
theorem stops_at_first_verdict [Lawful α] {s : Descent α}
    (hm : s.config.method = .momentum ∨ s.config.method = .bfgs) {x : Vec α}
    (hx : Scalar.isFinite (s.function.value x) = true) :
    (∀ t, s.Passes x t →
      ∃ us, t.Follows s x us ∧ ∀ v ∈ us ++ [t.state], v.iterate.Fresh s.function) ∧
    ∀ n r, (s.runWithin n x).value = .ok r →
      ∃ us u, s.Route x us u ∧ (∀ v ∈ us ++ [u], v.iterate.Fresh s.function) ∧
        s.Stops us u r.status ∧ r.result = u.iterate.point ∧
        r.value = s.config.goal.orient u.iterate.value ∧ r.iterations = us.length ∧
        r.convergence = s.entries (us ++ [u]).tail ∧
        (r.status = .gradientConvergence →
          ∃ eps, s.config.stopping.gradientTolerance = some eps ∧
            Vec.norm (s.function.gradient r.result (s.function.value r.result)).value < eps) ∧
        (r.status = .normal →
          ∃ eps vs v, s.config.stopping.valueTolerance = some eps ∧ us = vs ++ [v] ∧
            Scalar.abs (u.iterate.value - v.iterate.value) < eps) := by
  have hb := Config.box_eq_none hm
  constructor
  · intro t ht
    obtain ⟨us, hus⟩ := ht.follows hb
    exact ⟨us, hus, hus.route.fresh hb (Config.not_conjugate hm) hx⟩
  · intro n r hr
    obtain ⟨us, u, hroute, hfresh, hstops, hresult, hvalue, hiterations, hlog⟩ :=
      stops_of_runWithin hm hx hr
    have hu := hfresh u (List.mem_append_right us List.mem_cons_self)
    refine ⟨us, u, hroute, hfresh, hstops, hresult, hvalue, hiterations, hlog, ?_, ?_⟩
    · intro hs
      rw [hs] at hstops
      have hv : u.iterate.value = s.function.value u.iterate.point := hu.value
      rw [hresult, ← hv, ← hu.gradient]
      exact hstops.gradient_lt
    · intro hs
      rw [hs] at hstops
      exact hstops.change_lt

def gully : Descent Float where
  objective := .withGradient (fun x => x.getD 0 0 * x.getD 0 0 + 4 * (x.getD 1 0 * x.getD 1 0))
    fun x => [2 * x.getD 0 0, 8 * x.getD 1 0]
  config := { Config.standard with method := .bfgs, lineSearch := .ofMethod .strongWolfe }

theorem gully_run :
    (gully.run [0, 1]).value = .ok ⟨[0, 0], 0, .gradientConvergence, 1, 5, [⟨1, 0⟩]⟩ := by
  decide +kernel

theorem gully_stops : ∃ us u, gully.Route [0, 1] us u ∧ us.length = 1 ∧
    gully.Stops us u .gradientConvergence ∧
      ∃ eps, gully.config.stopping.gradientTolerance = some eps ∧
        Vec.norm (gully.function.gradient [0, 0] (gully.function.value [0, 0])).value < eps := by
  have hm : gully.config.method = .momentum ∨ gully.config.method = .bfgs := .inr rfl
  have hx : Scalar.isFinite (gully.function.value [0, 1]) = true := by decide +kernel
  obtain ⟨us, u, hroute, -, hstops, -, -, hlength, -, hnorm, -⟩ :=
    (stops_at_first_verdict hm hx).2 _ _ gully_run
  exact ⟨us, u, hroute, hlength.symm, hstops, hnorm rfl⟩

end Descent

end Optima
