import Optima.Descent.Run
import Optima.Evolution.Run
import Optima.Root.Bracketing
import Optima.Root.Newton
import Optima.Simplex.Run
import Optima.Swarm.Run

/-!
What the actions of the six solvers do to the solver on which they are taken, path by path: one that
fails leaves all of it as it was, and one that ends changes its report only.
-/

namespace Optima

variable {κ α ι χ β : Type}

/-- The action makes this run. A failure leaves the solver as it was, and a report takes the place
of the one before. -/
structure Solver.Performs (s : Solver κ α χ) (a : Action κ α ι χ (Report α χ)) (run : Run α ι χ) :
    Prop where
  made : (s.exec a).1 = run
  failed : ∀ f, run.value = .error f → (s.exec a).2 = s
  reported : ∀ r, run.value = .ok r → (s.exec a).2 = ⟨s.setup, r⟩

namespace Solver.Performs

variable {s : Solver κ α χ}

theorem of_exec_eq {a b : Action κ α ι χ (Report α χ)} {run : Run α ι χ}
    (h : s.exec a = s.exec b) (hb : s.Performs b run) : s.Performs a run := by
  obtain ⟨hmade, hfailed, hreported⟩ := hb
  rw [← h] at hmade hfailed hreported
  exact ⟨hmade, hfailed, hreported⟩

theorem of_failure {a : Action κ α ι χ (Report α χ)} {f : Failure α} {xs : List ι}
    (h : s.exec a = (⟨.error f, xs⟩, s)) : s.Performs a ⟨.error f, xs⟩ := by
  refine ⟨by rw [h], fun _ _ => by rw [h], ?_⟩
  intro r hr
  cases hr

theorem get {f : Solver κ α χ → Action κ α ι χ (Report α χ)} {run : Run α ι χ}
    (h : s.Performs (f s) run) : s.Performs (MonadState.get >>= f) run :=
  .of_exec_eq (s.exec_get_bind f) h

theorem accept {input : Except (Error α) Unit} {f : Unit → Action κ α ι χ (Report α χ)}
    {run : Unit → Run α ι χ} (h : s.Performs (f ()) (run ())) :
    s.Performs (.accept input >>= f) (.accepting input run) := by
  cases input with
  | ok => exact .of_exec_eq (s.exec_accept_ok f) h
  | error e => exact .of_failure (s.exec_accept_error e f)

theorem overflow (f : β → Action κ α ι χ (Report α χ)) :
    s.Performs (.drawn none >>= f) .overflow :=
  .of_failure (s.exec_drawn_none f)

theorem drawn {b : β} {f : β → Action κ α ι χ (Report α χ)} {run : Run α ι χ}
    (h : s.Performs (f b) run) : s.Performs (.drawn (some b) >>= f) run :=
  .of_exec_eq (s.exec_drawn_some b f) h

theorem ofIteration (t : Traced ι (Option (Report α χ))) :
    s.Performs (.calling t >>= .keep) (.ofIteration t) := by
  have hexec := s.exec_calling t .keep
  obtain ⟨o, xs⟩ := t
  cases o with
  | none =>
    rw [exec_keep_none, List.append_nil] at hexec
    exact .of_failure hexec
  | some r =>
    rw [exec_keep_some, List.append_nil] at hexec
    refine ⟨by rw [hexec]; rfl, nofun, ?_⟩
    rintro _ ⟨⟩
    rw [hexec]

end Solver.Performs

open Solver (Performs)

variable [Scalar α] {γ : Type} [WordSource γ]

theorem Descent.descend_performs (s : Solver (Descent α) α (Vec α)) (start : Vec α) :
    s.Performs (descend start) (s.setup.run start) := by
  unfold descend run runWithin
  exact .get (.accept (.get (.ofIteration _)))

namespace SimplexSearch

variable (s : Solver (SimplexSearch α) α (Vec α))

theorem search_performs (points : List (Vec α)) : s.Performs (search points)
    (.ofIteration (s.setup.trace s.setup.config.stopping.budget points)) :=
  .get (.ofIteration _)

theorem searchPoints_performs (points : List (Vec α)) :
    s.Performs (searchPoints points) (s.setup.runPoints points) := by
  unfold searchPoints runPoints runPointsWithin
  exact .get (.accept (search_performs s points))

theorem searchWith_performs (generator : Nat → List (Vec α)) :
    s.Performs (searchWith generator) (s.setup.runWith generator) :=
  .get (searchPoints_performs s _)

theorem searchStart_performs (start : Vec α) :
    s.Performs (searchStart start) (s.setup.runStart start) := by
  unfold searchStart runStart runStartWithin
  exact .get (.accept (.get (search_performs s _)))

theorem searchRandom_performs (g : γ) : s.Performs (searchRandom g) (s.setup.runRandom g) := by
  unfold searchRandom runRandom runRandomWithin
  refine .get ?_
  dsimp only
  cases ((Draw.points s.setup.box (s.setup.box.length + 1)).run g).1 with
  | none => exact .overflow _
  | some points => exact .drawn (search_performs s points)

end SimplexSearch

namespace Swarm

variable (s : Solver (Swarm α) α (Vec α))

theorem searchFrom_performs (g : γ) : s.Performs (searchFrom g) (s.setup.runFrom g) := by
  unfold searchFrom runFrom runWithin
  refine .get ?_
  rcases s.setup.positions.run g with ⟨_ | positions, g⟩
  · exact .overflow _
  refine .drawn (.get (.accept (.get ?_)))
  rcases s.setup.velocities.run g with ⟨_ | velocities, g⟩
  · exact .overflow _
  · exact .drawn (.get (.ofIteration _))

theorem search_performs : s.Performs search s.setup.run :=
  .get (searchFrom_performs s _)

end Swarm

namespace Evolution

variable (s : Solver (Evolution α) α (Vec α))

theorem evolveFrom_performs (g : γ) : s.Performs (evolveFrom g) (s.setup.runFrom g) :=
  .get (.ofIteration _)

theorem evolve_performs : s.Performs evolve s.setup.run :=
  .get (evolveFrom_performs s _)

end Evolution

theorem Newton.solve_performs (s : Solver (Newton α) α α) (start : α) :
    s.Performs (solve start) (s.setup.run start) := by
  unfold solve run runWithin
  exact .accept (.get (.ofIteration _))

theorem Bracketing.solve_performs (s : Solver (Bracketing α) α α) (a b : α) :
    s.Performs (solve a b) (s.setup.run a b) := by
  unfold solve run runWithin
  exact .accept (.get (.ofIteration _))

end Optima
