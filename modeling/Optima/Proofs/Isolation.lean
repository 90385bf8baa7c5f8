import Optima.Proofs.Action
import Optima.Proofs.Random.Draws
import Optima.Proofs.Simplex.Run
import Optima.Proofs.Swarm.Run

/-!
Runs do not leak into each other. Whatever was asked of a solver before, it answers as it would have
when it was new; a run that fails leaves the solver as it was, and one that succeeds replaces the
whole report.
-/

namespace Optima

variable {κ α ι χ ρ γ : Type}

/-- What can be asked of a solver: which input is accepted, and the action that is taken. -/
structure Service (κ α ι χ ρ : Type) where
  check : κ → ρ → Except (Error α) Unit
  action : ρ → Action κ α ι χ (Report α χ)

namespace Solver

def ask (s : Solver κ α χ) (v : Service κ α ι χ ρ) (q : ρ) : Run α ι χ × Solver κ α χ :=
  s.exec (v.action q)

def askAll (s : Solver κ α χ) (v : Service κ α ι χ ρ) (qs : List ρ) :
    List (Run α ι χ × Solver κ α χ) :=
  s.execAll (qs.map v.action)

/-- What is asked of a solver that last reported `r`, with the runs that are made and the solver
after each: the runs are those that the fresh solver would make. -/
inductive Session (v : Service κ α ι χ ρ) (fresh : Solver κ α χ) :
    Report α χ → List ρ → List (Run α ι χ × Solver κ α χ) → Prop
  | nil {r : Report α χ} : Session v fresh r [] []
  | refused {r : Report α χ} {q : ρ} {qs : List ρ} {rest : List (Run α ι χ × Solver κ α χ)}
      {e : Error α} : v.check fresh.setup q = .error e → (fresh.ask v q).1 = .refuse e →
      Session v fresh r qs rest →
      Session v fresh r (q :: qs) (((fresh.ask v q).1, ⟨fresh.setup, r⟩) :: rest)
  | failed {r : Report α χ} {q : ρ} {qs : List ρ} {rest : List (Run α ι χ × Solver κ α χ)}
      {f : Failure α} : v.check fresh.setup q = .ok () → (fresh.ask v q).1.value = .error f →
      (∀ e, f ≠ .refused e) → Session v fresh r qs rest →
      Session v fresh r (q :: qs) (((fresh.ask v q).1, ⟨fresh.setup, r⟩) :: rest)
  | reported {r new : Report α χ} {q : ρ} {qs : List ρ}
      {rest : List (Run α ι χ × Solver κ α χ)} : v.check fresh.setup q = .ok () →
      (fresh.ask v q).1.value = .ok new → Session v fresh new qs rest →
      Session v fresh r (q :: qs) (((fresh.ask v q).1, ⟨fresh.setup, new⟩) :: rest)

end Solver

/-- A run is refused, and calls nothing, exactly when its input is not accepted. -/
inductive Run.Screened : Run α ι χ → Except (Error α) Unit → Prop
  | refused (e : Error α) : Screened (.refuse e) (.error e)
  | accepted {run : Run α ι χ} : (∀ e, run.value ≠ .error (.refused e)) → Screened run (.ok ())

namespace Run.Screened

theorem ofIteration (t : Traced ι (Option (Report α χ))) :
    (Run.ofIteration t).Screened (.ok ()) :=
  .accepted fun _ h => by cases ofIteration_error h

theorem overflow : (Run.overflow : Run α ι χ).Screened (.ok ()) :=
  .accepted fun _ h => by cases h

theorem accepting {input : Except (Error α) Unit} {run : Unit → Run α ι χ}
    (h : input = .ok () → (run ()).Screened (.ok ())) :
    (Run.accepting input run).Screened input := by
  cases input with
  | ok => exact h rfl
  | error e => exact .refused e

theorem cases {run : Run α ι χ} {input : Except (Error α) Unit} (h : run.Screened input) :
    (∃ e, input = .error e ∧ run = .refuse e) ∨
      input = .ok () ∧ ∀ e, run.value ≠ .error (.refused e) := by
  cases h with
  | refused e => exact .inl ⟨e, rfl, rfl⟩
  | accepted h => exact .inr ⟨rfl, h⟩

end Run.Screened

/-- Every request is answered by a run that its solver makes, one way or another, from the set-up
alone, and is refused exactly when its input is not accepted. -/
structure Service.Answers (v : Service κ α ι χ ρ) (run : κ → ρ → Run α ι χ) : Prop where
  performs : ∀ (s : Solver κ α χ) q, s.Performs (v.action q) (run s.setup q)
  screened : ∀ setup q, (run setup q).Screened (v.check setup q)

theorem Solver.askAll_session {v : Service κ α ι χ ρ} {run : κ → ρ → Run α ι χ}
    (hv : v.Answers run) (fresh : Solver κ α χ) (r : Report α χ) (qs : List ρ) :
    Session v fresh r qs ((⟨fresh.setup, r⟩ : Solver κ α χ).askAll v qs) := by
  induction qs generalizing r with
  | nil => exact .nil
  | cons q qs ih =>
    have hask : (⟨fresh.setup, r⟩ : Solver κ α χ).askAll v (q :: qs) =
        ask ⟨fresh.setup, r⟩ v q :: (ask ⟨fresh.setup, r⟩ v q).2.askAll v qs := rfl
    obtain ⟨hmade, hfailed, hreported⟩ := hv.performs ⟨fresh.setup, r⟩ q
    have hfresh : (fresh.ask v q).1 = run fresh.setup q := (hv.performs fresh q).made
    have hanswer (s : Solver κ α χ) (h : (ask ⟨fresh.setup, r⟩ v q).2 = s) :
        ask ⟨fresh.setup, r⟩ v q = ((fresh.ask v q).1, s) :=
      Prod.ext (hmade.trans hfresh.symm) h
    obtain ⟨e, hc, hrun⟩ | ⟨hc, hne⟩ := (hv.screened fresh.setup q).cases
    · rw [hask, hanswer _ (hfailed _ (congrArg Traced.value hrun))]
      exact .refused hc (hfresh.trans hrun) (ih r)
    · cases hvalue : (run fresh.setup q).value with
      | error f =>
        rw [hask, hanswer _ (hfailed f hvalue)]
        exact .failed hc (hfresh ▸ hvalue) (fun e he => hne e (he ▸ hvalue)) (ih r)
      | ok new =>
        rw [hask, hanswer _ (hreported new hvalue)]
        exact .reported hc (hfresh ▸ hvalue) (ih new)

theorem Solver.Session.setup_eq {v : Service κ α ι χ ρ} {fresh : Solver κ α χ} {r : Report α χ}
    {qs : List ρ} {asked : List (Run α ι χ × Solver κ α χ)} (h : Session v fresh r qs asked) :
    ∀ p ∈ asked, p.2.setup = fresh.setup := by
  induction h with
  | nil => exact List.forall_mem_nil _
  | refused _ _ _ ih => exact List.forall_mem_cons.2 ⟨rfl, ih⟩
  | failed _ _ _ _ ih => exact List.forall_mem_cons.2 ⟨rfl, ih⟩
  | reported _ _ _ ih => exact List.forall_mem_cons.2 ⟨rfl, ih⟩

variable [Scalar α] [WordSource γ]

namespace Descent

def service : Service (Descent α) α (Vec α) (Vec α) (Vec α) := ⟨checkStart, descend⟩

theorem run_screened (s : Descent α) (start : Vec α) :
    (s.run start).Screened (s.checkStart start) := by
  unfold run runWithin
  exact .accepting fun _ => .ofIteration _

theorem service_answers : (service (α := α)).Answers run := ⟨descend_performs, run_screened⟩

end Descent

namespace SimplexSearch

/-- A start point, vertices, a generator of vertices, or random vertices. -/
inductive Request (α γ : Type)
  | start (x : Vec α)
  | points (xs : List (Vec α))
  | generated (f : Nat → List (Vec α))
  | random (g : γ)

namespace Request

def check (s : SimplexSearch α) : Request α γ → Except (Error α) Unit
  | start x => demand (x.length == s.box.length) (.startDimension s.box.length x.length)
  | points xs => s.checkPoints xs
  | generated f => s.checkPoints (f (s.box.length + 1))
  | random _ => .ok ()

def run (s : SimplexSearch α) : Request α γ → Run α (Vec α) (Vec α)
  | start x => s.runStart x
  | points xs => s.runPoints xs
  | generated f => s.runWith f
  | random g => s.runRandom g

def action : Request α γ → Action (SimplexSearch α) α (Vec α) (Vec α) (Report α (Vec α))
  | start x => searchStart x
  | points xs => searchPoints xs
  | generated f => searchWith f
  | random g => searchRandom g

end Request

def service (γ : Type) [WordSource γ] :
    Service (SimplexSearch α) α (Vec α) (Vec α) (Request α γ) := ⟨Request.check, Request.action⟩

theorem runPoints_screened (s : SimplexSearch α) (xs : List (Vec α)) :
    (s.runPoints xs).Screened (s.checkPoints xs) := by
  unfold runPoints runPointsWithin
  exact .accepting fun _ => .ofIteration _

theorem runStart_screened (s : SimplexSearch α) (x : Vec α) : (s.runStart x).Screened
    (demand (x.length == s.box.length) (.startDimension s.box.length x.length)) := by
  unfold runStart runStartWithin
  exact .accepting fun _ => .ofIteration _

theorem runRandom_screened (s : SimplexSearch α) (g : γ) :
    (s.runRandom g).Screened (.ok ()) := by
  unfold runRandom runRandomWithin
  split
  · exact .ofIteration _
  · exact .overflow

theorem run_screened (s : SimplexSearch α) (q : Request α γ) :
    (q.run s).Screened (q.check s) := by
  cases q with
  | start x => exact s.runStart_screened x
  | points xs => exact s.runPoints_screened xs
  | generated f => exact s.runPoints_screened (f (s.box.length + 1))
  | random g => exact s.runRandom_screened g

theorem service_answers : (service (α := α) γ).Answers fun s q => q.run s := by
  refine ⟨fun s q => ?_, run_screened⟩
  cases q with
  | start x => exact searchStart_performs s x
  | points xs => exact searchPoints_performs s xs
  | generated f => exact searchWith_performs s f
  | random g => exact searchRandom_performs s g

end SimplexSearch

/-- The random words of a run: those of the configured seed, or given ones. -/
inductive Words (γ : Type)
  | seeded
  | given (g : γ)

namespace Swarm

/-- Random positions are as they have to be; those of a generator may not be. -/
def checkInput (s : Swarm α) : Except (Error α) Unit :=
  s.generator.elim (.ok ()) fun generate => s.checkPositions (generate s.config.size)

def runOn (s : Swarm α) : Words γ → Run α (Vec α) (Vec α)
  | .seeded => s.run
  | .given g => s.runFrom g

def searchOn : Words γ → Action (Swarm α) α (Vec α) (Vec α) (Report α (Vec α))
  | .seeded => search
  | .given g => searchFrom g

def service (γ : Type) [WordSource γ] : Service (Swarm α) α (Vec α) (Vec α) (Words γ) :=
  ⟨fun s _ => s.checkInput, searchOn⟩

theorem checkPositions_eq (s : Swarm α) {xs : List (Vec α)} {g g' : γ}
    (h : s.positions.run g = (some xs, g')) : s.checkPositions xs = s.checkInput := by
  unfold positions at h
  unfold checkInput
  cases hg : s.generator with
  | none =>
    rw [hg] at h
    obtain ⟨hlength, hdim⟩ := Draw.points_length (congrArg Prod.fst h)
    exact checkPositions_of_length hlength hdim
  | some generate =>
    rw [hg] at h
    cases h
    rfl

theorem checkInput_of_overflow (s : Swarm α) {g g' : γ}
    (h : s.positions.run g = (none, g')) : s.checkInput = .ok () := by
  unfold positions at h
  unfold checkInput
  cases hg : s.generator with
  | none => rfl
  | some generate =>
    rw [hg] at h
    cases h

theorem runFrom_screened (s : Swarm α) (g : γ) : (s.runFrom g).Screened s.checkInput := by
  unfold runFrom runWithin
  split
  · next g' h =>
    rw [s.checkInput_of_overflow h]
    exact .overflow
  · next positions g' h =>
    rw [s.checkPositions_eq h]
    refine .accepting fun _ => ?_
    split
    · exact .overflow
    · exact .ofIteration _

theorem run_screened (s : Swarm α) (q : Words γ) : (s.runOn q).Screened s.checkInput := by
  cases q with
  | seeded => exact s.runFrom_screened _
  | given g => exact s.runFrom_screened g

theorem service_answers : (service (α := α) γ).Answers runOn := by
  refine ⟨fun s q => ?_, run_screened⟩
  cases q with
  | seeded => exact search_performs s
  | given g => exact searchFrom_performs s g

end Swarm

namespace Evolution

def runOn (s : Evolution α) : Words γ → Run α (Vec α) (Vec α)
  | .seeded => s.run
  | .given g => s.runFrom g

def evolveOn : Words γ → Action (Evolution α) α (Vec α) (Vec α) (Report α (Vec α))
  | .seeded => evolve
  | .given g => evolveFrom g

def service (γ : Type) [WordSource γ] : Service (Evolution α) α (Vec α) (Vec α) (Words γ) :=
  ⟨fun _ _ => .ok (), evolveOn⟩

theorem run_screened (s : Evolution α) (q : Words γ) : (s.runOn q).Screened (.ok ()) := by
  cases q with
  | seeded => exact .ofIteration _
  | given g => exact .ofIteration _

theorem service_answers : (service (α := α) γ).Answers runOn := by
  refine ⟨fun s q => ?_, run_screened⟩
  cases q with
  | seeded => exact evolve_performs s
  | given g => exact evolveFrom_performs s g

end Evolution

namespace Newton

def service : Service (Newton α) α α α α :=
  ⟨fun _ start => demand (Scalar.isFinite start) (.startNotFinite start), solve⟩

theorem run_screened (s : Newton α) (start : α) :
    (s.run start).Screened (demand (Scalar.isFinite start) (.startNotFinite start)) := by
  unfold run runWithin
  exact .accepting fun _ => .ofIteration _

theorem service_answers : (service (α := α)).Answers run := ⟨solve_performs, run_screened⟩

end Newton

namespace Bracketing

def service : Service (Bracketing α) α α α (α × α) :=
  ⟨fun _ ends => demand (Scalar.isFinite ends.1 && Scalar.isFinite ends.2)
    (.endpointNotFinite ends.1 ends.2), fun ends => solve ends.1 ends.2⟩

theorem run_screened (s : Bracketing α) (ends : α × α) :
    (s.run ends.1 ends.2).Screened (demand (Scalar.isFinite ends.1 && Scalar.isFinite ends.2)
      (.endpointNotFinite ends.1 ends.2)) := by
  unfold run runWithin
  exact .accepting fun _ => .ofIteration _

theorem service_answers : (service (α := α)).Answers fun s ends => s.run ends.1 ends.2 :=
  ⟨fun s ends => solve_performs s ends.1 ends.2, run_screened⟩

end Bracketing

/-- Runs do not leak into each other: a solver that is built makes, whatever is asked of it and in
whatever order, the runs that it would make when new. -/
def Service.Isolated (v : Service κ α ι χ ρ) (build : κ → Except (Error α) (Solver κ α χ)) : Prop :=
  ∀ setup fresh, build setup = .ok fresh → (∃ result, fresh = .new setup result) ∧
    ∀ qs, Solver.Session v fresh fresh.report qs (fresh.askAll v qs)

-- nothing but what it does keeps an action from leaking: this one counts its calls in the set-up
example : ¬ Service.Isolated (α := Float) (ι := Unit) (ρ := Unit)
    ⟨fun _ _ => .ok (), fun _ => do
      modify fun s => { s with setup := s.setup + 1 }
      .keep none⟩
    (fun calls : Nat => .ok (.new calls ())) := by
  intro h
  have hsession := (h 0 _ rfl).2 [()]
  exact absurd (hsession.setup_eq _ List.mem_cons_self) (by decide)

omit [WordSource γ] in
theorem Service.Answers.isolated {v : Service κ α ι χ ρ} {run : κ → ρ → Run α ι χ}
    (hv : v.Answers run) (check : κ → Except (Error α) Unit) (result : χ) :
    v.Isolated fun setup => check setup >>= fun _ => pure (.new setup result) := by
  intro setup fresh h
  rw [bind_eq_ok] at h
  obtain ⟨_, -, h⟩ := h
  cases h
  exact ⟨⟨result, rfl⟩, Solver.askAll_session hv _ _⟩

/-- Whatever a solver was asked before, it makes the run that it would make when new, from the same
input and the same random words; a run that fails leaves the solver as it was, and a report replaces
the whole report before it. -/
theorem runs_isolated : (Descent.service (α := α)).Isolated Descent.solver ∧
    (SimplexSearch.service (α := α) γ).Isolated SimplexSearch.solver ∧
    (Swarm.service (α := α) γ).Isolated Swarm.solver ∧
    (Evolution.service (α := α) γ).Isolated Evolution.solver ∧
    (Newton.service (α := α)).Isolated Newton.solver ∧
    (Bracketing.service (α := α)).Isolated Bracketing.solver :=
  ⟨Descent.service_answers.isolated _ _, SimplexSearch.service_answers.isolated _ _,
    Swarm.service_answers.isolated _ _, Evolution.service_answers.isolated _ _,
    Newton.service_answers.isolated _ _, Bracketing.service_answers.isolated _ _⟩

open SimplexSearch (gutter gutter_run)

theorem gutter_isolated : ∃ fresh r, gutter.solver = .ok fresh ∧
    (gutter.runStart [1, 1]).value = .ok r ∧
    Solver.Session (SimplexSearch.service ChaCha) fresh (.notRun [])
      [.start [1], .start [1, 1], .points [[0, 0]], .start [1, 1]]
      (fresh.askAll (SimplexSearch.service ChaCha)
        [.start [1], .start [1, 1], .points [[0, 0]], .start [1, 1]]) ∧
    (fresh.askAll (SimplexSearch.service ChaCha)
        [.start [1], .start [1, 1], .points [[0, 0]], .start [1, 1]]).map
      (fun asked => (asked.1.value, asked.2.report)) =
      [(.error (.refused (.startDimension 2 1)), .notRun []), (.ok r, r),
        (.error (.refused (.vertexCount 2 1)), r), (.ok r, r)] := by
  have hnew : gutter.solver = .ok (.new gutter []) := by
    have hcheck : gutter.check = .ok () := by decide +kernel
    rw [SimplexSearch.solver, hcheck]
    rfl
  obtain ⟨-, hsimplex, -⟩ := runs_isolated (α := Float) (γ := ChaCha)
  exact ⟨_, _, hnew, gutter_run, (hsimplex gutter _ hnew).2 _, by decide +kernel⟩

end Optima
