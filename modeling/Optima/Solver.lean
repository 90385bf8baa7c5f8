import Optima.Error
import Optima.Report
import Optima.Stopping
import Optima.Traced

/-!
A solver is a set-up together with the report of its last run. What is called on it may read and
write both.
-/

namespace Optima

inductive Failure (α : Type)
  | refused (e : Error α)
  | rangeOverflow
  /-- The run never ends, or not within the budget that stands for having no cap. -/
  | unfinished
  deriving DecidableEq

/-- A run as seen from outside: the points at which it called the function and what it gave. -/
abbrev Run (α ι χ : Type) := Traced ι (Except (Failure α) (Report α χ))

namespace Run

variable {α ι χ : Type}

def refuse (e : Error α) : Run α ι χ := ⟨.error (.refused e), []⟩

def overflow : Run α ι χ := ⟨.error .rangeOverflow, []⟩

def accepting (input : Except (Error α) Unit) (run : Unit → Run α ι χ) : Run α ι χ :=
  match input with
  | .ok () => run ()
  | .error e => refuse e

@[simp] theorem accepting_ok (run : Unit → Run α ι χ) : accepting (.ok ()) run = run () := rfl

@[simp] theorem accepting_error (e : Error α) (run : Unit → Run α ι χ) :
    accepting (.error e) run = refuse e := rfl

def conclude : Option (Report α χ) → Except (Failure α) (Report α χ)
  | some report => .ok report
  | none => .error .unfinished

def ofIteration (t : Traced ι (Option (Report α χ))) : Run α ι χ := ⟨conclude t.value, t.calls⟩

end Run

structure Solver (κ α χ : Type) where
  setup : κ
  report : Report α χ

/-- What is called on a solver. It may read and write the whole of it, the set-up as well as the
report, and what it has written by the time it fails stays written. -/
abbrev Action (κ α ι χ β : Type) := ExceptT (Failure α) (StateT (Solver κ α χ) (Traced ι)) β

namespace Action

variable {κ α ι χ β : Type}

def accept (input : Except (Error α) Unit) : Action κ α ι χ Unit :=
  match input with
  | .ok () => pure ()
  | .error e => throw (.refused e)

def drawn (o : Option β) : Action κ α ι χ β :=
  match o with
  | some b => pure b
  | none => throw .rangeOverflow

def calling (t : Traced ι β) : Action κ α ι χ β := ExceptT.lift (StateT.lift t)

/-- Puts the report of a run that has ended in the place of the one before, and gives it. -/
def keep (o : Option (Report α χ)) : Action κ α ι χ (Report α χ) :=
  match o with
  | some report => do
    modify ({ · with report })
    return (← get).report
  | none => throw .unfinished

end Action

namespace Solver

variable {κ α ι χ β : Type}

def new [Scalar α] (setup : κ) (result : χ) : Solver κ α χ := ⟨setup, .notRun result⟩

def exec (s : Solver κ α χ) (a : Action κ α ι χ (Report α χ)) : Run α ι χ × Solver κ α χ :=
  let t := a.run.run s
  (⟨t.value.1, t.calls⟩, t.value.2)

def execAll (s : Solver κ α χ) :
    List (Action κ α ι χ (Report α χ)) → List (Run α ι χ × Solver κ α χ)
  | [] => []
  | a :: as =>
    let r := s.exec a
    r :: r.2.execAll as

variable (s : Solver κ α χ)

theorem exec_get_bind (f : Solver κ α χ → Action κ α ι χ (Report α χ)) :
    s.exec (get >>= f) = s.exec (f s) := rfl

theorem exec_accept_ok (f : Unit → Action κ α ι χ (Report α χ)) :
    s.exec (Action.accept (.ok ()) >>= f) = s.exec (f ()) := rfl

theorem exec_accept_error (e : Error α) (f : Unit → Action κ α ι χ (Report α χ)) :
    s.exec (Action.accept (.error e) >>= f) = (.refuse e, s) := rfl

theorem exec_drawn_some (b : β) (f : β → Action κ α ι χ (Report α χ)) :
    s.exec (Action.drawn (some b) >>= f) = s.exec (f b) := rfl

theorem exec_drawn_none (f : β → Action κ α ι χ (Report α χ)) :
    s.exec (Action.drawn none >>= f) = (.overflow, s) := rfl

theorem exec_calling (t : Traced ι β) (f : β → Action κ α ι χ (Report α χ)) :
    s.exec (Action.calling t >>= f) =
      (⟨(s.exec (f t.value)).1.value, t.calls ++ (s.exec (f t.value)).1.calls⟩,
        (s.exec (f t.value)).2) := by
  refine Prod.ext (Traced.ext rfl ?_) rfl
  change t.calls ++ [] ++ [] ++ _ = _
  rw [List.append_nil, List.append_nil]
  rfl

theorem exec_keep_some (r : Report α χ) :
    s.exec (Action.keep (some r) : Action κ α ι χ _) = (⟨.ok r, []⟩, { s with report := r }) := rfl

theorem exec_keep_none :
    s.exec (Action.keep none : Action κ α ι χ _) = (⟨.error .unfinished, []⟩, s) := rfl

end Solver

end Optima
