import Optima.Error
import Optima.Status

/-!
When an iteration stops. Every threshold is optional, and one that is not set never stops a run.
The tests are made in a fixed order: a value that is not finite, a small gradient, a small change
of the value, a plateau, the cap on iterations.
-/

namespace Optima

structure Stopping (α : Type) where
  maxIterations : Option Nat
  plateau : Option Nat
  valueTolerance : Option α
  gradientTolerance : Option α
  deriving DecidableEq

def least {α : Type} [Scalar α] : List α → α
  | [] => Scalar.infinity
  | a :: as => as.foldl Scalar.lesser a

namespace Stopping

variable {α : Type}

def afterIterations (n : Nat) : Stopping α := ⟨some n, none, none, none⟩

def unbounded : Stopping α := ⟨none, none, none, none⟩

def withMaxIterations (c : Stopping α) (n : Nat) : Stopping α := { c with maxIterations := some n }

/-- More rounds than a run with this cap can make; without a cap, more than any machine makes. -/
def budget (c : Stopping α) : Nat := c.maxIterations.elim UInt64.size (· + 1)

theorem exists_budget_eq (c : Stopping α) : ∃ n, c.budget = n + 1 := by
  cases h : c.maxIterations with
  | none => exact ⟨18446744073709551615, by rw [budget, h]; rfl⟩
  | some n => exact ⟨n, by rw [budget, h]; rfl⟩

def capReached (c : Stopping α) (iteration : Nat) : Bool :=
  c.maxIterations.any (· ≤ iteration)

variable [Scalar α]

def standard : Stopping α := ⟨some 1000, none, some 1e-12, some 1e-8⟩

def checkTolerance (name : String) : Option α → Except (Error α) Unit
  | none => .ok ()
  | some eps => Requirement.finiteNonNegative.check name eps

def check (c : Stopping α) : Except (Error α) Unit := do
  checkTolerance "function_epsilon" c.valueTolerance
  checkTolerance "gradient_epsilon" c.gradientTolerance
  demand (c.plateau != some 0) .emptyWindow

-- `recent` holds the values so far, the latest first, all through the tests
def diverged : List α → Bool
  | [] => false
  | current :: _ => !Scalar.isFinite current

def gradientSmall (c : Stopping α) : Option α → Bool
  | none => false
  | some norm => c.gradientTolerance.any fun eps => norm < eps

def valueSettled (c : Stopping α) : List α → Bool
  | current :: previous :: _ =>
    c.valueTolerance.any fun eps => Scalar.abs (current - previous) < eps
  | _ => false

/-- The values after the last `window + 1` improve on the first of them by no more than the
tolerance. -/
def onPlateau (c : Stopping α) (recent : List α) : Bool :=
  c.plateau.any fun window =>
    match recent.drop window with
    | [] => false
    | start :: _ => start - least (recent.take window) ≤ c.valueTolerance.getD 0

def verdict (c : Stopping α) (iteration : Nat) (recent : List α) (gradientNorm : Option α) :
    Option Status :=
  if diverged recent then some .diverged
  else if c.gradientSmall gradientNorm then some .gradientConvergence
  else if c.valueSettled recent then some .normal
  else if c.onPlateau recent then some .stationaryFunction
  else if c.capReached iteration then some .iterationExceeded
  else none

def classify (c : Stopping α) (iteration : Nat) (history : List α) (gradientNorm : Option α) :
    Option Status :=
  c.verdict iteration history.reverse gradientNorm

theorem plateau_ne_zero {c : Stopping α} (h : c.check = .ok ()) : c.plateau ≠ some 0 := by
  simp only [check, bind_eq_ok, demand_eq_ok] at h
  obtain ⟨_, _, _, _, hp⟩ := h
  simpa using hp

omit [Scalar α] in
@[simp] theorem capReached_iff (c : Stopping α) (iteration : Nat) :
    c.capReached iteration = true ↔ ∃ n, c.maxIterations = some n ∧ n ≤ iteration := by
  cases h : c.maxIterations <;> simp [capReached, h]

end Stopping

end Optima
