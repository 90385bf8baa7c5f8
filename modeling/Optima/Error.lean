import Optima.Scalar

namespace Optima

inductive ErrorKind
  | dimensionMismatch | invalidParameter | bounds | infeasiblePopulation | invalidInput
  | singularMatrix | document | other
  deriving DecidableEq

inductive Requirement
  | finite | positive | positiveFinite | usableStep | nonNegative | finiteNonNegative
  | fromZeroBelowOne | insideUnit | aboveZeroToOne | fromZeroToOne | aboveZeroToTwo
  deriving DecidableEq

def Requirement.holds {α : Type} [Scalar α] : Requirement → α → Bool
  | .finite, a => Scalar.isFinite a
  | .positive, a => 0 < a
  | .positiveFinite, a => 0 < a && Scalar.isFinite a
  | .usableStep, a => 0 < a && Scalar.isFinite a
  | .nonNegative, a => 0 ≤ a
  | .finiteNonNegative, a => Scalar.isFinite a && !(a < 0 : Bool)
  | .fromZeroBelowOne, a => 0 ≤ a && a < 1
  | .insideUnit, a => 0 < a && a < 1
  | .aboveZeroToOne, a => 0 < a && a ≤ 1
  | .fromZeroToOne, a => 0 ≤ a && a ≤ 1
  | .aboveZeroToTwo, a => 0 < a && a ≤ 2

inductive Error (α : Type)
  | notSquare (rows cols : Nat)
  | boundCount (expected found : Nat)
  | startDimension (expected found : Nat)
  | vertexCount (dimension found : Nat)
  | vertexDimension (expected found : Nat)
  | positionCount (expected found : Nat)
  | positionDimension (expected found : Nat)
  | memberDimension (member expected found : Nat)
  | parameter (name : String) (requirement : Requirement) (value : α)
  | expansion (value : α)
  | searchConstants (c1 c2 : α)
  | noTrialStep
  | emptyWindow
  | swarmTooSmall (size : Nat)
  | populationTooSmall (size : Nat)
  | noBound
  | boundNotFinite (coordinate : Nat) (lower upper : α)
  | boundReversed (coordinate : Nat) (lower upper : α)
  | boundsMissing
  | infeasibleMember (member : Nat)
  | emptyStart
  | hessianMissing
  | emptyMember
  | startNotFinite (start : α)
  | endpointNotFinite (lower upper : α)
  | singular
  | unreadable
  | stated (kind : ErrorKind) (text : String)
  deriving DecidableEq

namespace Error

variable {α : Type}

def kind : Error α → ErrorKind
  | notSquare .. | boundCount .. | startDimension .. | vertexCount .. | vertexDimension ..
  | positionCount .. | positionDimension .. | memberDimension .. => .dimensionMismatch
  | parameter .. | expansion .. | searchConstants .. | noTrialStep | emptyWindow | swarmTooSmall ..
  | populationTooSmall .. => .invalidParameter
  | noBound | boundNotFinite .. | boundReversed .. | boundsMissing => .bounds
  | infeasibleMember .. => .infeasiblePopulation
  | emptyStart | hessianMissing | emptyMember | startNotFinite .. | endpointNotFinite .. =>
    .invalidInput
  | singular => .singularMatrix
  | unreadable => .document
  | stated kind _ => kind

end Error

def ErrorKind.isConfiguration : ErrorKind → Bool
  | .singularMatrix | .other => false
  | _ => true

variable {α : Type}

def demand (condition : Bool) (e : Error α) : Except (Error α) Unit :=
  if condition then .ok () else .error e

@[simp] theorem demand_eq_ok (condition : Bool) (e : Error α) :
    demand condition e = .ok () ↔ condition = true := by
  cases condition <;> simp [demand]

@[simp] theorem demand_bind_eq_ok {β : Type} (condition : Bool) (e : Error α)
    (next : Unit → Except (Error α) β) (b : β) :
    demand condition e >>= next = .ok b ↔ condition = true ∧ next () = .ok b := by
  cases condition <;> simp [demand, bind, Except.bind]

theorem bind_eq_ok {β γ : Type} {x : Except (Error α) β} {next : β → Except (Error α) γ} {c : γ} :
    x >>= next = .ok c ↔ ∃ b, x = .ok b ∧ next b = .ok c := by
  cases x <;> simp [bind, Except.bind]

def Requirement.check [Scalar α] (r : Requirement) (name : String) (a : α) :
    Except (Error α) Unit :=
  demand (r.holds a) (.parameter name r a)

@[simp] theorem Requirement.check_eq_ok [Scalar α] (r : Requirement) (name : String) (a : α) :
    r.check name a = .ok () ↔ r.holds a = true := by simp [Requirement.check]

@[simp] theorem Requirement.check_bind_eq_ok [Scalar α] {β : Type} (r : Requirement)
    (name : String) (a : α) (next : Unit → Except (Error α) β) (b : β) :
    r.check name a >>= next = .ok b ↔ r.holds a = true ∧ next () = .ok b :=
  demand_bind_eq_ok _ _ next b

end Optima
