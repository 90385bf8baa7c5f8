import Optima.Box
import Optima.Goal
import Optima.LineSearch
import Optima.Stopping

namespace Optima.Descent

inductive Method
  | momentum
  | bfgs
  | conjugateGradient
  | boxConstrained
  deriving DecidableEq

structure Config (α : Type) where
  method : Method
  goal : Goal
  momentum : α
  lineSearch : LineSearch α
  stopping : Stopping α
  bounds : Option (Box α)
  differenceStep : Option α

namespace Config

variable {α : Type}

def within (c : Config α) (box : Box α) : Config α :=
  { c with bounds := some box, method := .boxConstrained }

def box (c : Config α) : Option (Box α) :=
  match c.method with
  | .boxConstrained => c.bounds
  | _ => none

variable [Scalar α]

def standard : Config α :=
  ⟨.momentum, .minimize, 0, LineSearch.standard, Stopping.standard, none, none⟩

def search (c : Config α) : LineSearch α :=
  match c.method with
  | .boxConstrained => c.lineSearch.limitTo 1
  | _ => c.lineSearch

def checkBounds (c : Config α) : Except (Error α) Unit :=
  match c.method, c.bounds with
  | .boxConstrained, none => .error .boundsMissing
  | _, some box => box.check
  | _, none => .ok ()

def check (c : Config α) : Except (Error α) Unit := do
  Requirement.fromZeroBelowOne.check "Momentum" c.momentum
  match c.differenceStep with
  | none => pure ()
  | some step => Requirement.usableStep.check "Finite difference step" step
  c.lineSearch.check
  c.stopping.check
  c.checkBounds

theorem parts_of_check {c : Config α} (h : c.check = .ok ()) :
    c.lineSearch.check = .ok () ∧ c.stopping.check = .ok () := by
  simp only [check, bind_eq_ok] at h
  obtain ⟨_, -, h⟩ := h
  split at h
  · simp only [bind_eq_ok] at h
    obtain ⟨_, hl, _, hs, -⟩ := h
    exact ⟨hl, hs⟩
  · simp only [bind_eq_ok] at h
    obtain ⟨_, -, _, hl, _, hs, -⟩ := h
    exact ⟨hl, hs⟩

end Config

end Optima.Descent
