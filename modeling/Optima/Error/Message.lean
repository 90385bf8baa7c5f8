import Optima.Decimal.Text
import Optima.Error

namespace Optima

open Decimal (natText plain)

def Requirement.text : Requirement → String
  | .finite => "must be finite"
  | .positive | .usableStep => "must be positive"
  | .positiveFinite => "must be positive and finite"
  | .nonNegative => "must be non-negative"
  | .finiteNonNegative => "must be finite and non-negative"
  | .fromZeroBelowOne => "must lie in [0, 1)"
  | .insideUnit => "must lie in (0, 1)"
  | .aboveZeroToOne => "must lie in (0, 1]"
  | .fromZeroToOne => "must lie in [0, 1]"
  | .aboveZeroToTwo => "must lie in (0, 2]"

namespace Error

def detail : Error Float → String
  | notSquare rows cols =>
    "Expected a square matrix, got " ++ natText rows ++ "x" ++ natText cols
  | boundCount expected found =>
    "Expected " ++ natText expected ++ " bounds, got " ++ natText found
  | startDimension expected found =>
    "Expected a start point of dimension " ++ natText expected ++ ", got " ++ natText found
  | vertexCount dimension found =>
    "A simplex in " ++ natText dimension ++ " dimensions needs " ++ natText (dimension + 1)
      ++ " vertices, got " ++ natText found
  | vertexDimension expected found =>
    "Expected vertices of dimension " ++ natText expected ++ ", got " ++ natText found
  | positionCount expected found =>
    "Position generator returned " ++ natText found ++ " points for a swarm of "
      ++ natText expected
  | positionDimension expected found =>
    "Expected positions of dimension " ++ natText expected ++ ", got " ++ natText found
  | memberDimension member expected found =>
    "Member " ++ natText member ++ " has dimension " ++ natText found ++ ", expected "
      ++ natText expected
  | parameter name requirement value =>
    name ++ " " ++ requirement.text ++ ", got " ++ plain value
  | expansion value =>
    "Expansion coefficient must exceed 1 and the reflection coefficient, got " ++ plain value
  | searchConstants c1 c2 =>
    "Line search constants must satisfy 0 < c1 < c2 < 1, got c1=" ++ plain c1 ++ ", c2="
      ++ plain c2
  | noTrialStep => "Line search needs at least one iteration"
  | emptyWindow => "max_static_iterations must be positive"
  | swarmTooSmall size => "Swarm size must be at least 2, got " ++ natText size
  | populationTooSmall size => "Population must have more than 4 members, got " ++ natText size
  | noBound => "At least one coordinate bound is required"
  | boundNotFinite i lower upper =>
    "Bound " ++ natText i ++ " is not finite: [" ++ plain lower ++ ", " ++ plain upper ++ "]"
  | boundReversed i lower upper =>
    "Bound " ++ natText i ++ " has lower " ++ plain lower ++ " greater than upper " ++ plain upper
  | boundsMissing => "Box-constrained descent needs bounds"
  | infeasibleMember i =>
    "Member " ++ natText i ++ " of the initial population is not feasible"
  | emptyStart => "Initial point must have at least one coordinate"
  | hessianMissing => "Conjugate gradient descent needs an objective with an analytic Hessian"
  | emptyMember => "Population members must have at least one coordinate"
  | startNotFinite start => "Initial guess must be finite, got " ++ plain start
  | endpointNotFinite lower upper =>
    "Bracket endpoints must be finite, got [" ++ plain lower ++ ", " ++ plain upper ++ "]"
  | singular => ""
  | unreadable => "the document does not describe the value"
  | stated _ text => text

def message (e : Error Float) : String :=
  match e.kind with
  | .dimensionMismatch => "Dimension mismatch: " ++ e.detail
  | .invalidParameter => "Invalid parameter value: " ++ e.detail
  | .bounds => "Bounds error: " ++ e.detail
  | .infeasiblePopulation => "Infeasible population: " ++ e.detail
  | .invalidInput => "Invalid input: " ++ e.detail
  | .singularMatrix => "Singular matrix encountered"
  | .document => "JSON error: " ++ e.detail
  | .other => "Error: " ++ e.detail

end Error

end Optima
