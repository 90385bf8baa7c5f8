import Optima.Decimal.Binary64

/-!
The shortest decimal that reads back as a given binary64 number: the fewest digits that lie in
the interval of numbers that round to it, and of two such decimals the nearer one, the greater
when both are as near.
-/

namespace Optima.Decimal

/-- The numbers that round to `v`, all over the same denominator; the ends belong to the interval
when the significand is even. -/
structure Rounding where
  lower : Nat
  value : Nat
  upper : Nat
  closed : Bool

def Rounding.Holds (r : Rounding) (a : Nat) : Prop :=
  if r.closed then r.lower ≤ a ∧ a ≤ r.upper else r.lower < a ∧ a < r.upper

instance (r : Rounding) (a : Nat) : Decidable (r.Holds a) := by
  unfold Rounding.Holds; infer_instance

def Rounding.hit? (r : Rounding) (unit : Nat) : Option Nat :=
  let below := r.value / unit
  let above := below + 1
  let distanceBelow := r.value - below * unit
  let distanceAbove := above * unit - r.value
  if r.Holds (below * unit) then
    if r.Holds (above * unit) && distanceAbove ≤ distanceBelow then some above else some below
  else if r.Holds (above * unit) then some above
  else none

/-- The interval around `m * 2 ^ e` and the unit `10 ^ p`, over a common denominator. The
neighbour below a power of two is half as far as the one above it. -/
def rounding (m : Nat) (e p : Int) : Rounding × Nat :=
  let (a, b) := powerFraction 2 (e - 2)
  let (c, d) := powerFraction 10 p
  let scale := a * d
  let gap := if m = leadingBit ∧ e ≠ -1074 then 1 else 2
  (⟨(4 * m - gap) * scale, 4 * m * scale, (4 * m + 2) * scale, m % 2 = 0⟩, b * c)

def shortestFrom (m : Nat) (e point : Int) : Nat → Nat → Scientific
  | 0, count => .ofGrid 0 count
  | fuel + 1, count =>
    let unit := point - count
    let (r, u) := rounding m e unit
    match r.hit? u with
    | some g => .ofGrid g unit
    | none => shortestFrom m e point fuel (count + 1)

/-- The shortest decimal of `m * 2 ^ e`, for a positive `m`. Seventeen digits always suffice. -/
def shortest (m : Nat) (e : Int) : Scientific :=
  let (a, b) := powerFraction 2 e
  shortestFrom m e (magnitude (m * a) b) 17 1

end Optima.Decimal
