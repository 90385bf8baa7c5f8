/-!
The numbers that a search computes with. The searches are written once, over any `Scalar`: they
run on binary64 numbers, and they can be reasoned about over an exact ordered field, in which
every number is finite.
-/

namespace Optima

/-- Numbers with order, field operations and the tests that tell finite numbers from the rest.
In an exact field `isFinite` always holds, `isNaN` never does and `infinity` is never read. -/
class Scalar (α : Type) extends Add α, Sub α, Mul α, Div α, Neg α, LT α, LE α, BEq α where
  ofNat : Nat → α
  ofScientific : Nat → Bool → Nat → α
  sqrt : α → α
  abs : α → α
  infinity : α
  nan : α
  isFinite : α → Bool
  isNaN : α → Bool
  isNegative : α → Bool
  decideLt : (a b : α) → Decidable (a < b)
  decideLe : (a b : α) → Decidable (a ≤ b)

variable {α : Type} [Scalar α]

instance (priority := low) Scalar.instOfNat (n : Nat) : OfNat α n := ⟨Scalar.ofNat n⟩

instance (priority := low) Scalar.instOfScientific : OfScientific α := ⟨Scalar.ofScientific⟩

instance (priority := low) Scalar.instDecidableLt (a b : α) : Decidable (a < b) :=
  Scalar.decideLt a b

instance (priority := low) Scalar.instDecidableLe (a b : α) : Decidable (a ≤ b) :=
  Scalar.decideLe a b

instance : Scalar Float where
  ofNat := Float.ofNat
  ofScientific := Float.ofScientific
  sqrt := Float.sqrt
  abs := Float.abs
  infinity := 1 / 0
  nan := 0 / 0
  isFinite := Float.isFinite
  isNaN := Float.isNaN
  isNegative a := a.toBits >>> 63 == 1
  decideLt := inferInstance
  decideLe := inferInstance

namespace Scalar

/-- The greater of two numbers, of two equal ones the second; a NaN gives way to the other one. -/
def greater (a b : α) : α := if isNaN a then b else if a ≤ b then b else a

def lesser (a b : α) : α := if isNaN a then b else if b ≤ a then b else a

def epsilon : α := 1 / 4503599627370496

def sameSign (a b : α) : Bool := isNegative a == isNegative b

def ranked (a : α) : α := if isNaN a then infinity else a

def finite? (a : α) : Option α := if isFinite a then some a else none

end Scalar

end Optima
