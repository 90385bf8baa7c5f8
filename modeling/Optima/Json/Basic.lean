import Optima.Decimal.Digits

namespace Optima

structure Numeral where
  negative : Bool
  whole : List Nat
  fraction : List Nat
  exponent : Option Int
  deriving DecidableEq

inductive Json
  | null
  | bool (b : Bool)
  | number (n : Numeral)
  | text (s : Option String)
  | array (items : List Json)
  | object (members : List (Option String × Json))

namespace Numeral

open Decimal

def isWhole (n : Numeral) : Bool := n.fraction.isEmpty && n.exponent.isNone

def ofNat (n : Nat) : Numeral := ⟨false, if n = 0 then [0] else digits n, [], none⟩

/-- A whole number below `2 ^ 64`. A minus sign is refused, in front of zero too. -/
def word? (n : Numeral) : Option Nat :=
  if n.isWhole && !n.negative && ofDigits n.whole < UInt64.size then some (ofDigits n.whole)
  else none

end Numeral

end Optima
