import Optima.Decimal.Shortest
import Optima.Json.Basic
import Optima.Scalar

/-!
Binary64 numbers in JSON. `Numeral.nearest` is the number nearest to what is written.
`Numeral.float?` is how configurations are read: as many digits as a 64-bit word holds, rounded,
then multiplied or divided by the power of ten, rounded again; a number that overflows is refused.
-/

namespace Optima.Numeral

open Decimal

def withSign (negative : Bool) (x : Float) : Float := if negative then -x else x

def significand (n : Numeral) : List Nat × Int :=
  ((n.whole ++ n.fraction).dropWhile (· == 0), n.exponent.getD 0 - n.fraction.length)

def nearest (n : Numeral) : Float :=
  let (ds, scale) := n.significand
  let point := ds.length + scale
  let size :=
    if ds.isEmpty || point < -330 then 0
    else if 310 < point then 1 / 0
    else if 0 ≤ scale then Float.ofScientific (ofDigits ds) false scale.toNat
    else Float.ofScientific (ofDigits ds) true (-scale).toNat
  withSign n.negative size

def fill (word : Nat) : List Nat → Nat × Nat
  | [] => (word, 0)
  | d :: ds =>
    if 10 * word + d < UInt64.size then
      let (word, taken) := fill (10 * word + d) ds
      (word, taken + 1)
    else (word, 0)

def tenTo (e : Nat) : Float := Float.ofScientific 1 false e

def shrink : Nat → Float → Nat → Float
  | 0, _, _ => 0
  | steps + 1, x, e => if e ≤ 308 then x / tenTo e else shrink steps (x / tenTo 308) (e - 308)

/-- The value of a numeral in a configuration; `none` when it overflows. -/
def float? (n : Numeral) : Option Float :=
  let (word, taken) := fill 0 n.whole
  let (word', taken') := fill word n.fraction
  let e : Int := (n.whole.length - taken : Nat) - taken' + n.exponent.getD 0
  let size? :=
    if word' = 0 then some 0
    else if e < 0 then some (shrink 4 (Float.ofNat word') (-e).toNat)
    else if 308 < e then none
    else Scalar.finite? (Float.ofNat word' * tenTo e.toNat)
  size?.map (withSign n.negative)

def ofFloat? (x : Float) : Option Numeral :=
  match parts x with
  | .finite negative 0 _ => some ⟨negative, [0], [0], none⟩
  | .finite negative m e =>
    let s := shortest m e
    some ⟨negative, s.digits.take 1, if s.digits.length ≤ 1 then [0] else s.digits.drop 1,
      some (s.point - 1)⟩
  | _ => none

end Optima.Numeral
