import Optima.Decimal.Digits

namespace Optima.Decimal

inductive Parts
  | nan
  | infinite (negative : Bool)
  | finite (negative : Bool) (significand : Nat) (exponent : Int)
  deriving DecidableEq

def leadingBit : Nat := 4503599627370496

def parts (x : Float) : Parts :=
  let bits := x.toBits.toNat
  let negative := bits >>> 63 == 1
  let field := (bits >>> 52) % 2048
  let fraction := bits % leadingBit
  if field = 2047 then
    if fraction = 0 then .infinite negative else .nan
  else if field = 0 then .finite negative fraction (-1074)
  else .finite negative (leadingBit + fraction) ((field : Int) - 1075)

def powerFraction (base : Nat) : Int → Nat × Nat
  | .ofNat e => (base.pow e, 1)
  | .negSucc e => (1, base.pow (e + 1))

def magnitude (n d : Nat) : Int :=
  if d ≤ n then (digits (n / d)).length else 1 - ((digits ((d - 1) / n)).length : Int)

structure Scientific where
  digits : List Nat
  point : Int
  deriving DecidableEq

def Scientific.ofGrid (g : Nat) (unit : Int) : Scientific :=
  let ds := Decimal.digits g
  ⟨(ds.reverse.dropWhile (· == 0)).reverse, ds.length + unit⟩

end Optima.Decimal
