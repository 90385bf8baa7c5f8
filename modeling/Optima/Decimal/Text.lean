import Optima.Decimal.Shortest

namespace Optima.Decimal

structure Layout where
  isPositional : Int → Bool
  afterWhole : String

def Layout.positional (l : Layout) (s : Scientific) : String :=
  let n := s.point.toNat
  if s.point ≤ 0 then "0." ++ text (List.replicate (-s.point).toNat 0) ++ text s.digits
  else if s.digits.length ≤ n then
    text s.digits ++ text (List.replicate (n - s.digits.length) 0) ++ l.afterWhole
  else text (s.digits.take n) ++ "." ++ text (s.digits.drop n)

def exponential (ds : List Nat) (exponent : Int) : String :=
  text (ds.take 1) ++ (if ds.length ≤ 1 then "" else "." ++ text (ds.drop 1)) ++ "e"
    ++ intText exponent

def signed (negative : Bool) (t : String) : String := if negative then "-" ++ t else t

def Layout.write (l : Layout) (x : Float) : String :=
  match parts x with
  | .nan => "NaN"
  | .infinite negative => signed negative "inf"
  | .finite negative 0 _ => signed negative ("0" ++ l.afterWhole)
  | .finite negative m e =>
    let s := shortest m e
    signed negative
      (if l.isPositional s.point then l.positional s else exponential s.digits (s.point - 1))

def plain : Float → String := Layout.write ⟨fun _ => true, ""⟩

def exact : Float → String := Layout.write ⟨fun point => -3 ≤ point && point ≤ 16, ".0"⟩

def divideHalfEven (n d : Nat) : Nat :=
  let q := n / d
  let r := n % d
  if 2 * r < d ∨ 2 * r = d ∧ q % 2 = 0 then q else q + 1

def sevenDigits (m : Nat) (e : Int) : Nat × Int :=
  let (a, b) := powerFraction 2 e
  let point := magnitude (m * a) b
  let (c, d) := powerFraction 10 (point - 7)
  let g := divideHalfEven (m * a * d) (b * c)
  if g = 10000000 then (1000000, point) else (g, point - 1)

def scientific (x : Float) : String :=
  match parts x with
  | .nan => "NaN"
  | .infinite negative => signed negative "inf"
  | .finite negative 0 _ => signed negative "0.000000e0"
  | .finite negative m e =>
    let (g, exponent) := sevenDigits m e
    signed negative (exponential (digits g) exponent)

end Optima.Decimal
