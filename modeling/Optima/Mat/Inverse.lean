import Optima.Error
import Optima.Mat.Elimination

namespace Optima.Mat

variable {α : Type} [Scalar α]

def inverse2 (a b c d : α) : Option (Mat α) :=
  let det := a * d - c * b
  if det == 0 then none else some [[d / det, -b / det], [-c / det, a / det]]

def inverse3 (a b c d e f g h i : α) : Option (Mat α) :=
  let u := e * i - h * f
  let v := d * i - g * f
  let w := d * h - g * e
  let det := a * u - b * v + c * w
  if det == 0 then none
  else
    some
      [[u / det, (c * h - i * b) / det, (b * f - e * c) / det],
       [-v / det, (a * i - g * c) / det, (c * d - f * a) / det],
       [w / det, (b * g - h * a) / det, (a * e - d * b) / det]]

def inverse4 (m0 m1 m2 m3 m4 m5 m6 m7 m8 m9 m10 m11 m12 m13 m14 m15 : α) : Option (Mat α) :=
  let c00 :=
    m5 * m10 * m15 - m5 * m11 * m14 - m9 * m6 * m15 + m9 * m7 * m14 + m13 * m6 * m11
      - m13 * m7 * m10
  let c10 :=
    -m1 * m10 * m15 + m1 * m11 * m14 + m9 * m2 * m15 - m9 * m3 * m14 - m13 * m2 * m11
      + m13 * m3 * m10
  let c20 :=
    m1 * m6 * m15 - m1 * m7 * m14 - m5 * m2 * m15 + m5 * m3 * m14 + m13 * m2 * m7
      - m13 * m3 * m6
  let c30 :=
    -m1 * m6 * m11 + m1 * m7 * m10 + m5 * m2 * m11 - m5 * m3 * m10 - m9 * m2 * m7
      + m9 * m3 * m6
  let c01 :=
    -m4 * m10 * m15 + m4 * m11 * m14 + m8 * m6 * m15 - m8 * m7 * m14 - m12 * m6 * m11
      + m12 * m7 * m10
  let c11 :=
    m0 * m10 * m15 - m0 * m11 * m14 - m8 * m2 * m15 + m8 * m3 * m14 + m12 * m2 * m11
      - m12 * m3 * m10
  let c21 :=
    -m0 * m6 * m15 + m0 * m7 * m14 + m4 * m2 * m15 - m4 * m3 * m14 - m12 * m2 * m7
      + m12 * m3 * m6
  let c31 :=
    m0 * m6 * m11 - m0 * m7 * m10 - m4 * m2 * m11 + m4 * m3 * m10 + m8 * m2 * m7
      - m8 * m3 * m6
  let c02 :=
    m4 * m9 * m15 - m4 * m11 * m13 - m8 * m5 * m15 + m8 * m7 * m13 + m12 * m5 * m11
      - m12 * m7 * m9
  let c12 :=
    -m0 * m9 * m15 + m0 * m11 * m13 + m8 * m1 * m15 - m8 * m3 * m13 - m12 * m1 * m11
      + m12 * m3 * m9
  let c22 :=
    m0 * m5 * m15 - m0 * m7 * m13 - m4 * m1 * m15 + m4 * m3 * m13 + m12 * m1 * m7
      - m12 * m3 * m5
  let c03 :=
    -m4 * m9 * m14 + m4 * m10 * m13 + m8 * m5 * m14 - m8 * m6 * m13 - m12 * m5 * m10
      + m12 * m6 * m9
  let c32 :=
    -m0 * m5 * m11 + m0 * m7 * m9 + m4 * m1 * m11 - m4 * m3 * m9 - m8 * m1 * m7
      + m8 * m3 * m5
  let c13 :=
    m0 * m9 * m14 - m0 * m10 * m13 - m8 * m1 * m14 + m8 * m2 * m13 + m12 * m1 * m10
      - m12 * m2 * m9
  let c23 :=
    -m0 * m5 * m14 + m0 * m6 * m13 + m4 * m1 * m14 - m4 * m2 * m13 - m12 * m1 * m6
      + m12 * m2 * m5
  let c33 :=
    m0 * m5 * m10 - m0 * m6 * m9 - m4 * m1 * m10 + m4 * m2 * m9 + m8 * m1 * m6
      - m8 * m2 * m5
  let det := m0 * c00 + m1 * c01 + m2 * c02 + m3 * c03
  if det == 0 then none
  else
    some ([[c00, c01, c02, c03], [c10, c11, c12, c13], [c20, c21, c22, c23],
      [c30, c31, c32, c33]].map (Vec.scale · (1 / det)))

def inverseEntries : Mat α → Option (Mat α)
  | [] => some []
  | [[a]] => if a == 0 then none else some [[1 / a]]
  | [[a, b], [c, d]] => inverse2 a b c d
  | [[a, b, c], [d, e, f], [g, h, i]] => inverse3 a b c d e f g h i
  | [[m0, m4, m8, m12], [m1, m5, m9, m13], [m2, m6, m10, m14], [m3, m7, m11, m15]] =>
    inverse4 m0 m1 m2 m3 m4 m5 m6 m7 m8 m9 m10 m11 m12 m13 m14 m15
  | a => eliminationInverse a

def inverse? (a : Mat α) : Option (Mat α) :=
  (inverseEntries a).filter (·.all Vec.isFinite)

def invert (a : Mat α) : Except (Error α) (Mat α) := do
  demand (a.length == a.cols) (.notSquare a.length a.cols)
  match a.inverse? with
  | some b => pure b
  | none => .error .singular

end Optima.Mat
