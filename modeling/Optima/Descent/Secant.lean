import Optima.Mat

namespace Optima.Descent

variable {α : Type} [Scalar α]

/-- The curvature `B + y yᵀ / (yᵀ s) - (B s)(B s)ᵀ / (sᵀ B s)` for a step `s` that changed the
gradient by `y`; `none` unless both denominators are safely positive. -/
def secantUpdate (b : Mat α) (s y : Vec α) : Option (Mat α) :=
  let ys := Vec.dot y s
  let bs := Mat.mulVec b s
  let sbs := Vec.dot s bs
  if Scalar.epsilon < ys ∧ Scalar.epsilon < sbs then
    some (Mat.sub (Mat.add b (Mat.quotient (Mat.outer y y) ys))
      (Mat.quotient (Mat.outer bs bs) sbs))
  else none

end Optima.Descent
