import Mathlib.LinearAlgebra.Matrix.PosDef
import Optima.Descent.Secant
import Optima.Proofs.Linear.Matrix

namespace Optima.Descent

open Matrix

variable {n : Nat}

noncomputable def secant (B : Matrix (Fin n) (Fin n) ℝ) (s y : Fin n → ℝ) :
    Matrix (Fin n) (Fin n) ℝ :=
  B + (y ⬝ᵥ s)⁻¹ • vecMulVec y y - (s ⬝ᵥ B *ᵥ s)⁻¹ • vecMulVec (B *ᵥ s) (B *ᵥ s)

variable {B : Matrix (Fin n) (Fin n) ℝ} {s y : Fin n → ℝ}

theorem secant_mulVec (x : Fin n → ℝ) :
    secant B s y *ᵥ x =
      B *ᵥ x + ((y ⬝ᵥ s)⁻¹ * (y ⬝ᵥ x)) • y -
        ((s ⬝ᵥ B *ᵥ s)⁻¹ * ((B *ᵥ s) ⬝ᵥ x)) • (B *ᵥ s) := by
  simp only [secant, sub_mulVec, add_mulVec, smul_mulVec, vecMulVec_mulVec]
  ext i
  simp
  ring

theorem secant_mulVec_step (hys : 0 < y ⬝ᵥ s) (hsbs : 0 < s ⬝ᵥ B *ᵥ s) :
    secant B s y *ᵥ s = y := by
  rw [secant_mulVec, dotProduct_comm (B *ᵥ s) s, inv_mul_cancel₀ hys.ne', inv_mul_cancel₀ hsbs.ne',
    one_smul, one_smul, add_sub_cancel_left]

theorem secant_isHermitian (hB : B.IsHermitian) : (secant B s y).IsHermitian := by
  apply IsHermitian.ext
  intro i j
  have hij : B j i = B i j := by simpa using hB.apply i j
  simp [secant, vecMulVec_apply, hij]
  ring

theorem dotProduct_mulVec_comm (hB : B.IsHermitian) (x z : Fin n → ℝ) :
    x ⬝ᵥ B *ᵥ z = z ⬝ᵥ B *ᵥ x := by
  have ht : Bᵀ = B := by simpa using hB.eq
  rw [dotProduct_mulVec, ← mulVec_transpose, ht, dotProduct_comm]

/-- What the form of the updated curvature is: that of the old one on what is left of a vector once
its part along the step is taken off, and a square. -/
theorem secant_form (hB : B.IsHermitian) (hsbs : 0 < s ⬝ᵥ B *ᵥ s) (x : Fin n → ℝ) :
    x ⬝ᵥ secant B s y *ᵥ x =
      (x - ((s ⬝ᵥ B *ᵥ s)⁻¹ * (x ⬝ᵥ B *ᵥ s)) • s) ⬝ᵥ
          B *ᵥ (x - ((s ⬝ᵥ B *ᵥ s)⁻¹ * (x ⬝ᵥ B *ᵥ s)) • s) +
        (y ⬝ᵥ s)⁻¹ * (y ⬝ᵥ x) ^ 2 := by
  rw [secant_mulVec, dotProduct_comm (B *ᵥ s) x]
  simp only [mulVec_sub, mulVec_smul, dotProduct_sub, sub_dotProduct, dotProduct_add,
    dotProduct_smul, smul_dotProduct, smul_eq_mul, dotProduct_mulVec_comm hB s x,
    dotProduct_comm x y]
  field_simp
  ring

theorem secant_posDef (hB : B.PosDef) (hys : 0 < y ⬝ᵥ s) (hsbs : 0 < s ⬝ᵥ B *ᵥ s) :
    (secant B s y).PosDef := by
  apply PosDef.of_dotProduct_mulVec_pos (secant_isHermitian hB.isHermitian)
  intro x hx
  rw [star_trivial, secant_form hB.isHermitian hsbs]
  generalize hc : (s ⬝ᵥ B *ᵥ s)⁻¹ * (x ⬝ᵥ B *ᵥ s) = c
  by_cases hz : x - c • s = 0
  · -- a multiple of the step, on which the square is positive
    have hxs : x = c • s := sub_eq_zero.1 hz
    have hc0 : c ≠ 0 := by
      intro h0
      apply hx
      rw [hxs, h0, zero_smul]
    rw [hz, hxs, zero_dotProduct, dotProduct_smul, smul_eq_mul]
    positivity
  · have hpos : 0 < (x - c • s) ⬝ᵥ B *ᵥ (x - c • s) := by
      simpa using hB.dotProduct_mulVec_pos hz
    positivity

theorem toMatrix_secantUpdate {b b' : Mat ℝ} {s y : Vec ℝ} (hb : b.Square n) (hs : s.length = n)
    (hy : y.length = n) (h : secantUpdate b s y = some b') :
    b'.Square n ∧ b'.toMatrix n = secant (b.toMatrix n) (s.toFun n) (y.toFun n) ∧
      0 < y.toFun n ⬝ᵥ s.toFun n ∧ 0 < s.toFun n ⬝ᵥ b.toMatrix n *ᵥ s.toFun n := by
  have hbs : (Mat.mulVec b s).length = n := by rw [Mat.mulVec_length, hb.length]
  simp only [secantUpdate, Vec.dot_eq hy hs, Vec.dot_eq hs hbs, Mat.toFun_mulVec hb hs] at h
  split at h
  · next hpos =>
    cases h
    have hyy := (Mat.Square.outer hy hy).map (· / (y.toFun n ⬝ᵥ s.toFun n))
    have hbb := (Mat.Square.outer hbs hbs).map (· / (s.toFun n ⬝ᵥ b.toMatrix n *ᵥ s.toFun n))
    refine ⟨(hb.zipWith (· + ·) hyy).zipWith (· - ·) hbb, ?_, ?_, ?_⟩
    · ext i j
      refine (Mat.toMatrix_zipWith (· - ·) (hb.zipWith (· + ·) hyy) hbb i j).trans ?_
      rw [Mat.toMatrix_zipWith _ hb hyy, Mat.toMatrix_map _ (Mat.Square.outer hy hy),
        Mat.toMatrix_map _ (Mat.Square.outer hbs hbs), Mat.toMatrix_outer hy hy,
        Mat.toMatrix_outer hbs hbs, Mat.toFun_mulVec hb hs]
      simp [secant, vecMulVec_apply, div_eq_inv_mul]
    · exact Exact.epsilon_pos.trans hpos.1
    · exact Exact.epsilon_pos.trans hpos.2
  · cases h

theorem secantUpdate_posDef {b b' : Mat ℝ} {s y : Vec ℝ} (hb : b.Square n)
    (hp : (b.toMatrix n).PosDef) (hs : s.length = n) (hy : y.length = n)
    (h : secantUpdate b s y = some b') :
    b'.Square n ∧ (b'.toMatrix n).PosDef ∧ Mat.mulVec b' s = y := by
  obtain ⟨hb', he, hys, hsbs⟩ := toMatrix_secantUpdate hb hs hy h
  refine ⟨hb', ?_, ?_⟩
  · rw [he]
    exact secant_posDef hp hys hsbs
  · apply Vec.ext_toFun (n := n) (by rw [Mat.mulVec_length, hb'.length]) hy
    rw [Mat.toFun_mulVec hb' hs, he, secant_mulVec_step hys hsbs]

end Optima.Descent
