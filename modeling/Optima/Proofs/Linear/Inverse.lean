import Mathlib.LinearAlgebra.Matrix.Notation
import Optima.Mat.Inverse
import Optima.Proofs.Linear.Elimination

namespace Optima.Mat

open Matrix

variable {n : Nat}

def Inverts (n : Nat) (a b : Mat ℝ) : Prop := b.Square n ∧ a.toMatrix n * b.toMatrix n = 1

theorem inverts_of_cofactors {a c : Mat ℝ} {d : ℝ} (hu : IsUnit (a.toMatrix n))
    (hc : c.Square n) (hdet : (a.toMatrix n).det = d)
    (h : a.toMatrix n * c.toMatrix n = d • 1) {f : ℝ → ℝ} (hf : ∀ v, f v = d⁻¹ * v) :
    d ≠ 0 ∧ Inverts n a (c.map (List.map f)) := by
  have hd : d ≠ 0 := by
    rw [← hdet]
    exact ((Matrix.isUnit_iff_isUnit_det _).1 hu).ne_zero
  have hm : toMatrix n (c.map (List.map f)) = d⁻¹ • c.toMatrix n := by
    ext i j
    rw [toMatrix_map f hc, hf]
    rfl
  refine ⟨hd, hc.map f, ?_⟩
  rw [hm, Matrix.mul_smul, h, smul_smul, inv_mul_cancel₀ hd, one_smul]

theorem inverse1_spec {a : ℝ} (hu : IsUnit (toMatrix 1 [[a]])) :
    a ≠ 0 ∧ Inverts 1 [[a]] [[1 / a]] := by
  have hm : toMatrix 1 [[a]] = !![a] := by
    ext i j
    fin_cases i
    fin_cases j
    rfl
  have hs : Square 1 [[1]] := ⟨rfl, by simp⟩
  refine inverts_of_cofactors hu hs ?_ ?_ (f := (· / a)) fun v => div_eq_inv_mul v a
  · rw [hm, det_fin_one_of]
  · rw [hm]
    ext i j
    fin_cases i
    fin_cases j
    simp [Matrix.mul_apply, toMatrix, Vec.toFun]

theorem inverse2_spec {a b c d : ℝ} (hu : IsUnit (toMatrix 2 [[a, b], [c, d]])) :
    ∃ x, inverse2 a b c d = some x ∧ Inverts 2 [[a, b], [c, d]] x := by
  have hm : toMatrix 2 [[a, b], [c, d]] = !![a, b; c, d] := by
    ext i j
    fin_cases i <;> fin_cases j <;> rfl
  have hx : toMatrix 2 [[d, -b], [-c, a]] = !![d, -b; -c, a] := by
    ext i j
    fin_cases i <;> fin_cases j <;> rfl
  have hs : Square 2 [[d, -b], [-c, a]] := ⟨rfl, by simp⟩
  have hdet : (toMatrix 2 [[a, b], [c, d]]).det = a * d - c * b := by
    rw [hm, det_fin_two_of]
    ring
  have hmul : toMatrix 2 [[a, b], [c, d]] * toMatrix 2 [[d, -b], [-c, a]] =
      (a * d - c * b) • 1 := by
    rw [hm, hx]
    ext i j
    fin_cases i <;> fin_cases j <;> simp <;> ring
  obtain ⟨hd, hi⟩ :=
    inverts_of_cofactors hu hs hdet hmul (f := (· / (a * d - c * b))) fun v => div_eq_inv_mul v _
  refine ⟨_, ?_, hi⟩
  simp only [inverse2, Exact.literal_zero, beq_iff_eq, hd, if_false]
  rfl

theorem inverse3_spec {a b c d e f g h i : ℝ}
    (hu : IsUnit (toMatrix 3 [[a, b, c], [d, e, f], [g, h, i]])) :
    ∃ x, inverse3 a b c d e f g h i = some x ∧
      Inverts 3 [[a, b, c], [d, e, f], [g, h, i]] x := by
  unfold inverse3
  extract_lets u v w det
  let cofactors : Mat ℝ :=
    [[u, c * h - i * b, b * f - e * c], [-v, a * i - g * c, c * d - f * a],
     [w, b * g - h * a, a * e - d * b]]
  have hm : toMatrix 3 [[a, b, c], [d, e, f], [g, h, i]] = !![a, b, c; d, e, f; g, h, i] := by
    ext i j
    fin_cases i <;> fin_cases j <;> rfl
  have hx : toMatrix 3 cofactors =
      !![u, c * h - i * b, b * f - e * c; -v, a * i - g * c, c * d - f * a;
        w, b * g - h * a, a * e - d * b] := by
    ext i j
    fin_cases i <;> fin_cases j <;> rfl
  have hs : Square 3 cofactors := ⟨rfl, by simp [cofactors]⟩
  have hdet : (toMatrix 3 [[a, b, c], [d, e, f], [g, h, i]]).det = det := by
    rw [hm, det_fin_three]
    simp [det, u, v, w]
    ring
  have hmul : toMatrix 3 [[a, b, c], [d, e, f], [g, h, i]] * toMatrix 3 cofactors = det • 1 := by
    rw [hm, hx]
    ext i j
    fin_cases i <;> fin_cases j <;> simp [det, u, v, w] <;> ring
  obtain ⟨hd, hi⟩ :=
    inverts_of_cofactors hu hs hdet hmul (f := (· / det)) fun v => div_eq_inv_mul v det
  refine ⟨_, ?_, hi⟩
  simp only [Exact.literal_zero, beq_iff_eq, hd, if_false]
  rfl

theorem det_four (m0 m1 m2 m3 m4 m5 m6 m7 m8 m9 m10 m11 m12 m13 m14 m15 : ℝ) :
    (!![m0, m4, m8, m12; m1, m5, m9, m13; m2, m6, m10, m14; m3, m7, m11, m15]).det =
      m0 * (m5 * m10 * m15 - m5 * m11 * m14 - m9 * m6 * m15 + m9 * m7 * m14 + m13 * m6 * m11
        - m13 * m7 * m10) +
      m1 * (-m4 * m10 * m15 + m4 * m11 * m14 + m8 * m6 * m15 - m8 * m7 * m14 - m12 * m6 * m11
        + m12 * m7 * m10) +
      m2 * (m4 * m9 * m15 - m4 * m11 * m13 - m8 * m5 * m15 + m8 * m7 * m13 + m12 * m5 * m11
        - m12 * m7 * m9) +
      m3 * (-m4 * m9 * m14 + m4 * m10 * m13 + m8 * m5 * m14 - m8 * m6 * m13 - m12 * m5 * m10
        + m12 * m6 * m9) := by
  have h1 : (1 : Fin 4).succAbove 2 = 3 := rfl
  have h2 : (2 : Fin 4).succAbove 2 = 3 := rfl
  have h3 : (3 : Fin 4).succAbove 2 = 2 := rfl
  simp [det_succ_row_zero, Fin.sum_univ_succ, h1, h2, h3]
  ring

theorem inverse4_spec {m0 m1 m2 m3 m4 m5 m6 m7 m8 m9 m10 m11 m12 m13 m14 m15 : ℝ}
    (hu : IsUnit (toMatrix 4
      [[m0, m4, m8, m12], [m1, m5, m9, m13], [m2, m6, m10, m14], [m3, m7, m11, m15]])) :
    ∃ x, inverse4 m0 m1 m2 m3 m4 m5 m6 m7 m8 m9 m10 m11 m12 m13 m14 m15 = some x ∧
      Inverts 4
        [[m0, m4, m8, m12], [m1, m5, m9, m13], [m2, m6, m10, m14], [m3, m7, m11, m15]] x := by
  have hm : toMatrix 4
      [[m0, m4, m8, m12], [m1, m5, m9, m13], [m2, m6, m10, m14], [m3, m7, m11, m15]] =
      !![m0, m4, m8, m12; m1, m5, m9, m13; m2, m6, m10, m14; m3, m7, m11, m15] := by
    ext i j
    fin_cases i <;> fin_cases j <;> rfl
  unfold inverse4
  extract_lets c00 c10 c20 c30 c01 c11 c21 c31 c02 c12 c22 c03 c32 c13 c23 c33 det
  let cofactors : Mat ℝ :=
    [[c00, c01, c02, c03], [c10, c11, c12, c13], [c20, c21, c22, c23], [c30, c31, c32, c33]]
  have hx : toMatrix 4 cofactors =
      !![c00, c01, c02, c03; c10, c11, c12, c13; c20, c21, c22, c23; c30, c31, c32, c33] := by
    ext i j
    fin_cases i <;> fin_cases j <;> rfl
  have hs : Square 4 cofactors := ⟨rfl, by simp [cofactors]⟩
  have hdet : (toMatrix 4
      [[m0, m4, m8, m12], [m1, m5, m9, m13], [m2, m6, m10, m14], [m3, m7, m11, m15]]).det =
      det := by
    rw [hm, det_four]
  have hmul : toMatrix 4
      [[m0, m4, m8, m12], [m1, m5, m9, m13], [m2, m6, m10, m14], [m3, m7, m11, m15]] *
      toMatrix 4 cofactors = det • 1 := by
    rw [hm, hx]
    ext i j
    fin_cases i <;> fin_cases j <;>
      simp [Matrix.mul_apply, Fin.sum_univ_four, det, c00, c10, c20, c30, c01, c11, c21, c31, c02,
        c12, c22, c03, c32, c13, c23, c33] <;>
      ring
  obtain ⟨hd, hi⟩ :=
    inverts_of_cofactors hu hs hdet hmul (f := (· * (1 / det))) fun v => by rw [one_div, mul_comm]
  refine ⟨_, ?_, hi⟩
  simp only [Exact.literal_zero, Exact.literal_one, beq_iff_eq, hd, if_false]
  rfl

theorem inverseEntries_spec {a : Mat ℝ} (ha : a.Square n) (h : IsUnit (a.toMatrix n)) :
    ∃ b, inverseEntries a = some b ∧ Inverts n a b := by
  unfold inverseEntries
  split
  · obtain rfl : n = 0 := ha.length.symm
    refine ⟨[], rfl, ha, ?_⟩
    ext i
    exact i.elim0
  · next x =>
    obtain rfl : n = 1 := ha.length.symm
    obtain ⟨hx, hi⟩ := inverse1_spec h
    exact ⟨_, by simp [hx], hi⟩
  · obtain rfl : n = 2 := ha.length.symm
    exact inverse2_spec h
  · obtain rfl : n = 3 := ha.length.symm
    exact inverse3_spec h
  · obtain rfl : n = 4 := ha.length.symm
    exact inverse4_spec h
  · exact eliminationInverse_spec ha h

theorem inverse?_spec {a : Mat ℝ} (ha : a.Square n) (h : IsUnit (a.toMatrix n)) :
    ∃ b, inverse? a = some b ∧ b.Square n ∧ b.toMatrix n = (a.toMatrix n)⁻¹ := by
  obtain ⟨b, hb, hs, hab⟩ := inverseEntries_spec ha h
  refine ⟨b, ?_, hs, (Matrix.inv_eq_right_inv hab).symm⟩
  simp [inverse?, hb, Vec.isFinite]

end Optima.Mat
