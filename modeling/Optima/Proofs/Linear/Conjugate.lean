import Mathlib.LinearAlgebra.FiniteDimensional.Lemmas
import Optima.Proofs.Linear.Secant

namespace Optima.Descent

open Matrix Submodule

variable {n : Nat}

/-- A gradient `g` and the direction `d` to take next, once the directions of `W` have been
taken. -/
structure Conjugate (A : Matrix (Fin n) (Fin n) ℝ) (W : Submodule ℝ (Fin n → ℝ))
    (g d : Fin n → ℝ) : Prop where
  orthogonal : ∀ w ∈ W, g ⬝ᵥ w = 0
  conjugate : ∀ w ∈ W, d ⬝ᵥ A *ᵥ w = 0
  image : ∀ w ∈ W, A *ᵥ w ∈ W ⊔ span ℝ {d}
  direction : d + g ∈ W

variable {A : Matrix (Fin n) (Fin n) ℝ} {W : Submodule ℝ (Fin n → ℝ)} {g d : Fin n → ℝ}

theorem orthogonal_sup {v : Fin n → ℝ} (hW : ∀ w ∈ W, v ⬝ᵥ w = 0) (hd : v ⬝ᵥ d = 0) :
    ∀ w ∈ W ⊔ span ℝ {d}, v ⬝ᵥ w = 0 := by
  intro w hw
  obtain ⟨u, hu, z, hz, rfl⟩ := mem_sup.1 hw
  obtain ⟨c, rfl⟩ := mem_span_singleton.1 hz
  rw [dotProduct_add, dotProduct_smul, hW u hu, hd, smul_zero, add_zero]

theorem mulVec_mem_sup {V : Submodule ℝ (Fin n → ℝ)} (hW : ∀ w ∈ W, A *ᵥ w ∈ V)
    (hd : A *ᵥ d ∈ V) : ∀ w ∈ W ⊔ span ℝ {d}, A *ᵥ w ∈ V := by
  intro w hw
  obtain ⟨u, hu, z, hz, rfl⟩ := mem_sup.1 hw
  obtain ⟨c, rfl⟩ := mem_span_singleton.1 hz
  rw [mulVec_add, mulVec_smul]
  exact add_mem (hW u hu) (smul_mem V c hd)

theorem mem_sup_span (W : Submodule ℝ (Fin n → ℝ)) (d : Fin n → ℝ) : d ∈ W ⊔ span ℝ {d} :=
  mem_sup_right (mem_span_singleton_self d)

theorem dotProduct_mulVec_self_ne_zero (hA : A.PosDef) (hd : d ≠ 0) : d ⬝ᵥ A *ᵥ d ≠ 0 := by
  have hpos := hA.dotProduct_mulVec_pos hd
  rw [star_trivial] at hpos
  exact hpos.ne'

namespace Conjugate

theorem start (A : Matrix (Fin n) (Fin n) ℝ) (g : Fin n → ℝ) : Conjugate A ⊥ g (-g) := by
  constructor
  · intro w hw
    rw [(mem_bot ℝ).1 hw, dotProduct_zero]
  · intro w hw
    rw [(mem_bot ℝ).1 hw, mulVec_zero, dotProduct_zero]
  · intro w hw
    rw [(mem_bot ℝ).1 hw, mulVec_zero]
    exact zero_mem _
  · rw [neg_add_cancel]
    exact zero_mem _

theorem gradient_eq_zero_of_mem (h : Conjugate A W g d) (hg : g ∈ W) : g = 0 :=
  dotProduct_self_eq_zero.1 (h.orthogonal g hg)

theorem gradient_eq_zero (h : Conjugate A W g d) (hd : d = 0) : g = 0 := by
  apply h.gradient_eq_zero_of_mem
  have hdir := h.direction
  rwa [hd, zero_add] at hdir

theorem gradient_mem (h : Conjugate A W g d) : g ∈ W ⊔ span ℝ {d} := by
  have hg : g = d + g - d := by rw [add_sub_cancel_left]
  rw [hg]
  exact sub_mem (mem_sup_left h.direction) (mem_sup_span W d)

theorem notMem (h : Conjugate A W g d) (hA : A.PosDef) (hd : d ≠ 0) : d ∉ W := by
  intro hW
  exact dotProduct_mulVec_self_ne_zero hA hd (h.conjugate d hW)

theorem dotProduct_gradient (h : Conjugate A W g d) : d ⬝ᵥ g = -(g ⬝ᵥ g) := by
  have hdir := h.orthogonal _ h.direction
  rw [dotProduct_add, dotProduct_comm g d] at hdir
  exact eq_neg_of_add_eq_zero_left hdir

theorem dotProduct_gradient_ne_zero (h : Conjugate A W g d) (hA : A.PosDef) (hd : d ≠ 0) :
    d ⬝ᵥ g ≠ 0 := by
  intro h0
  rw [h.dotProduct_gradient, neg_eq_zero, dotProduct_self_eq_zero] at h0
  have hmem := h.direction
  rw [h0, add_zero] at hmem
  exact h.notMem hA hd hmem

section Step

variable {α β : ℝ} {g' : Fin n → ℝ}

theorem step_orthogonal (h : Conjugate A W g d) (hA : A.PosDef) (hd : d ≠ 0)
    (hα : α = -(d ⬝ᵥ g) / (d ⬝ᵥ A *ᵥ d)) (hg : g' = g + α • A *ᵥ d) :
    ∀ w ∈ W ⊔ span ℝ {d}, g' ⬝ᵥ w = 0 := by
  subst hg
  apply orthogonal_sup
  · intro w hw
    rw [add_dotProduct, smul_dotProduct, dotProduct_comm (A *ᵥ d) w,
      dotProduct_mulVec_comm hA.isHermitian, h.orthogonal w hw, h.conjugate w hw, smul_zero,
      add_zero]
  · rw [add_dotProduct, smul_dotProduct, dotProduct_comm (A *ᵥ d) d, hα, smul_eq_mul,
      div_mul_cancel₀ _ (dotProduct_mulVec_self_ne_zero hA hd), dotProduct_comm g d,
      add_neg_cancel]

theorem step_conjugate (h : Conjugate A W g d) (hA : A.PosDef) (hd : d ≠ 0)
    (horth : ∀ w ∈ W ⊔ span ℝ {d}, g' ⬝ᵥ w = 0)
    (hβ : β = (g' ⬝ᵥ A *ᵥ d) / (d ⬝ᵥ A *ᵥ d)) :
    ∀ w ∈ W ⊔ span ℝ {d}, (β • d - g') ⬝ᵥ A *ᵥ w = 0 := by
  intro w hw
  rw [dotProduct_mulVec_comm hA.isHermitian, dotProduct_comm]
  refine orthogonal_sup ?_ ?_ w hw
  · -- a direction of `W` is mapped to where the new gradient is orthogonal
    intro u hu
    rw [dotProduct_comm, dotProduct_mulVec_comm hA.isHermitian, sub_dotProduct, smul_dotProduct,
      h.conjugate u hu, horth _ (h.image u hu), smul_zero, sub_zero]
  · rw [dotProduct_comm, dotProduct_mulVec_comm hA.isHermitian, sub_dotProduct, smul_dotProduct,
      hβ, smul_eq_mul, div_mul_cancel₀ _ (dotProduct_mulVec_self_ne_zero hA hd), sub_self]

theorem step_image (h : Conjugate A W g d) (hα : α ≠ 0) (hg : g' = g + α • A *ᵥ d) (β : ℝ) :
    ∀ w ∈ W ⊔ span ℝ {d}, A *ᵥ w ∈ W ⊔ span ℝ {d} ⊔ span ℝ {β • d - g'} := by
  apply mulVec_mem_sup
  · intro w hw
    exact mem_sup_left (h.image w hw)
  · -- the image of `d` is the change of the gradient over the length of the step
    have hAd : A *ᵥ d = α⁻¹ • (β • d - (β • d - g') - g) := by
      rw [hg, sub_sub_cancel, add_sub_cancel_left, inv_smul_smul₀ hα]
    rw [hAd]
    apply smul_mem
    apply sub_mem
    · exact sub_mem (mem_sup_left (smul_mem _ β (mem_sup_span W d))) (mem_sup_span _ _)
    · exact mem_sup_left h.gradient_mem

theorem step (h : Conjugate A W g d) (hA : A.PosDef) (hd : d ≠ 0)
    (hα : α = -(d ⬝ᵥ g) / (d ⬝ᵥ A *ᵥ d)) (hg : g' = g + α • A *ᵥ d)
    (hβ : β = (g' ⬝ᵥ A *ᵥ d) / (d ⬝ᵥ A *ᵥ d)) :
    Conjugate A (W ⊔ span ℝ {d}) g' (β • d - g') := by
  have horth := h.step_orthogonal hA hd hα hg
  have hα0 : α ≠ 0 := by
    rw [hα]
    exact div_ne_zero (neg_ne_zero.2 (h.dotProduct_gradient_ne_zero hA hd))
      (dotProduct_mulVec_self_ne_zero hA hd)
  constructor
  · exact horth
  · exact h.step_conjugate hA hd horth hβ
  · exact h.step_image hα0 hg β
  · rw [sub_add_cancel]
    exact smul_mem _ β (mem_sup_span W d)

end Step

theorem finrank_lt (h : Conjugate A W g d) (hA : A.PosDef) (hd : d ≠ 0) :
    Module.finrank ℝ W < Module.finrank ℝ (W ⊔ span ℝ {d} : Submodule ℝ (Fin n → ℝ)) := by
  apply finrank_lt_finrank_of_lt
  apply lt_of_le_of_ne le_sup_left
  intro he
  apply h.notMem hA hd
  rw [he]
  exact mem_sup_span W d

theorem gradient_eq_zero_of_finrank (h : Conjugate A W g d) (hn : n ≤ Module.finrank ℝ W) :
    g = 0 := by
  apply h.gradient_eq_zero_of_mem
  have htop : W = ⊤ := by
    apply eq_top_of_finrank_eq
    apply le_antisymm (finrank_le W)
    simpa using hn
  rw [htop]
  exact mem_top

end Conjugate

end Optima.Descent
