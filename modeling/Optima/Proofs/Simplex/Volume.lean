import Mathlib.Data.List.GetD
import Mathlib.LinearAlgebra.Matrix.NonsingularInverse
import Optima.Proofs.Linear.Matrix
import Optima.Proofs.Simplex.Sorting

namespace Optima

theorem List.exists_perm_getD {β : Type} {xs ys : List β} (h : xs.Perm ys) {n : ℕ}
    (hn : xs.length = n) (d : β) :
    ∃ σ : Equiv.Perm (Fin n), ∀ i : Fin n, xs.getD i d = ys.getD (σ i) d := by
  classical
  have hl : ys.length = n := h.length_eq.symm.trans hn
  subst hn
  let f : Fin xs.length → Fin xs.length := fun i => Fin.cast hl (h.subperm.idxInj i)
  have hf : Function.Injective f := fun i j hij =>
    h.subperm.idxInj_injective (Fin.cast_injective hl hij)
  refine ⟨Equiv.ofBijective f (Finite.injective_iff_bijective.1 hf), ?_⟩
  intro i
  have hget : ys[(h.subperm.idxInj i : ℕ)] = xs[(i : ℕ)] := List.Subperm.getElem_idxInj_eq_getElem _
  rw [List.getD_eq_getElem _ _ i.isLt, ← hget]
  exact (List.getD_eq_getElem ys d _).symm

namespace Simplex

section Points

variable {n : ℕ}

def edgesOf (p : Fin (n + 1) → Fin n → ℝ) : Matrix (Fin n) (Fin n) ℝ :=
  .of fun i => p i.succ - p 0

def bordered (p : Fin (n + 1) → Fin n → ℝ) : Matrix (Fin (n + 1)) (Fin (n + 1)) ℝ :=
  .of fun k => Fin.cons 1 (p k)

def reduced (p : Fin (n + 1) → Fin n → ℝ) : Matrix (Fin (n + 1)) (Fin (n + 1)) ℝ :=
  .of (Fin.cons (Fin.cons 1 (p 0)) fun i => Fin.cons 0 (edgesOf p i))

theorem det_reduced (p : Fin (n + 1) → Fin n → ℝ) : (reduced p).det = (edgesOf p).det := by
  have hminor : (reduced p).submatrix Fin.succ Fin.succ = edgesOf p := by
    ext i j
    simp [reduced]
  rw [Matrix.det_succ_column_zero, Fin.sum_univ_succ]
  simp only [Fin.succAbove_zero, hminor]
  simp [reduced]

theorem det_bordered (p : Fin (n + 1) → Fin n → ℝ) : (bordered p).det = (edgesOf p).det := by
  rw [← det_reduced]
  refine Matrix.det_eq_of_forall_row_eq_smul_add_const (Fin.cons 0 1) 0 rfl ?_
  intro i j
  refine Fin.cases ?_ (fun i => ?_) i <;> refine Fin.cases ?_ (fun j => ?_) j
  · simp [bordered, reduced]
  · simp [bordered, reduced]
  · simp [bordered, reduced]
  · simp [bordered, reduced, edgesOf]

theorem abs_det_edgesOf_comp (p : Fin (n + 1) → Fin n → ℝ) (σ : Equiv.Perm (Fin (n + 1))) :
    |(edgesOf (p ∘ σ)).det| = |(edgesOf p).det| := by
  have hrows : bordered (p ∘ σ) = (bordered p).submatrix σ (Equiv.refl _) := rfl
  rw [← det_bordered, ← det_bordered, hrows, Matrix.abs_det_submatrix_equiv_equiv]

noncomputable def baseCentroid (p : Fin (n + 1) → Fin n → ℝ) : Fin n → ℝ :=
  (n : ℝ)⁻¹ • ∑ i : Fin n, p i.castSucc

theorem det_edgesOf_update (hn : 0 < n) (p : Fin (n + 1) → Fin n → ℝ) (k : ℝ) :
    (edgesOf (Function.update p (Fin.last n)
      ((1 - k) • baseCentroid p + k • p (Fin.last n)))).det = k * (edgesOf p).det := by
  have hne : (n : ℝ) ≠ 0 := Nat.cast_ne_zero.2 hn.ne'
  -- The new row is a combination of the old ones, with weight `k` on the last.
  have hrows : bordered (Function.update p (Fin.last n)
        ((1 - k) • baseCentroid p + k • p (Fin.last n))) =
      (bordered p).updateRow (Fin.last n)
        (∑ j, (Fin.snoc (fun _ => (1 - k) * (n : ℝ)⁻¹) k : Fin (n + 1) → ℝ) j • bordered p j) := by
    ext i j
    refine Fin.lastCases ?_ (fun i => ?_) i
    · rw [Matrix.updateRow_self, Fin.sum_univ_castSucc]
      refine Fin.cases ?_ (fun j => ?_) j
      · simp [bordered]
        field_simp
        ring
      · simp [bordered, baseCentroid, Finset.mul_sum, mul_assoc]
    · rw [Matrix.updateRow_ne (Fin.castSucc_lt_last i).ne]
      simp [bordered]
  rw [← det_bordered, ← det_bordered, hrows, Matrix.det_updateRow_sum, Fin.snoc_last]
  rfl

theorem det_edgesOf_shrink {p q : Fin (n + 1) → Fin n → ℝ} {k : ℝ} (h0 : q 0 = p 0)
    (h : ∀ i : Fin n, q i.succ = (1 - k) • p 0 + k • p i.succ) :
    (edgesOf q).det = k ^ n * (edgesOf p).det := by
  have hscaled : edgesOf q = k • edgesOf p := by
    ext i j
    simp only [edgesOf, Matrix.of_apply, Matrix.smul_apply, Pi.sub_apply, h0, h, Pi.add_apply,
      Pi.smul_apply, smul_eq_mul]
    ring
  rw [hscaled, Matrix.det_smul, Fintype.card_fin]

end Points

/-- A simplex of `n + 1` points with `n` coordinates. -/
structure Spans (n : ℕ) (s : Simplex ℝ) : Prop where
  count : s.inner.length + 1 = n
  point : ∀ v ∈ s.vertices, v.point.length = n

def corners (n : ℕ) (s : Simplex ℝ) (k : Fin (n + 1)) : Fin n → ℝ :=
  Vec.toFun n ((s.vertices.map (·.point)).getD k [])

def edges (n : ℕ) (s : Simplex ℝ) : Matrix (Fin n) (Fin n) ℝ := edgesOf (s.corners n)

/-- The volume, times `n!`. -/
noncomputable def volume (n : ℕ) (s : Simplex ℝ) : ℝ := |(s.edges n).det|

def Nondegenerate (n : ℕ) (s : Simplex ℝ) : Prop := LinearIndependent ℝ (s.edges n).row

variable {n : ℕ} {s u : Simplex ℝ}

theorem nondegenerate_iff : s.Nondegenerate n ↔ s.volume n ≠ 0 := by
  rw [Nondegenerate, Matrix.linearIndependent_rows_iff_isUnit, Matrix.isUnit_iff_isUnit_det,
    isUnit_iff_ne_zero, volume, abs_ne_zero]

theorem vertices_eq (s : Simplex ℝ) : s.vertices = s.base ++ [s.worst] := rfl

theorem Spans.pos (h : s.Spans n) : 0 < n := by
  rw [← h.count]
  exact Nat.succ_pos _

theorem Spans.of_perm (h : s.Spans n) (hu : u.vertices.Perm s.vertices) : u.Spans n := by
  have hlength := hu.length_eq
  rw [vertices_length, vertices_length] at hlength
  refine ⟨?_, fun v hv => h.point v (hu.mem_iff.1 hv)⟩
  rw [← h.count]
  omega

theorem Spans.replaced (h : s.Spans n) {v : Vertex ℝ} (hv : v.point.length = n) :
    Spans n { s with worst := v } := by
  refine ⟨h.count, ?_⟩
  intro w hw
  rw [vertices_eq, List.mem_append] at hw
  obtain hw | hw := hw
  · exact h.point w (List.mem_append_left [s.worst] hw)
  · rw [List.mem_singleton.1 hw, hv]

theorem volume_perm (h : s.Spans n) (hu : u.vertices.Perm s.vertices) :
    u.volume n = s.volume n := by
  have hcount : (u.vertices.map (·.point)).length = n + 1 := by
    rw [List.length_map, hu.length_eq, vertices_length, ← h.count]
  obtain ⟨σ, hσ⟩ := List.exists_perm_getD (hu.map (·.point)) hcount []
  have hcorners : u.corners n = s.corners n ∘ σ := by
    funext k
    exact congrArg (Vec.toFun n) (hσ k)
  rw [volume, edges, hcorners, abs_det_edgesOf_comp]
  rfl

theorem corners_zero (s : Simplex ℝ) : s.corners n 0 = Vec.toFun n s.best.point := rfl

theorem corners_castSucc (h : s.Spans n) (i : Fin n) :
    s.corners n i.castSucc = Vec.toFun n ((s.base.map (·.point)).getD i []) := by
  have hi : (i : ℕ) < (s.base.map (·.point)).length := by simp [base, h.count]
  rw [corners, vertices_eq, List.map_append]
  exact congrArg (Vec.toFun n) (List.getD_append _ _ _ _ hi)

theorem corners_last (h : s.Spans n) :
    s.corners n (Fin.last n) = Vec.toFun n s.worst.point := by
  have hl : (s.base.map (·.point)).length ≤ (Fin.last n : ℕ) := by simp [base, h.count]
  rw [corners, vertices_eq, List.map_append, List.getD_append_right _ _ _ _ hl]
  simp [base, h.count]

theorem corners_replaced (h : s.Spans n) {v : Vertex ℝ} (hv : v.point.length = n) :
    corners n { s with worst := v } =
      Function.update (s.corners n) (Fin.last n) (Vec.toFun n v.point) := by
  have hu : Spans n { s with worst := v } := h.replaced hv
  funext k
  refine Fin.lastCases ?_ (fun i => ?_) k
  · rw [Function.update_self, corners_last hu]
  · rw [Function.update_of_ne (Fin.castSucc_lt_last i).ne, corners_castSucc hu, corners_castSucc h]
    rfl

theorem toFun_foldl_add {points : List (Vec ℝ)} (h : ∀ x ∈ points, x.length = n) {y : Vec ℝ}
    (hy : y.length = n) :
    (points.foldl Vec.add y).length = n ∧
      Vec.toFun n (points.foldl Vec.add y) = Vec.toFun n y + (points.map (Vec.toFun n)).sum := by
  induction points generalizing y with
  | nil => exact ⟨hy, (add_zero _).symm⟩
  | cons x points ih =>
    obtain ⟨hx, hpoints⟩ := List.forall_mem_cons.1 h
    obtain ⟨hlength, hsum⟩ := ih hpoints (y := Vec.add y x)
      (by rw [Vec.add_length, hy, hx, Nat.min_self])
    refine ⟨hlength, ?_⟩
    rw [List.foldl_cons, hsum, List.map_cons, List.sum_cons, Vec.add, Vec.toFun_zipWith _ hy hx,
      ← add_assoc]
    rfl

theorem toFun_centroid (h : s.Spans n) :
    Vec.toFun n (Vec.centroid n (s.base.map (·.point))) = baseCentroid (s.corners n) := by
  have hcount : (s.base.map (·.point)).length = n := by simp [base, h.count]
  have hpoints : ∀ x ∈ s.base.map (·.point), x.length = n := List.forall_mem_map.2 fun v hv =>
    h.point v (List.mem_append_left [s.worst] hv)
  have hsum : ((s.base.map (·.point)).map (Vec.toFun n)).sum =
      ∑ i : Fin n, s.corners n i.castSucc := by
    rw [← Fin.sum_univ_fun_getElem, ← Equiv.sum_comp (finCongr hcount)]
    refine Finset.sum_congr rfl fun i _ => ?_
    rw [corners_castSucc h]
    exact congrArg (Vec.toFun n) (List.getD_eq_getElem _ [] i.isLt).symm
  obtain ⟨hlength, htotal⟩ := toFun_foldl_add hpoints (Vec.zeros_length n)
  have hzeros : Vec.toFun n (Vec.zeros n) = 0 := by
    funext i
    simp [Vec.toFun, Vec.zeros]
  rw [Vec.centroid, if_neg (by simp [base]), Vec.quotient, Vec.toFun_map _ hlength, htotal, hsum,
    hcount, hzeros, zero_add]
  funext i
  exact div_eq_inv_mul _ _

end Simplex

end Optima
