import Mathlib.Algebra.BigOperators.Fin
import Mathlib.Data.List.GetD
import Mathlib.Data.Matrix.Mul
import Optima.Mat
import Optima.Proofs.Lanes
import Optima.Proofs.Scalar.Exact

namespace Optima

open Matrix

namespace Vec

theorem dot_eq_sum (x y : Vec ℝ) : dot x y = (List.zipWith (· * ·) x y).sum := by
  have hadd {i j x y : ℝ} (hx : i = x) (hy : j = y) : i + j = x + y := congrArg₂ _ hx hy
  have hsum : ((List.zipWith (· * ·) x y).map id).sum = dot x y :=
    dot_weighted hadd Exact.literal_zero.symm fun _ _ => rfl
  rw [← hsum, List.map_id]

@[simp] theorem dot_nil (y : Vec ℝ) : dot [] y = 0 := by simp [dot_eq_sum]

@[simp] theorem dot_cons (a b : ℝ) (x y : Vec ℝ) : dot (a :: x) (b :: y) = a * b + dot x y := by
  simp [dot_eq_sum]

theorem dot_of_isZero {x y : Vec ℝ} (h : isZero y = true) : dot x y = 0 := by
  induction x generalizing y with
  | nil => exact dot_nil y
  | cons a x ih =>
    cases y with
    | nil => simp [dot_eq_sum]
    | cons b y =>
      obtain ⟨hb, hy⟩ : b = 0 ∧ isZero y = true := by simpa [isZero] using h
      rw [dot_cons, hb, mul_zero, zero_add]
      exact ih hy

theorem isZero_of_dot_neg {x y : Vec ℝ} (h : dot x y < 0) : isZero y = false :=
  eq_false_of_ne_true fun hy => h.ne (dot_of_isZero hy)

def toFun (n : Nat) (x : Vec ℝ) : Fin n → ℝ := fun i => x.getD i 0

theorem toFun_cons (n : Nat) (a : ℝ) (x : Vec ℝ) :
    toFun (n + 1) (a :: x) = Fin.cons a (toFun n x) := by
  funext i
  refine Fin.cases ?_ (fun j => ?_) i
  · rfl
  · rfl

theorem toFun_apply {n : Nat} {x : Vec ℝ} (hx : x.length = n) (i : Fin n) :
    toFun n x i = x[i.val] := by
  simp [toFun, hx]

theorem ext_toFun {n : Nat} {x y : Vec ℝ} (hx : x.length = n) (hy : y.length = n)
    (h : toFun n x = toFun n y) : x = y := by
  apply List.ext_getElem
  · rw [hx, hy]
  · intro i hi hi'
    have hij := congrFun h ⟨i, hx ▸ hi⟩
    rwa [toFun_apply hx, toFun_apply hy] at hij

theorem dot_eq {n : Nat} {x y : Vec ℝ} (hx : x.length = n) (hy : y.length = n) :
    dot x y = toFun n x ⬝ᵥ toFun n y := by
  induction n generalizing x y with
  | zero =>
    rw [List.length_eq_zero_iff.1 hx, dot_nil]
    rfl
  | succ n ih =>
    cases x with
    | nil => cases hx
    | cons a x =>
      cases y with
      | nil => cases hy
      | cons b y =>
        rw [dot_cons, ih (Nat.succ.inj hx) (Nat.succ.inj hy), toFun_cons, toFun_cons]
        rw [dotProduct, dotProduct, Fin.sum_univ_succ]
        rfl

theorem toFun_zipWith (f : ℝ → ℝ → ℝ) {n : Nat} {x y : Vec ℝ} (hx : x.length = n)
    (hy : y.length = n) :
    toFun n (List.zipWith f x y) = fun i => f (toFun n x i) (toFun n y i) := by
  funext i
  simp [toFun, hx, hy]

theorem toFun_map (f : ℝ → ℝ) {n : Nat} {x : Vec ℝ} (hx : x.length = n) :
    toFun n (x.map f) = fun i => f (toFun n x i) := by
  funext i
  simp [toFun, hx]

theorem toFun_neg {n : Nat} {x : Vec ℝ} (hx : x.length = n) : toFun n (neg x) = -toFun n x :=
  toFun_map _ hx

theorem toFun_sub {n : Nat} {x y : Vec ℝ} (hx : x.length = n) (hy : y.length = n) :
    toFun n (sub x y) = toFun n x - toFun n y :=
  toFun_zipWith _ hx hy

theorem toFun_scale {n : Nat} {x : Vec ℝ} (hx : x.length = n) (a : ℝ) :
    toFun n (scale x a) = a • toFun n x := by
  rw [scale, toFun_map _ hx]
  funext i
  exact mul_comm _ _

theorem toFun_along {n : Nat} {x d : Vec ℝ} (hx : x.length = n) (hd : d.length = n) (a : ℝ) :
    toFun n (along x d a) = toFun n x + a • toFun n d := by
  rw [along, add, toFun_zipWith _ hx (by rw [scale_length, hd]), toFun_scale hd]
  rfl

theorem isZero_iff {n : Nat} {x : Vec ℝ} (hx : x.length = n) :
    isZero x = true ↔ toFun n x = 0 := by
  simp only [isZero, List.all_eq_true, beq_iff_eq, Exact.literal_zero]
  constructor
  · intro h
    funext i
    rw [toFun_apply hx]
    exact h _ (List.getElem_mem _)
  · intro h a ha
    obtain ⟨i, hi, rfl⟩ := List.getElem_of_mem ha
    have hij := congrFun h ⟨i, hx ▸ hi⟩
    rwa [toFun_apply hx] at hij

end Vec

namespace Mat

structure Square (n : Nat) (a : Mat ℝ) : Prop where
  length : a.length = n
  row : ∀ r ∈ a, r.length = n

def toMatrix (n : Nat) (a : Mat ℝ) : Matrix (Fin n) (Fin n) ℝ :=
  fun i => Vec.toFun n (a.getD i [])

variable {n : Nat} {a b : Mat ℝ}

theorem Square.getD_mem (h : Square n a) (i : Fin n) : a.getD i [] ∈ a := by
  simp [h.length]

theorem Square.getD_length (h : Square n a) (i : Fin n) : (a.getD i []).length = n :=
  h.row _ (h.getD_mem i)

theorem toFun_mulVec (ha : Square n a) {x : Vec ℝ} (hx : x.length = n) :
    Vec.toFun n (mulVec a x) = toMatrix n a *ᵥ Vec.toFun n x := by
  funext i
  rw [Vec.toFun_apply (by simp [ha.length])]
  simp only [mulVec, List.getElem_map]
  rw [Vec.dot_eq (ha.row _ (List.getElem_mem _)) hx]
  simp [toMatrix, Matrix.mulVec, ha.length]

theorem quadraticForm_eq (ha : Square n a) {x y : Vec ℝ} (hx : x.length = n)
    (hy : y.length = n) :
    quadraticForm x a y = Vec.toFun n x ⬝ᵥ toMatrix n a *ᵥ Vec.toFun n y := by
  rw [quadraticForm, Vec.dot_eq hx (by rw [mulVec_length, ha.length]), toFun_mulVec ha hy]

theorem magnitude_cases (a : Mat ℝ) :
    a.magnitude = 0 ∨ ∃ r ∈ a, ∃ v ∈ r, a.magnitude = |v| := by
  have hfold : ∀ (vs : List ℝ) (m : ℝ),
      vs.foldl (fun m v => Scalar.greater m (Scalar.abs v)) m = m ∨
        ∃ v ∈ vs, vs.foldl (fun m v => Scalar.greater m (Scalar.abs v)) m = |v| := by
    intro vs
    induction vs with
    | nil =>
      intro m
      exact .inl rfl
    | cons v vs ih =>
      intro m
      rw [List.foldl_cons]
      obtain h | ⟨w, hw, h⟩ := ih (Scalar.greater m (Scalar.abs v))
      · by_cases hm : m ≤ |v|
        · refine .inr ⟨v, List.mem_cons_self, h.trans ?_⟩
          simp [Scalar.greater, hm]
        · refine .inl (h.trans ?_)
          simp [Scalar.greater, hm]
      · exact .inr ⟨w, List.mem_cons_of_mem v hw, h⟩
  obtain h | ⟨v, hv, h⟩ := hfold a.flatten (Scalar.ofNat 0)
  · exact .inl (h.trans Exact.literal_zero)
  · obtain ⟨r, hr, hv⟩ := List.mem_flatten.1 hv
    exact .inr ⟨r, hr, v, hv, h⟩

theorem Square.exists_entry (h : Square n a) {r : Vec ℝ} (hr : r ∈ a) {v : ℝ} (hv : v ∈ r) :
    ∃ i j, toMatrix n a i j = v := by
  obtain ⟨i, hi, rfl⟩ := List.getElem_of_mem hr
  obtain ⟨j, hj, rfl⟩ := List.getElem_of_mem hv
  have hrow : (a[i]).length = n := h.row _ hr
  refine ⟨⟨i, by rwa [h.length] at hi⟩, ⟨j, by rwa [hrow] at hj⟩, ?_⟩
  simp [toMatrix, Vec.toFun, hi, hj]

theorem Square.zipWith (f : ℝ → ℝ → ℝ) (ha : Square n a) (hb : Square n b) :
    Square n (List.zipWith (List.zipWith f) a b) := by
  constructor
  · simp [ha.length, hb.length]
  · intro r hr
    obtain ⟨i, hi, rfl⟩ := List.getElem_of_mem hr
    simp [ha.row _ (List.getElem_mem _), hb.row _ (List.getElem_mem _)]

theorem toMatrix_zipWith (f : ℝ → ℝ → ℝ) (ha : Square n a) (hb : Square n b) (i j : Fin n) :
    toMatrix n (List.zipWith (List.zipWith f) a b) i j =
      f (toMatrix n a i j) (toMatrix n b i j) := by
  have hi : (List.zipWith (List.zipWith f) a b).getD i [] =
      List.zipWith f (a.getD i []) (b.getD i []) := by
    simp [ha.length, hb.length]
  rw [toMatrix, hi, Vec.toFun_zipWith f (ha.getD_length i) (hb.getD_length i)]
  rfl

theorem Square.map (f : ℝ → ℝ) (ha : Square n a) : Square n (a.map (List.map f)) := by
  constructor
  · simp [ha.length]
  · intro r hr
    obtain ⟨r', hr', rfl⟩ := List.mem_map.1 hr
    simp [ha.row r' hr']

theorem toMatrix_map (f : ℝ → ℝ) (ha : Square n a) (i j : Fin n) :
    toMatrix n (a.map (List.map f)) i j = f (toMatrix n a i j) := by
  have hi : (a.map (List.map f)).getD i [] = (a.getD i []).map f := by
    simp [ha.length]
  rw [toMatrix, hi, Vec.toFun_map f (ha.getD_length i)]
  rfl

theorem Square.outer {x y : Vec ℝ} (hx : x.length = n) (hy : y.length = n) :
    Square n (outer x y) := by
  constructor
  · simp [hx]
  · intro r hr
    obtain ⟨a, ha, rfl⟩ := List.mem_map.1 hr
    simp [hy]

theorem toMatrix_outer {x y : Vec ℝ} (hx : x.length = n) (hy : y.length = n) (i j : Fin n) :
    toMatrix n (outer x y) i j = Vec.toFun n x i * Vec.toFun n y j := by
  have hi : (Mat.outer x y).getD i [] = y.map (x.getD i 0 * ·) := by
    simp [Mat.outer, hx]
  rw [toMatrix, hi, Vec.toFun_map _ hy]
  rfl

theorem Square.identity (n : Nat) : Square n (identity n) := by
  constructor
  · simp
  · intro r hr
    obtain ⟨a, ha, rfl⟩ := List.mem_map.1 hr
    simp

theorem toMatrix_identity (n : Nat) : toMatrix n (identity n) = 1 := by
  ext i j
  simp [toMatrix, Vec.toFun, Mat.identity, Matrix.one_apply, Fin.ext_iff]

end Mat

end Optima
