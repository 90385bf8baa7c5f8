import Mathlib.Data.List.Perm.Basic
import Mathlib.LinearAlgebra.Matrix.Nondegenerate
import Mathlib.LinearAlgebra.Matrix.NonsingularInverse
import Mathlib.Tactic.LinearCombination
import Optima.Mat.Elimination
import Optima.Proofs.Linear.Matrix

namespace Optima.Mat

open Matrix

def column (j : Nat) (rows : List (Vec ℝ)) : Vec ℝ := rows.map (·.getD j 0)

@[simp] theorem column_nil (j : Nat) : column j [] = [] := rfl

@[simp] theorem column_cons (j : Nat) (v : Vec ℝ) (rows : List (Vec ℝ)) :
    column j (v :: rows) = v.getD j 0 :: column j rows := rfl

@[simp] theorem column_length (j : Nat) (rows : List (Vec ℝ)) :
    (column j rows).length = rows.length := by
  simp [column]

variable {n : Nat}

theorem takeOff_getD {c : ℝ} {v w : Vec ℝ} (hv : v.length = n) (hw : w.length = n) {j : Nat}
    (hj : j < n) : (takeOff c v w).getD j 0 = w.getD j 0 - c * v.getD j 0 := by
  have hjv : j < v.length := hv ▸ hj
  have hjw : j < w.length := hw ▸ hj
  simp [takeOff, hjv, hjw]
  ring

theorem quotient_getD {v : Vec ℝ} (hv : v.length = n) (c : ℝ) {j : Nat} (hj : j < n) :
    (Vec.quotient v c).getD j 0 = v.getD j 0 / c := by
  have hjv : j < v.length := hv ▸ hj
  simp [Vec.quotient, hjv]

noncomputable def residual (u : Vec ℝ) (rows : List (Vec ℝ)) (w : Vec ℝ) : Vec ℝ :=
  (List.zip u rows).foldr (fun uv w => takeOff uv.1 uv.2 w) w

theorem residual_spec {rows : List (Vec ℝ)} (hr : ∀ v ∈ rows, v.length = n) {w : Vec ℝ}
    (hw : w.length = n) (u : Vec ℝ) :
    (residual u rows w).length = n ∧ ∀ j < n,
      (residual u rows w).getD j 0 = w.getD j 0 - Vec.dot u (column j rows) := by
  induction u generalizing rows with
  | nil => exact ⟨hw, by simp [residual]⟩
  | cons c u ih =>
    cases rows with
    | nil =>
      refine ⟨hw, ?_⟩
      intro j hj
      simp [residual, Vec.dot_eq_sum]
    | cons v rows =>
      obtain ⟨hl, hg⟩ := ih fun v hv => hr v (List.mem_cons_of_mem _ hv)
      have hv : v.length = n := hr v (by simp)
      have he : residual (c :: u) (v :: rows) w = takeOff c v (residual u rows w) := rfl
      rw [he]
      refine ⟨by simp [takeOff, hv, hl], ?_⟩
      intro j hj
      rw [takeOff_getD hv hl hj, hg j hj, column_cons, Vec.dot_cons]
      ring

theorem dot_zipWith_sub (m : ℝ) {x y : Vec ℝ} (h : x.length = y.length) (z : Vec ℝ) :
    Vec.dot (List.zipWith (fun u v => -u * m + v) x y) z = Vec.dot y z - m * Vec.dot x z := by
  induction x generalizing y z with
  | nil =>
    cases y with
    | nil => simp
    | cons => cases h
  | cons a x ih =>
    cases y with
    | nil => cases h
    | cons b y =>
      cases z with
      | nil => simp [Vec.dot_eq_sum]
      | cons c z =>
        rw [List.zipWith_cons_cons, Vec.dot_cons, Vec.dot_cons, Vec.dot_cons,
          ih (Nat.succ.inj h)]
        ring

theorem pivotIndex_spec (top : ℝ) (best i : Nat) (rs : List (Pending ℝ)) :
    (pivotIndex top best i rs = best ∧ ∀ r ∈ rs, |r.head| ≤ top) ∨
      ∃ k, ∃ h : k < rs.length, pivotIndex top best i rs = i + k ∧ top ≤ |rs[k].head| ∧
        ∀ r ∈ rs, |r.head| ≤ |rs[k].head| := by
  induction rs generalizing top best i with
  | nil => exact .inl ⟨rfl, by simp⟩
  | cons r rs ih =>
    simp only [pivotIndex, Exact.abs_eq]
    split
    · next hlt =>
      right
      obtain ⟨he, hall⟩ | ⟨k, hk, he, hle, hall⟩ := ih |r.head| i (i + 1)
      · exact ⟨0, by simp, he, hlt.le, List.forall_mem_cons.2 ⟨le_rfl, hall⟩⟩
      · refine ⟨k + 1, by simpa using hk, by omega, hlt.le.trans hle, ?_⟩
        exact List.forall_mem_cons.2 ⟨hle, hall⟩
    · next hlt =>
      have htop := not_lt.1 hlt
      obtain ⟨he, hall⟩ | ⟨k, hk, he, hle, hall⟩ := ih top best (i + 1)
      · exact .inl ⟨he, List.forall_mem_cons.2 ⟨htop, hall⟩⟩
      · right
        refine ⟨k + 1, by simpa using hk, by omega, hle, ?_⟩
        exact List.forall_mem_cons.2 ⟨htop.trans hle, hall⟩

theorem bringPivot_spec (r : Pending ℝ) (rs : List (Pending ℝ)) :
    ((bringPivot r rs).1 :: (bringPivot r rs).2).Perm (r :: rs) ∧
      ∀ q ∈ r :: rs, |q.head| ≤ |(bringPivot r rs).1.head| := by
  unfold bringPivot
  obtain ⟨he, hall⟩ | ⟨k, hk, he, hle, hall⟩ := pivotIndex_spec |r.head| 0 1 rs
  · rw [Exact.abs_eq, he]
    exact ⟨.refl _, List.forall_mem_cons.2 ⟨le_rfl, hall⟩⟩
  · rw [Exact.abs_eq, he, Nat.add_comm]
    dsimp only
    rw [List.getD_eq_getElem rs r hk]
    refine ⟨?_, ?_⟩
    · refine ((List.set_perm_cons_eraseIdx hk r).cons _).trans ?_
      exact (List.Perm.swap _ _ _).trans ((List.getElem_cons_eraseIdx_perm hk).cons _)
    · exact List.forall_mem_cons.2 ⟨hle, hall⟩

structure Pending.Shaped (n m : Nat) (r : Pending ℝ) : Prop where
  rest : r.rest.length = m
  image : r.image.length = n

def Pending.Solved (j : Nat) (solved unknowns : List (Vec ℝ)) (r : Pending ℝ) : Prop :=
  Vec.dot r.rest (column j unknowns) = r.image.getD j 0 - Vec.dot r.multipliers (column j solved)

theorem Pending.Shaped.cons {m : Nat} {r : Pending ℝ} (h : r.Shaped n (m + 1)) :
    r.rest = r.head :: r.rest.tail ∧ r.rest.tail.length = m := by
  have hl := h.rest
  unfold Pending.head
  cases hr : r.rest with
  | nil =>
    rw [hr] at hl
    cases hl
  | cons a t =>
    rw [hr] at hl
    exact ⟨rfl, Nat.succ.inj hl⟩

theorem Pending.Shaped.reduce_eq {m : Nat} {r : Pending ℝ} (h : r.Shaped n (m + 1)) (c : ℝ)
    (tail : Vec ℝ) :
    r.reduce c tail = ⟨r.head * c :: r.multipliers,
      List.zipWith (fun u v => -u * (r.head * c) + v) tail r.rest.tail, r.image⟩ := by
  unfold Pending.reduce
  split
  · next hr =>
    have hl := h.rest
    rw [hr] at hl
    cases hl
  · next a t hr =>
    have ha : r.head = a := by rw [Pending.head, hr]; rfl
    rw [ha, hr]
    rfl

theorem Pending.Shaped.reduce {m : Nat} {r : Pending ℝ} (h : r.Shaped n (m + 1)) (c : ℝ)
    {tail : Vec ℝ} (ht : tail.length = m) : (r.reduce c tail).Shaped n m := by
  rw [h.reduce_eq]
  constructor
  · simp [ht, h.cons.2]
  · exact h.image

theorem reduce_stage {m : Nat} {pivot : Pending ℝ} {rest : List (Pending ℝ)}
    (hl : (pivot :: rest).length = m + 1) (hs : ∀ r ∈ pivot :: rest, r.Shaped n (m + 1))
    (c : ℝ) :
    (rest.map (Pending.reduce c pivot.rest.tail)).length = m ∧
      ∀ r ∈ rest.map (Pending.reduce c pivot.rest.tail), r.Shaped n m := by
  constructor
  · rw [List.length_map]
    exact Nat.succ.inj hl
  · intro r hr
    obtain ⟨r', hr', rfl⟩ := List.mem_map.1 hr
    exact (hs r' (List.mem_cons_of_mem _ hr')).reduce c (hs pivot (by simp)).cons.2

theorem Pending.Solved.pivot {m : Nat} {r : Pending ℝ} (hr : r.Shaped n (m + 1))
    (h0 : r.head ≠ 0) {j : Nat} {solved unknowns : List (Vec ℝ)} {x y : Vec ℝ}
    (hy : y.getD j 0 = r.image.getD j 0 - Vec.dot r.multipliers (column j solved))
    (hx : x.getD j 0 = (y.getD j 0 - Vec.dot r.rest.tail (column j unknowns)) / r.head) :
    r.Solved j solved (x :: unknowns) := by
  rw [Solved, hr.cons.1, column_cons, Vec.dot_cons, ← hy, hx]
  field_simp
  ring

theorem Pending.Solved.of_reduce {m : Nat} {pivot r : Pending ℝ} (hp : pivot.Shaped n (m + 1))
    (hr : r.Shaped n (m + 1)) {j : Nat} {solved unknowns : List (Vec ℝ)} {x y : Vec ℝ}
    (hx : x.getD j 0 =
      (y.getD j 0 - Vec.dot pivot.rest.tail (column j unknowns)) / pivot.head)
    (h : (r.reduce (1 / pivot.head) pivot.rest.tail).Solved j (y :: solved) unknowns) :
    r.Solved j solved (x :: unknowns) := by
  rw [hr.reduce_eq, Solved] at h
  have hl : pivot.rest.tail.length = r.rest.tail.length := hp.cons.2.trans hr.cons.2.symm
  rw [dot_zipWith_sub _ hl, column_cons, Vec.dot_cons] at h
  rw [Solved, hr.cons.1, column_cons, Vec.dot_cons, hx]
  linear_combination h

theorem eliminate_succ {m : Nat} {r : Pending ℝ} {rs rows' : List (Pending ℝ)}
    (h : eliminate (m + 1) (r :: rs) = some rows') :
    (bringPivot r rs).1.head ≠ 0 ∧ ∃ below,
      eliminate m ((bringPivot r rs).2.map
        (Pending.reduce (1 / (bringPivot r rs).1.head) (bringPivot r rs).1.rest.tail)) =
          some below ∧ rows' = (bringPivot r rs).1 :: below := by
  simp only [eliminate, Exact.literal_zero, Exact.literal_one] at h
  split at h
  · cases h
  · next h0 =>
    obtain ⟨below, hb, rfl⟩ := Option.map_eq_some_iff.1 h
    exact ⟨by simpa using h0, below, hb, rfl⟩

theorem solveUpper_cons {r : Pending ℝ} {rs : List (Pending ℝ)} {X : List (Vec ℝ)}
    (h : solveUpper (r :: rs) = some X) :
    ∃ X', solveUpper rs = some X' ∧
      X = Vec.quotient (residual r.rest.tail X' r.image) r.head :: X' := by
  obtain ⟨X', hX', hx⟩ := Option.bind_eq_some_iff.1 h
  dsimp only at hx
  split at hx
  · cases hx
  · cases hx
    exact ⟨X', hX', rfl⟩

theorem solve_sound {m : Nat} {rows rows' : List (Pending ℝ)} {solved X : List (Vec ℝ)}
    (hl : rows.length = m) (hr : ∀ r ∈ rows, r.Shaped n m) (hs : ∀ v ∈ solved, v.length = n)
    (he : eliminate m rows = some rows') (hu : solveUpper (solveLower solved rows') = some X) :
    X.length = m ∧ (∀ v ∈ X, v.length = n) ∧ ∀ j < n, ∀ r ∈ rows, r.Solved j solved X := by
  induction m generalizing rows rows' solved X with
  | zero =>
    rw [List.length_eq_zero_iff.1 hl] at he ⊢
    cases he
    cases hu
    exact ⟨rfl, by simp, by simp⟩
  | succ m ih =>
    cases rows with
    | nil => cases hl
    | cons r rs =>
      obtain ⟨h0, below, hb, rfl⟩ := eliminate_succ he
      obtain ⟨hperm, _⟩ := bringPivot_spec r rs
      generalize (bringPivot r rs).1 = pivot at h0 hb hu hperm
      generalize (bringPivot r rs).2 = rest at hb hperm
      have hshape : ∀ q ∈ pivot :: rest, q.Shaped n (m + 1) := fun q hq =>
        hr q (hperm.mem_iff.1 hq)
      have hp := hshape pivot (by simp)
      -- the pivot row is solved for the lower triangle first
      obtain ⟨hyl, hy⟩ := residual_spec hs hp.image pivot.multipliers
      obtain ⟨X', hX', rfl⟩ := solveUpper_cons hu
      obtain ⟨hlr, hsr⟩ := reduce_stage (hperm.length_eq.trans hl) hshape (1 / pivot.head)
      have hsv : ∀ v ∈ residual pivot.multipliers solved pivot.image :: solved, v.length = n :=
        List.forall_mem_cons.2 ⟨hyl, hs⟩
      obtain ⟨hXl, hXr, hX⟩ := ih hlr hsr hsv hb hX'
      -- and then for the upper one
      obtain ⟨hxl, hx⟩ := residual_spec hXr hyl pivot.rest.tail
      refine ⟨by simp [hXl], ?_, ?_⟩
      · exact List.forall_mem_cons.2 ⟨(Vec.quotient_length _ _).trans hxl, hXr⟩
      · intro j hj q hq
        have hxj := (quotient_getD hxl pivot.head hj).trans (congrArg (· / pivot.head) (hx j hj))
        cases hperm.mem_iff.2 hq with
        | head => exact .pivot hp h0 (hy j hj) hxj
        | tail _ hq' =>
          exact .of_reduce hp (hr q hq) hxj (hX j hj _ (List.mem_map_of_mem hq'))

def Independent (m : Nat) (rows : List (Pending ℝ)) : Prop :=
  ∀ z : Vec ℝ, z.length = m → (∀ r ∈ rows, Vec.dot r.rest z = 0) → ∀ c ∈ z, c = 0

theorem dot_zeros (x : Vec ℝ) (m : Nat) : Vec.dot x (List.replicate m 0) = 0 := by
  induction x generalizing m with
  | nil => simp
  | cons a x ih =>
    cases m with
    | zero => simp [Vec.dot_eq_sum]
    | succ m => simp [List.replicate_succ, ih]

theorem Independent.head_ne_zero {m : Nat} {rows : List (Pending ℝ)} {pivot : Pending ℝ}
    (h : Independent (m + 1) rows) (hr : ∀ r ∈ rows, r.Shaped n (m + 1))
    (hp : ∀ r ∈ rows, |r.head| ≤ |pivot.head|) : pivot.head ≠ 0 := by
  intro h0
  have hz : ∀ r ∈ rows, r.head = 0 := by
    intro r hr
    simpa [h0] using hp r hr
  -- else the first unit vector would be orthogonal to every row
  have h1 := h (1 :: List.replicate m 0) (by simp) ?_ 1 (by simp)
  · exact one_ne_zero h1
  · intro r hm
    rw [(hr r hm).cons.1, hz r hm, Vec.dot_cons, dot_zeros]
    simp

theorem Independent.reduce {m : Nat} {pivot : Pending ℝ} {rest : List (Pending ℝ)}
    (h : Independent (m + 1) (pivot :: rest))
    (hs : ∀ r ∈ pivot :: rest, r.Shaped n (m + 1)) (h0 : pivot.head ≠ 0) :
    Independent m (rest.map (Pending.reduce (1 / pivot.head) pivot.rest.tail)) := by
  intro z hz horth
  have hp := hs pivot (by simp)
  -- the first coordinate is chosen so that the pivot row is orthogonal too
  have hall := h (-(Vec.dot pivot.rest.tail z) / pivot.head :: z) (by simp [hz]) ?_
  · intro c hc
    exact hall c (List.mem_cons_of_mem _ hc)
  · intro r hr
    cases hr with
    | head =>
      rw [hp.cons.1, Vec.dot_cons]
      simp only [List.tail_cons]
      field_simp
      ring
    | tail _ hr =>
      have hsr := hs r (List.mem_cons_of_mem _ hr)
      have ho := horth _ (List.mem_map_of_mem hr)
      rw [hsr.reduce_eq, dot_zipWith_sub _ (hp.cons.2.trans hsr.cons.2.symm)] at ho
      rw [hsr.cons.1, Vec.dot_cons]
      linear_combination ho

theorem Independent.eliminate {m : Nat} {rows : List (Pending ℝ)} (h : Independent m rows)
    (hl : rows.length = m) (hr : ∀ r ∈ rows, r.Shaped n m) :
    ∃ rows', eliminate m rows = some rows' ∧ ∀ r ∈ rows', r.head ≠ 0 := by
  induction m generalizing rows with
  | zero =>
    rw [List.length_eq_zero_iff.1 hl]
    exact ⟨[], rfl, by simp⟩
  | succ m ih =>
    cases rows with
    | nil => cases hl
    | cons r rs =>
      obtain ⟨hperm, hmax⟩ := bringPivot_spec r rs
      have h0 := h.head_ne_zero hr hmax
      simp only [Mat.eliminate, Exact.literal_zero, Exact.literal_one, beq_iff_eq, h0, if_false]
      generalize (bringPivot r rs).1 = pivot at h0 hperm
      generalize (bringPivot r rs).2 = rest at hperm
      have hshape : ∀ q ∈ pivot :: rest, q.Shaped n (m + 1) := fun q hq =>
        hr q (hperm.mem_iff.1 hq)
      have hp : Independent (m + 1) (pivot :: rest) := fun z hz horth =>
        h z hz fun q hq => horth q (hperm.mem_iff.2 hq)
      obtain ⟨hlr, hsr⟩ := reduce_stage (hperm.length_eq.trans hl) hshape (1 / pivot.head)
      obtain ⟨rows', he, hh⟩ := ih (hp.reduce hshape h0) hlr hsr
      exact ⟨pivot :: rows', by rw [he]; rfl, List.forall_mem_cons.2 ⟨h0, hh⟩⟩

theorem solveLower_head {rows : List (Pending ℝ)} (h : ∀ r ∈ rows, r.head ≠ 0)
    (solved : List (Vec ℝ)) : ∀ r ∈ solveLower solved rows, r.head ≠ 0 := by
  induction rows generalizing solved with
  | nil => simp [solveLower]
  | cons r rows ih =>
    intro q hq
    cases hq with
    | head => exact h r (by simp)
    | tail _ hq => exact ih (fun q hq => h q (List.mem_cons_of_mem _ hq)) _ q hq

theorem solveUpper_isSome {rows : List (Pending ℝ)} (h : ∀ r ∈ rows, r.head ≠ 0) :
    ∃ X, solveUpper rows = some X := by
  induction rows with
  | nil => exact ⟨[], rfl⟩
  | cons r rows ih =>
    obtain ⟨X, hX⟩ := ih fun q hq => h q (List.mem_cons_of_mem _ hq)
    simp [solveUpper, hX, h r (by simp)]

theorem mem_pending {a : Mat ℝ} (ha : a.Square n) {r : Pending ℝ} :
    r ∈ List.zipWith (fun row unit => ⟨[], row, unit⟩) a (identity a.length) ↔
      ∃ i : Fin n, r = ⟨[], a.getD i [], (identity n).getD i []⟩ := by
  rw [ha.length, List.mem_iff_getElem]
  constructor
  · rintro ⟨i, hi, rfl⟩
    have hn : i < n := by simpa [ha.length] using hi
    refine ⟨⟨i, hn⟩, ?_⟩
    simp [ha.length, hn]
  · rintro ⟨i, rfl⟩
    refine ⟨i, by simp [ha.length], ?_⟩
    simp [ha.length]

theorem dot_column {a X : Mat ℝ} (ha : a.Square n) (hX : X.Square n) (i j : Fin n) :
    Vec.dot (a.getD i []) (column j X) = (a.toMatrix n * X.toMatrix n) i j := by
  rw [Vec.dot_eq (ha.getD_length i) ((column_length _ _).trans hX.length), Matrix.mul_apply]
  have hc : ∀ k : Fin n, Vec.toFun n (column j X) k = X.toMatrix n k j := by
    intro k
    simp [Vec.toFun, column, toMatrix, hX.length]
  simp only [dotProduct, hc]
  rfl

theorem eliminationInverse_spec {a : Mat ℝ} (ha : a.Square n) (h : IsUnit (a.toMatrix n)) :
    ∃ b, eliminationInverse a = some b ∧ b.Square n ∧ a.toMatrix n * b.toMatrix n = 1 := by
  set rows : List (Pending ℝ) :=
    List.zipWith (fun row unit => ⟨[], row, unit⟩) a (identity a.length) with hrows
  have hl : rows.length = n := by simp [hrows, ha.length]
  have hs : ∀ r ∈ rows, r.Shaped n n := by
    intro r hr
    obtain ⟨i, rfl⟩ := (mem_pending ha).1 hr
    exact ⟨ha.getD_length i, (Square.identity n).getD_length i⟩
  have hind : Independent n rows := by
    intro z hz horth
    have hzero : a.toMatrix n *ᵥ z.toFun n = 0 := by
      funext i
      have hi := horth _ ((mem_pending ha).2 ⟨i, rfl⟩)
      rwa [Vec.dot_eq (ha.getD_length i) hz] at hi
    have hdet : (a.toMatrix n).det ≠ 0 := ((Matrix.isUnit_iff_isUnit_det _).1 h).ne_zero
    have hall := (Vec.isZero_iff hz).2 (Matrix.eq_zero_of_mulVec_eq_zero hdet hzero)
    simpa [Vec.isZero] using hall
  obtain ⟨rows', he, hh⟩ := hind.eliminate hl hs
  obtain ⟨X, hX⟩ := solveUpper_isSome (solveLower_head hh [])
  obtain ⟨hXl, hXr, hsol⟩ := solve_sound hl hs (by simp) he hX
  have hXs : Square n X := ⟨hXl, hXr⟩
  refine ⟨X, ?_, hXs, ?_⟩
  · have hb : eliminationInverse a =
        (eliminate a.length rows).bind fun rows' => solveUpper (solveLower [] rows') := rfl
    rw [hb, ha.length, he]
    exact hX
  · ext i j
    have hij := hsol j j.isLt _ ((mem_pending ha).2 ⟨i, rfl⟩)
    rw [Pending.Solved, dot_column ha hXs, Vec.dot_nil, sub_zero] at hij
    rw [hij, ← toMatrix_identity n]
    rfl

end Optima.Mat
