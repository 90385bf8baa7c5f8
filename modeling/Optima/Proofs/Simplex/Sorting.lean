import Optima.Proofs.Scalar.Lawful
import Optima.Simplex.Basic

namespace Optima.Simplex

open Scalar (Lawful isNaN)

variable {α : Type}

theorem ofList?_vertices (v w : Vertex α) (vs : List (Vertex α)) :
    ∃ s, ofList? (v :: w :: vs) = some s ∧ s.vertices = v :: w :: vs := by
  induction vs generalizing v w with
  | nil => exact ⟨⟨v, [], w⟩, rfl, rfl⟩
  | cons u vs ih =>
    obtain ⟨s, hs, he⟩ := ih w u
    refine ⟨⟨v, s.best :: s.inner, s.worst⟩, ?_, congrArg (v :: ·) he⟩
    rw [ofList?, hs]

theorem best_mem (s : Simplex α) : s.best ∈ s.vertices := List.mem_cons_self

theorem worst_mem (s : Simplex α) : s.worst ∈ s.vertices :=
  List.mem_cons_of_mem _ (List.mem_append_right _ List.mem_cons_self)

theorem secondWorst_mem (s : Simplex α) : s.secondWorst ∈ s.base := by
  unfold secondWorst base
  cases s.inner with
  | nil => exact List.mem_cons_self
  | cons v vs =>
    rw [List.getLastD_cons]
    exact List.mem_cons_of_mem _ List.getLastD_mem_cons

variable [Scalar α]

def Sorted (s : Simplex α) : Prop := s.vertices.Pairwise fun v w => v.value ≤ w.value

theorem Sorted.best_le {s : Simplex α} (h : s.Sorted) {v : Vertex α}
    (hv : v ∈ s.inner ++ [s.worst]) : s.best.value ≤ v.value := (List.pairwise_cons.1 h).1 v hv

theorem Sorted.le_worst {s : Simplex α} (h : s.Sorted) {v : Vertex α} (hv : v ∈ s.base) :
    v.value ≤ s.worst.value := by
  have hsplit : (s.base ++ [s.worst]).Pairwise fun v w => v.value ≤ w.value := h
  exact (List.pairwise_append.1 hsplit).2.2 v hv s.worst List.mem_cons_self

theorem insertInner_perm (v : Vertex α) (ws : List (Vertex α)) :
    (insertInner v ws).Perm (v :: ws) := by
  induction ws with
  | nil => exact .refl _
  | cons w ws ih =>
    unfold insertInner
    split
    · exact .refl _
    · exact (ih.cons w).trans (.swap v w ws)

theorem insertInner_append {v w : Vertex α} (h : v.value < w.value) (ws : List (Vertex α)) :
    insertInner v (ws ++ [w]) = insertInner v ws ++ [w] := by
  induction ws with
  | nil => exact if_pos h
  | cons u ws ih =>
    rw [List.cons_append, insertInner, insertInner, ih]
    split <;> rfl

theorem insertInner_of_not {v : Vertex α} {ws : List (Vertex α)}
    (h : ∀ w ∈ ws, ¬ v.value < w.value) : insertInner v ws = ws ++ [v] := by
  induction ws with
  | nil => rfl
  | cons w ws ih =>
    obtain ⟨hw, hws⟩ := List.forall_mem_cons.1 h
    rw [insertInner, if_neg hw, ih hws, List.cons_append]

variable [Lawful α]

theorem insertInner_pairwise {v : Vertex α} {ws : List (Vertex α)} (hv : isNaN v.value = false)
    (hws : ∀ w ∈ ws, isNaN w.value = false) (h : ws.Pairwise fun v w => v.value ≤ w.value) :
    (insertInner v ws).Pairwise fun v w => v.value ≤ w.value := by
  induction ws with
  | nil => exact List.pairwise_singleton _ _
  | cons w ws ih =>
    obtain ⟨hw, h⟩ := List.pairwise_cons.1 h
    obtain ⟨hwn, hws⟩ := List.forall_mem_cons.1 hws
    unfold insertInner
    split
    · next hlt =>
      have hle : v.value ≤ w.value := Lawful.le_of_lt hlt
      refine List.pairwise_cons.2 ⟨?_, List.pairwise_cons.2 ⟨hw, h⟩⟩
      exact List.forall_mem_cons.2 ⟨hle, fun u hu => Lawful.le_trans hle (hw u hu)⟩
    · next hlt =>
      refine List.pairwise_cons.2 ⟨?_, ih hws h⟩
      intro u hu
      obtain rfl | hu := List.mem_cons.1 ((insertInner_perm v ws).mem_iff.1 hu)
      · exact Lawful.le_of_not_lt hwn hv hlt
      · exact hw u hu

theorem Sorted.insert_vertices {s : Simplex α} (h : s.Sorted) {v : Vertex α}
    (hv : isNaN v.value = false) (hs : ∀ w ∈ s.vertices, isNaN w.value = false) :
    (s.insert v).vertices = insertInner v s.vertices := by
  unfold insert
  split
  · next hlt => exact (if_pos hlt).symm
  · next hnot =>
    have hvertices : insertInner v s.vertices =
        s.best :: insertInner v (s.inner ++ [s.worst]) := if_neg hnot
    rw [hvertices]
    split
    · next hlt =>
      rw [insertInner_append hlt]
      rfl
    · next hnot' =>
      have hworst : s.worst.value ≤ v.value := Lawful.le_of_not_lt (hs _ s.worst_mem) hv hnot'
      rw [insertInner_of_not]
      · rfl
      · intro w hw hlt
        refine (Lawful.lt_iff.1 hlt).2 ?_
        obtain hw | hw := List.mem_append.1 hw
        · exact Lawful.le_trans (h.le_worst (List.mem_cons_of_mem _ hw)) hworst
        · rwa [List.mem_singleton.1 hw]

theorem foldl_insert_spec {vs : List (Vertex α)} (hvs : ∀ v ∈ vs, isNaN v.value = false)
    {s : Simplex α} (h : s.Sorted) (hs : ∀ w ∈ s.vertices, isNaN w.value = false) :
    (vs.foldl insert s).Sorted ∧ (vs.foldl insert s).vertices.Perm (s.vertices ++ vs) := by
  induction vs generalizing s with
  | nil => exact ⟨h, by rw [List.append_nil]; exact .refl _⟩
  | cons v vs ih =>
    obtain ⟨hv, hvs⟩ := List.forall_mem_cons.1 hvs
    have hvertices := h.insert_vertices hv hs
    have hperm : (s.insert v).vertices.Perm (v :: s.vertices) := by
      rw [hvertices]
      exact insertInner_perm v s.vertices
    have hsorted : (s.insert v).Sorted := by
      rw [Sorted, hvertices]
      exact insertInner_pairwise hv hs h
    have hnan : ∀ w ∈ (s.insert v).vertices, isNaN w.value = false := by
      intro w hw
      obtain rfl | hw := List.mem_cons.1 (hperm.mem_iff.1 hw)
      · exact hv
      · exact hs w hw
    obtain ⟨h₁, h₂⟩ := ih hvs hsorted hnan
    refine ⟨h₁, h₂.trans ((hperm.append_right vs).trans ?_)⟩
    exact List.perm_middle.symm

theorem pair_spec {v w : Vertex α} (hv : isNaN v.value = false) (hw : isNaN w.value = false) :
    (pair v w).Sorted ∧ (pair v w).vertices.Perm [v, w] := by
  unfold pair
  split
  · next h => exact ⟨by simpa [Sorted, vertices] using Lawful.le_of_lt h, .swap v w []⟩
  · next h => exact ⟨by simpa [Sorted, vertices] using Lawful.le_of_not_lt hv hw h, .refl _⟩

theorem sort_spec {s : Simplex α} (hs : ∀ v ∈ s.vertices, isNaN v.value = false) :
    s.sort.Sorted ∧ s.sort.vertices.Perm s.vertices := by
  obtain ⟨hbest, hrest⟩ := List.forall_mem_cons.1 hs
  unfold sort
  split
  · next h =>
    obtain ⟨h₁, h₂⟩ := pair_spec hbest (hs _ s.worst_mem)
    refine ⟨h₁, h₂.trans ?_⟩
    rw [vertices.eq_1 s, h]
    exact .refl _
  · next v vs h =>
    rw [h] at hrest
    obtain ⟨hv, hvs⟩ := List.forall_mem_cons.1 hrest
    obtain ⟨h₁, h₂⟩ := pair_spec hbest hv
    obtain ⟨h₃, h₄⟩ := foldl_insert_spec hvs h₁ fun w hw => by
      obtain rfl | hw := List.mem_cons.1 (h₂.mem_iff.1 hw)
      · exact hbest
      · rwa [List.mem_singleton.1 hw]
    refine ⟨h₃, h₄.trans ((h₂.append_right _).trans ?_)⟩
    rw [vertices.eq_1 s, h]
    exact .refl _

end Optima.Simplex
