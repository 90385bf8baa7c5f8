import Optima.Proofs.Containment
import Optima.Proofs.Simplex.Sorting
import Optima.Simplex.Step

namespace Optima

open Scalar (Lawful isNaN)

variable {α : Type} [Scalar α]

structure Vertex.Sound (box : Box α) (f : Vec α → α) (v : Vertex α) : Prop where
  contains : box.Contains v.point
  value : v.value = f v.point

namespace Simplex

/-- What an iteration that evaluated the points `xs` makes of a sorted simplex. -/
inductive Steps (c : Config α) (box : Box α) (f : Vec α → α) (s : Simplex α) (xs : List (Vec α)) :
    Simplex α → Prop
  | replaced {v : Vertex α} : v.point ∈ xs → v.value < s.worst.value →
      Steps c box f s xs { s with worst := v }
  | shrunk : Steps c box f s xs (shrinkTowardBest c box f s).value

/-- An iteration from a sorted simplex to another, which evaluated the points `xs`, and what it
keeps. -/
structure Stepped (c : Config α) (box : Box α) (f : Vec α → α) (s : Simplex α)
    (xs : List (Vec α)) (u : Simplex α) : Prop where
  contains : ∀ x ∈ xs, box.Contains x
  steps : Steps c box f s xs u
  sound : ∀ v ∈ u.vertices, v.Sound box f
  kept : ∀ v ∈ s.vertices, ∃ w ∈ u.vertices, w.value ≤ v.value
  found : ∀ x ∈ xs, ∃ w ∈ u.vertices, w.value ≤ f x
  origin : ∀ w ∈ u.vertices, w ∈ s.vertices ∨ w.point ∈ xs
  best : s.best ∈ u.vertices

variable {c : Config α} {box : Box α} {f : Vec α → α} {s : Simplex α} {center : Vec α}

theorem toward_contains [Lawful α] (hbox : ∀ i ∈ box, i.lower ≤ i.upper)
    (hc : center.length = box.length) (k : α) {x : Vec α} (hx : x.length = box.length) :
    box.Contains (toward box center k x) := by
  apply Box.contains_clip hbox
  rw [Vec.linearCombination, Vec.add_length, Vec.scale_length, Vec.scale_length, hc, hx,
    Nat.min_self]

def drawn (c : Config α) (box : Box α) (f : Vec α → α) (s : Simplex α) : List (Vertex α) :=
  (s.inner ++ [s.worst]).map fun v =>
    let x := toward box s.best.point c.shrink v.point
    ⟨x, f x⟩

theorem shrinkTowardBest_calls (c : Config α) (box : Box α) (f : Vec α → α) (s : Simplex α) :
    (shrinkTowardBest c box f s).calls = (drawn c box f s).map (·.point) := by
  simp only [shrinkTowardBest, Traced.calls_bind, Traced.calls_forEach, Traced.calls_pure,
    List.append_nil, drawn, List.map_map, List.map_append]
  congr 1
  exact List.map_eq_flatMap.symm

theorem shrinkTowardBest_vertices (c : Config α) (box : Box α) (f : Vec α → α) (s : Simplex α) :
    (shrinkTowardBest c box f s).value.vertices = s.best :: drawn c box f s := by
  simp only [shrinkTowardBest, Traced.value_bind, Traced.value_forEach, Traced.value_pure, drawn,
    List.map_append]
  rfl

theorem drawn_sound [Lawful α] (hbox : ∀ i ∈ box, i.lower ≤ i.upper)
    (hs : ∀ v ∈ s.vertices, v.Sound box f) : ∀ v ∈ drawn c box f s, v.Sound box f := by
  intro v hv
  obtain ⟨u, hu, rfl⟩ := List.mem_map.1 hv
  have hu := hs u (List.mem_cons_of_mem _ hu)
  have hbest := (hs _ s.best_mem).contains.length
  exact ⟨toward_contains hbox hbest _ hu.contains.length, rfl⟩

omit [Scalar α] in
theorem evaluate_bind {β : Type} (x : Vec α) (k : Vertex α → Traced (Vec α) β) :
    evaluate f x >>= k = ⟨(k ⟨x, f x⟩).value, x :: (k ⟨x, f x⟩).calls⟩ := rfl

theorem step_expanded {r e : Vec α} (hr : toward box center (-c.reflection) s.worst.point = r)
    (he : toward box center c.expansion r = e) (h : f r < s.best.value) :
    step c box f s center =
      ⟨({ s with worst := if f e < f r then ⟨e, f e⟩ else ⟨r, f r⟩ }, 2), [r, e]⟩ := by
  simp only [step, evaluate_bind, hr, he]
  rw [if_pos h]
  rfl

theorem step_reflected {r : Vec α} (hr : toward box center (-c.reflection) s.worst.point = r)
    (h : ¬ f r < s.best.value) (h' : f r < s.secondWorst.value) :
    step c box f s center = ⟨({ s with worst := ⟨r, f r⟩ }, 1), [r]⟩ := by
  simp only [step, evaluate_bind, hr]
  rw [if_neg h, if_pos h']
  rfl

theorem step_contracted {r k : Vec α} (hr : toward box center (-c.reflection) s.worst.point = r)
    (hk : toward box center c.contraction s.worst.point = k) (h : ¬ f r < s.best.value)
    (h' : ¬ f r < s.secondWorst.value) (hlt : f k < s.worst.value) :
    step c box f s center = ⟨({ s with worst := ⟨k, f k⟩ }, 2), [r, k]⟩ := by
  simp only [step, evaluate_bind, hr, hk]
  rw [if_neg h, if_neg h', if_pos hlt]
  rfl

theorem step_shrunk {r k : Vec α} (hr : toward box center (-c.reflection) s.worst.point = r)
    (hk : toward box center c.contraction s.worst.point = k) (h : ¬ f r < s.best.value)
    (h' : ¬ f r < s.secondWorst.value) (hlt : ¬ f k < s.worst.value) :
    step c box f s center =
      ⟨((shrinkTowardBest c box f s).value, 2 + box.length),
        r :: k :: (shrinkTowardBest c box f s).calls⟩ := by
  simp only [step, evaluate_bind, hr, hk]
  rw [if_neg h, if_neg h', if_neg hlt]
  simp

variable [Lawful α]

theorem Stepped.of_replaced (hs : s.Sorted) (hsound : ∀ v ∈ s.vertices, v.Sound box f)
    {v : Vertex α} {xs : List (Vec α)} (hxs : ∀ x ∈ xs, box.Contains x)
    (hv : v.point ∈ xs) (hvalue : v.value = f v.point) (hlt : v.value < s.worst.value)
    (hfound : ∀ x ∈ xs, v.value ≤ f x ∨ s.best.value ≤ f x) :
    Stepped c box f s xs { s with worst := v } := by
  have hbase : ∀ {w : Vertex α}, w ∈ s.vertices ↔ w ∈ s.base ∨ w = s.worst := by
    intro w
    rw [vertices, ← List.cons_append, List.mem_append, List.mem_singleton]
    rfl
  have hnew : ∀ {w : Vertex α}, w ∈ vertices { s with worst := v } ↔ w ∈ s.base ∨ w = v := by
    intro w
    rw [vertices, ← List.cons_append, List.mem_append, List.mem_singleton]
    rfl
  refine ⟨hxs, .replaced hv hlt, ?_, ?_, ?_, ?_, hnew.2 (.inl List.mem_cons_self)⟩
  · intro w hw
    obtain hw | rfl := hnew.1 hw
    · exact hsound w (hbase.2 (.inl hw))
    · exact ⟨hxs _ hv, hvalue⟩
  · intro w hw
    obtain hw | rfl := hbase.1 hw
    · have hle := hs.le_worst hw
      exact ⟨w, hnew.2 (.inl hw), Lawful.le_refl (Lawful.isNaN_of_le hle).1⟩
    · exact ⟨v, hnew.2 (.inr rfl), Lawful.le_of_lt hlt⟩
  · intro x hx
    obtain hle | hle := hfound x hx
    · exact ⟨v, hnew.2 (.inr rfl), hle⟩
    · exact ⟨s.best, hnew.2 (.inl List.mem_cons_self), hle⟩
  · intro w hw
    obtain hw | rfl := hnew.1 hw
    · exact .inl (hbase.2 (.inl hw))
    · exact .inr hv

theorem Stepped.of_shrunk (hbox : ∀ i ∈ box, i.lower ≤ i.upper) (hf : ∀ x, isNaN (f x) = false)
    (hs : s.Sorted) (hsound : ∀ v ∈ s.vertices, v.Sound box f) {xs : List (Vec α)}
    (hxs : ∀ x ∈ xs, box.Contains x) (hfound : ∀ x ∈ xs, s.best.value ≤ f x) :
    Stepped c box f s (xs ++ (shrinkTowardBest c box f s).calls)
      (shrinkTowardBest c box f s).value := by
  have hcalls := shrinkTowardBest_calls c box f s
  have hvertices := shrinkTowardBest_vertices c box f s
  have hbest := hsound _ s.best_mem
  have hdrawn := drawn_sound (c := c) hbox hsound
  refine ⟨?_, .shrunk, ?_, ?_, ?_, ?_, by rw [hvertices]; exact List.mem_cons_self⟩
  · rw [hcalls]
    exact List.forall_mem_append.2 ⟨hxs, List.forall_mem_map.2 fun v hv => (hdrawn v hv).contains⟩
  · rw [hvertices]
    exact List.forall_mem_cons.2 ⟨hbest, hdrawn⟩
  · rw [hvertices]
    intro v hv
    refine ⟨s.best, List.mem_cons_self, ?_⟩
    obtain rfl | hv := List.mem_cons.1 hv
    · rw [hbest.value]
      exact Lawful.le_refl (hf _)
    · exact hs.best_le hv
  · rw [hvertices, hcalls]
    refine List.forall_mem_append.2 ⟨?_, List.forall_mem_map.2 ?_⟩
    · intro x hx
      exact ⟨s.best, List.mem_cons_self, hfound x hx⟩
    · intro v hv
      refine ⟨v, List.mem_cons_of_mem _ hv, ?_⟩
      rw [(hdrawn v hv).value]
      exact Lawful.le_refl (hf _)
  · rw [hvertices, hcalls]
    refine List.forall_mem_cons.2 ⟨.inl s.best_mem, ?_⟩
    intro v hv
    exact .inr (List.mem_append_right _ (List.mem_map_of_mem hv))

theorem step_stepped (hbox : ∀ i ∈ box, i.lower ≤ i.upper) (hf : ∀ x, isNaN (f x) = false)
    (hs : s.Sorted) (hsound : ∀ v ∈ s.vertices, v.Sound box f)
    (hcenter : center.length = box.length) :
    Stepped c box f s (step c box f s center).calls (step c box f s center).value.1 := by
  have hworst := (hsound _ s.worst_mem).contains.length
  have hvalue : ∀ v ∈ s.vertices, isNaN v.value = false := by
    intro v hv
    rw [(hsound v hv).value]
    exact hf _
  have hbw : s.best.value ≤ s.worst.value := hs.le_worst List.mem_cons_self
  obtain ⟨r, hr⟩ : ∃ r, toward box center (-c.reflection) s.worst.point = r := ⟨_, rfl⟩
  obtain ⟨e, he⟩ : ∃ e, toward box center c.expansion r = e := ⟨_, rfl⟩
  obtain ⟨k, hk⟩ : ∃ k, toward box center c.contraction s.worst.point = k := ⟨_, rfl⟩
  have hrbox : box.Contains r := by
    rw [← hr]
    exact toward_contains hbox hcenter _ hworst
  have hebox : box.Contains e := by
    rw [← he]
    exact toward_contains hbox hcenter _ hrbox.length
  have hkbox : box.Contains k := by
    rw [← hk]
    exact toward_contains hbox hcenter _ hworst
  have hrefl : ∀ x, f x ≤ f x := fun x => Lawful.le_refl (hf x)
  by_cases h : f r < s.best.value
  · -- the better of the reflected and the expanded vertex is the best of all
    have hrw : f r < s.worst.value := Lawful.lt_of_lt_of_le h hbw
    rw [step_expanded hr he h]
    by_cases her : f e < f r
    · rw [if_pos her]
      refine .of_replaced hs hsound (by simp [hrbox, hebox]) (by simp) rfl ?_ ?_
      · exact Lawful.lt_of_lt_of_le her (Lawful.le_of_lt hrw)
      · simp [hrefl, Lawful.le_of_lt her]
    · rw [if_neg her]
      refine .of_replaced hs hsound (by simp [hrbox, hebox]) (by simp) rfl hrw ?_
      simp [hrefl, Lawful.le_of_not_lt (hf r) (hf e) her]
  · have hbr : s.best.value ≤ f r := Lawful.le_of_not_lt (hvalue _ s.best_mem) (hf r) h
    by_cases h' : f r < s.secondWorst.value
    · rw [step_reflected hr h h']
      refine .of_replaced hs hsound (by simp [hrbox]) (by simp) rfl ?_ (by simp [hrefl])
      exact Lawful.lt_of_lt_of_le h' (hs.le_worst s.secondWorst_mem)
    · by_cases hlt : f k < s.worst.value
      · rw [step_contracted hr hk h h' hlt]
        exact .of_replaced hs hsound (by simp [hrbox, hkbox]) (by simp) rfl hlt
          (by simp [hrefl, hbr])
      · rw [step_shrunk hr hk h h' hlt]
        have hwk := Lawful.le_of_not_lt (hvalue _ s.worst_mem) (hf k) hlt
        -- neither of the candidates turned down is better than the best vertex
        have hturned : ∀ x ∈ [r, k], box.Contains x ∧ s.best.value ≤ f x := by
          simp [hrbox, hkbox, hbr, Lawful.le_trans hbw hwk]
        exact .of_shrunk hbox hf hs hsound (fun x hx => (hturned x hx).1)
          (fun x hx => (hturned x hx).2)

end Simplex

end Optima
