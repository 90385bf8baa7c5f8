import Optima.Proofs.Swarm.Sweep

namespace Optima.Swarm

open Scalar (Lawful isNaN)

variable {α γ : Type} [Scalar α]

/-- The best of all leads the particles, once the function has been evaluated at `xs`. -/
structure Best.Leads (box : Box α) (f : Vec α → α) (xs : List (Vec α)) (ps : List (Particle α))
    (b : Best α) : Prop where
  length : b.position.length = box.length
  value : b.value = f b.position
  first : ∃ i, FirstBest (fun x y => f x < f y) xs i b.position
  led : ∀ p ∈ ps, ¬ f p.bestPosition < f b.position

variable {box : Box α} {f : Vec α → α} {xs : List (Vec α)}

theorem Best.after_eq {b : Best α} (hb : b.value = f b.position) {p : Particle α}
    (hp : p.bestValue = f p.bestPosition) :
    b.after p = if f p.bestPosition < f b.position then ⟨p.bestPosition, p.bestValue⟩ else b := by
  rw [Best.after, hb, hp]

variable [Lawful α]

theorem Particle.Moves.beats_iff (hf : ∀ x, isNaN (f x) = false) {p q : Particle α}
    (h : p.Moves box f q) {y : Vec α} (hp : ¬ f p.bestPosition < f y) :
    (f q.bestPosition < f y ↔ f q.position < f y) ∧
      (f q.bestPosition < f y → q.bestPosition = q.position) := by
  have hr := lt_ranking hf
  by_cases hq : f q.position < f p.bestPosition
  · rw [h.best, if_pos hq]
    exact ⟨Iff.rfl, fun _ => rfl⟩
  · rw [h.best, if_neg hq]
    exact ⟨⟨fun h => absurd h hp, fun h => absurd h (hr.not_trans hq hp)⟩, fun h => absurd h hp⟩

theorem Best.Leads.after (hf : ∀ x, isNaN (f x) = false) {b : Best α} {p q : Particle α}
    {ps : List (Particle α)} (hb : b.Leads box f xs (p :: ps)) (h : p.Moves box f q) :
    (b.after q).Leads box f (xs ++ [q.position]) (q :: ps) := by
  have hr := lt_ranking hf
  obtain ⟨i, hi⟩ := hb.first
  -- what the particle knew before does not beat the best of all, so only its new position can
  obtain ⟨hiff, heq⟩ := h.beats_iff hf (hb.led p List.mem_cons_self)
  rw [Best.after_eq hb.value h.sound.bestValue]
  by_cases hq : f q.bestPosition < f b.position
  · rw [if_pos hq]
    refine ⟨h.sound.bestPosition, h.sound.bestValue, ?_, ?_⟩
    · rw [heq hq]
      exact ⟨_, hi.concat_of_lt hr (hiff.1 hq)⟩
    · intro p' hp'
      obtain rfl | hp' := List.mem_cons.1 hp'
      · exact hr.irrefl _
      · exact hr.not_trans (hb.led p' (List.mem_cons_of_mem p hp')) (hr.asymm hq)
  · rw [if_neg hq]
    refine ⟨hb.length, hb.value, ⟨i, hi.concat_of_not_lt fun h => hq (hiff.2 h)⟩, ?_⟩
    intro p' hp'
    obtain rfl | hp' := List.mem_cons.1 hp'
    · exact hq
    · exact hb.led p' (List.mem_cons_of_mem p hp')

omit [Lawful α] in
theorem Best.Leads.subset {b : Best α} {ps qs : List (Particle α)} (hb : b.Leads box f xs ps)
    (h : ∀ q ∈ qs, q ∈ ps) : b.Leads box f xs qs :=
  ⟨hb.length, hb.value, hb.first, fun q hq => hb.led q (h q hq)⟩

theorem Best.Leads.foldl (hf : ∀ x, isNaN (f x) = false) {ps qs rs : List (Particle α)} {b : Best α}
    (hb : b.Leads box f xs (ps ++ qs)) (h : List.Forall₂ (Particle.Moves box f) ps rs) :
    (rs.foldl Best.after b).Leads box f (xs ++ rs.map (·.position)) (rs ++ qs) := by
  induction h generalizing xs b qs with
  | nil => simpa using hb
  | @cons p r ps rs hpr _ ih =>
    have hnext : (b.after r).Leads box f (xs ++ [r.position]) (ps ++ r :: qs) := by
      refine (hb.after hf hpr).subset fun q hq => ?_
      rw [List.mem_append, List.mem_cons] at hq
      exact List.mem_cons.2 ((or_left_comm.1 hq).imp_right List.mem_append.2)
    have hrest := ih hnext
    rw [List.foldl_cons, List.map_cons, List.append_cons]
    refine hrest.subset fun q hq => ?_
    rw [List.cons_append, List.mem_cons, List.mem_append] at hq
    rw [List.mem_append, List.mem_cons]
    exact or_left_comm.1 hq

theorem Best.Leads.swept (hf : ∀ x, isNaN (f x) = false) {best : Best α} {ps : List (Particle α)}
    (hb : best.Leads box f xs ps) {t : Traced (Vec α) ((List (Particle α) × Best α) × γ)}
    (h : Swept box f ps best t) : t.value.1.2.Leads box f (xs ++ t.calls) t.value.1.1 := by
  have hnone : best.Leads box f xs (ps ++ []) := by rwa [List.append_nil]
  have hrest := hnone.foldl hf h.moves
  rwa [List.append_nil, ← h.best, ← h.calls] at hrest

def start (f : Vec α → α) (xs vs : List (Vec α)) : List (Particle α) :=
  List.zipWith (fun x v => Particle.start x v (f x)) xs vs

omit [Scalar α] in
theorem start_spec {f : Vec α → α} {xs vs : List (Vec α)} (h : vs.length = xs.length) :
    (start f xs vs).map (·.position) = xs ∧
      ∀ p ∈ start f xs vs, p.velocity ∈ vs ∧ p.bestPosition = p.position ∧
        p.bestValue = f p.bestPosition := by
  induction xs generalizing vs with
  | nil => exact ⟨rfl, by simp [start]⟩
  | cons x xs ih =>
    obtain ⟨v, vs, rfl⟩ := List.exists_cons_of_length_eq_add_one h
    obtain ⟨hpos, hmem⟩ := ih (Nat.succ.inj h)
    refine ⟨congrArg (x :: ·) hpos, ?_⟩
    intro p hp
    obtain rfl | hp := List.mem_cons.1 hp
    · exact ⟨List.mem_cons_self, rfl, rfl⟩
    · exact ⟨List.mem_cons_of_mem v (hmem p hp).1, (hmem p hp).2⟩

omit [Scalar α] in
theorem zipWith_start (f : Vec α → α) (xs vs : List (Vec α)) :
    List.zipWith (fun x p => Particle.start x p.1 p.2) xs (vs.zip (xs.map f)) = start f xs vs := by
  induction xs generalizing vs with
  | nil => rfl
  | cons x xs ih =>
    cases vs with
    | nil => rfl
    | cons v vs => exact congrArg (_ :: ·) (ih vs)

theorem bestOf_start_leads (hf : ∀ x, isNaN (f x) = false) {vs : List (Vec α)} (hne : xs ≠ [])
    (hxs : ∀ x ∈ xs, x.length = box.length) (h : vs.length = xs.length) :
    (bestOf (start f xs vs)).Leads box f xs (start f xs vs) := by
  obtain ⟨hpos, hmem⟩ := start_spec (f := f) h
  have hvalues : (start f xs vs).map (·.bestValue) = xs.map f := by
    conv_rhs => rw [← hpos, List.map_map]
    apply List.map_congr_left
    intro p hp
    rw [(hmem p hp).2.2, (hmem p hp).2.1]
    rfl
  have hne' : xs.map f ≠ [] := mt List.map_eq_nil_iff.1 hne
  obtain ⟨v, hv⟩ := bestIndex_firstBest hne'
  obtain ⟨x, hx, rfl⟩ := hv.of_map
  have hfirst : FirstBest (fun x y => f x < f y) xs (bestIndex (xs.map f)) x := by
    simpa [beats_iff, hf] using hx
  have hget : ((start f xs vs).map (·.position))[bestIndex (xs.map f)]? = some x := by
    rw [hpos, hx.get]
  rw [List.getElem?_map, Option.map_eq_some_iff] at hget
  obtain ⟨p, hp, rfl⟩ := hget
  have hbest : bestOf (start f xs vs) = ⟨p.position, f p.position⟩ := by
    obtain ⟨-, he, hv⟩ := hmem p (List.mem_of_getElem? hp)
    rw [he] at hv
    simp only [bestOf, hvalues, hp, hv, he]
  rw [hbest]
  refine ⟨hxs _ hfirst.mem, rfl, ⟨_, hfirst⟩, ?_⟩
  intro q hq
  rw [(hmem q hq).2.1]
  apply hfirst.best
  rw [← hpos]
  exact List.mem_map_of_mem hq

end Optima.Swarm
