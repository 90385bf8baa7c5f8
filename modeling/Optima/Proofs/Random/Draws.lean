import Optima.Random.Uniform

namespace Optima.Draw

variable {γ β δ : Type}

theorem run_bind (d : Draw γ β) (f : β → Draw γ δ) (g : γ) :
    (d >>= f).run g = (f (d.run g).1).run (d.run g).2 := rfl

theorem whileSome_spec {d : β → Draw γ (Option δ)} {bs : List β} {cs : List δ} {g : γ}
    (h : ((whileSome d bs).run g).1 = some cs) :
    cs.length = bs.length ∧ ∀ c ∈ cs, ∃ b ∈ bs, ∃ g, ((d b).run g).1 = some c := by
  induction bs generalizing cs g with
  | nil =>
    cases h
    exact ⟨rfl, by simp⟩
  | cons b bs ih =>
    rw [whileSome, run_bind] at h
    cases hb : ((d b).run g).1 with
    | none =>
      rw [hb] at h
      cases h
    | some c =>
      simp only [hb, run_bind] at h
      cases hbs : ((whileSome d bs).run ((d b).run g).2).1 with
      | none =>
        rw [hbs] at h
        cases h
      | some cs' =>
        rw [hbs] at h
        cases h
        obtain ⟨hlength, hmem⟩ := ih hbs
        refine ⟨by rw [List.length_cons, List.length_cons, hlength], ?_⟩
        intro e he
        obtain rfl | he := List.mem_cons.1 he
        · exact ⟨b, List.mem_cons_self, g, hb⟩
        · obtain ⟨b', hb', hg⟩ := hmem e he
          exact ⟨b', List.mem_cons_of_mem b hb', hg⟩

theorem replicate_length (d : Draw γ β) (n : Nat) (g : γ) :
    ((replicate d n).run g).1.length = n := by
  induction n generalizing g with
  | zero => rfl
  | succ n ih => exact congrArg Nat.succ (ih _)

variable {α : Type} [Scalar α] [WordSource γ]

theorem points_length {box : Box α} {n : Nat} {xs : List (Vec α)} {g : γ}
    (h : ((points box n).run g).1 = some xs) :
    xs.length = n ∧ ∀ x ∈ xs, x.length = box.length := by
  obtain ⟨hlength, hmem⟩ := whileSome_spec h
  refine ⟨by rw [hlength, List.length_range], ?_⟩
  intro x hx
  obtain ⟨_, _, _, hd⟩ := hmem x hx
  exact (whileSome_spec hd).1

theorem indexBelow_lt {n : Nat} (hn : 0 < n) (g : γ) : ((indexBelow n).run g).1 < n := by
  have hattempt : ∀ tries (g : γ), ((indexBelow.attempt n tries).run g).1 < n := by
    intro tries
    induction tries with
    | zero =>
      intro g
      exact hn
    | succ tries ih =>
      intro g
      rw [indexBelow.attempt, run_bind]
      dsimp only
      split
      · change (word32.run g).1.toNat * n / UInt32.size < n
        rw [Nat.div_lt_iff_lt_mul (by decide), Nat.mul_comm n]
        exact Nat.mul_lt_mul_of_pos_right (word32.run g).1.toNat_lt hn
      · exact ih _
  exact hattempt patience g

theorem mem_place {t j i : Nat} {drawn : List Nat} (h : i ∈ place t j drawn) :
    i = t ∨ i = j ∨ i ∈ drawn := by
  induction drawn with
  | nil => exact .inl (List.mem_singleton.1 h)
  | cons x xs ih =>
    unfold place at h
    split at h
    · obtain rfl | h := List.mem_cons.1 h
      · exact .inr (.inl rfl)
      · exact .inr (.inr h)
    · obtain rfl | h := List.mem_cons.1 h
      · exact .inr (.inr List.mem_cons_self)
      · obtain rfl | rfl | h := ih h
        · exact .inl rfl
        · exact .inr (.inl rfl)
        · exact .inr (.inr (List.mem_cons_of_mem x h))

theorem place_length (t j : Nat) (drawn : List Nat) :
    (place t j drawn).length = drawn.length + 1 := by
  induction drawn with
  | nil => rfl
  | cons x xs ih =>
    unfold place
    split
    · rfl
    · rw [List.length_cons, ih, List.length_cons]

theorem sampleOver_spec (js drawn : List Nat) {length : Nat} (hjs : ∀ j ∈ js, j < length)
    (hd : ∀ i ∈ drawn, i < length) (g : γ) :
    ((sampleOver js drawn).run g).1.length = js.length + drawn.length ∧
      ∀ i ∈ ((sampleOver js drawn).run g).1, i < length := by
  induction js generalizing drawn g with
  | nil => exact ⟨(Nat.zero_add _).symm, hd⟩
  | cons j js ih =>
    rw [sampleOver, run_bind]
    have ht : ((indexBelow (j + 1)).run g).1 < j + 1 := indexBelow_lt (Nat.succ_pos j) g
    have hj := hjs j List.mem_cons_self
    obtain ⟨hlength, hmem⟩ := ih (place ((indexBelow (j + 1)).run g).1 j drawn)
      (fun i hi => hjs i (List.mem_cons_of_mem j hi)) (by
        intro i hi
        obtain rfl | rfl | hi := mem_place hi
        · omega
        · exact hj
        · exact hd i hi) ((indexBelow (j + 1)).run g).2
    refine ⟨?_, hmem⟩
    rw [hlength, place_length, List.length_cons]
    omega

theorem sample_spec {length amount : Nat} (h : amount ≤ length) (g : γ) :
    ((sample length amount).run g).1.length = amount ∧
      ∀ i ∈ ((sample length amount).run g).1, i < length := by
  obtain ⟨hlength, hmem⟩ := sampleOver_spec ((List.range amount).map (length - amount + ·)) []
    (by simp; omega : ∀ j ∈ (List.range amount).map (length - amount + ·), j < length) (by simp) g
  refine ⟨?_, hmem⟩
  rw [sample, hlength]
  simp

theorem place_nodup {t j : Nat} {drawn : List Nat} (hd : drawn.Nodup) (hj : j ∉ drawn) :
    (place t j drawn).Nodup := by
  induction drawn with
  | nil => exact List.nodup_cons.2 ⟨List.not_mem_nil, List.nodup_nil⟩
  | cons x xs ih =>
    obtain ⟨hx, hxs⟩ := List.nodup_cons.1 hd
    unfold place
    split
    · exact List.nodup_cons.2 ⟨hj, hd⟩
    · next hxt =>
      refine List.nodup_cons.2 ⟨?_, ih hxs fun h => hj (List.mem_cons_of_mem x h)⟩
      intro h
      obtain rfl | rfl | h := mem_place h
      · exact hxt rfl
      · exact hj List.mem_cons_self
      · exact hx h

/-- The bounds ascend, and what has been drawn is below all that are to come: no bound is among
the indices drawn before it. -/
theorem sampleOver_nodup {js drawn : List Nat} (hjs : js.Pairwise (· < ·)) (hd : drawn.Nodup)
    (hlt : ∀ i ∈ drawn, ∀ j ∈ js, i < j) (g : γ) : ((sampleOver js drawn).run g).1.Nodup := by
  induction js generalizing drawn g with
  | nil => exact hd
  | cons j js ih =>
    rw [sampleOver, run_bind]
    have ht : ((indexBelow (j + 1)).run g).1 < j + 1 := indexBelow_lt (Nat.succ_pos j) g
    obtain ⟨hj, hjs⟩ := List.pairwise_cons.1 hjs
    have hnot : j ∉ drawn := fun h => Nat.lt_irrefl j (hlt j h j List.mem_cons_self)
    refine ih hjs (place_nodup hd hnot) ?_ _
    intro i hi k hk
    have hjk := hj k hk
    obtain rfl | rfl | hi := mem_place hi
    · omega
    · exact hjk
    · exact hlt i hi k (List.mem_cons_of_mem j hk)

theorem sample_nodup (length amount : Nat) (g : γ) : ((sample length amount).run g).1.Nodup := by
  refine sampleOver_nodup ?_ List.nodup_nil (by simp) g
  refine List.pairwise_lt_range.map _ fun i j h => ?_
  omega

end Optima.Draw
