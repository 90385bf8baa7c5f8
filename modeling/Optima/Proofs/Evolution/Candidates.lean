import Mathlib.Data.List.Nodup
import Optima.Proofs.Evolution.Run

namespace Optima

namespace Draw

variable {γ β : Type}

theorem replicate_succ_run (d : Draw γ β) (n : Nat) (g : γ) :
    (replicate d (n + 1)).run g =
      ((d.run g).1 :: ((replicate d n).run (d.run g).2).1, ((replicate d n).run (d.run g).2).2) :=
  rfl

theorem mem_replicate {d : Draw γ β} {n : Nat} {g : γ} {b : β}
    (h : b ∈ ((replicate d n).run g).1) : ∃ g', (d.run g').1 = b := by
  induction n generalizing g with
  | zero => exact absurd h List.not_mem_nil
  | succ n ih =>
    obtain rfl | h := List.mem_cons.1 h
    · exact ⟨g, rfl⟩
    · exact ih h

end Draw

theorem forall_mem_dropLast_cons {β : Type} {P : β → Prop} {x : β} {xs : List β} (hx : P x)
    (hxs : ∀ y ∈ xs.dropLast, P y) : ∀ y ∈ (x :: xs).dropLast, P y := by
  cases xs with
  | nil => exact fun y hy => absurd hy List.not_mem_nil
  | cons y ys => exact List.forall_mem_cons.2 ⟨hx, hxs⟩

namespace Evolution

variable {α γ : Type} [Scalar α]

/-- The last vector is made from the others, coordinate by coordinate: each is the target's own or
the mutant's. -/
inductive Crossed (c : Config α) : Vec α → Vec α → Vec α → Vec α → Vec α → Prop
  | nil : Crossed c [] [] [] [] []
  | own {target a b d x : Vec α} (own p q r : α) : Crossed c target a b d x →
      Crossed c (own :: target) (p :: a) (q :: b) (r :: d) (own :: x)
  | mutant {target a b d x : Vec α} (own p q r : α) : Crossed c target a b d x →
      Crossed c (own :: target) (p :: a) (q :: b) (r :: d) ((p + c.weight * (q - r)) :: x)

/-- A vector made for member `k` from three others, different from one another. -/
inductive Offspring (c : Config α) (points : List (Vec α)) (k : Nat) (x : Vec α) : Prop
  | intro {i₁ i₂ i₃ : Nat} {target a b d : Vec α} : [k, i₁, i₂, i₃].Nodup →
      points[k]? = some target → points[i₁]? = some a → points[i₂]? = some b →
      points[i₃]? = some d → Crossed c target a b d x → Offspring c points k x

theorem skip_ne (k i : Nat) : k ≠ skip k i := by
  unfold skip
  split <;> omega

theorem skip_injective {k i j : Nat} (h : skip k i = skip k j) : i = j := by
  unfold skip at h
  split at h <;> split at h <;> omega

theorem nodup_skip (k : Nat) {is : List Nat} (h : is.Nodup) : (k :: is.map (skip k)).Nodup := by
  refine List.nodup_cons.2 ⟨?_, h.map fun i j => skip_injective⟩
  intro hk
  obtain ⟨i, -, hi⟩ := List.mem_map.1 hk
  exact skip_ne k i hi.symm

variable [WordSource γ] {c : Config α} {n : Nat}

theorem crossover_crossed {target x y z : Vec α} (ht : target.length = n) (hx : x.length = n)
    (hy : y.length = n) (hz : z.length = n) (g : γ) :
    Crossed c target x y z ((crossover c target x y z).run g).1 := by
  induction n generalizing target x y z g with
  | zero =>
    rw [List.length_eq_zero_iff.1 ht, List.length_eq_zero_iff.1 hx, List.length_eq_zero_iff.1 hy,
      List.length_eq_zero_iff.1 hz]
    exact .nil
  | succ n ih =>
    obtain ⟨own, target, rfl⟩ := List.exists_cons_of_length_eq_add_one ht
    obtain ⟨a, x, rfl⟩ := List.exists_cons_of_length_eq_add_one hx
    obtain ⟨b, y, rfl⟩ := List.exists_cons_of_length_eq_add_one hy
    obtain ⟨d, z, rfl⟩ := List.exists_cons_of_length_eq_add_one hz
    have hrest := ih (Nat.succ.inj ht) (Nat.succ.inj hx) (Nat.succ.inj hy) (Nat.succ.inj hz)
    rw [crossover, Draw.run_bind, Draw.run_bind]
    generalize (Draw.unit.run g : α × γ) = r
    change Crossed c _ _ _ _ (ite _ _ _ :: _)
    split
    · exact .mutant own a b d (hrest r.2)
    · exact .own own a b d (hrest r.2)

variable {points : List (Vec α)} (hpoints : ∀ x ∈ points, x.length = n) (hsize : 4 ≤ points.length)
  {k : Nat} (hk : k < points.length)

include hpoints hsize hk

theorem candidate_offspring (g : γ) : Offspring c points k ((candidate c points k).run g).1 := by
  rw [candidate, Draw.run_bind]
  have hthree : 3 ≤ points.length - 1 := by omega
  obtain ⟨hlength, hmem⟩ := Draw.sample_spec hthree g
  have hnodup := Draw.sample_nodup (points.length - 1) 3 g
  generalize (Draw.sample (points.length - 1) 3).run g = picks at hlength hmem hnodup
  obtain ⟨picks, g'⟩ := picks
  obtain ⟨p, q, r, rfl⟩ := List.length_eq_three.1 hlength
  have hget {i : Nat} (hi : i < points.length) :
      points[i]? = some (points.getD i []) ∧ (points.getD i []).length = n := by
    rw [List.getD_eq_getElem _ _ hi]
    exact ⟨List.getElem?_eq_getElem hi, hpoints _ (List.getElem_mem hi)⟩
  have hpick {i : Nat} (hi : i ∈ [p, q, r]) := hget (skip_lt hk (hmem i hi))
  obtain ⟨htarget, ht⟩ := hget hk
  obtain ⟨ha, hal⟩ := hpick (i := p) (by simp)
  obtain ⟨hb, hbl⟩ := hpick (i := q) (by simp)
  obtain ⟨hd, hdl⟩ := hpick (i := r) (by simp)
  exact .intro (nodup_skip k hnodup) htarget ha hb hd (crossover_crossed ht hal hbl hdl g')

omit hpoints hsize hk

variable (c points k) (feasible : Vec α → Bool)

theorem trial_eq_find? (attempts : Nat) (g : γ) :
    ((trial c feasible points k attempts).run g).1 =
      ((Draw.replicate (candidate c points k) attempts).run g).1.find? feasible := by
  induction attempts generalizing g with
  | zero => rfl
  | succ attempts ih =>
    rw [trial, Draw.run_bind, Draw.replicate_succ_run, List.find?_cons]
    cases hf : feasible ((candidate c points k).run g).1 with
    | true => rfl
    | false => exact ih _

theorem trial_examines (attempts : Nat) (g : γ) :
    ∃ i ≤ attempts, (trial c feasible points k attempts).run g =
        (((Draw.replicate (candidate c points k) i).run g).1.find? feasible,
          ((Draw.replicate (candidate c points k) i).run g).2) ∧
      (∀ x ∈ ((Draw.replicate (candidate c points k) i).run g).1.dropLast, feasible x = false) ∧
      (((trial c feasible points k attempts).run g).1 = none → i = attempts) := by
  induction attempts generalizing g with
  | zero => exact ⟨0, Nat.le_refl 0, rfl, fun x hx => absurd hx List.not_mem_nil, fun _ => rfl⟩
  | succ attempts ih =>
    rw [trial, Draw.run_bind]
    cases hf : feasible ((candidate c points k).run g).1 with
    | true =>
      refine ⟨1, Nat.succ_le_succ (Nat.zero_le _), ?_, fun x hx => absurd hx List.not_mem_nil,
        fun h => absurd h (Option.some_ne_none _)⟩
      rw [Draw.replicate_succ_run, List.find?_cons, hf]
      rfl
    | false =>
      obtain ⟨i, hi, hrun, hrejected, hnone⟩ := ih ((candidate c points k).run g).2
      refine ⟨i + 1, Nat.succ_le_succ hi, ?_, ?_, fun h => congrArg Nat.succ (hnone h)⟩
      · rw [Draw.replicate_succ_run, List.find?_cons, hf]
        exact hrun
      · rw [Draw.replicate_succ_run]
        exact forall_mem_dropLast_cons hf hrejected

/-- A trial for a member of a population of five or more, whatever the random words are. All
candidates are made from three other members, different from one another; the trial takes the first
feasible one of the `m + 1` candidates it may look at, it looks at none after that, and it gives up
only when all of them are infeasible. -/
theorem trial_first_feasible {m : Nat} (hm : c.maxResamples = some m)
    (hpoints : ∀ x ∈ points, x.length = n) (hsize : 5 ≤ points.length) (hk : k < points.length)
    (g : γ) :
    let first (i : Nat) := (Draw.replicate (candidate c points k) i).run g
    let found := (trial c feasible points k c.attempts).run g
    (∀ i, ∀ x ∈ (first i).1, Offspring c points k x) ∧
      (∃ i ≤ m + 1, found = ((first i).1.find? feasible, (first i).2) ∧
        (∀ x ∈ (first i).1.dropLast, feasible x = false) ∧ (found.1 = none → i = m + 1)) ∧
      found.1 = (first (m + 1)).1.find? feasible ∧
      (found.1 = none ↔ ∀ x ∈ (first (m + 1)).1, feasible x = false) := by
  have hattempts : c.attempts = m + 1 := by rw [Config.attempts, hm, Option.elim_some]
  intro first found
  have hfound : found.1 = (first (m + 1)).1.find? feasible :=
    hattempts ▸ trial_eq_find? c points k feasible c.attempts g
  refine ⟨?_, hattempts ▸ trial_examines c points k feasible c.attempts g, hfound, ?_⟩
  · intro i x hx
    obtain ⟨g', rfl⟩ := Draw.mem_replicate hx
    exact candidate_offspring hpoints (Nat.le_of_succ_le hsize) hk g'
  · rw [hfound, List.find?_eq_none]
    simp only [Bool.not_eq_true]

def picky : Evolution Float :=
  { brood with
    feasible := fun x => x.getD 0 0 < 3
    config := { brood.config with maxResamples := some 1 } }

theorem picky_candidates : ((Draw.replicate (candidate picky.config picky.population 4) 2).run
    (ChaCha.ofSeed 13)).1 = [[11.4], [-3]] := by
  decide +kernel

theorem picky_trial : picky.config.maxResamples = some 1 ∧
    (∀ x ∈ picky.population, x.length = 1) ∧ 5 ≤ picky.population.length ∧
    4 < picky.population.length ∧
    ((trial picky.config picky.feasible picky.population 4 picky.config.attempts).run
      (ChaCha.ofSeed 13)).1 = some [-3] ∧
    Offspring picky.config picky.population 4 [11.4] ∧
    Offspring picky.config picky.population 4 [-3] := by
  have hpoints : ∀ x ∈ picky.population, x.length = 1 := by decide
  obtain ⟨hmade, -, hfound, -⟩ := trial_first_feasible picky.config picky.population 4
    picky.feasible (m := 1) rfl hpoints (by decide) (by decide) (ChaCha.ofSeed 13)
  have hboth := hmade 2
  rw [picky_candidates] at hfound hboth
  refine ⟨rfl, hpoints, by decide, by decide, ?_, hboth _ (by simp), hboth _ (by simp)⟩
  rw [hfound]
  decide +kernel

end Evolution

end Optima
