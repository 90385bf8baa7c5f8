import Optima.Proofs.Rescaling.Evolution
import Optima.Proofs.Rescaling.Swarm
import Optima.Proofs.Scalar.Underflow

/-!
The two searches by a population only compare values: where the values of an objective are replaced
by others in the same order, a run visits the same points and reports the replaced values.
-/

namespace Optima

open Scalar (Extended Lawful isFinite isNaN)

variable {α γ : Type} [Scalar α]

/-- Strictly increasing on some numbers, finite on the finite ones of them; equal numbers, as the
two zeros, stay equal. What is not finite is left as it is. -/
structure AscendingOn (S : α → Prop) (φ : α → α) : Prop where
  finite {a : α} : S a → isFinite a = true → isFinite (φ a) = true
  fixed {a : α} : isFinite a = false → φ a = a
  le {a b : α} : S a → S b → a ≤ b → φ a ≤ φ b
  lt {a b : α} : S a → S b → a < b → φ a < φ b

def Objective.Takes (o : Objective α) (a : α) : Prop := ∃ x, o.value x = a

def Stands (S : α → Prop) (goal : Goal) (φ : α → α) (a a' : α) : Prop :=
  (isFinite a = false ∨ S (goal.orient a)) ∧ a' = goal.orient (φ (goal.orient a))

namespace AscendingOn

variable {S : α → Prop} {φ : α → α} (h : AscendingOn S φ) {a b : α}

include h

theorem isFinite_eq (ha : S a) : isFinite (φ a) = isFinite a := by
  cases hf : isFinite a with
  | false => rwa [h.fixed hf]
  | true => exact h.finite ha hf

variable [Extended α]

theorem extend : AscendingOn (fun a => isFinite a = false ∨ S a) φ := by
  have hin {a : α} (ha : isFinite a = false ∨ S a) (hf : isFinite a = true) : S a :=
    ha.resolve_left (by rw [hf]; exact Bool.noConfusion)
  have hfinite {a : α} (ha : isFinite a = false ∨ S a) (hf : isFinite a = true) :
      isFinite (φ a) = true := h.finite (hin ha hf) hf
  refine ⟨hfinite, h.fixed, ?_, ?_⟩
  · intro a b ha hb hab
    cases hfa : isFinite a with
    | false =>
      rw [h.fixed hfa]
      cases hfb : isFinite b with
      | false => rwa [h.fixed hfb]
      | true => exact Lawful.le_of_lt (Extended.lt_of_not_finite hfb (hfinite hb hfb) hfa hab)
    | true =>
      cases hfb : isFinite b with
      | false =>
        rw [h.fixed hfb]
        exact Lawful.le_of_lt (Scalar.gt_of_not_finite hfa (hfinite ha hfa) hfb hab)
      | true => exact h.le (hin ha hfa) (hin hb hfb) hab
  · intro a b ha hb hab
    have hle := Lawful.le_of_lt hab
    cases hfa : isFinite a with
    | false =>
      rw [h.fixed hfa]
      cases hfb : isFinite b with
      | false => rwa [h.fixed hfb]
      | true => exact Extended.lt_of_not_finite hfb (hfinite hb hfb) hfa hle
    | true =>
      cases hfb : isFinite b with
      | false =>
        rw [h.fixed hfb]
        exact Scalar.gt_of_not_finite hfa (hfinite ha hfa) hfb hle
      | true => exact h.lt (hin ha hfa) (hin hb hfb) hab

theorem isNaN_eq (ha : S a) : isNaN (φ a) = isNaN a := by
  cases hf : isFinite a with
  | false => rw [h.fixed hf]
  | true => rw [Lawful.isNaN_of_isFinite hf, Lawful.isNaN_of_isFinite (h.finite ha hf)]

theorem le_iff (ha : S a) (hb : S b) : φ a ≤ φ b ↔ a ≤ b := by
  refine ⟨?_, h.le ha hb⟩
  intro hle
  obtain ⟨hna, hnb⟩ := Lawful.isNaN_of_le hle
  rw [h.isNaN_eq ha] at hna
  rw [h.isNaN_eq hb] at hnb
  refine Lawful.le_of_not_lt hna hnb fun hlt => ?_
  exact (Lawful.lt_iff.1 (h.lt hb ha hlt)).2 hle

theorem rescales (goal : Goal) : Rescales (Stands S goal φ) goal φ := by
  have hall := h.extend
  have hin {a a' : α} (ha : Stands S goal φ a a') :
      isFinite (goal.orient a) = false ∨ S (goal.orient a) := by
    refine ha.1.imp_left ?_
    cases goal with
    | minimize => exact id
    | maximize => exact (Extended.isFinite_neg a).trans
  refine ⟨⟨?_, ?_, ?_⟩, ?_⟩
  · intro a b a' b' ha hb
    have hia := hin ha
    have hib := hin hb
    rw [ha.2, hb.2]
    cases goal with
    | minimize => exact hall.le_iff hia hib
    | maximize =>
      change -φ (-a) ≤ -φ (-b) ↔ a ≤ b
      rw [Scalar.neg_le_neg_iff]
      exact (hall.le_iff hib hia).trans Scalar.neg_le_neg_iff
  · intro a a' ha
    have hia := hall.isFinite_eq (hin ha)
    rw [ha.2]
    cases goal with
    | minimize => exact hia
    | maximize => exact (Extended.isFinite_neg _).trans (hia.trans (Extended.isFinite_neg a))
  · intro a ha
    refine ⟨.inl ha, ?_⟩
    have hf : isFinite (goal.orient a) = false := by
      cases goal with
      | minimize => exact ha
      | maximize => exact (Extended.isFinite_neg a).trans ha
    rw [h.fixed hf, Goal.orient_orient]
  · intro a a' ha
    rw [ha.2, Goal.orient_orient]

omit h in
theorem stands_value (o : Objective α) (goal : Goal) (φ : α → α) (x : Vec α) :
    Stands o.Takes goal φ (goal.orient (o.value x)) (goal.orient (φ (o.value x))) := by
  rw [Stands, Goal.orient_orient]
  exact ⟨.inr ⟨x, rfl⟩, rfl⟩

end AscendingOn

/-- Under a transformation that increases strictly on the values of the objective, a run of
differential evolution, and a run of a particle swarm that has no tolerance for a change of the
value, calls the objective at the same points and reports the same with the transformed values,
also when it is refused or does not finish. -/
theorem runs_rescaled [Extended α] [WordSource γ] {φ : α → α} :
    (∀ s : Evolution α, AscendingOn s.objective.Takes φ →
      (s.rescaled φ).run = s.run.image φ ∧
        ∀ g : γ, (s.rescaled φ).runFrom g = (s.runFrom g).image φ) ∧
    ∀ s : Swarm α, AscendingOn s.objective.Takes φ → s.config.stopping.valueTolerance = none →
      (s.rescaled φ).run = s.run.image φ ∧
        ∀ g : γ, (s.rescaled φ).runFrom g = (s.runFrom g).image φ := by
  refine ⟨?_, ?_⟩
  · intro s h
    have hr := h.rescales s.config.goal
    have hv := AscendingOn.stands_value s.objective s.config.goal φ
    exact ⟨Evolution.runWithin_rescaled hr hv _ _, fun g => Evolution.runWithin_rescaled hr hv _ g⟩
  · intro s h hc
    have hr := h.rescales s.config.goal
    have hv := AscendingOn.stands_value s.objective s.config.goal φ
    exact ⟨Swarm.runWithin_rescaled hr hv hc _ _, fun g => Swarm.runWithin_rescaled hr hv hc _ g⟩

def stair : Objective Float := .ofValue fun x => if x.headD 0 ≤ 0.5 then 1 else 2

def steepen (a : Float) : Float := if a = 1 then 10 else if a = 2 then 20 else a

theorem steepen_ascending : AscendingOn stair.Takes steepen := by
  have hcases {a : Float} (ha : stair.Takes a) : a = 1 ∨ a = 2 := by
    obtain ⟨x, rfl⟩ := ha
    change (if x.headD 0 ≤ 0.5 then (1 : Float) else 2) = 1 ∨ (if x.headD 0 ≤ 0.5 then _ else _) = _
    split
    · exact .inl rfl
    · exact .inr rfl
  constructor
  · intro a ha _
    obtain rfl | rfl := hcases ha <;> decide
  · intro a ha
    unfold steepen
    split
    · next h =>
      subst h
      exact absurd ha (by decide)
    · split
      · next h =>
        subst h
        exact absurd ha (by decide)
      · rfl
  · intro a b ha hb hab
    obtain rfl | rfl := hcases ha <;> obtain rfl | rfl := hcases hb <;> revert hab <;> decide
  · intro a b ha hb hab
    obtain rfl | rfl := hcases ha <;> obtain rfl | rfl := hcases hb <;> revert hab <;> decide

def climbers : Swarm Float where
  objective := stair
  box := [⟨-1, 1⟩]
  config := { Swarm.Config.standard with goal := .maximize, size := 3, update := .batched }

def steps : Evolution Float where
  objective := stair
  population := [[0], [0.25], [0.5], [0.75], [1]]
  feasible _ := true
  config := .standard

theorem stair_rescaled : (steps.rescaled steepen).run = steps.run.image steepen ∧
    (climbers.rescaled steepen).run = climbers.run.image steepen := by
  obtain ⟨hevolution, hswarm⟩ := runs_rescaled (γ := ChaCha) (φ := steepen)
  exact ⟨(hevolution steps steepen_ascending).1, (hswarm climbers steepen_ascending rfl).1⟩

end Optima
