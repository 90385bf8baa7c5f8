import Optima.Descent.Config
import Optima.Evolution.Config
import Optima.Proofs.Scalar.Binary64
import Optima.Root.Config
import Optima.Simplex.Config
import Optima.Swarm.Config

namespace Optima

open Scalar (Lawful)

theorem isFinite_of_unit {x : Float} (hzero : 0 ≤ x) (hone : x ≤ 1) : x.isFinite = true :=
  Binary64.isFinite_of_between hzero hone (by decide) (by decide)

theorem Requirement.isFinite {r : Requirement} (hr : r ∉ [.positive, .nonNegative]) {x : Float}
    (h : r.holds x = true) : x.isFinite = true := by
  cases r with
  | finite => exact h
  | positive => exact absurd (by decide) hr
  | nonNegative => exact absurd (by decide) hr
  | positiveFinite => exact (Bool.and_eq_true _ _ ▸ h).2
  | usableStep => exact (Bool.and_eq_true _ _ ▸ h).2
  | finiteNonNegative => exact (Bool.and_eq_true _ _ ▸ h).1
  | fromZeroBelowOne =>
    obtain ⟨hlow, hhigh⟩ : 0 ≤ x ∧ x < 1 := by simpa [holds] using h
    exact isFinite_of_unit hlow (Lawful.le_of_lt hhigh)
  | insideUnit =>
    obtain ⟨hlow, hhigh⟩ : 0 < x ∧ x < 1 := by simpa [holds] using h
    exact isFinite_of_unit (Lawful.le_of_lt hlow) (Lawful.le_of_lt hhigh)
  | aboveZeroToOne =>
    obtain ⟨hlow, hhigh⟩ : 0 < x ∧ x ≤ 1 := by simpa [holds] using h
    exact isFinite_of_unit (Lawful.le_of_lt hlow) hhigh
  | fromZeroToOne =>
    obtain ⟨hlow, hhigh⟩ : 0 ≤ x ∧ x ≤ 1 := by simpa [holds] using h
    exact isFinite_of_unit hlow hhigh
  | aboveZeroToTwo =>
    obtain ⟨hlow, hhigh⟩ : 0 < x ∧ x ≤ 2 := by simpa [holds] using h
    exact Binary64.isFinite_of_between (Lawful.le_of_lt hlow) hhigh (by decide) (by decide)

theorem Stopping.isFinite_of_check {c : Stopping Float} (h : c.check = .ok ()) :
    (∀ x ∈ c.valueTolerance, x.isFinite = true) ∧ ∀ x ∈ c.gradientTolerance, x.isFinite = true := by
  have htolerance {name : String} {o : Option Float} (h : checkTolerance name o = .ok ()) :
      ∀ x ∈ o, x.isFinite = true := by
    rintro x rfl
    exact Requirement.isFinite (by decide) ((Requirement.check_eq_ok _ _ _).1 h)
  simp only [check, bind_eq_ok] at h
  obtain ⟨_, hvalue, _, hgradient, -⟩ := h
  exact ⟨htolerance hvalue, htolerance hgradient⟩

theorem LineSearch.isFinite_of_check {c : LineSearch Float} (h : c.check = .ok ()) :
    c.initialStep.isFinite = true ∧ c.c1.isFinite = true ∧ c.c2.isFinite = true := by
  have hparts : 0 < c.initialStep ∧ c.initialStep.isFinite = true ∧
      0 < c.c1 ∧ c.c1 < c.c2 ∧ c.c2 < 1 := by
    cases hm : c.maxStep with
    | none =>
      simp only [check, hm, Requirement.check_bind_eq_ok, demand_bind_eq_ok, demand_eq_ok,
        Requirement.holds, Bool.and_eq_true, decide_eq_true_eq] at h
      obtain ⟨⟨hstep, hfinite⟩, -, ⟨hone, hlt⟩, htwo⟩ := h
      exact ⟨hstep, hfinite, hone, hlt, htwo⟩
    | some m =>
      simp only [check, hm, Requirement.check_bind_eq_ok, demand_bind_eq_ok, demand_eq_ok,
        Requirement.holds, Bool.and_eq_true, decide_eq_true_eq] at h
      obtain ⟨⟨hstep, hfinite⟩, -, -, ⟨hone, hlt⟩, htwo⟩ := h
      exact ⟨hstep, hfinite, hone, hlt, htwo⟩
  obtain ⟨-, hfinite, hone, hlt, htwo⟩ := hparts
  have hone := Lawful.le_of_lt hone
  have hlt := Lawful.le_of_lt hlt
  have htwo := Lawful.le_of_lt htwo
  exact ⟨hfinite, isFinite_of_unit hone (Lawful.le_trans hlt htwo),
    isFinite_of_unit (Lawful.le_trans hone hlt) htwo⟩

theorem Descent.Config.isFinite_of_check {c : Config Float} (h : c.check = .ok ()) :
    c.momentum.isFinite = true ∧ (∀ x ∈ c.differenceStep, x.isFinite = true) ∧
      ∀ box ∈ c.bounds, ∀ i ∈ box, i.lower.isFinite = true ∧ i.upper.isFinite = true := by
  have hbox (hb : c.checkBounds = .ok ()) :
      ∀ box ∈ c.bounds, ∀ i ∈ box, i.lower.isFinite = true ∧ i.upper.isFinite = true := by
    intro box hbox i hi
    have hcheck : box.check = .ok () := by
      rw [checkBounds, Option.mem_def.1 hbox] at hb
      cases hm : c.method <;> rw [hm] at hb <;> exact hb
    obtain ⟨hlower, hupper, -⟩ := ((Box.check_eq_ok box).1 hcheck).2 i hi
    exact ⟨hlower, hupper⟩
  cases hs : c.differenceStep with
  | none =>
    simp only [check, hs, bind_eq_ok] at h
    obtain ⟨_, hmomentum, _, -, _, -, hb⟩ := h
    exact ⟨Requirement.isFinite (by decide) ((Requirement.check_eq_ok _ _ _).1 hmomentum),
      fun x hx => absurd hx (Option.not_mem_none x), hbox hb⟩
  | some step =>
    simp only [check, hs, bind_eq_ok] at h
    obtain ⟨_, hmomentum, _, hstep, _, -, _, -, hb⟩ := h
    refine ⟨Requirement.isFinite (by decide) ((Requirement.check_eq_ok _ _ _).1 hmomentum),
      ?_, hbox hb⟩
    intro x hx
    cases hx
    exact Requirement.isFinite (by decide) ((Requirement.check_eq_ok _ _ _).1 hstep)

theorem Simplex.Config.isFinite_of_check {c : Config Float} (h : c.check = .ok ()) :
    (c.expansion.isFinite = true → c.reflection.isFinite = true) ∧
      c.contraction.isFinite = true ∧ c.shrink.isFinite = true ∧
      c.initialStep.isFinite = true ∧ c.stopping.check = .ok () := by
  simp only [check, Requirement.check_bind_eq_ok, demand_bind_eq_ok] at h
  obtain ⟨-, hreflection, hexpansion, hcontraction, hshrink, hstep, hstopping⟩ := h
  obtain ⟨hone, hle⟩ : 1 < c.expansion ∧ ¬ c.expansion ≤ c.reflection := by simpa using hexpansion
  have hzero : 0 < c.reflection := by simpa [Requirement.holds] using hreflection
  refine ⟨fun h => ?_, Requirement.isFinite (by decide) hcontraction,
    Requirement.isFinite (by decide) hshrink,
    Requirement.isFinite (by decide) hstep, hstopping⟩
  have hbelow : c.reflection ≤ c.expansion :=
    (Lawful.le_total (Lawful.isNaN_of_le (Lawful.le_of_lt hzero)).2
      (Lawful.isNaN_of_le (Lawful.le_of_lt hone)).2).resolve_right hle
  exact Binary64.isFinite_of_between (Lawful.le_of_lt hzero) hbelow (by decide) h

theorem Swarm.Config.isFinite_of_check {c : Config Float} (h : c.check = .ok ()) :
    c.inertia.isFinite = true ∧ c.cognitive.isFinite = true ∧ c.social.isFinite = true ∧
      c.velocityScale.isFinite = true ∧ c.stopping.check = .ok () := by
  simp only [check, Requirement.check_bind_eq_ok, demand_bind_eq_ok] at h
  obtain ⟨-, hinertia, hcognitive, hsocial, hscale, hstopping⟩ := h
  exact ⟨Requirement.isFinite (by decide) hinertia,
    Requirement.isFinite (by decide) hcognitive,
    Requirement.isFinite (by decide) hsocial,
    Requirement.isFinite (by decide) hscale, hstopping⟩

theorem Evolution.Config.isFinite_of_check {c : Config Float} (h : c.check = .ok ()) :
    c.weight.isFinite = true ∧ c.crossover.isFinite = true ∧ c.stopping.check = .ok () := by
  simp only [check, Requirement.check_bind_eq_ok] at h
  obtain ⟨hweight, hcrossover, hstopping⟩ := h
  exact ⟨Requirement.isFinite (by decide) hweight,
    Requirement.isFinite (by decide) hcrossover, hstopping⟩

theorem Newton.Config.isFinite_of_check {c : Config Float} (h : c.check = .ok ()) :
    c.target.isFinite = true ∧ (∀ x ∈ c.derivativeStep, x.isFinite = true) ∧
      c.stopping.check = .ok () := by
  cases hs : c.derivativeStep with
  | none =>
    simp only [check, hs, Requirement.check_bind_eq_ok] at h
    obtain ⟨htarget, -, -, hstopping⟩ := h
    exact ⟨htarget, fun x hx => absurd hx (Option.not_mem_none x), hstopping⟩
  | some step =>
    simp only [check, hs, Requirement.check_bind_eq_ok] at h
    obtain ⟨htarget, -, -, hstep, hstopping⟩ := h
    refine ⟨htarget, ?_, hstopping⟩
    intro x hx
    cases hx
    exact Requirement.isFinite (by decide) hstep

theorem Bracketing.Config.isFinite_of_check {c : Config Float} (h : c.check = .ok ()) :
    c.target.isFinite = true ∧ c.stopping.check = .ok () := by
  simp only [check, Requirement.check_bind_eq_ok] at h
  obtain ⟨htarget, -, hstopping⟩ := h
  exact ⟨htarget, hstopping⟩

end Optima
