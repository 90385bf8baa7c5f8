import Optima.Proofs.Scalar.Ordered
import Optima.Proofs.Stopping.Priority

namespace Optima.Stopping

open Scalar (Lawful Ordered)

variable {α : Type} [Scalar α]

/-- The cap of `c'` is no greater and its tolerances are no less, where one that is not set counts
as below all others; the plateau window is the same, or set only in `c'`. -/
structure Tightened (c c' : Stopping α) : Prop where
  cap : ∀ n ∈ c.maxIterations, ∃ n' ∈ c'.maxIterations, n' ≤ n
  plateau : c.plateau = none ∨ c'.plateau = c.plateau
  valueTolerance : ∀ eps ∈ c.valueTolerance, ∃ eps' ∈ c'.valueTolerance, eps ≤ eps'
  gradientTolerance : ∀ eps ∈ c.gradientTolerance, ∃ eps' ∈ c'.gradientTolerance, eps ≤ eps'

theorem isSome_verdict_iff (c : Stopping α) (i : Nat) (recent : List α) (norm : Option α) :
    (c.verdict i recent norm).isSome = true ↔ ∃ s ∈ order, c.asks i recent norm s = true := by
  rw [verdict_eq_find?, List.find?_isSome]

variable [Ordered α]

theorem nonneg_of_check {c : Stopping α} (h : c.check = .ok ()) :
    ∀ eps ∈ c.valueTolerance, 0 ≤ eps := by
  intro eps heps
  simp only [check, bind_eq_ok] at h
  obtain ⟨_, hvalue, -⟩ := h
  rw [Option.mem_def.1 heps] at hvalue
  have hholds : Requirement.finiteNonNegative.holds eps = true :=
    (Requirement.check_eq_ok _ _ _).1 hvalue
  obtain ⟨hfinite, hlt⟩ : Scalar.isFinite eps = true ∧ ¬ eps < 0 := by
    simpa [Requirement.holds] using hholds
  have hzero : Scalar.isNaN (0 : α) = false := (Lawful.isNaN_of_le Ordered.zero_le_half).1
  exact Lawful.le_of_not_lt hzero (Lawful.isNaN_of_isFinite hfinite) hlt

namespace Tightened

variable {c c' : Stopping α} (h : c.Tightened c')

include h

theorem getD_le (hc : c'.check = .ok ()) :
    c.valueTolerance.getD 0 ≤ c'.valueTolerance.getD 0 := by
  cases hv : c.valueTolerance with
  | none =>
    cases hv' : c'.valueTolerance with
    | none => exact Lawful.le_refl (Lawful.isNaN_of_le Ordered.zero_le_half).1
    | some eps' => exact nonneg_of_check hc eps' hv'
  | some eps =>
    obtain ⟨eps', heps', hle⟩ := h.valueTolerance eps hv
    rw [Option.mem_def.1 heps']
    exact hle

theorem gradientSmall {norm : Option α} (hg : c.gradientSmall norm = true) :
    c'.gradientSmall norm = true := by
  cases norm with
  | none => cases hg
  | some norm =>
    simp only [Stopping.gradientSmall, Option.any_eq_true, decide_eq_true_eq] at hg ⊢
    obtain ⟨eps, heps, hlt⟩ := hg
    obtain ⟨eps', heps', hle⟩ := h.gradientTolerance eps heps
    exact ⟨eps', heps', Lawful.lt_of_lt_of_le hlt hle⟩

theorem valueSettled {recent : List α} (hv : c.valueSettled recent = true) :
    c'.valueSettled recent = true := by
  rcases recent with _ | ⟨b, _ | ⟨a, past⟩⟩
  · cases hv
  · cases hv
  · simp only [Stopping.valueSettled, Option.any_eq_true, decide_eq_true_eq] at hv ⊢
    obtain ⟨eps, heps, hlt⟩ := hv
    obtain ⟨eps', heps', hle⟩ := h.valueTolerance eps heps
    exact ⟨eps', heps', Lawful.lt_of_lt_of_le hlt hle⟩

theorem onPlateau (hc : c'.check = .ok ()) {recent : List α} (hp : c.onPlateau recent = true) :
    c'.onPlateau recent = true := by
  obtain hnone | hsame := h.plateau
  · simp [Stopping.onPlateau, hnone] at hp
  · simp only [Stopping.onPlateau, hsame, Option.any_eq_true] at hp ⊢
    obtain ⟨window, hwindow, hp⟩ := hp
    refine ⟨window, hwindow, ?_⟩
    cases hdrop : recent.drop window with
    | nil =>
      rw [hdrop] at hp
      cases hp
    | cons start past =>
      rw [hdrop] at hp
      exact decide_eq_true (Lawful.le_trans (of_decide_eq_true hp) (h.getD_le hc))

omit [Ordered α] in
theorem capReached {t t' : Nat} (ht : t ≤ t') (hcap : c.capReached t = true) :
    c'.capReached t' = true := by
  rw [capReached_iff] at hcap ⊢
  obtain ⟨n, hn, hle⟩ := hcap
  obtain ⟨n', hn', hle'⟩ := h.cap n hn
  exact ⟨n', hn', by omega⟩

theorem asks (hc : c'.check = .ok ()) {t t' : Nat} (ht : t ≤ t') {recent : List α} {norm : Option α}
    {status : Status} (ha : c.asks t recent norm status = true) :
    c'.asks t' recent norm status = true := by
  cases status with
  | diverged => exact ha
  | gradientConvergence => exact h.gradientSmall ha
  | normal => exact h.valueSettled ha
  | stationaryFunction => exact h.onPlateau hc ha
  | iterationExceeded => exact h.capReached ht ha
  | notRun => cases ha
  | badFunction => cases ha

end Tightened

/-- Stricter criteria stop wherever the others do, also later on with the same history. -/
theorem tightened_stops {c c' : Stopping α} (h : c.Tightened c') (hc : c'.check = .ok ())
    {t t' : Nat} (ht : t ≤ t') {history : List α} {norm : Option α}
    (hs : (c.classify t history norm).isSome = true) :
    (c'.classify t' history norm).isSome = true := by
  unfold classify at hs ⊢
  rw [isSome_verdict_iff] at hs ⊢
  obtain ⟨s, hmem, ha⟩ := hs
  exact ⟨s, hmem, h.asks hc ht ha⟩

def patient : Stopping Float := ⟨some 20, some 2, none, none⟩

def strict : Stopping Float := ⟨some 10, some 2, some 0.1, some 1e-8⟩

theorem patient_tightened : patient.Tightened strict where
  cap := by simp [patient, strict]
  plateau := .inr rfl
  valueTolerance := by simp [patient]
  gradientTolerance := by simp [patient]

theorem strict_stops : patient.Tightened strict ∧ strict.check = .ok () ∧
    (patient.classify 2 [3, 4, 3] none).isSome = true ∧
    (strict.classify 5 [3, 4, 3] none).isSome = true := by
  have hcheck : strict.check = .ok () := by decide +kernel
  have hs : (patient.classify 2 [3, 4, 3] none).isSome = true := by decide +kernel
  exact ⟨patient_tightened, hcheck, hs,
    tightened_stops patient_tightened hcheck (by decide) hs⟩

end Optima.Stopping
