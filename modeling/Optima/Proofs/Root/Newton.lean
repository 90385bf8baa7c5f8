import Optima.Proofs.Cap.Curtailed
import Optima.Root.Newton

namespace Optima.Newton

open Scalar (isFinite)

variable {α : Type} [Scalar α] {s : Newton α} {t u : State α}

def error (s : Newton α) (x : α) : α := s.function x - s.config.target

def State.called (s : Newton α) (t : State α) : State α :=
  { t with
    evaluations := t.evaluations + 1
    log := ⟨t.iteration, s.error t.point⟩ :: t.log }

/-- The status of a round that ends before it computes a slope. -/
def early? (s : Newton α) (t : State α) : Option Status :=
  if !isFinite (s.error t.point) then some .diverged
  else if Scalar.abs (s.error t.point) ≤ s.config.tolerance then some .normal
  else if s.config.stopping.capReached t.iteration then some .iterationExceeded
  else none

def descend (s : Newton α) (t : State α) (slope : α × Nat) : State α ⊕ Report α α :=
  let u := { t.called s with evaluations := t.evaluations + 1 + slope.2 }
  if !isFinite slope.1 then .inr (u.finish (s.error t.point) .diverged)
  else if Scalar.abs slope.1 ≤ s.config.slopeTolerance then
    .inr (u.finish (s.error t.point) .badFunction)
  else .inl { u with
    point := t.point - s.error t.point / slope.1
    iteration := t.iteration + 1 }

theorem value_round (s : Newton α) (t : State α) : (s.round t).value =
    (s.early? t).elim (s.descend t (s.slope t.point).value)
      fun status => .inr ((t.called s).finish (s.error t.point) status) := by
  unfold round early? descend State.called error
  rw [Traced.call_bind]
  dsimp only
  split
  · rfl
  split
  · rfl
  split
  · rfl
  rw [Traced.value_bind]
  split
  · rfl
  split
  · rfl
  · rfl

theorem early?_cases {status : Status} (h : s.early? t = some status) :
    isFinite (s.error t.point) = false ∧ status = .diverged ∨
      isFinite (s.error t.point) = true ∧
        (Scalar.abs (s.error t.point) ≤ s.config.tolerance ∧ status = .normal ∨
          s.config.stopping.capReached t.iteration = true ∧ status = .iterationExceeded) := by
  unfold early? at h
  split at h
  · next hf =>
    cases h
    exact .inl ⟨by simpa using hf, rfl⟩
  · next hf =>
    refine .inr ⟨by simpa using hf, ?_⟩
    split at h
    · next hle =>
      cases h
      exact .inl ⟨hle, rfl⟩
    split at h
    · next hcap =>
      cases h
      exact .inr ⟨hcap, rfl⟩
    · cases h

theorem early?_eq_none (h : s.early? t = none) : isFinite (s.error t.point) = true ∧
    ¬ Scalar.abs (s.error t.point) ≤ s.config.tolerance ∧
      ¬ s.config.stopping.capReached t.iteration = true := by
  unfold early? at h
  split at h
  · cases h
  · next hf =>
    split at h
    · cases h
    · next hle =>
      split at h
      · cases h
      · next hcap => exact ⟨by simpa using hf, hle, hcap⟩

theorem descend_cases (s : Newton α) (t : State α) (slope : α × Nat) :
    (∃ status, s.descend t slope = .inr (State.finish
        { t.called s with evaluations := t.evaluations + 1 + slope.2 } (s.error t.point) status) ∧
      (isFinite slope.1 = false ∧ status = .diverged ∨
        Scalar.abs slope.1 ≤ s.config.slopeTolerance ∧ status = .badFunction)) ∨
    isFinite slope.1 = true ∧ ¬ Scalar.abs slope.1 ≤ s.config.slopeTolerance ∧
      s.descend t slope = .inl { t.called s with
        evaluations := t.evaluations + 1 + slope.2
        point := t.point - s.error t.point / slope.1
        iteration := t.iteration + 1 } := by
  unfold descend
  split
  · next hf => exact .inl ⟨_, rfl, .inl ⟨by simpa using hf, rfl⟩⟩
  · next hf =>
    have hf : isFinite slope.1 = true := by simpa using hf
    split
    · next hle => exact .inl ⟨_, rfl, .inr ⟨hle, rfl⟩⟩
    · next hle => exact .inr ⟨hf, hle, rfl⟩

theorem value_round_inl (h : (s.round t).value = .inl u) :
    s.early? t = none ∧ isFinite (s.slope t.point).value.1 = true ∧
      ¬ Scalar.abs (s.slope t.point).value.1 ≤ s.config.slopeTolerance ∧
      u = { t.called s with
        evaluations := t.evaluations + 1 + (s.slope t.point).value.2
        point := t.point - s.error t.point / (s.slope t.point).value.1
        iteration := t.iteration + 1 } := by
  rw [value_round] at h
  cases he : s.early? t with
  | some status =>
    rw [he] at h
    cases h
  | none =>
    rw [he, Option.elim_none] at h
    obtain ⟨status, hd, -⟩ | ⟨hf, hle, hd⟩ := s.descend_cases t (s.slope t.point).value
    · rw [hd] at h
      cases h
    · rw [hd] at h
      cases h
      exact ⟨rfl, hf, hle, rfl⟩

theorem value_round_inr {r : Report α α} (h : (s.round t).value = .inr r) :
    r.result = t.point ∧ r.value = s.error t.point ∧ r.iterations = t.iteration ∧
      r.convergence = (t.called s).log.reverse ∧
      (s.early? t = some r.status ∨ s.early? t = none ∧
        (isFinite (s.slope t.point).value.1 = false ∧ r.status = .diverged ∨
          Scalar.abs (s.slope t.point).value.1 ≤ s.config.slopeTolerance ∧
            r.status = .badFunction)) := by
  rw [value_round] at h
  cases he : s.early? t with
  | some status =>
    rw [he] at h
    cases h
    exact ⟨rfl, rfl, rfl, rfl, .inl rfl⟩
  | none =>
    rw [he, Option.elim_none] at h
    obtain ⟨status, hd, hs⟩ | ⟨-, -, hd⟩ := s.descend_cases t (s.slope t.point).value
    · rw [hd] at h
      cases h
      exact ⟨rfl, rfl, rfl, rfl, .inr ⟨rfl, hs⟩⟩
    · rw [hd] at h
      cases h

/-- What each status that a run can end with says of where it ended. -/
def Ends (s : Newton α) (t : State α) : Status → Prop
  | .normal => isFinite (s.error t.point) = true ∧
      Scalar.abs (s.error t.point) ≤ s.config.tolerance
  | .iterationExceeded => s.config.stopping.capReached t.iteration = true
  | .badFunction => Scalar.abs (s.slope t.point).value.1 ≤ s.config.slopeTolerance
  | .diverged => isFinite (s.error t.point) = false ∨ isFinite (s.slope t.point).value.1 = false
  | .notRun | .stationaryFunction | .gradientConvergence => False

theorem ends_of_round {r : Report α α} (h : (s.round t).value = .inr r) :
    s.Ends t r.status := by
  obtain ⟨-, -, -, -, hearly | ⟨-, ⟨hf, hs⟩ | ⟨hflat, hs⟩⟩⟩ := value_round_inr h
  · obtain ⟨hf, hs⟩ | ⟨hf, ⟨hle, hs⟩ | ⟨hcap, hs⟩⟩ := early?_cases hearly
    · exact hs ▸ .inl hf
    · exact hs ▸ ⟨hf, hle⟩
    · exact hs ▸ hcap
  · exact hs ▸ .inr hf
  · exact hs ▸ hflat

theorem iterate_of_runWithin {n : Nat} {start : α} {r : Report α α}
    (h : (s.runWithin n start).value = .ok r) :
    isFinite start = true ∧ (Traced.iterate s.round n (.initial start)).value = some r := by
  unfold runWithin at h
  cases hstart : isFinite start with
  | false =>
    rw [hstart] at h
    cases h
  | true =>
    rw [hstart] at h
    exact ⟨rfl, Run.ofIteration_ok.1 h⟩

end Optima.Newton
