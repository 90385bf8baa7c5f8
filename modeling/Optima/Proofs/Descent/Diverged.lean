import Optima.Proofs.Descent.Route
import Optima.Proofs.Scalar.Norm
import Optima.Proofs.Scalar.Underflow

/-!
When descent whose steps line searches choose reports that it diverged: where the value or a
component of the gradient is not finite, but also where the components are finite and the sum of
their squares is not.
-/

namespace Optima.Descent

open Binary64 (Overflows toRat)

variable {α : Type} [Scalar α]

/-- The gradient that a run computes at a point, the objective's own or finite differences. -/
def gradientAt (s : Descent α) (x : Vec α) : Vec α :=
  (s.function.gradient x (s.function.value x)).value

theorem verdictAt_of_not_finite {s : Descent α} {u : State α}
    (h : Scalar.isFinite u.iterate.value = false) (us : List (State α)) :
    s.verdictAt us u = some .diverged := by
  simp [verdictAt, Stopping.classify, Stopping.verdict, Stopping.diverged, h]

theorem isFinite_of_verdictAt {s : Descent α} {us : List (State α)} {u : State α}
    (h : s.verdictAt us u = none) : Scalar.isFinite u.iterate.value = true := by
  refine eq_true_of_ne_false fun hf => ?_
  rw [verdictAt_of_not_finite hf] at h
  cases h

theorem Stops.eq_diverged_iff {s : Descent α} {us : List (State α)} {u : State α} {status : Status}
    (h : s.Stops us u status) :
    status = .diverged ↔ Scalar.isFinite u.iterate.value = false ∨
      Scalar.isFinite (Vec.norm u.iterate.gradient) = false := by
  cases h with
  | unbounded hf => exact iff_of_true rfl (.inr hf)
  | @verdict status hf hv =>
    rw [hf]
    constructor
    · rintro rfl
      obtain ⟨h, -⟩ | ⟨-, h⟩ | ⟨-, h⟩ | ⟨-, h⟩ | ⟨-, h⟩ := Stopping.verdict_cases hv
      case inl => simpa [Stopping.diverged] using h
      all_goals cases h
    · rintro (h | h)
      · rw [verdictAt_of_not_finite h] at hv
        cases hv
        rfl
      · cases h
  | stalled hf hv => simp [isFinite_of_verdictAt hv, hf]
  | failed hf hv => simp [isFinite_of_verdictAt hv, hf]

theorem diverged_at_start {s : Descent α} {n : Nat} {x : Vec α} {r : Report α (Vec α)}
    (hb : s.config.box = none) (hx : Scalar.isFinite (s.function.value x) = false)
    (hr : (s.runWithin n x).value = .ok r) : r.status = .diverged ∧ r.result = x := by
  obtain ⟨htrace, -, -⟩ := ends_of_runWithin hr
  have hpoint : (s.origin x).point = x := by
    rw [origin, hb]
    rfl
  have hvalue : (s.origin x).value = s.function.value x := by
    rw [origin, hb]
    rfl
  have hv : (s.initial x).value.verdict s.config = some .diverged := by
    rw [initial_value, Trail.verdict]
    split
    · simp [Stopping.verdict, Stopping.diverged, hvalue, hx]
    · rfl
  rw [trace_value, hv] at htrace
  cases htrace
  refine ⟨rfl, ?_⟩
  rw [initial_value]
  exact hpoint

theorem isFinite_function (s : Descent Float) (x : Vec Float) :
    Scalar.isFinite (s.function.value x) = (s.objective.value x).isFinite := by
  change Scalar.isFinite (s.config.goal.orient (s.objective.value x)) = _
  cases s.config.goal with
  | minimize => rfl
  | maximize => exact Scalar.Extended.isFinite_neg _

theorem status_eq_diverged_iff {s : Descent Float}
    (hm : s.config.method = .momentum ∨ s.config.method = .bfgs) {n : Nat} {x : Vec Float}
    {r : Report Float (Vec Float)} (hr : (s.runWithin n x).value = .ok r) :
    r.status = .diverged ↔ (s.objective.value r.result).isFinite = false ∨
      (∃ a ∈ s.gradientAt r.result, a.isFinite = false) ∨ Overflows (s.gradientAt r.result) := by
  cases hx : Scalar.isFinite (s.function.value x) with
  | false =>
    obtain ⟨hs, hresult⟩ := diverged_at_start (Config.box_eq_none hm) hx hr
    rw [isFinite_function] at hx
    rw [hresult]
    exact iff_of_true hs (.inl hx)
  | true =>
    obtain ⟨us, u, -, hfresh, hstops, hresult, -⟩ := stops_of_runWithin hm hx hr
    have hu := hfresh u (List.mem_append_right us List.mem_cons_self)
    have hv : u.iterate.value = s.function.value r.result := hresult ▸ hu.value
    have hg : u.iterate.gradient = s.gradientAt r.result := by
      rw [hu.gradient, gradientAt, hresult, ← hresult, ← hv]
    rw [hstops.eq_diverged_iff, hv, hg, isFinite_function, ← Binary64.isFinite_norm_eq_false_iff]
    rfl

/-- A run ends as diverged just where the objective's value is not finite, where a component of the
gradient is not finite, and where the squares of finite components overflow. They do not if the
components are up to `2 ^ 485`. -/
theorem diverged_iff {s : Descent Float}
    (hm : s.config.method = .momentum ∨ s.config.method = .bfgs) {n : Nat} {x : Vec Float}
    {r : Report Float (Vec Float)} (hr : (s.runWithin n x).value = .ok r) :
    (r.status = .diverged ↔
      (s.objective.value r.result).isFinite = false ∨
        (∃ a ∈ s.gradientAt r.result, a.isFinite = false) ∨ Overflows (s.gradientAt r.result)) ∧
    ((s.gradientAt r.result).length < 2 ^ 53 →
      (∀ a ∈ s.gradientAt r.result, |toRat a| ≤ 2 ^ 485) →
        (r.status = .diverged ↔ (s.objective.value r.result).isFinite = false ∨
          ∃ a ∈ s.gradientAt r.result, a.isFinite = false)) := by
  have hiff := status_eq_diverged_iff hm hr
  refine ⟨hiff, fun hl hle => ?_⟩
  rw [hiff]
  refine or_congr_right (or_iff_left_of_imp ?_)
  rintro ⟨hfinite, hover⟩
  rw [Binary64.isFinite_dot_of_le hl fun a ha => ⟨hfinite a ha, hle a ha⟩] at hover
  cases hover

def slope (a : Float) : Descent Float where
  objective := .withGradient (fun x => a * x.getD 0 0) (fun x => x.map fun _ => a)
  config := { Config.standard with stopping := Stopping.standard.withMaxIterations 0 }

theorem slope_run : ((slope 1e200).run [0]).value = .ok ⟨[0], 0, .diverged, 0, 1, []⟩ := by
  decide +kernel

theorem slope_gradient :
    ∀ a ∈ (slope 1e200).gradientAt [0], a.isFinite = true := by
  decide +kernel

theorem slope_diverged : Overflows ((slope 1e200).gradientAt [0]) ∧
    ¬ ∃ a ∈ (slope 1).gradientAt [0], a.isFinite = false := by
  constructor
  · obtain h | ⟨a, ha, h⟩ | h := (diverged_iff (.inl rfl) slope_run).1.1 rfl
    · exact absurd h (by decide +kernel)
    · rw [slope_gradient a ha] at h
      cases h
    · exact h
  · have hrun : ((slope 1).run [0]).value = .ok ⟨[0], 0, .iterationExceeded, 0, 1, []⟩ := by
      decide +kernel
    have hle : ∀ a ∈ (slope 1).gradientAt [0], |toRat a| ≤ 2 ^ 485 := by
      have hone : |toRat 1| ≤ 2 ^ 485 := by
        rw [Binary64.toRat_one, abs_one]
        exact one_le_pow₀ one_le_two
      exact List.forall_mem_singleton.2 hone
    intro h
    have hd := ((diverged_iff (.inl rfl) hrun).2 (by decide +kernel) hle).2 (.inr h)
    cases hd

theorem diverged_falsely :
    ¬ ∀ (s : Descent Float) (x : Vec Float) (r : Report Float (Vec Float)),
      s.config.method = .momentum → s.check = .ok () → (s.run x).value = .ok r →
      r.status = .diverged → (s.objective.value r.result).isFinite = false ∨
        ∃ a ∈ s.gradientAt r.result, a.isFinite = false := by
  intro h
  obtain h | ⟨a, ha, h⟩ := h (slope 1e200) [0] _ rfl (by decide +kernel) slope_run rfl
  · exact absurd h (by decide +kernel)
  · rw [slope_gradient a ha] at h
    cases h

end Optima.Descent
