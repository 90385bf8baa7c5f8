import Optima.Proofs.Duality.Negated
import Optima.Proofs.Frame

namespace Optima.Descent

variable {α : Type} [Scalar α]

def Trail.negated (t : Trail α) : Trail α := { t with log := t.log.map Entry.negated }

def uphill (s : Descent α) : Descent α :=
  { s with config := { s.config with goal := .maximize } }

def downhill (s : Descent α) : Descent α :=
  ⟨s.objective.neg, { s.config with goal := .minimize }⟩

theorem Trail.report_negated (s : Descent α) (t : Trail α) (status : Status) :
    Trail.report s.uphill.config t.negated status =
      (Trail.report s.downhill.config t status).negated := by
  simp [report, negated, Report.negated, uphill, downhill]

theorem oriented_uphill (s : Descent α) :
    s.uphill.objective.oriented s.uphill.config.goal =
      s.downhill.objective.oriented s.downhill.config.goal :=
  Objective.oriented_maximize s.objective

theorem round_negated (s : Descent α) (o : Objective α) (t : Trail α) :
    round s.uphill.config o t.negated =
      Sum.map Trail.negated (Prod.map Trail.negated id) <$> round s.downhill.config o t := by
  have hc : s.uphill.config = { s.downhill.config with goal := .maximize } := rfl
  simp only [round, hc, step_frame, map_bind]
  congr 1
  funext r
  obtain ⟨⟨progress, u⟩, evaluations⟩ := r
  cases progress with
  | stalled => rfl
  | failed status => rfl
  | moved =>
    have hv : Trail.verdict s.uphill.config
        (Trail.extend s.uphill.config { t.negated with evaluations } u) =
        Trail.verdict s.downhill.config
          (Trail.extend s.downhill.config { t with evaluations } u) := rfl
    rw [← hc]
    simp only [hv]
    cases Trail.verdict s.downhill.config
      (Trail.extend s.downhill.config { t with evaluations } u) <;> rfl

theorem initial_negated (s : Descent α) (x : Vec α) :
    s.uphill.initial x = Trail.negated <$> s.downhill.initial x := by
  have hb : s.uphill.config.box = s.downhill.config.box := rfl
  simp only [initial, oriented_uphill, hb, map_bind]
  congr 1
  funext value
  split
  · simp only [map_bind]
    rfl
  · rfl

theorem trace_negated (s : Descent α) (n : Nat) (x : Vec α) :
    s.uphill.trace n x = Option.map Report.negated <$> s.downhill.trace n x := by
  simp only [trace, initial_negated, oriented_uphill, bind_map_left, map_bind]
  congr 1
  funext t
  have ht : t.negated.state = t.state := rfl
  have hv : t.negated.verdict s.uphill.config = t.verdict s.downhill.config := rfl
  simp only [ht, hv, Trail.report_negated]
  split
  · cases t.verdict s.downhill.config with
    | some status => rfl
    | none =>
      simp only [Traced.iterate_map (s.round_negated _), bind_map_left, map_bind]
      congr 1
      funext r
      cases r with
      | none => rfl
      | some r => exact congrArg (fun r => pure (some r)) (Trail.report_negated s r.1 r.2)
  · rfl

theorem runWithin_negated (s : Descent α) (n : Nat) (x : Vec α) :
    s.uphill.runWithin n x = (s.downhill.runWithin n x).negated := by
  simp only [runWithin, trace_negated, Run.ofIteration_negated,
    Run.negated_accepting]
  rfl

end Optima.Descent
