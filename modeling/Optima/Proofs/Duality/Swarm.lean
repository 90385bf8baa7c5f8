import Optima.Proofs.Duality.Negated
import Optima.Proofs.Frame

namespace Optima.Swarm

variable {α γ : Type} [Scalar α] [WordSource γ]

def uphill (s : Swarm α) : Swarm α := { s with config := { s.config with goal := .maximize } }

def downhill (s : Swarm α) : Swarm α :=
  { s with objective := s.objective.neg, config := { s.config with goal := .minimize } }

def State.negated (t : State α γ) : State α γ := { t with log := t.log.map Entry.negated }

omit [WordSource γ] in
theorem State.finish_negated (s : Swarm α) (t : State α γ) (status : Status) :
    State.finish s.uphill t.negated status = (State.finish s.downhill t status).negated := by
  simp [finish, negated, Report.negated, uphill, downhill]

theorem round_negated (s : Swarm α) (t : State α γ) :
    s.uphill.round t.negated = Sum.map State.negated Report.negated <$> s.downhill.round t := by
  have hc : s.uphill.config = { s.downhill.config with goal := .maximize } := rfl
  have hb : s.uphill.box = s.downhill.box := rfl
  have hr : s.uphill.ranked = s.downhill.ranked := rfl
  simp only [round, hc, hb, hr, sweep_frame, State.finish_negated]
  have hv : s.downhill.config.stopping.verdict t.negated.iteration t.negated.values none =
      s.downhill.config.stopping.verdict t.iteration t.values none := rfl
  rw [hv]
  cases s.downhill.config.stopping.verdict t.iteration t.values none with
  | some status => rfl
  | none =>
    simp only [map_bind]
    rfl

omit [WordSource γ] in
theorem initial_negated (s : Swarm α) (positions velocities : List (Vec α)) (g : γ) :
    s.uphill.initial positions velocities g =
      State.negated <$> s.downhill.initial positions velocities g := by
  have hb : s.uphill.box = s.downhill.box := rfl
  have hr : s.uphill.ranked = s.downhill.ranked := rfl
  simp only [initial, hb, hr, map_bind]
  rfl

theorem trace_negated (s : Swarm α) (n : Nat) (positions velocities : List (Vec α)) (g : γ) :
    s.uphill.trace n positions velocities g =
      Option.map Report.negated <$> s.downhill.trace n positions velocities g := by
  simp only [trace, initial_negated, bind_map_left, map_bind, Traced.iterate_map s.round_negated]

theorem runWithin_negated (s : Swarm α) (n : Nat) (g : γ) :
    s.uphill.runWithin n g = (s.downhill.runWithin n g).negated := by
  have hp : (s.uphill.positions : Draw γ _) = s.downhill.positions := rfl
  have hv : (s.uphill.velocities : Draw γ _) = s.downhill.velocities := rfl
  have hc : ∀ ps, s.uphill.checkPositions ps = s.downhill.checkPositions ps := fun _ => rfl
  simp only [runWithin, hp, hv, hc, trace_negated, Run.ofIteration_negated]
  cases StateT.run s.downhill.positions g with
  | mk positions g =>
    cases positions with
    | none => rfl
    | some positions =>
      simp only [Run.negated_accepting]
      congr 1
      funext u
      cases StateT.run s.downhill.velocities g with
      | mk velocities g => cases velocities <;> rfl

end Optima.Swarm
