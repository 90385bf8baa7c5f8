import Optima.Descent.Run
import Optima.Evolution.Run
import Optima.Simplex.Run
import Optima.Swarm.Run

namespace Optima

variable {α : Type} [Scalar α]

namespace Descent

theorem sweep_frame (c : Config α) (goal : Goal) (stopping : Stopping α) (f : LineFunction α)
    (hessian : Vec α → Option (Mat α)) (s : State α) (n : Nat) (i : Iterate α) (d : Vec α)
    (moved : Bool) :
    sweep { c with goal, stopping } f hessian s n i d moved = sweep c f hessian s n i d moved := by
  induction n generalizing i d moved with
  | zero => rfl
  | succ n ih =>
    simp only [sweep, ih]
    rfl

theorem step_frame (c : Config α) (goal : Goal) (stopping : Stopping α) (o : Objective α)
    (s : State α) : step { c with goal, stopping } o s = step c o s := by
  cases c with
  | mk method =>
    cases method with
    | momentum => rfl
    | bfgs => rfl
    | conjugateGradient => exact sweep_frame _ goal stopping _ _ _ _ _ _ _
    | boxConstrained => rfl

end Descent

theorem Simplex.step_frame (c : Config α) (goal : Goal) (stopping : Stopping α) (box : Box α)
    (f : Vec α → α) (s : Simplex α) (center : Vec α) :
    step { c with goal, stopping } box f s center = step c box f s center := rfl

variable {γ : Type} [WordSource γ]

namespace Swarm

theorem steer_frame (c : Config α) (goal : Goal) (stopping : Stopping α) (x v own all : Vec α) :
    (steer { c with goal, stopping } x v own all : Draw γ (Vec α)) = steer c x v own all := by
  induction x generalizing v own all with
  | nil => rfl
  | cons a x ih =>
    cases v with
    | nil => rfl
    | cons b v =>
      cases own with
      | nil => rfl
      | cons o own =>
        cases all with
        | nil => rfl
        | cons d all => simp only [steer, ih]

theorem advance_frame (c : Config α) (goal : Goal) (stopping : Stopping α) (box : Box α)
    (f : Vec α → α) (best : Vec α) (p : Particle α) :
    (advance { c with goal, stopping } box f best p : Sampled γ (Vec α) (Particle α)) =
      advance c box f best p := by
  simp only [advance, steer_frame]

theorem sequentialSweep_frame (c : Config α) (goal : Goal) (stopping : Stopping α) (box : Box α)
    (f : Vec α → α) (ps : List (Particle α)) (best : Best α) :
    (sequentialSweep { c with goal, stopping } box f ps best :
      Sampled γ (Vec α) (List (Particle α) × Best α)) = sequentialSweep c box f ps best := by
  induction ps generalizing best with
  | nil => rfl
  | cons p ps ih => simp only [sequentialSweep, advance_frame, ih]

theorem sweep_frame (c : Config α) (goal : Goal) (stopping : Stopping α) (box : Box α)
    (f : Vec α → α) (ps : List (Particle α)) (best : Best α) :
    (sweep { c with goal, stopping } box f ps best :
      Sampled γ (Vec α) (List (Particle α) × Best α)) = sweep c box f ps best := by
  have hs : advanceSeeded { c with goal, stopping } box f best.position =
      advanceSeeded c box f best.position := by
    funext p
    simp only [advanceSeeded, advance_frame]
  simp only [sweep, sequentialSweep_frame, batchedSweep, hs]

end Swarm

namespace Evolution

theorem crossover_frame (c : Config α) (goal : Goal) (stopping : Stopping α)
    (target x y z : Vec α) :
    (crossover { c with goal, stopping } target x y z : Draw γ (Vec α)) =
      crossover c target x y z := by
  induction target generalizing x y z with
  | nil => rfl
  | cons own target ih =>
    cases x with
    | nil => rfl
    | cons a x =>
      cases y with
      | nil => rfl
      | cons b y =>
        cases z with
        | nil => rfl
        | cons d z => simp only [crossover, ih]

theorem trial_frame (c : Config α) (goal : Goal) (stopping : Stopping α) (feasible : Vec α → Bool)
    (points : List (Vec α)) (k attempts : Nat) :
    (trial { c with goal, stopping } feasible points k attempts : Draw γ (Option (Vec α))) =
      trial c feasible points k attempts := by
  induction attempts with
  | zero => rfl
  | succ attempts ih => simp only [trial, candidate, crossover_frame, ih]

theorem inPlaceGeneration_frame (c : Config α) (goal : Goal) (stopping : Stopping α)
    (feasible : Vec α → Bool) (f : Vec α → α) (ks : List Nat) (population : List (Member α))
    (calls : Nat) :
    (inPlaceGeneration { c with goal, stopping } feasible f ks population calls :
      Sampled γ (Vec α) (List (Member α) × Nat)) =
      inPlaceGeneration c feasible f ks population calls := by
  have ha : Config.attempts { c with goal, stopping } = c.attempts := rfl
  have hg : Config.givesUp { c with goal, stopping } = c.givesUp := rfl
  induction ks generalizing population calls with
  | nil => rfl
  | cons k ks ih => simp only [inPlaceGeneration, ha, hg, trial_frame, ih]

theorem generation_frame (c : Config α) (goal : Goal) (stopping : Stopping α)
    (feasible : Vec α → Bool) (f : Vec α → α) (population : List (Member α)) :
    (generation { c with goal, stopping } feasible f population :
      Sampled γ (Vec α) (List (Member α) × Nat)) = generation c feasible f population := by
  have ha : Config.attempts { c with goal, stopping } = c.attempts := rfl
  have hs : ∀ points, seededTrial { c with goal, stopping } feasible f points =
      seededTrial c feasible f points := by
    intro points
    funext p
    simp only [seededTrial, ha, trial_frame]
  simp only [generation, inPlaceGeneration_frame, batchedGeneration, hs]

omit [Scalar α] in
theorem settles_frame (c : Config α) (goal : Goal) (stopping : Stopping α) :
    Config.settles { c with goal, stopping } = c.settles := rfl

end Evolution

end Optima
