import Optima.Proofs.Document.Configs
import Optima.Proofs.Document.Members

namespace Optima

open Document
open Json (Members)

structure Stopping.GivenBy (members : Members) (c : Stopping Float) : Prop where
  maxIterations : Given members "max_iterations" (Means (readOptional readWord)) (·.maxIterations) c
  plateau : Given members "max_static_iterations" (Means (readOptional readWord)) (·.plateau) c
  valueTolerance : Given members "function_epsilon" (Means (readOptional readFloat))
    (·.valueTolerance) c
  gradientTolerance : Given members "gradient_epsilon" (Means (readOptional readFloat))
    (·.gradientTolerance) c

structure LineSearch.GivenBy (members : Members) (c : LineSearch Float) : Prop where
  method : Given members "method" (Means readNamed) (·.method) c
  initialStep : Given members "initial_step" (Means readFloat) (·.initialStep) c
  maxStep : Given members "max_step" (Means readStep) (·.maxStep) c
  maxIterations : Given members "max_iterations" (Means readWord) (·.maxIterations) c
  c1 : Given members "c1" (Means readFloat) (·.c1) c
  c2 : Given members "c2" (Means readFloat) (·.c2) c

structure Descent.Config.GivenBy (members : Members) (c : Descent.Config Float) : Prop where
  method : Given members "method" (Means readNamed) (·.method) c
  goal : Given members "optimization" (Means readNamed) (·.goal) c
  momentum : Given members "momentum" (Means readFloat) (·.momentum) c
  lineSearch : Given members "line_search" (Denotes LineSearch.GivenBy) (·.lineSearch) c
  stopping : Given members "end_criteria" (Denotes Stopping.GivenBy) (·.stopping) c
  bounds : Given members "bounds" (Means (readOptional readBox)) (·.bounds) c
  differenceStep : Given members "finite_difference_step" (Means (readOptional readFloat))
    (·.differenceStep) c

structure Simplex.Config.GivenBy (members : Members) (c : Simplex.Config Float) : Prop where
  goal : Given members "optimization" (Means readNamed) (·.goal) c
  tolerance : Given members "tolerance" (Means readFloat) (·.tolerance) c
  stopping : Given members "end_criteria" (Denotes Stopping.GivenBy) (·.stopping) c
  reflection : Given members "reflection" (Means readFloat) (·.reflection) c
  expansion : Given members "expansion" (Means readFloat) (·.expansion) c
  contraction : Given members "contraction" (Means readFloat) (·.contraction) c
  shrink : Given members "shrink" (Means readFloat) (·.shrink) c
  initialStep : Given members "initial_step" (Means readFloat) (·.initialStep) c

structure Swarm.Config.GivenBy (members : Members) (c : Swarm.Config Float) : Prop where
  goal : Given members "optimization" (Means readNamed) (·.goal) c
  size : Given members "swarm_size" (Means readWord) (·.size) c
  inertia : Given members "inertia" (Means readFloat) (·.inertia) c
  cognitive : Given members "cognitive" (Means readFloat) (·.cognitive) c
  social : Given members "social" (Means readFloat) (·.social) c
  velocityScale : Given members "velocity_scale" (Means readFloat) (·.velocityScale) c
  update : Given members "update" (Means readNamed) (·.update) c
  stopping : Given members "end_criteria" (Denotes Stopping.GivenBy) (·.stopping) c
  seed : Given members "seed" (Means readWord) (·.seed) c

structure Evolution.Config.GivenBy (members : Members) (c : Evolution.Config Float) : Prop where
  goal : Given members "optimization" (Means readNamed) (·.goal) c
  weight : Given members "weight" (Means readFloat) (·.weight) c
  crossover : Given members "crossover" (Means readFloat) (·.crossover) c
  update : Given members "update" (Means readNamed) (·.update) c
  stopping : Given members "end_criteria" (Denotes Stopping.GivenBy) (·.stopping) c
  maxResamples : Given members "max_resamples" (Means (readOptional readWord)) (·.maxResamples) c
  seed : Given members "seed" (Means readWord) (·.seed) c

structure Newton.Config.GivenBy (members : Members) (c : Newton.Config Float) : Prop where
  target : Given members "target" (Means readFloat) (·.target) c
  tolerance : Given members "tolerance" (Means readFloat) (·.tolerance) c
  slopeTolerance : Given members "slope_tolerance" (Means readFloat) (·.slopeTolerance) c
  stopping : Given members "end_criteria" (Denotes Stopping.GivenBy) (·.stopping) c
  derivativeStep : Given members "derivative_step" (Means (readOptional readFloat))
    (·.derivativeStep) c

structure Bracketing.Config.GivenBy (members : Members) (c : Bracketing.Config Float) : Prop where
  method : Given members "method" (Means readNamed) (·.method) c
  target : Given members "target" (Means readFloat) (·.target) c
  tolerance : Given members "tolerance" (Means readFloat) (·.tolerance) c
  stopping : Given members "end_criteria" (Denotes Stopping.GivenBy) (·.stopping) c

namespace Document

instance : Independent (Stopping Float) :=
  ⟨by simp [fields, optionalWord, optionalFloat], by simp [fields, optionalWord, optionalFloat]⟩

theorem stopping_filled (members : Members) (c : Stopping Float) :
    Filled members c ↔ Stopping.GivenBy members c := by
  simp only [Filled, fields, optionalWord, optionalFloat, foldlM_fill_of_cons, implies_true]
  constructor
  · rintro ⟨_, h₁, _, h₂, _, h₃, _, h₄, ⟨⟩⟩
    exact ⟨h₁, h₂, h₃, h₄⟩
  · rintro ⟨h₁, h₂, h₃, h₄⟩
    exact ⟨_, h₁, _, h₂, _, h₃, _, h₄, rfl⟩

instance : Independent (LineSearch Float) :=
  ⟨by simp [fields, choice, float, word], by simp [fields, choice, float, word]⟩

theorem lineSearch_filled (members : Members) (c : LineSearch Float) :
    Filled members c ↔ LineSearch.GivenBy members c := by
  simp only [Filled, fields, choice, float, word, foldlM_fill_of_cons, implies_true]
  constructor
  · rintro ⟨_, h₁, _, h₂, _, h₃, _, h₄, _, h₅, _, h₆, ⟨⟩⟩
    exact ⟨h₁, h₂, h₃, h₄, h₅, h₆⟩
  · rintro ⟨h₁, h₂, h₃, h₄, h₅, h₆⟩
    exact ⟨_, h₁, _, h₂, _, h₃, _, h₄, _, h₅, _, h₆, rfl⟩

instance : Independent (Descent.Config Float) :=
  ⟨by simp [fields, choice, float, nested, optionalFloat],
    by simp [fields, choice, float, nested, optionalFloat]⟩

theorem descent_filled (members : Members) (c : Descent.Config Float) :
    Filled members c ↔ Descent.Config.GivenBy members c := by
  simp only [Filled, fields, choice, float, nested, optionalFloat, foldlM_fill_of_cons,
    implies_true, means_read stopping_filled, means_read lineSearch_filled]
  constructor
  · rintro ⟨_, h₁, _, h₂, _, h₃, _, h₄, _, h₅, _, h₆, _, h₇, ⟨⟩⟩
    exact ⟨h₁, h₂, h₃, h₄, h₅, h₆, h₇⟩
  · rintro ⟨h₁, h₂, h₃, h₄, h₅, h₆, h₇⟩
    exact ⟨_, h₁, _, h₂, _, h₃, _, h₄, _, h₅, _, h₆, _, h₇, rfl⟩

instance : Independent (Simplex.Config Float) :=
  ⟨by simp [fields, choice, float, nested], by simp [fields, choice, float, nested]⟩

theorem simplex_filled (members : Members) (c : Simplex.Config Float) :
    Filled members c ↔ Simplex.Config.GivenBy members c := by
  simp only [Filled, fields, choice, float, nested, foldlM_fill_of_cons,
    implies_true, means_read stopping_filled]
  constructor
  · rintro ⟨_, h₁, _, h₂, _, h₃, _, h₄, _, h₅, _, h₆, _, h₇, _, h₈, ⟨⟩⟩
    exact ⟨h₁, h₂, h₃, h₄, h₅, h₆, h₇, h₈⟩
  · rintro ⟨h₁, h₂, h₃, h₄, h₅, h₆, h₇, h₈⟩
    exact ⟨_, h₁, _, h₂, _, h₃, _, h₄, _, h₅, _, h₆, _, h₇, _, h₈, rfl⟩

instance : Independent (Swarm.Config Float) :=
  ⟨by simp [fields, choice, word, float, nested], by simp [fields, choice, word, float, nested]⟩

theorem swarm_filled (members : Members) (c : Swarm.Config Float) :
    Filled members c ↔ Swarm.Config.GivenBy members c := by
  simp only [Filled, fields, choice, word, float, nested, foldlM_fill_of_cons,
    implies_true, means_read stopping_filled]
  constructor
  · rintro ⟨_, h₁, _, h₂, _, h₃, _, h₄, _, h₅, _, h₆, _, h₇, _, h₈, _, h₉, ⟨⟩⟩
    exact ⟨h₁, h₂, h₃, h₄, h₅, h₆, h₇, h₈, h₉⟩
  · rintro ⟨h₁, h₂, h₃, h₄, h₅, h₆, h₇, h₈, h₉⟩
    exact ⟨_, h₁, _, h₂, _, h₃, _, h₄, _, h₅, _, h₆, _, h₇, _, h₈, _, h₉, rfl⟩

instance : Independent (Evolution.Config Float) :=
  ⟨by simp [fields, choice, float, nested, optionalWord, word],
    by simp [fields, choice, float, nested, optionalWord, word]⟩

theorem evolution_filled (members : Members) (c : Evolution.Config Float) :
    Filled members c ↔ Evolution.Config.GivenBy members c := by
  simp only [Filled, fields, choice, float, nested, optionalWord, word, foldlM_fill_of_cons,
    implies_true, means_read stopping_filled]
  constructor
  · rintro ⟨_, h₁, _, h₂, _, h₃, _, h₄, _, h₅, _, h₆, _, h₇, ⟨⟩⟩
    exact ⟨h₁, h₂, h₃, h₄, h₅, h₆, h₇⟩
  · rintro ⟨h₁, h₂, h₃, h₄, h₅, h₆, h₇⟩
    exact ⟨_, h₁, _, h₂, _, h₃, _, h₄, _, h₅, _, h₆, _, h₇, rfl⟩

instance : Independent (Newton.Config Float) :=
  ⟨by simp [fields, float, nested, optionalFloat], by simp [fields, float, nested, optionalFloat]⟩

theorem newton_filled (members : Members) (c : Newton.Config Float) :
    Filled members c ↔ Newton.Config.GivenBy members c := by
  simp only [Filled, fields, float, nested, optionalFloat, foldlM_fill_of_cons,
    implies_true, means_read stopping_filled]
  constructor
  · rintro ⟨_, h₁, _, h₂, _, h₃, _, h₄, _, h₅, ⟨⟩⟩
    exact ⟨h₁, h₂, h₃, h₄, h₅⟩
  · rintro ⟨h₁, h₂, h₃, h₄, h₅⟩
    exact ⟨_, h₁, _, h₂, _, h₃, _, h₄, _, h₅, rfl⟩

instance : Independent (Bracketing.Config Float) :=
  ⟨by simp [fields, choice, float, nested], by simp [fields, choice, float, nested]⟩

theorem bracketing_filled (members : Members) (c : Bracketing.Config Float) :
    Filled members c ↔ Bracketing.Config.GivenBy members c := by
  simp only [Filled, fields, choice, float, nested, foldlM_fill_of_cons,
    implies_true, means_read stopping_filled]
  constructor
  · rintro ⟨_, h₁, _, h₂, _, h₃, _, h₄, ⟨⟩⟩
    exact ⟨h₁, h₂, h₃, h₄⟩
  · rintro ⟨h₁, h₂, h₃, h₄⟩
    exact ⟨_, h₁, _, h₂, _, h₃, _, h₄, rfl⟩

/-- Whatever the order of the members and whatever stands between them, a configuration is read as
its default with the fields replaced that are given, and one inside it over its own default. -/
theorem parse_object {text : String} {members : Members}
    (h : Json.parse? text = some (.object members)) :
    Resolved (Stopping Float) Stopping.GivenBy text members ∧
      Resolved (LineSearch Float) LineSearch.GivenBy text members ∧
      Resolved (Descent.Config Float) Descent.Config.GivenBy text members ∧
      Resolved (Simplex.Config Float) Simplex.Config.GivenBy text members ∧
      Resolved (Swarm.Config Float) Swarm.Config.GivenBy text members ∧
      Resolved (Evolution.Config Float) Evolution.Config.GivenBy text members ∧
      Resolved (Newton.Config Float) Newton.Config.GivenBy text members ∧
      Resolved (Bracketing.Config Float) Bracketing.Config.GivenBy text members :=
  ⟨resolved (stopping_filled members) h, resolved (lineSearch_filled members) h,
    resolved (descent_filled members) h, resolved (simplex_filled members) h,
    resolved (swarm_filled members) h, resolved (evolution_filled members) h,
    resolved (newton_filled members) h, resolved (bracketing_filled members) h⟩

def scattered : Members :=
  [(some "end_criteria", .object [(some "max_iterations", .number (.ofNat 7))]),
    (some "note", .array [.bool true, .object [(some "swarm_size", .null)]]),
    (some "swarm_size", .number (.ofNat 12))]

theorem scattered_keys : ∀ m ∈ scattered, m.1.isSome := by decide

theorem scattered_proper : ∀ m ∈ scattered, m.2.Proper := by
  have hword (n : Nat) : (Json.number (.ofNat n)).Proper := .number (Numeral.ofNat_proper n)
  simp only [scattered, List.forall_mem_cons]
  refine ⟨.object (by decide) ?_, .array ?_, hword 12, nofun⟩
  · simpa using hword 7
  · simpa using ⟨.bool true, .object (by decide) (by simpa using .null)⟩

theorem scattered_read :
    (Json.parse? (Json.object scattered).print = some (.object scattered) ∧
      (parse (Json.object scattered).print : Except (Error Float) (Swarm.Config Float)) =
        .ok { (Swarm.Config.standard : Swarm.Config Float) with
          size := 12, stopping := { Stopping.standard with maxIterations := some 7 } }) ∧
    Json.parse? (Json.object (scattered ++ scattered)).print =
      some (.object (scattered ++ scattered)) ∧
    (parse (Json.object (scattered ++ scattered)).print :
      Except (Error Float) (Swarm.Config Float)) = .error .unreadable := by
  have honce := (Json.Proper.object scattered_keys scattered_proper).parse?_print
  have htwice := (Json.Proper.object
    (List.forall_mem_append.2 ⟨scattered_keys, scattered_keys⟩)
    (List.forall_mem_append.2 ⟨scattered_proper, scattered_proper⟩)).parse?_print
  refine ⟨⟨honce, ?_⟩, htwice, ?_⟩
  · obtain ⟨-, -, -, -, hswarm, -⟩ := parse_object honce
    refine (hswarm.value _).2 ⟨⟨scattered_keys, by decide⟩, ?_⟩
    refine ⟨rfl, rfl, rfl, rfl, rfl, rfl, rfl, ?_, rfl⟩
    exact ⟨⟨by decide, by decide⟩, ⟨rfl, rfl, rfl, rfl⟩⟩
  · obtain ⟨-, -, -, -, hswarm, -⟩ := parse_object htwice
    exact hswarm.repeated _ (List.mem_of_getElem? (i := 1) rfl) (by decide)

end Document

end Optima
