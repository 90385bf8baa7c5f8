import Optima.Document.Configs
import Optima.Evolution.Run
import Optima.Swarm.Run

namespace Optima

open Decimal (exact natText)

def version : String := "0.1.0"

class Described (β : Type) where
  describe : β → String

open Described (describe)

instance : Described Nat := ⟨natText⟩

instance : Described Float := ⟨exact⟩

instance : Described Bool := ⟨fun b => if b then "true" else "false"⟩

instance {β : Type} [Described β] : Described (Option β) where
  describe
    | none => "None"
    | some b => "Some(" ++ describe b ++ ")"

instance {β : Type} [Described β] : Described (List β) where
  describe bs := "[" ++ ", ".intercalate (bs.map describe) ++ "]"

instance : Described (Interval Float) where
  describe i := "(" ++ exact i.lower ++ ", " ++ exact i.upper ++ ")"

instance {β : Type} [Document.Named β] : Described β := ⟨Document.Named.name⟩

def record (name : String) (fields : List (String × String)) : String :=
  name ++ " \x7b " ++ ", ".intercalate (fields.map fun f => f.1 ++ ": " ++ f.2) ++ " \x7d"

instance : Described (Stopping Float) where
  describe c := record "EndCriteria"
    [("max_iterations", describe c.maxIterations),
     ("max_static_iterations", describe c.plateau),
     ("function_epsilon", describe c.valueTolerance),
     ("gradient_epsilon", describe c.gradientTolerance)]

instance : Described (Swarm.Config Float) where
  describe c := record "ParticleSwarmConfig"
    [("optimization", describe c.goal),
     ("swarm_size", describe c.size),
     ("inertia", describe c.inertia),
     ("cognitive", describe c.cognitive),
     ("social", describe c.social),
     ("velocity_scale", describe c.velocityScale),
     ("update", describe c.update),
     ("end_criteria", describe c.stopping),
     ("seed", describe c.seed)]

instance : Described (Evolution.Config Float) where
  describe c := record "DifferentialEvolutionConfig"
    [("optimization", describe c.goal),
     ("weight", describe c.weight),
     ("crossover", describe c.crossover),
     ("update", describe c.update),
     ("end_criteria", describe c.stopping),
     ("max_resamples", describe c.maxResamples),
     ("seed", describe c.seed)]

def Swarm.describe (s : Solver (Swarm Float) Float (Vec Float)) : String :=
  record "ParticleSwarmOptimizer"
    [("bounds", Described.describe (show List (Interval Float) from s.setup.box)),
     ("config", Described.describe s.setup.config),
     ("has_generator", Described.describe s.setup.generator.isSome),
     ("status", Described.describe s.report.status)]

def Evolution.describe (s : Solver (Evolution Float) Float (Vec Float)) : String :=
  record "DifferentialEvolutionOptimizer"
    [("population", Described.describe s.setup.population.length),
     ("config", Described.describe s.setup.config),
     ("status", Described.describe s.report.status)]

end Optima
