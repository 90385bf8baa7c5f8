import Optima.Descent.Config
import Optima.Document.Field
import Optima.Document.Value
import Optima.Evolution.Config
import Optima.Report.Text
import Optima.Root.Config
import Optima.Simplex.Config
import Optima.Swarm.Config

namespace Optima.Document

instance : Named Status where
  all :=
    [.notRun, .normal, .iterationExceeded, .stationaryFunction, .gradientConvergence,
      .badFunction, .diverged]
  name := Status.name

instance : Named Goal where
  all := [.minimize, .maximize]
  name
    | .minimize => "Minimize"
    | .maximize => "Maximize"

instance : Named SearchMethod where
  all := [.naive, .armijo, .armijoGoldstein, .strongWolfe, .lowest]
  name
    | .naive => "Naive"
    | .armijo => "Armijo"
    | .armijoGoldstein => "ArmijoGoldstein"
    | .strongWolfe => "StrongWolfe"
    | .lowest => "Lowest"

instance : Named Descent.Method where
  all := [.momentum, .bfgs, .conjugateGradient, .boxConstrained]
  name
    | .momentum => "Momentum"
    | .bfgs => "Bfgs"
    | .conjugateGradient => "ConjugateGradient"
    | .boxConstrained => "BoxConstrained"

instance : Named Swarm.Update where
  all := [.sequential, .batched]
  name
    | .sequential => "Sequential"
    | .batched => "Batched"

instance : Named Evolution.Update where
  all := [.inPlace, .batched]
  name
    | .inPlace => "InPlace"
    | .batched => "Batched"

instance : Named Bracketing.Method where
  all := [.dichotomy, .falsePosition]
  name
    | .dichotomy => "Dichotomy"
    | .falsePosition => "FalsePosition"

variable {κ : Type}

def float (key : String) (get : κ → Float) (set : κ → Float → κ) : Field κ :=
  .of key readFloat writeFloat get set

def optionalFloat (key : String) (get : κ → Option Float) (set : κ → Option Float → κ) :
    Field κ :=
  .of key (readOptional readFloat) (writeOptional writeFloat) get set

def word (key : String) (get : κ → Nat) (set : κ → Nat → κ) : Field κ :=
  .of key readWord writeWord get set

def optionalWord (key : String) (get : κ → Option Nat) (set : κ → Option Nat → κ) : Field κ :=
  .of key (readOptional readWord) (writeOptional writeWord) get set

def choice {β : Type} [Named β] (key : String) (get : κ → β) (set : κ → β → κ) : Field κ :=
  .of key readNamed writeNamed get set

instance : Document (Stopping Float) where
  standard := Stopping.standard
  fields :=
    [optionalWord "max_iterations" (·.maxIterations) fun c a => { c with maxIterations := a },
     optionalWord "max_static_iterations" (·.plateau) fun c a => { c with plateau := a },
     optionalFloat "function_epsilon" (·.valueTolerance) fun c a => { c with valueTolerance := a },
     optionalFloat "gradient_epsilon" (·.gradientTolerance)
       fun c a => { c with gradientTolerance := a }]

instance : Document (LineSearch Float) where
  standard := LineSearch.standard
  fields :=
    [choice "method" (·.method) fun c a => { c with method := a },
     float "initial_step" (·.initialStep) fun c a => { c with initialStep := a },
     .of "max_step" readStep (writeOptional writeFloat) (·.maxStep)
       fun c a => { c with maxStep := a },
     word "max_iterations" (·.maxIterations) fun c a => { c with maxIterations := a },
     float "c1" (·.c1) fun c a => { c with c1 := a },
     float "c2" (·.c2) fun c a => { c with c2 := a }]

instance : Document (Descent.Config Float) where
  standard := Descent.Config.standard
  fields :=
    [choice "method" (·.method) fun c a => { c with method := a },
     choice "optimization" (·.goal) fun c a => { c with goal := a },
     float "momentum" (·.momentum) fun c a => { c with momentum := a },
     nested "line_search" (·.lineSearch) fun c a => { c with lineSearch := a },
     nested "end_criteria" (·.stopping) fun c a => { c with stopping := a },
     .of "bounds" (readOptional readBox) (writeOptional writeBox) (·.bounds)
       fun c a => { c with bounds := a },
     optionalFloat "finite_difference_step" (·.differenceStep)
       fun c a => { c with differenceStep := a }]

instance : Document (Simplex.Config Float) where
  standard := Simplex.Config.standard
  fields :=
    [choice "optimization" (·.goal) fun c a => { c with goal := a },
     float "tolerance" (·.tolerance) fun c a => { c with tolerance := a },
     nested "end_criteria" (·.stopping) fun c a => { c with stopping := a },
     float "reflection" (·.reflection) fun c a => { c with reflection := a },
     float "expansion" (·.expansion) fun c a => { c with expansion := a },
     float "contraction" (·.contraction) fun c a => { c with contraction := a },
     float "shrink" (·.shrink) fun c a => { c with shrink := a },
     float "initial_step" (·.initialStep) fun c a => { c with initialStep := a }]

instance : Document (Swarm.Config Float) where
  standard := Swarm.Config.standard
  fields :=
    [choice "optimization" (·.goal) fun c a => { c with goal := a },
     word "swarm_size" (·.size) fun c a => { c with size := a },
     float "inertia" (·.inertia) fun c a => { c with inertia := a },
     float "cognitive" (·.cognitive) fun c a => { c with cognitive := a },
     float "social" (·.social) fun c a => { c with social := a },
     float "velocity_scale" (·.velocityScale) fun c a => { c with velocityScale := a },
     choice "update" (·.update) fun c a => { c with update := a },
     nested "end_criteria" (·.stopping) fun c a => { c with stopping := a },
     word "seed" (·.seed) fun c a => { c with seed := a }]

instance : Document (Evolution.Config Float) where
  standard := Evolution.Config.standard
  fields :=
    [choice "optimization" (·.goal) fun c a => { c with goal := a },
     float "weight" (·.weight) fun c a => { c with weight := a },
     float "crossover" (·.crossover) fun c a => { c with crossover := a },
     choice "update" (·.update) fun c a => { c with update := a },
     nested "end_criteria" (·.stopping) fun c a => { c with stopping := a },
     optionalWord "max_resamples" (·.maxResamples) fun c a => { c with maxResamples := a },
     word "seed" (·.seed) fun c a => { c with seed := a }]

instance : Document (Newton.Config Float) where
  standard := Newton.Config.standard
  fields :=
    [float "target" (·.target) fun c a => { c with target := a },
     float "tolerance" (·.tolerance) fun c a => { c with tolerance := a },
     float "slope_tolerance" (·.slopeTolerance) fun c a => { c with slopeTolerance := a },
     nested "end_criteria" (·.stopping) fun c a => { c with stopping := a },
     optionalFloat "derivative_step" (·.derivativeStep)
       fun c a => { c with derivativeStep := a }]

instance : Document (Bracketing.Config Float) where
  standard := Bracketing.Config.standard
  fields :=
    [choice "method" (·.method) fun c a => { c with method := a },
     float "target" (·.target) fun c a => { c with target := a },
     float "tolerance" (·.tolerance) fun c a => { c with tolerance := a },
     nested "end_criteria" (·.stopping) fun c a => { c with stopping := a }]

end Optima.Document
