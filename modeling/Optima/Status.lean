namespace Optima

inductive Status
  | notRun | normal | iterationExceeded | stationaryFunction | gradientConvergence | badFunction
  | diverged
  deriving DecidableEq

namespace Status

def isTerminal : Status → Bool
  | notRun => false
  | _ => true

def isConverged : Status → Bool
  | normal | gradientConvergence | stationaryFunction => true
  | _ => false

def description : Status → String
  | notRun => "Solver has not been run"
  | normal => "Converged"
  | iterationExceeded => "Terminated: maximum iterations reached"
  | stationaryFunction => "Converged: objective is stationary"
  | gradientConvergence => "Converged: small gradient"
  | badFunction => "Terminated: function cannot be handled at this point"
  | diverged => "Terminated: non-finite objective value"

end Status

end Optima
