import Optima.Decimal.Text
import Optima.Report

namespace Optima

open Decimal (exact natText scientific)

def Status.name : Status → String
  | .notRun => "NotRun"
  | .normal => "Normal"
  | .iterationExceeded => "IterationExceeded"
  | .stationaryFunction => "StationaryFunction"
  | .gradientConvergence => "GradientConvergence"
  | .badFunction => "BadFunction"
  | .diverged => "Diverged"

class Shown (χ : Type) where
  shown : χ → String

instance : Shown Float := ⟨exact⟩

instance : Shown (List Float) where
  shown x :=
    "[" ++ ", ".intercalate (x.map exact) ++ "], shape=[" ++ natText x.length ++ "], strides=["
      ++ (if x.isEmpty then "0" else "1") ++ "], layout=CFcf (0xf), const ndim=1"

def Report.text {χ : Type} [Shown χ] (r : Report Float χ) : String :=
  "Solver Report:\n"
    ++ "  Status: " ++ r.status.name ++ " (" ++ r.status.description ++ ")\n"
    ++ "  Value: " ++ scientific r.value ++ "\n"
    ++ "  Iterations: " ++ natText r.iterations ++ "\n"
    ++ "  Function evaluations: " ++ natText r.evaluations ++ "\n"
    ++ "  Result: " ++ Shown.shown r.result ++ "\n"

end Optima
