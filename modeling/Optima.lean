import Optima.Proofs.Descent.Sweep
import Optima.Proofs.Scalar.Binary64
import Optima.Mat.Inverse
import Optima.Solver
import Optima.Descent.Run
import Optima.Simplex.Run
import Optima.Swarm.Run
import Optima.Evolution.Run
import Optima.Root.Newton
import Optima.Root.Bracketing
import Optima.Error.Message
import Optima.Report.Text
import Optima.Json.Number
import Optima.Json.Parser
import Optima.Json.Printer
import Optima.Document.Configs
import Optima.Random.ChaCha
import Optima.Random.Uniform
import Optima.Population
import Optima.Formula
import Optima.Description
import Optima.Proofs.Scalar.Exact
import Optima.Proofs.Containment
import Optima.Proofs.Descent.Boxed
import Optima.Proofs.Duality.Descent
import Optima.Proofs.Duality.Simplex
import Optima.Proofs.Duality
import Optima.Proofs.Linear.Matrix
import Optima.Proofs.Linear.Secant
import Optima.Proofs.Linear.Elimination
import Optima.Proofs.Linear.Inverse
import Optima.Proofs.Descent.Curvature
import Optima.Proofs.Linear.Conjugate
import Optima.Proofs.Descent.Quadratic
import Optima.Proofs.Iteration
import Optima.Proofs.Random.Draws
import Optima.Proofs.Ranking
import Optima.Proofs.Ranking.Earliest
import Optima.Proofs.Swarm.Sweep
import Optima.Proofs.Swarm.Best
import Optima.Proofs.Swarm.Run
import Optima.Proofs.Evolution.Generation
import Optima.Proofs.Evolution.Run
import Optima.Proofs.Simplex.Sorting
import Optima.Proofs.Simplex.Step
import Optima.Proofs.Simplex.Run
import Optima.Proofs.Simplex.Flatness
import Optima.Proofs.Cap
import Optima.Proofs.Scalar.Sums
import Optima.Proofs.LineSearch.Acceptance
import Optima.Proofs.Descent.Monotone
import Optima.Proofs.Scalar.Amount
import Optima.Proofs.Root.Bracket
import Optima.Proofs.Root.Containment
import Optima.Proofs.Scalar.Extended
import Optima.Proofs.Scalar.Underflow
import Optima.Proofs.Image
import Optima.Proofs.Matching
import Optima.Proofs.Rescaling.Similar
import Optima.Proofs.Rescaling.Swarm
import Optima.Proofs.Rescaling
import Optima.Proofs.Json.Numeral
import Optima.Proofs.Json.RoundTrip
import Optima.Proofs.Document.Float
import Optima.Proofs.Document.Value
import Optima.Proofs.Document.Field
import Optima.Proofs.Document.Configs
import Optima.Proofs.Document
import Optima.Proofs.Descent.Route
import Optima.Proofs.Descent.Diverged
import Optima.Proofs.Random.Overflow
import Optima.Proofs.Simplex.Containment
import Optima.Proofs.Descent.Stall
import Optima.Proofs.LineSearch.Cost
import Optima.Proofs.Descent.Budget
import Optima.Proofs.Reports
import Optima.Proofs.Tally
import Optima.Proofs.Chronicle
import Optima.Proofs.Scalar.Contracting
import Optima.Proofs.LineSearch.Grid
import Optima.Proofs.LineSearch.Smooth
import Optima.Proofs.LineSearch.Trials
import Optima.Proofs.LineSearch.Wolfe
import Optima.Proofs.Isolation
import Optima.Proofs.Root.Halving
import Optima.Proofs.Clipping
import Optima.Proofs.Descent.Projected
import Optima.Proofs.Simplex.Volume
import Optima.Proofs.Simplex.Geometry
import Optima.Proofs.Scalar.Signed
import Optima.Proofs.LineSearch.Signs
import Optima.Proofs.Descent.Slack
import Optima.Proofs.Root.Newton
import Optima.Proofs.Root.Quadratic
import Optima.Proofs.Scalar.Magnitude
import Optima.Proofs.Root.Convergence
import Optima.Proofs.Stopping.Priority
import Optima.Proofs.Stopping.Tightening
import Optima.Proofs.Stopping.Standstill
import Optima.Proofs.Swarm.Standstill
import Optima.Proofs.Evolution.Candidates
import Optima.Proofs.Seeding
import Optima.Proofs.Document.Members
import Optima.Proofs.Document.Partial
