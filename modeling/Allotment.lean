import Allotment.Main
import Allotment.Ready.Portfolio
import Allotment.Proofs.Simplex.Pivot
import Allotment.Exchange.Change
import Allotment.Exchange.Ready
import Allotment.Proofs.Simplex.Choice
import Allotment.Proofs.Simplex.Run
import Allotment.Proofs.Simplex.Endless
import Allotment.Proofs.Simplex.Layout
import Allotment.Proofs.WellFormed
import Allotment.Proofs.Region
import Allotment.Proofs.Simplex.Lift
import Allotment.Proofs.Simplex.Correspondence
import Allotment.Proofs.Simplex.Repricing
import Allotment.Proofs.Simplex.FirstPhase
import Allotment.Proofs.Simplex.Ready
import Allotment.Proofs.Simplex.Outcome
import Allotment.Proofs.Status
import Allotment.Proofs.Termination
import Allotment.Proofs.Simplex.Duality
import Allotment.Proofs.Prices
import Allotment.Proofs.Tolerance
import Allotment.Proofs.NearOptimum
import Allotment.Proofs.PriceSystem
import Allotment.Proofs.WholeUnits.Box
import Allotment.Proofs.WholeUnits.Enumeration
import Allotment.Proofs.WholeUnits.Units
import Allotment.Proofs.WholeUnits.Neighbourhood
import Allotment.Proofs.WholeUnits.Allocation
import Allotment.Proofs.Diagnosis
import Allotment.Proofs.Simplex.Maximum
import Allotment.Proofs.Simplex.Slope
import Allotment.Proofs.Relaxation
import Allotment.Proofs.FiniteDifference
import Allotment.Proofs.WholeUnits.Best
import Allotment.Proofs.Change
import Allotment.Proofs.ExitStatus
import Allotment.Proofs.Limit
import Allotment.Proofs.Sweep
import Allotment.Proofs.Built
import Allotment.Proofs.Mirror
import Allotment.Proofs.Draft
import Allotment.Proofs.Bounds
import Allotment.Proofs.Simplex.Congruent
import Allotment.Proofs.Vertex
import Allotment.Proofs.Restatement
import Allotment.Proofs.RoundTrip
import Allotment.Proofs.Records
import Allotment.Proofs.ExactValue
import Allotment.Proofs.WholeUnits.Saturation
import Allotment.Proofs.PivotCap
import Allotment.Proofs.ChangeList
import Allotment.Proofs.ReducedCosts
import Allotment.Proofs.LeastViolation
import Allotment.Proofs.ChangeTargets
import Allotment.Proofs.Replanning
import Allotment.Proofs.Comparison
import Allotment.Proofs.Verdicts
import Allotment.Proofs.Simplex.Drift
import Allotment.Proofs.Simplex.Moments
import Allotment.Proofs.Simplex.Representation
import Allotment.Proofs.Simplex.Clearing
import Allotment.Proofs.Simplex.Progress
