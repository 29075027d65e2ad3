import RegisterFlow.Code.Render
import RegisterFlow.Execution.Run
import RegisterFlow.Listing.Parse
import RegisterFlow.Main
import RegisterFlow.Proofs.Code.Building
import RegisterFlow.Proofs.Execution.Progress
import RegisterFlow.Proofs.Execution.Runs
import RegisterFlow.Proofs.Tracking.Lasting
import RegisterFlow.Proofs.Tracking.FlagReads
import RegisterFlow.Proofs.Tracking.Promotion
import RegisterFlow.Tracking.Deferred
import RegisterFlow.Tracking.Flags
import RegisterFlow.Proofs.Tracking.Bindings
import RegisterFlow.Proofs.Tracking.Reentry
import RegisterFlow.Proofs.Execution.Demand
import RegisterFlow.Proofs.Execution.Exact
import RegisterFlow.Proofs.Tracking.ArithmeticFlags
import RegisterFlow.Proofs.Code.Loads
import RegisterFlow.Proofs.Tracking.Merges
import RegisterFlow.Proofs.Tracking.MergePoints
import RegisterFlow.Proofs.Tracking.WordMeetings
import RegisterFlow.Proofs.Machine.Driver
import RegisterFlow.Proofs.Machine.Standing
import RegisterFlow.Proofs.Machine.Working
import RegisterFlow.Proofs.Machine.Parts
import RegisterFlow.Proofs.Machine.Conclusion
import RegisterFlow.Proofs.Machine.Delivery
import RegisterFlow.Proofs.Machine.Registers
import RegisterFlow.Proofs.Machine.Matching
import RegisterFlow.Proofs.Machine.Simulation
import RegisterFlow.Proofs.Machine.Soundness
import RegisterFlow.Proofs.Code.Aside
import RegisterFlow.Proofs.Execution.Aside
import RegisterFlow.Proofs.Tracking.LifeCycle
import RegisterFlow.Proofs.Tracking.Discharge
import RegisterFlow.Proofs.Tracking.FlagBits
import RegisterFlow.Proofs.Tracking.Inertness
import RegisterFlow.Proofs.Tracking.TypedSessions
import RegisterFlow.Proofs.Listing.WellFormed
import RegisterFlow.Proofs.Listing.Concatenation
import RegisterFlow.Proofs.Listing.RoundTrip
import RegisterFlow.Proofs.Tracking.Sources
import RegisterFlow.Proofs.Code.Structure
import RegisterFlow.Proofs.Tracking.RotateFlags
import RegisterFlow.Proofs.Tracking.EveryPath
import RegisterFlow.Proofs.Tracking.FlagFailures
import RegisterFlow.Proofs.Tracking.Conditions
import RegisterFlow.Proofs.Tracking.NarrowReads
import RegisterFlow.Proofs.Listing.Termination
import RegisterFlow.Proofs.Execution.Results
import RegisterFlow.Proofs.Execution.Canonical
import RegisterFlow.Proofs.Execution.Agreement
import RegisterFlow.Proofs.Execution.Repetition
import RegisterFlow.Proofs.Execution.Fuel
import RegisterFlow.Proofs.Code.Slots
import RegisterFlow.Proofs.Tracking.Naming
import RegisterFlow.Proofs.Code.KeptByBuilding
