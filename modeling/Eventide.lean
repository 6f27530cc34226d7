import Eventide.Library.Sequence
import Eventide.Model.StoreCalls
import Eventide.Verification.Store.Log
import Eventide.Verification.Run.Status
import Eventide.Verification.Scheduler.Safety
import Eventide.Verification.Usage.SetFunction
import Eventide.Verification.Budget.Cap
import Eventide.Verification.TaskPlan.Laws
import Eventide.Verification.Stream.Complete
import Eventide.Verification.Memory.Injection
import Eventide.Verification.Sandbox.Patch
import Eventide.Verification.Delivery.Review
import Eventide.Verification.AgentLoop.Gate
import Eventide.Verification.Context.Checkpoint
import Eventide.Verification.Context.Folding
import Eventide.Verification.Rag.Chunks
import Eventide.Verification.Rag.Index
import Eventide.Verification.Store.Projects
import Eventide.Verification.Store.Mutations
import Eventide.Verification.ModelCalls.Lifecycle
import Eventide.Verification.Budget.Attempts
import Eventide.Verification.ModelCalls.Attempts
import Eventide.Verification.Tools.Output
import Eventide.Verification.Stream.Preview
import Eventide.Verification.Tools.Edit
import Eventide.Verification.Usage.Composition
import Eventide.Verification.Delivery.Feedback
import Eventide.Verification.Tools.Pages
import Eventide.Verification.Tools.Search
import Eventide.Verification.Prices.Estimate
import Eventide.Verification.Loops.History
import Eventide.Verification.Rag.Partition
import Eventide.Verification.Delegation.Workers
import Eventide.Verification.Reservations.Safety
import Eventide.Verification.Experiments.Verdict
import Eventide.Verification.AgentLoop.Sessions
import Eventide.Verification.Providers.Messages
import Eventide.Verification.Providers.Completions
