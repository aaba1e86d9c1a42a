import AstraScheduler.DeferredResume
import AstraScheduler.HelpingWait
import AstraScheduler.ImmediateCleanup
import AstraScheduler.ParkHandshake
import AstraScheduler.Lifecycle
import AstraScheduler.ChaseLevIndices
import AstraScheduler.DrainSubmission
import AstraScheduler.DrainTimers
import AstraScheduler.GraphOutcomes
import AstraScheduler.GraphShutdown
import AstraScheduler.TraceExport
import AstraScheduler.CompletionCallbacks
import AstraScheduler.CoroutineLeaks
import AstraScheduler.QueueConservation
import AstraScheduler.GraphSlotsView
import AstraScheduler.SlotConservation
import AstraScheduler.FinalizationWaits
import AstraScheduler.LifecycleCallbacks
import AstraScheduler.ShutdownGate
import AstraScheduler.BlockedSubmitters
import AstraScheduler.TraceCapture
import AstraScheduler.StartupTransaction
import AstraScheduler.HandleRelease
import AstraScheduler.HelpingTimers
import AstraScheduler.TimedHelping
import AstraScheduler.Acyclicity
import AstraScheduler.AdmissionRollback
import AstraScheduler.BackendEquivalence
import AstraScheduler.CycleWitness
import AstraScheduler.ExecutionIdentity
import AstraScheduler.GraphMetrics
import AstraScheduler.GraphMetricsBooks
import AstraScheduler.HeapOrder
import AstraScheduler.ImmediateClaims
import AstraScheduler.ImmediateFirstStarts
import AstraScheduler.TaskBooks
import AstraScheduler.TaskConservation
import AstraScheduler.TimerQueue
import AstraScheduler.TimerQueueCalls
import AstraScheduler.GraphAccounts
import AstraScheduler.GraphConservation
import AstraScheduler.HandshakeCalls
import AstraScheduler.DeadlineArithmetic
import AstraScheduler.FifoStarvation
import AstraScheduler.GraphCallbacks
import AstraScheduler.ParkTimers
import AstraScheduler.SleepSafety
import AstraScheduler.SuspendRollback
import AstraScheduler.TraceSegments
import AstraScheduler.WaitEvents
import AstraScheduler.MetricsMerge
import AstraScheduler.WorkerLoop
import AstraScheduler.RuntimeIdentity
import AstraScheduler.ConcurrentMetrics
import AstraScheduler.TaskResults
import AstraScheduler.SubmissionAccounts
import AstraScheduler.WaitAccounts
import AstraScheduler.FailurePropagation
import AstraScheduler.PriorityInheritance
import AstraScheduler.ProcessMetrics
import AstraScheduler.CaptureExport
import AstraScheduler.ColdCoroutines
import AstraScheduler.CaptureHandles
import AstraScheduler.WorkerPool
import AstraScheduler.WorkerBooks
