import AstraScheduler.AdmissionController
import AstraScheduler.GraphSlots
import AstraScheduler.LinkedReadyQueues
import AstraScheduler.Transition

/-! # External slots

A slot of `external_pending_capacity` is taken when work from outside of the runtime is
admitted, and is given back at one of five places: a submission that cannot be published
or a graph run that cannot be materialized rolls back; a worker, or a task that waits,
has claimed an external task from a global queue; the sweep of Immediate has discarded
one; and `trigger_successors` has cancelled a node of an external run.

A step is one critical section or one atomic access.  Calls in progress are kept in
lists, not in threads: whoever makes them, they may pause between any two of their steps.
A calling thread is given by the index of its worker, if it is a worker of this runtime;
then the call is an internal one. -/

namespace AstraScheduler
namespace ExternalSlots

open Transition (Machine)

variable {I : Type} [DecidableEq I] [TaskInvokerBase I]

/-- A call of `cancel_unstarted` that has swept the global queues. -/
structure SweepCall (I : Type) where
  /-- The calls of `admission.release(1)` for its external tasks that are still to come. -/
  owed : Nat
  /-- The bands of the local queues it has still to sweep. -/
  bands : List (Nat × Priority)
  resumes : List (QueuedTask I) := []

structure SlotState (I : Type) where
  status : SchedulerStatus := {}
  admission : AdmissionController
  queues : LinkedReadyQueues I
  /-- The invokers that have been posted. -/
  owned : List I := []
  /-- The callers of the submissions admitted and neither published nor rolled back. -/
  submissions : List (Option Nat) := []
  /-- The tasks claimed from a global queue before `release_external_slot_after_claim`. -/
  claimed : List (QueuedTask I) := []
  graphs : List GraphSlots := []
  sweeps : List (SweepCall I) := []
  /-- Some `release` has found less pending than it released. -/
  clamped : Bool := false

inductive Label (I : Type) where
  | setStatus (status : SchedulerStatus)
  /-- `prepare_submission`. -/
  | submit (caller : Option Nat) (block : Bool)
  /-- The `try` block of `publish_submission`. -/
  | publishSubmission (j : Nat) (task : I)
  /-- Its `catch` block. -/
  | rollbackSubmission (j : Nat)
  /-- `GraphExecution::run` up to the lease. -/
  | runGraph (caller : Option Nat) (block : Bool) (nodeCount : Nat) (indegree : Nat → Nat)
  | rollbackGraph (j : Nat)
  | commitGraph (j : Nat)
  | countDown (j m : Nat)
  | postRoot (j : Nat) (caller : Option Nat) (task : I)
  | postDecided (j m : Nat) (caller : Option Nat) (task : I)
  | cancelDecided (j m : Nat)
  /-- A resume, or anything else that is posted with `is_external` false. -/
  | postInternal (caller : Option Nat) (task : I)
  | claimGlobal (calendarIndex : Nat) (deadlineBursts : Priority → Nat)
  | releaseAfterClaim (j : Nat)
  | claimLocal (workerIndex calendarIndex : Nat)
  | steal (victimIndex calendarIndex : Nat) (contended : Priority → Bool)
  | completeClaim
  | ringRoom (workerIndex : Nat) (band : Priority) (room : Option Nat)
  /-- `cancel_unstarted`: the global queues, the releases, the local bands one by one,
  the republication of their resumes. -/
  | sweepGlobal
  | sweepRelease (j : Nat)
  | sweepLocal (j : Nat)
  | sweepEnd (j : Nat)

/-- The bands of the local queues in the order of the sweep. -/
def localBands (workerCount : Nat) : List (Nat × Priority) :=
  (List.range workerCount).flatMap fun w => Priority.bands.map fun band => (w, band)

namespace SlotState
variable (s : SlotState I)

def release (count : Nat) : SlotState I :=
  { s with
    admission := s.admission.release count
    clamped := s.clamped || s.admission.clamps count }

/-- `release` unless the work is internal. -/
def releaseExternal (count : Nat) (isInternal : Bool) : SlotState I :=
  if isInternal then s else s.release count

/-- `post_task_internal`, by a thread that may publish now.  The invoker is a new one. -/
def post (caller : Option Nat) (task : I) (isExternal : Bool) : Option (SlotState I) :=
  if task ∈ s.owned then none
  else some { s with
    queues := s.queues.publish task isExternal (!isExternal && caller.isSome) (caller.getD 0)
    owned := s.owned ++ [task] }

def setGraph (j : Nat) (g : GraphSlots) : SlotState I := { s with graphs := s.graphs.set j g }

/-- `post_node` of `GraphExecution`, for the graph as it is afterwards. -/
def postNode (j : Nat) (caller : Option Nat) (task : I) (g : GraphSlots) :
    Option (SlotState I) :=
  if TaskInvokerBase.isResumeSegment task then none
  else (s.setGraph j g).post caller task !g.isInternal

def next : Label I → Option (SlotState I)
  | .setStatus status => some { s with status := status }
  | .submit caller block =>
    (s.admission.acquire s.status 1 block caller.isSome).map fun (decision, admission) =>
      if decision = .success then
        { s with admission := admission, submissions := s.submissions ++ [caller] }
      else { s with admission := admission }
  | .publishSubmission j task =>
    s.submissions[j]?.bind fun caller =>
      if TaskInvokerBase.isResumeSegment task then none
      else { s with submissions := s.submissions.eraseIdx j }.post caller task caller.isNone
  | .rollbackSubmission j =>
    s.submissions[j]?.map fun caller =>
      { s with submissions := s.submissions.eraseIdx j }.releaseExternal 1 caller.isSome
  | .runGraph caller block nodeCount indegree =>
    (s.admission.acquire s.status nodeCount block caller.isSome).map fun (decision, admission) =>
      if decision = .success then
        { s with
          admission := admission
          graphs := s.graphs ++ [GraphSlots.admitted nodeCount caller.isSome indegree] }
      else { s with admission := admission }
  | .rollbackGraph j =>
    s.graphs[j]?.bind fun g =>
      if g.leased then
        some ({ s with graphs := s.graphs.eraseIdx j }.releaseExternal g.nodeCount g.isInternal)
      else none
  | .commitGraph j =>
    s.graphs[j]?.bind fun g => if g.leased then some (s.setGraph j g.commit) else none
  | .countDown j m =>
    s.graphs[j]?.bind fun g =>
      if g.leased ∨ g.nodeCount ≤ m then none else some (s.setGraph j (g.countDown m))
  | .postRoot j caller task => s.graphs[j]?.bind fun g => g.postRoot.bind (s.postNode j caller task)
  | .postDecided j m caller task =>
    s.graphs[j]?.bind fun g => (g.postDecided m).bind (s.postNode j caller task)
  | .cancelDecided j m =>
    s.graphs[j]?.bind fun g =>
      (g.cancelDecided m).map fun g => (s.setGraph j g).releaseExternal 1 g.isInternal
  | .postInternal caller task => s.post caller task false
  | .claimGlobal index bursts =>
    (s.queues.claimGlobal index bursts).map fun (c, _) =>
      { s with queues := c.queues, claimed := s.claimed ++ [c.out] }
  | .releaseAfterClaim j =>
    s.claimed[j]?.map fun task =>
      { s with claimed := s.claimed.eraseIdx j }.releaseExternal 1 !task.isExternal
  | .claimLocal w index =>
    (s.queues.claimLocal w index).map fun c => { s with queues := c.queues }
  | .steal w index contended =>
    (s.queues.steal w index contended).map fun c => { s with queues := c.queues }
  | .completeClaim => some { s with queues := s.queues.completeClaim }
  | .ringRoom w band room => some { s with queues := s.queues.ringRoom w band room }
  | .sweepGlobal =>
    let swept := s.queues.sweepGlobal
    some { s with
      queues := swept.queues
      sweeps := s.sweeps ++ [⟨swept.released, localBands s.queues.workerCount, []⟩] }
  | .sweepRelease j =>
    s.sweeps[j]?.bind fun call =>
      if call.owed = 0 then none
      else some ({ s with sweeps := s.sweeps.set j { call with owed := call.owed - 1 } }.release 1)
  | .sweepLocal j =>
    s.sweeps[j]?.bind fun call =>
      match call.bands with
      | [] => none
      | (w, band) :: bands =>
        if call.owed ≠ 0 then none
        else
          let swept := LinkedReadyQueues.sweepLocalBand w
            { queues := s.queues, resumes := call.resumes } band
          some { s with
            queues := swept.queues
            sweeps := s.sweeps.set j { call with bands := bands, resumes := swept.resumes } }
  | .sweepEnd j =>
    s.sweeps[j]?.bind fun call =>
      if call.owed ≠ 0 ∨ call.bands ≠ [] then none
      else some { s with
        queues := s.queues.republish call.resumes
        sweeps := s.sweeps.eraseIdx j }

end SlotState

/-- A runtime of this capacity, with any number of workers and on either backend. -/
def machine (capacity : Nat) : Machine (SlotState I) (Label I) where
  init s := ∃ backpressure backend workerCount,
    s = { admission := { capacity := capacity, backpressure := backpressure }
          queues := { localBackend := backend, workerCount := workerCount } }
  next := SlotState.next

end ExternalSlots
end AstraScheduler
