import AstraScheduler.HelpingWait

/-! # A runtime from its first submission to its last worker

The submissions, suspensions and shutdown requests of one runtime, with its workers'
loops up to their exit checks.  A step is one critical section or one atomic access;
what a thread still has to do between two of them is in its state.

The queues are lists: which entry a claim takes is a matter of priorities, deadlines
and calendars, and any entry may be taken here.  Parking is left out, since a parked
worker changes nothing; what matters of the loop is that the exit check is made under
`lifecycle_mutex`, after a search that found nothing, and reads one thing after the
other.  Threads outside the pool are not told apart: `inFlight`, `outsideTriggers` and
`hands` collect what they have begun and not completed. -/

namespace AstraScheduler
namespace Drain

open Transition (Machine)
open HelpingWait (Segment Frame Target enterFrame exitFrame offered)

/-- What an await waits for. -/
inductive AwaitTarget where
  /-- `sleep_for` and `sleep_until`. -/
  | timer
  /-- A task or a graph run, of this or of another runtime. -/
  | completion (target : Target)
  deriving DecidableEq, Repr

/-- An armed handshake nobody has resolved.  `arm` and `trigger` exclude each other, so
arming is one step: a trigger that comes first makes the coroutine post its own resume. -/
structure Await where
  id : Nat
  waiter : TaskId
  target : AwaitTarget
  deriving DecidableEq, Repr

/-- Where a worker is in `run_worker_loop`. -/
inductive WorkerLoc where
  /-- Without the mutex: searching, parked, or executing its frames. -/
  | loop
  | claimed (segment : Segment)
  /-- Holding the mutex after a search that found nothing. -/
  | locked
  /-- Stop is requested; about to look at the queues. -/
  | checking (immediate : Bool)
  /-- The queues offered nothing. -/
  | noWork (immediate : Bool)
  /-- Graceful only: the timer queue was empty as well. -/
  | noTimers
  | exited
  deriving DecidableEq, Repr

/-- A worker thread.  `triggers` are the awaits whose handshakes it is about to trigger,
`submitting` the task it has been admitted for and not yet published. -/
structure Worker where
  loc : WorkerLoc := .loop
  ctx : ThreadContext Segment := {}
  frames : List Frame := []
  /-- The innermost invoker has suspended or finished and is about to return. -/
  unwinding : Bool := false
  triggers : List Nat := []
  submitting : Option TaskId := none
  /-- In `execute_worker_orphan_handoff`, before its request. -/
  handoff : Bool := false
  deriving DecidableEq, Repr

/-- How far the thread that made the mode Immediate has got. -/
inductive Sweep where
  | idle
  | requested
  | queuesSwept
  | done
  deriving DecidableEq, Repr

structure Runtime (n : Nat) where
  workers : Fin n → Worker
  status : SchedulerStatus := {}
  stopRequested : Bool := false
  lifecycleMutex : Option (Fin n) := none
  /-- The control blocks of the accepted tasks. -/
  tasks : TaskId → Option TaskState := fun _ => none
  global : List Segment := []
  locals : Fin n → List Segment := fun _ => []
  claimedCount : Nat := 0
  timers : List Nat := []
  awaits : List Await := []
  nextAwait : Nat := 0
  sweep : Sweep := .idle
  /-- Admitted from outside and not yet published. -/
  inFlight : List TaskId := []
  /-- Handshakes that outside threads are about to trigger. -/
  outsideTriggers : List Nat := []
  /-- Coroutines whose resume an outside thread has made and not yet published. -/
  hands : List TaskId := []
  /-- The mode `join_workers_and_publish_stopped` has read and is about to store. -/
  joined : Option ShutdownMode := none

/-- Steps of threads outside the pool. -/
inductive OutsideStep where
  /-- `acquire` returns Success and a task id is allocated. -/
  | acquire (task : TaskId)
  | publish (task : TaskId)
  /-- `request_cancel`. -/
  | cancel (task : TaskId)
  /-- The target of an await completes elsewhere, or its waiter is cancelled. -/
  | resolve (await : Nat)
  | trigger (await : Nat)
  /-- A resume reaches the queues: posted outside of every task context, or flushed from
  the slot of another runtime's worker. -/
  | post (task : TaskId)
  /-- A resume in another runtime's worker's slot is overwritten. -/
  | drop (task : TaskId)
  /-- The exchange of `request_shutdown_mode`. -/
  | request (mode : ShutdownMode)
  /-- `cancel_all_unstarted_tasks_locked`. -/
  | sweepQueues
  /-- `cancel_all_timers`. -/
  | cancelTimers
  /-- The immediate callback of the registry sweeps again after its request. -/
  | finalize
  /-- `shutdown_sync` sets `stop_requested`. -/
  | stop
  /-- `join_workers_and_publish_stopped` has joined the workers and reads the mode. -/
  | joinWorkers
  /-- It stores Stopped with the mode it has read. -/
  | publishStopped
  deriving DecidableEq, Repr

inductive Source (n : Nat) where
  | global
  | local (worker : Fin n)
  deriving DecidableEq, Repr

/-- Steps of a worker.  `room` is false when a local push fails or the invoker belongs in
the global queues. -/
inductive WorkerStep (n : Nat) where
  | claim (source : Source n) (segment : Segment)
  /-- `gated` when the body of the invoker holds a guard of its own. -/
  | dispatch (gated : Bool)
  /-- `process_due_timers` takes a timer out. -/
  | dueTimer (await : Nat)
  | trigger (room : Bool)
  | beginWait (target : Target)
  | endWait
  | submit (task : TaskId)
  | publish (room : Bool)
  /-- `tcb_arm_task_await` and `tcb_arm_graph_await`; `resolved` when the trigger came
  before the arming. -/
  | await (target : Target) (resolved : Bool)
  /-- `tcb_arm_sleep`. -/
  | sleep (resolved : Bool)
  /-- `tcb_arm_yield`. -/
  | yield
  | finish (outcome : TaskState)
  | resolve (await : Nat)
  | cancel (task : TaskId)
  /-- Code on the worker resumes a coroutine of another runtime. -/
  | postElsewhere (impl : Impl) (segment : Segment)
  | segmentReturn (room : Bool)
  | handoff
  | handoffRequest
  | lock
  /-- The next read of the exit check. -/
  | check
  deriving DecidableEq, Repr

inductive Label (n : Nat) where
  | outside (step : OutsideStep)
  | worker (w : Fin n) (step : WorkerStep n)
  deriving DecidableEq, Repr

namespace Worker

/-- In the loop itself, outside of every invoker. -/
def topLevel (x : Worker) : Bool := x.loc = .loop ∧ x.frames = []

/-- In the helping loop of its innermost frame. -/
def helping (x : Worker) : Bool :=
  x.loc = .loop ∧ x.frames.head?.any fun frame => frame.waiting.isSome

/-- Running the code of its innermost frame. -/
def coding (x : Worker) : Bool :=
  x.loc = .loop ∧ x.triggers = [] ∧ x.submitting = none ∧ ¬ x.handoff ∧ ¬ x.unwinding ∧
    x.frames.head?.any fun frame => frame.waiting.isNone

/-- The task whose code it runs. -/
def task (x : Worker) : TaskId := HelpingWait.contextTask x.frames

end Worker

section Steps
variable {n : Nat} (own : Impl) (s : Runtime n)

def Runtime.setWorker (w : Fin n) (x : Worker) : Runtime n :=
  { s with workers := Function.update s.workers w x }

def Runtime.setTask (t : TaskId) (state : TaskState) : Runtime n :=
  { s with tasks := Function.update s.tasks t (some state) }

/-- `ReadyQueues::publish` from worker `w`. -/
def Runtime.enqueue (w : Fin n) (room : Bool) (segments : List Segment) : Runtime n :=
  if room then
    { s with locals := Function.update s.locals w (s.locals w ++ segments) }
  else { s with global := s.global ++ segments }

/-- `post_task_internal` on worker `w`. -/
def post (w : Fin n) (room : Bool) (impl : Impl) (segment : Segment) : Runtime n :=
  let x := s.workers w
  let (ctx, publication) := x.ctx.postTaskInternal impl (some segment) false
  (s.setWorker w { x with ctx := ctx }).enqueue w room (offered own publication)

/-- The awaits whose callbacks the completion of `t` runs. -/
def Runtime.awaitersOf (t : TaskId) : List Nat :=
  (s.awaits.filter fun a => a.target = .completion (.task t)).map Await.id

/-- `request_cancel`: a task that has not started becomes Cancelled, and its callbacks
are to be run. -/
def requestCancel (t : TaskId) : Runtime n × List Nat :=
  ({ s with tasks := if s.tasks t = some .ready then Function.update s.tasks t (some .cancelled)
                     else s.tasks },
    if s.tasks t = some .ready then s.awaitersOf t else [])

/-- `trigger` on a handshake: the first one takes the await and posts the resume. -/
def triggerOn (w : Fin n) (room : Bool) (await : Nat) : Runtime n :=
  match s.awaits.find? fun a => a.id = await with
  | none => s
  | some a => post own { s with awaits := s.awaits.erase a } w room own ⟨a.waiter, true⟩

/-- `transition_to_suspended`. -/
def Runtime.suspend (t : TaskId) : Runtime n :=
  { s with tasks := if s.tasks t = some .running then Function.update s.tasks t (some .suspended)
                    else s.tasks }

/-- `transition_to_running`. -/
def Runtime.resume (t : TaskId) : Runtime n :=
  { s with tasks := if s.tasks t = some .suspended ∨ s.tasks t = some .ready then
                      Function.update s.tasks t (some .running)
                    else s.tasks }

/-- The exchange of `request_shutdown_mode` on the status it has read. -/
def exchanged (mode : ShutdownMode) (status : SchedulerStatus) : Option SchedulerStatus :=
  match status.state with
  | .running => some ⟨.stopping, mode⟩
  | .stopping =>
    if mode = .immediate ∧ status.shutdownMode ≠ .immediate then some ⟨.stopping, .immediate⟩
    else none
  | .stopped => none

def requestShutdownMode (mode : ShutdownMode) : Runtime n :=
  match exchanged mode s.status with
  | none => s
  | some status =>
    { s with status := status, sweep := if mode = .immediate then .requested else s.sweep }

/-- The tasks whose first segment is in a queue. -/
def Runtime.queuedFirst : List TaskId :=
  ((s.global ++ (List.finRange n).flatMap s.locals).filter fun g => !g.resume).map Segment.task

/-- `cancel_unstarted`: what has not started is cancelled, the resumes of the local queues
move to the global ones.  The sweep holds `lifecycle_mutex` throughout, so no exit check
sees it half done, and what is published behind it counts as published after it. -/
def sweepQueues : Runtime n :=
  let swept := s.queuedFirst.filter fun t => s.tasks t = some .ready
  { s with
    tasks := fun t => if t ∈ swept then some .cancelled else s.tasks t
    global := (s.global ++ (List.finRange n).flatMap s.locals).filter Segment.resume
    locals := fun _ => []
    outsideTriggers := s.outsideTriggers ++ swept.flatMap s.awaitersOf }

/-- `acquire` for a thread outside the pool, and for a worker of it. -/
def admits (status : SchedulerStatus) (isInternal : Bool) : Bool :=
  match status.state with
  | .running => true
  | .stopping => isInternal && status.shutdownMode = .graceful
  | .stopped => false

/-- A fresh identity of this runtime. -/
def Runtime.fresh (t : TaskId) : Bool :=
  t.valid ∧ t.runtimeId = own.runtimeId ∧ s.tasks t = none

def outsideStep : OutsideStep → Option (Runtime n)
  | .acquire t =>
    if admits s.status false ∧ s.fresh own t then
      some { s.setTask t .ready with inFlight := t :: s.inFlight }
    else none
  | .publish t =>
    if t ∈ s.inFlight then
      some { s with inFlight := s.inFlight.erase t, global := s.global ++ [⟨t, false⟩] }
    else none
  | .cancel t =>
    let (s', ids) := requestCancel s t
    some { s' with outsideTriggers := s.outsideTriggers ++ ids }
  | .resolve id =>
    some { s with timers := s.timers.erase id, outsideTriggers := id :: s.outsideTriggers }
  | .trigger id =>
    if id ∈ s.outsideTriggers then
      let s' := { s with outsideTriggers := s.outsideTriggers.erase id }
      match s.awaits.find? fun a => a.id = id with
      | none => some s'
      | some a => some { s' with awaits := s.awaits.erase a, hands := a.waiter :: s.hands }
    else none
  | .post t =>
    if t ∈ s.hands then
      some { s with hands := s.hands.erase t, global := s.global ++ [⟨t, true⟩] }
    else none
  | .drop t => if t ∈ s.hands then some { s with hands := s.hands.erase t } else none
  | .request mode => if mode = .none then none else some (requestShutdownMode s mode)
  | .sweepQueues =>
    if s.sweep = .requested ∧ s.lifecycleMutex = none then
      some { sweepQueues s with sweep := .queuesSwept }
    else none
  | .finalize =>
    if (s.status.shutdownMode = .immediate ∨ s.status.state = .stopped) ∧
        s.lifecycleMutex = none then
      some { sweepQueues s with stopRequested := true }
    else none
  | .cancelTimers =>
    if s.sweep = .queuesSwept then
      some { s with
        timers := []
        outsideTriggers := s.outsideTriggers ++ s.timers
        sweep := .done }
    else none
  | .stop =>
    if s.status.state ≠ .running ∧ s.lifecycleMutex = none then
      some { s with stopRequested := true }
    else none
  | .joinWorkers =>
    if s.status.state = .stopping ∧ s.joined = none ∧ ∀ w, (s.workers w).loc = .exited then
      some { s with joined := some s.status.shutdownMode }
    else none
  | .publishStopped =>
    match s.joined with
    | some mode => some { s with status := ⟨.stopped, mode⟩, joined := none }
    | none => none

/-- `claim_local`, `steal` and `claim_global`; the global queues are claimed under
`lifecycle_mutex`, and by a helping loop only while new work may start. -/
def claim (w : Fin n) (source : Source n) (segment : Segment) : Option (Runtime n) :=
  let x := s.workers w
  let taken := { s.setWorker w { x with loc := .claimed segment } with
    claimedCount := s.claimedCount + 1 }
  match source with
  | .global =>
    if s.lifecycleMutex = none ∧ segment ∈ s.global ∧
        (x.helping → s.status.state ≠ .stopped ∧ s.status.shutdownMode ≠ .immediate) then
      some { taken with global := s.global.erase segment }
    else none
  | .local v =>
    if segment ∈ s.locals v then
      some { taken with
        locals := Function.update s.locals v ((s.locals v).erase segment) }
    else none

/-- `complete_claim`. -/
def Runtime.completeClaim : Runtime n := { s with claimedCount := s.claimedCount - 1 }

/-- What a worker does with a claimed invoker.  The loop itself cancels unstarted work in
Immediate mode; the helping loop executes whatever it has claimed. -/
def dispatch (w : Fin n) (segment : Segment) (gated : Bool) : Runtime n :=
  let x := s.workers w
  if s.status.shutdownMode = .immediate ∧ x.frames = [] ∧ ¬ segment.resume then
    let (s', ids) := requestCancel s segment.task
    (s'.setWorker w { x with loc := .loop, triggers := ids }).completeClaim
  else if ¬ segment.resume ∧ s.tasks segment.task ≠ some .ready then
    -- `try_start` fails: the task was cancelled in the queue
    (s.setWorker w { x with loc := .loop }).completeClaim
  else
    let (ctx, frame) := enterFrame x.ctx segment.task gated
    (s.resume segment.task).setWorker w
      { x with loc := .loop, ctx := ctx, frames := frame :: x.frames, unwinding := false }

/-- The current coroutine gives up the thread: at once resumable, or with an await. -/
def suspendOn (w : Fin n) (resolved : Bool) (target : AwaitTarget) : Runtime n :=
  let x := s.workers w
  let s' := (s.suspend x.task).setWorker w { x with unwinding := true }
  if resolved then post own s' w false own ⟨x.task, true⟩
  else
    { s' with
      awaits := s.awaits ++ [⟨s.nextAwait, x.task, target⟩]
      nextAwait := s.nextAwait + 1
      timers := if target = .timer then s.timers ++ [s.nextAwait] else s.timers }

/-- The worker leaves its loop. -/
def leave (w : Fin n) : Runtime n :=
  { s.setWorker w { s.workers w with loc := .exited } with lifecycleMutex := none }

/-- The worker goes back to its loop and releases the mutex. -/
def backToLoop (w : Fin n) : Runtime n :=
  { s.setWorker w { s.workers w with loc := .loop } with lifecycleMutex := none }

/-- `any_queued_work`, or `any_resume_work_after_immediate_cleanup`. -/
def Runtime.offersWork (immediate : Bool) : Bool :=
  (if immediate then s.global.any Segment.resume else !s.global.isEmpty) ||
    (List.finRange n).any fun v => !(s.locals v).isEmpty

/-- The reads of the exit check, in the order of the source. -/
def check (w : Fin n) : Option (Runtime n) :=
  let x := s.workers w
  match x.loc with
  | .locked =>
    if s.stopRequested then
      if s.status.state = .stopped then some (leave s w)
      else some (s.setWorker w { x with loc := .checking (s.status.shutdownMode = .immediate) })
    else some (backToLoop s w)
  | .checking immediate =>
    if s.offersWork immediate then some (backToLoop s w)
    else some (s.setWorker w { x with loc := .noWork immediate })
  | .noWork true => if s.claimedCount = 0 then some (leave s w) else some (backToLoop s w)
  | .noWork false =>
    if s.timers = [] then some (s.setWorker w { x with loc := .noTimers })
    else some (backToLoop s w)
  | .noTimers => if s.claimedCount = 0 then some (leave s w) else some (backToLoop s w)
  | _ => none

def workerStep (w : Fin n) : WorkerStep n → Option (Runtime n)
  | .claim source segment =>
    let x := s.workers w
    if (x.topLevel ∨ x.helping) ∧ x.triggers = [] then claim s w source segment else none
  | .dispatch gated =>
    match (s.workers w).loc with
    | .claimed segment => some (dispatch s w segment gated)
    | _ => none
  | .dueTimer id =>
    let x := s.workers w
    if x.topLevel ∧ id ∈ s.timers then
      some { s.setWorker w { x with triggers := x.triggers ++ [id] } with
        timers := s.timers.erase id }
    else none
  | .trigger room =>
    let x := s.workers w
    match x.loc, x.triggers with
    | .loop, id :: ids =>
      some (triggerOn own (s.setWorker w { x with triggers := ids }) w room id)
    | _, _ => none
  | .beginWait target =>
    let x := s.workers w
    match x.frames with
    | frame :: frames =>
      -- a direct self-wait throws before anything else happens
      if x.coding ∧ target ≠ .task frame.task then
        some (s.setWorker w { x with frames := { frame with waiting := some target } :: frames })
      else none
    | [] => none
  | .endWait =>
    let x := s.workers w
    match x.frames with
    | frame :: frames =>
      if x.helping then
        some (s.setWorker w { x with frames := { frame with waiting := none } :: frames })
      else none
    | [] => none
  | .submit t =>
    let x := s.workers w
    if x.coding ∧ admits s.status true ∧ s.fresh own t then
      some ((s.setTask t .ready).setWorker w { x with submitting := some t })
    else none
  | .publish room =>
    let x := s.workers w
    match x.submitting with
    | some t => some ((s.setWorker w { x with submitting := none }).enqueue w room [⟨t, false⟩])
    | none => none
  | .await target resolved =>
    let complete := match target with
      | .task t => (s.tasks t).any TaskState.terminal
      | .graphRun _ => false
    -- a callback added to a complete target runs at once
    if (s.workers w).coding ∧ (!complete || resolved) then
      some (suspendOn own s w resolved (.completion target))
    else none
  | .sleep resolved =>
    if (s.workers w).coding then some (suspendOn own s w resolved .timer) else none
  | .yield => if (s.workers w).coding then some (suspendOn own s w true .timer) else none
  | .finish outcome =>
    let x := s.workers w
    if x.coding ∧ outcome.terminal then
      some ((s.setTask x.task outcome).setWorker w
        { x with triggers := s.awaitersOf x.task, unwinding := true })
    else none
  | .resolve id =>
    let x := s.workers w
    if x.coding then
      some { s.setWorker w { x with triggers := [id] } with timers := s.timers.erase id }
    else none
  | .cancel t =>
    let x := s.workers w
    if x.coding then
      let (s', ids) := requestCancel s t
      some (s'.setWorker w { x with triggers := ids })
    else none
  | .postElsewhere impl segment =>
    let x := s.workers w
    if x.loc = .loop ∧ x.frames ≠ [] ∧ ¬ x.helping ∧ segment.resume ∧ segment.task.valid ∧
        impl ≠ own then
      some (post own s w false impl segment)
    else none
  | .segmentReturn room =>
    let x := s.workers w
    match x.frames with
    | frame :: frames =>
      if x.loc = .loop ∧ x.unwinding ∧ x.triggers = [] then
        let (ctx, segments) := exitFrame own x.ctx frame
        some ((s.setWorker w { x with ctx := ctx, frames := frames, unwinding := false }).enqueue
          w room segments).completeClaim
      else none
    | [] => none
  | .handoff =>
    let x := s.workers w
    if x.coding ∧ s.lifecycleMutex = none then
      some { s.setWorker w { x with handoff := true } with stopRequested := true }
    else none
  | .handoffRequest =>
    let x := s.workers w
    if x.handoff then
      some (requestShutdownMode (s.setWorker w { x with handoff := false }) .graceful)
    else none
  | .lock =>
    let x := s.workers w
    if x.topLevel ∧ x.triggers = [] ∧ s.lifecycleMutex = none then
      some { s.setWorker w { x with loc := .locked } with lifecycleMutex := some w }
    else none
  | .check => check s w

def step : Label n → Option (Runtime n)
  | .outside e => outsideStep own s e
  | .worker w e => workerStep own s w e

end Steps

/-- The thread-local variables of a worker that has reached its loop. -/
def workerContext (own : Impl) (index : Nat) : ThreadContext Segment where
  currentWorkerRuntimeId := own.runtimeId
  currentWorkerImpl := some own.address
  currentWorkerIndex := index

/-- A runtime that has just published Running. -/
def started (own : Impl) (n : Nat) : Runtime n where
  workers := fun w => { ctx := workerContext own w }

/-- The runtime at `own` with `n` workers, at least one, under every interleaving of its
threads. -/
def machine (own : Impl) (n : Nat) : Machine (Runtime n) (Label n) where
  init s := 0 < n ∧ s = started own n
  next := step own

/-- Every worker has left its loop. -/
def Runtime.AllExited {n : Nat} (s : Runtime n) : Prop := ∀ w, (s.workers w).loc = .exited

instance {n : Nat} (s : Runtime n) : Decidable s.AllExited :=
  inferInstanceAs (Decidable (∀ w, (s.workers w).loc = .exited))

end Drain
end AstraScheduler
