import AstraScheduler.MetricsStages
import AstraScheduler.TaskControlBlock

/-! # Tasks and what they record

Submitted callables and spawned coroutines from `acquire` to their outcome, on any number of
runtimes and under every interleaving of their threads.  Whoever moves a task on records it
in the metrics of the task's runtime, one update after the other; some of these records are
made under the mutex of the control block, the outcome is recorded after it is released.

An invoker that has been posted stays in one bag until it is executed or destroyed, wherever
it is: in a ready queue, in a deferred slot or in the hands of a worker that waits for the
suspension to be published. -/

namespace AstraScheduler
namespace TaskMetrics

open RuntimeMetrics

/-- How far the thread has got that has the task in hand.  An await is named by its index. -/
inductive Pc where
  /-- `acquire` has admitted the submission. -/
  | acquiring
  /-- `ReadyQueues::publish`. -/
  | publishing
  /-- The invoker is posted, and the task has not started. -/
  | posted
  /-- The callable is running, or a segment of the coroutine. -/
  | body
  /-- `tcb_arm_task_await`: `add_completion_callback` is next. -/
  | addCallback (await target : Nat)
  /-- The stop callback is next. -/
  | emplaceStop (await : Nat)
  /-- `transition_to_suspended` is next, for an await or for a yield. -/
  | suspend (await : Option Nat)
  | arm (await : Nat)
  /-- `tcb_arm_yield`: the rescheduler is next. -/
  | reschedule
  /-- `publish_await_suspend` is next. -/
  | publishSuspend
  | parked
  /-- `CoroutineResumeInvoker::execute` has set the task running; `tcb_finish_await` follows. -/
  | resuming
  /-- The body has ended; the callbacks are run after the outcome is recorded. -/
  | completed (completion : Completion) (callbacks : List Nat)
  /-- `request_cancel` came before the first start. -/
  | cancelled (callbacks : List Nat)
  deriving DecidableEq, Repr

/-- A task: its control block, and the thread that has it in hand. -/
structure Task where
  runtime : Nat
  isCoroutine : Bool
  deadline : Option Nat
  state : TaskState := .ready
  deadlineDisposition : DeadlineDisposition := .none
  stopRequested : Bool := false
  completionCallbacks : List Nat := []
  /-- The await whose stop callback is registered. -/
  stopCallback : Option Nat := none
  resumeHandoffSeq : Nat := 0
  suspendPublishedSeq : Nat := 0
  pc : Pc := .acquiring
  /-- Which worker of the task's runtime the recording thread is, if it is one. -/
  worker : Option Nat
  /-- What the thread has still to record. -/
  left : List Update
  deriving DecidableEq, Repr

/-- The handshake of an await and the task that awaits. -/
structure Await where
  waiter : Nat
  handshake : AwaitHandshake := {}
  deriving DecidableEq, Repr

inductive Posted where
  /-- A `SubmittedInvokerGate`. -/
  | gate (task : Nat)
  /-- A `CoroutineResumeInvoker`. -/
  | resume (task : Nat)
  deriving DecidableEq, Repr

structure State where
  metrics : Nat → RuntimeMetrics
  tasks : List Task := []
  awaits : List Await := []
  posted : List Posted := []

inductive Label where
  /-- `submit` or `spawn` on a runtime, once it is admitted. -/
  | submit (runtime : Nat) (isCoroutine : Bool) (deadline : Option Nat) (worker : Option Nat)
  /-- The thread of task `t` makes the next update of what it records. -/
  | update (t : Nat)
  /-- The thread of task `t` takes its next step outside of the body. -/
  | advance (t : Nat) (worker : Option Nat)
  /-- The `i`-th posted invoker is executed. -/
  | execute (i : Nat) (worker : Option Nat) (now : Nat)
  /-- The `i`-th posted invoker is cancelled and destroyed. -/
  | discard (i : Nat) (worker : Option Nat)
  | finish (t : Nat) (completion : Completion) (worker : Option Nat)
  /-- `co_await` of a handle whose task was not completed. -/
  | await (t target : Nat)
  | yield (t : Nat)
  | requestCancel (t : Nat) (worker : Option Nat)
  deriving DecidableEq, Repr

/-! ## The control block -/

/-- `TaskControlBlock::try_start` of a task that is Ready. -/
def Task.start (task : Task) (now : Nat) : Task :=
  { task with
    state := .running
    deadlineDisposition :=
      match task.deadline, task.deadlineDisposition with
      | some deadline, .none => if now ≤ deadline then .met else .missed
      | _, disposition => disposition
    pc := .body }

namespace State
variable (s : State)

def setTask (t : Nat) (task : Task) : State := { s with tasks := s.tasks.set t task }

/-- The thread of task `t` has made a transition and starts to record it. -/
def begin (t : Nat) (task : Task) (worker : Option Nat) (updates : List Update) : State :=
  s.setTask t { task with
    worker := worker
    left := record (s.metrics task.runtime).level updates }

/-- An operation on the handshake of an await; the resume action hands an invoker to the
rescheduler of the task that awaits. -/
def onHandshake (h : Nat) (op : AwaitHandshake → AwaitHandshake × Bool) : State :=
  match s.awaits[h]? with
  | some await =>
    let (handshake, posts) := op await.handshake
    { s with
      awaits := s.awaits.set h { await with handshake := handshake }
      posted := s.posted ++ if posts then [.resume await.waiter] else [] }
  | none => s

/-- `TaskControlBlock::request_cancel`. -/
def requestCancel (t : Nat) (task : Task) (worker : Option Nat) : State :=
  -- `request_stop` runs the stop callback the first time
  let s :=
    match task.stopRequested, task.stopCallback with
    | false, some h => s.onHandshake h AwaitHandshake.triggerCancel
    | _, _ => s
  if task.state = .ready then
    s.begin t { task with
      stopRequested := true
      state := .cancelled
      completionCallbacks := []
      pc := .cancelled task.completionCallbacks } worker
        (recordCancelledBeforeStart task.deadline.isSome)
  else s.setTask t { task with stopRequested := true }

/-- `execute` of the `i`-th posted invoker. -/
def execute (i : Nat) (worker : Option Nat) (now : Nat) : Option State :=
  match s.posted[i]? with
  | some (.gate t) =>
    (s.tasks[t]?).map fun task =>
      let s := { s with posted := s.posted.eraseIdx i }
      if task.state = .ready then
        let task := task.start now
        s.begin t task worker
          (recordFirstStart (if task.deadline.isSome then some task.deadlineDisposition else none))
      else s.requestCancel t task worker
  | some (.resume t) =>
    match s.tasks[t]? with
    | some task =>
      -- `wait_for_await_suspend_publication`
      if task.resumeHandoffSeq ≤ task.suspendPublishedSeq then
        -- `transition_to_running`
        let state := if task.state = .suspended ∨ task.state = .ready then .running else task.state
        some ({ s with posted := s.posted.eraseIdx i }.begin t
          { task with state := state, pc := .resuming } worker
            (recordResumed ++ recordResumeSegment))
      else none
    | none => none
  | none => none

/-- A drained gate is cancelled; a resume that is drained, or overwritten in a deferred slot,
is just destroyed. -/
def discard (i : Nat) (worker : Option Nat) : Option State :=
  match s.posted[i]? with
  | some (.gate t) =>
    (s.tasks[t]?).map fun task =>
      { s with posted := s.posted.eraseIdx i }.requestCancel t task worker
  | some (.resume _) => some { s with posted := s.posted.eraseIdx i }
  | none => none

/-- The next step of the thread that has task `t` in hand. -/
def advance (t : Nat) (task : Task) (worker : Option Nat) : Option State :=
  match task.pc with
  | .acquiring =>
    some (s.begin t { task with pc := .publishing } worker
      (recordPublished task.deadline.isSome))
  | .publishing =>
    some { s.setTask t { task with pc := .posted } with posted := s.posted ++ [.gate t] }
  | .posted | .body | .parked => none
  | .addCallback h target =>
    (s.tasks[target]?).map fun other =>
      let s :=
        if other.state.terminal then s.onHandshake h AwaitHandshake.trigger
        else s.setTask target
          { other with completionCallbacks := other.completionCallbacks ++ [h] }
      s.setTask t { task with pc := .emplaceStop h }
  | .emplaceStop h =>
    if task.stopRequested then
      some ((s.onHandshake h AwaitHandshake.triggerCancel).setTask t
        { task with pc := .suspend (some h) })
    else some (s.setTask t { task with stopCallback := some h, pc := .suspend (some h) })
  | .suspend await =>
    let pc := match await with
      | some h => .arm h
      | none => .reschedule
    -- `transition_to_suspended`
    if task.state = .running then
      some (s.begin t { task with state := .suspended, pc := pc } worker recordSuspended)
    else some (s.setTask t { task with pc := pc })
  | .arm h =>
    some ((s.onHandshake h AwaitHandshake.arm).setTask t { task with pc := .publishSuspend })
  | .reschedule =>
    some { s.setTask t { task with
        resumeHandoffSeq := task.resumeHandoffSeq + 1
        pc := .publishSuspend } with
      posted := s.posted ++ [.resume t] }
  | .publishSuspend =>
    some (s.setTask t { task with
      suspendPublishedSeq := task.resumeHandoffSeq
      pc := .parked })
  | .resuming => some (s.setTask t { task with stopCallback := none, pc := .body })
  | .completed completion (h :: callbacks) =>
    some ((s.onHandshake h AwaitHandshake.trigger).setTask t { task with
      pc := .completed completion callbacks })
  | .cancelled (h :: callbacks) =>
    some ((s.onHandshake h AwaitHandshake.trigger).setTask t { task with pc := .cancelled callbacks })
  | .completed _ [] | .cancelled [] => none

/-- The body of task `t` is running, and its start is recorded. -/
def inBody (task : Task) : Bool := task.pc = .body ∧ task.left = []

def step : Label → Option State
  | .submit runtime isCoroutine deadline worker =>
    some { s with tasks := s.tasks ++ [{
      runtime := runtime
      isCoroutine := isCoroutine
      deadline := deadline
      worker := worker
      left := record (s.metrics runtime).level (recordAcquired 1) }] }
  | .update t =>
    match s.tasks[t]? with
    | some task =>
      match task.left with
      | u :: left =>
        some { s.setTask t { task with left := left } with
          metrics := Function.update s.metrics task.runtime
            ((s.metrics task.runtime).apply task.worker u) }
      | [] => none
    | none => none
  | .advance t worker =>
    match s.tasks[t]? with
    | some task => if task.left = [] then s.advance t task worker else none
    | none => none
  | .execute i worker now => s.execute i worker now
  | .discard i worker => s.discard i worker
  | .finish t completion worker =>
    match s.tasks[t]? with
    | some task =>
      if inBody task then
        some (s.begin t { task with
          state := completion.state
          completionCallbacks := []
          pc := .completed completion task.completionCallbacks } worker
            (recordOutcome completion.counter))
      else none
    | none => none
  | .await t target =>
    match s.tasks[t]? with
    | some task =>
      if inBody task ∧ task.isCoroutine ∧ ¬ task.stopRequested ∧ target ≠ t ∧
          target < s.tasks.length then
        some { s.setTask t { task with
            resumeHandoffSeq := task.resumeHandoffSeq + 1
            pc := .addCallback s.awaits.length target } with
          awaits := s.awaits ++ [{ waiter := t }] }
      else none
    | none => none
  | .yield t =>
    match s.tasks[t]? with
    | some task =>
      if inBody task ∧ task.isCoroutine ∧ ¬ task.stopRequested then
        some (s.setTask t { task with pc := .suspend none })
      else none
    | none => none
  | .requestCancel t worker =>
    match s.tasks[t]? with
    | some task =>
      -- nobody has a handle before the invoker is posted
      if task.pc ≠ .acquiring ∧ task.pc ≠ .publishing then some (s.requestCancel t task worker)
      else none
    | none => none

end State

/-- Runtimes on which nothing has been submitted yet. -/
structure Initial (s : State) : Prop where
  metrics : ∀ r, ∃ level workerCount, s.metrics r = RuntimeMetrics.init level workerCount
  tasks : s.tasks = []
  awaits : s.awaits = []
  posted : s.posted = []

def machine : Transition.Machine State Label where
  init := Initial
  next := State.step

end TaskMetrics
end AstraScheduler
