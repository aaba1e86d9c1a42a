import AstraScheduler.HandshakeCalls
import AstraScheduler.MetricsRecords

/-! # The four ways to suspend

`await_suspend` of the built-in awaiters (`include/astra/coroutine.hpp`) with the `tcb_arm_*`
functions behind them (`src/task/await_protocol.cpp`), as the operations they execute one after
the other, and what other threads do meanwhile: cancel the task, complete what it awaits, take
its timer out of the queue.

An operation that may throw is an operation that may fail.  The exception then leaves
`await_suspend`, and on its way destroys the token and with it the stop callback; the
destructor waits for a callback that another thread executes.  `mark_resume_handoff` and
`publish_await_suspend`, which hold a resume back until `await_suspend` has returned, are left
out, and so is the resume itself. -/

namespace AstraScheduler
namespace AwaitSuspend
open AwaitHandshake (Calls Call)

inductive AwaitKind where
  | task
  | graph
  | yield
  | sleep
  deriving DecidableEq, Repr

inductive Op where
  /-- A check that throws `logic_error`: no control block, a wait for itself, no timers. -/
  | require
  /-- `if (stop_requested()) throw task_cancelled{}`, before anything is set up. -/
  | checkStop
  /-- `if (wake_time <= now) return false`. -/
  | checkDue
  /-- Objects and closures are made; each may throw `bad_alloc`. -/
  | allocate
  /-- `add_completion_callback` of the task or the run. -/
  | addCompletion
  /-- `stop_cb.emplace`. -/
  | emplaceStop
  | transitionToSuspended
  /-- The second `stop_requested()` of a sleep: `stop_cb.reset()` and `throw task_cancelled{}`. -/
  | recheckStop
  /-- The insertion into the queue's map, behind that into its heap. -/
  | registerTimer
  /-- `ctx->timer_id.store`. -/
  | storeTimerId
  /-- `if (ctx->cancelled || stop_requested()) canceller(tid)`.  The flag is set only behind a
  stop request. -/
  | cancelIfStopped
  /-- `AwaitHandshake::arm`. -/
  | arm
  /-- The invoker is made and given to the rescheduler. -/
  | reschedule
  deriving DecidableEq, Repr

/-- `TaskHandleAwaiter::await_suspend` and `tcb_arm_task_await`. -/
def taskAwait : List Op :=
  [.require, .require, .checkStop, .require, .allocate, .addCompletion, .allocate, .emplaceStop,
    .transitionToSuspended, .arm]

/-- `GraphRunAwaiter::await_suspend` and `tcb_arm_graph_await`. -/
def graphAwait : List Op :=
  [.require, .require, .checkStop, .require, .allocate, .addCompletion, .allocate, .emplaceStop,
    .transitionToSuspended, .arm]

/-- `YieldAwaiter::await_suspend` and `tcb_arm_yield`. -/
def yieldAwait : List Op :=
  [.require, .checkStop, .require, .transitionToSuspended, .allocate, .reschedule]

/-- `SleepAwaiter::await_suspend` and `tcb_arm_sleep`. -/
def sleepAwait : List Op :=
  [.require, .checkStop, .checkDue, .require, .allocate, .require, .transitionToSuspended,
    .allocate, .emplaceStop, .recheckStop, .allocate, .registerTimer, .storeTimerId,
    .cancelIfStopped, .arm]

def AwaitKind.program : AwaitKind → List Op
  | .task => taskAwait
  | .graph => graphAwait
  | .yield => yieldAwait
  | .sleep => sleepAwait

inductive Pc where
  | doing (todo : List Op)
  /-- `add_completion_callback` has found the awaited completed and executes the callback, the
  handshake's `i`-th trigger. -/
  | inCompletion (i : Nat) (todo : List Op)
  /-- `emplace` has found a stop request and executes the callback. -/
  | inCallback (todo : List Op)
  | returned
  /-- The wake time had come; the coroutine goes on. -/
  | declined
  | threw
  deriving DecidableEq, Repr

/-- Where the stop callback is. -/
inductive CallbackPc where
  | unset
  | registered
  /-- In that of a sleep, `ctx->cancelled.store` is next. -/
  | storing
  | loading
  /-- With what `ctx->timer_id` was: an id or none. -/
  | cancelling (found : Bool)
  | calling
  /-- In `trigger_cancel`, the handshake's `i`-th call. -/
  | triggering (i : Nat)
  | finished
  | removed
  deriving DecidableEq, Repr

/-- Where the callback is that waits for the completion of the awaited. -/
inductive Completion where
  | absent
  | listed
  | taken
  deriving DecidableEq, Repr

inductive TimerPlace where
  | absent
  | queued
  | out
  deriving DecidableEq, Repr

end AwaitSuspend

open AwaitSuspend
open AwaitHandshake (Calls Call)
open RuntimeMetrics (record recordSuspended)

/-- One await.  Updates of the metrics by other tasks are left out. -/
structure AwaitSuspend where
  kind : AwaitKind
  /-- The thread that executes the coroutine. -/
  worker : Option Nat
  metrics : RuntimeMetrics
  task : TaskState := .running
  stopRequested : Bool := false
  /-- The awaited task or run is completed. -/
  awaitedDone : Bool := false
  calls : Calls := {}
  callback : CallbackPc := .unset
  completion : Completion := .absent
  timer : TimerPlace := .absent
  /-- `ctx->timer_id` and `ctx->cancelled`. -/
  idStored : Bool := false
  cancelled : Bool := false
  /-- The resume segments of a yield. -/
  rescheduled : Nat := 0
  pc : Pc

namespace AwaitSuspend

inductive Label where
  | next
  /-- The next operation throws. -/
  | fails
  /-- The wake time has come. -/
  | due
  /-- `request_cancel` of the waiter. -/
  | requestCancel
  | callback
  /-- A step of the handshake's `i`-th call of `trigger` or `trigger_cancel`. -/
  | trigger (i : Nat) (spurious : Bool)
  /-- The awaited completes and takes its callbacks. -/
  | complete
  /-- `process_due_timers` or `cancel_all_timers` takes the timer. -/
  | takeTimer (cancel : Bool)
  deriving DecidableEq, Repr

/-- `TaskControlBlock::transition_to_suspended`. -/
def transitionToSuspended (s : AwaitSuspend) : AwaitSuspend :=
  if s.task = .running then
    { s with
      task := .suspended
      metrics := (record s.metrics.level recordSuspended).foldl
        (fun metrics update => metrics.apply s.worker update) s.metrics }
  else s

/-- The exception leaves `await_suspend`. -/
def unwind (s : AwaitSuspend) : Option AwaitSuspend :=
  match s.callback with
  | .registered => some { s with pc := .threw, callback := .removed }
  | .unset | .finished | .removed => some { s with pc := .threw }
  | .storing | .loading | .cancelling _ | .calling | .triggering _ => none

/-- `canceller(tid)`. -/
def cancelTimer (s : AwaitSuspend) : AwaitSuspend :=
  if s.timer = .queued then { s with timer := .out } else s

def stepOp (s : AwaitSuspend) (todo : List Op) : Op → Option AwaitSuspend
  | .require | .checkDue | .allocate => some { s with pc := .doing todo }
  | .checkStop => some { s with pc := if s.stopRequested then .threw else .doing todo }
  | .addCompletion =>
    if s.awaitedDone then
      some { s with
        calls := s.calls.begin false 1
        pc := .inCompletion s.calls.triggers.length todo }
    else some { s with completion := .listed, pc := .doing todo }
  | .emplaceStop =>
    if s.stopRequested then
      some { s with
        callback := if s.kind = .sleep then .storing else .calling
        pc := .inCallback todo }
    else some { s with callback := .registered, pc := .doing todo }
  | .transitionToSuspended => some { s.transitionToSuspended with pc := .doing todo }
  | .recheckStop => if s.stopRequested then s.unwind else some { s with pc := .doing todo }
  | .registerTimer => some { s with timer := .queued, pc := .doing todo }
  | .storeTimerId => some { s with idStored := true, pc := .doing todo }
  | .cancelIfStopped =>
    some { (if s.cancelled ∨ s.stopRequested then s.cancelTimer else s) with pc := .doing todo }
  | .arm =>
    s.calls.stepArm.map fun calls =>
      { s with calls := calls, pc := .doing (if calls.arm = .returned then todo else .arm :: todo) }
  | .reschedule => some { s with rescheduled := s.rescheduled + 1, pc := .doing todo }

def stepNext (s : AwaitSuspend) : Option AwaitSuspend :=
  match s.pc with
  | .doing [] => some { s with pc := .returned }
  | .doing (op :: todo) => s.stepOp todo op
  | .inCompletion i todo =>
    if (s.calls.triggers[i]?.map Call.pc) = some .returned then
      some { s with pc := .doing todo }
    else none
  | .inCallback todo => if s.callback = .finished then some { s with pc := .doing todo } else none
  | .returned | .declined | .threw => none

/-- May the operation throw?  `arm` throws only out of the resume action. -/
def mayFail (s : AwaitSuspend) : Op → Bool
  | .require | .allocate | .registerTimer | .reschedule => true
  | .addCompletion => !s.awaitedDone
  | .arm => s.calls.arm = .posting
  | .checkStop | .checkDue | .emplaceStop | .transitionToSuspended | .recheckStop | .storeTimerId
  | .cancelIfStopped => false

def stepFails (s : AwaitSuspend) : Option AwaitSuspend :=
  match s.pc with
  | .doing (op :: _) =>
    if s.mayFail op then
      -- The heap keeps an entry that the map has no room for.
      if op = .registerTimer then { s with timer := .queued }.unwind else s.unwind
    else none
  | .doing [] | .inCompletion _ _ | .inCallback _ | .returned | .declined | .threw => none

def stepDue (s : AwaitSuspend) : Option AwaitSuspend :=
  match s.pc with
  | .doing (.checkDue :: _) => some { s with pc := .declined }
  | _ => none

def stepCallback (s : AwaitSuspend) : Option AwaitSuspend :=
  match s.callback with
  | .registered =>
    if s.stopRequested then
      some { s with callback := if s.kind = .sleep then .storing else .calling }
    else none
  | .storing => some { s with callback := .loading, cancelled := true }
  | .loading => some { s with callback := .cancelling s.idStored }
  | .cancelling found =>
    some { (if found then s.cancelTimer else s) with callback := .calling }
  | .calling =>
    some { s with
      callback := .triggering s.calls.triggers.length
      calls := s.calls.begin true 1 }
  | .triggering i =>
    if (s.calls.triggers[i]?.map Call.pc) = some .returned then
      some { s with callback := .finished }
    else none
  | .unset | .finished | .removed => none

def stepComplete (s : AwaitSuspend) : AwaitSuspend :=
  if s.completion = .listed then
    { s with awaitedDone := true, completion := .taken, calls := s.calls.begin false 1 }
  else { s with awaitedDone := true }

def step (s : AwaitSuspend) : Label → Option AwaitSuspend
  | .next => s.stepNext
  | .fails => s.stepFails
  | .due => s.stepDue
  | .requestCancel => some { s with stopRequested := true }
  | .callback => s.stepCallback
  | .trigger i spurious =>
    (s.calls.stepTrigger i spurious).map fun calls => { s with calls := calls }
  | .complete => some s.stepComplete
  | .takeTimer cancel =>
    if s.timer = .queued then some { s with timer := .out, calls := s.calls.begin cancel 1 }
    else none

/-- The coroutine executes and calls `await_suspend`; stop may have been requested and the
awaited may be completed. -/
structure Initial (s : AwaitSuspend) : Prop where
  task : s.task = .running
  calls : s.calls = {}
  callback : s.callback = .unset
  completion : s.completion = .absent
  timer : s.timer = .absent
  rescheduled : s.rescheduled = 0
  pc : s.pc = .doing s.kind.program

def machine : Transition.Machine AwaitSuspend Label where
  init := Initial
  next := step

/-- Nothing is left of the await. -/
structure RolledBack (before s : AwaitSuspend) : Prop where
  task : s.task = .running
  runningTasks : s.metrics.gauges .runningTasks = before.metrics.gauges .runningTasks
  suspendedTasks : s.metrics.gauges .suspendedTasks = before.metrics.gauges .suspendedTasks
  callback : s.callback = .unset ∨ s.callback = .finished ∨ s.callback = .removed
  completion : s.completion ≠ .listed
  timer : s.timer ≠ .queued
  /-- Nobody resumes the coroutine. -/
  posts : s.calls.posts = 0 ∧ s.rescheduled = 0

/-- The operation that is next. -/
def Pc.op : Pc → Option Op
  | .doing (op :: _) => some op
  | .doing [] | .inCompletion _ _ | .inCallback _ | .returned | .declined | .threw => none

/-- The suspension is not committed yet and nobody else knows of it: an exception of `fails`
comes before `transition_to_suspended` and not while a completion callback is listed, and the
second check of a sleep finds no stop request. -/
def Timely (s : AwaitSuspend) : Label → Prop
  | .fails => s.task = .running ∧ s.completion ≠ .listed
  | .next => s.pc.op = some .recheckStop → s.stopRequested = false
  | .due | .requestCancel | .callback | .trigger _ _ | .complete | .takeTimer _ => True

instance (s : AwaitSuspend) : (label : Label) → Decidable (Timely s label)
  | .fails => inferInstanceAs (Decidable (_ ∧ _))
  | .next => inferInstanceAs (Decidable (_ → _))
  | .due | .requestCancel | .callback | .trigger _ _ | .complete | .takeTimer _ => .isTrue trivial

end AwaitSuspend
end AstraScheduler
