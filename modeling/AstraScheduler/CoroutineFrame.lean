import AstraScheduler.TaskControlBlock
import AstraScheduler.Transition

/-! # One spawned coroutine and everybody who may touch its frame

The frame of a spawned coroutine is touched through invokers only.  The first is
`CoroutineTaskInvokerModel` behind its `SubmittedInvokerGate`; every further one is a
`CoroutineResumeInvoker` that some await posted.  Executing an invoker is a *segment*: it
resumes the frame, the body runs until it suspends or ends, and afterwards the segment
compares `resume_handoff_seq` with the value it read before to find out whether the frame
is still its own.

A suspension goes through one of the awaiters.  It marks the hand-off, makes the resume
action reachable for others (completion callback, timer, stop callback), arms the handshake
and publishes the suspension.  From the marking on others act at any time; whatever they do
happens between any two steps of the segment.  A trigger may come late, early or several
times, and cancellation triggers may come with or without a request: the environment here
is at least as free as the callbacks, timers and stop callbacks of the source.

The two sequence numbers are 64 bits wide in the source; they count the suspensions of one
coroutine and do not wrap. -/

namespace AstraScheduler
namespace CoroutineFrame

open Transition (Machine)

/-! ## Segments -/

/-- The built-in awaiters by what they do: `TaskHandleAwaiter` and `GraphRunAwaiter`,
`SleepAwaiter`, `YieldAwaiter`. -/
inductive AwaitKind
  | target
  | sleep
  | yield
  deriving DecidableEq, Repr

/-- Where the body of the coroutine is; `h` is the await whose handshake is used. -/
inductive Body
  /-- User code between two awaits. -/
  | code
  /-- `tcb_arm_task_await`, `tcb_arm_graph_await`: `mark_resume_handoff` is next. -/
  | targetMark (h : Nat)
  /-- Callback and stop callback are registered; `transition_to_suspended` is next. -/
  | targetSuspend (h : Nat)
  /-- `tcb_arm_sleep`: `transition_to_suspended` is next. -/
  | sleepSuspend (h : Nat)
  /-- The stop callback is registered; the stop request is looked at once more. -/
  | sleepCheck (h : Nat)
  | sleepMark (h : Nat)
  /-- Everything is registered; `AwaitHandshake::arm` is next. -/
  | arm (h : Nat)
  /-- `tcb_arm_yield`: `transition_to_suspended` is next. -/
  | yieldSuspend
  | yieldMark
  /-- The rescheduler is called next. -/
  | yieldPost
  /-- `publish_await_suspend` is next; `await_suspend` then returns true. -/
  | publish
  /-- The result is stored; `final_suspend` is next. -/
  | completed
  deriving DecidableEq, Repr

/-- Where an invoker is; `before` is its `handoff_seq_before`. -/
inductive Pc
  /-- In a queue, in the deferred slot of a thread, or just claimed. -/
  | queued
  /-- The gate: `try_start` returned false, `cancel_pre_start` is next. -/
  | refused
  /-- The gate: `abandon_unstarted` is next. -/
  | abandon
  /-- A resume in `wait_for_await_suspend_publication`, with the number it waits for. -/
  | awaiting (need : Nat)
  /-- A resume: `transition_to_running` is next. -/
  | toRunning
  /-- `handoff_seq_before` is read next. -/
  | readSeq
  /-- `coro.done()` is read next. -/
  | checkDone (before : Nat)
  /-- `coro.resume()` is next. -/
  | resume (before : Nat)
  | inBody (before : Nat) (body : Body)
  /-- The frame was left; the sequence number is compared next. -/
  | returned (before : Nat)
  /-- No hand-off: `coro.done()` is read next. -/
  | checkFinal
  /-- `coro.destroy()` is next. -/
  | destroy
  /-- Executed, or destroyed without being executed. -/
  | ended
  deriving DecidableEq, Repr

/-- An invoker and the suspension it was posted for; that of the first one is 0. -/
structure Segment where
  suspension : Nat
  pc : Pc
  deriving DecidableEq, Repr

/-- A handshake and the suspension it belongs to, from the marking on. -/
structure Await where
  handshake : AwaitHandshake := {}
  suspension : Nat := 0
  deriving DecidableEq, Repr

/-- What the frame is doing. -/
inductive Place
  /-- At its initial suspension. -/
  | cold
  /-- Segment `i` is in the body, or in `await_suspend` ahead of the publication. -/
  | inBody (i : Nat)
  | atAwait
  /-- At final suspend: `done()` holds. -/
  | final
  | destroyed
  deriving DecidableEq, Repr

structure Run where
  state : TaskState := .ready
  stopRequested : Bool := false
  /-- `resume_handoff_seq_`. -/
  seq : Nat := 0
  /-- `suspend_published_seq_`. -/
  published : Nat := 0
  awaits : List Await := []
  /-- The gate is the first segment. -/
  segments : List Segment := [⟨0, .queued⟩]
  place : Place := .cold
  /-- How often the frame was destroyed. -/
  destroys : Nat := 0
  deriving DecidableEq, Repr

/-! ## What the steps do -/

namespace Run
variable (s : Run)

/-- Segment `i` goes on to `pc`. -/
def goto (i : Nat) (pc : Pc) : Run :=
  { s with segments := s.segments.modify i fun g => { g with pc := pc } }

/-- The rescheduler gets a new resume invoker. -/
def post (suspension : Nat) : Run :=
  { s with segments := s.segments ++ [⟨suspension, .queued⟩] }

/-- `TaskControlBlock::request_cancel`. -/
def requestCancel : Run :=
  if s.state = .ready then { s with stopRequested := true, state := .cancelled }
  else { s with stopRequested := true }

/-- `transition_to_suspended`. -/
def toSuspended : Run :=
  if s.state = .running then { s with state := .suspended } else s

/-- `transition_to_running`. -/
def toRunning : Run :=
  if s.state = .suspended ∨ s.state = .ready then { s with state := .running } else s

/-- `coro.destroy()`. -/
def destroyFrame : Run := { s with place := .destroyed, destroys := s.destroys + 1 }

/-- `mark_resume_handoff`, on behalf of await `h`. -/
def mark (h : Nat) : Run :=
  { s with
    seq := s.seq + 1
    awaits := s.awaits.modify h fun a => { a with suspension := s.seq + 1 } }

/-- A handshake is made for one await. -/
def newAwait : Run := { s with awaits := s.awaits ++ [{}] }

/-- One operation on the handshake of await `h`; the resume action posts if it is called. -/
def shake (op : AwaitHandshake → AwaitHandshake × Bool) (h : Nat) : Run :=
  match s.awaits[h]? with
  | none => s
  | some a =>
    let s' := { s with awaits := s.awaits.set h { a with handshake := (op a.handshake).1 } }
    if (op a.handshake).2 then s'.post a.suspension else s'

end Run

/-- The next step of segment `i` inside the body; what user code does is chosen by other
labels. -/
def bodyStep (s : Run) (i before : Nat) : Body → Option Run
  | .code => none
  | .targetMark h => some ((s.mark h).goto i (.inBody before (.targetSuspend h)))
  | .targetSuspend h => some (s.toSuspended.goto i (.inBody before (.arm h)))
  | .sleepSuspend h => some (s.toSuspended.goto i (.inBody before (.sleepCheck h)))
  | .sleepCheck h =>
    -- with a stop request the stop callback is taken back and `task_cancelled` thrown
    if s.stopRequested then some (s.goto i (.inBody before .code))
    else some (s.goto i (.inBody before (.sleepMark h)))
  | .sleepMark h => some ((s.mark h).goto i (.inBody before (.arm h)))
  | .arm h => some ((s.shake AwaitHandshake.arm h).goto i (.inBody before .publish))
  | .yieldSuspend => some (s.toSuspended.goto i (.inBody before .yieldMark))
  | .yieldMark => some ({ s with seq := s.seq + 1 }.goto i (.inBody before .yieldPost))
  | .yieldPost => some ((s.post s.seq).goto i (.inBody before .publish))
  | .publish =>
    some ({ s with published := s.seq, place := .atAwait }.goto i (.returned before))
  | .completed => some ({ s with place := .final }.goto i (.returned before))

/-- The next step of segment `i`. -/
def advance (s : Run) (i : Nat) (g : Segment) : Option Run :=
  match g.pc with
  | .queued =>
    if g.suspension = 0 then
      -- `SubmittedInvokerGate::execute` begins with `try_start`
      if s.state = .ready then some ({ s with state := .running }.goto i .readSeq)
      else some (s.goto i .refused)
    else some (s.goto i (.awaiting s.seq))
  | .refused => some (s.requestCancel.goto i .abandon)
  | .abandon => some (s.destroyFrame.goto i .ended)
  | .awaiting need => if need ≤ s.published then some (s.goto i .toRunning) else none
  | .toRunning => some (s.toRunning.goto i .readSeq)
  | .readSeq => some (s.goto i (.checkDone s.seq))
  | .checkDone before =>
    if s.place = .final then some (s.goto i (.returned before))
    else some (s.goto i (.resume before))
  | .resume before => some ({ s with place := .inBody i }.goto i (.inBody before .code))
  | .inBody before body => bodyStep s i before body
  | .returned before =>
    if s.seq ≠ before then some (s.goto i .ended) else some (s.goto i .checkFinal)
  | .checkFinal =>
    if s.place = .final then some (s.goto i .destroy) else some (s.goto i .ended)
  | .destroy => some (s.destroyFrame.goto i .ended)
  | .ended => none

/-- How the body ends. -/
inductive Outcome
  | succeeded
  | failed
  | cancelled
  deriving DecidableEq, Repr

def Outcome.state : Outcome → TaskState
  | .succeeded => .succeeded
  | .failed => .failed
  | .cancelled => .cancelled

/-- The first step of an await, from user code.  A requested stop throws instead. -/
def beginAwait (s : Run) (i before : Nat) (kind : AwaitKind) : Run :=
  if s.stopRequested then s
  else
    match kind with
    | .target => s.newAwait.goto i (.inBody before (.targetMark s.awaits.length))
    | .sleep => s.newAwait.goto i (.inBody before (.sleepSuspend s.awaits.length))
    | .yield => s.goto i (.inBody before .yieldSuspend)

inductive Label
  /-- Segment `i` takes its next step. -/
  | advance (i : Nat)
  /-- User code in segment `i` awaits. -/
  | beginAwait (i : Nat) (kind : AwaitKind)
  /-- The body ends: `return_value`, `return_void` or `unhandled_exception`. -/
  | complete (i : Nat) (outcome : Outcome)
  /-- An allocation fails between marking and arming and throws into the body. -/
  | armThrows (i : Nat)
  /-- The awaited completion, or the timer, triggers await `h`. -/
  | trigger (h : Nat)
  /-- A stop callback, or `cancel_all_timers`, triggers await `h`. -/
  | triggerCancel (h : Nat)
  | requestCancel
  /-- `ReadyQueues::cancel_unstarted`, or the Immediate branch of the worker loop: only
  `cancel_pre_start` is called, then the invoker is destroyed. -/
  | discard (i : Nat)
  /-- A resume invoker is destroyed unexecuted (an overwritten deferred slot). -/
  | lose (i : Nat)
  deriving DecidableEq, Repr

def next (s : Run) : Label → Option Run
  | .advance i => s.segments[i]?.bind (advance s i)
  | .beginAwait i kind =>
    match s.segments[i]? with
    | some ⟨_, .inBody before .code⟩ => some (beginAwait s i before kind)
    | _ => none
  | .complete i outcome =>
    match s.segments[i]? with
    | some ⟨_, .inBody before .code⟩ =>
      some ({ s with state := outcome.state }.goto i (.inBody before .completed))
    | _ => none
  | .armThrows i =>
    match s.segments[i]? with
    | some ⟨_, .inBody before (.targetSuspend _)⟩ | some ⟨_, .inBody before (.arm _)⟩
    | some ⟨_, .inBody before .yieldPost⟩ => some (s.goto i (.inBody before .code))
    | _ => none
  | .trigger h => some (s.shake AwaitHandshake.trigger h)
  | .triggerCancel h => some (s.shake AwaitHandshake.triggerCancel h)
  | .requestCancel => some s.requestCancel
  | .discard i =>
    match s.segments[i]? with
    | some ⟨0, .queued⟩ => some (s.requestCancel.goto i .ended)
    | _ => none
  | .lose i =>
    match s.segments[i]? with
    | some ⟨_ + 1, .queued⟩ => some (s.goto i .ended)
    | _ => none

/-- A coroutine that `spawn` has just accepted. -/
def machine : Machine Run Label where
  init s := s = {}
  next := next

end CoroutineFrame
end AstraScheduler
