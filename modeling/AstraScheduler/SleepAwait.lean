import AstraScheduler.HandshakeCalls
import AstraScheduler.TimerQueueCalls

/-! # One sleep

A call of `tcb_arm_sleep`, the stop callback it constructs, and whatever else happens
meanwhile on the same timer queue: timers that become due are collected, all timers are
cancelled, other coroutines add and cancel theirs.  A step is one atomic access or one call
under the queue's mutex; `add`'s two counters are read with its insertion.

The id of the timer is known to the stop callback only once `ctx->timer_id` is stored, after
the registration.  A callback that finds no id leaves the cancellation to the arming call,
which reads `ctx->cancelled` after its store. -/

namespace AstraScheduler
namespace SleepAwait
open AwaitHandshake (Calls)

/-- Where the call of `tcb_arm_sleep` is.  Its local `tid` goes with it. -/
inductive ArmPc where
  | start
  /-- `stop_cb.emplace`. -/
  | emplacing
  /-- The emplacement has found a stop request and executes the callback. -/
  | inCallback
  | checkingStop
  /-- `stop_cb.reset()`, before the throw. -/
  | resetting
  | registering
  | storing (tid : UInt64)
  | readingCancelled (tid : UInt64)
  | readingStop (tid : UInt64)
  | cancelling (tid : UInt64)
  | arming
  | returned
  | threw
  deriving DecidableEq, Repr

/-- Where the stop callback is. -/
inductive CallbackPc where
  | unset
  | registered
  /-- `ctx->cancelled.store` is next. -/
  | storing
  | loading
  | cancelling (tid : UInt64)
  | calling
  /-- In `trigger_cancel`, the handshake's `i`-th call. -/
  | triggering (i : Nat)
  | finished
  /-- `stop_cb.reset()` came before the stop request's thread. -/
  | removed
  deriving DecidableEq, Repr

end SleepAwait

open SleepAwait AwaitHandshake

structure SleepAwait (H R : Type) where
  /-- The await's own handshake and resume action. -/
  handshake : H
  resumeAction : R
  wakeTime : Int
  /-- The waiter exists and has its rescheduler and both timer functions. -/
  wired : Bool
  queue : TimerQueue H R
  stopRequested : Bool
  calls : AwaitHandshake.Calls := {}
  arm : ArmPc := .start
  callback : CallbackPc := .unset
  /-- `ctx->timer_id` and `ctx->cancelled`. -/
  timerId : UInt64 := 0
  cancelled : Bool := false

namespace SleepAwait
variable {H R : Type}

inductive Label (H R : Type) where
  | arm
  /-- `request_cancel` of the waiter. -/
  | requestCancel
  | callback
  /-- A step of the handshake's `i`-th call of `trigger` or `trigger_cancel`. -/
  | trigger (i : Nat) (spurious : Bool)
  /-- A call on the queue by another coroutine, by `process_due_timers` or by
  `cancel_all_timers`. -/
  | timers (op : TimerQueue.Op H R)
  /-- `tcb_finish_await`, or the end of the frame that holds the token. -/
  | finishAwait

def stepArm (s : SleepAwait H R) : Option (SleepAwait H R) :=
  match s.arm with
  | .start => some { s with arm := if s.wired then .emplacing else .threw }
  | .emplacing =>
    if s.stopRequested then some { s with arm := .inCallback, callback := .storing }
    else some { s with arm := .checkingStop, callback := .registered }
  | .inCallback => if s.callback = .finished then some { s with arm := .checkingStop } else none
  | .checkingStop => some { s with arm := if s.stopRequested then .resetting else .registering }
  | .resetting =>
    -- The destructor waits for a callback that another thread executes.
    if s.callback = .registered then some { s with arm := .threw, callback := .removed }
    else if s.callback = .finished then some { s with arm := .threw }
    else none
  | .registering =>
    let added := s.queue.add s.wakeTime s.handshake s.resumeAction
    some { s with arm := .storing added.2.1, queue := added.1 }
  | .storing tid => some { s with arm := .readingCancelled tid, timerId := tid }
  | .readingCancelled tid =>
    some { s with arm := if s.cancelled then .cancelling tid else .readingStop tid }
  | .readingStop tid =>
    some { s with arm := if s.stopRequested then .cancelling tid else .arming }
  | .cancelling tid => some { s with arm := .arming, queue := s.queue.cancel tid }
  | .arming =>
    s.calls.stepArm.map fun calls =>
      { s with calls := calls, arm := if calls.arm = .returned then .returned else .arming }
  | .returned => none
  | .threw => none

def stepCallback (s : SleepAwait H R) : Option (SleepAwait H R) :=
  match s.callback with
  | .unset => none
  | .registered => if s.stopRequested then some { s with callback := .storing } else none
  | .storing => some { s with callback := .loading, cancelled := true }
  | .loading => some { s with callback := .cancelling s.timerId }
  | .cancelling tid =>
    some { s with
      callback := .calling
      queue := if tid ≠ 0 then s.queue.cancel tid else s.queue }
  | .calling =>
    some { s with
      callback := .triggering s.calls.triggers.length
      calls := s.calls.begin true 1 }
  | .triggering i =>
    if (s.calls.triggers[i]?.map Call.pc) = some .returned then some { s with callback := .finished }
    else none
  | .finished => none
  | .removed => none

section
variable [DecidableEq H]

/-- The items that came out of the queue are triggered, the await's own among them. -/
def deliver (s : SleepAwait H R) (cancel : Bool)
    (items : List (TimerQueue.DueItem H R)) : Calls :=
  s.calls.begin cancel (items.countP fun item => item.handshake = s.handshake)

/-- The others' coroutines have handshakes of their own. -/
def stepTimers (s : SleepAwait H R) : TimerQueue.Op H R → Option (SleepAwait H R)
  | .add wakeTime handshake resumeAction =>
    if handshake = s.handshake then none
    else some { s with queue := (s.queue.add wakeTime handshake resumeAction).1 }
  | .cancel timerId => some { s with queue := s.queue.cancel timerId }
  | .collectDue now =>
    let (dueItems, queue) := s.queue.collectDue now
    some { s with queue := queue, calls := s.deliver false dueItems }
  | .cancelAll =>
    let (allItems, queue) := s.queue.cancelAll
    some { s with queue := queue, calls := s.deliver true allItems }

/-- The callback executes. -/
def CallbackPc.running : CallbackPc → Bool
  | .storing | .loading | .cancelling _ | .calling | .triggering _ => true
  | .unset | .registered | .finished | .removed => false

def step (s : SleepAwait H R) : Label H R → Option (SleepAwait H R)
  | .arm => s.stepArm
  | .requestCancel => some { s with stopRequested := true }
  | .callback => s.stepCallback
  | .trigger i spurious =>
    (s.calls.stepTrigger i spurious).map fun calls => { s with calls := calls }
  | .timers op => s.stepTimers op
  | .finishAwait =>
    if s.arm ≠ .returned ∨ s.callback.running then none
    else some { s with
      callback := if s.callback = .registered then .removed else s.callback }

end

/-- The queue may hold other timers, but none of this await, which has not begun. -/
structure Initial (s : SleepAwait H R) : Prop where
  queue : (TimerQueue.machine H R).ReachableUnder TimerQueue.FreshId s.queue
  unlisted : ∀ e ∈ s.queue.heap.entries, e.handshake ≠ s.handshake
  calls : s.calls = {}
  arm : s.arm = .start
  callback : s.callback = .unset
  timerId : s.timerId = 0
  cancelled : s.cancelled = false

def machine (H R : Type) [DecidableEq H] : Transition.Machine (SleepAwait H R) (Label H R) where
  init := Initial
  next := step

end SleepAwait
end AstraScheduler
