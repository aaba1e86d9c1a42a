import AstraScheduler.ThreadContext

/-! # Control blocks, await handshakes and their completion callbacks

A suspended coroutine leaves a callback with the control block it awaits
(`tcb_arm_task_await`).  The callback triggers the handshake of that one await; the
handshake calls the resume action if the coroutine has armed it and nobody has
resolved it yet, and the action hands a resume segment to the rescheduler of the
waiting coroutine, which is `post_task_internal` of that coroutine's runtime. -/

namespace AstraScheduler

/-! ## The handshake -/

/-- `AwaitHandshake::State`. -/
inductive HandshakeState where
  | init
  | triggered
  | armed
  | resolved
  deriving DecidableEq, Repr

/-- The raw state of an `AwaitHandshake`: its state and the `kCancelled` bit. -/
structure AwaitHandshake where
  state : HandshakeState := .init
  cancelled : Bool := false
  deriving DecidableEq, Repr

namespace AwaitHandshake

/-- `AwaitHandshake::trigger`; the flag says whether `post_action` is called.  The
first exchange expects the raw value of Init, without the cancelled bit. -/
def trigger (h : AwaitHandshake) : AwaitHandshake × Bool :=
  if h = {} then ({ h with state := .triggered }, false)
  else if h.state = .armed then ({ h with state := .resolved }, true)
  else (h, false)

/-- `AwaitHandshake::trigger_cancel`. -/
def triggerCancel (h : AwaitHandshake) : AwaitHandshake × Bool :=
  match h.state with
  | .resolved | .triggered => (h, false)
  | .init => ({ state := .triggered, cancelled := true }, false)
  | .armed => ({ state := .resolved, cancelled := true }, true)

/-- `AwaitHandshake::arm`. -/
def arm (h : AwaitHandshake) : AwaitHandshake × Bool :=
  if h = {} then ({ h with state := .armed }, false)
  else if h.state = .triggered then ({ h with state := .resolved }, true)
  else (h, false)

/-- Only an armed handshake lets a completion through. -/
theorem trigger_posts (h : AwaitHandshake) : h.trigger.2 = decide (h.state = .armed) := by
  rcases h with ⟨state, cancelled⟩
  cases state <;> cases cancelled <;> rfl

end AwaitHandshake

/-! ## The callbacks -/

/-- The closure `tcb_arm_task_await` registers with its target: the handshake, the
waiting task and its priority, and the runtime its rescheduler posts to. -/
structure AwaitCallback where
  handshake : AwaitHandshake
  waiter : TaskId
  waiterPriority : Priority
  rescheduler : Option Impl
  deriving DecidableEq, Repr

/-- The parts of a `TaskControlBlock` that cancellation reads and writes. -/
structure TaskControlBlock where
  id : TaskId
  state : TaskState
  priority : Priority
  deadline : Option Nat := none
  completionCallbacks : List AwaitCallback := []
  stopRequested : Bool := false
  deriving DecidableEq, Repr

/-- `TaskControlBlock::request_cancel`: a task that has not started becomes Cancelled,
and its callbacks are taken out to be run without the block's mutex. -/
def TaskControlBlock.requestCancel (tcb : TaskControlBlock) :
    TaskControlBlock × List AwaitCallback :=
  if tcb.state = .ready then
    ({ tcb with stopRequested := true, state := .cancelled, completionCallbacks := [] },
      tcb.completionCallbacks)
  else
    ({ tcb with stopRequested := true }, [])

end AstraScheduler
