import AstraScheduler.Status
import AstraScheduler.Transition

/-! # The thread-local task context and the deferred resume slot

A thread that executes task code carries a handful of thread-local variables
(`scheduler.cpp`): which worker it is, which task it is executing, and one slot
for a resume segment posted from inside a task context.  `post_task_internal`
parks such a segment in the slot, together with the runtime it was posted to and
the task that was executing; `~TaskExecutionContextGuard` restores the outer
context and then flushes the slot unless its owner is again the current task. -/

namespace AstraScheduler

/-- The virtual functions of `TaskInvokerBase` (task_handle.hpp) the scheduler calls. -/
class TaskInvokerBase (I : Type) where
  isResumeSegment : I → Bool
  priority : I → Priority
  deadline : I → Option Nat

/-- An invoker with nothing but its identity and the answers it gives. -/
structure Invoker where
  object : Nat
  resumeSegment : Bool
  taskPriority : Priority := .normal
  taskDeadline : Option Nat := none
  deriving DecidableEq, Repr

instance : TaskInvokerBase Invoker where
  isResumeSegment := Invoker.resumeSegment
  priority := Invoker.taskPriority
  deadline := Invoker.taskDeadline

/-- What a thread can tell about a `Scheduler::Impl` it posts to: where it lives,
its identity and how many local queues it has. -/
structure Impl where
  address : Nat
  runtimeId : RuntimeId
  workerCount : Nat
  deriving DecidableEq, Repr

/-- The thread-local variables of `scheduler.cpp`. -/
structure ThreadContext (I : Type) where
  currentWorkerRuntimeId : RuntimeId := {}
  currentWorkerImpl : Option Nat := none
  currentWorkerIndex : Nat := 0
  currentExecutingTaskId : TaskId := {}
  currentExecutingTaskPriority : Priority := .normal
  deferredSelfResume : Option I := none
  deferredSelfResumeImpl : Option Impl := none
  deferredSelfResumeOwner : TaskId := {}
  deriving DecidableEq, Repr

/-- One call of `ReadyQueues::publish`, with the arguments it is given. -/
structure Publication (I : Type) where
  impl : Impl
  task : I
  isExternal : Bool
  useLocalQueue : Bool
  workerIndex : Nat
  deriving DecidableEq, Repr

/-- The two members of a `TaskExecutionContextGuard`. -/
structure TaskExecutionContextGuard where
  prevId : TaskId
  prevPriority : Priority
  deriving DecidableEq, Repr

namespace ThreadContext
variable {I : Type}

/-- The `use_local_queue` flag of `post_task_internal`. -/
def useLocalQueue (ctx : ThreadContext I) (impl : Impl) (isExternal : Bool) : Bool :=
  !isExternal && ctx.currentWorkerImpl == some impl.address &&
    ctx.currentWorkerRuntimeId == impl.runtimeId && ctx.currentWorkerIndex < impl.workerCount

/-- Put a resume segment into the slot; whatever the slot held is destroyed by the
move assignment. -/
def deferSelfResume (ctx : ThreadContext I) (impl : Impl) (task : I) : ThreadContext I :=
  { ctx with
    deferredSelfResume := some task
    deferredSelfResumeImpl := some impl
    deferredSelfResumeOwner := ctx.currentExecutingTaskId }

/-- `Scheduler::Impl::post_task_internal`: the context it leaves and the call of
`ReadyQueues::publish` it makes, if it makes one. -/
def postTaskInternal [TaskInvokerBase I] (ctx : ThreadContext I) (impl : Impl)
    (task : Option I) (isExternal : Bool) : ThreadContext I × Option (Publication I) :=
  match task with
  | none => (ctx, none)
  | some task =>
    if TaskInvokerBase.isResumeSegment task && ctx.currentExecutingTaskId != {} then
      (ctx.deferSelfResume impl task, none)
    else
      (ctx, some
        { impl := impl
          task := task
          isExternal := isExternal
          useLocalQueue := ctx.useLocalQueue impl isExternal
          workerIndex := ctx.currentWorkerIndex })

/-- Inside a task context a resume segment goes to the slot and to no queue. -/
theorem postTaskInternal_deferred [TaskInvokerBase I] {ctx : ThreadContext I} (impl : Impl)
    (task : I) (isExternal : Bool) (hres : TaskInvokerBase.isResumeSegment task)
    (hctx : ctx.currentExecutingTaskId ≠ {}) :
    ctx.postTaskInternal impl (some task) isExternal = (ctx.deferSelfResume impl task, none) := by
  simp [postTaskInternal, hres, hctx]

/-- A post leaves the executing identity alone, and a slot it fills is owned by it. -/
theorem postTaskInternal_slot [TaskInvokerBase I] (ctx : ThreadContext I) (impl : Impl)
    (task : Option I)
    (isExternal : Bool) :
    (ctx.postTaskInternal impl task isExternal).1 = ctx ∨
      ∃ t, task = some t ∧ TaskInvokerBase.isResumeSegment t ∧
        ctx.currentExecutingTaskId ≠ {} ∧
        (ctx.postTaskInternal impl task isExternal).1 = ctx.deferSelfResume impl t := by
  cases task with
  | none => exact Or.inl rfl
  | some t =>
    by_cases h : TaskInvokerBase.isResumeSegment t ∧ ctx.currentExecutingTaskId ≠ {}
    · refine Or.inr ⟨t, rfl, h.1, h.2, ?_⟩
      rw [postTaskInternal_deferred _ _ _ h.1 h.2]
    · refine Or.inl ?_
      have : ¬ ((TaskInvokerBase.isResumeSegment t && ctx.currentExecutingTaskId != {}) = true) := by
        simpa using h
      simp [postTaskInternal, this]

/-- Move the slot out: the pointer, the runtime and the owner are all reset. -/
def takeDeferred (ctx : ThreadContext I) : ThreadContext I :=
  { ctx with
    deferredSelfResume := none
    deferredSelfResumeImpl := none
    deferredSelfResumeOwner := {} }

/-- `flush_deferred_self_resume`. -/
def flushDeferredSelfResume [TaskInvokerBase I] (ctx : ThreadContext I) :
    ThreadContext I × Option (Publication I) :=
  if ctx.deferredSelfResume.isNone || ctx.deferredSelfResumeOwner = ctx.currentExecutingTaskId then
    (ctx, none)
  else
    match ctx.deferredSelfResumeImpl with
    | none => (ctx.takeDeferred, none)
    | some impl => ctx.takeDeferred.postTaskInternal impl ctx.deferredSelfResume false

/-- The constructor of `TaskExecutionContextGuard`: the previous identity goes into
the guard. -/
def enterTask (ctx : ThreadContext I) (newId : TaskId) (newPriority : Priority) :
    ThreadContext I × TaskExecutionContextGuard :=
  ({ ctx with
      currentExecutingTaskId := newId
      currentExecutingTaskPriority := newPriority },
    { prevId := ctx.currentExecutingTaskId, prevPriority := ctx.currentExecutingTaskPriority })

/-- The identity a guard puts back. -/
def restoreTask (ctx : ThreadContext I) (guard : TaskExecutionContextGuard) : ThreadContext I :=
  { ctx with
    currentExecutingTaskId := guard.prevId
    currentExecutingTaskPriority := guard.prevPriority }

/-- The destructor of `TaskExecutionContextGuard`: restore, then flush. -/
def exitTask [TaskInvokerBase I] (ctx : ThreadContext I) (guard : TaskExecutionContextGuard) :
    ThreadContext I × Option (Publication I) :=
  (ctx.restoreTask guard).flushDeferredSelfResume

/-- The resume segment a thread holds deferred, with the runtime it belongs to. -/
def held (ctx : ThreadContext I) : List (Impl × I) :=
  match ctx.deferredSelfResumeImpl, ctx.deferredSelfResume with
  | some impl, some task => [(impl, task)]
  | _, _ => []

theorem held_of_free {ctx : ThreadContext I} (h : ctx.deferredSelfResume = none) :
    held ctx = [] := by
  unfold held
  rw [h]
  split <;> simp_all

/-! ## What the end of a context does with the slot -/

section Exit
variable [TaskInvokerBase I] {ctx : ThreadContext I} {guard : TaskExecutionContextGuard}
  {impl : Impl} {task : I}

theorem exitTask_empty (hslot : ctx.deferredSelfResume = none) :
    ctx.exitTask guard = (ctx.restoreTask guard, none) := by
  simp [exitTask, flushDeferredSelfResume, restoreTask, hslot]

/-- Back in an enclosing task, the segment stays in the slot and is owned by that
task from now on, whoever owned it before. -/
theorem exitTask_enclosed (hslot : ctx.deferredSelfResume = some task)
    (himpl : ctx.deferredSelfResumeImpl = some impl)
    (hres : TaskInvokerBase.isResumeSegment task) (hprev : guard.prevId ≠ {}) :
    ctx.exitTask guard =
      ({ ctx.restoreTask guard with deferredSelfResumeOwner := guard.prevId }, none) := by
  obtain ⟨rid, wimpl, widx, cur, prio, slot, simpl, owner⟩ := ctx
  obtain rfl : slot = some task := hslot
  obtain rfl : simpl = some impl := himpl
  by_cases howner : owner = guard.prevId
  · simp [exitTask, flushDeferredSelfResume, restoreTask, howner]
  · simp [exitTask, flushDeferredSelfResume, restoreTask, howner, takeDeferred,
      postTaskInternal_deferred _ _ _ hres, hprev, deferSelfResume]

/-- Back outside every task, the segment goes to the queues of its runtime. -/
theorem exitTask_outermost (hslot : ctx.deferredSelfResume = some task)
    (himpl : ctx.deferredSelfResumeImpl = some impl)
    (howner : ctx.deferredSelfResumeOwner ≠ {}) (hprev : guard.prevId = {}) :
    ctx.exitTask guard =
      ((ctx.restoreTask guard).takeDeferred, some
        { impl := impl
          task := task
          isExternal := false
          useLocalQueue := ctx.useLocalQueue impl false
          workerIndex := ctx.currentWorkerIndex }) := by
  simp [exitTask, flushDeferredSelfResume, restoreTask, hslot, himpl, howner, hprev,
    postTaskInternal, takeDeferred, useLocalQueue]

end Exit

end ThreadContext
end AstraScheduler
