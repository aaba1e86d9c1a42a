import AstraScheduler.ThreadContext

/-! # Whose code a thread is running

Three thread-local variables name the task a thread executes, its priority and its graph
run.  Two guard types save and restore them: `TaskExecutionContextGuard` the first two,
`GraphNodeExecutionContextGuard` the run and the priority.  Each kind of invoker puts its own
guards on the stack before it enters the code of its task, and a helping wait executes
further invokers inside that code.

An invoker that is no graph node has no guard for the run, so it runs under the run of the
node that helps: the identity of a thread is exact as long as no node's helping wait executes
one. -/

namespace AstraScheduler
namespace ExecutionIdentity

open Transition (Machine)

/-- `GraphRunId` (id.hpp); a default-constructed one is invalid. -/
structure GraphRunId where
  runtimeId : RuntimeId := {}
  sequence : Nat := 0
  deriving DecidableEq, Repr

/-- One execution of an invoker, by its kind, with the identity of its task. -/
inductive Invocation where
  /-- `SubmittedInvokerGate` over a `TaskInvokerModel`. -/
  | submitted (task : TaskId) (priority : Priority)
  /-- `SubmittedInvokerGate` over a `CoroutineTaskInvokerModel`. -/
  | spawned (task : TaskId) (priority : Priority)
  /-- `CoroutineResumeInvoker`. -/
  | resume (task : TaskId) (priority : Priority)
  | node (run : GraphRunId) (task : TaskId) (priority : Priority)
  /-- The first segment of a coroutine node. -/
  | coroutineNode (run : GraphRunId) (task : TaskId) (priority : Priority)
  /-- `GraphCoroutineResumeWrapper`. -/
  | coroutineNodeResume (run : GraphRunId) (task : TaskId) (priority : Priority)
  deriving DecidableEq, Repr

/-- The values of the three variables. -/
structure Identity where
  task : TaskId := {}
  priority : Priority := .normal
  run : GraphRunId := {}
  deriving DecidableEq, Repr

namespace Invocation

def task : Invocation → TaskId
  | .submitted t _ | .spawned t _ | .resume t _ | .node _ t _ | .coroutineNode _ t _
  | .coroutineNodeResume _ t _ => t

def priority : Invocation → Priority
  | .submitted _ p | .spawned _ p | .resume _ p | .node _ _ p | .coroutineNode _ _ p
  | .coroutineNodeResume _ _ p => p

/-- The run the task is a node of. -/
def run : Invocation → Option GraphRunId
  | .submitted .. | .spawned .. | .resume .. => none
  | .node r _ _ | .coroutineNode r _ _ | .coroutineNodeResume r _ _ => some r

/-- What the variables are to say while the code of the task runs. -/
def identity (i : Invocation) : Identity := ⟨i.task, i.priority, i.run.getD {}⟩

end Invocation

/-- A guard that is about to be constructed. -/
inductive GuardCall where
  | task (newId : TaskId) (newPriority : Priority)
  | node (newId : GraphRunId) (newPriority : Priority)
  deriving DecidableEq, Repr

/-- The members of a constructed guard. -/
inductive Guard where
  | task (guard : TaskExecutionContextGuard)
  /-- `GraphNodeExecutionContextGuard`. -/
  | node (previousId : GraphRunId) (previousPriority : Priority)
  deriving DecidableEq, Repr

/-- The guards around the code of a task, in the order of their construction. -/
def Invocation.guards : Invocation → List GuardCall
  | .submitted t p => [.task t p]
  | .spawned t p => [.task t p, .task t p]
  | .resume t p => [.task t p]
  | .node r t p => [.node r p, .task t p]
  | .coroutineNode r t p => [.node r p, .task t p]
  | .coroutineNodeResume r t p => [.node r p, .task t p]

/-- An execution on the stack of the thread; `guards` innermost first. -/
structure Frame where
  invocation : Invocation
  guards : List Guard
  /-- In a helping wait. -/
  waiting : Bool := false
  deriving DecidableEq, Repr

/-- A worker thread. -/
structure Thread where
  ctx : ThreadContext Invoker := {}
  currentExecutingGraphRunId : GraphRunId := {}
  frames : List Frame := []
  deriving DecidableEq, Repr

namespace Thread
variable (t : Thread)

def identity : Identity :=
  ⟨t.ctx.currentExecutingTaskId, t.ctx.currentExecutingTaskPriority, t.currentExecutingGraphRunId⟩

/-- The constructors of the two guards. -/
def enter : GuardCall → Thread × Guard
  | .task newId newPriority =>
    let (ctx, guard) := t.ctx.enterTask newId newPriority
    ({ t with ctx := ctx }, .task guard)
  | .node newId newPriority =>
    ({ t with
        currentExecutingGraphRunId := newId
        ctx := { t.ctx with currentExecutingTaskPriority := newPriority } },
      .node t.currentExecutingGraphRunId t.ctx.currentExecutingTaskPriority)

/-- The destructors; what a flush publishes goes to the queues. -/
def exit : Guard → Thread
  | .task guard => { t with ctx := (t.ctx.exitTask guard).1 }
  | .node previousId previousPriority =>
    { t with
      currentExecutingGraphRunId := previousId
      ctx := { t.ctx with currentExecutingTaskPriority := previousPriority } }

def enterAll (t : Thread) (guards : List Guard) : List GuardCall → Thread × List Guard
  | [] => (t, guards)
  | call :: calls =>
    let (t, guard) := t.enter call
    enterAll t (guard :: guards) calls

def exitAll (guards : List Guard) : Thread := guards.foldl exit t

/-! ## The self-run checks -/

/-- `perform_graph_caller_wait`. -/
def callerWaitRejects (target : GraphRunId) : Bool :=
  t.ctx.currentWorkerImpl.isSome && t.currentExecutingGraphRunId != {} &&
    t.currentExecutingGraphRunId == target

/-- `GraphRun::wait`. -/
def waitRejects (target : GraphRunId) : Bool := t.callerWaitRejects target

/-- `GraphRun::wait_for`, of a run that goes on for a positive duration. -/
def waitForRejects (target : GraphRunId) : Bool :=
  (t.currentExecutingGraphRunId == target && target != {}) || t.callerWaitRejects target

/-- `GraphRunAwaiter::await_ready` and `await_suspend`. -/
def awaitRejects (target : GraphRunId) : Bool := t.currentExecutingGraphRunId == target

end Thread

/-! ## Nested executions -/

/-- How a segment ends. -/
inductive Leave where
  | returned | suspended | threw
  deriving DecidableEq, Repr

inductive Step where
  /-- The worker loop, or the helping loop of the innermost wait, executes an invoker. -/
  | execute (invocation : Invocation)
  /-- A helping wait for a task or for a graph run. -/
  | waitTask (target : TaskId)
  | waitGraph (target : GraphRunId)
  | endWait
  /-- The code posts an invoker: a resume goes to the deferred slot. -/
  | post (impl : Impl) (invoker : Invoker) (isExternal : Bool)
  | leave (how : Leave)
  deriving DecidableEq, Repr

/-- The innermost frame is in a helping wait, or there is none. -/
def Thread.looping (t : Thread) : Bool := t.frames.head?.all Frame.waiting

/-- Set whether the innermost frame is in a helping wait. -/
def Thread.setWaiting (t : Thread) (waiting : Bool) : Option Thread :=
  match t.frames with
  | f :: fs =>
    if f.waiting = waiting then none
    else some { t with frames := { f with waiting := waiting } :: fs }
  | [] => none

def step (t : Thread) : Step → Option Thread
  | .execute i =>
    -- the run of a node has been allocated
    if t.looping ∧ i.run ≠ some {} then
      let (entered, guards) := t.enterAll [] i.guards
      some { entered with frames := ⟨i, guards, false⟩ :: t.frames }
    else none
  | .waitTask target =>
    -- a direct self-wait throws into the code
    if t.ctx.currentExecutingTaskId = target then none else t.setWaiting true
  | .waitGraph target => if t.callerWaitRejects target then none else t.setWaiting true
  | .endWait => t.setWaiting false
  | .post impl invoker isExternal =>
    match t.frames with
    | f :: _ =>
      if f.waiting then none
      else some { t with ctx := (t.ctx.postTaskInternal impl (some invoker) isExternal).1 }
    | [] => none
  | .leave _ =>
    match t.frames with
    | f :: fs => if f.waiting then none else some { t.exitAll f.guards with frames := fs }
    | [] => none

/-- A worker of a runtime, from its loop on. -/
def machine : Machine Thread Step where
  init t := t.frames = [] ∧ t.identity = {} ∧ t.ctx.currentWorkerImpl.isSome
  next := step

/-! ## Exactness -/

/-- The variables are those of the innermost task, or of none, and the checks for a wait on
one's own run answer accordingly. -/
def Exact (t : Thread) : Prop :=
  match t.frames with
  | [] => t.identity = {}
  | f :: _ =>
    t.identity = f.invocation.identity ∧ ∀ target ≠ {},
      (t.waitRejects target ↔ f.invocation.run = some target) ∧
        (t.waitForRejects target ↔ f.invocation.run = some target) ∧
          (t.awaitRejects target ↔ f.invocation.run = some target)

/-- Inside a graph node only graph nodes are executed. -/
def NodesOnly (t : Thread) : Step → Prop
  | .execute i => i.run.isSome ∨ t.currentExecutingGraphRunId = {}
  | _ => True

instance (t : Thread) : (a : Step) → Decidable (NodesOnly t a)
  | .execute i => inferInstanceAs (Decidable (i.run.isSome ∨ t.currentExecutingGraphRunId = {}))
  | .waitTask _ | .waitGraph _ | .endWait | .post .. | .leave _ => .isTrue trivial

/-! ## The guards -/

variable {t t' : Thread}

/-- What the destructor of a guard does to the variables. -/
def Identity.restore (i : Identity) : Guard → Identity
  | .task guard => { i with task := guard.prevId, priority := guard.prevPriority }
  | .node previousId previousPriority => { i with run := previousId, priority := previousPriority }

theorem flush_context (ctx : ThreadContext Invoker) :
    ctx.flushDeferredSelfResume.1.currentExecutingTaskId = ctx.currentExecutingTaskId ∧
      ctx.flushDeferredSelfResume.1.currentExecutingTaskPriority =
        ctx.currentExecutingTaskPriority ∧
      ctx.flushDeferredSelfResume.1.currentWorkerImpl = ctx.currentWorkerImpl := by
  unfold ThreadContext.flushDeferredSelfResume
  split
  · exact ⟨rfl, rfl, rfl⟩
  split
  · exact ⟨rfl, rfl, rfl⟩
  · rename_i impl _
    rcases ThreadContext.postTaskInternal_slot ctx.takeDeferred impl ctx.deferredSelfResume false
      with hsame | ⟨invoker, -, -, -, hslot⟩
    · rw [hsame]
      exact ⟨rfl, rfl, rfl⟩
    · rw [hslot]
      exact ⟨rfl, rfl, rfl⟩

theorem identity_exit (t : Thread) (guard : Guard) :
    (t.exit guard).identity = t.identity.restore guard := by
  cases guard with
  | task guard =>
    obtain ⟨htask, hpriority, -⟩ := flush_context (t.ctx.restoreTask guard)
    simp only [Thread.identity, Thread.exit, ThreadContext.exitTask, htask, hpriority]
    rfl
  | node previousId previousPriority => rfl

theorem identity_exitAll (t : Thread) (guards : List Guard) :
    (t.exitAll guards).identity = guards.foldl Identity.restore t.identity := by
  induction guards generalizing t with
  | nil => rfl
  | cons guard guards ih =>
    show ((t.exit guard).exitAll guards).identity = _
    rw [ih, identity_exit]
    rfl

theorem worker_exitAll (t : Thread) (guards : List Guard) :
    (t.exitAll guards).ctx.currentWorkerImpl = t.ctx.currentWorkerImpl := by
  induction guards generalizing t with
  | nil => rfl
  | cons guard guards ih =>
    show ((t.exit guard).exitAll guards).ctx.currentWorkerImpl = _
    rw [ih]
    cases guard with
    | task guard => exact (flush_context (t.ctx.restoreTask guard)).2.2
    | node previousId previousPriority => rfl

/-- **The guards of an execution**: they set the task and the priority, and the run if there
is one, and their destructors put back what was there. -/
theorem enterAll_spec (t : Thread) (i : Invocation) :
    (t.enterAll [] i.guards).1.identity =
        ⟨i.task, i.priority, i.run.getD t.currentExecutingGraphRunId⟩ ∧
      (t.enterAll [] i.guards).2.foldl Identity.restore (t.enterAll [] i.guards).1.identity =
        t.identity ∧
      (t.enterAll [] i.guards).1.ctx.currentWorkerImpl = t.ctx.currentWorkerImpl := by
  cases i <;> exact ⟨rfl, rfl, rfl⟩

/-! ## The invariant -/

/-- Under these frames the variables are right, and stay right as the guards are undone. -/
def Stacked : Identity → List Frame → Prop
  | i, [] => i = {}
  | i, f :: fs =>
    i = f.invocation.identity ∧ f.invocation.run ≠ some {} ∧
      Stacked (f.guards.foldl Identity.restore i) fs

structure Inv (t : Thread) : Prop where
  worker : t.ctx.currentWorkerImpl.isSome
  stacked : Stacked t.identity t.frames

theorem Inv.exact (h : Inv t) : Exact t := by
  obtain ⟨hworker, hstacked⟩ := h
  unfold Exact
  cases hframes : t.frames with
  | nil =>
    rw [hframes] at hstacked
    exact hstacked
  | cons f fs =>
    rw [hframes] at hstacked
    obtain ⟨hidentity, hvalid, -⟩ := hstacked
    refine ⟨hidentity, fun target htarget => ?_⟩
    have hrun : t.currentExecutingGraphRunId = f.invocation.run.getD {} :=
      congrArg Identity.run hidentity
    have hawait : t.awaitRejects target ↔ f.invocation.run = some target := by
      simp only [Thread.awaitRejects, beq_iff_eq, hrun]
      cases f.invocation.run with
      | none => simpa using fun heq : {} = target => htarget heq.symm
      | some r => simp
    have hwait : t.callerWaitRejects target ↔ t.awaitRejects target := by
      simp only [Thread.callerWaitRejects, Thread.awaitRejects, hworker, Bool.true_and,
        Bool.and_eq_true, bne_iff_ne, ne_eq, beq_iff_eq, and_iff_right_iff_imp]
      rintro rfl
      exact htarget
    refine ⟨hwait.trans hawait, ?_, hawait⟩
    simp only [Thread.waitForRejects, Bool.or_eq_true, hwait, Bool.and_eq_true, bne_iff_ne, ne_eq,
      htarget, not_false_eq_true, and_true]
    exact ⟨fun h => hawait.mp (h.elim id id), fun h => .inr (hawait.mpr h)⟩

theorem Inv.setWaiting {waiting : Bool} (h : Inv t) (hs : t.setWaiting waiting = some t') :
    Inv t' := by
  obtain ⟨hworker, hstacked⟩ := h
  unfold Thread.setWaiting at hs
  split at hs
  · rename_i f fs hframes
    split at hs
    · cases hs
    · obtain rfl := Option.some.inj hs
      rw [hframes] at hstacked
      exact ⟨hworker, hstacked⟩
  · cases hs

theorem execute_cases {i : Invocation} (hs : step t (.execute i) = some t') :
    i.run ≠ some {} ∧ t'.frames = ⟨i, (t.enterAll [] i.guards).2, false⟩ :: t.frames ∧
      t'.identity = ⟨i.task, i.priority, i.run.getD t.currentExecutingGraphRunId⟩ ∧
      (t.enterAll [] i.guards).2.foldl Identity.restore t'.identity = t.identity ∧
      t'.ctx.currentWorkerImpl = t.ctx.currentWorkerImpl := by
  obtain ⟨hidentity, hrestore, hworker⟩ := enterAll_spec t i
  simp only [step] at hs
  split at hs
  · rename_i hcond
    obtain rfl := Option.some.inj hs
    exact ⟨hcond.2, rfl, hidentity, hrestore, hworker⟩
  · cases hs

/-- **One step**. -/
theorem Inv.step (h : Inv t) {a : Step} (hok : NodesOnly t a) (hs : step t a = some t') :
    Inv t' := by
  obtain ⟨hworker, hstacked⟩ := h
  cases a with
  | execute i =>
    obtain ⟨hvalid, hframes, hidentity, hrestore, hworker'⟩ := execute_cases hs
    refine ⟨hworker' ▸ hworker, ?_⟩
    rw [hframes]
    refine ⟨?_, hvalid, ?_⟩
    · rw [hidentity]
      unfold Invocation.identity
      rcases hok with hnode | hnone
      · obtain ⟨r, hr⟩ := Option.isSome_iff_exists.mp hnode
        rw [hr]
        rfl
      · rw [hnone]
    · rw [hrestore]
      exact hstacked
  | waitTask target =>
    simp only [ExecutionIdentity.step] at hs
    split at hs
    · cases hs
    · exact Inv.setWaiting ⟨hworker, hstacked⟩ hs
  | waitGraph target =>
    simp only [ExecutionIdentity.step] at hs
    split at hs
    · cases hs
    · exact Inv.setWaiting ⟨hworker, hstacked⟩ hs
  | endWait => exact Inv.setWaiting ⟨hworker, hstacked⟩ hs
  | post impl invoker isExternal =>
    simp only [ExecutionIdentity.step] at hs
    split at hs
    · rename_i f fs hframes
      split at hs
      · cases hs
      · obtain rfl := Option.some.inj hs
        rcases ThreadContext.postTaskInternal_slot t.ctx impl (some invoker) isExternal
          with hsame | ⟨posted, -, -, -, hslot⟩
        · rw [hsame]
          exact ⟨hworker, hstacked⟩
        · rw [hslot]
          exact ⟨hworker, hstacked⟩
    · cases hs
  | leave how =>
    simp only [ExecutionIdentity.step] at hs
    split at hs
    · rename_i f fs hframes
      split at hs
      · cases hs
      · obtain rfl := Option.some.inj hs
        rw [hframes] at hstacked
        refine ⟨(worker_exitAll t f.guards).symm ▸ hworker, ?_⟩
        show Stacked (t.exitAll f.guards).identity fs
        rw [identity_exitAll]
        exact hstacked.2.2
    · cases hs

theorem inv_initial (h : machine.init t) : Inv t := by
  obtain ⟨hframes, hidentity, hworker⟩ := h
  refine ⟨hworker, ?_⟩
  rw [hframes]
  exact hidentity

/-- An invoker without a run executed inside a node runs under the run of the node. -/
theorem not_exact_of_leak {a : Step} (hno : ¬ NodesOnly t a) (hs : step t a = some t') :
    ¬ Exact t' := by
  intro hexact
  cases a with
  | execute i =>
    simp only [NodesOnly, not_or] at hno
    obtain ⟨-, hframes, hidentity, -⟩ := execute_cases hs
    unfold Exact at hexact
    rw [hframes] at hexact
    have hrun := congrArg Identity.run (hidentity.symm.trans hexact.1)
    have hnone : i.run = none := Option.not_isSome_iff_eq_none.mp hno.1
    simp only [Invocation.identity, hnone, Option.getD_none] at hrun
    exact hno.2 hrun
  | _ => exact hno trivial

/-- Through any nesting the identity is exact in every state exactly when nothing but graph
nodes is executed inside a graph node. -/
theorem exact_iff {as : List Step} (hinit : machine.init t) (hrun : (machine.run t as).isSome) :
    machine.EveryState Exact t as ↔ machine.EveryStep NodesOnly t as :=
  Machine.everyState_iff_everyStep Inv (fun _ h => h.exact) (fun _ _ _ h hok hs => h.step hok hs)
    (fun _ _ _ _ hno hs => not_exact_of_leak hno hs) (inv_initial hinit) hrun

/-- A worker of the runtime at address 5. -/
def worker : Thread := { ctx := { currentWorkerImpl := some 5 } }

def ordinaryTask : Invocation := .submitted ⟨⟨1⟩, 1⟩ .critical

def graphNode (sequence : Nat) : Invocation := .node ⟨⟨1⟩, 7⟩ ⟨⟨1⟩, sequence⟩ .low

/-- A task helps with a node, whose wait helps with a coroutine node of the same run. -/
theorem exact_inside_task :
    machine.EveryState Exact worker [.execute ordinaryTask, .waitTask ⟨⟨1⟩, 9⟩,
      .execute (graphNode 2), .waitTask ⟨⟨1⟩, 3⟩,
      .execute (.coroutineNodeResume ⟨⟨1⟩, 7⟩ ⟨⟨1⟩, 3⟩ .high), .leave .suspended, .endWait,
      .leave .threw, .endWait, .leave .returned] :=
  (exact_iff ⟨rfl, rfl, rfl⟩ (by decide)).mpr (by decide)

/-- A node's wait helps with an ordinary task: the task runs under the node's run and may not
wait for it. -/
theorem task_inside_node_leaks :
    ∃ t, machine.run worker [.execute (graphNode 2), .waitTask ⟨⟨1⟩, 1⟩, .execute ordinaryTask] =
        some t ∧
      t.currentExecutingGraphRunId = ⟨⟨1⟩, 7⟩ ∧ t.waitRejects ⟨⟨1⟩, 7⟩ ∧ ¬ Exact t := by
  refine ⟨_, rfl, rfl, rfl, fun hexact => ?_⟩
  have hrun := congrArg Identity.run hexact.1
  revert hrun
  decide

end ExecutionIdentity
end AstraScheduler
