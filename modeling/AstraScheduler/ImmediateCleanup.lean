import AstraScheduler.ReadyQueues
import AstraScheduler.TaskControlBlock
import Mathlib.Data.List.Basic

/-! # The immediate cleanup of the ready queues

`ReadyQueues::cancel_unstarted` cancels every invoker that has not started and keeps
the resume segments.  It does so for the global queues under `global_mutex_`, and
cancelling a submitted task runs the callbacks of the coroutines that await it: each
armed one posts a resume segment from inside the cleanup.  Inside a task context the
segment is deferred; outside, it is published to a queue of the waiting coroutine's
runtime, and if that is the runtime being cleaned up, possibly under the mutex the
cleanup holds.

The module follows that chain of calls and says for which contents of the queues the
cleanup comes back. -/

namespace AstraScheduler
namespace ImmediateCleanup

/-- What a queue can hold. -/
inductive QueuedInvoker where
  /-- A `SubmittedInvokerGate` over a callable or a coroutine. -/
  | submitted (tcb : TaskControlBlock)
  /-- A `GraphTaskInvokerModel<true>`. -/
  | graphNode (nodePriority : Priority) (nodeDeadline : Option Nat)
  /-- A `CoroutineResumeInvoker`. -/
  | resume (task : TaskId) (taskPriority : Priority)
  deriving DecidableEq, Repr

instance : TaskInvokerBase QueuedInvoker where
  isResumeSegment
    | .resume _ _ => true
    | _ => false
  priority
    | .submitted tcb => tcb.priority
    | .graphNode priority _ => priority
    | .resume _ priority => priority
  deadline
    | .submitted tcb => tcb.deadline
    | .graphNode _ deadline => deadline
    | .resume _ _ => none

/-- The thread that runs the cleanup, the queues it cleans, the external slots it has
released and what it has published to other runtimes. -/
structure CleanupThread where
  ctx : ThreadContext QueuedInvoker := {}
  queues : ReadyQueues QueuedInvoker
  released : Nat := 0
  elsewhere : List (Publication QueuedInvoker) := []

/-- The result of a piece of the cleanup: a mutex it locks twice, or a value. -/
abbrev Cleanup := Except QueueMutex

/-! ## The chain of calls -/

/-- One completion callback: `AwaitHandshake::trigger`, the resume action, the
rescheduler, `post_task_internal` and `ReadyQueues::publish`. -/
def runCallback (self : Impl) (held : Option QueueMutex) (s : CleanupThread)
    (cb : AwaitCallback) : Cleanup CleanupThread :=
  match cb.handshake.trigger.2, cb.rescheduler with
  | true, some impl =>
    match s.ctx.postTaskInternal impl (some (.resume cb.waiter cb.waiterPriority)) false with
    | (ctx, none) => .ok { s with ctx := ctx }
    | (ctx, some p) =>
      if p.impl = self then
        match s.queues.publish held p.task p.isExternal p.useLocalQueue p.workerIndex with
        | .error mutex => .error mutex
        | .ok queues => .ok { s with ctx := ctx, queues := queues }
      else .ok { s with ctx := ctx, elsewhere := s.elsewhere ++ [p] }
  | _, _ => .ok s

/-- `TaskInvokerBase::cancel_pre_start`: a graph node and a resume segment do nothing,
a submitted task requests its cancellation. -/
def cancelPreStart (self : Impl) (held : Option QueueMutex) (s : CleanupThread) :
    QueuedInvoker → Cleanup CleanupThread
  | .submitted tcb => tcb.requestCancel.2.foldlM (runCallback self held) s
  | .graphNode _ _ => .ok s
  | .resume _ _ => .ok s

/-- `admission.release(1)` for an external invoker taken from a global queue. -/
def releaseSlot (s : CleanupThread) (held : Option QueueMutex) (isExternal : Bool) :
    CleanupThread :=
  if isExternal ∧ held = some .global then { s with released := s.released + 1 } else s

/-- Cancel the invokers of one container in order and keep its resume segments. -/
def cancelEntries {E : Type} (self : Impl) (held : Option QueueMutex)
    (task : E → QueuedTask QueuedInvoker) :
    List E → CleanupThread → Cleanup (List E × CleanupThread)
  | [], s => .ok ([], s)
  | e :: es, s =>
    if TaskInvokerBase.isResumeSegment (task e).invoker then
      match cancelEntries self held task es s with
      | .error mutex => .error mutex
      | .ok (kept, s) => .ok (e :: kept, s)
    else
      match cancelPreStart self held s (task e).invoker with
      | .error mutex => .error mutex
      | .ok s => cancelEntries self held task es (releaseSlot s held (task e).isExternal)

/-- The bands in the order the cleanup visits them. -/
def bands : List Priority := [.low, .normal, .high, .critical]

/-- Cancel a container and put back what is kept. -/
def sweepContainer {E : Type} (self : Impl) (held : Option QueueMutex)
    (task : E → QueuedTask QueuedInvoker) (es : List E)
    (store : List E → ReadyQueues QueuedInvoker → ReadyQueues QueuedInvoker)
    (s : CleanupThread) : Cleanup CleanupThread :=
  match cancelEntries self held task es s with
  | .error mutex => .error mutex
  | .ok (kept, s) => .ok { s with queues := store kept s.queues }

/-- One global deadline heap. -/
def sweepHeap (self : Impl) (s : CleanupThread) (p : Priority) : Cleanup CleanupThread :=
  sweepContainer self (some .global) EdfEntry.task (s.queues.globalEdfHeaps p)
    (fun resumes rq =>
      { rq with globalEdfHeaps := Function.update rq.globalEdfHeaps p resumes }) s

/-- One global FIFO. -/
def sweepFifo (self : Impl) (s : CleanupThread) (p : Priority) : Cleanup CleanupThread :=
  sweepContainer self (some .global) id (s.queues.globalFifoQueues p)
    (fun retained rq =>
      { rq with globalFifoQueues := Function.update rq.globalFifoQueues p retained }) s

/-- One band of the local queue of worker `i`, kept in a deque under its mutex. -/
def sweepLockedBand (self : Impl) (i : Nat) (s : CleanupThread) (p : Priority) :
    Cleanup CleanupThread :=
  sweepContainer self (some (.locked i)) id ((s.queues.locals i).bands p)
    (fun retained rq => rq.setLocal i
      { rq.locals i with bands := Function.update (rq.locals i).bands p retained }) s

/-- What is left to do for a band: one turn for each invoker, and one for each segment
its callbacks may push behind it. -/
def turns (tasks : List (QueuedTask QueuedInvoker)) : Nat :=
  (tasks.map fun t =>
    match t.invoker with
    | .submitted tcb => tcb.completionCallbacks.length + 1
    | .graphNode _ _ | .resume _ _ => 1).sum

/-- The steal loop over one lock-free band, for at most `fuel` turns. -/
def drainBand (self : Impl) (i : Nat) (p : Priority) :
    Nat → List (QueuedTask QueuedInvoker) × CleanupThread →
      Cleanup (List (QueuedTask QueuedInvoker) × CleanupThread)
  | 0, (resumes, s) => .ok (resumes, s)
  | fuel + 1, (resumes, s) =>
    match s.queues.stealFront i p with
    | none => .ok (resumes, s)
    | some (task, queues) =>
      let s := { s with queues := queues }
      if TaskInvokerBase.isResumeSegment task.invoker then
        drainBand self i p fuel (resumes ++ [task], s)
      else
        match cancelPreStart self none s task.invoker with
        | .error mutex => .error mutex
        | .ok s => drainBand self i p fuel (resumes, s)

/-- One band of a local queue, by its backend. -/
def sweepBand (self : Impl) (i : Nat) (r : List (QueuedTask QueuedInvoker) × CleanupThread)
    (p : Priority) : Cleanup (List (QueuedTask QueuedInvoker) × CleanupThread) :=
  match (r.2.queues.locals i).backend with
  | .chaseLevLockFree => drainBand self i p (turns ((r.2.queues.locals i).bands p)) r
  | .locked => (sweepLockedBand self i r.2 p).map fun s => (r.1, s)

/-- `LocalQueues::cancel_unstarted` of worker `i`. -/
def sweepLocal (self : Impl) (r : List (QueuedTask QueuedInvoker) × CleanupThread) (i : Nat) :
    Cleanup (List (QueuedTask QueuedInvoker) × CleanupThread) :=
  bands.foldlM (sweepBand self i) r

/-- The resumes found in lock-free queues go to the global FIFOs. -/
def keepResumes (s : CleanupThread) (resumes : List (QueuedTask QueuedInvoker)) : CleanupThread :=
  { s with queues := { s.queues with
    globalFifoQueues := fun p => s.queues.globalFifoQueues p ++
      resumes.filter fun t => TaskInvokerBase.priority t.invoker = p } }

/-- `ReadyQueues::cancel_unstarted` of the runtime `self`. -/
def cancelUnstarted (self : Impl) (s : CleanupThread) : Cleanup CleanupThread := do
  let s ← bands.foldlM (sweepHeap self) s
  let s ← bands.foldlM (sweepFifo self) s
  let (resumes, s) ← (List.range s.queues.workerCount).foldlM (sweepLocal self) ([], s)
  return keepResumes s resumes

/-! ## Which posts a thread can take -/

/-- The priorities of the segments a callback publishes to `self` when nothing defers
it: none unless its handshake is armed and its coroutine lives on `self`. -/
def callbackPosts (self : Impl) (cb : AwaitCallback) : List Priority :=
  if cb.handshake.state = .armed ∧ cb.rescheduler = some self then [cb.waiterPriority] else []

/-- The segments that cancelling an invoker publishes to `self`. -/
def postsHere (self : Impl) : QueuedInvoker → List Priority
  | .submitted tcb => tcb.requestCancel.2.flatMap (callbackPosts self)
  | .graphNode _ _ => []
  | .resume _ _ => []

/-- `publish` would use the thread's own local queue. -/
def UsesLocal (self : Impl) (s : CleanupThread) : Prop :=
  s.ctx.useLocalQueue self false ∧ s.ctx.currentWorkerIndex < s.queues.workerCount

/-- The thread's own local queue. -/
def ownQueue (s : CleanupThread) : LocalQueues QueuedInvoker :=
  s.queues.locals s.ctx.currentWorkerIndex

/-- A local queue takes segments of these priorities. -/
def Takes (q : LocalQueues QueuedInvoker) (ps : List Priority) : Prop :=
  q.backend = .locked ∨ ∀ p k, q.room p = some k → ps.count p ≤ k

/-- A thread holding `held` can publish segments of these priorities to `self` without
locking a mutex twice. -/
def Admits (self : Impl) (held : Option QueueMutex) (s : CleanupThread) (ps : List Priority) :
    Prop :=
  ps = [] ∨ s.ctx.currentExecutingTaskId ≠ {} ∨
    match held with
    | none => True
    | some .global => UsesLocal self s ∧ Takes (ownQueue s) ps
    | some (.locked i) =>
      ¬ (UsesLocal self s ∧ s.ctx.currentWorkerIndex = i ∧ (ownQueue s).backend = .locked)

/-- What no piece of the cleanup changes: who the thread is, how many workers there
are, and which backends they use. -/
structure SameThread (s s' : CleanupThread) : Prop where
  task : s'.ctx.currentExecutingTaskId = s.ctx.currentExecutingTaskId
  impl : s'.ctx.currentWorkerImpl = s.ctx.currentWorkerImpl
  runtime : s'.ctx.currentWorkerRuntimeId = s.ctx.currentWorkerRuntimeId
  index : s'.ctx.currentWorkerIndex = s.ctx.currentWorkerIndex
  workerCount : s'.queues.workerCount = s.queues.workerCount
  backend : ∀ i, (s'.queues.locals i).backend = (s.queues.locals i).backend

theorem SameThread.refl (s : CleanupThread) : SameThread s s :=
  ⟨rfl, rfl, rfl, rfl, rfl, fun _ => rfl⟩

theorem SameThread.trans {s t u : CleanupThread} (h : SameThread s t) (h' : SameThread t u) :
    SameThread s u :=
  ⟨h'.task.trans h.task, h'.impl.trans h.impl, h'.runtime.trans h.runtime,
    h'.index.trans h.index, h'.workerCount.trans h.workerCount,
    fun i => (h'.backend i).trans (h.backend i)⟩

theorem SameThread.usesLocal {s s' : CleanupThread} (h : SameThread s s') (self : Impl) :
    UsesLocal self s' ↔ UsesLocal self s := by
  unfold UsesLocal ThreadContext.useLocalQueue
  rw [h.impl, h.runtime, h.index, h.workerCount]

/-- The call of `publish` for a segment that is not deferred. -/
def publishHere (self : Impl) (held : Option QueueMutex) (s : CleanupThread) (task : TaskId)
    (p : Priority) : Cleanup (ReadyQueues QueuedInvoker) :=
  s.queues.publish held (.resume task p) false (s.ctx.useLocalQueue self false)
    s.ctx.currentWorkerIndex

section Publish
variable {self : Impl} {held : Option QueueMutex} {s : CleanupThread} {task : TaskId}
  {p : Priority}

theorem publishHere_local (h : UsesLocal self s) :
    publishHere self held s task p =
      match s.queues.pushLocal held s.ctx.currentWorkerIndex ⟨.resume task p, false⟩ p with
      | .error mutex => .error mutex
      | .ok (some pushed) => .ok pushed
      | .ok none => s.queues.pushGlobal held ⟨.resume task p, false⟩ p := by
  simp only [publishHere, ReadyQueues.publish, TaskInvokerBase.deadline,
    TaskInvokerBase.isResumeSegment, TaskInvokerBase.priority]
  unfold UsesLocal at h
  rw [if_pos h]
  rcases s.queues.pushLocal held s.ctx.currentWorkerIndex ⟨.resume task p, false⟩ p with
    mutex | _ | pushed <;> rfl

theorem publishHere_global (h : ¬ UsesLocal self s) :
    publishHere self held s task p = s.queues.pushGlobal held ⟨.resume task p, false⟩ p := by
  simp only [publishHere, ReadyQueues.publish, TaskInvokerBase.deadline,
    TaskInvokerBase.isResumeSegment, TaskInvokerBase.priority]
  exact if_neg h

/-- A callback either leaves the queues alone, because it posts nothing here or its
segment is deferred, or makes one call of `publish`. -/
theorem runCallback_cases (self : Impl) (held : Option QueueMutex) (s : CleanupThread)
    (cb : AwaitCallback) :
    (∃ s', runCallback self held s cb = .ok s' ∧ s'.queues = s.queues ∧ SameThread s s' ∧
      (callbackPosts self cb = [] ∨ s.ctx.currentExecutingTaskId ≠ {})) ∨
    (s.ctx.currentExecutingTaskId = {} ∧ callbackPosts self cb = [cb.waiterPriority] ∧
      runCallback self held s cb =
        match publishHere self held s cb.waiter cb.waiterPriority with
        | .error mutex => .error mutex
        | .ok queues => .ok { s with queues := queues }) := by
  have hdefer : ∀ (impl : Impl) (t : QueuedInvoker),
      SameThread s { s with ctx := s.ctx.deferSelfResume impl t } :=
    fun _ _ => ⟨rfl, rfl, rfl, rfl, rfl, fun _ => rfl⟩
  unfold runCallback
  rw [AwaitHandshake.trigger_posts]
  by_cases harmed : cb.handshake.state = .armed
  · cases hr : cb.rescheduler with
    | none =>
      refine Or.inl ⟨s, by simp [harmed], rfl, .refl s, Or.inl ?_⟩
      simp [callbackPosts, hr]
    | some impl =>
      simp only [harmed, decide_true]
      by_cases hctx : s.ctx.currentExecutingTaskId = {}
      · have hpost : s.ctx.postTaskInternal impl
            (some (QueuedInvoker.resume cb.waiter cb.waiterPriority)) false =
              (s.ctx, some
                { impl := impl
                  task := .resume cb.waiter cb.waiterPriority
                  isExternal := false
                  useLocalQueue := s.ctx.useLocalQueue impl false
                  workerIndex := s.ctx.currentWorkerIndex }) := by
          simp [ThreadContext.postTaskInternal, hctx]
        simp only [hpost]
        by_cases hself : impl = self
        · refine Or.inr ⟨hctx, by simp [callbackPosts, harmed, hr, hself], ?_⟩
          rw [if_pos hself, hself]
          rfl
        · refine Or.inl ⟨_, if_neg hself, rfl, ⟨rfl, rfl, rfl, rfl, rfl, fun _ => rfl⟩, Or.inl ?_⟩
          simp [callbackPosts, hr, hself]
      · rw [ThreadContext.postTaskInternal_deferred impl _ false rfl hctx]
        exact Or.inl ⟨_, rfl, rfl, hdefer _ _, Or.inr hctx⟩
  · refine Or.inl ⟨s, by simp [harmed], rfl, .refl s, Or.inl ?_⟩
    simp [callbackPosts, harmed]

theorem takes_nil (q : LocalQueues QueuedInvoker) : Takes q [] :=
  Or.inr fun _ k _ => Nat.zero_le k

/-- A push uses up one place of its band. -/
theorem takes_cons_iff {q : LocalQueues QueuedInvoker} {t : QueuedTask QueuedInvoker}
    {ps : List Priority} :
    Takes q (p :: ps) ↔ ∃ q', q.push t p = some q' ∧ Takes q' ps := by
  unfold LocalQueues.push Takes
  by_cases hb : q.backend = .locked
  · simp [hb]
  cases hroom : q.room p with
  | none =>
    simp only [hb, false_or, if_false, Option.some.injEq, exists_eq_left']
    refine forall_congr' fun r => forall_congr' fun k => imp_congr_right fun hr => ?_
    have hne : p ≠ r := by
      rintro rfl
      rw [hroom] at hr
      cases hr
    rw [List.count_cons_of_ne hne]
  | some k =>
    cases k with
    | zero =>
      simp only [hb, false_or, if_false, reduceCtorEq, false_and, exists_false, iff_false]
      intro h
      have := h p 0 hroom
      rw [List.count_cons_self] at this
      omega
    | succ k =>
      simp only [hb, false_or, if_false, Option.some.injEq, exists_eq_left']
      constructor
      · intro h r j hr
        by_cases hpr : r = p
        · subst hpr
          obtain rfl : k = j := by simpa using hr
          have := h r (k + 1) hroom
          rw [List.count_cons_self] at this
          omega
        · have := h r j (by simpa [Function.update_of_ne hpr] using hr)
          rwa [List.count_cons_of_ne (Ne.symm hpr)] at this
      · intro h r j hr
        by_cases hpr : r = p
        · subst hpr
          obtain rfl : k + 1 = j := Option.some.inj (hroom.symm.trans hr)
          have := h r k (by simp)
          rw [List.count_cons_self]
          omega
        · rw [List.count_cons_of_ne (Ne.symm hpr)]
          exact h r j (by simpa [Function.update_of_ne hpr] using hr)

theorem push_backend {q q' : LocalQueues QueuedInvoker} {t : QueuedTask QueuedInvoker}
    (h : q.push t p = some q') : q'.backend = q.backend := by
  unfold LocalQueues.push at h
  split at h
  · cases h
    rfl
  · split at h
    · cases h
      rfl
    · cases h
    · cases h
      rfl

theorem sameThread_setLocal {q : LocalQueues QueuedInvoker} {i : Nat}
    (h : q.backend = (s.queues.locals i).backend) :
    SameThread s { s with queues := s.queues.setLocal i q } := by
  refine ⟨rfl, rfl, rfl, rfl, rfl, fun j => ?_⟩
  by_cases hj : j = i
  · subst hj
    simpa [ReadyQueues.setLocal] using h
  · simp [ReadyQueues.setLocal, Function.update_of_ne hj]

/-- The answer of a push to the global FIFO. -/
theorem admits_pushGlobal (hctx : s.ctx.currentExecutingTaskId = {}) (ps : List Priority)
    (hlocal : ∀ i, held = some (.locked i) → ¬ (UsesLocal self s ∧
      s.ctx.currentWorkerIndex = i ∧ (ownQueue s).backend = .locked))
    (hglobal : held = some .global → ¬ (UsesLocal self s ∧ Takes (ownQueue s) (p :: ps)))
    (t : QueuedTask QueuedInvoker) :
    Admits self held s (p :: ps) ↔
      ∃ queues, s.queues.pushGlobal held t p = .ok queues ∧
        Admits self held { s with queues := queues } ps ∧
        SameThread s { s with queues := queues } := by
  rcases held with _ | _ | i
  · exact iff_of_true (Or.inr (Or.inr trivial))
      ⟨_, rfl, Or.inr (Or.inr trivial), rfl, rfl, rfl, rfl, rfl, fun _ => rfl⟩
  · refine iff_of_false ?_ ?_
    · rintro (h | h | h)
      · cases h
      · exact h hctx
      · exact hglobal rfl h
    · rintro ⟨queues, h, _⟩
      cases h
  · exact iff_of_true (Or.inr (Or.inr (hlocal i rfl)))
      ⟨_, rfl, Or.inr (Or.inr (hlocal i rfl)), rfl, rfl, rfl, rfl, rfl, fun _ => rfl⟩

/-- `publish` outside of every context answers exactly as `Admits` says, and what is
admitted afterwards is what was left over. -/
theorem admits_publish (task : TaskId) (hctx : s.ctx.currentExecutingTaskId = {})
    (ps : List Priority) :
    Admits self held s (p :: ps) ↔
      ∃ queues, publishHere self held s task p = .ok queues ∧
        Admits self held { s with queues := queues } ps ∧
        SameThread s { s with queues := queues } := by
  by_cases huse : ¬ UsesLocal self s
  · rw [publishHere_global huse]
    exact admits_pushGlobal hctx ps (fun _ _ h => huse h.1) (fun _ h => huse h.1) _
  replace huse := Classical.not_not.mp huse
  rw [publishHere_local huse]
  by_cases hown : (ownQueue s).backend = .locked ∧ held = some (.locked s.ctx.currentWorkerIndex)
  · -- the thread sweeps its own locked queue
    have hrelock : s.queues.pushLocal held s.ctx.currentWorkerIndex ⟨.resume task p, false⟩ p =
        .error (.locked s.ctx.currentWorkerIndex) := if_pos hown
    rw [hrelock]
    refine iff_of_false ?_ (by rintro ⟨_, h, _⟩; cases h)
    obtain ⟨hlocked, rfl⟩ := hown
    rintro (h | h | h)
    · cases h
    · exact h hctx
    · exact h ⟨huse, rfl, hlocked⟩
  have hother : ∀ i, held = some (.locked i) → ¬ (UsesLocal self s ∧
      s.ctx.currentWorkerIndex = i ∧ (ownQueue s).backend = .locked) := by
    rintro i rfl ⟨_, rfl, hlocked⟩
    exact hown ⟨hlocked, rfl⟩
  have hlock : s.queues.pushLocal held s.ctx.currentWorkerIndex ⟨.resume task p, false⟩ p =
      .ok (((ownQueue s).push ⟨.resume task p, false⟩ p).map
        (s.queues.setLocal s.ctx.currentWorkerIndex)) := if_neg hown
  rw [hlock]
  cases hpush : (ownQueue s).push ⟨.resume task p, false⟩ p with
  | none =>
    -- a full local queue sends the resume to the global one
    refine admits_pushGlobal hctx ps hother (fun _ h => ?_) _
    obtain ⟨q', hq', _⟩ := takes_cons_iff.mp h.2
    rw [hpush] at hq'
    cases hq'
  | some q =>
    have hsame : SameThread s
        { s with queues := s.queues.setLocal s.ctx.currentWorkerIndex q } :=
      sameThread_setLocal (push_backend hpush)
    have hnew : ownQueue { s with queues := s.queues.setLocal s.ctx.currentWorkerIndex q } = q := by
      simp [ownQueue, ReadyQueues.setLocal]
    -- the queue holds the first resume now, so it has to take the rest only
    have hiff : Admits self held s (p :: ps) ↔ Admits self held
        { s with queues := s.queues.setLocal s.ctx.currentWorkerIndex q } ps := by
      rcases held with _ | _ | i
      · exact iff_of_true (Or.inr (Or.inr trivial)) (Or.inr (Or.inr trivial))
      · have htakes : Takes (ownQueue s) (p :: ps) ↔ Takes q ps := by
          rw [takes_cons_iff (t := ⟨.resume task p, false⟩), hpush]
          simp
        constructor
        · rintro (h | h | h)
          · cases h
          · exact absurd hctx h
          · refine Or.inr (Or.inr ⟨(hsame.usesLocal self).mpr huse, ?_⟩)
            rw [hnew]
            exact htakes.mp h.2
        · rintro (rfl | h | h)
          · exact Or.inr (Or.inr ⟨huse, htakes.mpr (takes_nil q)⟩)
          · exact absurd hctx h
          · refine Or.inr (Or.inr ⟨huse, htakes.mpr ?_⟩)
            have := h.2
            rwa [hnew] at this
      · refine iff_of_true (Or.inr (Or.inr (hother i rfl))) (Or.inr (Or.inr ?_))
        rintro ⟨_, hi, hlocked⟩
        rw [hnew, push_backend hpush] at hlocked
        exact hother i rfl ⟨huse, hi, hlocked⟩
    constructor
    · intro h
      exact ⟨_, rfl, hiff.mp h, hsame⟩
    · rintro ⟨queues, hq, h, _⟩
      obtain rfl := Except.ok.inj hq
      exact hiff.mpr h

end Publish

/-! ## What a piece of the cleanup leaves alone -/

/-- The segments that cancelling a band of worker `i` publishes to `self`. -/
def bandPosts (self : Impl) (s : CleanupThread) (i : Nat) (p : Priority) : List Priority :=
  ((s.queues.locals i).bands p).flatMap fun t => postsHere self t.invoker

/-- Besides the thread, a callback keeps what later cancellations will post, the global
queues while their mutex is held, and a locked local queue while its mutex is held. -/
structure Kept (here : Impl) (held : Option QueueMutex) (s s' : CleanupThread) : Prop where
  same : SameThread s s'
  posts : ∀ i p, bandPosts here s' i p = bandPosts here s i p
  global : held = some .global → s'.queues.globalEdfHeaps = s.queues.globalEdfHeaps ∧
    s'.queues.globalFifoQueues = s.queues.globalFifoQueues
  own : ∀ i, held = some (.locked i) → (s.queues.locals i).backend = .locked →
    s'.queues.locals i = s.queues.locals i

section Keep
variable {self : Impl} {held : Option QueueMutex} {s s' s'' : CleanupThread}

theorem Kept.refl (s : CleanupThread) : Kept self held s s :=
  ⟨.refl s, fun _ _ => rfl, fun _ => ⟨rfl, rfl⟩, fun _ _ _ => rfl⟩

theorem Kept.trans (h : Kept self held s s') (h' : Kept self held s' s'') :
    Kept self held s s'' := by
  refine ⟨h.same.trans h'.same, fun i p => (h'.posts i p).trans (h.posts i p), fun hg => ?_,
    fun i hi hb => ?_⟩
  · exact ⟨(h'.global hg).1.trans (h.global hg).1, (h'.global hg).2.trans (h.global hg).2⟩
  · exact (h'.own i hi ((h.same.backend i).trans hb)).trans (h.own i hi hb)

theorem kept_of_queues (hq : s'.queues = s.queues) (h : SameThread s s') :
    Kept self held s s' := by
  refine ⟨h, fun i p => ?_, fun _ => ?_, fun i _ _ => ?_⟩
  · rw [bandPosts, hq]
    rfl
  · rw [hq]
    exact ⟨rfl, rfl⟩
  · rw [hq]

theorem push_bands {q q' : LocalQueues QueuedInvoker} {t : QueuedTask QueuedInvoker}
    {p : Priority} (h : q.push t p = some q') :
    q'.bands = Function.update q.bands p (q.bands p ++ [t]) := by
  unfold LocalQueues.push at h
  split at h
  · cases h
    rfl
  · split at h
    · cases h
      rfl
    · cases h
    · cases h
      rfl

/-- Pushing a segment adds nothing to cancel. -/
theorem push_posts {q q' : LocalQueues QueuedInvoker} {task : TaskId} {p : Priority}
    (h : q.push ⟨.resume task p, false⟩ p = some q') (r : Priority) :
    (q'.bands r).flatMap (fun t => postsHere self t.invoker) =
      (q.bands r).flatMap fun t => postsHere self t.invoker := by
  rw [push_bands h]
  by_cases hr : r = p
  · subst hr
    simp [postsHere]
  · rw [Function.update_of_ne hr]

/-- A published segment goes to a global queue or to the end of the thread's own local queue,
whose mutex the thread does not hold. -/
theorem publishHere_cases {task : TaskId} {p : Priority} {queues : ReadyQueues QueuedInvoker}
    (h : publishHere self held s task p = .ok queues) :
    s.queues.pushGlobal held ⟨.resume task p, false⟩ p = .ok queues ∨
      ¬ ((ownQueue s).backend = .locked ∧ held = some (.locked s.ctx.currentWorkerIndex)) ∧
        ∃ q, (ownQueue s).push ⟨.resume task p, false⟩ p = some q ∧
          queues = s.queues.setLocal s.ctx.currentWorkerIndex q := by
  by_cases huse : ¬ UsesLocal self s
  · rw [publishHere_global huse] at h
    exact .inl h
  rw [publishHere_local (Classical.not_not.mp huse)] at h
  unfold ReadyQueues.pushLocal at h
  split at h
  · cases h
  · rename_i pushed hpush
    obtain rfl := Except.ok.inj h
    split at hpush
    · cases hpush
    rename_i hown
    obtain ⟨q, hq, rfl⟩ := Option.map_eq_some_iff.mp (Except.ok.inj hpush)
    exact .inr ⟨hown, q, hq, rfl⟩
  · exact .inl h

theorem publishHere_locals {task : TaskId} {p : Priority} {queues : ReadyQueues QueuedInvoker}
    (h : publishHere self held s task p = .ok queues) :
    queues.locals = s.queues.locals ∨
      ∃ q, (ownQueue s).push ⟨.resume task p, false⟩ p = some q ∧
        queues.locals = Function.update s.queues.locals s.ctx.currentWorkerIndex q := by
  rcases publishHere_cases h with hglobal | ⟨-, q, hq, rfl⟩
  · unfold ReadyQueues.pushGlobal at hglobal
    split at hglobal
    · cases hglobal
    · cases hglobal
      exact .inl rfl
  · exact .inr ⟨q, hq, rfl⟩

theorem kept_pushGlobal {t : QueuedTask QueuedInvoker} {p : Priority}
    {queues : ReadyQueues QueuedInvoker} (h : s.queues.pushGlobal held t p = .ok queues) :
    Kept self held s { s with queues := queues } := by
  unfold ReadyQueues.pushGlobal at h
  split at h
  · cases h
  · rename_i hheld
    obtain rfl := Except.ok.inj h
    exact ⟨⟨rfl, rfl, rfl, rfl, rfl, fun _ => rfl⟩, fun _ _ => rfl,
      fun hg => absurd hg hheld, fun _ _ _ => rfl⟩

theorem kept_publish {task : TaskId} {p : Priority} {queues : ReadyQueues QueuedInvoker}
    (h : publishHere self held s task p = .ok queues) :
    Kept self held s { s with queues := queues } := by
  rcases publishHere_cases h with hglobal | ⟨hown, q, hq, rfl⟩
  · exact kept_pushGlobal hglobal
  refine ⟨sameThread_setLocal (push_backend hq), fun i r => ?_, fun _ => ⟨rfl, rfl⟩,
    fun i hi hb => ?_⟩
  · by_cases hi : i = s.ctx.currentWorkerIndex
    · subst hi
      simpa [bandPosts, ReadyQueues.setLocal, ownQueue] using push_posts hq r
    · simp [bandPosts, ReadyQueues.setLocal, Function.update_of_ne hi]
  · have hne : i ≠ s.ctx.currentWorkerIndex := by
      rintro rfl
      exact hown ⟨hb, hi⟩
    simp [ReadyQueues.setLocal, Function.update_of_ne hne]

theorem kept_runCallback {cb : AwaitCallback} (h : runCallback self held s cb = .ok s') :
    Kept self held s s' := by
  rcases runCallback_cases self held s cb with ⟨t, ht, hq, hsame, _⟩ | ⟨_, _, hrun⟩
  · obtain rfl := Except.ok.inj (ht.symm.trans h)
    exact kept_of_queues hq hsame
  · rw [hrun] at h
    split at h
    · cases h
    · rename_i queues hpub
      obtain rfl := Except.ok.inj h
      exact kept_publish hpub

theorem kept_cancelPreStart {t : QueuedInvoker} (h : cancelPreStart self held s t = .ok s') :
    Kept self held s s' := by
  cases t with
  | graphNode => cases h; exact .refl _
  | resume => cases h; exact .refl _
  | submitted tcb =>
    simp only [cancelPreStart] at h
    revert h
    generalize tcb.requestCancel.2 = cbs
    induction cbs generalizing s with
    | nil =>
      intro h
      cases h
      exact .refl _
    | cons cb cbs ih =>
      intro h
      rw [List.foldlM_cons] at h
      cases hc : runCallback self held s cb with
      | error mutex =>
        rw [hc] at h
        cases h
      | ok t =>
        rw [hc] at h
        exact (kept_runCallback hc).trans (ih h)

theorem kept_releaseSlot (isExternal : Bool) :
    Kept self held s (releaseSlot s held isExternal) := by
  unfold releaseSlot
  split
  · exact kept_of_queues rfl ⟨rfl, rfl, rfl, rfl, rfl, fun _ => rfl⟩
  · exact .refl _

theorem kept_cancelEntries {E : Type} {task : E → QueuedTask QueuedInvoker} {es kept : List E}
    (h : cancelEntries self held task es s = .ok (kept, s')) : Kept self held s s' := by
  induction es generalizing s kept with
  | nil =>
    cases h
    exact .refl _
  | cons e es ih =>
    unfold cancelEntries at h
    split at h
    · split at h
      · cases h
      · rename_i rest t hrest
        cases h
        exact ih hrest
    · split at h
      · cases h
      · rename_i t ht
        exact ((kept_cancelPreStart ht).trans (kept_releaseSlot _)).trans (ih h)

/-! ## Cancelling a container -/

/-- `Admits` reads the thread and the room of its own local queue only. -/
theorem admits_congr (h : SameThread s s') (hq : ownQueue s' = ownQueue s) (ps : List Priority) :
    Admits self held s ps ↔ Admits self held s' ps := by
  unfold Admits
  rw [h.task, hq]
  rcases held with _ | _ | i
  · exact Iff.rfl
  · simp only [h.usesLocal self]
  · simp only [h.usesLocal self, h.index]

theorem admits_of_queues (h : SameThread s s') (hq : s'.queues = s.queues) (ps : List Priority) :
    Admits self held s ps ↔ Admits self held s' ps :=
  admits_congr h (by rw [ownQueue, ownQueue, h.index, hq]) ps

theorem admits_runCallback (cb : AwaitCallback) (ps : List Priority) :
    Admits self held s (callbackPosts self cb ++ ps) ↔
      ∃ s', runCallback self held s cb = .ok s' ∧ Admits self held s' ps := by
  rcases runCallback_cases self held s cb with ⟨t, ht, hq, hsame, hpost⟩ | ⟨hctx, hpost, hrun⟩
  · have hps : Admits self held s (callbackPosts self cb ++ ps) ↔ Admits self held t ps := by
      rcases hpost with hnil | hctx
      · rw [hnil, List.nil_append]
        exact admits_of_queues hsame hq ps
      · refine iff_of_true (Or.inr (Or.inl hctx)) (Or.inr (Or.inl ?_))
        rwa [hsame.task]
    rw [hps, ht]
    simp
  · rw [hpost, List.singleton_append, admits_publish cb.waiter hctx, hrun]
    constructor
    · rintro ⟨queues, hpub, hadm, _⟩
      exact ⟨_, by rw [hpub], hadm⟩
    · rintro ⟨t, ht, hadm⟩
      cases hpub : publishHere self held s cb.waiter cb.waiterPriority with
      | error mutex => simp [hpub] at ht
      | ok queues =>
        simp only [hpub] at ht
        obtain rfl := Except.ok.inj ht
        exact ⟨queues, rfl, hadm, (kept_publish hpub).same⟩

theorem admits_cancelPreStart (t : QueuedInvoker) (ps : List Priority) :
    Admits self held s (postsHere self t ++ ps) ↔
      ∃ s', cancelPreStart self held s t = .ok s' ∧ Admits self held s' ps := by
  cases t with
  | graphNode => simp [postsHere, cancelPreStart]
  | resume => simp [postsHere, cancelPreStart]
  | submitted tcb =>
    simp only [postsHere, cancelPreStart]
    generalize tcb.requestCancel.2 = cbs
    induction cbs generalizing s with
    | nil => simp [pure, Except.pure]
    | cons cb cbs ih =>
      rw [List.flatMap_cons, List.append_assoc, admits_runCallback, List.foldlM_cons]
      constructor
      · rintro ⟨t, ht, hadm⟩
        obtain ⟨u, hu, hadm⟩ := ih.mp hadm
        exact ⟨u, by rw [ht]; exact hu, hadm⟩
      · rintro ⟨u, hu, hadm⟩
        cases hc : runCallback self held s cb with
        | error mutex =>
          rw [hc] at hu
          cases hu
        | ok t =>
          rw [hc] at hu
          exact ⟨t, rfl, ih.mpr ⟨u, hu, hadm⟩⟩

/-- **A container is cancelled exactly when the thread can publish everything its
invokers post**, and what can be published afterwards is what was left over. -/
theorem admits_cancelEntries {E : Type} (task : E → QueuedTask QueuedInvoker) (es : List E)
    (ps : List Priority) :
    Admits self held s (es.flatMap (fun e => postsHere self (task e).invoker) ++ ps) ↔
      ∃ kept s', cancelEntries self held task es s = .ok (kept, s') ∧ Admits self held s' ps := by
  induction es generalizing s with
  | nil =>
    constructor
    · intro h
      exact ⟨[], s, rfl, h⟩
    · rintro ⟨kept, t, ht, h⟩
      cases ht
      exact h
  | cons e es ih =>
    rw [List.flatMap_cons, List.append_assoc]
    unfold cancelEntries
    by_cases hres : TaskInvokerBase.isResumeSegment (task e).invoker = true
    · have hnil : postsHere self (task e).invoker = [] := by
        cases ht : (task e).invoker with
        | submitted => simp [ht, TaskInvokerBase.isResumeSegment] at hres
        | graphNode => rfl
        | resume => rfl
      rw [hnil, List.nil_append, ih, if_pos hres]
      constructor
      · rintro ⟨kept, t, ht, hadm⟩
        exact ⟨e :: kept, t, by rw [ht], hadm⟩
      · rintro ⟨kept, t, ht, hadm⟩
        split at ht
        · cases ht
        · rename_i rest u hrest
          cases ht
          exact ⟨rest, _, hrest, hadm⟩
    · rw [admits_cancelPreStart, if_neg hres]
      have hrelease : ∀ t : CleanupThread, ∀ qs, Admits self held t qs ↔
          Admits self held (releaseSlot t held (task e).isExternal) qs := by
        intro t qs
        unfold releaseSlot
        split
        · exact admits_of_queues ⟨rfl, rfl, rfl, rfl, rfl, fun _ => rfl⟩ rfl qs
        · exact Iff.rfl
      constructor
      · rintro ⟨t, ht, hadm⟩
        obtain ⟨kept, u, hu, hadm⟩ := ih.mp ((hrelease t _).mp hadm)
        exact ⟨kept, u, by rw [ht]; exact hu, hadm⟩
      · rintro ⟨kept, u, hu, hadm⟩
        split at hu
        · cases hu
        · rename_i t ht
          exact ⟨t, ht, (hrelease t _).mpr (ih.mpr ⟨kept, u, hu, hadm⟩)⟩

theorem admits_sweepContainer {E : Type} (task : E → QueuedTask QueuedInvoker) (es : List E)
    {store : List E → ReadyQueues QueuedInvoker → ReadyQueues QueuedInvoker} (ps : List Priority)
    (hstore : ∀ kept t, Admits self held { t with queues := store kept t.queues } ps ↔
      Admits self held t ps) :
    Admits self held s (es.flatMap (fun e => postsHere self (task e).invoker) ++ ps) ↔
      ∃ s', sweepContainer self held task es store s = .ok s' ∧ Admits self held s' ps := by
  rw [admits_cancelEntries]
  unfold sweepContainer
  constructor
  · rintro ⟨kept, t, ht, hadm⟩
    rw [ht]
    exact ⟨_, rfl, (hstore kept t).mpr hadm⟩
  · rintro ⟨t, ht, hadm⟩
    split at ht
    · cases ht
    · rename_i kept u hu
      obtain rfl := Except.ok.inj ht
      exact ⟨kept, u, hu, (hstore kept u).mp hadm⟩

theorem kept_sweepContainer {E : Type} {task : E → QueuedTask QueuedInvoker} {es : List E}
    {store : List E → ReadyQueues QueuedInvoker → ReadyQueues QueuedInvoker}
    (h : sweepContainer self held task es store s = .ok s') :
    ∃ kept t, Kept self held s t ∧ s' = { t with queues := store kept t.queues } := by
  unfold sweepContainer at h
  split at h
  · cases h
  · rename_i kept t ht
    obtain rfl := Except.ok.inj h
    exact ⟨kept, t, kept_cancelEntries ht, rfl⟩

/-! ## The global queues -/

/-- The segments that cancelling a deadline heap publishes to `self`. -/
def heapPosts (self : Impl) (s : CleanupThread) (p : Priority) : List Priority :=
  (s.queues.globalEdfHeaps p).flatMap fun e => postsHere self e.task.invoker

/-- The segments that cancelling a FIFO publishes to `self`. -/
def fifoPosts (self : Impl) (s : CleanupThread) (p : Priority) : List Priority :=
  (s.queues.globalFifoQueues p).flatMap fun t => postsHere self t.invoker

/-- Sweeping a global queue leaves the thread and the local queues as they are. -/
structure SweptGlobal (here : Impl) (s s' : CleanupThread) : Prop where
  same : SameThread s s'
  posts : ∀ i p, bandPosts here s' i p = bandPosts here s i p

theorem SweptGlobal.refl (s : CleanupThread) : SweptGlobal self s s :=
  ⟨.refl s, fun _ _ => rfl⟩

theorem SweptGlobal.trans (h : SweptGlobal self s s') (h' : SweptGlobal self s' s'') :
    SweptGlobal self s s'' :=
  ⟨h.same.trans h'.same, fun i p => (h'.posts i p).trans (h.posts i p)⟩

theorem swept_sweepHeap {p : Priority} (h : sweepHeap self s p = .ok s') :
    SweptGlobal self s s' ∧ (∀ q, q ≠ p → heapPosts self s' q = heapPosts self s q) ∧
      ∀ q, fifoPosts self s' q = fifoPosts self s q := by
  obtain ⟨kept, t, hk, rfl⟩ := kept_sweepContainer h
  obtain ⟨hheaps, hfifos⟩ := hk.global rfl
  refine ⟨⟨⟨hk.same.task, hk.same.impl, hk.same.runtime, hk.same.index, hk.same.workerCount,
    hk.same.backend⟩, hk.posts⟩, fun q hq => ?_, fun q => ?_⟩
  · simp [heapPosts, Function.update_of_ne hq, hheaps]
  · simp [fifoPosts, hfifos]

theorem swept_sweepFifo {p : Priority} (h : sweepFifo self s p = .ok s') :
    SweptGlobal self s s' ∧ ∀ q, q ≠ p → fifoPosts self s' q = fifoPosts self s q := by
  obtain ⟨kept, t, hk, rfl⟩ := kept_sweepContainer h
  refine ⟨⟨⟨hk.same.task, hk.same.impl, hk.same.runtime, hk.same.index, hk.same.workerCount,
    hk.same.backend⟩, hk.posts⟩, fun q hq => ?_⟩
  simp [fifoPosts, Function.update_of_ne hq, (hk.global rfl).2]

/-- A fold over steps that are each in `R` is in `R`. -/
theorem foldlM_rel {α β : Type} {f : β → α → Cleanup β} {R : β → β → Prop}
    (hrefl : ∀ b, R b b) (htrans : ∀ b c d, R b c → R c d → R b d)
    (hstep : ∀ b a b', f b a = .ok b' → R b b') {l : List α} {b b' : β}
    (h : l.foldlM f b = .ok b') : R b b' := by
  induction l generalizing b with
  | nil =>
    cases h
    exact hrefl _
  | cons a l ih =>
    rw [List.foldlM_cons] at h
    cases hf : f b a with
    | error mutex =>
      rw [hf] at h
      cases h
    | ok c =>
      rw [hf] at h
      exact htrans _ _ _ (hstep b a c hf) (ih h)

/-- Sweeping several bands, one after the other, when sweeping one leaves to the others
what they post. -/
theorem admits_foldBands (Good : CleanupThread → Prop)
    {sweep : CleanupThread → Priority → Cleanup CleanupThread}
    {posts : CleanupThread → Priority → List Priority}
    (haccept : ∀ t p ps, Good t → (Admits self held t (posts t p ++ ps) ↔
      ∃ t', sweep t p = .ok t' ∧ Admits self held t' ps))
    (hkeep : ∀ t p t', Good t → sweep t p = .ok t' →
      Good t' ∧ ∀ q, q ≠ p → posts t' q = posts t q)
    (bs : List Priority) (hbs : bs.Nodup) (hs : Good s) (ps : List Priority) :
    Admits self held s (bs.flatMap (posts s) ++ ps) ↔
      ∃ s', bs.foldlM sweep s = .ok s' ∧ Admits self held s' ps := by
  induction bs generalizing s with
  | nil => simp [pure, Except.pure]
  | cons p bs ih =>
    obtain ⟨hp, hbs⟩ := List.nodup_cons.mp hbs
    -- the other bands still post what they posted before
    have hrest : ∀ t, sweep s p = .ok t → bs.flatMap (posts t) = bs.flatMap (posts s) := by
      intro t ht
      refine List.flatMap_congr fun q hq => (hkeep s p t hs ht).2 q ?_
      rintro rfl
      exact hp hq
    rw [List.flatMap_cons, List.append_assoc, List.foldlM_cons, haccept s p _ hs]
    constructor
    · rintro ⟨t, ht, hadm⟩
      rw [← hrest t ht] at hadm
      obtain ⟨u, hu, hadm⟩ := (ih hbs (hkeep s p t hs ht).1).mp hadm
      exact ⟨u, by rw [ht]; exact hu, hadm⟩
    · rintro ⟨u, hu, hadm⟩
      cases ht : sweep s p with
      | error mutex =>
        rw [ht] at hu
        cases hu
      | ok t =>
        rw [ht] at hu
        have hadm := (ih hbs (hkeep s p t hs ht).1).mpr ⟨u, hu, hadm⟩
        rw [hrest t ht] at hadm
        exact ⟨t, rfl, hadm⟩

theorem bands_nodup : bands.Nodup := by decide

theorem admits_sweepHeaps (s : CleanupThread) (ps : List Priority) :
    Admits self (some .global) s (bands.flatMap (heapPosts self s) ++ ps) ↔
      ∃ s', bands.foldlM (sweepHeap self) s = .ok s' ∧ Admits self (some .global) s' ps :=
  admits_foldBands (fun _ => True)
    (fun _ _ ps _ => admits_sweepContainer _ _ ps fun _ _ => Iff.rfl)
    (fun _ _ _ _ ht => ⟨trivial, (swept_sweepHeap ht).2.1⟩) bands bands_nodup trivial ps

theorem admits_sweepFifos (s : CleanupThread) (ps : List Priority) :
    Admits self (some .global) s (bands.flatMap (fifoPosts self s) ++ ps) ↔
      ∃ s', bands.foldlM (sweepFifo self) s = .ok s' ∧ Admits self (some .global) s' ps :=
  admits_foldBands (fun _ => True)
    (fun _ _ ps _ => admits_sweepContainer _ _ ps fun _ _ => Iff.rfl)
    (fun _ _ _ _ ht => ⟨trivial, (swept_sweepFifo ht).2⟩) bands bands_nodup trivial ps

theorem swept_sweepHeaps (h : bands.foldlM (sweepHeap self) s = .ok s') :
    SweptGlobal self s s' ∧ ∀ q, fifoPosts self s' q = fifoPosts self s q :=
  foldlM_rel (R := fun s s' => SweptGlobal self s s' ∧
      ∀ q, fifoPosts self s' q = fifoPosts self s q)
    (fun t => ⟨.refl t, fun _ => rfl⟩)
    (fun _ _ _ h h' => ⟨h.1.trans h'.1, fun q => (h'.2 q).trans (h.2 q)⟩)
    (fun _ _ _ h => ⟨(swept_sweepHeap h).1, (swept_sweepHeap h).2.2⟩) h

theorem swept_sweepFifos (h : bands.foldlM (sweepFifo self) s = .ok s') : SweptGlobal self s s' :=
  foldlM_rel (R := SweptGlobal self) .refl (fun _ _ _ => .trans)
    (fun _ _ _ h => (swept_sweepFifo h).1) h

/-- What cancelling the global queues publishes to `self`. -/
def globalPosts (self : Impl) (s : CleanupThread) : List Priority :=
  bands.flatMap (heapPosts self s) ++ bands.flatMap (fifoPosts self s)

/-- **The sweep of the global queues** comes back exactly when the thread can publish
everything the queued invokers post. -/
theorem admits_sweepGlobal (self : Impl) (s : CleanupThread) :
    Admits self (some .global) s (globalPosts self s) ↔
      ∃ s' s'', bands.foldlM (sweepHeap self) s = .ok s' ∧
        bands.foldlM (sweepFifo self) s' = .ok s'' := by
  unfold globalPosts
  rw [admits_sweepHeaps]
  have hfifos : ∀ t, bands.foldlM (sweepHeap self) s = .ok t →
      bands.flatMap (fifoPosts self s) = bands.flatMap (fifoPosts self t) := by
    intro t ht
    rw [show fifoPosts self t = fifoPosts self s from funext (swept_sweepHeaps ht).2]
  constructor
  · rintro ⟨t, ht, hadm⟩
    rw [hfifos t ht, ← List.append_nil (bands.flatMap _), admits_sweepFifos] at hadm
    obtain ⟨u, hu, _⟩ := hadm
    exact ⟨t, u, ht, hu⟩
  · rintro ⟨t, u, ht, hu⟩
    refine ⟨t, ht, ?_⟩
    rw [hfifos t ht, ← List.append_nil (bands.flatMap _), admits_sweepFifos]
    exact ⟨u, hu, Or.inl rfl⟩

/-! ## The local queues -/

/-- With its mutex free, a lock-free band is always drained. -/
theorem drainBand_ok (self : Impl) (i : Nat) (p : Priority) (fuel : Nat)
    (r : List (QueuedTask QueuedInvoker) × CleanupThread) :
    ∃ r', drainBand self i p fuel r = .ok r' := by
  induction fuel generalizing r with
  | zero => exact ⟨r, rfl⟩
  | succ fuel ih =>
    obtain ⟨resumes, s⟩ := r
    unfold drainBand
    cases hsteal : s.queues.stealFront i p with
    | none => exact ⟨_, rfl⟩
    | some stolen =>
      obtain ⟨task, queues⟩ := stolen
      simp only
      split
      · exact ih _
      · have hfree : Admits self none { s with queues := queues }
            (postsHere self task.invoker ++ []) := Or.inr (Or.inr trivial)
        obtain ⟨t, ht, _⟩ := (admits_cancelPreStart _ _).mp hfree
        rw [ht]
        exact ih _

/-- The turns left for band `p` of worker `i`. -/
def bandTurns (s : CleanupThread) (i : Nat) (p : Priority) : Nat :=
  turns ((s.queues.locals i).bands p)

theorem turns_append (ts us : List (QueuedTask QueuedInvoker)) :
    turns (ts ++ us) = turns ts + turns us := by
  simp [turns]

theorem bandTurns_push {q q' : LocalQueues QueuedInvoker} {task : TaskId} {p : Priority}
    (h : q.push ⟨.resume task p, false⟩ p = some q') (r : Priority) :
    turns (q'.bands r) ≤ turns (q.bands r) + 1 := by
  rw [push_bands h]
  by_cases hr : r = p
  · subst hr
    rw [Function.update_self, turns_append]
    exact Nat.le_refl _
  · rw [Function.update_of_ne hr]
    exact Nat.le_succ _

/-- A callback adds at most one turn to a band. -/
theorem bandTurns_runCallback {cb : AwaitCallback} (i : Nat) (p : Priority)
    (h : runCallback self held s cb = .ok s') : bandTurns s' i p ≤ bandTurns s i p + 1 := by
  rcases runCallback_cases self held s cb with ⟨t, ht, hq, _, _⟩ | ⟨_, _, hrun⟩
  · obtain rfl := Except.ok.inj (ht.symm.trans h)
    rw [bandTurns, bandTurns, hq]
    exact Nat.le_succ _
  rw [hrun] at h
  split at h
  · cases h
  rename_i queues hpub
  obtain rfl := Except.ok.inj h
  rcases publishHere_locals hpub with hsame | ⟨q, hq, hlocals⟩
  · rw [bandTurns, bandTurns, hsame]
    exact Nat.le_succ _
  · rw [bandTurns, bandTurns, hlocals]
    by_cases hi : i = s.ctx.currentWorkerIndex
    · subst hi
      rw [Function.update_self]
      exact bandTurns_push hq p
    · rw [Function.update_of_ne hi]
      exact Nat.le_succ _

/-- Cancelling an invoker uses up at least as many turns as its callbacks add. -/
theorem bandTurns_cancelPreStart {t : QueuedTask QueuedInvoker} (i : Nat) (p : Priority)
    (h : cancelPreStart self held s t.invoker = .ok s') :
    bandTurns s' i p + 1 ≤ bandTurns s i p + turns [t] := by
  cases hinv : t.invoker with
  | graphNode =>
    rw [hinv] at h
    cases h
    simp [turns, hinv]
  | resume =>
    rw [hinv] at h
    cases h
    simp [turns, hinv]
  | submitted tcb =>
    rw [hinv] at h
    have hfold : ∀ (cbs : List AwaitCallback) (u : CleanupThread),
        cbs.foldlM (runCallback self held) u = .ok s' →
          bandTurns s' i p ≤ bandTurns u i p + cbs.length := by
      intro cbs
      induction cbs with
      | nil =>
        intro u hu
        cases hu
        exact Nat.le_refl _
      | cons cb cbs ih =>
        intro u hu
        rw [List.foldlM_cons] at hu
        cases hc : runCallback self held u cb with
        | error mutex =>
          rw [hc] at hu
          cases hu
        | ok v =>
          rw [hc] at hu
          have hone := bandTurns_runCallback i p hc
          have hrest := ih v hu
          rw [List.length_cons]
          omega
    have hall := hfold _ s h
    have hlen : tcb.requestCancel.2.length ≤ tcb.completionCallbacks.length := by
      unfold TaskControlBlock.requestCancel
      split
      · exact Nat.le_refl _
      · exact Nat.zero_le _
    simp only [turns, hinv, List.map_cons, List.map_nil, List.sum_cons, List.sum_nil]
    omega

/-- **The steal loop ends**: after as many turns as the band promises, it is empty. -/
theorem drainBand_ends {i : Nat} {p : Priority} {fuel : Nat}
    {r r' : List (QueuedTask QueuedInvoker) × CleanupThread}
    (h : drainBand self i p fuel r = .ok r') (hfuel : bandTurns r.2 i p ≤ fuel) :
    (r'.2.queues.locals i).bands p = [] := by
  induction fuel generalizing r with
  | zero =>
    cases h
    cases hb : (r.2.queues.locals i).bands p with
    | nil => rfl
    | cons t ts =>
      exfalso
      rw [bandTurns, hb] at hfuel
      cases hinv : t.invoker <;> simp [turns, hinv] at hfuel
  | succ fuel ih =>
    obtain ⟨resumes, s⟩ := r
    unfold drainBand at h
    cases hb : (s.queues.locals i).bands p with
    | nil =>
      simp only [ReadyQueues.stealFront, hb] at h
      cases h
      exact hb
    | cons t ts =>
      simp only [ReadyQueues.stealFront, hb] at h
      have hsplit : bandTurns s i p = turns [t] + turns ts := by
        rw [bandTurns, hb, ← turns_append, List.singleton_append]
      have hafter : bandTurns { s with queues := s.queues.setLocal i { s.queues.locals i with
          bands := Function.update (s.queues.locals i).bands p ts } } i p = turns ts := by
        simp [bandTurns, ReadyQueues.setLocal]
      have hone : 1 ≤ turns [t] := by
        cases hinv : t.invoker <;> simp [turns, hinv]
      simp only at hfuel
      split at h
      · refine ih h ?_
        simp only [hafter]
        omega
      · split at h
        · cases h
        · rename_i u hu
          refine ih h ?_
          have hcost := bandTurns_cancelPreStart i p hu
          rw [hafter] at hcost
          simp only
          omega

/-- Sweeping the local queue of worker `i` leaves the thread and the other queues as
they are. -/
structure SweptLocal (here : Impl) (i : Nat) (s s' : CleanupThread) : Prop where
  same : SameThread s s'
  posts : ∀ j, j ≠ i → ∀ p, bandPosts here s' j p = bandPosts here s j p

theorem SweptLocal.refl (i : Nat) (s : CleanupThread) : SweptLocal self i s s :=
  ⟨.refl s, fun _ _ _ => rfl⟩

theorem SweptLocal.trans {i : Nat} (h : SweptLocal self i s s') (h' : SweptLocal self i s' s'') :
    SweptLocal self i s s'' :=
  ⟨h.same.trans h'.same, fun j hj p => (h'.posts j hj p).trans (h.posts j hj p)⟩

theorem Kept.sweptLocal (h : Kept self held s s') (i : Nat) : SweptLocal self i s s' :=
  ⟨h.same, fun j _ p => h.posts j p⟩

/-- Writing back a band of worker `i`. -/
theorem swept_setBand (self : Impl) (s : CleanupThread) (i : Nat) (p : Priority)
    (tasks : List (QueuedTask QueuedInvoker)) :
    SweptLocal self i s { s with queues := s.queues.setLocal i { s.queues.locals i with
      bands := Function.update (s.queues.locals i).bands p tasks } } := by
  refine ⟨sameThread_setLocal rfl, fun j hj q => ?_⟩
  simp [bandPosts, ReadyQueues.setLocal, Function.update_of_ne hj]

theorem swept_drainBand {i : Nat} {p : Priority} {fuel : Nat}
    {r r' : List (QueuedTask QueuedInvoker) × CleanupThread}
    (h : drainBand self i p fuel r = .ok r') : SweptLocal self i r.2 r'.2 := by
  induction fuel generalizing r with
  | zero =>
    cases h
    exact .refl i _
  | succ fuel ih =>
    obtain ⟨resumes, s⟩ := r
    unfold drainBand at h
    cases hb : (s.queues.locals i).bands p with
    | nil =>
      simp only [ReadyQueues.stealFront, hb] at h
      cases h
      exact .refl i _
    | cons task tasks =>
      simp only [ReadyQueues.stealFront, hb] at h
      have hset := swept_setBand self s i p tasks
      split at h
      · exact hset.trans (ih h)
      · split at h
        · cases h
        · rename_i t ht
          exact (hset.trans ((kept_cancelPreStart ht).sweptLocal i)).trans (ih h)

theorem swept_sweepLockedBand {i : Nat} {p : Priority}
    (hb : (s.queues.locals i).backend = .locked) (h : sweepLockedBand self i s p = .ok s') :
    SweptLocal self i s s' ∧ ∀ q, q ≠ p → bandPosts self s' i q = bandPosts self s i q := by
  obtain ⟨kept, t, hk, rfl⟩ := kept_sweepContainer h
  refine ⟨(hk.sweptLocal i).trans (swept_setBand self t i p kept), fun q hq => ?_⟩
  simp [bandPosts, ReadyQueues.setLocal, Function.update_of_ne hq, hk.own i rfl hb]

/-- `Admits` under a local mutex does not read the room. -/
theorem admits_locked_congr (h : SameThread s s') (i : Nat) (ps : List Priority) :
    Admits self (some (.locked i)) s ps ↔ Admits self (some (.locked i)) s' ps := by
  unfold Admits ownQueue
  rw [h.task, h.index, h.backend]
  simp only [h.usesLocal self]

/-- What cancelling the local queue of worker `i` publishes to `self`. -/
def localPosts (self : Impl) (s : CleanupThread) (i : Nat) : List Priority :=
  bands.flatMap (bandPosts self s i)

/-- Whether the sweep of the local queue of worker `i` comes back. -/
def LocalReturns (self : Impl) (s : CleanupThread) (i : Nat) : Prop :=
  (s.queues.locals i).backend = .chaseLevLockFree ∨
    Admits self (some (.locked i)) s (localPosts self s i)

theorem localReturns_congr {i j : Nat} (h : SweptLocal self i s s') (hj : j ≠ i) :
    LocalReturns self s' j ↔ LocalReturns self s j := by
  unfold LocalReturns localPosts
  rw [h.same.backend j, show bandPosts self s' j = bandPosts self s j from
    funext (h.posts j hj), admits_locked_congr h.same]

theorem swept_sweepBand {i : Nat} {p : Priority}
    {r r' : List (QueuedTask QueuedInvoker) × CleanupThread}
    (h : sweepBand self i r p = .ok r') : SweptLocal self i r.2 r'.2 := by
  unfold sweepBand at h
  split at h
  · exact swept_drainBand h
  · rename_i hb
    cases hs : sweepLockedBand self i r.2 p with
    | error mutex =>
      rw [hs] at h
      cases h
    | ok t =>
      rw [hs] at h
      cases h
      exact (swept_sweepLockedBand hb hs).1

theorem swept_sweepLocal {i : Nat} {r r' : List (QueuedTask QueuedInvoker) × CleanupThread}
    (h : sweepLocal self r i = .ok r') : SweptLocal self i r.2 r'.2 :=
  foldlM_rel (R := fun r r' => SweptLocal self i r.2 r'.2) (fun _ => .refl i _)
    (fun _ _ _ => .trans) (fun _ _ _ => swept_sweepBand) h

/-- A lock-free local queue is always swept to the end. -/
theorem sweepLocal_chaseLev {i : Nat} (r : List (QueuedTask QueuedInvoker) × CleanupThread)
    (hb : (r.2.queues.locals i).backend = .chaseLevLockFree) :
    ∃ r', sweepLocal self r i = .ok r' := by
  unfold sweepLocal
  generalize bands = bs
  induction bs generalizing r with
  | nil => exact ⟨r, rfl⟩
  | cons p bs ih =>
    rw [List.foldlM_cons]
    have hband : sweepBand self i r p =
        drainBand self i p (turns ((r.2.queues.locals i).bands p)) r := by
      unfold sweepBand
      rw [hb]
    obtain ⟨t, ht⟩ := drainBand_ok self i p (turns ((r.2.queues.locals i).bands p)) r
    rw [hband, ht]
    exact ih t (((swept_drainBand ht).same.backend i).trans hb)

/-- A locked local queue is swept to the end exactly when the thread can publish what
its invokers post. -/
theorem sweepLocal_locked {i : Nat} (resumes : List (QueuedTask QueuedInvoker))
    (hb : (s.queues.locals i).backend = .locked) :
    (∃ r', sweepLocal self (resumes, s) i = .ok r') ↔
      Admits self (some (.locked i)) s (localPosts self s i) := by
  -- on a locked queue the fold is the fold of `sweepLockedBand`
  have hfold : ∀ (bs : List Priority) (t : CleanupThread),
      (t.queues.locals i).backend = .locked →
        bs.foldlM (sweepBand self i) (resumes, t) =
          (bs.foldlM (sweepLockedBand self i) t).map fun u => (resumes, u) := by
    intro bs
    induction bs with
    | nil => exact fun _ _ => rfl
    | cons p bs ih =>
      intro t ht
      have hband : sweepBand self i (resumes, t) p =
          (sweepLockedBand self i t p).map fun u => (resumes, u) := by
        simp only [sweepBand, ht]
      rw [List.foldlM_cons, List.foldlM_cons, hband]
      cases hs : sweepLockedBand self i t p with
      | error mutex => rfl
      | ok u => exact ih u (((swept_sweepLockedBand ht hs).1.same.backend i).trans ht)
  have hadmits : Admits self (some (.locked i)) s (localPosts self s i ++ []) ↔
      ∃ s', bands.foldlM (sweepLockedBand self i) s = .ok s' ∧
        Admits self (some (.locked i)) s' [] :=
    admits_foldBands (fun t => (t.queues.locals i).backend = .locked)
      (fun t p ps _ => admits_sweepContainer _ _ ps fun kept u =>
        (admits_locked_congr (swept_setBand self u i p kept).same i ps).symm)
      (fun t p t' ht h => ⟨((swept_sweepLockedBand ht h).1.same.backend i).trans ht,
        (swept_sweepLockedBand ht h).2⟩) bands bands_nodup hb []
  rw [List.append_nil] at hadmits
  rw [hadmits, sweepLocal, hfold bands s hb]
  constructor
  · rintro ⟨r', hr⟩
    cases ht : bands.foldlM (sweepLockedBand self i) s with
    | error mutex =>
      rw [ht] at hr
      cases hr
    | ok t => exact ⟨t, rfl, Or.inl rfl⟩
  · rintro ⟨t, ht, _⟩
    rw [ht]
    exact ⟨_, rfl⟩

theorem sweepLocal_ok (r : List (QueuedTask QueuedInvoker) × CleanupThread) (i : Nat) :
    (∃ r', sweepLocal self r i = .ok r') ↔ LocalReturns self r.2 i := by
  obtain ⟨resumes, t⟩ := r
  cases hb : (t.queues.locals i).backend with
  | chaseLevLockFree => exact iff_of_true (sweepLocal_chaseLev _ hb) (Or.inl hb)
  | locked =>
    rw [sweepLocal_locked resumes hb]
    constructor
    · exact Or.inr
    · rintro (h | h)
      · rw [hb] at h
        cases h
      · exact h

/-- The sweep of several local queues. -/
theorem sweepLocals_ok (is : List Nat) (his : is.Nodup)
    (r : List (QueuedTask QueuedInvoker) × CleanupThread) :
    (∃ r', is.foldlM (sweepLocal self) r = .ok r') ↔ ∀ i ∈ is, LocalReturns self r.2 i := by
  induction is generalizing r with
  | nil => simp [pure, Except.pure]
  | cons i is ih =>
    obtain ⟨hi, his⟩ := List.nodup_cons.mp his
    rw [List.foldlM_cons, List.forall_mem_cons, ← sweepLocal_ok]
    -- sweeping queue `i` does not change whether another queue can be swept
    have hothers : ∀ t, sweepLocal self r i = .ok t →
        ((∀ j ∈ is, LocalReturns self t.2 j) ↔ ∀ j ∈ is, LocalReturns self r.2 j) := by
      intro t ht
      refine forall_congr' fun j => imp_congr_right fun hj => ?_
      refine localReturns_congr (swept_sweepLocal ht) ?_
      rintro rfl
      exact hi hj
    constructor
    · rintro ⟨r', hr⟩
      cases ht : sweepLocal self r i with
      | error mutex =>
        rw [ht] at hr
        cases hr
      | ok t =>
        rw [ht] at hr
        exact ⟨⟨t, rfl⟩, (hothers t ht).mp ((ih his t).mp ⟨r', hr⟩)⟩
    · rintro ⟨⟨t, ht⟩, hall⟩
      obtain ⟨r', hr⟩ := (ih his t).mpr ((hothers t ht).mpr hall)
      exact ⟨r', by rw [ht]; exact hr⟩

end Keep

/-! ## When the cleanup returns -/

/-- **What the cleanup needs**: it runs inside a task context, which defers every
segment; or the segments posted from the global queues fit into the thread's own local
queue (or there are none), and the thread does not post from its own locked queue. -/
def CleanupReturns (self : Impl) (s : CleanupThread) : Prop :=
  s.ctx.currentExecutingTaskId ≠ {} ∨
    ((globalPosts self s = [] ∨ (UsesLocal self s ∧ Takes (ownQueue s) (globalPosts self s))) ∧
      (UsesLocal self s → (ownQueue s).backend = .locked →
        localPosts self s s.ctx.currentWorkerIndex = []))

/-- The cleanup is the global sweep followed by the local sweeps. -/
theorem cancelUnstarted_ok (self : Impl) (s : CleanupThread) :
    (∃ s', cancelUnstarted self s = .ok s') ↔
      Admits self (some .global) s (globalPosts self s) ∧
        ∀ i < s.queues.workerCount, LocalReturns self s i := by
  -- the global sweep does not change whether a local queue can be swept
  have hlocals : ∀ t u, bands.foldlM (sweepHeap self) s = .ok t →
      bands.foldlM (sweepFifo self) t = .ok u →
        ((∃ r, (List.range u.queues.workerCount).foldlM (sweepLocal self) ([], u) = .ok r) ↔
          ∀ i < s.queues.workerCount, LocalReturns self s i) := by
    intro t u ht hu
    have hswept := (swept_sweepHeaps ht).1.trans (swept_sweepFifos hu)
    rw [sweepLocals_ok _ List.nodup_range, hswept.same.workerCount]
    refine forall_congr' fun i => ?_
    rw [List.mem_range]
    refine imp_congr_right fun _ => ?_
    unfold LocalReturns localPosts
    rw [hswept.same.backend i, funext (hswept.posts i), admits_locked_congr hswept.same]
  rw [admits_sweepGlobal]
  unfold cancelUnstarted
  constructor
  · rintro ⟨s', h⟩
    cases ht : bands.foldlM (sweepHeap self) s with
    | error mutex =>
      rw [ht] at h
      cases h
    | ok t =>
      rw [ht] at h
      cases hu : bands.foldlM (sweepFifo self) t with
      | error mutex =>
        simp only [bind, Except.bind, hu] at h
        cases h
      | ok u =>
        cases hr : (List.range u.queues.workerCount).foldlM (sweepLocal self) ([], u) with
        | error mutex =>
          simp only [bind, Except.bind, hu] at h hr
          rw [hr] at h
          cases h
        | ok r => exact ⟨⟨t, u, rfl, hu⟩, (hlocals t u ht hu).mp ⟨r, hr⟩⟩
  · rintro ⟨⟨t, u, ht, hu⟩, hall⟩
    obtain ⟨r, hr⟩ := (hlocals t u ht hu).mpr hall
    refine ⟨keepResumes r.2 r.1, ?_⟩
    rw [ht]
    simp only [bind, Except.bind, hu] at hr ⊢
    rw [hr]
    rfl

/-- **Immediate cleanup returns exactly when no chain of calls publishes under a mutex
it holds.**  For every content of the queues and every set of registered awaits, on
every thread. -/
theorem cancelUnstarted_returns_iff (self : Impl) (s : CleanupThread) :
    (∃ s', cancelUnstarted self s = .ok s') ↔ CleanupReturns self s := by
  rw [cancelUnstarted_ok]
  by_cases hctx : s.ctx.currentExecutingTaskId ≠ {}
  · exact iff_of_true ⟨Or.inr (Or.inl hctx), fun i _ => Or.inr (Or.inr (Or.inl hctx))⟩ (Or.inl hctx)
  unfold CleanupReturns LocalReturns Admits
  simp only [hctx, false_or]
  refine and_congr_right fun _ => ⟨fun hall huse hlocked => ?_, fun hown i hi => ?_⟩
  · rcases hall _ huse.2 with h | h | h
    · rw [ownQueue, h] at hlocked
      cases hlocked
    · exact h
    · exact absurd ⟨huse, rfl, hlocked⟩ h
  · by_cases hi' : UsesLocal self s ∧ s.ctx.currentWorkerIndex = i ∧ (ownQueue s).backend = .locked
    · obtain ⟨huse, rfl, hlocked⟩ := hi'
      exact Or.inr (Or.inl (hown huse hlocked))
    · exact Or.inr (Or.inr hi')

/-- The runtime of the examples, with one worker. -/
def exampleImpl : Impl := { address := 4096, runtimeId := ⟨1⟩, workerCount := 1 }

/-- A queued task that one suspended coroutine of the same runtime awaits. -/
def awaitedTask : TaskControlBlock :=
  { id := ⟨⟨1⟩, 2⟩
    state := .ready
    priority := .normal
    completionCallbacks :=
      [{ handshake := { state := .armed }
         waiter := ⟨⟨1⟩, 1⟩
         waiterPriority := .normal
         rescheduler := some exampleImpl }] }

/-- An external thread that cleans up a FIFO holding the awaited task. -/
def shutdownNowOverAwaitedTask : CleanupThread :=
  { queues :=
      { globalFifoQueues := fun p => if p = .normal then [⟨.submitted awaitedTask, true⟩] else []
        workerCount := 1 } }

theorem cancelUnstarted_relocks_global :
    cancelUnstarted exampleImpl shutdownNowOverAwaitedTask = .error .global ∧
      ¬ ∃ s', cancelUnstarted exampleImpl shutdownNowOverAwaitedTask = .ok s' := by
  have hrelock : cancelUnstarted exampleImpl shutdownNowOverAwaitedTask = .error .global := rfl
  refine ⟨hrelock, ?_⟩
  rintro ⟨s', hs⟩
  rw [hrelock] at hs
  cases hs

end ImmediateCleanup
end AstraScheduler
