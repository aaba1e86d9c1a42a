import AstraScheduler.ThreadContext

/-! # What becomes of the resume segments a thread is given

One thread runs any nesting of task contexts and any sequence of posts to any
runtimes, inside and outside those contexts.  Every resume segment handed to
`post_task_internal` should be in a ready queue or in the deferred slot, and the
slot should be empty once the thread has left its last task context.

The slot holds one segment.  A second segment posted in the same context replaces
the first, which no queue ever sees: the balance holds along a run exactly when no
post finds the slot occupied. -/

namespace AstraScheduler
namespace DeferredResume

open Transition (Machine)
open ThreadContext (held)

/-- A thread, its guard objects (innermost first) and two logs: the resume segments
its callers passed to `post_task_internal`, and its calls of `ReadyQueues::publish`. -/
structure PostingThread (I : Type) where
  ctx : ThreadContext I := {}
  guards : List TaskExecutionContextGuard := []
  posted : List (Impl × I) := []
  published : List (Publication I) := []
  deriving DecidableEq, Repr

/-- What the code running on the thread does. -/
inductive Op (I : Type) where
  | enter (newId : TaskId) (newPriority : Priority)
  | exit
  | post (impl : Impl) (task : Option I) (isExternal : Bool)

variable {I : Type} [TaskInvokerBase I]

/-- The segment a post adds to the first log: only resume segments are counted. -/
def postedResume (impl : Impl) : Option I → List (Impl × I)
  | none => []
  | some task => if TaskInvokerBase.isResumeSegment task then [(impl, task)] else []

/-- The resume segments among the published invokers, with their runtimes. -/
def publishedResumes (ps : List (Publication I)) : List (Impl × I) :=
  ps.flatMap fun p => postedResume p.impl (some p.task)

/-- One operation of the thread; leaving a context that was never entered is not
possible, since guards are scoped objects. -/
def next (s : PostingThread I) : Op I → Option (PostingThread I)
  | .enter newId newPriority =>
    let (ctx, guard) := s.ctx.enterTask newId newPriority
    some { s with ctx := ctx, guards := guard :: s.guards }
  | .exit =>
    match s.guards with
    | [] => none
    | guard :: guards =>
      let (ctx, publication) := s.ctx.exitTask guard
      some { s with
        ctx := ctx
        guards := guards
        published := s.published ++ publication.toList }
  | .post impl task isExternal =>
    let (ctx, publication) := s.ctx.postTaskInternal impl task isExternal
    some { s with
      ctx := ctx
      posted := s.posted ++ postedResume impl task
      published := s.published ++ publication.toList }

/-- A thread that has entered no task context and holds nothing; it may be a worker
of any runtime or no worker at all. -/
def Idle (s : PostingThread I) : Prop :=
  s.ctx.currentExecutingTaskId = {} ∧ s.ctx.deferredSelfResume = none ∧
    s.guards = [] ∧ s.posted = [] ∧ s.published = []

/-- The thread as a machine. -/
def thread (I : Type) [TaskInvokerBase I] : Machine (PostingThread I) (Op I) where
  init := Idle
  next := next

/-- **No resume segment is lost**: what was posted is what was published plus what is
held, and with no context left open all of it has been published. -/
structure NoResumeLost (s : PostingThread I) : Prop where
  balance : s.posted.Perm (publishedResumes s.published ++ held s.ctx)
  drained : s.guards = [] → s.posted.Perm (publishedResumes s.published)

/-- The post of a resume segment inside a task context finds the slot free. -/
def SlotFree (s : PostingThread I) : Op I → Prop
  | .post _ (some task) _ =>
    TaskInvokerBase.isResumeSegment task → s.ctx.currentExecutingTaskId ≠ {} →
      s.ctx.deferredSelfResume.isNone
  | _ => True

instance (s : PostingThread I) : (op : Op I) → Decidable (SlotFree s op)
  | .post _ (some task) _ =>
    inferInstanceAs (Decidable (TaskInvokerBase.isResumeSegment task →
      s.ctx.currentExecutingTaskId ≠ {} → s.ctx.deferredSelfResume.isNone))
  | .post _ none _ => inferInstanceAs (Decidable True)
  | .enter _ _ => inferInstanceAs (Decidable True)
  | .exit => inferInstanceAs (Decidable True)

/-! ## The accounting invariant -/

/-- The identities the thread falls back to, the current one first. -/
def identities (s : PostingThread I) : List TaskId :=
  s.ctx.currentExecutingTaskId :: s.guards.map (·.prevId)

/-- What holds as long as no segment has been overwritten: the outermost identity is
the invalid one, and a held segment names its runtime and one of the open contexts. -/
structure Accounted (s : PostingThread I) : Prop where
  rooted : (identities s).getLast? = some {}
  owned : ∀ task, s.ctx.deferredSelfResume = some task →
    TaskInvokerBase.isResumeSegment task ∧ s.ctx.deferredSelfResumeImpl.isSome ∧
      s.ctx.deferredSelfResumeOwner ≠ {} ∧ s.ctx.deferredSelfResumeOwner ∈ identities s
  balance : s.posted.Perm (publishedResumes s.published ++ held s.ctx)

@[simp] theorem publishedResumes_append (ps qs : List (Publication I)) :
    publishedResumes (ps ++ qs) = publishedResumes ps ++ publishedResumes qs :=
  List.flatMap_append

/-- A post hands its segment either to a queue or to a free slot. -/
theorem postTaskInternal_held (ctx : ThreadContext I) (impl : Impl) (task : Option I)
    (isExternal : Bool)
    (hfree : ∀ t, task = some t → TaskInvokerBase.isResumeSegment t →
      ctx.currentExecutingTaskId ≠ {} → ctx.deferredSelfResume.isNone) :
    publishedResumes (ctx.postTaskInternal impl task isExternal).2.toList ++
        held (ctx.postTaskInternal impl task isExternal).1 =
      postedResume impl task ++ held ctx := by
  cases task with
  | none => simp [ThreadContext.postTaskInternal, publishedResumes, postedResume]
  | some t =>
    by_cases hr : TaskInvokerBase.isResumeSegment t
    · by_cases hc : ctx.currentExecutingTaskId = {}
      · simp [ThreadContext.postTaskInternal, publishedResumes, postedResume, hc]
      · have hslot : held ctx = [] :=
          ThreadContext.held_of_free (Option.isNone_iff_eq_none.mp (hfree t rfl hr hc))
        rw [hslot, ThreadContext.postTaskInternal_deferred _ _ _ hr hc]
        simp [publishedResumes, postedResume, hr, ThreadContext.deferSelfResume, held]
    · simp [ThreadContext.postTaskInternal, publishedResumes, postedResume, hr]

theorem accounted_of_idle {s : PostingThread I} (h : Idle s) : Accounted s := by
  obtain ⟨hid, hslot, hguards, hposted, hpublished⟩ := h
  refine ⟨by simp [identities, hid, hguards], fun t ht => by simp [hslot] at ht, ?_⟩
  rw [ThreadContext.held_of_free hslot, hposted, hpublished]
  simp [publishedResumes]

theorem accounted_enter {s : PostingThread I} (h : Accounted s) (newId : TaskId)
    (newPriority : Priority) :
    Accounted { s with
      ctx := (s.ctx.enterTask newId newPriority).1
      guards := (s.ctx.enterTask newId newPriority).2 :: s.guards } := by
  refine ⟨?_, fun t ht => ?_, h.balance⟩
  · simpa [identities, ThreadContext.enterTask, List.getLast?_cons_cons] using h.rooted
  · obtain ⟨hres, himpl, hne, hmem⟩ := h.owned t ht
    exact ⟨hres, himpl, hne, List.mem_cons_of_mem _ hmem⟩

theorem accounted_exit {s : PostingThread I} {guard : TaskExecutionContextGuard}
    {guards : List TaskExecutionContextGuard} (h : Accounted s)
    (hg : s.guards = guard :: guards) :
    Accounted { s with
      ctx := (s.ctx.exitTask guard).1
      guards := guards
      published := s.published ++ (s.ctx.exitTask guard).2.toList } := by
  have hroot : (guard.prevId :: guards.map (·.prevId)).getLast? = some {} := by
    simpa only [identities, hg, List.map_cons, List.getLast?_cons_cons] using h.rooted
  cases hslot : s.ctx.deferredSelfResume with
  | none =>
    rw [ThreadContext.exitTask_empty hslot]
    refine ⟨hroot, fun t ht => ?_, ?_⟩
    · simp [ThreadContext.restoreTask, hslot] at ht
    · simpa [ThreadContext.restoreTask, held] using h.balance
  | some task =>
    obtain ⟨hres, himpl, hne, _⟩ := h.owned task hslot
    obtain ⟨impl, himpl⟩ := Option.isSome_iff_exists.mp himpl
    by_cases hprev : guard.prevId = {}
    · -- the outermost context: the segment is published
      rw [ThreadContext.exitTask_outermost hslot himpl hne hprev]
      refine ⟨hroot, fun t ht => ?_, ?_⟩
      · simp [ThreadContext.takeDeferred] at ht
      · simpa [ThreadContext.takeDeferred, held, hslot, himpl, publishedResumes, postedResume,
          hres] using h.balance
    · -- an enclosing task takes the segment over
      rw [ThreadContext.exitTask_enclosed hslot himpl hres hprev]
      refine ⟨hroot, fun t ht => ?_, ?_⟩
      · obtain rfl : task = t := by simpa [ThreadContext.restoreTask, hslot] using ht
        exact ⟨hres, by simp [ThreadContext.restoreTask, himpl], hprev, List.mem_cons_self⟩
      · simpa [ThreadContext.restoreTask, held] using h.balance

theorem accounted_post {s : PostingThread I} (h : Accounted s) (impl : Impl) (task : Option I)
    (isExternal : Bool) (hok : SlotFree s (.post impl task isExternal)) :
    Accounted { s with
      ctx := (s.ctx.postTaskInternal impl task isExternal).1
      posted := s.posted ++ postedResume impl task
      published := s.published ++ (s.ctx.postTaskInternal impl task isExternal).2.toList } := by
  have hheld := postTaskInternal_held s.ctx impl task isExternal (by
    rintro t rfl
    exact hok)
  have hbalance : (s.posted ++ postedResume impl task).Perm
      (publishedResumes (s.published ++ (s.ctx.postTaskInternal impl task isExternal).2.toList) ++
        held (s.ctx.postTaskInternal impl task isExternal).1) := by
    rw [publishedResumes_append, List.append_assoc, hheld]
    calc s.posted ++ postedResume impl task
        |>.Perm ((publishedResumes s.published ++ held s.ctx) ++ postedResume impl task) :=
          h.balance.append_right _
      _ |>.Perm (publishedResumes s.published ++ (postedResume impl task ++ held s.ctx)) := by
          rw [List.append_assoc]
          exact List.perm_append_comm.append_left _
  rcases ThreadContext.postTaskInternal_slot s.ctx impl task isExternal with
    hsame | ⟨t, ht, hres, hne, heq⟩
  · refine ⟨?_, fun t' ht' => ?_, hbalance⟩
    · simpa only [identities, hsame] using h.rooted
    · simp only [hsame, identities] at ht' ⊢
      exact h.owned t' ht'
  · refine ⟨?_, fun t' ht' => ?_, hbalance⟩
    · rw [heq]
      exact h.rooted
    · simp only [heq, identities] at ht' ⊢
      obtain rfl : t = t' := by simpa [ThreadContext.deferSelfResume] using ht'
      exact ⟨hres, rfl, hne, List.mem_cons_self⟩

/-- One step keeps the accounts as long as it finds the slot free. -/
theorem accounted_next {s s' : PostingThread I} {op : Op I} (h : Accounted s)
    (hok : SlotFree s op) (hn : next s op = some s') : Accounted s' := by
  cases op with
  | enter newId newPriority =>
    obtain rfl := Option.some.inj hn
    exact accounted_enter h newId newPriority
  | exit =>
    unfold next at hn
    cases hg : s.guards with
    | nil => simp [hg] at hn
    | cons guard guards =>
      simp only [hg] at hn
      obtain rfl := Option.some.inj hn
      exact accounted_exit h hg
  | post impl task isExternal =>
    obtain rfl := Option.some.inj hn
    exact accounted_post h impl task isExternal hok

/-- With no context open the thread executes no task, so nobody can own a segment. -/
theorem noResumeLost_of_accounted {s : PostingThread I} (h : Accounted s) : NoResumeLost s := by
  refine ⟨h.balance, fun hg => ?_⟩
  have hid : s.ctx.currentExecutingTaskId = {} := by
    simpa [identities, hg] using h.rooted
  have hslot : s.ctx.deferredSelfResume = none := by
    cases hs : s.ctx.deferredSelfResume with
    | none => rfl
    | some t =>
      obtain ⟨_, _, hne, hmem⟩ := h.owned t hs
      simp only [identities, hg, List.map_nil, List.mem_singleton] at hmem
      exact absurd (hmem.trans hid) hne
  simpa [ThreadContext.held_of_free hslot] using h.balance

/-- A second segment posted in one context is neither published nor held, while the
first one is destroyed: the logs can no longer balance. -/
theorem not_noResumeLost_of_occupied {s s' : PostingThread I} {op : Op I} (h : Accounted s)
    (hbad : ¬ SlotFree s op) (hn : next s op = some s') : ¬ NoResumeLost s' := by
  cases op with
  | enter => exact absurd trivial hbad
  | exit => exact absurd trivial hbad
  | post impl task isExternal =>
    cases task with
    | none => exact absurd trivial hbad
    | some t =>
      simp only [SlotFree, Classical.not_imp] at hbad
      obtain ⟨hres, hne, hslot⟩ := hbad
      obtain ⟨old, hold⟩ := Option.ne_none_iff_exists'.mp (mt Option.isNone_iff_eq_none.mpr hslot)
      obtain ⟨oldImpl, himpl⟩ := Option.isSome_iff_exists.mp (h.owned old hold).2.1
      simp only [next, ThreadContext.postTaskInternal_deferred _ _ _ hres hne] at hn
      obtain rfl := Option.some.inj hn
      intro hlost
      have hnew := hlost.balance.length_eq
      have hbefore := h.balance.length_eq
      simp [hres, ThreadContext.deferSelfResume, held, postedResume] at hnew
      simp [held, himpl, hold] at hbefore
      omega

/-- A worker of the runtime it posts to, with nothing entered and nothing held. -/
def idleWorker : PostingThread Invoker :=
  { ctx :=
      { currentWorkerRuntimeId := ⟨1⟩
        currentWorkerImpl := some 4096
        currentWorkerIndex := 0 } }

/-- The runtime of `idleWorker`. -/
def workerImpl : Impl := { address := 4096, runtimeId := ⟨1⟩, workerCount := 1 }

/-- **No resume segment is lost exactly when no post finds the slot occupied.**  In a
run of one thread through any nesting of contexts, every state accounts for every
segment posted if and only if each segment posted inside a context found the
thread's deferred slot empty. -/
theorem noResumeLost_iff_slotFree (s : PostingThread I) (hs : Idle s) (ops : List (Op I))
    (hrun : ((thread I).run s ops).isSome) :
    (thread I).EveryState NoResumeLost s ops ↔ (thread I).EveryStep SlotFree s ops :=
  Machine.everyState_iff_everyStep Accounted (fun _ => noResumeLost_of_accounted)
    (fun _ _ _ => accounted_next) (fun _ _ _ => not_noResumeLost_of_occupied)
    (accounted_of_idle hs) hrun

theorem noResumeLost_one_waiter :
    (thread Invoker).EveryState NoResumeLost idleWorker
      [.enter ⟨⟨1⟩, 7⟩ .normal,
        .post workerImpl (some { object := 1, resumeSegment := true }) false,
        .exit] :=
  (noResumeLost_iff_slotFree idleWorker ⟨rfl, rfl, rfl, rfl, rfl⟩ _ (by decide)).mpr (by decide)

/-- A task finishes while two coroutines await it, and its context is left. -/
def finishWithTwoWaiters : List (Op Invoker) :=
  [.enter ⟨⟨1⟩, 7⟩ .normal,
    .post workerImpl (some { object := 1, resumeSegment := true }) false,
    .post workerImpl (some { object := 2, resumeSegment := true }) false,
    .exit]

theorem finishWithTwoWaiters_loses_resume :
    Idle idleWorker ∧ ((thread Invoker).run idleWorker finishWithTwoWaiters).isSome ∧
      ¬ (thread Invoker).EveryState NoResumeLost idleWorker finishWithTwoWaiters := by
  refine ⟨⟨rfl, rfl, rfl, rfl, rfl⟩, by decide, fun h => ?_⟩
  obtain ⟨s, hs⟩ := Option.isSome_iff_exists.mp
    (show ((thread Invoker).run idleWorker finishWithTwoWaiters).isSome by decide)
  have hlast := (h.last hs).balance.length_eq
  obtain rfl := Option.some.inj hs
  revert hlast
  decide

/-! ## Several completions inside one context -/

/-- The posts a finishing task makes for the coroutines that await it. -/
def resumeWaiters (waiters : List (Impl × I)) : List (Op I) :=
  waiters.map fun w => .post w.1 (some w.2) false

theorem next_post_resume {s : PostingThread I} {impl : Impl} {task : I}
    (hres : TaskInvokerBase.isResumeSegment task) (hctx : s.ctx.currentExecutingTaskId ≠ {}) :
    (thread I).next s (.post impl (some task) false) =
      some { s with
        ctx := s.ctx.deferSelfResume impl task
        posted := s.posted ++ [(impl, task)] } := by
  simp [thread, next, ThreadContext.postTaskInternal_deferred _ _ _ hres hctx, postedResume, hres]

/-- **Only the last waiter survives.**  However many coroutines a task resumes from
inside its own context, the slot ends up with the last one and no queue has seen
any of the others. -/
theorem run_resumeWaiters (s : PostingThread I) (hctx : s.ctx.currentExecutingTaskId ≠ {})
    (waiters : List (Impl × I)) (last : Impl × I)
    (hres : ∀ w ∈ waiters ++ [last], TaskInvokerBase.isResumeSegment w.2) :
    (thread I).run s (resumeWaiters (waiters ++ [last])) =
      some { s with
        ctx := s.ctx.deferSelfResume last.1 last.2
        posted := s.posted ++ (waiters ++ [last]) } := by
  induction waiters generalizing s with
  | nil =>
    have hlast : TaskInvokerBase.isResumeSegment last.2 := hres last (by simp)
    simp [resumeWaiters, Machine.run, next_post_resume hlast hctx]
  | cons w waiters ih =>
    have hw : TaskInvokerBase.isResumeSegment w.2 := hres w (by simp)
    have hrest := ih
      { s with
        ctx := s.ctx.deferSelfResume w.1 w.2
        posted := s.posted ++ [(w.1, w.2)] } hctx
      (fun v hv => hres v (List.mem_cons_of_mem _ hv))
    have hcons : resumeWaiters (w :: waiters ++ [last]) =
        .post w.1 (some w.2) false :: resumeWaiters (waiters ++ [last]) := rfl
    rw [hcons, Machine.run, next_post_resume hw hctx, Option.bind_some, hrest]
    simp [ThreadContext.deferSelfResume]

end DeferredResume
end AstraScheduler
