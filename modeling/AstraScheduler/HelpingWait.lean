import AstraScheduler.ThreadContext

/-! # Helping waits on one worker

A task that waits on a worker thread helps: it claims ready invokers and runs them
on top of its own stack frame until its target is complete.  Each invoker enters
one or two task contexts (the submission gate and a coroutine body each hold a
guard, a resume segment holds one), so the thread's deferred slot is flushed under
the identity of the waiting task when the nested segment returns.

The loop can only claim what is in a queue.  This module asks when the slot hides a
segment from the wait that started it. -/

namespace AstraScheduler
namespace HelpingWait

open Transition (Machine)

/-- A queued invoker: the task it belongs to and whether it resumes that task. -/
structure Segment where
  task : TaskId
  resume : Bool
  deriving DecidableEq, Repr

instance : TaskInvokerBase Segment where
  isResumeSegment := Segment.resume
  priority _ := .normal
  deadline _ := none

/-- What a caller wait can wait for. -/
inductive Target where
  | task (id : TaskId)
  | graphRun (id : Nat)
  deriving DecidableEq, Repr

/-- An invoker being executed: its guards and the target it waits for, if it is
inside `perform_helping_loop`. -/
structure Frame where
  task : TaskId
  outer : TaskExecutionContextGuard
  inner : Option TaskExecutionContextGuard
  waiting : Option Target := none
  deriving DecidableEq, Repr

/-- A worker thread, its frames (innermost first), the invokers the queues of its
runtime offer it, and the targets that are complete. -/
structure HelpingWorker where
  ctx : ThreadContext Segment := {}
  frames : List Frame := []
  ready : List Segment := []
  complete : List Target := []
  deriving DecidableEq, Repr

/-- The steps of the worker, and those of other threads that it can observe. -/
inductive Label where
  /-- The worker loop or the helping loop claims and starts executing an invoker;
  `gated` when the invoker's body holds a guard of its own. -/
  | claim (segment : Segment) (gated : Bool)
  /-- `perform_caller_wait` or `perform_graph_caller_wait`. -/
  | beginWait (target : Target)
  /-- The helping loop is left: target complete, or deadline passed. -/
  | endWait
  /-- Running code posts an invoker to some runtime. -/
  | post (impl : Impl) (segment : Segment)
  /-- The running invoker returns from `execute`. -/
  | segmentReturn
  /-- A target becomes complete, on this thread or on another. -/
  | complete (target : Target)
  /-- Another thread publishes an invoker to this runtime. -/
  | publishElsewhere (segment : Segment)
  /-- Another worker claims an invoker. -/
  | claimElsewhere (segment : Segment)
  deriving DecidableEq, Repr

/-- The invokers a publication adds to the queues of the runtime `own`. -/
def offered (own : Impl) : Option (Publication Segment) → List Segment
  | none => []
  | some p => if p.impl = own then [p.task] else []

/-- `SubmittedInvokerGate::execute` or `CoroutineResumeInvoker::execute`: enter the
context, twice when the body holds its own guard. -/
def enterFrame (ctx : ThreadContext Segment) (task : TaskId) (gated : Bool) :
    ThreadContext Segment × Frame :=
  let (ctx, outer) := ctx.enterTask task .normal
  if gated then
    let (ctx, inner) := ctx.enterTask task .normal
    (ctx, { task := task, outer := outer, inner := some inner })
  else
    (ctx, { task := task, outer := outer, inner := none })

/-- The guards are destroyed in reverse order; each destructor may publish. -/
def exitFrame (own : Impl) (ctx : ThreadContext Segment) (frame : Frame) :
    ThreadContext Segment × List Segment :=
  let (ctx, first) :=
    match frame.inner with
    | none => (ctx, none)
    | some guard => ctx.exitTask guard
  let (ctx, second) := ctx.exitTask frame.outer
  (ctx, offered own first ++ offered own second)

/-- The worker may claim: it is in its own loop, or its innermost frame is inside a
helping loop whose target is not complete. -/
def mayClaim (w : HelpingWorker) : Bool :=
  match w.frames with
  | [] => true
  | frame :: _ =>
    match frame.waiting with
    | none => false
    | some target => target ∉ w.complete

/-- The innermost frame runs task code, or no frame is open. -/
def executing (w : HelpingWorker) : Bool :=
  match w.frames with
  | [] => true
  | frame :: _ => frame.waiting.isNone

/-- `t_current_helping_depth`. -/
def helpingDepth (w : HelpingWorker) : Nat :=
  w.frames.countP fun frame => frame.waiting.isSome

/-- One step of the worker whose runtime is `own`. -/
def next (own : Impl) (maxHelpingDepth : Nat) (w : HelpingWorker) :
    Label → Option HelpingWorker
  | .claim segment gated =>
    if mayClaim w ∧ segment ∈ w.ready then
      let (ctx, frame) := enterFrame w.ctx segment.task gated
      some { w with ctx := ctx, frames := frame :: w.frames, ready := w.ready.erase segment }
    else none
  | .beginWait target =>
    match w.frames with
    | [] => none
    | frame :: frames =>
      -- a direct self-wait throws before anything else happens
      if frame.waiting.isSome ∨ target = .task frame.task then none
      else if target ∈ w.complete then some w
      else if maxHelpingDepth ≤ helpingDepth w then none
      else some { w with frames := { frame with waiting := some target } :: frames }
  | .endWait =>
    match w.frames with
    | [] => none
    | frame :: frames =>
      if frame.waiting.isSome then
        some { w with frames := { frame with waiting := none } :: frames }
      else none
  | .post impl segment =>
    if executing w ∧ segment.task.valid then
      let (ctx, publication) := w.ctx.postTaskInternal impl (some segment) false
      some { w with ctx := ctx, ready := w.ready ++ offered own publication }
    else none
  | .segmentReturn =>
    match w.frames with
    | [] => none
    | frame :: frames =>
      if frame.waiting.isSome then none
      else
        let (ctx, segments) := exitFrame own w.ctx frame
        some { w with ctx := ctx, frames := frames, ready := w.ready ++ segments }
  | .complete target => some { w with complete := target :: w.complete }
  | .publishElsewhere segment =>
    if segment.task.valid then some { w with ready := w.ready ++ [segment] } else none
  | .claimElsewhere segment =>
    if segment ∈ w.ready then some { w with ready := w.ready.erase segment } else none

/-- A worker that has entered no task and holds nothing. -/
def Idle (w : HelpingWorker) : Prop :=
  w.ctx.currentExecutingTaskId = {} ∧ w.ctx.deferredSelfResume = none ∧ w.frames = [] ∧
    ∀ segment ∈ w.ready, segment.task.valid

/-- A worker of the runtime `own` as a machine. -/
def worker (own : Impl) (maxHelpingDepth : Nat) : Machine HelpingWorker Label where
  init := Idle
  next := next own maxHelpingDepth

/-- The task whose helping loop is about to attempt a claim, and its target. -/
def helping (w : HelpingWorker) : Option (TaskId × Target) :=
  match w.frames with
  | [] => none
  | frame :: _ =>
    match frame.waiting with
    | none => none
    | some target => if target ∈ w.complete then none else some (frame.task, target)

/-- **Helping waits see nested resumes**: when a helping loop attempts a claim, the
slot holds no segment of another task, and never the target's own resume. -/
structure SeesNestedResumes (w : HelpingWorker) : Prop where
  noForeign : ∀ task target, helping w = some (task, target) →
    ∀ segment, w.ctx.deferredSelfResume = some segment → segment.task = task
  targetNotHeld : ∀ task id, helping w = some (task, .task id) →
    ∀ segment, w.ctx.deferredSelfResume = some segment → segment.task ≠ id

/-- The slot is empty or holds a segment of `task`. -/
def HoldsOnly (w : HelpingWorker) (task : TaskId) : Prop :=
  ∀ segment ∈ w.ctx.deferredSelfResume, segment.task = task

/-- No flush happens under a waiting task, and no wait begins, while the slot holds
another task's segment and the target is still incomplete. -/
def FlushesBeforeHelping (w : HelpingWorker) : Label → Prop
  | .beginWait target =>
    ∀ frame ∈ w.frames.head?, target ∉ w.complete → HoldsOnly w frame.task
  | .segmentReturn =>
    ∀ enclosing ∈ w.frames.tail.head?, ∀ target ∈ enclosing.waiting, target ∉ w.complete →
      HoldsOnly w enclosing.task
  | _ => True

instance (w : HelpingWorker) (task : TaskId) : Decidable (HoldsOnly w task) :=
  inferInstanceAs (Decidable (∀ segment ∈ w.ctx.deferredSelfResume, segment.task = task))

instance (w : HelpingWorker) : (label : Label) → Decidable (FlushesBeforeHelping w label)
  | .beginWait target =>
    inferInstanceAs (Decidable (∀ frame ∈ w.frames.head?, target ∉ w.complete →
      HoldsOnly w frame.task))
  | .segmentReturn =>
    inferInstanceAs (Decidable (∀ enclosing ∈ w.frames.tail.head?, ∀ target ∈ enclosing.waiting,
      target ∉ w.complete → HoldsOnly w enclosing.task))
  | .claim _ _ | .endWait | .post _ _ | .complete _ | .publishElsewhere _ | .claimElsewhere _ =>
    inferInstanceAs (Decidable True)

/-! ## Frames, guards and the slot -/

/-- The identity the frames below restore. -/
def contextTask : List Frame → TaskId
  | [] => {}
  | frame :: _ => frame.task

/-- Every guard remembers what it must put back, and no frame waits for itself. -/
def WellNested : List Frame → Prop
  | [] => True
  | frame :: frames =>
    frame.task ≠ {} ∧ frame.outer.prevId = contextTask frames ∧
      (∀ guard, frame.inner = some guard → guard.prevId = frame.task) ∧
      frame.waiting ≠ some (.task frame.task) ∧ WellNested frames

/-- A segment in the slot is a resume of a valid task, with its runtime and an owner. -/
def SlotSound (ctx : ThreadContext Segment) : Prop :=
  ∀ segment, ctx.deferredSelfResume = some segment →
    segment.task.valid ∧ segment.resume ∧ ctx.deferredSelfResumeImpl.isSome ∧
      ctx.deferredSelfResumeOwner ≠ {}

/-- The identities, the guards and the slot agree. -/
structure Consistent (w : HelpingWorker) : Prop where
  current : w.ctx.currentExecutingTaskId = contextTask w.frames
  nested : WellNested w.frames
  slot : SlotSound w.ctx
  idle : w.frames = [] → w.ctx.deferredSelfResume = none
  ready : ∀ segment ∈ w.ready, segment.task.valid

theorem ne_default_of_valid {task : TaskId} (h : task.valid) : task ≠ {} := by
  rintro rfl
  simp [TaskId.valid] at h

/-- What one guard does on destruction: the slot stays as it is inside an enclosing
task and is emptied outside of every task. -/
theorem exitTask_slot {ctx : ThreadContext Segment} (h : SlotSound ctx)
    (guard : TaskExecutionContextGuard) :
    SlotSound (ctx.exitTask guard).1 ∧
      (ctx.exitTask guard).1.currentExecutingTaskId = guard.prevId ∧
      (guard.prevId ≠ {} →
        (ctx.exitTask guard).1.deferredSelfResume = ctx.deferredSelfResume) ∧
      (guard.prevId = {} → (ctx.exitTask guard).1.deferredSelfResume = none) ∧
      ∀ p ∈ (ctx.exitTask guard).2, p.task.task.valid := by
  cases hslot : ctx.deferredSelfResume with
  | none =>
    rw [ThreadContext.exitTask_empty hslot]
    refine ⟨fun segment hs => ?_, rfl, fun _ => hslot, fun _ => hslot, by simp⟩
    simp [ThreadContext.restoreTask, hslot] at hs
  | some segment =>
    obtain ⟨hvalid, hres, himpl, howner⟩ := h segment hslot
    obtain ⟨impl, himpl⟩ := Option.isSome_iff_exists.mp himpl
    by_cases hprev : guard.prevId = {}
    · rw [ThreadContext.exitTask_outermost hslot himpl howner hprev]
      refine ⟨fun s hs => ?_, rfl, fun hne => absurd hprev hne, fun _ => rfl, ?_⟩
      · simp [ThreadContext.takeDeferred] at hs
      · rintro p ⟨rfl⟩
        exact hvalid
    · rw [ThreadContext.exitTask_enclosed hslot himpl hres hprev]
      refine ⟨fun s hs => ?_, rfl, fun _ => hslot, fun h => absurd h hprev, by simp⟩
      obtain rfl : segment = s := Option.some.inj (hslot.symm.trans hs)
      exact ⟨hvalid, hres, by simp [ThreadContext.restoreTask, himpl], hprev⟩

theorem offered_valid {own : Impl} {p : Option (Publication Segment)}
    (h : ∀ q ∈ p, q.task.task.valid) : ∀ segment ∈ offered own p, segment.task.valid := by
  intro segment hs
  cases p with
  | none => cases hs
  | some q =>
    by_cases hq : q.impl = own
    · obtain rfl : segment = q.task := by simpa [offered, hq] using hs
      exact h q rfl
    · simp [offered, hq] at hs

/-- A frame that returns leaves the slot to the task that called it, and empties it
when nobody did. -/
theorem exitFrame_slot (own : Impl) {ctx : ThreadContext Segment} {frame : Frame}
    {frames : List Frame} (h : SlotSound ctx) (hn : WellNested (frame :: frames)) :
    SlotSound (exitFrame own ctx frame).1 ∧
      (exitFrame own ctx frame).1.currentExecutingTaskId = contextTask frames ∧
      (frames ≠ [] →
        (exitFrame own ctx frame).1.deferredSelfResume = ctx.deferredSelfResume) ∧
      (frames = [] → (exitFrame own ctx frame).1.deferredSelfResume = none) ∧
      ∀ segment ∈ (exitFrame own ctx frame).2, segment.task.valid := by
  obtain ⟨hne, houter, hinner, _, hrest⟩ := hn
  have hctx : frames ≠ [] → contextTask frames ≠ {} := by
    intro hf
    cases frames with
    | nil => exact absurd rfl hf
    | cons f fs => exact hrest.1
  cases hin : frame.inner with
  | none =>
    obtain ⟨hs, hcur, hkeep, hdrop, hpub⟩ := exitTask_slot h frame.outer
    simp only [exitFrame, hin]
    refine ⟨hs, hcur.trans houter, fun hf => hkeep (houter ▸ hctx hf), fun hf => hdrop ?_, ?_⟩
    · rw [houter, hf]
      rfl
    · simpa [offered] using offered_valid hpub
  | some guard =>
    obtain ⟨hs, _, hkeep, _, hpub⟩ := exitTask_slot h guard
    obtain ⟨hs', hcur', hkeep', hdrop', hpub'⟩ := exitTask_slot hs frame.outer
    simp only [exitFrame, hin]
    refine ⟨hs', hcur'.trans houter, fun hf => ?_, fun hf => hdrop' ?_, ?_⟩
    · rw [hkeep' (houter ▸ hctx hf), hkeep (hinner guard hin ▸ hne)]
    · rw [houter, hf]
      rfl
    · intro segment hseg
      rcases List.mem_append.mp hseg with hseg | hseg
      · exact offered_valid hpub segment hseg
      · exact offered_valid hpub' segment hseg

theorem enterFrame_ctx (ctx : ThreadContext Segment) (task : TaskId) (gated : Bool) :
    (enterFrame ctx task gated).1.currentExecutingTaskId = task ∧
      (enterFrame ctx task gated).1.deferredSelfResume = ctx.deferredSelfResume ∧
      (enterFrame ctx task gated).1.deferredSelfResumeImpl = ctx.deferredSelfResumeImpl ∧
      (enterFrame ctx task gated).1.deferredSelfResumeOwner = ctx.deferredSelfResumeOwner := by
  cases gated <;> exact ⟨rfl, rfl, rfl, rfl⟩

theorem enterFrame_nested {ctx : ThreadContext Segment} {task : TaskId} {gated : Bool}
    {frames : List Frame} (htask : task ≠ {}) (hcur : ctx.currentExecutingTaskId = contextTask frames)
    (hn : WellNested frames) : WellNested ((enterFrame ctx task gated).2 :: frames) := by
  cases gated with
  | false => exact ⟨htask, hcur, by simp [enterFrame], by simp [enterFrame], hn⟩
  | true =>
    refine ⟨htask, hcur, ?_, by simp [enterFrame], hn⟩
    rintro guard ⟨rfl⟩
    rfl

theorem consistent_of_idle {w : HelpingWorker} (h : Idle w) : Consistent w := by
  obtain ⟨hcur, hslot, hframes, hready⟩ := h
  refine ⟨by rw [hcur, hframes]; rfl, by rw [hframes]; trivial, ?_, fun _ => hslot, hready⟩
  intro segment hs
  simp [hslot] at hs

/-- A post fills the slot only from inside a task context. -/
theorem post_slot {ctx : ThreadContext Segment} (h : SlotSound ctx) (impl : Impl)
    {segment : Segment} (hvalid : segment.task.valid) :
    SlotSound (ctx.postTaskInternal impl (some segment) false).1 ∧
      (ctx.postTaskInternal impl (some segment) false).1.currentExecutingTaskId =
        ctx.currentExecutingTaskId ∧
      (ctx.currentExecutingTaskId = {} →
        (ctx.postTaskInternal impl (some segment) false).1 = ctx) ∧
      ∀ p ∈ (ctx.postTaskInternal impl (some segment) false).2, p.task.task.valid := by
  by_cases hd : segment.resume ∧ ctx.currentExecutingTaskId ≠ {}
  · rw [ThreadContext.postTaskInternal_deferred impl segment false hd.1 hd.2]
    refine ⟨fun s hs => ?_, rfl, fun hcur => absurd hcur hd.2, by simp⟩
    obtain rfl : segment = s := Option.some.inj hs
    exact ⟨hvalid, hd.1, rfl, hd.2⟩
  · have hpub : ctx.postTaskInternal impl (some segment) false =
        (ctx, some
          { impl := impl
            task := segment
            isExternal := false
            useLocalQueue := ctx.useLocalQueue impl false
            workerIndex := ctx.currentWorkerIndex }) := by
      unfold ThreadContext.postTaskInternal
      exact if_neg (by simpa [TaskInvokerBase.isResumeSegment] using hd)
    rw [hpub]
    refine ⟨h, rfl, fun _ => rfl, ?_⟩
    rintro p ⟨rfl⟩
    exact hvalid

/-! ## What a step does -/

variable {own : Impl} {depth : Nat} {w w' : HelpingWorker}

theorem consistent_claim {segment : Segment} {gated : Bool} (h : Consistent w)
    (hn : next own depth w (.claim segment gated) = some w') : Consistent w' := by
  simp only [next] at hn
  split at hn
  · rename_i hclaim
    obtain rfl := Option.some.inj hn
    have hvalid := h.ready segment hclaim.2
    obtain ⟨hcur, hslot, himpl, howner⟩ := enterFrame_ctx w.ctx segment.task gated
    refine ⟨?_, enterFrame_nested (ne_default_of_valid hvalid) h.current h.nested, ?_, ?_, ?_⟩
    · rw [hcur]
      cases gated <;> rfl
    · intro s hs
      rw [hslot] at hs
      rw [himpl, howner]
      exact h.slot s hs
    · intro hframes
      cases hframes
    · exact fun s hs => h.ready s (List.mem_of_mem_erase hs)
  · cases hn

theorem consistent_beginWait {target : Target} (h : Consistent w)
    (hn : next own depth w (.beginWait target) = some w') : Consistent w' := by
  simp only [next] at hn
  cases hf : w.frames with
  | nil => simp [hf] at hn
  | cons frame frames =>
    simp only [hf] at hn
    have hnest := h.nested
    have hcur := h.current
    rw [hf] at hnest hcur
    split at hn
    · cases hn
    rename_i hself
    split at hn
    · obtain rfl := Option.some.inj hn
      exact h
    split at hn
    · cases hn
    obtain rfl := Option.some.inj hn
    obtain ⟨hne, houter, hinner, _, hrest⟩ := hnest
    refine ⟨hcur, ⟨hne, houter, hinner, ?_, hrest⟩, h.slot, by simp, h.ready⟩
    intro hwait
    exact hself (Or.inr (Option.some.inj hwait))

theorem consistent_endWait (h : Consistent w)
    (hn : next own depth w .endWait = some w') : Consistent w' := by
  simp only [next] at hn
  cases hf : w.frames with
  | nil => simp [hf] at hn
  | cons frame frames =>
    simp only [hf] at hn
    have hnest := h.nested
    have hcur := h.current
    rw [hf] at hnest hcur
    split at hn
    · obtain rfl := Option.some.inj hn
      obtain ⟨hne, houter, hinner, _, hrest⟩ := hnest
      exact ⟨hcur, ⟨hne, houter, hinner, by simp, hrest⟩, h.slot, by simp, h.ready⟩
    · cases hn

theorem consistent_post {impl : Impl} {segment : Segment} (h : Consistent w)
    (hn : next own depth w (.post impl segment) = some w') : Consistent w' := by
  simp only [next] at hn
  split at hn
  · rename_i hpost
    obtain rfl := Option.some.inj hn
    obtain ⟨hslot, hcur, hidle, hpub⟩ := post_slot h.slot impl hpost.2
    refine ⟨hcur.trans h.current, h.nested, hslot, fun hframes => ?_, ?_⟩
    · have hnone : w.ctx.currentExecutingTaskId = {} := by
        rw [h.current, show w.frames = [] from hframes]
        rfl
      show (w.ctx.postTaskInternal impl (some segment) false).1.deferredSelfResume = none
      rw [hidle hnone]
      exact h.idle hframes
    · intro s hs
      rcases List.mem_append.mp hs with hs | hs
      · exact h.ready s hs
      · exact offered_valid hpub s hs
  · cases hn

theorem consistent_segmentReturn (h : Consistent w)
    (hn : next own depth w .segmentReturn = some w') :
    Consistent w' ∧ ∃ frame, w.frames = frame :: w'.frames ∧ w'.complete = w.complete ∧
      (w'.frames ≠ [] → w'.ctx.deferredSelfResume = w.ctx.deferredSelfResume) := by
  simp only [next] at hn
  cases hf : w.frames with
  | nil => simp [hf] at hn
  | cons frame frames =>
    simp only [hf] at hn
    have hnest := h.nested
    rw [hf] at hnest
    split at hn
    · cases hn
    obtain rfl := Option.some.inj hn
    obtain ⟨hslot, hcur, hkeep, hdrop, hpub⟩ := exitFrame_slot own h.slot hnest
    refine ⟨⟨hcur, hnest.2.2.2.2, hslot, hdrop, ?_⟩, frame, rfl, rfl, hkeep⟩
    intro s hs
    rcases List.mem_append.mp hs with hs | hs
    · exact h.ready s hs
    · exact hpub s hs

/-- Every step keeps the identities, the guards and the slot in agreement. -/
theorem consistent_next {label : Label} (h : Consistent w)
    (hn : next own depth w label = some w') : Consistent w' := by
  cases label with
  | claim segment gated => exact consistent_claim h hn
  | beginWait target => exact consistent_beginWait h hn
  | endWait => exact consistent_endWait h hn
  | post impl segment => exact consistent_post h hn
  | segmentReturn => exact (consistent_segmentReturn h hn).1
  | complete target =>
    obtain rfl := Option.some.inj hn
    exact ⟨h.current, h.nested, h.slot, h.idle, h.ready⟩
  | publishElsewhere segment =>
    simp only [next] at hn
    split at hn
    · rename_i hvalid
      obtain rfl := Option.some.inj hn
      refine ⟨h.current, h.nested, h.slot, h.idle, fun s hs => ?_⟩
      rcases List.mem_append.mp hs with hs | hs
      · exact h.ready s hs
      · obtain rfl := List.mem_singleton.mp hs
        exact hvalid
    · cases hn
  | claimElsewhere segment =>
    simp only [next] at hn
    split at hn
    · obtain rfl := Option.some.inj hn
      exact ⟨h.current, h.nested, h.slot, h.idle, fun s hs => h.ready s (List.mem_of_mem_erase hs)⟩
    · cases hn

/-! ## What a helping loop sees -/

theorem helping_eq_some {task : TaskId} {target : Target} :
    helping w = some (task, target) ↔
      ∃ frame frames, w.frames = frame :: frames ∧ frame.task = task ∧
        frame.waiting = some target ∧ target ∉ w.complete := by
  unfold helping
  cases hf : w.frames with
  | nil => simp
  | cons frame frames =>
    cases hw : frame.waiting with
    | none => simp [hw]
    | some t =>
      by_cases hc : t ∈ w.complete
      · simp only [hw, hc, if_true, reduceCtorEq, List.cons.injEq, false_iff]
        rintro ⟨f, fs, ⟨rfl, rfl⟩, -, ht, hnot⟩
        rw [hw] at ht
        exact hnot (Option.some.inj ht ▸ hc)
      · simp only [hw, hc, if_false, Option.some.injEq, Prod.mk.injEq, List.cons.injEq]
        constructor
        · rintro ⟨rfl, rfl⟩
          exact ⟨frame, frames, ⟨rfl, rfl⟩, rfl, hw, hc⟩
        · rintro ⟨f, fs, ⟨rfl, rfl⟩, htask, ht, _⟩
          exact ⟨htask, Option.some.inj (hw.symm.trans ht)⟩

/-- The property in terms of the innermost frame. -/
theorem sees_iff (h : Consistent w) :
    SeesNestedResumes w ↔
      ∀ frame frames target, w.frames = frame :: frames → frame.waiting = some target →
        target ∉ w.complete → HoldsOnly w frame.task := by
  constructor
  · intro hsees frame frames target hf hw hc segment hs
    exact hsees.noForeign frame.task target
      (helping_eq_some.mpr ⟨frame, frames, hf, rfl, hw, hc⟩) segment hs
  · intro hall
    refine ⟨fun task target hh segment hs => ?_, fun task id hh segment hs => ?_⟩
    · obtain ⟨frame, frames, hf, rfl, hw, hc⟩ := helping_eq_some.mp hh
      exact hall frame frames target hf hw hc segment hs
    · obtain ⟨frame, frames, hf, rfl, hw, hc⟩ := helping_eq_some.mp hh
      have htask := hall frame frames _ hf hw hc segment hs
      -- a frame never waits for its own task
      have hnest := h.nested
      rw [hf] at hnest
      rintro rfl
      exact hnest.2.2.2.1 (htask ▸ hw)

/-- A wait begins in front of whatever the slot holds. -/
theorem sees_beginWait {target : Target} (h : Consistent w) (hsees : SeesNestedResumes w)
    (hn : next own depth w (.beginWait target) = some w') :
    SeesNestedResumes w' ↔ FlushesBeforeHelping w (.beginWait target) := by
  have h' := consistent_beginWait h hn
  rw [sees_iff h']
  simp only [next] at hn
  cases hf : w.frames with
  | nil => simp [hf] at hn
  | cons frame frames =>
    simp only [hf] at hn
    simp only [FlushesBeforeHelping, hf, List.head?_cons, Option.mem_def, Option.some.injEq,
      forall_eq']
    split at hn
    · cases hn
    split at hn
    · rename_i hc
      obtain rfl := Option.some.inj hn
      exact ⟨fun _ hnot => absurd hc hnot, fun _ => (sees_iff h).mp hsees⟩
    split at hn
    · cases hn
    obtain rfl := Option.some.inj hn
    constructor
    · intro hall hc
      exact hall { frame with waiting := some target } frames target rfl rfl hc
    · rintro hall _ _ t ⟨rfl, rfl⟩ ht hc
      obtain rfl := Option.some.inj ht
      exact hall hc

/-- A nested segment returns into the helping loop of its caller, and takes the slot
with it. -/
theorem sees_segmentReturn (h : Consistent w)
    (hn : next own depth w .segmentReturn = some w') :
    SeesNestedResumes w' ↔ FlushesBeforeHelping w .segmentReturn := by
  obtain ⟨h', frame, hf, hc, hkeep⟩ := consistent_segmentReturn h hn
  rw [sees_iff h']
  simp only [FlushesBeforeHelping, hf, List.tail_cons]
  cases hw : w'.frames with
  | nil => simp
  | cons enclosing frames =>
    simp only [List.head?_cons, Option.mem_def, Option.some.injEq, forall_eq']
    have hslot := hkeep (by simp [hw])
    unfold HoldsOnly
    rw [hslot, hc]
    constructor
    · intro hall target ht hnot
      exact hall enclosing frames target rfl ht hnot
    · rintro hall _ _ target ⟨rfl, rfl⟩ ht hnot
      exact hall target ht hnot

/-- Every other step either leaves the innermost frame outside of a helping loop or
leaves the slot and the frames alone. -/
theorem sees_other {label : Label} (h : Consistent w) (hsees : SeesNestedResumes w)
    (hwait : ∀ target, label ≠ .beginWait target) (hret : label ≠ .segmentReturn)
    (hn : next own depth w label = some w') : SeesNestedResumes w' := by
  have h' := consistent_next h hn
  rw [sees_iff h']
  rw [sees_iff h] at hsees
  cases label with
  | beginWait target => exact absurd rfl (hwait target)
  | segmentReturn => exact absurd rfl hret
  | claim segment gated =>
    simp only [next] at hn
    split at hn
    · obtain rfl := Option.some.inj hn
      rintro frame frames target ⟨rfl, rfl⟩ hw
      cases gated <;> cases hw
    · cases hn
  | endWait =>
    simp only [next] at hn
    cases hf : w.frames with
    | nil => simp [hf] at hn
    | cons frame frames =>
      simp only [hf] at hn
      split at hn
      · obtain rfl := Option.some.inj hn
        rintro _ _ target ⟨rfl, rfl⟩ hw
        cases hw
      · cases hn
  | post impl segment =>
    simp only [next] at hn
    split at hn
    · rename_i hpost
      obtain rfl := Option.some.inj hn
      intro frame frames target hf hw
      have hexec := hpost.1
      simp only [executing, show w.frames = frame :: frames from hf, hw] at hexec
      cases hexec
    · cases hn
  | complete target =>
    obtain rfl := Option.some.inj hn
    intro frame frames t hf hw hnot
    exact hsees frame frames t hf hw (fun hc => hnot (List.mem_cons_of_mem _ hc))
  | publishElsewhere segment =>
    simp only [next] at hn
    split at hn
    · obtain rfl := Option.some.inj hn
      exact hsees
    · cases hn
  | claimElsewhere segment =>
    simp only [next] at hn
    split at hn
    · obtain rfl := Option.some.inj hn
      exact hsees
    · cases hn

theorem sees_next {label : Label} (h : Consistent w) (hsees : SeesNestedResumes w)
    (hn : next own depth w label = some w') :
    SeesNestedResumes w' ↔ FlushesBeforeHelping w label := by
  by_cases hwait : ∃ target, label = .beginWait target
  · obtain ⟨target, rfl⟩ := hwait
    exact sees_beginWait h hsees hn
  by_cases hret : label = .segmentReturn
  · subst hret
    exact sees_segmentReturn h hn
  · refine iff_of_true (sees_other h hsees (fun target ht => hwait ⟨target, ht⟩) hret hn) ?_
    cases label with
    | beginWait target => exact absurd ⟨target, rfl⟩ hwait
    | segmentReturn => exact absurd rfl hret
    | _ => trivial

/-- **Helping waits see nested resumes exactly when nothing foreign is in the slot at
the two places where a helping loop takes over**: where a wait begins, and where a
segment nested in a wait returns to a loop whose target is still incomplete. -/
theorem seesNestedResumes_iff_flushesBeforeHelping (own : Impl) (depth : Nat)
    (w : HelpingWorker) (hw : Idle w) (labels : List Label)
    (hrun : ((worker own depth).run w labels).isSome) :
    (worker own depth).EveryState SeesNestedResumes w labels ↔
      (worker own depth).EveryStep FlushesBeforeHelping w labels := by
  refine Machine.everyState_iff_everyStep (fun w => Consistent w ∧ SeesNestedResumes w)
    (fun _ h => h.2) (fun s a s' h hok hn => ?_) (fun s a s' h hbad hn hsees => ?_) ?_ hrun
  · exact ⟨consistent_next h.1 hn, (sees_next h.1 h.2 hn).mpr hok⟩
  · exact hbad ((sees_next h.1 h.2 hn).mp hsees)
  · have hidle := consistent_of_idle hw
    refine ⟨hidle, (sees_iff hidle).mpr fun frame frames target hf => ?_⟩
    rw [hw.2.2.1] at hf
    cases hf

/-- The runtime of the example worker, and a worker of it whose queue holds `p`. -/
def exampleImpl : Impl := { address := 4096, runtimeId := ⟨1⟩, workerCount := 1 }

def parent : TaskId := ⟨⟨1⟩, 1⟩
def child : TaskId := ⟨⟨1⟩, 2⟩

def parentQueued : HelpingWorker := { ready := [⟨parent, false⟩] }

/-- The parent submits a coroutine, waits for it and runs it to its end. -/
def waitOnChild (childBody : List Label) : List Label :=
  ([.claim ⟨parent, false⟩ false, .post exampleImpl ⟨child, false⟩, .beginWait (.task child),
    .claim ⟨child, false⟩ true] : List Label) ++ childBody ++
    ([.segmentReturn] : List Label)

theorem seesNestedResumes_child_finishes :
    (worker exampleImpl 4).EveryState SeesNestedResumes parentQueued
      (waitOnChild [.complete (.task child)]) :=
  (seesNestedResumes_iff_flushesBeforeHelping exampleImpl 4 parentQueued
    ⟨rfl, rfl, rfl, by decide⟩ _ (by decide)).mpr (by decide)

/-- The child yields instead of finishing: its resume is parked again under the
parent when the child's segment returns, and the queue stays empty. -/
theorem child_yields_hidden_from_parent :
    Idle parentQueued ∧
      ((worker exampleImpl 4).run parentQueued
        (waitOnChild [.post exampleImpl ⟨child, true⟩])).any (fun w =>
          helping w = some (parent, .task child) ∧ w.ready = [] ∧
            w.ctx.deferredSelfResume = some ⟨child, true⟩) ∧
      ¬ (worker exampleImpl 4).EveryState SeesNestedResumes parentQueued
        (waitOnChild [.post exampleImpl ⟨child, true⟩]) := by
  refine ⟨⟨rfl, rfl, rfl, by decide⟩, by decide, fun h => ?_⟩
  obtain ⟨w, hw⟩ := Option.isSome_iff_exists.mp
    (show ((worker exampleImpl 4).run parentQueued
      (waitOnChild [.post exampleImpl ⟨child, true⟩])).isSome by decide)
  have hlast := (h.last hw).noForeign parent (.task child)
  obtain rfl := Option.some.inj hw
  have hheld := hlast (by decide) ⟨child, true⟩ (by decide)
  revert hheld
  decide

end HelpingWait
end AstraScheduler
