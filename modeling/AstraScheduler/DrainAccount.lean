import AstraScheduler.DrainSound

/-! # Where every accepted task is

The exit check of a worker looks at the queues, at the claimed counter and at the timers.
A task can also be in the hands of a thread: admitted and not published, claimed, running,
in a deferred slot, registered with what it awaits, or resumed by a thread that has not
posted it yet.  As long as no post overwrites a slot in use, every task that is not
complete is in one of these places, and every sleep is in the timer queue or with a thread
that took it out. -/

namespace AstraScheduler
namespace Drain

open Transition (Machine)
open HelpingWait (Segment Frame Target enterFrame exitFrame offered contextTask WellNested
  SlotSound)

variable {n : Nat} {own : Impl} {s s' s'' : Runtime n} {t : TaskId}

/-- A worker has the segment in hand. -/
def Carries (own : Impl) (x : Worker) (g : Segment) : Prop :=
  x.loc = .claimed g ∨ Holds own x.ctx g ∨ g.resume = false ∧ x.submitting = some g.task

/-- The segment is in a queue, with a worker or with a thread outside. -/
def Present (own : Impl) (s : Runtime n) (g : Segment) : Prop :=
  g ∈ s.global ∨ (∃ v, g ∈ s.locals v) ∨ (∃ v, Carries own (s.workers v) g) ∨
    g.resume = false ∧ g.task ∈ s.inFlight ∨ g.resume = true ∧ g.task ∈ s.hands

/-- The tasks whose code is on the worker's stack and not done. -/
def Worker.running (x : Worker) : List TaskId :=
  (if x.unwinding then x.frames.tail else x.frames).map Frame.task

/-- An incomplete task is where its state says. -/
structure Placed (own : Impl) (s : Runtime n) (t : TaskId) : Prop where
  ready : s.tasks t = some .ready → Present own s ⟨t, false⟩
  running : s.tasks t = some .running → ∃ w, t ∈ (s.workers w).running
  suspended : s.tasks t = some .suspended →
    (∃ a ∈ s.awaits, a.waiter = t) ∨ Present own s ⟨t, true⟩
  accepted : s.tasks t ≠ some .waiting

/-- A step that leaves task `t` where it is. -/
structure Keeps (own : Impl) (s s' : Runtime n) (t : TaskId) : Prop where
  task : s'.tasks t = s.tasks t
  present : ∀ b, Present own s ⟨t, b⟩ → Present own s' ⟨t, b⟩
  running : (∃ w, t ∈ (s.workers w).running) → ∃ w, t ∈ (s'.workers w).running
  awaiting : (∃ a ∈ s.awaits, a.waiter = t) → ∃ a ∈ s'.awaits, a.waiter = t

theorem Placed.keep (h : Placed own s t) (hk : Keeps own s s' t) : Placed own s' t where
  ready := fun hr => hk.present false (h.ready (hk.task ▸ hr))
  running := fun hr => hk.running (h.running (hk.task ▸ hr))
  suspended := fun hr => (h.suspended (hk.task ▸ hr)).imp hk.awaiting (hk.present true)
  accepted := hk.task ▸ h.accepted

/-- A complete task, or one of no concern to the runtime, need not be anywhere. -/
theorem Placed.of_terminal (state : TaskState) (h : s.tasks t = some state)
    (hterm : state.terminal) : Placed own s t := by
  constructor
  all_goals
    intro hr
    obtain rfl : state = _ := Option.some.inj (h.symm.trans hr)
    cases hterm

theorem Keeps.trans (h : Keeps own s s' t) (h' : Keeps own s' s'' t) : Keeps own s s'' t where
  task := h'.task.trans h.task
  present := fun b hp => h'.present b (h.present b hp)
  running := fun hr => h'.running (h.running hr)
  awaiting := fun ha => h'.awaiting (h.awaiting ha)

section Pieces
variable {w : Fin n} {g : Segment}

/-! ## Segments -/

/-- Segments stay where the queues, the workers and the threads outside keep theirs. -/
theorem Present.mono (h : Present own s g) (hglobal : g ∈ s.global → g ∈ s'.global)
    (hlocals : ∀ v, g ∈ s.locals v → g ∈ s'.locals v)
    (hworkers : ∀ v, Carries own (s.workers v) g → Present own s' g)
    (hinFlight : s.inFlight ⊆ s'.inFlight) (hhands : s.hands ⊆ s'.hands) : Present own s' g := by
  rcases h with h | ⟨v, h⟩ | ⟨v, h⟩ | ⟨hb, h⟩ | ⟨hb, h⟩
  · exact .inl (hglobal h)
  · exact .inr (.inl ⟨v, hlocals v h⟩)
  · exact hworkers v h
  · exact .inr (.inr (.inr (.inl ⟨hb, hinFlight h⟩)))
  · exact .inr (.inr (.inr (.inr ⟨hb, hhands h⟩)))

theorem Present.of_worker (v : Fin n) (h : Carries own (s.workers v) g) : Present own s g :=
  .inr (.inr (.inl ⟨v, h⟩))

/-- A worker moves on with what it has in hand. -/
theorem Present.setWorker {x : Worker} (h : Present own s g)
    (hcarries : Carries own (s.workers w) g → Present own (s.setWorker w x) g) :
    Present own (s.setWorker w x) g := by
  refine h.mono id (fun _ => id) (fun v hv => ?_) (List.Subset.refl _) (List.Subset.refl _)
  by_cases hvw : v = w
  · subst hvw
    exact hcarries hv
  · refine .of_worker v ?_
    rw [workers_setWorker_of_ne hvw]
    exact hv

theorem Present.setWorker_of_carries {x : Worker} (h : Present own s g)
    (hcarries : Carries own (s.workers w) g → Carries own x g) :
    Present own (s.setWorker w x) g :=
  h.setWorker fun hc => .of_worker w (by rw [workers_setWorker_same]; exact hcarries hc)

theorem Present.enqueue (h : Present own s g) (room : Bool) (gs : List Segment) :
    Present own (s.enqueue w room gs) g := by
  refine h.mono (fun hg => mem_global_enqueue.mpr (.inl hg))
    (fun v hg => mem_locals_enqueue.mpr (.inl hg)) (fun v hv => .of_worker v ?_) ?_ ?_
  · rwa [workers_enqueue]
  · simp
  · simp

theorem present_enqueued {room : Bool} {gs : List Segment} (hg : g ∈ gs) :
    Present own (s.enqueue w room gs) g := by
  cases room with
  | true => exact .inr (.inl ⟨w, mem_locals_enqueue.mpr (.inr ⟨rfl, rfl, hg⟩)⟩)
  | false => exact .inl (mem_global_enqueue.mpr (.inr ⟨rfl, hg⟩))

/-- A post into a free slot loses nothing. -/
theorem Present.post (h : Present own s g)
    (hfree : (s.workers w).ctx.deferredSelfResume = none) (room : Bool) (impl : Impl)
    (posted : Segment) : Present own (post own s w room impl posted) g := by
  refine Present.enqueue (h.setWorker_of_carries ?_) room _
  rintro (hc | hc | hc)
  · exact .inl hc
  · rw [Holds, hfree] at hc
    cases hc.1
  · exact .inr (.inr hc)

/-- What is posted to this runtime is there. -/
theorem present_posted (w : Fin n) (room : Bool) (hres : g.resume) :
    Present own (post own s w room own g) g := by
  rcases postTaskInternal_resume (s.workers w).ctx own hres with
    ⟨_, hctx, hpub⟩ | ⟨_, _, hoff⟩
  · refine .of_worker w ?_
    simp only [Drain.post, workers_enqueue, workers_setWorker_same]
    refine .inr (.inl ?_)
    rw [hctx]
    exact ⟨rfl, rfl⟩
  · simp only [Drain.post]
    exact present_enqueued (by rw [hoff]; simp)

/-! ## Frames -/

/-- Tasks keep running on a worker that is replaced by one that runs them. -/
theorem running_setWorker {x : Worker} (hrunning : t ∈ (s.workers w).running → t ∈ x.running)
    (h : ∃ v, t ∈ (s.workers v).running) : ∃ v, t ∈ ((s.setWorker w x).workers v).running := by
  obtain ⟨v, hv⟩ := h
  refine ⟨v, ?_⟩
  by_cases hvw : v = w
  · subst hvw
    rw [workers_setWorker_same]
    exact hrunning hv
  · rw [workers_setWorker_of_ne hvw]
    exact hv

theorem running_post {room : Bool} {impl : Impl} {posted : Segment}
    (h : ∃ v, t ∈ (s.workers v).running) :
    ∃ v, t ∈ ((post own s w room impl posted).workers v).running := by
  simp only [Drain.post, workers_enqueue]
  exact running_setWorker id h

/-! ## Keeping -/

/-- A worker moves on with what it has of `t`. -/
theorem Keeps.setWorker {x : Worker}
    (hcarries : ∀ b, Carries own (s.workers w) ⟨t, b⟩ → Carries own x ⟨t, b⟩)
    (hrunning : t ∈ (s.workers w).running → t ∈ x.running) :
    Keeps own s (s.setWorker w x) t where
  task := rfl
  present := fun b h => h.setWorker_of_carries (hcarries b)
  running := running_setWorker hrunning
  awaiting := fun h => h

theorem Keeps.post (hfree : (s.workers w).ctx.deferredSelfResume = none) (room : Bool)
    (impl : Impl) (posted : Segment) : Keeps own s (post own s w room impl posted) t where
  task := by simp only [Drain.post, tasks_enqueue]; rfl
  present := fun _ h => h.post hfree room impl posted
  running := running_post
  awaiting := by simp only [Drain.post, awaits_enqueue]; exact fun h => h

end Pieces

/-! ## One lemma for each operation -/

/-- The worker into whose slot a step posts a resume, if it runs a task. -/
def Label.slotUser : Label n → Option (Fin n)
  | .worker w (.trigger _) | .worker w (.await _ true) | .worker w (.sleep true)
  | .worker w .yield | .worker w (.postElsewhere _ _) => some w
  | _ => none

/-- A slot of another runtime's worker is overwritten. -/
def Label.drops : Label n → Bool
  | .outside (.drop _) => true
  | _ => false

/-- No resume is overwritten: a step that posts one on a worker finds its slot free, and
the slots of other runtimes' workers are flushed before they are used again. -/
def KeepsSlot (s : Runtime n) (a : Label n) : Prop :=
  a.drops = false ∧ ∀ w ∈ a.slotUser, (s.workers w).ctx.deferredSelfResume = none

instance (s : Runtime n) (a : Label n) : Decidable (KeepsSlot s a) :=
  inferInstanceAs (Decidable (_ ∧ _))

section Operations
variable {w : Fin n}

theorem placed_triggerOn (h : ∀ t, Placed own s t)
    (hfree : (s.workers w).ctx.deferredSelfResume = none) (room : Bool) (id : Nat) (t : TaskId) :
    Placed own (triggerOn own s w room id) t := by
  unfold triggerOn
  cases hfind : s.awaits.find? fun a => a.id = id with
  | none => exact h t
  | some a =>
    have hpost : ∀ u, Keeps own { s with awaits := s.awaits.erase a }
        (post own { s with awaits := s.awaits.erase a } w room own ⟨a.waiter, true⟩) u :=
      fun u => Keeps.post (s := { s with awaits := s.awaits.erase a }) hfree room own _
    by_cases ht : t = a.waiter
    · -- its await is gone, and its resume is posted
      subst ht
      exact {
        ready := fun hr => (hpost _).present false ((h _).ready ((hpost _).task ▸ hr))
        running := fun hr => (hpost _).running ((h _).running ((hpost _).task ▸ hr))
        suspended := fun _ => .inr (present_posted w room rfl)
        accepted := (hpost _).task ▸ (h _).accepted }
    · refine (h t).keep (Keeps.trans ?_ (hpost t))
      refine { task := rfl, present := fun _ hp => hp, running := fun hr => hr, awaiting := ?_ }
      rintro ⟨b, hb, rfl⟩
      exact ⟨b, (List.mem_erase_of_ne fun heq => ht (by rw [heq])).mpr hb, rfl⟩

/-- The tasks below the innermost frame go on being run. -/
theorem Worker.running_unwind {x : Worker} (hcoding : x.coding) (ids : List Nat)
    (ht : t ∈ x.running) (hne : t ≠ x.task) :
    t ∈ Worker.running { x with triggers := ids, unwinding := true } := by
  obtain ⟨_, _, _, _, hunw, frame, frames, hf, _⟩ := Worker.coding_iff.mp hcoding
  simp only [Worker.running, hunw, hf] at ht ⊢
  have hne' : t ≠ frame.task := by simpa [Worker.task, hf, contextTask] using hne
  simpa [hne'] using ht

/-- A coroutine that gives up the thread is placed once it is registered or posted. -/
theorem Placed.suspend {u : TaskId} (h : Placed own s u)
    (htask : s'.tasks u = (s.suspend u).tasks u)
    (hpresent : Present own s ⟨u, false⟩ → Present own s' ⟨u, false⟩)
    (hplace : (∃ a ∈ s'.awaits, a.waiter = u) ∨ Present own s' ⟨u, true⟩) : Placed own s' u := by
  by_cases hrun : s.tasks u = some .running
  · have hsus : s'.tasks u = some .suspended := by simp [htask, Runtime.suspend, hrun]
    exact {
      ready := by simp [hsus]
      running := by simp [hsus]
      suspended := fun _ => hplace
      accepted := by simp [hsus] }
  · have hsame : s'.tasks u = s.tasks u := by simp [htask, Runtime.suspend, hrun]
    exact {
      ready := fun hr => hpresent (h.ready (hsame ▸ hr))
      running := fun hr => absurd (hsame ▸ hr) hrun
      suspended := fun _ => hplace
      accepted := hsame ▸ h.accepted }

theorem placed_suspendOn (h : ∀ t, Placed own s t) (hcoding : (s.workers w).coding)
    (resolved : Bool) (hfree : resolved → (s.workers w).ctx.deferredSelfResume = none)
    (target : AwaitTarget) (t : TaskId) :
    Placed own (suspendOn own s w resolved target) t := by
  -- the state changes and the invoker unwinds, then the coroutine is posted or registered
  have hset : ∀ b, Present own s ⟨t, b⟩ → Present own ((s.suspend (s.workers w).task).setWorker w
      { s.workers w with unwinding := true }) ⟨t, b⟩ :=
    fun b hp => Present.setWorker_of_carries (s := s.suspend (s.workers w).task) hp id
  have hrun : t ≠ (s.workers w).task → (∃ v, t ∈ (s.workers v).running) →
      ∃ v, t ∈ (((s.suspend (s.workers w).task).setWorker w
        { s.workers w with unwinding := true }).workers v).running := fun hne =>
    running_setWorker (s := s.suspend (s.workers w).task) fun ht =>
      Worker.running_unwind hcoding (s.workers w).triggers ht hne
  have htask : t ≠ (s.workers w).task → (s.suspend (s.workers w).task).tasks t = s.tasks t := by
    intro hne
    simp only [Runtime.suspend]
    split
    · rw [Function.update_of_ne hne]
    · rfl
  cases resolved with
  | true =>
    have hfree' : (((s.suspend (s.workers w).task).setWorker w
        { s.workers w with unwinding := true }).workers w).ctx.deferredSelfResume = none := by
      rw [workers_setWorker_same]
      exact hfree rfl
    have hpost : ∀ u, Keeps own _ _ u := fun u => Keeps.post (t := u) hfree' false own
      ⟨(s.workers w).task, true⟩
    by_cases ht : t = (s.workers w).task
    · subst ht
      refine (h _).suspend ?_ (fun hp => (hpost _).present false (hset false hp))
        (.inr (present_posted w false rfl))
      exact (hpost _).task
    · refine (h t).keep (Keeps.trans ?_ (hpost t))
      exact { task := htask ht, present := hset, running := hrun ht, awaiting := fun ha => ha }
  | false =>
    by_cases ht : t = (s.workers w).task
    · subst ht
      exact (h _).suspend rfl (hset false) (.inl ⟨⟨s.nextAwait, (s.workers w).task, target⟩,
        List.mem_append_right _ (List.mem_singleton.mpr rfl), rfl⟩)
    · refine (h t).keep { task := htask ht, present := hset, running := hrun ht, awaiting := ?_ }
      rintro ⟨a, ha, hat⟩
      exact ⟨a, List.mem_append_left _ ha, hat⟩

/-- `request_cancel` completes a task that has not started and no other. -/
theorem placed_requestCancel (h : ∀ t, Placed own s t) (u t : TaskId) :
    Placed own (requestCancel s u).1 t := by
  by_cases hready : s.tasks u = some .ready
  · by_cases ht : t = u
    · subst ht
      refine .of_terminal .cancelled ?_ rfl
      simp [requestCancel, hready]
    · refine (h t).keep { task := ?_, present := fun _ hp => hp, running := fun hr => hr,
                          awaiting := fun ha => ha }
      simp [requestCancel, hready, ht]
  · refine (h t).keep { task := ?_, present := fun _ hp => hp, running := fun hr => hr,
                        awaiting := fun ha => ha }
    simp [requestCancel, hready]

/-- What becomes of a deferred segment when a guard is destroyed. -/
theorem exitTask_holds {ctx : ThreadContext Segment} {g : Segment} (hslot : SlotSound ctx)
    (hholds : Holds own ctx g) (guard : TaskExecutionContextGuard) :
    (guard.prevId ≠ {} → Holds own (ctx.exitTask guard).1 g) ∧
      (guard.prevId = {} → g ∈ offered own (ctx.exitTask guard).2) := by
  obtain ⟨_, hres, _, howner⟩ := hslot g hholds.1
  constructor
  · intro hprev
    rw [ThreadContext.exitTask_enclosed hholds.1 hholds.2 hres hprev]
    exact hholds
  · intro hprev
    rw [ThreadContext.exitTask_outermost hholds.1 hholds.2 howner hprev]
    simp [offered]

/-- A returning invoker leaves its deferred segment to the invoker below it, or publishes
it. -/
theorem exitFrame_holds {ctx : ThreadContext Segment} {g : Segment} {frame : Frame}
    {frames : List Frame} (hslot : SlotSound ctx) (hnest : WellNested (frame :: frames))
    (hholds : Holds own ctx g) :
    (frames ≠ [] → Holds own (exitFrame own ctx frame).1 g) ∧
      (frames = [] → g ∈ (exitFrame own ctx frame).2) := by
  obtain ⟨hne, houter, hinner, _, hrest⟩ := hnest
  have hctx : frames ≠ [] → frame.outer.prevId ≠ {} := by
    intro hf
    rw [houter]
    cases frames with
    | nil => exact absurd rfl hf
    | cons f fs => exact hrest.1
  have hnil : frames = [] → frame.outer.prevId = {} := by
    intro hf
    rw [houter, hf]
    rfl
  cases hin : frame.inner with
  | none =>
    obtain ⟨hkeep, hout⟩ := exitTask_holds hslot hholds frame.outer
    simp only [exitFrame, hin]
    exact ⟨fun hf => hkeep (hctx hf), fun hf => List.mem_append_right _ (hout (hnil hf))⟩
  | some guard =>
    have hstay := (exitTask_holds hslot hholds guard).1 (hinner guard hin ▸ hne)
    have hslot' := (HelpingWait.exitTask_slot hslot guard).1
    obtain ⟨hkeep, hout⟩ := exitTask_holds hslot' hstay frame.outer
    simp only [exitFrame, hin]
    exact ⟨fun hf => hkeep (hctx hf), fun hf => List.mem_append_right _ (hout (hnil hf))⟩

theorem placed_segmentReturn (h : ∀ t, Placed own s t) (hx : WorkerOk (s.workers w))
    {frame : Frame} {frames : List Frame} (hf : (s.workers w).frames = frame :: frames)
    (hunw : (s.workers w).unwinding) (room : Bool) (t : TaskId) :
    Placed own ((s.setWorker w { s.workers w with
      ctx := (exitFrame own (s.workers w).ctx frame).1
      frames := frames
      unwinding := false }).enqueue w room (exitFrame own (s.workers w).ctx frame).2) t := by
  have hnest := hx.nested
  rw [hf] at hnest
  refine (h t).keep {
    task := by rw [tasks_enqueue]; rfl
    present := ?_
    running := ?_
    awaiting := by rw [awaits_enqueue]; exact fun ha => ha }
  · intro b hp
    by_cases hholds : Holds own (s.workers w).ctx ⟨t, b⟩
    · obtain ⟨hkeep, hout⟩ := exitFrame_holds hx.slot hnest hholds
      by_cases hnil : frames = []
      · exact present_enqueued (hout hnil)
      · refine Present.enqueue (.of_worker w ?_) room _
        rw [workers_setWorker_same]
        exact .inr (.inl (hkeep hnil))
    · refine Present.enqueue (hp.setWorker_of_carries ?_) room _
      rintro (hc | hc | hc)
      · exact .inl hc
      · exact absurd hc hholds
      · exact .inr (.inr hc)
  · rw [workers_enqueue]
    refine running_setWorker fun hr => ?_
    simpa [Worker.running, hunw, hf] using hr

/-- A claimed segment that is used up leaves every other segment where it was. -/
theorem Present.release {g claimed : Segment} (h : Present own s g)
    (hloc : (s.workers w).loc = .claimed claimed) (hne : g ≠ claimed) {x : Worker}
    (hctx : Holds own (s.workers w).ctx g → Holds own x.ctx g)
    (hsub : x.submitting = (s.workers w).submitting) : Present own (s.setWorker w x) g := by
  refine h.setWorker_of_carries ?_
  rintro (hc | hc | hc)
  · rw [hloc] at hc
    exact absurd (WorkerLoc.claimed.inj hc).symm hne
  · exact .inr (.inl (hctx hc))
  · exact .inr (.inr (hsub ▸ hc))

/-- The first segment of a task that is not Ready can be dropped. -/
theorem Placed.drop {segment : Segment} (h : Placed own s t)
    (hloc : (s.workers w).loc = .claimed segment) (hfirst : segment.resume = false)
    (hnot : s.tasks segment.task ≠ some .ready) (ids : List Nat) :
    Placed own (s.setWorker w { s.workers w with loc := .loop, triggers := ids }) t where
  ready := fun hr => (h.ready hr).release hloc
    (by rintro rfl; exact hnot hr) id rfl
  running := fun hr => running_setWorker id (h.running hr)
  suspended := fun hr => (h.suspended hr).imp id fun hp => hp.release hloc
    (by rintro rfl; simp at hfirst) id rfl
  accepted := h.accepted

/-- A worker starts or resumes a task: the task is now on its stack. -/
theorem placed_enter (h : ∀ t, Placed own s t) (hx : WorkerOk (s.workers w))
    {segment : Segment} (hloc : (s.workers w).loc = .claimed segment) (gated : Bool)
    (t : TaskId) : Placed own ((s.resume segment.task).setWorker w { s.workers w with
      loc := .loop
      ctx := (enterFrame (s.workers w).ctx segment.task gated).1
      frames := (enterFrame (s.workers w).ctx segment.task gated).2 :: (s.workers w).frames
      unwinding := false }) t := by
  have hunw := (hx.parked (.inl (by simp [hloc]))).1
  obtain ⟨_, hslot, himpl, _⟩ := HelpingWait.enterFrame_ctx (s.workers w).ctx segment.task gated
  have htop : (enterFrame (s.workers w).ctx segment.task gated).2.task = segment.task := by
    cases gated <;> rfl
  by_cases ht : t = segment.task
  · subst ht
    have hrun : ∃ v, segment.task ∈ (((s.resume segment.task).setWorker w { s.workers w with
        loc := .loop
        ctx := (enterFrame (s.workers w).ctx segment.task gated).1
        frames := (enterFrame (s.workers w).ctx segment.task gated).2 :: (s.workers w).frames
        unwinding := false }).workers v).running := by
      refine ⟨w, ?_⟩
      rw [workers_setWorker_same]
      simp [Worker.running, htop]
    have htask : (s.resume segment.task).tasks segment.task ≠ some .ready ∧
        (s.resume segment.task).tasks segment.task ≠ some .suspended ∧
        (s.resume segment.task).tasks segment.task ≠ some .waiting := by
      have hacc := (h segment.task).accepted
      simp only [Runtime.resume]
      split
      · simp
      · rename_i hno
        exact ⟨fun hr => hno (.inr hr), fun hr => hno (.inl hr), hacc⟩
    exact {
      ready := fun hr => absurd hr htask.1
      running := fun _ => hrun
      suspended := fun hr => absurd hr htask.2.1
      accepted := htask.2.2 }
  · refine (h t).keep { task := ?_, present := ?_, running := ?_, awaiting := fun ha => ha }
    · show (s.resume segment.task).tasks t = s.tasks t
      simp only [Runtime.resume]
      split
      · rw [Function.update_of_ne ht]
      · rfl
    · intro b hp
      refine Present.release (s := s.resume segment.task) hp hloc ?_ ?_ rfl
      · rintro rfl
        exact ht rfl
      · rintro ⟨hg, hi⟩
        exact ⟨hslot.trans hg, himpl.trans hi⟩
    · refine running_setWorker (s := s.resume segment.task) fun hr => ?_
      have hr' : t ∈ (s.workers w).frames.map Frame.task := by
        have hold : t ∈ (s.workers w).running := hr
        simpa [Worker.running, hunw] using hold
      exact List.mem_cons_of_mem _ hr'

theorem placed_dispatch (h : ∀ t, Placed own s t) (hx : WorkerOk (s.workers w))
    {segment : Segment} (hloc : (s.workers w).loc = .claimed segment) (gated : Bool)
    (t : TaskId) : Placed own (dispatch s w segment gated) t := by
  simp only [dispatch]
  split_ifs with h1 h2
  · have hcancel := placed_requestCancel h segment.task t
    have hnot : (requestCancel s segment.task).1.tasks segment.task ≠ some .ready := by
      by_cases hready : s.tasks segment.task = some .ready
      · simp [requestCancel, hready]
      · simp [requestCancel, hready]
    exact (hcancel.drop (s := (requestCancel s segment.task).1) hloc (by simpa using h1.2.2)
      hnot _).keep { task := rfl, present := fun _ hp => hp, running := fun hr => hr,
                     awaiting := fun ha => ha }
  · exact ((h t).drop hloc (by simpa using h2.1) h2.2 (s.workers w).triggers).keep
      { task := rfl, present := fun _ hp => hp, running := fun hr => hr, awaiting := fun ha => ha }
  · exact placed_enter h hx hloc gated t

/-- The sweep completes what it takes out and moves the resumes. -/
theorem placed_sweepQueues (h : ∀ t, Placed own s t) (t : TaskId) :
    Placed own (sweepQueues s) t := by
  have hall : ∀ g, g ∈ s.global ∨ (∃ v, g ∈ s.locals v) →
      g ∈ s.global ++ (List.finRange n).flatMap s.locals := by
    rintro g (hg | ⟨v, hg⟩)
    · exact List.mem_append_left _ hg
    · exact List.mem_append_right _ (List.mem_flatMap.mpr ⟨v, List.mem_finRange v, hg⟩)
  by_cases hswept : t ∈ s.queuedFirst.filter fun t => s.tasks t = some .ready
  · exact .of_terminal .cancelled (if_pos hswept) rfl
  have htask : (sweepQueues s).tasks t = s.tasks t := if_neg hswept
  have hfirst : s.tasks t = some .ready →
      ¬ (⟨t, false⟩ ∈ s.global ∨ ∃ v, (⟨t, false⟩ : Segment) ∈ s.locals v) := by
    intro hr hq
    refine hswept (List.mem_filter.mpr ⟨?_, by simpa using hr⟩)
    refine List.mem_map.mpr ⟨⟨t, false⟩, List.mem_filter.mpr ⟨hall _ hq, rfl⟩, rfl⟩
  have hqueued : ∀ g, g.resume → (g ∈ s.global ∨ ∃ v, g ∈ s.locals v) →
      Present own (sweepQueues s) g :=
    fun g hres hq => .inl (List.mem_filter.mpr ⟨hall g hq, hres⟩)
  exact {
    ready := by
      rw [htask]
      intro hr
      rcases (h t).ready hr with hp | hp | hp
      · exact absurd (.inl hp) (hfirst hr)
      · exact absurd (.inr hp) (hfirst hr)
      · exact .inr (.inr hp)
    running := fun hr => (h t).running (htask ▸ hr)
    suspended := by
      rw [htask]
      intro hr
      refine ((h t).suspended hr).imp id ?_
      rintro (hp | hp | hp)
      · exact hqueued _ rfl (.inl hp)
      · exact hqueued _ rfl (.inr hp)
      · exact .inr (.inr hp)
    accepted := htask ▸ (h t).accepted }

/-- Nothing about the tasks is touched. -/
theorem Placed.same (h : Placed own s t) (htasks : s'.tasks = s.tasks)
    (hworkers : s'.workers = s.workers) (hglobal : s'.global = s.global)
    (hlocals : s'.locals = s.locals) (hinFlight : s'.inFlight = s.inFlight)
    (hhands : s'.hands = s.hands) (hawaits : s'.awaits = s.awaits) : Placed own s' t := by
  refine h.keep { task := by rw [htasks], present := ?_, running := ?_, awaiting := ?_ }
  · intro b hp
    refine hp.mono ?_ ?_ (fun v hv => .of_worker v ?_) ?_ ?_
    · rw [hglobal]; exact id
    · rw [hlocals]; exact fun _ => id
    · rw [hworkers]; exact hv
    · rw [hinFlight]; exact List.Subset.refl _
    · rw [hhands]; exact List.Subset.refl _
  · rw [hworkers]; exact id
  · rw [hawaits]; exact id

theorem placed_outsideStep (h : ∀ t, Placed own s t) {e : OutsideStep}
    (hok : KeepsSlot s (.outside e)) (hs : outsideStep own s e = some s') (t : TaskId) :
    Placed own s' t := by
  cases e with
  | acquire u =>
    simp only [outsideStep, Option.ite_none_right_eq_some, Option.some.injEq] at hs
    obtain ⟨_, rfl⟩ := hs
    by_cases ht : t = u
    · subst ht
      -- an admitted task is on its way into a queue
      have hp : Present own { s.setTask t .ready with inFlight := t :: s.inFlight } ⟨t, false⟩ :=
        .inr (.inr (.inr (.inl ⟨rfl, List.mem_cons_self⟩)))
      have htask : (s.setTask t .ready).tasks t = some .ready := by simp [Runtime.setTask]
      exact {
        ready := fun _ => hp
        running := fun hr => by simp [htask] at hr
        suspended := fun hr => by simp [htask] at hr
        accepted := by simp [htask] }
    · refine (h t).keep { task := ?_, present := ?_, running := fun hr => hr,
                          awaiting := fun ha => ha }
      · simp [Runtime.setTask, ht]
      · intro b hp
        exact hp.mono id (fun _ => id) (fun v hv => .of_worker v hv)
          (List.subset_cons_self u s.inFlight) (List.Subset.refl _)
  | publish u =>
    simp only [outsideStep, Option.ite_none_right_eq_some, Option.some.injEq] at hs
    obtain ⟨_, rfl⟩ := hs
    refine (h t).keep { task := rfl, present := ?_, running := fun hr => hr,
                        awaiting := fun ha => ha }
    rintro b (hp | hp | hp | ⟨hb, hp⟩ | hp)
    · exact .inl (List.mem_append_left _ hp)
    · exact .inr (.inl hp)
    · exact .inr (.inr (.inl hp))
    -- the published invoker itself
    · obtain rfl : b = false := hb
      by_cases ht : t = u
      · exact .inl (List.mem_append_right _ (by simp [ht]))
      · exact .inr (.inr (.inr (.inl ⟨rfl, (List.mem_erase_of_ne ht).mpr hp⟩)))
    · exact .inr (.inr (.inr (.inr hp)))
  | cancel u =>
    simp only [outsideStep, Option.some.injEq] at hs
    subst hs
    exact (placed_requestCancel h u t).same rfl rfl rfl rfl rfl rfl rfl
  | resolve id =>
    simp only [outsideStep, Option.some.injEq] at hs
    subst hs
    exact (h t).same rfl rfl rfl rfl rfl rfl rfl
  | trigger id =>
    simp only [outsideStep, Option.ite_none_right_eq_some] at hs
    obtain ⟨_, hs⟩ := hs
    cases hfind : s.awaits.find? fun a => a.id = id with
    | none =>
      simp only [hfind, Option.some.injEq] at hs
      subst hs
      exact (h t).same rfl rfl rfl rfl rfl rfl rfl
    | some a =>
      simp only [hfind, Option.some.injEq] at hs
      subst hs
      -- the waiter's resume goes from the await into the thread's hands
      have hpres : ∀ b, Present own s ⟨t, b⟩ → Present own
          { s with
            awaits := s.awaits.erase a
            hands := a.waiter :: s.hands
            outsideTriggers := s.outsideTriggers.erase id } ⟨t, b⟩ := fun b hp =>
        hp.mono (fun hg => hg) (fun _ hg => hg) (fun v hv => .of_worker v hv)
          (List.Subset.refl _) (List.subset_cons_self a.waiter s.hands)
      by_cases ht : t = a.waiter
      · exact {
          ready := fun hr => hpres false ((h t).ready hr)
          running := (h t).running
          suspended := fun _ => .inr (.inr (.inr (.inr (.inr ⟨rfl, by simp [ht]⟩))))
          accepted := (h t).accepted }
      · refine (h t).keep { task := rfl, present := hpres, running := fun hr => hr,
                            awaiting := ?_ }
        rintro ⟨b, hb, rfl⟩
        exact ⟨b, (List.mem_erase_of_ne fun heq => ht (by rw [heq])).mpr hb, rfl⟩
  | post u =>
    simp only [outsideStep, Option.ite_none_right_eq_some, Option.some.injEq] at hs
    obtain ⟨_, rfl⟩ := hs
    refine (h t).keep { task := rfl, present := ?_, running := fun hr => hr,
                        awaiting := fun ha => ha }
    rintro b (hp | hp | hp | hp | ⟨hb, hp⟩)
    · exact .inl (List.mem_append_left _ hp)
    · exact .inr (.inl hp)
    · exact .inr (.inr (.inl hp))
    · exact .inr (.inr (.inr (.inl hp)))
    -- the posted resume itself
    · obtain rfl : b = true := hb
      by_cases ht : t = u
      · exact .inl (List.mem_append_right _ (by simp [ht]))
      · exact .inr (.inr (.inr (.inr ⟨rfl, (List.mem_erase_of_ne ht).mpr hp⟩)))
  -- the drain condition excludes a dropped resume
  | drop u => exact absurd hok.1 (by simp [Label.drops])
  | request mode =>
    simp only [outsideStep, Option.ite_none_left_eq_some, Option.some.injEq] at hs
    obtain ⟨_, rfl⟩ := hs
    unfold requestShutdownMode
    split
    · exact h t
    · exact (h t).same rfl rfl rfl rfl rfl rfl rfl
  | sweepQueues =>
    simp only [outsideStep, Option.ite_none_right_eq_some, Option.some.injEq] at hs
    obtain ⟨_, rfl⟩ := hs
    exact (placed_sweepQueues h t).same rfl rfl rfl rfl rfl rfl rfl
  | finalize =>
    simp only [outsideStep, Option.ite_none_right_eq_some, Option.some.injEq] at hs
    obtain ⟨_, rfl⟩ := hs
    exact (placed_sweepQueues h t).same rfl rfl rfl rfl rfl rfl rfl
  | cancelTimers =>
    simp only [outsideStep, Option.ite_none_right_eq_some, Option.some.injEq] at hs
    obtain ⟨_, rfl⟩ := hs
    exact (h t).same rfl rfl rfl rfl rfl rfl rfl
  | stop =>
    simp only [outsideStep, Option.ite_none_right_eq_some, Option.some.injEq] at hs
    obtain ⟨_, rfl⟩ := hs
    exact (h t).same rfl rfl rfl rfl rfl rfl rfl
  | joinWorkers =>
    simp only [outsideStep, Option.ite_none_right_eq_some, Option.some.injEq] at hs
    obtain ⟨_, rfl⟩ := hs
    exact (h t).same rfl rfl rfl rfl rfl rfl rfl
  | publishStopped =>
    simp only [outsideStep] at hs
    split at hs
    · obtain rfl := Option.some.inj hs
      exact (h t).same rfl rfl rfl rfl rfl rfl rfl
    · cases hs

/-- A worker moves on, with nothing claimed and its invokers and its slot as they are. -/
theorem Placed.quiet (h : Placed own s t) {x : Worker} (hctx : x.ctx = (s.workers w).ctx)
    (hsub : x.submitting = (s.workers w).submitting)
    (hloc : ∀ g, (s.workers w).loc ≠ .claimed g)
    (hrun : t ∈ (s.workers w).running → t ∈ x.running) : Placed own (s.setWorker w x) t := by
  refine h.keep (.setWorker ?_ hrun)
  rintro b (hc | hc | hc)
  · exact absurd hc (hloc _)
  · exact .inr (.inl (hctx ▸ hc))
  · exact .inr (.inr (hsub ▸ hc))

theorem placed_check (h : ∀ t, Placed own s t) (hs : check s w = some s') (t : TaskId) :
    Placed own s' t := by
  have hmove : (s.workers w).loc.out → ∀ loc,
      Placed own (s.setWorker w { s.workers w with loc := loc }) t :=
    fun hout loc => (h t).quiet rfl rfl (WorkerLoc.ne_claimed hout) id
  rcases check_cases hs with ⟨loc, hadv, rfl⟩ | ⟨hout, _, rfl⟩ | ⟨hleaves, rfl⟩
  · exact hmove hadv.out.1 loc
  · exact (hmove hout .loop).same rfl rfl rfl rfl rfl rfl rfl
  · exact (hmove hleaves.out.1 .exited).same rfl rfl rfl rfl rfl rfl rfl

theorem loc_ne_claimed {x : Worker} (h : x.loc = .loop) (g : Segment) : x.loc ≠ .claimed g := by
  simp [h]

/-- Task code moves on with its frames and its slot. -/
theorem Placed.code (h : Placed own s t) (hcoding : (s.workers w).coding) {x : Worker}
    (hctx : x.ctx = (s.workers w).ctx) (hsub : x.submitting = (s.workers w).submitting)
    (hrun : t ∈ (s.workers w).running → t ∈ x.running) : Placed own (s.setWorker w x) t :=
  h.quiet hctx hsub (loc_ne_claimed (Worker.coding_iff.mp hcoding).1) hrun

theorem placed_claim (h : ∀ t, Placed own s t) (hloc : (s.workers w).loc = .loop)
    {source : Source n} {segment : Segment} (hs : claim s w source segment = some s')
    (t : TaskId) : Placed own s' t := by
  -- the claimed segment goes from its queue to the worker, which holds nothing else claimed
  have hmem : ∀ g, g ≠ segment → Carries own (s.workers w) g →
      Carries own { s.workers w with loc := .claimed segment } g := by
    rintro g hne (hc | hc)
    · exact absurd hc (loc_ne_claimed hloc g)
    · exact .inr hc
  have hclaimed : Present own (s.setWorker w { s.workers w with loc := .claimed segment })
      segment := .of_worker w (by rw [workers_setWorker_same]; exact .inl rfl)
  have hset : ∀ g, Present own s g →
      Present own (s.setWorker w { s.workers w with loc := .claimed segment }) g := by
    intro g hp
    by_cases hg : g = segment
    · exact hg ▸ hclaimed
    · exact hp.setWorker_of_carries (hmem g hg)
  cases source with
  | global =>
    simp only [claim, Option.ite_none_right_eq_some, Option.some.injEq] at hs
    obtain ⟨_, rfl⟩ := hs
    refine (h t).keep { task := rfl, present := fun b hp => ?_, running := ?_,
                        awaiting := fun ha => ha }
    · by_cases hg : (⟨t, b⟩ : Segment) = segment
      · refine .of_worker w ?_
        rw [hg]
        show Carries own (Function.update s.workers w _ w) segment
        rw [Function.update_self]
        exact .inl rfl
      · exact (hset _ hp).mono (fun hq => (List.mem_erase_of_ne hg).mpr hq) (fun _ hq => hq)
          (fun v hv => .of_worker v hv) (List.Subset.refl _) (List.Subset.refl _)
    · exact running_setWorker (x := { s.workers w with loc := .claimed segment }) id
  | «local» v =>
    simp only [claim, Option.ite_none_right_eq_some, Option.some.injEq] at hs
    obtain ⟨_, rfl⟩ := hs
    refine (h t).keep { task := rfl, present := fun b hp => ?_, running := ?_,
                        awaiting := fun ha => ha }
    · by_cases hg : (⟨t, b⟩ : Segment) = segment
      · refine .of_worker w ?_
        rw [hg]
        show Carries own (Function.update s.workers w _ w) segment
        rw [Function.update_self]
        exact .inl rfl
      · refine (hset _ hp).mono (fun hq => hq) (fun u hq => ?_)
          (fun v hv => .of_worker v hv) (List.Subset.refl _) (List.Subset.refl _)
        by_cases hu : u = v
        · subst hu
          show _ ∈ Function.update s.locals u _ u
          rw [Function.update_self]
          exact (List.mem_erase_of_ne hg).mpr hq
        · show _ ∈ Function.update s.locals v _ u
          rw [Function.update_of_ne hu]
          exact hq
    · exact running_setWorker (x := { s.workers w with loc := .claimed segment }) id

theorem placed_workerStep (hsound : Sound s) (h : ∀ t, Placed own s t) {e : WorkerStep n}
    (hok : KeepsSlot s (.worker w e)) (hs : workerStep own s w e = some s') (t : TaskId) :
    Placed own s' t := by
  have hw := hsound.workers w
  cases workerStep_cases hs with
  | claim hidle htriggers hclaim =>
    refine placed_claim h ?_ hclaim t
    simp only [Worker.topLevel, Worker.helping, decide_eq_true_eq] at hidle
    exact hidle.elim And.left And.left
  | dispatch gated hloc => exact placed_dispatch h hw hloc gated t
  -- a due timer becomes a callback of this worker, which the next step runs
  | @dueTimer id htop hid =>
    simp only [Worker.topLevel, decide_eq_true_eq] at htop
    exact ((h t).quiet (w := w)
      (x := { s.workers w with triggers := (s.workers w).triggers ++ [id] }) rfl rfl
      (loc_ne_claimed htop.1) fun hr => hr).same rfl rfl rfl rfl rfl rfl rfl
  | @trigger room id ids hloc htr =>
    have hset : ∀ u, Placed own (s.setWorker w { s.workers w with triggers := ids }) u :=
      fun u => (h u).quiet rfl rfl (loc_ne_claimed hloc) fun hr => hr
    refine placed_triggerOn hset ?_ room id t
    rw [workers_setWorker_same]
    exact hok.2 w rfl
  | beginWait hf hcoding hself =>
    refine (h t).code hcoding rfl rfl fun hr => ?_
    have hunw := (Worker.coding_iff.mp hcoding).2.2.2.2.1
    simpa [Worker.running, hf, hunw] using hr
  | endWait hf hhelp =>
    simp only [Worker.helping, decide_eq_true_eq] at hhelp
    refine (h t).quiet rfl rfl (loc_ne_claimed hhelp.1) fun hr => ?_
    have hunw := (hw.parked (.inr hhelp.2)).1
    simpa [Worker.running, hf, hunw] using hr
  | @submit u hcoding hfresh =>
    obtain ⟨hloc, _, hsub, _⟩ := Worker.coding_iff.mp hcoding
    by_cases ht : t = u
    -- the child exists from here on, in the hands of the worker that submits it
    · subst ht
      have hp : Present own ((s.setTask t .ready).setWorker w
          { s.workers w with submitting := some t }) ⟨t, false⟩ :=
        .of_worker w (by rw [workers_setWorker_same]; exact .inr (.inr ⟨rfl, rfl⟩))
      have htask : ((s.setTask t .ready).setWorker w
          { s.workers w with submitting := some t }).tasks t = some .ready := by
        simp [Runtime.setTask, Runtime.setWorker]
      exact {
        ready := fun _ => hp
        running := fun hr => by simp [htask] at hr
        suspended := fun hr => by simp [htask] at hr
        accepted := by simp [htask] }
    · refine (h t).keep { task := ?_, present := ?_, running := ?_, awaiting := fun ha => ha }
      · show (s.setTask u .ready).tasks t = s.tasks t
        simp [Runtime.setTask, ht]
      · intro b hp
        refine Present.setWorker_of_carries (s := s.setTask u .ready) hp ?_
        rintro (hc | hc | ⟨_, hc⟩)
        · exact absurd hc (loc_ne_claimed hloc _)
        · exact .inr (.inl hc)
        · exact absurd (hsub.symm.trans hc) (by simp)
      · exact running_setWorker (s := s.setTask u .ready) fun hr => hr
  | @publish room u hsub =>
    refine (h t).keep { task := by rw [tasks_enqueue]; rfl, present := ?_, running := ?_,
                        awaiting := by rw [awaits_enqueue]; exact fun ha => ha }
    · intro b hp
      by_cases hg : (⟨t, b⟩ : Segment) = ⟨u, false⟩
      -- the invoker itself, now in one of the queues
      · exact present_enqueued (by rw [hg]; simp)
      · refine Present.enqueue (hp.setWorker_of_carries ?_) room _
        rintro (hc | hc | ⟨hb, hc⟩)
        · exact .inl hc
        · exact .inr (.inl hc)
        · obtain rfl : b = false := hb
          obtain rfl : u = t := Option.some.inj (hsub.symm.trans hc)
          exact absurd rfl hg
    · rw [workers_enqueue]
      exact running_setWorker fun hr => hr
  | await target resolved hcoding =>
    exact placed_suspendOn h hcoding resolved (by rintro rfl; exact hok.2 w rfl) _ t
  | sleep resolved hcoding =>
    exact placed_suspendOn h hcoding resolved (by rintro rfl; exact hok.2 w rfl) _ t
  | yield hcoding => exact placed_suspendOn h hcoding true (fun _ => hok.2 w rfl) _ t
  | @finish outcome hcoding hterm =>
    by_cases ht : t = (s.workers w).task
    · refine .of_terminal outcome ?_ hterm
      show (s.setTask (s.workers w).task outcome).tasks t = some outcome
      simp [Runtime.setTask, ht]
    · refine (h t).keep { task := ?_, present := ?_, running := ?_, awaiting := fun ha => ha }
      · show (s.setTask (s.workers w).task outcome).tasks t = s.tasks t
        simp [Runtime.setTask, ht]
      · exact fun b hp => Present.setWorker_of_carries
          (s := s.setTask (s.workers w).task outcome) hp id
      · exact running_setWorker (s := s.setTask (s.workers w).task outcome) fun hr =>
          Worker.running_unwind hcoding _ hr ht
  | resolve id hcoding =>
    exact ((h t).code (x := { s.workers w with triggers := [id] }) hcoding rfl rfl
      fun hr => hr).same rfl rfl rfl rfl rfl rfl rfl
  | cancel u hcoding =>
    exact Placed.code (s := (requestCancel s u).1) (placed_requestCancel h u t) hcoding rfl rfl
      fun hr => hr
  -- under the slot condition no deferred resume of ours is overwritten
  | postElsewhere impl hloc hvalid => exact (h t).keep (.post (hok.2 w rfl) false impl _)
  | segmentReturn room hf hloc hunw htr =>
    exact (placed_segmentReturn h hw hf hunw room t).same rfl rfl rfl rfl rfl rfl rfl
  | handoff hcoding =>
    exact ((h t).code (x := { s.workers w with handoff := true }) hcoding rfl rfl
      fun hr => hr).same rfl rfl rfl rfl rfl rfl rfl
  | handoffRequest hhand =>
    have hloc := (hw.busy (.inr hhand)).1
    have hset := (h t).quiet (w := w) (x := { s.workers w with handoff := false }) rfl rfl
      (loc_ne_claimed hloc) fun hr => hr
    unfold requestShutdownMode
    split
    · exact hset
    · exact hset.same rfl rfl rfl rfl rfl rfl rfl
  | lock htop htr hmutex =>
    simp only [Worker.topLevel, decide_eq_true_eq] at htop
    exact ((h t).quiet (w := w) (x := { s.workers w with loc := .locked }) rfl rfl
      (loc_ne_claimed htop.1) fun hr => hr).same rfl rfl rfl rfl rfl rfl rfl
  | check hcheck => exact placed_check h hcheck t

end Operations

end Drain
end AstraScheduler
