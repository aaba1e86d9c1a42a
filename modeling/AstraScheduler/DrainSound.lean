import AstraScheduler.DrainMachine
import Mathlib.Tactic.SplitIfs

/-! # The workers' own variables agree

What every state of the runtime satisfies whatever is posted where: each worker's frames,
guards and slot fit together, it has nothing in hand where it has left its invokers, and
only valid task identities are about. -/

namespace AstraScheduler
namespace Drain

open Transition (Machine)
open HelpingWait (Segment Frame Target enterFrame exitFrame offered contextTask WellNested
  SlotSound)

variable {n : Nat} {own : Impl} {s s' : Runtime n}

/-- Between the search and the loop, or past the loop. -/
def WorkerLoc.out : WorkerLoc → Bool
  | .loop | .claimed _ => false
  | .locked | .checking _ | .noWork _ | .noTimers | .exited => true

/-- The innermost frame is inside a helping wait. -/
def Worker.waits (x : Worker) : Bool := x.frames.head?.any fun frame => frame.waiting.isSome

/-- A worker whose variables fit together. -/
structure WorkerOk (x : Worker) : Prop where
  current : x.ctx.currentExecutingTaskId = contextTask x.frames
  nested : WellNested x.frames
  slot : SlotSound x.ctx
  empty : x.frames = [] → x.ctx.deferredSelfResume = none ∧ x.unwinding = false
  valid : ∀ frame ∈ x.frames, frame.task.valid
  claimed : ∀ segment, x.loc = .claimed segment → segment.task.valid
  submitting : ∀ t, x.submitting = some t → t.valid
  /-- A submission or a handoff is completed by the code that began it. -/
  busy : x.submitting ≠ none ∨ x.handoff →
    x.loc = .loop ∧ x.unwinding = false ∧ x.frames ≠ [] ∧ x.waits = false
  parked : x.loc ≠ .loop ∨ x.waits → x.unwinding = false ∧ x.triggers = []
  out : x.loc.out → x.frames = []

/-- Every identity in the runtime is valid, and every worker is in order. -/
structure Sound (s : Runtime n) : Prop where
  workers : ∀ w, WorkerOk (s.workers w)
  global : ∀ g ∈ s.global, g.task.valid
  locals : ∀ v, ∀ g ∈ s.locals v, g.task.valid
  inFlight : ∀ t ∈ s.inFlight, t.valid
  hands : ∀ t ∈ s.hands, t.valid
  awaits : ∀ a ∈ s.awaits, a.waiter.valid

/-! ## Pieces of a step -/

section Pieces
variable {w : Fin n} {x : Worker}

@[simp] theorem workers_setWorker_same : (s.setWorker w x).workers w = x := by
  simp [Runtime.setWorker]

theorem workers_setWorker_of_ne {v : Fin n} (h : v ≠ w) :
    (s.setWorker w x).workers v = s.workers v := by
  simp [Runtime.setWorker, h]

@[simp] theorem workers_enqueue (room : Bool) (gs : List Segment) :
    (s.enqueue w room gs).workers = s.workers := by
  unfold Runtime.enqueue
  split <;> rfl

@[simp] theorem tasks_enqueue (room : Bool) (gs : List Segment) :
    (s.enqueue w room gs).tasks = s.tasks := by
  unfold Runtime.enqueue
  split <;> rfl

@[simp] theorem awaits_enqueue (room : Bool) (gs : List Segment) :
    (s.enqueue w room gs).awaits = s.awaits := by
  unfold Runtime.enqueue
  split <;> rfl

@[simp] theorem nextAwait_enqueue (room : Bool) (gs : List Segment) :
    (s.enqueue w room gs).nextAwait = s.nextAwait := by
  unfold Runtime.enqueue
  split <;> rfl

@[simp] theorem sweep_enqueue (room : Bool) (gs : List Segment) :
    (s.enqueue w room gs).sweep = s.sweep := by
  unfold Runtime.enqueue
  split <;> rfl

@[simp] theorem timers_enqueue (room : Bool) (gs : List Segment) :
    (s.enqueue w room gs).timers = s.timers := by
  unfold Runtime.enqueue
  split <;> rfl

@[simp] theorem inFlight_enqueue (room : Bool) (gs : List Segment) :
    (s.enqueue w room gs).inFlight = s.inFlight := by
  unfold Runtime.enqueue
  split <;> rfl

@[simp] theorem hands_enqueue (room : Bool) (gs : List Segment) :
    (s.enqueue w room gs).hands = s.hands := by
  unfold Runtime.enqueue
  split <;> rfl

@[simp] theorem outsideTriggers_enqueue (room : Bool) (gs : List Segment) :
    (s.enqueue w room gs).outsideTriggers = s.outsideTriggers := by
  unfold Runtime.enqueue
  split <;> rfl

theorem forall_setWorker {P : Worker → Prop} (h : ∀ v, P (s.workers v)) (hx : P x) :
    ∀ v, P ((s.setWorker w x).workers v) := by
  intro v
  by_cases hv : v = w
  · rw [hv, workers_setWorker_same]
    exact hx
  · rw [workers_setWorker_of_ne hv]
    exact h v

theorem mem_global_enqueue {room : Bool} {gs : List Segment} {g : Segment} :
    g ∈ (s.enqueue w room gs).global ↔ g ∈ s.global ∨ room = false ∧ g ∈ gs := by
  cases room <;> simp [Runtime.enqueue]

theorem mem_locals_enqueue {room : Bool} {gs : List Segment} {g : Segment} {v : Fin n} :
    g ∈ (s.enqueue w room gs).locals v ↔ g ∈ s.locals v ∨ room = true ∧ v = w ∧ g ∈ gs := by
  cases room with
  | false => simp [Runtime.enqueue]
  | true =>
    by_cases hv : v = w
    · subst hv
      simp [Runtime.enqueue]
    · simp [Runtime.enqueue, hv]

theorem Sound.setWorker (h : Sound s) (hx : WorkerOk x) : Sound (s.setWorker w x) :=
  { h with workers := forall_setWorker h.workers hx }

theorem Sound.enqueue (h : Sound s) (room : Bool) {gs : List Segment}
    (hgs : ∀ g ∈ gs, g.task.valid) : Sound (s.enqueue w room gs) where
  workers := by simpa using h.workers
  global := by
    intro g hg
    rcases mem_global_enqueue.mp hg with hg | ⟨_, hg⟩
    · exact h.global g hg
    · exact hgs g hg
  locals := by
    intro v g hg
    rcases mem_locals_enqueue.mp hg with hg | ⟨_, _, hg⟩
    · exact h.locals v g hg
    · exact hgs g hg
  inFlight := by simpa using h.inFlight
  hands := by simpa using h.hands
  awaits := by simpa using h.awaits

end Pieces

/-! ## Posting -/

/-- The slot holds `segment` for this runtime. -/
def Holds (own : Impl) (ctx : ThreadContext Segment) (segment : Segment) : Prop :=
  ctx.deferredSelfResume = some segment ∧ ctx.deferredSelfResumeImpl = some own

/-- What `post_task_internal` does with a resume: inside a task the slot takes it, outside
it is offered to its runtime. -/
theorem postTaskInternal_resume (ctx : ThreadContext Segment) (impl : Impl) {segment : Segment}
    (hres : segment.resume) :
    ctx.currentExecutingTaskId ≠ {} ∧
        (ctx.postTaskInternal impl (some segment) false).1 = ctx.deferSelfResume impl segment ∧
        (ctx.postTaskInternal impl (some segment) false).2 = none ∨
      ctx.currentExecutingTaskId = {} ∧
        (ctx.postTaskInternal impl (some segment) false).1 = ctx ∧
        offered impl (ctx.postTaskInternal impl (some segment) false).2 = [segment] := by
  by_cases hctx : ctx.currentExecutingTaskId = {}
  · refine .inr ⟨hctx, ?_, ?_⟩
    · simp [ThreadContext.postTaskInternal, hctx]
    · simp [ThreadContext.postTaskInternal, hctx, offered]
  · refine .inl ⟨hctx, ?_, ?_⟩
    · rw [ThreadContext.postTaskInternal_deferred impl segment false hres hctx]
    · rw [ThreadContext.postTaskInternal_deferred impl segment false hres hctx]

theorem WorkerOk.post {x : Worker} (h : WorkerOk x) (impl : Impl) {segment : Segment}
    (hvalid : segment.task.valid) :
    WorkerOk { x with ctx := (x.ctx.postTaskInternal impl (some segment) false).1 } := by
  obtain ⟨hslot, hcur, hsame, _⟩ := HelpingWait.post_slot h.slot impl hvalid
  refine { h with current := hcur.trans h.current, slot := hslot, empty := ?_ }
  intro hframes
  have hnone : x.ctx.currentExecutingTaskId = {} := by
    rw [h.current, show x.frames = [] from hframes]
    rfl
  rw [hsame hnone]
  exact h.empty hframes

theorem offered_post_valid {x : Worker} (h : WorkerOk x) (impl : Impl) {segment : Segment}
    (hvalid : segment.task.valid) :
    ∀ g ∈ offered own (x.ctx.postTaskInternal impl (some segment) false).2, g.task.valid :=
  HelpingWait.offered_valid (HelpingWait.post_slot h.slot impl hvalid).2.2.2

theorem Sound.post (h : Sound s) (w : Fin n) (room : Bool) (impl : Impl) {segment : Segment}
    (hvalid : segment.task.valid) : Sound (post own s w room impl segment) :=
  (h.setWorker ((h.workers w).post impl hvalid)).enqueue room
    (offered_post_valid (h.workers w) impl hvalid)

theorem Sound.triggerOn (h : Sound s) (w : Fin n) (room : Bool) (id : Nat) :
    Sound (triggerOn own s w room id) := by
  unfold Drain.triggerOn
  cases hfind : s.awaits.find? fun a => a.id = id with
  | none => exact h
  | some a =>
    have hmem := List.mem_of_find?_eq_some hfind
    refine Sound.post ?_ w room own (h.awaits a hmem)
    exact { h with awaits := fun b hb => h.awaits b (List.mem_of_mem_erase hb) }

/-! ## The steps -/

/-- A worker that runs task code has nothing else in hand. -/
theorem Worker.coding_iff {x : Worker} :
    x.coding ↔ x.loc = .loop ∧ x.triggers = [] ∧ x.submitting = none ∧ x.handoff = false ∧
      x.unwinding = false ∧ ∃ frame frames, x.frames = frame :: frames ∧ frame.waiting = none := by
  cases hf : x.frames with
  | nil => simp [Worker.coding, hf]
  | cons frame frames => simp [Worker.coding, hf]

theorem Worker.task_valid {x : Worker} (h : WorkerOk x) (hf : x.frames ≠ []) : x.task.valid := by
  obtain ⟨frame, frames, hf⟩ := List.exists_cons_of_ne_nil hf
  have hmem := h.valid frame (by simp [hf])
  simpa [Worker.task, hf, contextTask] using hmem

theorem Worker.frames_ne_nil_of_coding {x : Worker} (h : x.coding) : x.frames ≠ [] := by
  obtain ⟨_, _, _, _, _, frame, frames, hf, _⟩ := Worker.coding_iff.mp h
  simp [hf]

theorem Worker.waits_of_coding {x : Worker} (h : x.coding) : x.waits = false := by
  obtain ⟨_, _, _, _, _, frame, frames, hf, hw⟩ := Worker.coding_iff.mp h
  simp [Worker.waits, hf, hw]

/-- A worker that may claim has no invoker of its own half done. -/
theorem WorkerOk.not_busy {x : Worker} (h : WorkerOk x) (hidle : x.frames = [] ∨ x.waits) :
    x.submitting = none ∧ x.handoff = false := by
  by_contra hno
  have hb : x.submitting ≠ none ∨ x.handoff := by
    by_cases hsub : x.submitting = none
    · exact .inr (by simpa [hsub] using hno)
    · exact .inl hsub
  obtain ⟨_, _, hframes, hwaits⟩ := h.busy hb
  rcases hidle with hnil | hw
  · exact hframes hnil
  · simp [hwaits] at hw

theorem WorkerOk.claim {x : Worker} (h : WorkerOk x) (hidle : x.topLevel ∨ x.helping)
    (htriggers : x.triggers = []) {segment : Segment} (hvalid : segment.task.valid) :
    WorkerOk { x with loc := .claimed segment } := by
  have hidle' : x.frames = [] ∨ x.waits := by
    simp only [Worker.topLevel, Worker.helping, decide_eq_true_eq] at hidle
    exact hidle.imp And.right And.right
  obtain ⟨hsub, hhand⟩ := h.not_busy hidle'
  have hunw : x.unwinding = false := hidle'.elim (fun hf => (h.empty hf).2)
    fun hw => (h.parked (.inr hw)).1
  refine { h with claimed := ?_, busy := ?_, parked := ?_, out := ?_ }
  · rintro g ⟨rfl⟩
    exact hvalid
  · simp [hsub, hhand]
  · exact fun _ => ⟨hunw, htriggers⟩
  · simp [WorkerLoc.out]

/-- A worker at the top of its loop goes where it goes with empty hands. -/
theorem WorkerOk.move {x : Worker} (h : WorkerOk x) (hframes : x.frames = [])
    (htriggers : x.triggers = []) (loc : WorkerLoc) (hloc : ∀ segment, loc ≠ .claimed segment) :
    WorkerOk { x with loc := loc } := by
  obtain ⟨hsub, hhand⟩ := h.not_busy (.inl hframes)
  exact { h with
    claimed := fun g hg => absurd hg (hloc g)
    busy := by simp [hsub, hhand]
    parked := fun _ => ⟨(h.empty hframes).2, htriggers⟩
    out := fun _ => hframes }

/-- Dropping a claim on the way back to the loop, perhaps with callbacks to run. -/
theorem WorkerOk.release {x : Worker} (h : WorkerOk x) {segment : Segment}
    (hloc : x.loc = .claimed segment) (ids : List Nat) (hids : x.waits → ids = []) :
    WorkerOk { x with loc := .loop, triggers := ids } := by
  have hpark := h.parked (.inl (by simp [hloc]))
  have hbusy : ¬ (x.submitting ≠ none ∨ x.handoff) := fun hb => by
    simpa [hloc] using (h.busy hb).1
  refine { h with claimed := by simp, busy := fun hb => absurd hb hbusy, parked := ?_,
                  out := by simp [WorkerLoc.out] }
  rintro (hne | hw)
  · exact absurd rfl hne
  · exact ⟨hpark.1, hids hw⟩

/-- The guards of a new invoker. -/
theorem WorkerOk.enter {x : Worker} (h : WorkerOk x) {segment : Segment}
    (hloc : x.loc = .claimed segment) (gated : Bool) :
    WorkerOk { x with
      loc := .loop
      ctx := (enterFrame x.ctx segment.task gated).1
      frames := (enterFrame x.ctx segment.task gated).2 :: x.frames
      unwinding := false } := by
  have hvalid := h.claimed segment hloc
  have hpark := h.parked (.inl (by simp [hloc]))
  have hbusy : ¬ (x.submitting ≠ none ∨ x.handoff) := fun hb => by
    simpa [hloc] using (h.busy hb).1
  obtain ⟨hcur, hslot, himpl, howner⟩ := HelpingWait.enterFrame_ctx x.ctx segment.task gated
  have htask : (enterFrame x.ctx segment.task gated).2.task = segment.task := by
    cases gated <;> rfl
  refine {
    current := hcur.trans htask.symm
    nested := HelpingWait.enterFrame_nested (HelpingWait.ne_default_of_valid hvalid) h.current
      h.nested
    slot := ?_
    empty := by simp
    valid := ?_
    claimed := by simp
    submitting := h.submitting
    busy := fun hb => absurd hb hbusy
    parked := fun _ => ⟨rfl, hpark.2⟩
    out := by simp [WorkerLoc.out] }
  · intro g hg
    rw [hslot] at hg
    rw [himpl, howner]
    exact h.slot g hg
  · intro frame hframe
    rcases List.mem_cons.mp hframe with rfl | hframe
    · rw [htask]
      exact hvalid
    · exact h.valid frame hframe

/-- The innermost frame begins or ends a helping wait. -/
theorem WorkerOk.wait {x : Worker} (h : WorkerOk x) {frame : Frame} {frames : List Frame}
    (hf : x.frames = frame :: frames) (hloc : x.loc = .loop) (hunw : x.unwinding = false)
    (htriggers : x.triggers = []) (hsub : x.submitting = none) (hhand : x.handoff = false)
    {waiting : Option Target} (hself : waiting ≠ some (.task frame.task)) :
    WorkerOk { x with frames := { frame with waiting := waiting } :: frames } := by
  have hnest := h.nested
  have hcur := h.current
  rw [hf] at hnest hcur
  refine { h with
    current := hcur
    nested := ⟨hnest.1, hnest.2.1, hnest.2.2.1, hself, hnest.2.2.2.2⟩
    empty := by simp
    valid := ?_
    busy := by simp [hsub, hhand]
    parked := fun _ => ⟨hunw, htriggers⟩
    out := by simp [hloc, WorkerLoc.out] }
  intro g hg
  rcases List.mem_cons.mp hg with rfl | hg
  · exact h.valid frame (by simp [hf])
  · exact h.valid g (by simp [hf, hg])

/-- The current invoker suspends or finishes, or its code has callbacks to run. -/
theorem WorkerOk.code {x : Worker} (h : WorkerOk x) (hcoding : x.coding) (unwinding : Bool)
    (ids : List Nat) : WorkerOk { x with unwinding := unwinding, triggers := ids } := by
  obtain ⟨hloc, _, hsub, hhand, _, frame, frames, hf, hw⟩ := Worker.coding_iff.mp hcoding
  have hwaits := Worker.waits_of_coding hcoding
  exact { h with
    empty := by simp [hf]
    busy := by simp [hsub, hhand]
    parked := by
      rintro (hne | hwait)
      · exact absurd hloc hne
      · have hx : x.waits := hwait
        simp [hwaits] at hx
    out := by simp [hloc, WorkerLoc.out] }

/-- The first of the callbacks is taken up. -/
theorem WorkerOk.trigger {x : Worker} (h : WorkerOk x) {id : Nat}
    {ids : List Nat} (htr : x.triggers = id :: ids) : WorkerOk { x with triggers := ids } := by
  refine { h with parked := ?_ }
  intro hp
  have hold := (h.parked hp).2
  rw [htr] at hold
  cases hold

/-- The innermost invoker returns. -/
theorem WorkerOk.exit {x : Worker} (h : WorkerOk x) (own : Impl) {frame : Frame} {frames : List Frame}
    (hf : x.frames = frame :: frames) (hloc : x.loc = .loop) (hunw : x.unwinding)
    (htriggers : x.triggers = []) :
    WorkerOk { x with
        ctx := (exitFrame own x.ctx frame).1
        frames := frames
        unwinding := false } ∧
      ∀ g ∈ (exitFrame own x.ctx frame).2, g.task.valid := by
  have hnest := h.nested
  rw [hf] at hnest
  obtain ⟨hslot, hcur, _, hdrop, hsegs⟩ := HelpingWait.exitFrame_slot own h.slot hnest
  have hbusy : ¬ (x.submitting ≠ none ∨ x.handoff) := fun hb => by
    simpa [hunw] using (h.busy hb).2.1
  exact ⟨{
    current := hcur
    nested := hnest.2.2.2.2
    slot := hslot
    empty := fun hnil => ⟨hdrop hnil, rfl⟩
    valid := fun g hg => h.valid g (by simp [hf, hg])
    claimed := by simp [hloc]
    submitting := h.submitting
    busy := fun hb => absurd hb hbusy
    parked := fun _ => ⟨rfl, htriggers⟩
    out := by simp [hloc, WorkerLoc.out] }, hsegs⟩

theorem Sound.setTask (h : Sound s) (t : TaskId) (state : TaskState) : Sound (s.setTask t state) :=
  { h with }

theorem Sound.requestCancel (h : Sound s) (t : TaskId) : Sound (requestCancel s t).1 :=
  { h with }

theorem Sound.suspendOn (h : Sound s) {w : Fin n} (hcoding : (s.workers w).coding)
    (resolved : Bool) (target : AwaitTarget) : Sound (suspendOn own s w resolved target) := by
  have hvalid := Worker.task_valid (h.workers w) (Worker.frames_ne_nil_of_coding hcoding)
  have hx := (h.workers w).code hcoding true (s.workers w).triggers
  have hsus : Sound (s.suspend (s.workers w).task) := { h with }
  have hset := hsus.setWorker (w := w) hx
  unfold Drain.suspendOn
  cases resolved with
  | true => exact hset.post w false own hvalid
  | false =>
    refine { hset with awaits := ?_ }
    intro a ha
    rcases List.mem_append.mp ha with ha | ha
    · exact h.awaits a ha
    · rw [List.mem_singleton.mp ha]
      exact hvalid

theorem Sound.requestShutdownMode (h : Sound s) (mode : ShutdownMode) :
    Sound (requestShutdownMode s mode) := by
  unfold Drain.requestShutdownMode
  split
  · exact h
  · exact { h with }

theorem Sound.move (h : Sound s) {w : Fin n} (hout : (s.workers w).loc.out) (loc : WorkerLoc)
    (hloc : ∀ segment, loc ≠ .claimed segment) :
    Sound (s.setWorker w { s.workers w with loc := loc }) := by
  have hw := h.workers w
  have hne : (s.workers w).loc ≠ .loop := by
    intro heq
    simp [heq, WorkerLoc.out] at hout
  exact h.setWorker (hw.move (hw.out hout) (hw.parked (.inl hne)).2 loc hloc)

/-- One read further in the exit check, and what it has read. -/
inductive Advances (s : Runtime n) : WorkerLoc → WorkerLoc → Prop
  | status : s.stopRequested → s.status.state ≠ .stopped →
      Advances s .locked (.checking (s.status.shutdownMode = .immediate))
  | queues {immediate : Bool} : s.offersWork immediate = false →
      Advances s (.checking immediate) (.noWork immediate)
  | timers : s.timers = [] → Advances s (.noWork false) .noTimers

/-- The last read of the exit check. -/
inductive Leaves (s : Runtime n) : WorkerLoc → Prop
  | stopped : s.stopRequested → s.status.state = .stopped → Leaves s .locked
  | immediate : s.claimedCount = 0 → Leaves s (.noWork true)
  | graceful : s.claimedCount = 0 → Leaves s .noTimers

/-- A step of the exit check reads on, gives up, or leaves the loop. -/
theorem check_cases {w : Fin n} (hs : check s w = some s') :
    (∃ loc, Advances s (s.workers w).loc loc ∧
        s' = s.setWorker w { s.workers w with loc := loc }) ∨
      (s.workers w).loc.out ∧ (s.workers w).loc ≠ .exited ∧ s' = backToLoop s w ∨
      Leaves s (s.workers w).loc ∧ s' = leave s w := by
  unfold check at hs
  cases hloc : (s.workers w).loc with
  | loop => simp [hloc] at hs
  | claimed g => simp [hloc] at hs
  | exited => simp [hloc] at hs
  | locked =>
    simp only [hloc] at hs
    split_ifs at hs with h1 h2 <;> obtain rfl := Option.some.inj hs
    · exact .inr (.inr ⟨.stopped h1 h2, rfl⟩)
    · exact .inl ⟨_, .status h1 h2, rfl⟩
    · exact .inr (.inl ⟨rfl, by simp, rfl⟩)
  | checking immediate =>
    simp only [hloc] at hs
    split_ifs at hs with h1 <;> obtain rfl := Option.some.inj hs
    · exact .inr (.inl ⟨rfl, by simp, rfl⟩)
    · exact .inl ⟨_, .queues (by simpa using h1), rfl⟩
  | noWork immediate =>
    cases immediate with
    | true =>
      simp only [hloc] at hs
      split_ifs at hs with h1 <;> obtain rfl := Option.some.inj hs
      · exact .inr (.inr ⟨.immediate h1, rfl⟩)
      · exact .inr (.inl ⟨rfl, by simp, rfl⟩)
    | false =>
      simp only [hloc] at hs
      split_ifs at hs with h1 <;> obtain rfl := Option.some.inj hs
      · exact .inl ⟨_, .timers h1, rfl⟩
      · exact .inr (.inl ⟨rfl, by simp, rfl⟩)
  | noTimers =>
    simp only [hloc] at hs
    split_ifs at hs with h1 <;> obtain rfl := Option.some.inj hs
    · exact .inr (.inr ⟨.graceful h1, rfl⟩)
    · exact .inr (.inl ⟨rfl, by simp, rfl⟩)

theorem Advances.out {loc loc' : WorkerLoc} (h : Advances s loc loc') :
    loc.out ∧ loc'.out ∧ loc ≠ .exited ∧ loc' ≠ .exited := by
  cases h <;> simp [WorkerLoc.out]

theorem Leaves.out {loc : WorkerLoc} (h : Leaves s loc) : loc.out ∧ loc ≠ .exited := by
  cases h <;> simp [WorkerLoc.out]

theorem WorkerLoc.ne_claimed {loc : WorkerLoc} (h : loc.out) (g : Segment) : loc ≠ .claimed g := by
  rintro rfl
  cases h

theorem Sound.check (h : Sound s) {w : Fin n} (hs : check s w = some s') : Sound s' := by
  rcases check_cases hs with ⟨loc, hadv, rfl⟩ | ⟨hout, _, rfl⟩ | ⟨hleaves, rfl⟩
  · exact h.move hadv.out.1 loc (WorkerLoc.ne_claimed hadv.out.2.1)
  · exact { h.move hout .loop (by simp) with }
  · exact { h.move hleaves.out.1 .exited (by simp) with }

/-- What a step of worker `w` finds, as far as an invariant looks at it, and what it leaves. -/
inductive Stepped (own : Impl) (s : Runtime n) (w : Fin n) : WorkerStep n → Runtime n → Prop
  | claim {source : Source n} {segment : Segment} {s' : Runtime n}
      (hidle : (s.workers w).topLevel ∨ (s.workers w).helping)
      (htriggers : (s.workers w).triggers = []) (hclaim : claim s w source segment = some s') :
      Stepped own s w (.claim source segment) s'
  | dispatch {segment : Segment} (gated : Bool) (hloc : (s.workers w).loc = .claimed segment) :
      Stepped own s w (.dispatch gated) (dispatch s w segment gated)
  | dueTimer {id : Nat} (htop : (s.workers w).topLevel) (hid : id ∈ s.timers) :
      Stepped own s w (.dueTimer id)
        { s.setWorker w { s.workers w with triggers := (s.workers w).triggers ++ [id] } with
          timers := s.timers.erase id }
  | trigger (room : Bool) {id : Nat} {ids : List Nat} (hloc : (s.workers w).loc = .loop)
      (htr : (s.workers w).triggers = id :: ids) :
      Stepped own s w (.trigger room)
        (triggerOn own (s.setWorker w { s.workers w with triggers := ids }) w room id)
  | beginWait {target : Target} {frame : Frame} {frames : List Frame}
      (hf : (s.workers w).frames = frame :: frames) (hcoding : (s.workers w).coding)
      (hself : target ≠ .task frame.task) :
      Stepped own s w (.beginWait target)
        (s.setWorker w { s.workers w with frames := { frame with waiting := some target } :: frames })
  | endWait {frame : Frame} {frames : List Frame} (hf : (s.workers w).frames = frame :: frames)
      (hhelp : (s.workers w).helping) :
      Stepped own s w .endWait
        (s.setWorker w { s.workers w with frames := { frame with waiting := none } :: frames })
  | submit {t : TaskId} (hcoding : (s.workers w).coding) (hfresh : s.fresh own t) :
      Stepped own s w (.submit t)
        ((s.setTask t .ready).setWorker w { s.workers w with submitting := some t })
  | publish (room : Bool) {t : TaskId} (hsub : (s.workers w).submitting = some t) :
      Stepped own s w (.publish room)
        ((s.setWorker w { s.workers w with submitting := none }).enqueue w room [⟨t, false⟩])
  | await (target : Target) (resolved : Bool) (hcoding : (s.workers w).coding) :
      Stepped own s w (.await target resolved) (suspendOn own s w resolved (.completion target))
  | sleep (resolved : Bool) (hcoding : (s.workers w).coding) :
      Stepped own s w (.sleep resolved) (suspendOn own s w resolved .timer)
  | yield (hcoding : (s.workers w).coding) :
      Stepped own s w .yield (suspendOn own s w true .timer)
  | finish {outcome : TaskState} (hcoding : (s.workers w).coding) (hterm : outcome.terminal) :
      Stepped own s w (.finish outcome)
        ((s.setTask (s.workers w).task outcome).setWorker w
          { s.workers w with triggers := s.awaitersOf (s.workers w).task, unwinding := true })
  | resolve (id : Nat) (hcoding : (s.workers w).coding) :
      Stepped own s w (.resolve id)
        { s.setWorker w { s.workers w with triggers := [id] } with timers := s.timers.erase id }
  | cancel (t : TaskId) (hcoding : (s.workers w).coding) :
      Stepped own s w (.cancel t)
        ((requestCancel s t).1.setWorker w { s.workers w with triggers := (requestCancel s t).2 })
  | postElsewhere (impl : Impl) {segment : Segment} (hloc : (s.workers w).loc = .loop)
      (hvalid : segment.task.valid) :
      Stepped own s w (.postElsewhere impl segment) (post own s w false impl segment)
  | segmentReturn (room : Bool) {frame : Frame} {frames : List Frame}
      (hf : (s.workers w).frames = frame :: frames) (hloc : (s.workers w).loc = .loop)
      (hunw : (s.workers w).unwinding) (htr : (s.workers w).triggers = []) :
      Stepped own s w (.segmentReturn room)
        ((s.setWorker w { s.workers w with
            ctx := (exitFrame own (s.workers w).ctx frame).1
            frames := frames
            unwinding := false }).enqueue w room
          (exitFrame own (s.workers w).ctx frame).2).completeClaim
  | handoff (hcoding : (s.workers w).coding) :
      Stepped own s w .handoff
        { s.setWorker w { s.workers w with handoff := true } with stopRequested := true }
  | handoffRequest (hhand : (s.workers w).handoff) :
      Stepped own s w .handoffRequest
        (requestShutdownMode (s.setWorker w { s.workers w with handoff := false }) .graceful)
  | lock (htop : (s.workers w).topLevel) (htr : (s.workers w).triggers = [])
      (hmutex : s.lifecycleMutex = none) :
      Stepped own s w .lock
        { s.setWorker w { s.workers w with loc := .locked } with lifecycleMutex := some w }
  | check {s' : Runtime n} (hcheck : check s w = some s') : Stepped own s w .check s'

theorem workerStep_cases {w : Fin n} {e : WorkerStep n} (hs : workerStep own s w e = some s') :
    Stepped own s w e s' := by
  cases e with
  | claim source segment =>
    simp only [Drain.workerStep, Option.ite_none_right_eq_some] at hs
    exact .claim hs.1.1 hs.1.2 hs.2
  | dispatch gated =>
    simp only [Drain.workerStep] at hs
    cases hloc : (s.workers w).loc with
    | claimed segment =>
      simp only [hloc, Option.some.injEq] at hs
      exact hs ▸ .dispatch gated hloc
    | _ => simp [hloc] at hs
  | dueTimer id =>
    simp only [Drain.workerStep, Option.ite_none_right_eq_some, Option.some.injEq] at hs
    obtain ⟨⟨htop, hid⟩, rfl⟩ := hs
    exact .dueTimer htop hid
  | trigger room =>
    unfold Drain.workerStep at hs
    dsimp only at hs
    split at hs
    · rename_i hloc htr
      cases hs
      exact .trigger room hloc htr
    · cases hs
  | beginWait target =>
    simp only [Drain.workerStep] at hs
    cases hf : (s.workers w).frames with
    | nil => simp [hf] at hs
    | cons frame frames =>
      simp only [hf, Option.ite_none_right_eq_some, Option.some.injEq] at hs
      obtain ⟨⟨hcoding, hself⟩, rfl⟩ := hs
      exact .beginWait hf hcoding hself
  | endWait =>
    simp only [Drain.workerStep] at hs
    cases hf : (s.workers w).frames with
    | nil => simp [hf] at hs
    | cons frame frames =>
      simp only [hf, Option.ite_none_right_eq_some, Option.some.injEq] at hs
      obtain ⟨hhelp, rfl⟩ := hs
      exact .endWait hf hhelp
  | submit t =>
    simp only [Drain.workerStep, Option.ite_none_right_eq_some, Option.some.injEq] at hs
    obtain ⟨⟨hcoding, _, hfresh⟩, rfl⟩ := hs
    exact .submit hcoding hfresh
  | publish room =>
    simp only [Drain.workerStep] at hs
    cases hsub : (s.workers w).submitting with
    | none => simp [hsub] at hs
    | some t =>
      simp only [hsub, Option.some.injEq] at hs
      exact hs ▸ .publish room hsub
  | await target resolved =>
    simp only [Drain.workerStep, Option.ite_none_right_eq_some, Option.some.injEq] at hs
    obtain ⟨⟨hcoding, _⟩, rfl⟩ := hs
    exact .await target resolved hcoding
  | sleep resolved =>
    simp only [Drain.workerStep, Option.ite_none_right_eq_some, Option.some.injEq] at hs
    exact hs.2 ▸ .sleep resolved hs.1
  | yield =>
    simp only [Drain.workerStep, Option.ite_none_right_eq_some, Option.some.injEq] at hs
    exact hs.2 ▸ .yield hs.1
  | finish outcome =>
    simp only [Drain.workerStep, Option.ite_none_right_eq_some, Option.some.injEq] at hs
    obtain ⟨⟨hcoding, hterm⟩, rfl⟩ := hs
    exact .finish hcoding hterm
  | resolve id =>
    simp only [Drain.workerStep, Option.ite_none_right_eq_some, Option.some.injEq] at hs
    exact hs.2 ▸ .resolve id hs.1
  | cancel t =>
    simp only [Drain.workerStep, Option.ite_none_right_eq_some, Option.some.injEq] at hs
    exact hs.2 ▸ .cancel t hs.1
  | postElsewhere impl segment =>
    simp only [Drain.workerStep, Option.ite_none_right_eq_some, Option.some.injEq] at hs
    obtain ⟨⟨hloc, _, _, _, hvalid, _⟩, rfl⟩ := hs
    exact .postElsewhere impl hloc hvalid
  | segmentReturn room =>
    simp only [Drain.workerStep] at hs
    cases hf : (s.workers w).frames with
    | nil => simp [hf] at hs
    | cons frame frames =>
      simp only [hf, Option.ite_none_right_eq_some, Option.some.injEq] at hs
      obtain ⟨⟨hloc, hunw, htr⟩, rfl⟩ := hs
      exact .segmentReturn room hf hloc hunw htr
  | handoff =>
    simp only [Drain.workerStep, Option.ite_none_right_eq_some, Option.some.injEq] at hs
    obtain ⟨⟨hcoding, _⟩, rfl⟩ := hs
    exact .handoff hcoding
  | handoffRequest =>
    simp only [Drain.workerStep, Option.ite_none_right_eq_some, Option.some.injEq] at hs
    exact hs.2 ▸ .handoffRequest hs.1
  | lock =>
    simp only [Drain.workerStep, Option.ite_none_right_eq_some, Option.some.injEq] at hs
    obtain ⟨⟨htop, htr, hmutex⟩, rfl⟩ := hs
    exact .lock htop htr hmutex
  | check => exact .check hs

theorem Sound.workerStep (h : Sound s) {w : Fin n} {e : WorkerStep n}
    (hs : workerStep own s w e = some s') : Sound s' := by
  have hw := h.workers w
  cases workerStep_cases hs with
  | @claim source segment _ hidle htriggers hclaim =>
    simp only [claim] at hclaim
    cases source with
    | global =>
      simp only [Option.ite_none_right_eq_some, Option.some.injEq] at hclaim
      obtain ⟨⟨_, hmem, _⟩, rfl⟩ := hclaim
      have hset := h.setWorker (w := w) (hw.claim hidle htriggers (h.global _ hmem))
      exact { hset with global := fun g hg => h.global g (List.mem_of_mem_erase hg) }
    | «local» v =>
      simp only [Option.ite_none_right_eq_some, Option.some.injEq] at hclaim
      obtain ⟨hmem, rfl⟩ := hclaim
      have hset := h.setWorker (w := w) (hw.claim hidle htriggers (h.locals v _ hmem))
      refine { hset with locals := fun u g hg => ?_ }
      by_cases hu : u = v
      · subst hu
        simp only [Function.update_self] at hg
        exact h.locals u g (List.mem_of_mem_erase hg)
      · simp only [Function.update_of_ne hu] at hg
        exact h.locals u g hg
  | @dispatch segment gated hloc =>
    simp only [dispatch]
    -- a claimed first segment that Immediate cancels, one whose `try_start` fails, or an execution
    have hpark := hw.parked (.inl (by simp [hloc]))
    split_ifs with h1 h2
    · have hx := hw.release hloc (Drain.requestCancel s segment.task).2
        (by simp [Worker.waits, h1.2.1])
      exact { (h.requestCancel segment.task).setWorker (w := w) hx with }
    · have hx := hw.release hloc (s.workers w).triggers fun _ => hpark.2
      exact { h.setWorker (w := w) hx with }
    · have hresume : Sound (s.resume segment.task) := by
        unfold Runtime.resume
        split
        · exact h.setTask _ _
        · exact h
      exact hresume.setWorker (hw.enter hloc gated)
  | dueTimer htop hid =>
    simp only [Worker.topLevel, decide_eq_true_eq] at htop
    -- a worker that looks at the timers has no code of a task under way
    have hnot := hw.not_busy (.inl htop.2)
    refine { h.setWorker (w := w) (x := { s.workers w with triggers := _ }) ?_ with }
    exact { hw with
      busy := by simp [hnot.1, hnot.2]
      parked := by simp [htop.1, Worker.waits, htop.2] }
  | trigger room hloc htr =>
    exact Sound.triggerOn (h.setWorker (hw.trigger htr)) w room _
  | beginWait hf hcoding hself =>
    obtain ⟨hloc, htr, hsub, hhand, hunw, _⟩ := Worker.coding_iff.mp hcoding
    exact h.setWorker (hw.wait hf hloc hunw htr hsub hhand (by simpa using hself))
  | endWait hf hhelp =>
    simp only [Worker.helping, decide_eq_true_eq] at hhelp
    obtain ⟨hloc, hwaits⟩ := hhelp
    obtain ⟨hunw, htr⟩ := hw.parked (.inr hwaits)
    obtain ⟨hsub, hhand⟩ := hw.not_busy (.inr hwaits)
    exact h.setWorker (hw.wait hf hloc hunw htr hsub hhand (by simp))
  | submit hcoding hfresh =>
    obtain ⟨hloc, htr, hsub, hhand, hunw, _⟩ := Worker.coding_iff.mp hcoding
    simp only [Runtime.fresh, decide_eq_true_eq] at hfresh
    have hframes := Worker.frames_ne_nil_of_coding hcoding
    have hwaits := Worker.waits_of_coding hcoding
    refine (h.setTask _ .ready).setWorker { hw with submitting := ?_, busy := ?_ }
    · rintro u ⟨rfl⟩
      exact hfresh.1
    · exact fun _ => ⟨hloc, hunw, hframes, hwaits⟩
  | @publish room t hsub =>
    refine (h.setWorker ?_).enqueue room ?_
    · exact { hw with
        submitting := by simp
        busy := fun hb => hw.busy (hb.elim (fun hne => absurd rfl hne) .inr) }
    · intro g hg
      rw [List.mem_singleton.mp hg]
      exact hw.submitting t hsub
  | await target resolved hcoding => exact h.suspendOn hcoding resolved _
  | sleep resolved hcoding => exact h.suspendOn hcoding resolved _
  | yield hcoding => exact h.suspendOn hcoding true _
  | finish hcoding hterm => exact (h.setTask _ _).setWorker (hw.code hcoding true _)
  | resolve id hcoding =>
    exact { h.setWorker (w := w) (hw.code hcoding (s.workers w).unwinding [id]) with }
  | cancel t hcoding =>
    exact (h.requestCancel t).setWorker (hw.code hcoding (s.workers w).unwinding _)
  | postElsewhere impl hloc hvalid => exact h.post w false impl hvalid
  | segmentReturn room hf hloc hunw htr =>
    -- the guard's exit may post the deferred resume
    obtain ⟨hx, hsegs⟩ := hw.exit own hf hloc hunw htr
    exact { (h.setWorker (w := w) hx).enqueue (w := w) room hsegs with }
  | handoff hcoding =>
    obtain ⟨hloc, _, _, _, hunw, _⟩ := Worker.coding_iff.mp hcoding
    have hframes := Worker.frames_ne_nil_of_coding hcoding
    have hwaits := Worker.waits_of_coding hcoding
    have hx : WorkerOk { s.workers w with handoff := true } :=
      { hw with busy := fun _ => ⟨hloc, hunw, hframes, hwaits⟩ }
    exact { h.setWorker (w := w) hx with }
  | handoffRequest hhand =>
    refine Sound.requestShutdownMode (h.setWorker ?_) .graceful
    exact { hw with busy := fun hb => hw.busy (hb.elim .inl fun hf => absurd hf (by simp)) }
  | lock htop htr hmutex =>
    simp only [Worker.topLevel, decide_eq_true_eq] at htop
    exact { h.setWorker (w := w) (hw.move htop.2 htr .locked (by simp)) with }
  | check hcheck => exact h.check hcheck

theorem Sound.sweepQueues (h : Sound s) : Sound (sweepQueues s) where
  workers := h.workers
  global := by
    intro g hg
    rcases List.mem_append.mp (List.mem_filter.mp hg).1 with hg | hg
    · exact h.global g hg
    · obtain ⟨v, _, hv⟩ := List.mem_flatMap.mp hg
      exact h.locals v g hv
  locals := by
    intro v g hg
    cases hg
  inFlight := h.inFlight
  hands := h.hands
  awaits := h.awaits

theorem Sound.outsideStep (h : Sound s) {e : OutsideStep} (hs : outsideStep own s e = some s') :
    Sound s' := by
  cases e with
  | acquire t =>
    simp only [Drain.outsideStep, Option.ite_none_right_eq_some, Option.some.injEq] at hs
    obtain ⟨⟨_, hfresh⟩, rfl⟩ := hs
    simp only [Runtime.fresh, decide_eq_true_eq] at hfresh
    refine { h with inFlight := fun u hu => ?_ }
    rcases List.mem_cons.mp hu with rfl | hu
    · exact hfresh.1
    · exact h.inFlight u hu
  | publish t =>
    simp only [Drain.outsideStep, Option.ite_none_right_eq_some, Option.some.injEq] at hs
    obtain ⟨hmem, rfl⟩ := hs
    refine { h with inFlight := fun u hu => h.inFlight u (List.mem_of_mem_erase hu), global := ?_ }
    intro g hg
    rcases List.mem_append.mp hg with hg | hg
    · exact h.global g hg
    · rw [List.mem_singleton.mp hg]
      exact h.inFlight t hmem
  | trigger id =>
    simp only [Drain.outsideStep, Option.ite_none_right_eq_some] at hs
    obtain ⟨_, hs⟩ := hs
    cases hfind : s.awaits.find? fun a => a.id = id with
    | none =>
      simp only [hfind, Option.some.injEq] at hs
      subst hs
      exact { h with }
    | some a =>
      simp only [hfind, Option.some.injEq] at hs
      subst hs
      have hmem := List.mem_of_find?_eq_some hfind
      refine { h with awaits := fun b hb => h.awaits b (List.mem_of_mem_erase hb), hands := ?_ }
      intro u hu
      rcases List.mem_cons.mp hu with rfl | hu
      · exact h.awaits a hmem
      · exact h.hands u hu
  | post t =>
    simp only [Drain.outsideStep, Option.ite_none_right_eq_some, Option.some.injEq] at hs
    obtain ⟨hmem, rfl⟩ := hs
    refine { h with hands := fun u hu => h.hands u (List.mem_of_mem_erase hu), global := ?_ }
    intro g hg
    rcases List.mem_append.mp hg with hg | hg
    · exact h.global g hg
    · rw [List.mem_singleton.mp hg]
      exact h.hands t hmem
  | drop t =>
    simp only [Drain.outsideStep, Option.ite_none_right_eq_some, Option.some.injEq] at hs
    obtain ⟨_, rfl⟩ := hs
    exact { h with hands := fun u hu => h.hands u (List.mem_of_mem_erase hu) }
  | request mode =>
    simp only [Drain.outsideStep, Option.ite_none_left_eq_some, Option.some.injEq] at hs
    obtain ⟨_, rfl⟩ := hs
    exact h.requestShutdownMode mode
  | cancel t | resolve id =>
    simp only [Drain.outsideStep, Option.some.injEq] at hs
    subst hs
    exact { h with }
  | sweepQueues | finalize =>
    simp only [Drain.outsideStep, Option.ite_none_right_eq_some, Option.some.injEq] at hs
    obtain ⟨_, rfl⟩ := hs
    exact { h.sweepQueues with }
  | publishStopped =>
    simp only [Drain.outsideStep] at hs
    split at hs
    · obtain rfl := Option.some.inj hs
      exact { h with }
    · cases hs
  | cancelTimers | stop | joinWorkers =>
    simp only [Drain.outsideStep, Option.ite_none_right_eq_some, Option.some.injEq] at hs
    obtain ⟨_, rfl⟩ := hs
    exact { h with }

/-- The step lemma. -/
theorem Sound.step (h : Sound s) {a : Label n} (hs : step own s a = some s') : Sound s' := by
  cases a with
  | outside e => exact h.outsideStep hs
  | worker w e => exact h.workerStep hs

theorem sound_started (own : Impl) (n : Nat) : Sound (started own n) where
  workers := fun w => {
    current := rfl
    nested := trivial
    slot := by intro g hg; cases hg
    empty := fun _ => ⟨rfl, rfl⟩
    valid := by intro frame hframe; cases hframe
    claimed := by intro g hg; cases hg
    submitting := by intro t ht; cases ht
    busy := by simp [started]
    parked := by simp [started, Worker.waits]
    out := by simp [started, WorkerLoc.out] }
  global := by intro g hg; cases hg
  locals := by intro v g hg; cases hg
  inFlight := by intro t ht; cases ht
  hands := by intro t ht; cases ht
  awaits := by intro a ha; cases ha

end Drain
end AstraScheduler
