import AstraScheduler.DrainSound

/-! # Timers while the workers help

The runtime of the submissions and suspensions, now with a clock: a sleep has a wake time and a
helping wait may have a deadline.  `process_due_timers` is called in `run_worker_loop` and nowhere
else, so a worker collects a timer only outside of every invoker; `perform_helping_loop` ends when
the target is complete or, if there is a deadline, when it has passed. -/

namespace AstraScheduler
namespace HelpingTimers

open Transition (Machine)
open HelpingWait (Segment Frame Target)
open Drain (Worker WorkerOk WorkerStep OutsideStep Sound)

/-- `deadlines w h` is the deadline of the wait of the frame at height `h` on worker `w`;
`complete` has the graph runs and the tasks of other runtimes that are complete. -/
structure Runtime (n : Nat) where
  base : Drain.Runtime n
  now : Nat := 0
  wakeTimes : Nat → Nat := fun _ => 0
  deadlines : Fin n → Nat → Option Nat := fun _ _ => none
  complete : List Target := []

inductive Label (n : Nat) where
  | tick (duration : Nat)
  | outside (step : OutsideStep)
  /-- A target completes that is not a task of this runtime. -/
  | completeElsewhere (target : Target)
  /-- A node on a worker is the last of its graph run. -/
  | graphDone (w : Fin n) (run : Nat)
  /-- `time` is the deadline of a wait and the wake time of a sleep. -/
  | worker (w : Fin n) (step : WorkerStep n) (time : Option Nat)
  deriving DecidableEq, Repr

/-- The clock advances or a worker takes a step. -/
def Label.inside {n : Nat} : Label n → Bool
  | .tick _ | .graphDone _ _ | .worker _ _ _ => true
  | .outside _ | .completeElsewhere _ => false

section Steps
variable {n : Nat}

/-- `is_completed`. -/
def Runtime.completed (s : Runtime n) (target : Target) : Bool :=
  target ∈ s.complete ||
    match target with
    | .task t => (s.base.tasks t).any TaskState.terminal
    | .graphRun _ => false

def Runtime.expired (s : Runtime n) (deadline : Option Nat) : Bool := deadline.any (· ≤ s.now)

/-- `t_current_helping_depth`. -/
def Runtime.helpingDepth (s : Runtime n) (w : Fin n) : Nat :=
  (s.base.workers w).frames.countP fun frame => frame.waiting.isSome

/-- The height of the innermost frame. -/
def Runtime.height (s : Runtime n) (w : Fin n) : Nat := (s.base.workers w).frames.length

/-- What the clock, the deadlines and `max_helping_depth` say of a worker's step. -/
def Runtime.allows (maxHelpingDepth : Nat) (s : Runtime n) (w : Fin n) (time : Option Nat) :
    WorkerStep n → Bool
  | .dueTimer id => s.wakeTimes id ≤ s.now
  | .beginWait target =>
    -- otherwise `perform_caller_wait` returns at once, or throws
    !s.completed target && !s.expired time && s.helpingDepth w < maxHelpingDepth
  | .endWait =>
    (s.base.workers w).frames.head?.any (fun frame => frame.waiting.any s.completed) ||
      s.expired (s.deadlines w (s.height w))
  | _ => true

/-- The runtime after a worker's step, with the time of a wait or of a sleep. -/
def Runtime.after (s : Runtime n) (w : Fin n) (time : Option Nat) (step : WorkerStep n)
    (base : Drain.Runtime n) : Runtime n :=
  match step with
  | .sleep _ =>
    { s with
      base := base
      wakeTimes := Function.update s.wakeTimes s.base.nextAwait (time.getD s.now) }
  | .beginWait _ =>
    { s with
      base := base
      deadlines :=
        Function.update s.deadlines w (Function.update (s.deadlines w) (s.height w) time) }
  | _ => { s with base := base }

variable (own : Impl) (maxHelpingDepth : Nat)

def next (s : Runtime n) : Label n → Option (Runtime n)
  | .tick duration => some { s with now := s.now + duration }
  | .outside e => (Drain.outsideStep own s.base e).map fun base => { s with base := base }
  | .completeElsewhere target => some { s with complete := target :: s.complete }
  | .graphDone w run =>
    if (s.base.workers w).frames ≠ [] ∧ ¬ (s.base.workers w).waits then
      some { s with complete := .graphRun run :: s.complete }
    else none
  | .worker w e time =>
    if s.allows maxHelpingDepth w time e then
      (Drain.workerStep own s.base w e).map fun base => s.after w time e base
    else none

/-- The runtime at `own` with `n` workers, at least one, from any time on. -/
def machine (n : Nat) : Machine (Runtime n) (Label n) where
  init s := 0 < n ∧ ∃ now, s = { base := Drain.started own n, now := now }
  next := next own maxHelpingDepth

end Steps

/-! ## The property -/

section Property
variable {n : Nat} (own : Impl) (maxHelpingDepth : Nat)

/-- Every worker is inside `perform_helping_loop`: searching, with a claim, or blocked. -/
def Runtime.AllHelping (s : Runtime n) : Prop := ∀ w, (s.base.workers w).waits

def Runtime.QueuesEmpty (s : Runtime n) : Prop := s.base.global = [] ∧ ∀ v, s.base.locals v = []

/-- A timer that is registered and due. -/
def Runtime.Due (s : Runtime n) (id : Nat) : Prop := id ∈ s.base.timers ∧ s.wakeTimes id ≤ s.now

/-- The clock and the workers lead from one state to another. -/
def Leads (s s' : Runtime n) : Prop :=
  ∃ as : List (Label n), (∀ a ∈ as, a.inside) ∧ (machine own maxHelpingDepth n).run s as = some s'

/-- The clock and the workers lead to a step that collects the timer. -/
def Collectable (s : Runtime n) (id : Nat) : Prop :=
  ∃ s' w, Leads own maxHelpingDepth s s' ∧
    (next own maxHelpingDepth s' (.worker w (.dueTimer id) none)).isSome

/-- **Wedged**: all workers help, the queues are empty, and a due timer can never be collected. -/
structure Wedged (s : Runtime n) : Prop where
  helping : s.AllHelping
  empty : s.QueuesEmpty
  stranded : ∃ id, s.Due id ∧ ¬ Collectable own maxHelpingDepth s id

/-- The `k` innermost helping waits of a worker end by themselves: each has a deadline, or its
target is complete, is claimed by a worker, or is executed by one under waits of that kind. -/
inductive Ends (s : Runtime n) : Fin n → Nat → Prop
  | none (w : Fin n) : Ends s w 0
  | deadline {w : Fin n} {k : Nat} {frame : Frame} {target : Target} : Ends s w k →
      (s.base.workers w).frames[k]? = some frame → frame.waiting = some target →
      (s.deadlines w (s.height w - k)).isSome → Ends s w (k + 1)
  | completed {w : Fin n} {k : Nat} {frame : Frame} {target : Target} : Ends s w k →
      (s.base.workers w).frames[k]? = some frame → frame.waiting = some target →
      s.completed target → Ends s w (k + 1)
  | claimed {w v : Fin n} {k : Nat} {frame : Frame} {segment : Segment} : Ends s w k →
      (s.base.workers w).frames[k]? = some frame → frame.waiting = some (.task segment.task) →
      (s.base.workers v).loc = .claimed segment →
      segment.resume ∨ s.base.tasks segment.task = some .ready → Ends s w (k + 1)
  | executed {w v : Fin n} {k m : Nat} {frame frame' : Frame} : Ends s w k →
      (s.base.workers w).frames[k]? = some frame → frame.waiting = some (.task frame'.task) →
      Ends s v (m + 1) → (s.base.workers v).frames[m]? = some frame' → Ends s w (k + 1)

/-- When all workers help with empty queues and a due timer, the waits of one of them end. -/
def SomeWorkerReturns (s : Runtime n) : Prop :=
  s.AllHelping → s.QueuesEmpty → (∃ id, s.Due id) → ∃ w, Ends s w (s.height w)

/-- All waits of a worker have deadlines. -/
def Runtime.AllTimed (s : Runtime n) (w : Fin n) : Prop :=
  ∀ k < s.height w, (s.base.workers w).frames[k]?.any (fun frame => frame.waiting.isSome) ∧
    (s.deadlines w (s.height w - k)).isSome

/-- The simplest way in which some worker returns. -/
def SomeWorkerTimed (s : Runtime n) : Prop :=
  s.AllHelping → s.QueuesEmpty → (∃ id ∈ s.base.timers, s.wakeTimes id ≤ s.now) →
    ∃ w, s.AllTimed w

instance decidableSomeWorkerTimed (s : Runtime n) : Decidable (SomeWorkerTimed s) := by
  unfold SomeWorkerTimed Runtime.AllHelping Runtime.QueuesEmpty Runtime.AllTimed
  infer_instance

theorem Ends.of_deadlines {s : Runtime n} {w : Fin n} (h : s.AllTimed w) {k : Nat}
    (hk : k ≤ s.height w) : Ends s w k := by
  induction k with
  | zero => exact .none w
  | succ k ih =>
    obtain ⟨hwaits, hdeadline⟩ := h k (by omega)
    cases hframe : (s.base.workers w).frames[k]? with
    | none =>
      rw [hframe] at hwaits
      cases hwaits
    | some frame =>
      rw [hframe] at hwaits
      obtain ⟨target, hwaiting⟩ := Option.isSome_iff_exists.mp hwaits
      exact .deadline (ih (by omega)) hframe hwaiting hdeadline

theorem SomeWorkerTimed.returns {s : Runtime n} (h : SomeWorkerTimed s) : SomeWorkerReturns s := by
  intro hhelping hempty hdue
  obtain ⟨id, hmem, hwake⟩ := hdue
  obtain ⟨w, htimed⟩ := h hhelping hempty ⟨id, hmem, hwake⟩
  exact ⟨w, .of_deadlines htimed (Nat.le_refl _)⟩

end Property

/-! ## A frame returns -/

section Returns
variable {n : Nat} {own : Impl} {maxHelpingDepth : Nat} {s s' s'' : Runtime n} {w : Fin n}

theorem Leads.refl (s : Runtime n) : Leads own maxHelpingDepth s s := ⟨[], nofun, rfl⟩

theorem Leads.trans (h : Leads own maxHelpingDepth s s') (h' : Leads own maxHelpingDepth s' s'') :
    Leads own maxHelpingDepth s s'' := by
  obtain ⟨as, has, hr⟩ := h
  obtain ⟨bs, hbs, hr'⟩ := h'
  refine ⟨as ++ bs, fun a ha => ?_, ?_⟩
  · rcases List.mem_append.mp ha with ha | ha
    · exact has a ha
    · exact hbs a ha
  · rw [Machine.run_append, hr]
    exact hr'

theorem Leads.step {a : Label n} (ha : a.inside = true)
    (hs : next own maxHelpingDepth s a = some s') : Leads own maxHelpingDepth s s' := by
  refine ⟨[a], fun b hb => ?_, ?_⟩
  · rw [List.mem_singleton.mp hb]
    exact ha
  · simp only [Machine.run, machine, hs, Option.bind_some]

/-- The clock and worker `w` lead from one state to another, in which the worker stands in its
loop with other frames; no timer has been touched. -/
structure Goes (own : Impl) (maxHelpingDepth : Nat) (s s' : Runtime n) (w : Fin n)
    (frames : List Frame) : Prop where
  leads : Leads own maxHelpingDepth s s'
  sound : Sound s'.base
  frames : (s'.base.workers w).frames = frames
  loc : (s'.base.workers w).loc = .loop
  others : ∀ v, v ≠ w → s'.base.workers v = s.base.workers v
  timers : s'.base.timers = s.base.timers
  wakeTimes : s'.wakeTimes = s.wakeTimes
  deadlines : s'.deadlines = s.deadlines
  complete : s'.complete = s.complete
  now : s.now ≤ s'.now

theorem Goes.refl (hsound : Sound s.base) (hloc : (s.base.workers w).loc = .loop) :
    Goes own maxHelpingDepth s s w (s.base.workers w).frames where
  leads := .refl s
  sound := hsound
  frames := rfl
  loc := hloc
  others := fun _ _ => rfl
  timers := rfl
  wakeTimes := rfl
  deadlines := rfl
  complete := rfl
  now := Nat.le_refl _

theorem Goes.trans {frames frames' : List Frame} (h : Goes own maxHelpingDepth s s' w frames)
    (h' : Goes own maxHelpingDepth s' s'' w frames') :
    Goes own maxHelpingDepth s s'' w frames' where
  leads := h.leads.trans h'.leads
  sound := h'.sound
  frames := h'.frames
  loc := h'.loc
  others := fun v hv => (h'.others v hv).trans (h.others v hv)
  timers := h'.timers.trans h.timers
  wakeTimes := h'.wakeTimes.trans h.wakeTimes
  deadlines := h'.deadlines.trans h.deadlines
  complete := h'.complete.trans h.complete
  now := Nat.le_trans h.now h'.now

/-- One step of the worker that no clock has a say in. -/
theorem Goes.step {e : WorkerStep n} {base : Drain.Runtime n} {x : Worker} (hsound : Sound s.base)
    (hs : Drain.workerStep own s.base w e = some base)
    (hallows : s.allows maxHelpingDepth w none e = true)
    (hafter : s.after w none e base = { s with base := base })
    (hworkers : base.workers = Function.update s.base.workers w x) (hloc : x.loc = .loop)
    (htimers : base.timers = s.base.timers) :
    Goes own maxHelpingDepth s { s with base := base } w x.frames where
  leads := by
    refine .step (a := .worker w e none) rfl ?_
    simp only [next, hallows, hs, if_true, Option.map_some, hafter]
  sound := hsound.workerStep hs
  frames := by simp only [hworkers, Function.update_self]
  loc := by simp only [hworkers, Function.update_self, hloc]
  others := fun v hv => by simp only [hworkers, Function.update_of_ne hv]
  timers := htimers
  wakeTimes := rfl
  deadlines := rfl
  complete := rfl
  now := Nat.le_refl _

/-- A callback changes the slot of its worker and the queues. -/
theorem trigger_keeps (own : Impl) {b : Drain.Runtime n} {id : Nat} {ids : List Nat}
    (hloc : (b.workers w).loc = .loop) (hids : (b.workers w).triggers = id :: ids) :
    ∃ b' ctx, Drain.workerStep own b w (.trigger false) = some b' ∧
      b'.workers = Function.update b.workers w
        { b.workers w with ctx := ctx, triggers := ids } ∧
      b'.timers = b.timers ∧ b'.tasks = b.tasks := by
  simp only [Drain.workerStep, hloc, hids]
  unfold Drain.triggerOn
  split
  · exact ⟨_, (b.workers w).ctx, rfl, rfl, rfl, rfl⟩
  · rename_i a _
    refine ⟨_, ((b.workers w).ctx.postTaskInternal own (some ⟨a.waiter, true⟩) false).1, rfl,
      ?_, ?_, ?_⟩
    · unfold Drain.post
      simp only [Drain.workers_enqueue, Drain.Runtime.setWorker, Function.update_self,
        Function.update_idem]
    · simp only [Drain.post, Drain.timers_enqueue]
      rfl
    · simp only [Drain.post, Drain.tasks_enqueue]
      rfl

theorem segmentReturn_keeps (own : Impl) {b : Drain.Runtime n} {frame : Frame}
    {frames : List Frame} (hloc : (b.workers w).loc = .loop)
    (hframes : (b.workers w).frames = frame :: frames)
    (hunwinding : (b.workers w).unwinding = true) (hids : (b.workers w).triggers = []) :
    ∃ b' ctx, Drain.workerStep own b w (.segmentReturn false) = some b' ∧
      b'.workers = Function.update b.workers w
        { b.workers w with ctx := ctx, frames := frames, unwinding := false } ∧
      b'.timers = b.timers ∧ b'.tasks = b.tasks := by
  simp only [Drain.workerStep, hframes, hloc, hunwinding, hids, and_self, if_true]
  refine ⟨_, (HelpingWait.exitFrame own (b.workers w).ctx frame).1, rfl, ?_, ?_, ?_⟩
  · simp only [Drain.Runtime.completeClaim, Drain.workers_enqueue]
    rfl
  · simp only [Drain.Runtime.completeClaim, Drain.timers_enqueue]
    rfl
  · simp only [Drain.Runtime.completeClaim, Drain.tasks_enqueue]
    rfl

/-- An invoker that is about to return runs its callbacks and returns. -/
theorem returns (maxHelpingDepth : Nat) {frame : Frame} {frames : List Frame} (ids : List Nat)
    (hsound : Sound s.base) (hloc : (s.base.workers w).loc = .loop)
    (hframes : (s.base.workers w).frames = frame :: frames)
    (hunwinding : (s.base.workers w).unwinding = true)
    (hids : (s.base.workers w).triggers = ids) :
    ∃ s', Goes own maxHelpingDepth s s' w frames ∧ s'.base.tasks = s.base.tasks := by
  induction ids generalizing s with
  | nil =>
    obtain ⟨b, ctx, hs, hworkers, htimers, htasks⟩ :=
      segmentReturn_keeps own hloc hframes hunwinding hids
    exact ⟨_, Goes.step hsound hs rfl rfl hworkers hloc htimers, htasks⟩
  | cons id ids ih =>
    obtain ⟨b, ctx, hs, hworkers, htimers, htasks⟩ := trigger_keeps own hloc hids
    have hgoes : Goes own maxHelpingDepth s { s with base := b } w _ :=
      Goes.step hsound hs rfl rfl hworkers hloc htimers
    have hself := congrFun hworkers w
    rw [Function.update_self] at hself
    obtain ⟨s', hreturns, hsame⟩ := ih hgoes.sound hgoes.loc (hgoes.frames.trans hframes)
      (by rw [hself]; exact hunwinding) (by rw [hself])
    exact ⟨s', hgoes.trans hreturns, hsame.trans htasks⟩

/-- Code that runs finishes its task and returns. -/
theorem finishes (maxHelpingDepth : Nat) {frame : Frame} {frames : List Frame}
    (hsound : Sound s.base) (hcoding : (s.base.workers w).coding)
    (hframes : (s.base.workers w).frames = frame :: frames) :
    ∃ s', Goes own maxHelpingDepth s s' w frames ∧
      s'.base.tasks = Function.update s.base.tasks frame.task (some .succeeded) := by
  have hloc := (Drain.Worker.coding_iff.mp hcoding).1
  have htask : (s.base.workers w).task = frame.task := by
    rw [Worker.task, hframes]
    rfl
  have hs : Drain.workerStep own s.base w (.finish .succeeded) =
      some ((s.base.setTask frame.task .succeeded).setWorker w
        { s.base.workers w with
          triggers := s.base.awaitersOf frame.task, unwinding := true }) := by
    simp only [Drain.workerStep, hcoding, htask]
    rfl
  have hgoes : Goes own maxHelpingDepth s { s with base := _ } w _ :=
    Goes.step hsound hs rfl rfl rfl hloc rfl
  obtain ⟨s', hreturns, hsame⟩ := returns maxHelpingDepth _ hgoes.sound hgoes.loc
    (hgoes.frames.trans hframes) (by simp) rfl
  exact ⟨s', hgoes.trans hreturns, hsame⟩

/-- A helping wait that may end ends, and the task that waited finishes. -/
theorem leaves (maxHelpingDepth : Nat) {frame : Frame} {frames : List Frame} {target : Target}
    (hsound : Sound s.base) (hloc : (s.base.workers w).loc = .loop)
    (hframes : (s.base.workers w).frames = frame :: frames)
    (hwaiting : frame.waiting = some target)
    (hends : s.completed target = true ∨ s.expired (s.deadlines w (s.height w)) = true) :
    ∃ s', Goes own maxHelpingDepth s s' w frames ∧
      s'.base.tasks = Function.update s.base.tasks frame.task (some .succeeded) := by
  have hwaits : (s.base.workers w).waits = true := by
    simp only [Worker.waits, hframes, List.head?_cons, Option.any_some, hwaiting]
    rfl
  have hok := hsound.workers w
  obtain ⟨hunwinding, htriggers⟩ := hok.parked (.inr hwaits)
  obtain ⟨hsubmitting, hhandoff⟩ := hok.not_busy (.inr hwaits)
  have hs : Drain.workerStep own s.base w .endWait = some (s.base.setWorker w
      { s.base.workers w with frames := { frame with waiting := none } :: frames }) := by
    simp [Drain.workerStep, hframes, Worker.helping, hloc, hwaiting]
  have hallows : s.allows maxHelpingDepth w none .endWait = true := by
    simp only [Runtime.allows, hframes, List.head?_cons, Option.any_some, hwaiting,
      Bool.or_eq_true]
    exact hends
  have hgoes : Goes own maxHelpingDepth s { s with base := _ } w _ :=
    Goes.step hsound hs hallows rfl rfl hloc rfl
  have hcoding : ((s.base.setWorker w { s.base.workers w with
      frames := { frame with waiting := none } :: frames }).workers w).coding = true := by
    rw [Drain.workers_setWorker_same, Drain.Worker.coding_iff]
    exact ⟨hloc, htriggers, hsubmitting, hhandoff, hunwinding, _, _, rfl, rfl⟩
  obtain ⟨s', hfinishes, htasks⟩ := finishes maxHelpingDepth hgoes.sound hcoding hgoes.frames
  exact ⟨s', hgoes.trans hfinishes, htasks⟩

/-- A deadline passes. -/
theorem expires (own : Impl) (maxHelpingDepth deadline : Nat) (hsound : Sound s.base)
    (hloc : (s.base.workers w).loc = .loop) :
    ∃ s', Goes own maxHelpingDepth s s' w (s.base.workers w).frames ∧ s'.base = s.base ∧
      s'.expired (some deadline) = true := by
  refine ⟨{ s with now := s.now + deadline }, ?_, rfl, ?_⟩
  · exact
      { leads := .step (a := .tick deadline) rfl rfl, sound := hsound, frames := rfl, loc := hloc
        others := fun _ _ => rfl, timers := rfl, wakeTimes := rfl, deadlines := rfl
        complete := rfl, now := Nat.le_add_right s.now deadline }
  · simp [Runtime.expired]

/-- A helping worker executes the invoker that it has claimed, unless it may not start. -/
theorem executes (own : Impl) (maxHelpingDepth : Nat) {segment : Segment} (hsound : Sound s.base)
    (hwaits : (s.base.workers w).waits = true)
    (hloc : (s.base.workers w).loc = .claimed segment) :
    ∃ s', Goes own maxHelpingDepth s s' w (s.base.workers w).frames ∧
      s'.base.tasks =
        if segment.resume ∨ s.base.tasks segment.task = some .ready then
          Function.update s.base.tasks segment.task (some .succeeded)
        else s.base.tasks := by
  have hok := hsound.workers w
  obtain ⟨hunwinding, htriggers⟩ := hok.parked (.inr hwaits)
  obtain ⟨hsubmitting, hhandoff⟩ := hok.not_busy (.inr hwaits)
  have hframes : (s.base.workers w).frames ≠ [] := by
    intro hnil
    simp [Worker.waits, hnil] at hwaits
  have hs : Drain.workerStep own s.base w (.dispatch false) =
      some (Drain.dispatch s.base w segment false) := by
    simp only [Drain.workerStep, hloc]
  by_cases hruns : segment.resume ∨ s.base.tasks segment.task = some .ready
  · have hstart : ¬ (¬ segment.resume ∧ s.base.tasks segment.task ≠ some .ready) := by
      rintro ⟨hno, hnot⟩
      exact hruns.elim hno hnot
    obtain ⟨ctx, frame, hframe, htask, hwaiting⟩ : ∃ ctx frame,
        HelpingWait.enterFrame (s.base.workers w).ctx segment.task false = (ctx, frame) ∧
          frame.task = segment.task ∧ frame.waiting = none := ⟨_, _, rfl, rfl, rfl⟩
    have hd : Drain.dispatch s.base w segment false = (s.base.resume segment.task).setWorker w
        { s.base.workers w with
          loc := .loop, ctx := ctx, frames := frame :: (s.base.workers w).frames
          unwinding := false } := by
      simp only [Drain.dispatch, hframes, false_and, and_false, if_false, if_neg hstart, hframe]
    rw [hd] at hs
    have hgoes : Goes own maxHelpingDepth s { s with base := _ } w _ :=
      Goes.step hsound hs rfl rfl rfl rfl rfl
    obtain ⟨s', hfinishes, htasks⟩ := finishes maxHelpingDepth hgoes.sound
      (by
        rw [Drain.workers_setWorker_same, Drain.Worker.coding_iff]
        exact ⟨rfl, htriggers, hsubmitting, hhandoff, rfl, _, _, rfl, hwaiting⟩)
      hgoes.frames
    refine ⟨s', hgoes.trans hfinishes, ?_⟩
    rw [htasks, if_pos hruns, htask]
    simp only [Drain.Runtime.setWorker, Drain.Runtime.resume]
    split
    · rw [Function.update_idem]
    · rfl
  · have hstart : ¬ segment.resume ∧ s.base.tasks segment.task ≠ some .ready :=
      ⟨fun hresume => hruns (.inl hresume), fun hready => hruns (.inr hready)⟩
    have hd : Drain.dispatch s.base w segment false =
        (s.base.setWorker w { s.base.workers w with loc := .loop }).completeClaim := by
      simp only [Drain.dispatch, hframes, false_and, and_false, if_false, if_pos hstart]
    rw [hd] at hs
    have hgoes : Goes own maxHelpingDepth s { s with base := _ } w _ :=
      Goes.step hsound hs rfl rfl rfl rfl rfl
    exact ⟨_, hgoes, (if_neg hruns).symm⟩

end Returns

/-! ## The waits end -/

section Unwinding
variable {n : Nat} {own : Impl} {maxHelpingDepth : Nat} {s s' s'' : Runtime n} {w : Fin n}
  {popped : Fin n → Nat}

/-- Every task is what it was, or is terminal. -/
def OnlyFinishes (s s' : Runtime n) : Prop :=
  ∀ t, s'.base.tasks t = s.base.tasks t ∨ (s'.base.tasks t).any TaskState.terminal

theorem OnlyFinishes.terminal (h : OnlyFinishes s s') {t : TaskId}
    (ht : (s.base.tasks t).any TaskState.terminal) : (s'.base.tasks t).any TaskState.terminal := by
  rcases h t with heq | hterminal
  · rw [heq]
    exact ht
  · exact hterminal

theorem OnlyFinishes.trans (h : OnlyFinishes s s') (h' : OnlyFinishes s' s'') :
    OnlyFinishes s s'' := by
  intro t
  rcases h' t with heq | hterminal
  · rw [heq]
    exact h t
  · exact .inr hterminal

theorem OnlyFinishes.of_update {t : TaskId}
    (h : s'.base.tasks = Function.update s.base.tasks t (some .succeeded)) : OnlyFinishes s s' := by
  intro u
  rw [h]
  by_cases heq : u = t
  · subst heq
    simp [TaskState.terminal]
  · rw [Function.update_of_ne heq]
    exact .inl rfl

theorem OnlyFinishes.completed (h : OnlyFinishes s s') (hcomplete : s'.complete = s.complete)
    {target : Target} (ht : s.completed target = true) : s'.completed target = true := by
  simp only [Runtime.completed, Bool.or_eq_true, hcomplete] at ht ⊢
  rcases ht with hmem | hterminal
  · exact .inl hmem
  · cases target with
    | task t => exact .inr (h.terminal hterminal)
    | graphRun run => cases hterminal

/-- The innermost frames of the workers have returned, `popped v` of them on worker `v`. -/
structure Unwound (own : Impl) (maxHelpingDepth : Nat) (s s' : Runtime n) (popped : Fin n → Nat) :
    Prop where
  leads : Leads own maxHelpingDepth s s'
  sound : Sound s'.base
  frames : ∀ v, (s'.base.workers v).frames = (s.base.workers v).frames.drop (popped v)
  place : ∀ v, s'.base.workers v = s.base.workers v ∨ (s'.base.workers v).loc = .loop
  /-- A claimed invoker is executed before a frame returns. -/
  claimed : ∀ v segment, (s.base.workers v).loc = .claimed segment →
    segment.resume ∨ s.base.tasks segment.task = some .ready →
    (s'.base.workers v).loc = .loop → (s'.base.tasks segment.task).any TaskState.terminal
  executed : ∀ v k (frame : Frame), k < popped v → (s.base.workers v).frames[k]? = some frame →
    (s'.base.tasks frame.task).any TaskState.terminal
  timers : s'.base.timers = s.base.timers
  wakeTimes : s'.wakeTimes = s.wakeTimes
  deadlines : s'.deadlines = s.deadlines
  complete : s'.complete = s.complete
  now : s.now ≤ s'.now
  tasks : OnlyFinishes s s'

theorem Unwound.refl (hsound : Sound s.base) : Unwound own maxHelpingDepth s s fun _ => 0 where
  leads := .refl s
  sound := hsound
  frames := fun _ => rfl
  place := fun _ => .inl rfl
  claimed := fun _ _ hclaimed _ hloop => by
    rw [hloop] at hclaimed
    cases hclaimed
  executed := nofun
  timers := rfl
  wakeTimes := rfl
  deadlines := rfl
  complete := rfl
  now := Nat.le_refl _
  tasks := fun _ => .inl rfl

/-- Worker `w` goes on. -/
theorem Unwound.goes {k : Nat} (h : Unwound own maxHelpingDepth s s' popped)
    (hgoes : Goes own maxHelpingDepth s' s'' w ((s.base.workers w).frames.drop k))
    (htasks : OnlyFinishes s' s'')
    (hclaimed : ∀ segment, (s.base.workers w).loc = .claimed segment →
      segment.resume ∨ s.base.tasks segment.task = some .ready →
      (s''.base.tasks segment.task).any TaskState.terminal)
    (hexecuted : ∀ j (frame : Frame), j < k → (s.base.workers w).frames[j]? = some frame →
      (s''.base.tasks frame.task).any TaskState.terminal) :
    Unwound own maxHelpingDepth s s'' (Function.update popped w k) := by
  refine
    { leads := h.leads.trans hgoes.leads, sound := hgoes.sound, frames := ?_, place := ?_
      claimed := ?_, executed := ?_, timers := hgoes.timers.trans h.timers
      wakeTimes := hgoes.wakeTimes.trans h.wakeTimes
      deadlines := hgoes.deadlines.trans h.deadlines
      complete := hgoes.complete.trans h.complete, now := Nat.le_trans h.now hgoes.now
      tasks := h.tasks.trans htasks }
  · intro v
    by_cases hv : v = w
    · subst hv
      rw [Function.update_self]
      exact hgoes.frames
    · rw [Function.update_of_ne hv, hgoes.others v hv]
      exact h.frames v
  · intro v
    by_cases hv : v = w
    · subst hv
      exact .inr hgoes.loc
    · rw [hgoes.others v hv]
      exact h.place v
  · intro v segment hseg hruns hloop
    by_cases hv : v = w
    · subst hv
      exact hclaimed segment hseg hruns
    · rw [hgoes.others v hv] at hloop
      exact htasks.terminal (h.claimed v segment hseg hruns hloop)
  · intro v j frame hj hframe
    by_cases hv : v = w
    · subst hv
      rw [Function.update_self] at hj
      exact hexecuted j frame hj hframe
    · rw [Function.update_of_ne hv] at hj
      exact htasks.terminal (h.executed v j frame hj hframe)

/-- A worker that helps has executed its claim, or executes it now. -/
theorem Unwound.settle (h : Unwound own maxHelpingDepth s s' popped) (hhelping : s.AllHelping)
    (w : Fin n) :
    ∃ s'', Unwound own maxHelpingDepth s s'' popped ∧ OnlyFinishes s' s'' ∧
      (s''.base.workers w).loc = .loop := by
  rcases h.place w with hsame | hloop
  · have hwaits : (s'.base.workers w).waits = true := hsame ▸ hhelping w
    cases hloc : (s'.base.workers w).loc with
    | loop => exact ⟨s', h, fun _ => .inl rfl, hloc⟩
    | claimed segment =>
      obtain ⟨s'', hgoes, htasks⟩ := executes own maxHelpingDepth h.sound hwaits hloc
      have hfinishes : OnlyFinishes s' s'' := by
        split at htasks
        · exact .of_update htasks
        · exact fun t => .inl (congrFun htasks t)
      have hunwound : Unwound own maxHelpingDepth s s'' (Function.update popped w (popped w)) := by
        refine h.goes ?_ hfinishes ?_ fun j frame hj hframe =>
          hfinishes.terminal (h.executed w j frame hj hframe)
        · rw [← h.frames w]
          exact hgoes
        · intro segment' hseg hruns
          obtain rfl : segment' = segment :=
            Drain.WorkerLoc.claimed.inj (hseg.symm.trans (hsame ▸ hloc))
          rcases h.tasks segment'.task with heq | hdone
          · rw [htasks, heq, if_pos hruns]
            simp [TaskState.terminal]
          · exact hfinishes.terminal hdone
      rw [Function.update_eq_self] at hunwound
      exact ⟨s'', hunwound, hfinishes, hgoes.loc⟩
    | _ =>
      -- a worker past its search has no frames
      have hout : (s'.base.workers w).loc.out = true := by rw [hloc]; rfl
      have hnil := (h.sound.workers w).out hout
      simp [Worker.waits, hnil] at hwaits
  · exact ⟨s', h, fun _ => .inl rfl, hloop⟩

/-- The next frame of a worker returns when its wait may end. -/
theorem Unwound.pop {k : Nat} {frame : Frame} {target : Target}
    (h : Unwound own maxHelpingDepth s s' popped) (hhelping : s.AllHelping) (hk : popped w = k)
    (hframe : (s.base.workers w).frames[k]? = some frame) (hwaiting : frame.waiting = some target)
    (hends : s'.completed target = true ∨ (s.deadlines w (s.height w - k)).isSome) :
    ∃ s'', Unwound own maxHelpingDepth s s'' (Function.update popped w (k + 1)) := by
  obtain ⟨hlt, hget⟩ := List.getElem?_eq_some_iff.mp hframe
  have hdrop : (s.base.workers w).frames.drop k =
      frame :: (s.base.workers w).frames.drop (k + 1) := by
    rw [List.drop_eq_getElem_cons hlt, hget]
  obtain ⟨s₁, h₁, hsettles, hloc₁⟩ := h.settle hhelping w
  -- past the deadline, if there is one
  obtain ⟨s₂, hgoes₂, htasks₂, hends₂⟩ : ∃ s₂, Goes own maxHelpingDepth s₁ s₂ w
      (s₁.base.workers w).frames ∧ s₂.base = s₁.base ∧
        (s₂.completed target = true ∨ s₂.expired (s₂.deadlines w (s₂.height w)) = true) := by
    rcases hends with hcompleted | hdeadline
    · exact ⟨s₁, .refl h₁.sound hloc₁, rfl,
        .inl (hsettles.completed (h₁.complete.trans h.complete.symm) hcompleted)⟩
    · obtain ⟨deadline, hdeadline⟩ := Option.isSome_iff_exists.mp hdeadline
      obtain ⟨s₂, hgoes₂, hbase, hexpired⟩ :=
        expires own maxHelpingDepth deadline h₁.sound hloc₁
      have hheight : s₂.height w = s.height w - k := by
        rw [Runtime.height, hbase, h₁.frames w, hk, List.length_drop]
        rfl
      refine ⟨s₂, hgoes₂, hbase, .inr ?_⟩
      rw [hgoes₂.deadlines, h₁.deadlines, hheight, hdeadline]
      exact hexpired
  have hframes₂ : (s₂.base.workers w).frames = frame :: (s.base.workers w).frames.drop (k + 1) := by
    rw [htasks₂, h₁.frames w, hk, hdrop]
  obtain ⟨s₃, hgoes₃, htasks₃⟩ := leaves maxHelpingDepth hgoes₂.sound hgoes₂.loc hframes₂ hwaiting
    hends₂
  have hfinishes : OnlyFinishes s₁ s₃ := by
    refine .of_update (t := frame.task) ?_
    rw [htasks₃, htasks₂]
  refine ⟨s₃, h₁.goes (hgoes₂.trans hgoes₃) hfinishes ?_ ?_⟩
  · intro segment hseg hruns
    exact hfinishes.terminal (h₁.claimed w segment hseg hruns hloc₁)
  · intro j frame' hj hframe'
    by_cases hjk : j < k
    · exact hfinishes.terminal (h₁.executed w j frame' (hk ▸ hjk) hframe')
    · obtain rfl : j = k := by omega
      obtain rfl : frame = frame' := Option.some.inj (hframe.symm.trans hframe')
      rw [htasks₃]
      simp [TaskState.terminal]

/-- **Waits that end by themselves end in some run of the clock and the workers.** -/
theorem Ends.unwinds {k : Nat} (hends : Ends s w k) (hhelping : s.AllHelping) :
    ∀ {s'} {popped : Fin n → Nat}, Unwound own maxHelpingDepth s s' popped →
      ∃ s'' popped', Unwound own maxHelpingDepth s s'' popped' ∧ (∀ v, popped v ≤ popped' v) ∧
        k ≤ popped' w := by
  -- one more frame, when its wait may end where the others have led
  have hmore : ∀ {k : Nat} {w : Fin n} {frame : Frame} {target : Target} {s' : Runtime n}
      {popped : Fin n → Nat}, Unwound own maxHelpingDepth s s' popped → k ≤ popped w →
      (s.base.workers w).frames[k]? = some frame → frame.waiting = some target →
      s'.completed target = true ∨ (s.deadlines w (s.height w - k)).isSome →
      ∃ s'' popped', Unwound own maxHelpingDepth s s'' popped' ∧
        (∀ v, popped v ≤ popped' v) ∧ k + 1 ≤ popped' w := by
    intro k w frame target s' popped h hk hframe hwaiting hmay
    by_cases hlt : k < popped w
    · exact ⟨s', popped, h, fun v => Nat.le_refl _, hlt⟩
    · obtain ⟨s'', hpop⟩ := h.pop hhelping (by omega) hframe hwaiting hmay
      refine ⟨s'', _, hpop, fun v => ?_, ?_⟩
      · by_cases hv : v = w
        · subst hv
          rw [Function.update_self]
          omega
        · rw [Function.update_of_ne hv]
      · rw [Function.update_self]
  induction hends with
  | none w => exact fun h => ⟨_, _, h, fun v => Nat.le_refl _, Nat.zero_le _⟩
  | deadline _ hframe hwaiting hdeadline ih =>
    intro s' popped h
    obtain ⟨s₁, popped₁, h₁, hle₁, hk₁⟩ := ih h
    obtain ⟨s₂, popped₂, h₂, hle₂, hk₂⟩ := hmore h₁ hk₁ hframe hwaiting (.inr hdeadline)
    exact ⟨s₂, popped₂, h₂, fun v => Nat.le_trans (hle₁ v) (hle₂ v), hk₂⟩
  | completed _ hframe hwaiting hcompleted ih =>
    intro s' popped h
    obtain ⟨s₁, popped₁, h₁, hle₁, hk₁⟩ := ih h
    obtain ⟨s₂, popped₂, h₂, hle₂, hk₂⟩ := hmore h₁ hk₁ hframe hwaiting
      (.inl (h₁.tasks.completed h₁.complete hcompleted))
    exact ⟨s₂, popped₂, h₂, fun v => Nat.le_trans (hle₁ v) (hle₂ v), hk₂⟩
  | @claimed w v k frame segment _ hframe hwaiting hclaimed hruns ih =>
    intro s' popped h
    obtain ⟨s₁, popped₁, h₁, hle₁, hk₁⟩ := ih h
    obtain ⟨s₂, h₂, -, hloc₂⟩ := h₁.settle hhelping v
    have hcompleted : s₂.completed (.task segment.task) = true := by
      simp only [Runtime.completed, Bool.or_eq_true]
      exact .inr (h₂.claimed v segment hclaimed hruns hloc₂)
    obtain ⟨s₃, popped₃, h₃, hle₃, hk₃⟩ := hmore h₂ hk₁ hframe hwaiting (.inl hcompleted)
    exact ⟨s₃, popped₃, h₃, fun v => Nat.le_trans (hle₁ v) (hle₃ v), hk₃⟩
  | @executed w v k m frame frame' _ hframe hwaiting _ hframe' ih ih' =>
    intro s' popped h
    obtain ⟨s₁, popped₁, h₁, hle₁, hk₁⟩ := ih h
    obtain ⟨s₂, popped₂, h₂, hle₂, hk₂⟩ := ih' h₁
    have hcompleted : s₂.completed (.task frame'.task) = true := by
      simp only [Runtime.completed, Bool.or_eq_true]
      exact .inr (h₂.executed v m frame' hk₂ hframe')
    obtain ⟨s₃, popped₃, h₃, hle₃, hk₃⟩ := hmore h₂ (Nat.le_trans hk₁ (hle₂ w)) hframe hwaiting
      (.inl hcompleted)
    exact ⟨s₃, popped₃, h₃,
      fun v => Nat.le_trans (hle₁ v) (Nat.le_trans (hle₂ v) (hle₃ v)), hk₃⟩

/-- A worker that can leave all its waits can collect what is due. -/
theorem collectable_of_ends {id : Nat} (hsound : Sound s.base) (hhelping : s.AllHelping)
    (hends : Ends s w (s.height w)) (hdue : s.Due id) : Collectable own maxHelpingDepth s id := by
  obtain ⟨s₁, popped₁, h₁, -, hall⟩ :=
    hends.unwinds hhelping (.refl hsound : Unwound own maxHelpingDepth s s _)
  obtain ⟨s₂, h₂, -, hloc₂⟩ := h₁.settle hhelping w
  have hframes : (s₂.base.workers w).frames = [] := by
    rw [h₂.frames w]
    exact List.drop_eq_nil_of_le hall
  have hmem : id ∈ s₂.base.timers := by
    rw [h₂.timers]
    exact hdue.1
  have hwake : s₂.wakeTimes id ≤ s₂.now := by
    rw [h₂.wakeTimes]
    exact Nat.le_trans hdue.2 h₂.now
  refine ⟨s₂, w, h₂.leads, ?_⟩
  simp [next, Runtime.allows, hwake, Drain.workerStep, Worker.topLevel, hloc₂, hframes, hmem]

end Unwinding

/-! ## Runs -/

section Runs
variable {n : Nat} {own : Impl} {maxHelpingDepth : Nat} {s s' : Runtime n}

/-- A step is one of the runtime without the clock, or leaves that as it is. -/
theorem base_step {a : Label n} (hs : next own maxHelpingDepth s a = some s') :
    s'.base = s.base ∨ ∃ l, Drain.step own s.base l = some s'.base := by
  cases a with
  | tick duration =>
    obtain rfl := Option.some.inj hs
    exact .inl rfl
  | outside e =>
    obtain ⟨b, hb, rfl⟩ := Option.map_eq_some_iff.mp hs
    exact .inr ⟨.outside e, hb⟩
  | completeElsewhere target =>
    obtain rfl := Option.some.inj hs
    exact .inl rfl
  | graphDone w run =>
    obtain ⟨-, hs⟩ := Option.ite_none_right_eq_some.mp hs
    obtain rfl := Option.some.inj hs
    exact .inl rfl
  | worker w e time =>
    obtain ⟨-, hs⟩ := Option.ite_none_right_eq_some.mp hs
    obtain ⟨b, hb, rfl⟩ := Option.map_eq_some_iff.mp hs
    have hbase : (s.after w time e b).base = b := by
      cases e <;> rfl
    exact .inr ⟨.worker w e, by rw [hbase]; exact hb⟩

/-- **With the clock, the runtime does what it may do without.** -/
theorem reachable_base (h : (machine own maxHelpingDepth n).Reachable s) :
    (Drain.machine own n).Reachable s.base := by
  induction h with
  | initial hs =>
    obtain ⟨hpos, now, rfl⟩ := hs
    exact .initial ⟨hpos, rfl⟩
  | step _ _ hn ih =>
    rcases base_step hn with heq | ⟨l, hl⟩
    · rw [heq]
      exact ih
    · exact ih.step trivial hl

theorem sound_step {a : Label n} (h : Sound s.base)
    (hs : next own maxHelpingDepth s a = some s') : Sound s'.base := by
  rcases base_step hs with heq | ⟨l, hl⟩
  · rw [heq]
    exact h
  · exact h.step hl

theorem sound_of_reachable (h : (machine own maxHelpingDepth n).Reachable s) : Sound s.base := by
  refine (reachable_base h).invariant Sound ?_ fun _ _ _ hsound _ hs => hsound.step hs
  rintro b ⟨-, rfl⟩
  exact Drain.sound_started own n

/-- **Timers are serviced as long as, whenever all workers help, the waits of one of them
end.** -/
theorem notWedged_of_someWorkerReturns {as : List (Label n)}
    (hinit : (machine own maxHelpingDepth n).init s)
    (hok : (machine own maxHelpingDepth n).EveryState SomeWorkerReturns s as) :
    (machine own maxHelpingDepth n).EveryState (fun s => ¬ Wedged own maxHelpingDepth s) s as := by
  obtain ⟨-, now, rfl⟩ := hinit
  refine hok.imp (fun s => Sound s.base) (fun _ _ _ h hs => sound_step h hs) ?_
    (Drain.sound_started own n)
  intro s hsound hreturns hwedged
  obtain ⟨id, hdue, hno⟩ := hwedged.stranded
  obtain ⟨w, hends⟩ := hreturns hwedged.helping hwedged.empty ⟨id, hdue⟩
  exact hno (collectable_of_ends hsound hwedged.helping hends hdue)

/-- Every worker is inside a helping wait without a deadline for a target that is not
complete. -/
def Runtime.Untimed (s : Runtime n) : Prop :=
  ∀ w, (s.base.workers w).loc = .loop ∧ ∃ frame frames target,
    (s.base.workers w).frames = frame :: frames ∧ frame.waiting = some target ∧
      s.completed target = false ∧ s.deadlines w (s.height w) = none

/-- Only the clock moves then. -/
theorem untimed_stays {a : Label n} (hsound : Sound s.base) (huntimed : s.Untimed)
    (hempty : s.QueuesEmpty) (ha : a.inside = true) (hs : next own maxHelpingDepth s a = some s') :
    ∃ now, s' = { s with now := now } := by
  cases a with
  | tick duration => exact ⟨_, (Option.some.inj hs).symm⟩
  | outside e => cases ha
  | completeElsewhere target => cases ha
  | graphDone w run =>
    obtain ⟨-, frame, frames, target, hframes, hwaiting, -⟩ := huntimed w
    simp [next, Worker.waits, hframes, hwaiting] at hs
  | worker w e time =>
    obtain ⟨hloc, frame, frames, target, hframes, hwaiting, hincomplete, hdeadline⟩ := huntimed w
    have hwaits : (s.base.workers w).waits = true := by
      simp [Worker.waits, hframes, hwaiting]
    obtain ⟨hunwinding, htriggers⟩ := (hsound.workers w).parked (.inr hwaits)
    obtain ⟨hsubmitting, hhandoff⟩ := (hsound.workers w).not_busy (.inr hwaits)
    have hcoding : (s.base.workers w).coding = false := by
      simp [Worker.coding, hframes, hwaiting]
    have htop : (s.base.workers w).topLevel = false := by
      simp [Worker.topLevel, hframes]
    have hhelping : (s.base.workers w).helping = true := by
      simp [Worker.helping, hloc, hframes, hwaiting]
    obtain ⟨hallows, hs⟩ := Option.ite_none_right_eq_some.mp hs
    obtain ⟨b, hb, -⟩ := Option.map_eq_some_iff.mp hs
    exfalso
    cases e with
    | claim source segment =>
      cases source <;>
        simp [Drain.workerStep, Drain.claim, hempty.1, hempty.2] at hb
    | endWait =>
      simp [Runtime.allows, hframes, hwaiting, hincomplete, hdeadline, Runtime.expired] at hallows
    | check => simp [Drain.workerStep, Drain.check, hloc] at hb
    | _ =>
      simp [Drain.workerStep, hloc, hframes, hcoding, htop, hhelping, htriggers, hsubmitting,
        hhandoff, hunwinding] at hb

theorem untimed_leads (hsound : Sound s.base) (huntimed : s.Untimed) (hempty : s.QueuesEmpty)
    (h : Leads own maxHelpingDepth s s') : ∃ now, s' = { s with now := now } := by
  obtain ⟨as, has, hr⟩ := h
  induction as generalizing s with
  | nil => exact ⟨s.now, (Option.some.inj hr).symm⟩
  | cons a as ih =>
    obtain ⟨t, ht, hr⟩ := Option.bind_eq_some_iff.mp hr
    obtain ⟨now, rfl⟩ := untimed_stays hsound huntimed hempty (has a List.mem_cons_self) ht
    obtain ⟨now', heq⟩ :=
      ih (s := { s with now := now }) hsound huntimed hempty
        (fun b hb => has b (List.mem_cons_of_mem a hb)) hr
    exact ⟨now', heq⟩

/-- **What is due then is never collected.** -/
theorem wedged_of_untimed {id : Nat} (hsound : Sound s.base) (huntimed : s.Untimed)
    (hempty : s.QueuesEmpty) (hdue : s.Due id) : Wedged own maxHelpingDepth s := by
  refine ⟨?_, hempty, id, hdue, ?_⟩
  · intro w
    obtain ⟨-, frame, frames, target, hframes, hwaiting, -⟩ := huntimed w
    simp [Worker.waits, hframes, hwaiting]
  · rintro ⟨s', w, hleads, hsome⟩
    obtain ⟨now, rfl⟩ := untimed_leads hsound huntimed hempty hleads
    have htop : (s.base.workers w).topLevel = false := by
      obtain ⟨-, frame, frames, target, hframes, -⟩ := huntimed w
      simp [Worker.topLevel, hframes]
    simp [next, Drain.workerStep, htop] at hsome

/-- The task of an application, and the coroutine that it waits for. -/
abbrev waiter : TaskId := ⟨⟨1⟩, 1⟩

abbrev sleeper : TaskId := ⟨⟨1⟩, 2⟩

/-- A task spawns a coroutine on the only worker and waits for it, up to a deadline if there is
one; the helping loop executes the coroutine, which sleeps until time five. -/
def waitForSleeper (deadline : Option Nat) : List (Label 1) :=
  [.outside (.acquire waiter), .outside (.publish waiter),
    .worker 0 (.claim .global ⟨waiter, false⟩) none, .worker 0 (.dispatch false) none,
    .worker 0 (.submit sleeper) none, .worker 0 (.publish true) none,
    .worker 0 (.beginWait (.task sleeper)) deadline,
    .worker 0 (.claim (.local 0) ⟨sleeper, false⟩) none, .worker 0 (.dispatch false) none,
    .worker 0 (.sleep false) (some 5), .worker 0 (.segmentReturn false) none, .tick 5]

/-- The only runtime, and its one worker at time zero. -/
abbrev onlyRuntime : Impl := ⟨1, ⟨1⟩, 1⟩

abbrev oneWorker : Runtime 1 := { base := Drain.started onlyRuntime 1 }

theorem waitForSleeper_notWedged :
    (machine onlyRuntime 64 1).EveryState (fun s => ¬ Wedged onlyRuntime 64 s) oneWorker
      (waitForSleeper (some 10)) := by
  have htimed : (machine onlyRuntime 64 1).EveryState SomeWorkerTimed oneWorker
      (waitForSleeper (some 10)) := by decide
  exact notWedged_of_someWorkerReturns ⟨by decide, 0, rfl⟩
    (htimed.imp (fun _ => True) (fun _ _ _ _ _ => trivial) (fun _ _ h => h.returns) trivial)

/-- The wait for the sleeping coroutine keeps the only worker from the timer. -/
theorem waitForSleeper_wedges :
    ∃ s, (machine onlyRuntime 64 1).Reachable s ∧ Wedged onlyRuntime 64 s := by
  obtain ⟨s, hs⟩ := Option.isSome_iff_exists.mp
    (show ((machine onlyRuntime 64 1).run oneWorker (waitForSleeper none)).isSome by decide)
  have hend : ((machine onlyRuntime 64 1).run oneWorker (waitForSleeper none)).map (fun s =>
      decide ((s.base.workers 0).loc = .loop ∧
        (s.base.workers 0).frames.map (·.waiting) = [some (.task sleeper)] ∧
        s.completed (.task sleeper) = false ∧ s.deadlines 0 1 = none ∧ s.base.global = [] ∧
        s.base.locals 0 = [] ∧ 0 ∈ s.base.timers ∧ s.wakeTimes 0 ≤ s.now)) = some true := by
    decide
  simp only [hs, Option.map_some, Option.some.injEq, decide_eq_true_eq] at hend
  obtain ⟨hloc, hframes, hincomplete, hdeadline, hglobal, hlocal, hdue⟩ := hend
  have hreach : (machine onlyRuntime 64 1).Reachable s :=
    Machine.reachable_of_run ⟨by decide, 0, rfl⟩ hs
  refine ⟨s, hreach, wedged_of_untimed (sound_of_reachable hreach) ?_ ⟨hglobal, ?_⟩ hdue⟩
  · intro w
    obtain rfl : w = 0 := Subsingleton.elim w 0
    obtain ⟨frame, frames, hcons, hwaiting, hnil⟩ := List.map_eq_cons_iff.mp hframes
    obtain rfl := List.map_eq_nil_iff.mp hnil
    refine ⟨hloc, frame, [], _, hcons, hwaiting, hincomplete, ?_⟩
    rw [Runtime.height, hcons]
    exact hdeadline
  · intro v
    rw [Subsingleton.elim v 0]
    exact hlocal

end Runs

end HelpingTimers
end AstraScheduler
