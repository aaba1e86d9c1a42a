import AstraScheduler.BlockedSubmitters
import AstraScheduler.MetricsMerge

/-! # The books of admission

`prepare_submission` with `publish_submission`, and `GraphExecution::run`, called by any number
of threads: threads of the user, workers of this runtime and workers of others.  Each call
counts its attempt, may be refused before it asks for admission, asks, may have to wait for a
slot, and is rejected or admitted.

Every counter is the sum of what the calls have added to it.  A counter that has not reached its
largest value holds that sum; sums are numbers here.  The metrics are not off.  The mutex of the
controller is not in the model, so a slot may also be taken between a wakeup and the decision
after it. -/

namespace AstraScheduler
namespace SubmissionAccounts

open BlockedSubmitters (predicate)
open MetricsMerge (ShardCounter)
open Transition (Machine)

inductive CallKind where
  /-- `submit` and `spawn`, or with `nonblocking` `try_submit` and `try_spawn`. -/
  | submission (nonblocking : Bool)
  /-- `Scheduler::run` of a graph. -/
  | graphRun (nodeCount : Nat)
  deriving DecidableEq, Repr

inductive Place where
  /-- The attempt is counted. -/
  | entered
  /-- About to decide, under the mutex of the controller. -/
  | acquiring
  /-- In the wait on `slot_cv_`. -/
  | waiting
  | admitted
  | rejected (decision : AdmissionDecision)
  /-- Over, by an exception before the admission was asked for. -/
  | refused
  /-- Over: the rejection is thrown or returned. -/
  | returnedError (decision : AdmissionDecision)
  /-- Over: published, or failed after it was admitted. -/
  | published
  | failed
  deriving DecidableEq, Repr

namespace CallKind

/-- The slots that the call asks for. -/
def count : CallKind → Nat
  | .submission _ => 1
  | .graphRun nodeCount => nodeCount

def isGraphRun : CallKind → Bool
  | .submission _ => false
  | .graphRun _ => true

/-- `can_block` of a thread: no worker, of whatever runtime, and no `try_` call. -/
def canBlock (worker : Option RuntimeId) : CallKind → Bool
  | .submission nonblocking => !nonblocking && worker.isNone
  | .graphRun _ => worker.isNone

end CallKind

/-- A call of one thread; `worker` is `current_worker_runtime_id`, none on other threads.  The
last two fields record how often it has begun and ended a wait. -/
structure Call where
  kind : CallKind
  worker : Option RuntimeId
  place : Place := .entered
  waits : Nat := 0
  wakeups : Nat := 0
  deriving DecidableEq, Repr

namespace Call

def canBlock (c : Call) : Bool := c.kind.canBlock c.worker

def isInternal (c : Call) (runtimeId : RuntimeId) : Bool := c.worker = some runtimeId

end Call

structure Runtime where
  runtimeId : RuntimeId
  admission : AdmissionController
  status : SchedulerStatus := {}
  calls : List Call := []
  /-- What has been added to each counter. -/
  counts : ShardCounter → Nat := fun _ => 0

inductive Label where
  | call (kind : CallKind) (worker : Option RuntimeId)
  /-- The next step of a call; `fails` when it throws there. -/
  | step (i : Nat) (fails : Bool)
  /-- A claim or a cancellation gives slots back. -/
  | release (count : Nat)
  | status (st : SchedulerStatus)

/-- What a decision adds to the counters of admission. -/
def decisionAmount (decision : AdmissionDecision) (count : Nat) : ShardCounter → Nat
  | .acceptedTaskIdentities => if decision = AdmissionDecision.success then count else 0
  | .rejectedLifecycle =>
    if decision = AdmissionDecision.stopping ∨ decision = AdmissionDecision.stopped then 1 else 0
  | .rejectedCapacity => if decision = AdmissionDecision.capacityExhausted then 1 else 0
  | _ => 0

/-- One counter is incremented, unless `skip`. -/
def incAmount (counter : ShardCounter) (skip : Bool) (c : ShardCounter) : Nat :=
  if c = counter ∧ skip = false then 1 else 0

namespace Runtime

def add (s : Runtime) (amount : ShardCounter → Nat) : Runtime :=
  { s with counts := fun c => s.counts c + amount c }

def goto (s : Runtime) (i : Nat) (c : Call) : Runtime := { s with calls := s.calls.set i c }

/-- What a decision of `acquire` does. -/
def decided (s : Runtime) (i : Nat) (c : Call) (decision : AdmissionDecision)
    (admission : AdmissionController) : Runtime :=
  ({ s with admission := admission }.add (decisionAmount decision c.kind.count)).goto i
    { c with
      place := if decision = AdmissionDecision.success then .admitted else .rejected decision }

def callStep (s : Runtime) (i : Nat) (fails : Bool) (c : Call) : Option Runtime :=
  match c.place with
  | .entered =>
    -- an unknown priority, or no graph run id left
    some (s.goto i { c with place := if fails then .refused else .acquiring })
  | .acquiring =>
    match s.admission.acquire s.status c.kind.count c.canBlock (c.isInternal s.runtimeId) with
    | some (decision, admission) => some (s.decided i c decision admission)
    | none =>
      some ((s.add (incAmount .blockingSubmitWaits false)).goto i
        { c with place := .waiting, waits := c.waits + 1 })
  | .waiting =>
    if predicate s.admission s.status c.kind.count then
      some ((s.add (incAmount .blockingSubmitWakeups false)).goto i
        { c with place := .acquiring, wakeups := c.wakeups + 1 })
    else none
  | .rejected decision =>
    some ((s.add (incAmount .graphRunsRejected (!c.kind.isGraphRun))).goto i
      { c with place := .returnedError decision })
  | .admitted =>
    let moved := (s.add (incAmount .graphRunsAccepted (!c.kind.isGraphRun))).goto i
      { c with place := if fails then .failed else .published }
    -- what fails between the admission and the publication gives its slots back
    some (if fails && !c.isInternal s.runtimeId then
      { moved with admission := s.admission.release c.kind.count } else moved)
  | .refused | .returnedError _ | .published | .failed => none

def next (s : Runtime) : Label → Option Runtime
  | .call kind worker =>
    let c : Call := { kind := kind, worker := worker }
    some { s.add (fun counter => incAmount .submissionAttempts c.kind.isGraphRun counter +
        incAmount .graphAdmissionAttempts (!c.kind.isGraphRun) counter) with
      calls := s.calls ++ [c] }
  | .step i fails => s.calls[i]?.bind (s.callStep i fails)
  | .release count => some { s with admission := s.admission.release count }
  | .status st => some { s with status := st }

def machine : Machine Runtime Label where
  init s := ∃ runtimeId admission, s = { runtimeId := runtimeId, admission := admission }
  next := next

end Runtime

/-! ## What a call has added -/

namespace Place

/-- The admission is granted. -/
@[simp] def granted : Place → Bool
  | .admitted | .published | .failed => true
  | _ => false

/-- The rejection of a call that is rejected. -/
@[simp] def rejection? : Place → Option AdmissionDecision
  | .rejected decision | .returnedError decision => some decision
  | _ => none

/-- Neither refused nor decided. -/
def undecided : Place → Bool
  | .entered | .acquiring | .waiting => true
  | _ => false

/-- The call has returned or thrown. -/
@[simp] def ended : Place → Bool
  | .refused | .returnedError _ | .published | .failed => true
  | _ => false

end Place

/-- `n` if `b`. -/
@[simp] def when (b : Bool) (n : Nat) : Nat := if b then n else 0

/-- What a call has added to a counter. -/
def Call.amount (c : Call) : ShardCounter → Nat
  | .submissionAttempts => when (!c.kind.isGraphRun) 1
  | .graphAdmissionAttempts => when c.kind.isGraphRun 1
  | .acceptedTaskIdentities => when c.place.granted c.kind.count
  | .rejectedLifecycle =>
    when (c.place.rejection? = some .stopping ∨ c.place.rejection? = some .stopped) 1
  | .rejectedCapacity => when (c.place.rejection? = some .capacityExhausted) 1
  | .blockingSubmitWaits => c.waits
  | .blockingSubmitWakeups => c.wakeups
  | .graphRunsAccepted => when (c.kind.isGraphRun && c.place.granted && c.place.ended) 1
  | .graphRunsRejected => when (c.kind.isGraphRun && c.place.rejection?.isSome && c.place.ended) 1
  | _ => 0

/-- A call waits only if it may, and ends each wait before it begins another. -/
structure CallOk (s : Runtime) (c : Call) : Prop where
  waits : c.waits = c.wakeups + when (c.place = .waiting) 1
  waiting : c.place = .waiting → c.canBlock ∧ s.admission.backpressure = .block ∧
    c.kind.count ≤ s.admission.capacity
  rejection : c.place.rejection? ≠ some .success

structure Sound (s : Runtime) : Prop where
  calls : ∀ c ∈ s.calls, CallOk s c
  counts : ∀ counter, s.counts counter = (s.calls.map fun c => c.amount counter).sum

variable {s s' : Runtime} {i : Nat} {fails : Bool} {c c' : Call}

/-! ## The steps of a call -/

/-- A decision leaves the options of the controller alone. -/
theorem acquire_options {a a' : AdmissionController} {st : SchedulerStatus} {count : Nat}
    {block isInternal : Bool} {decision : AdmissionDecision}
    (h : a.acquire st count block isInternal = some (decision, a')) :
    a'.capacity = a.capacity ∧ a'.backpressure = a.backpressure := by
  unfold AdmissionController.acquire at h
  grind

/-- Who has to wait may block, and asks for no more than there is. -/
theorem acquire_blocks {a : AdmissionController} {st : SchedulerStatus} {count : Nat}
    {block isInternal : Bool} (h : a.acquire st count block isInternal = none) :
    block = true ∧ a.backpressure = .block ∧ count ≤ a.capacity := by
  have hfits := BlockedSubmitters.acquire_waits h
  unfold AdmissionController.acquire at h
  grind

theorem release_options (a : AdmissionController) (count : Nat) :
    (a.release count).capacity = a.capacity ∧ (a.release count).backpressure = a.backpressure := by
  unfold AdmissionController.release
  split <;> exact ⟨rfl, rfl⟩

/-- What never changes. -/
structure Same (s s' : Runtime) : Prop where
  capacity : s'.admission.capacity = s.admission.capacity
  backpressure : s'.admission.backpressure = s.admission.backpressure

/-- **A step of a call**: it moves the call alone, and what it adds to a counter is what the
call has added since. -/
structure Advances (s : Runtime) (i : Nat) (c : Call) (s' : Runtime) (c' : Call) : Prop where
  calls : s'.calls = s.calls.set i c'
  counts : ∀ counter, s'.counts counter + c.amount counter = s.counts counter + c'.amount counter
  ok : CallOk s' c'
  same : Same s s'

/-- A call that moves on, and adds what its new place stands for. -/
theorem Advances.goto (amount : ShardCounter → Nat) (hok : CallOk s c')
    (hcounts : ∀ counter, amount counter + c.amount counter = c'.amount counter) :
    Advances s i c ((s.add amount).goto i c') c' := by
  refine ⟨rfl, fun counter => ?_, ⟨hok.waits, hok.waiting, hok.rejection⟩, rfl, rfl⟩
  have := hcounts counter
  simp only [Runtime.goto, Runtime.add]
  omega

/-- The admission may change with the step, but for its options. -/
theorem Advances.admission {a : AdmissionController} (h : Advances s i c s' c')
    (hcapacity : a.capacity = s'.admission.capacity)
    (hbackpressure : a.backpressure = s'.admission.backpressure) :
    Advances s i c { s' with admission := a } c' := by
  refine ⟨h.calls, h.counts, ⟨h.ok.waits, fun hwaiting => ?_, h.ok.rejection⟩,
    hcapacity.trans h.same.capacity, hbackpressure.trans h.same.backpressure⟩
  simpa only [hcapacity, hbackpressure] using h.ok.waiting hwaiting

theorem decided_advances {decision : AdmissionDecision} {a : AdmissionController}
    (hc : CallOk s c) (hplace : c.place = .acquiring)
    (h : s.admission.acquire s.status c.kind.count c.canBlock (c.isInternal s.runtimeId) =
      some (decision, a)) :
    ∃ c', Advances s i c (s.decided i c decision a) c' := by
  obtain ⟨hcapacity, hbackpressure⟩ := acquire_options h
  have hwaits := hc.waits
  simp only [hplace, when] at hwaits
  refine ⟨_, (Advances.goto _ ?_ fun counter => ?_).admission hcapacity hbackpressure⟩
  · cases decision <;> constructor <;> simp_all
  · cases decision <;> cases counter <;> simp [decisionAmount, Call.amount, hplace]

theorem callStep_advances (hc : CallOk s c) (h : s.callStep i fails c = some s') :
    ∃ c', Advances s i c s' c' := by
  have hwaits := hc.waits
  have hrejection := hc.rejection
  unfold Runtime.callStep at h
  cases hplace : c.place with
  | entered =>
    simp only [hplace, when] at h hwaits
    obtain rfl := Option.some.inj h
    refine ⟨_, Advances.goto (fun _ => 0) ?_ fun counter => ?_⟩
    · cases fails <;> constructor <;> simp_all
    · cases fails <;> cases counter <;> simp [Call.amount, hplace]
  | acquiring =>
    simp only [hplace] at h
    split at h
    case h_1 decision a hacquire =>
      obtain rfl := Option.some.inj h
      exact decided_advances hc hplace hacquire
    case h_2 hacquire =>
      obtain rfl := Option.some.inj h
      obtain ⟨hblock, hbackpressure, hfits⟩ := acquire_blocks hacquire
      simp only [hplace, when] at hwaits
      refine ⟨_, Advances.goto _ ?_ fun counter => ?_⟩
      · constructor <;> simp_all [Call.canBlock]
      · cases counter <;> simp [incAmount, Call.amount, hplace]
        omega
  | waiting =>
    simp only [hplace, when] at h hwaits
    split at h
    case isTrue =>
      obtain rfl := Option.some.inj h
      refine ⟨_, Advances.goto _ ?_ fun counter => ?_⟩
      · constructor <;> simp_all
      · cases counter <;> simp [incAmount, Call.amount, hplace]
        omega
    case isFalse => cases h
  | rejected decision =>
    simp only [hplace, when] at h hwaits
    obtain rfl := Option.some.inj h
    refine ⟨_, Advances.goto _ ?_ fun counter => ?_⟩
    · constructor <;> simp_all
    · cases hkind : c.kind.isGraphRun <;> cases counter <;>
        simp [incAmount, Call.amount, hplace, hkind]
  | admitted =>
    simp only [hplace, when] at h hwaits
    obtain rfl := Option.some.inj h
    have hmoved : Advances s i c ((s.add (incAmount .graphRunsAccepted (!c.kind.isGraphRun))).goto i
        { c with place := if fails then .failed else .published })
        { c with place := if fails then .failed else .published } := by
      refine Advances.goto _ ?_ fun counter => ?_
      · cases fails <;> constructor <;> simp_all
      · cases fails <;> cases hkind : c.kind.isGraphRun <;> cases counter <;>
          simp [incAmount, Call.amount, hplace, hkind]
    split
    case isTrue =>
      obtain ⟨hcapacity, hbackpressure⟩ := release_options s.admission c.kind.count
      exact ⟨_, hmoved.admission hcapacity hbackpressure⟩
    case isFalse => exact ⟨_, hmoved⟩
  | refused => simp [hplace] at h
  | returnedError decision => simp [hplace] at h
  | published => simp [hplace] at h
  | failed => simp [hplace] at h

/-! ## Runs -/

theorem CallOk.same (hc : CallOk s c) (hsame : Same s s') : CallOk s' c := by
  refine ⟨hc.waits, fun hwaiting => ?_, hc.rejection⟩
  rw [hsame.capacity, hsame.backpressure]
  exact hc.waiting hwaiting

theorem Sound.advance (hs : Sound s) (hc : s.calls[i]? = some c) (h : Advances s i c s' c') :
    Sound s' := by
  refine ⟨fun d hd => ?_, fun counter => ?_⟩
  · rw [h.calls] at hd
    obtain hd | rfl := List.mem_or_eq_of_mem_set hd
    · exact (hs.calls d hd).same h.same
    · exact h.ok
  · have hsum := Threads.sum_set (fun c => c.amount counter) hc c'
    have hcounts := h.counts counter
    rw [h.calls]
    rw [hs.counts] at hcounts
    omega

theorem Sound.call (hs : Sound s) (kind : CallKind) (worker : Option RuntimeId)
    (h : s.next (.call kind worker) = some s') : Sound s' := by
  obtain rfl := Option.some.inj h
  refine ⟨fun c hc => ?_, fun counter => ?_⟩
  · rcases List.mem_append.mp hc with hc | hc
    · exact (hs.calls c hc).same ⟨rfl, rfl⟩
    · obtain rfl := List.mem_singleton.mp hc
      constructor <;> simp
  · simp only [Runtime.add, List.map_append, List.sum_append, hs.counts]
    cases hkind : kind.isGraphRun <;> cases counter <;> simp [incAmount, Call.amount, hkind]

theorem Sound.next (hs : Sound s) {a : Label} (h : s.next a = some s') : Sound s' := by
  cases a with
  | call kind worker => exact hs.call kind worker h
  | step i fails =>
    obtain ⟨c, hc, hstep⟩ := Option.bind_eq_some_iff.mp h
    obtain ⟨c', hadvance⟩ := callStep_advances (hs.calls c (List.mem_of_getElem? hc)) hstep
    exact hs.advance hc hadvance
  | release count =>
    obtain rfl := Option.some.inj h
    have hoptions := release_options s.admission count
    exact ⟨fun c hc => (hs.calls c hc).same ⟨hoptions.1, hoptions.2⟩, hs.counts⟩
  | status st =>
    obtain rfl := Option.some.inj h
    exact ⟨fun c hc => (hs.calls c hc).same ⟨rfl, rfl⟩, hs.counts⟩

theorem sound_of_reachable (h : Runtime.machine.Reachable s) : Sound s := by
  refine h.invariant Sound ?_ fun _ _ _ hs _ hnext => hs.next hnext
  rintro _ ⟨runtimeId, admission, rfl⟩
  exact ⟨fun _ h => absurd h List.not_mem_nil, fun _ => rfl⟩

/-! ## The books balance -/

namespace Runtime

/-- The calls at a place. -/
def number (s : Runtime) (p : Call → Bool) : Nat := s.calls.countP p

/-- The slots of the admitted calls. -/
def grantedSlots (s : Runtime) : Nat :=
  ((s.calls.filter fun c => c.place.granted).map fun c => c.kind.count).sum

end Runtime

/-- Each attempt is granted, rejected for one of two reasons, or has not been decided; what has
been accepted is what the admitted calls asked for; and only calls that may block have waited. -/
structure Balanced (s : Runtime) : Prop where
  attempts : s.counts .submissionAttempts + s.counts .graphAdmissionAttempts =
    s.number (fun c => c.place.granted) + s.counts .rejectedLifecycle +
      s.counts .rejectedCapacity +
      s.number fun c => c.place.undecided || decide (c.place = .refused)
  identities : s.counts .acceptedTaskIdentities = s.grantedSlots
  graphRuns : s.counts .graphAdmissionAttempts =
    s.counts .graphRunsAccepted + s.counts .graphRunsRejected +
      s.number fun c => c.kind.isGraphRun && (!c.place.ended || decide (c.place = .refused))
  waits : s.counts .blockingSubmitWaits =
    s.counts .blockingSubmitWakeups + s.number fun c => decide (c.place = .waiting)
  waiters : ∀ c ∈ s.calls, c.place = .waiting → c.worker = none ∧ c.kind ≠ .submission true ∧
    s.admission.backpressure = .block ∧ c.kind.count ≤ s.admission.capacity

theorem number_eq (s : Runtime) (p : Call → Bool) :
    s.number p = (s.calls.map fun c => when (p c) 1).sum :=
  Threads.countP_eq_sum p s.calls

theorem sum_map_filter (calls : List Call) (p : Call → Bool) (f : Call → Nat) :
    ((calls.filter p).map f).sum = (calls.map fun c => when (p c) (f c)).sum := by
  induction calls with
  | nil => rfl
  | cons c calls ih => cases hp : p c <;> simp [hp, ih]

theorem CallOk.settled (h : CallOk s c) :
    when c.place.granted 1 + c.amount .rejectedLifecycle + c.amount .rejectedCapacity +
      when (c.place.undecided || decide (c.place = .refused)) 1 = 1 := by
  have hrejection := h.rejection
  cases hplace : c.place with
  | rejected decision | returnedError decision =>
    cases decision <;> simp_all [Call.amount, Place.undecided]
  | _ => simp [Call.amount, Place.undecided, hplace]

theorem canBlock_external (h : c.canBlock = true) :
    c.worker = none ∧ c.kind ≠ .submission true := by
  unfold Call.canBlock at h
  cases hkind : c.kind <;> simp_all [CallKind.canBlock]

/-- **The counters of admission balance** in every state that is reached. -/
theorem admission_accounts (h : Runtime.machine.Reachable s) : Balanced s := by
  have hs := sound_of_reachable h
  constructor
  case attempts =>
    simp only [hs.counts, number_eq, ← List.sum_map_add]
    refine congrArg List.sum (List.map_congr_left fun c hc => ?_)
    have hattempt : c.amount .submissionAttempts + c.amount .graphAdmissionAttempts = 1 := by
      cases hkind : c.kind.isGraphRun <;> simp [Call.amount, hkind]
    exact hattempt.trans (hs.calls c hc).settled.symm
  case identities =>
    rw [hs.counts, Runtime.grantedSlots, sum_map_filter]
    rfl
  case graphRuns =>
    simp only [hs.counts, number_eq, ← List.sum_map_add]
    refine congrArg List.sum (List.map_congr_left fun c hc => ?_)
    cases hkind : c.kind.isGraphRun <;> cases hplace : c.place <;>
      simp [Call.amount, hkind, hplace]
  case waits =>
    simp only [hs.counts, number_eq, ← List.sum_map_add]
    exact congrArg List.sum (List.map_congr_left fun c hc => (hs.calls c hc).waits)
  case waiters =>
    intro c hc hwaiting
    obtain ⟨hblock, hbackpressure, hfits⟩ := (hs.calls c hc).waiting hwaiting
    obtain ⟨hworker, hkind⟩ := canBlock_external hblock
    exact ⟨hworker, hkind, hbackpressure, hfits⟩

def oneSlot : Runtime where
  runtimeId := ⟨7⟩
  admission := { capacity := 1, backpressure := .block }

/-- Capacity for one: the second of two external calls has to wait until the first one's slot is
back, while a worker's task is taken, a graph of three nodes and a `try_submit` are rejected. -/
def callsForOneSlot : List Label :=
  [.call (.submission false) none, .step 0 false, .step 0 false, .step 0 false,
    .call (.submission false) none, .step 1 false, .step 1 false,
    .call (.submission false) (some ⟨7⟩), .step 2 false, .step 2 false,
    .call (.graphRun 3) none, .step 3 false, .step 3 false,
    .call (.submission true) none, .step 4 false, .step 4 false,
    .release 1, .step 1 false, .step 1 false, .call (.submission false) (some ⟨9⟩), .step 5 true]

theorem admission_accounts_callsForOneSlot :
    ∃ s, Runtime.machine.run oneSlot callsForOneSlot = some s ∧
      s.number (fun c => c.place.granted) = 3 ∧ Balanced s := by
  obtain ⟨s, hs⟩ := Option.isSome_iff_exists.mp
    (show (Runtime.machine.run oneSlot callsForOneSlot).isSome by decide)
  have hend : (Runtime.machine.run oneSlot callsForOneSlot).map
      (fun s => s.number fun c => c.place.granted) = some 3 := by decide
  rw [hs] at hend
  exact ⟨s, hs, Option.some.inj hend,
    admission_accounts (Machine.reachable_of_run ⟨⟨7⟩, _, rfl⟩ hs)⟩

end SubmissionAccounts
end AstraScheduler
