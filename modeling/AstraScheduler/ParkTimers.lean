import AstraScheduler.Status
import AstraScheduler.TimerQueueCalls

/-! # Parked workers and the timers

A parking worker reads `earliest_wake_time` once, under `lifecycle_mutex`, and waits on
`work_cv` with that deadline, however often it is woken, finds its predicate false and blocks
again.  Timers that are registered meanwhile move no deadline.  They come from coroutines on
the runtime's own workers: a worker that has registered a timer parks afterwards, and its
deadline is not later.

The contents of the ready queues and the shutdown status, which the predicate reads, change at
any time here; wakeups come at any time and may be lost. -/

namespace AstraScheduler
namespace ParkTimers
variable {n : Nat} {H R : Type}

/-- Where a worker is.  `observed` is the epoch it has read, `deadline` the `next_wake` of its
park, `timedOut` whether its `wait_until` has reached it. -/
inductive WorkerPc where
  /-- Looking for work without the mutex. -/
  | searching
  /-- Executing an invoker it has claimed: coroutines register timers here. -/
  | executing
  | epochRead (observed : Nat)
  /-- Holding the mutex, about to read `earliest_wake_time`. -/
  | holding (observed : Nat)
  /-- Holding the mutex, about to evaluate the predicate. -/
  | locked (observed : Nat) (deadline : Option Int) (timedOut : Bool)
  /-- Holding the mutex after a false predicate, about to release and block. -/
  | window (observed : Nat) (deadline : Option Int)
  | blocked (observed : Nat) (deadline : Option Int)
  /-- Notified or timed out, waiting to lock the mutex again. -/
  | woken (observed : Nat) (deadline : Option Int) (timedOut : Bool)
  /-- The wait is over; holding the mutex, about to claim. -/
  | awake
  deriving DecidableEq, Repr

/-- A runtime with `n` workers.  `registeredBy` records which worker has registered the timer
at an address. -/
structure Runtime (n : Nat) (H R : Type) where
  timers : TimerQueue H R
  workers : Fin n → WorkerPc := fun _ => .searching
  lifecycleMutex : Option (Fin n) := none
  workEpoch : Nat := 0
  anyQueuedWork : Bool := false
  localEmpty : Fin n → Bool := fun _ => true
  claimedCount : Nat := 0
  stopRequested : Bool := false
  status : SchedulerStatus := {}
  registeredBy : Nat → Option (Fin n) := fun _ => none

/-- A worker's next step. -/
inductive Action (H R : Type) where
  /-- A claim, in the search or after the wait; the mutex is released if held. -/
  | claim
  | finish
  /-- A coroutine on this worker registers a timer. -/
  | registerTimer (wakeTime : Int) (handshake : H) (resumeAction : R)
  | readEpoch
  | lock
  | earliestWakeTime
  | evaluate
  | block
  /-- A notification, or nothing at all, wakes the worker. -/
  | wake
  | timeout
  | relock
  /-- Nothing to claim after the wait: back to the search. -/
  | giveUp

inductive Label (n : Nat) (H R : Type) where
  | worker (w : Fin n) (action : Action H R)
  /-- `cancel_timer`, from any thread. -/
  | cancelTimer (timerId : UInt64)
  | processDueTimers (now : Int)
  | cancelAllTimers
  | countEpoch
  | setQueues (anyQueuedWork : Bool) (localEmpty : Fin n → Bool) (claimedCount : Nat)
  | setStatus (stopRequested : Bool) (status : SchedulerStatus)

section
variable (s : Runtime n H R)

/-- The predicate `work_cv` waits for. -/
def parkPredicate (w : Fin n) (observed : Nat) : Bool :=
  if s.stopRequested then
    s.status.state = .stopped || s.status.shutdownMode = .immediate || s.anyQueuedWork ||
      (s.claimedCount = 0 && s.timers.empty)
  else s.workEpoch ≠ observed || s.anyQueuedWork || !s.localEmpty w

def Runtime.setWorker (w : Fin n) (pc : WorkerPc) : Runtime n H R :=
  { s with workers := Function.update s.workers w pc }

/-- `none` where the action is not one of the worker's place. -/
def stepWorker (w : Fin n) : Action H R → WorkerPc → Option (Runtime n H R)
  | .claim, .searching => some (s.setWorker w .executing)
  | .claim, .awake => some { s.setWorker w .executing with lifecycleMutex := none }
  | .finish, .executing => some (s.setWorker w .searching)
  | .registerTimer wakeTime handshake resumeAction, .executing =>
    some { s with
      timers := (s.timers.add wakeTime handshake resumeAction).1
      registeredBy := Function.update s.registeredBy s.timers.allocated (some w) }
  | .readEpoch, .searching => some (s.setWorker w (.epochRead s.workEpoch))
  | .lock, .epochRead observed =>
    if s.lifecycleMutex = none then
      some { s.setWorker w (.holding observed) with lifecycleMutex := some w }
    else none
  | .earliestWakeTime, .holding observed =>
    some (s.setWorker w (.locked observed s.timers.earliestWakeTime false))
  | .evaluate, .locked observed deadline timedOut =>
    if parkPredicate s w observed || timedOut then some (s.setWorker w .awake)
    else some (s.setWorker w (.window observed deadline))
  | .block, .window observed deadline =>
    some { s.setWorker w (.blocked observed deadline) with lifecycleMutex := none }
  | .wake, .blocked observed deadline => some (s.setWorker w (.woken observed deadline false))
  | .timeout, .blocked observed (some deadline) =>
    some (s.setWorker w (.woken observed (some deadline) true))
  | .relock, .woken observed deadline timedOut =>
    if s.lifecycleMutex = none then
      some { s.setWorker w (.locked observed deadline timedOut) with lifecycleMutex := some w }
    else none
  | .giveUp, .awake => some { s.setWorker w .searching with lifecycleMutex := none }
  | _, _ => none

def step : Label n H R → Option (Runtime n H R)
  | .worker w action => stepWorker s w action (s.workers w)
  | .cancelTimer timerId => some { s with timers := s.timers.cancel timerId }
  | .processDueTimers now => some { s with timers := (s.timers.collectDue now).2 }
  | .cancelAllTimers => some { s with timers := s.timers.cancelAll.2 }
  | .countEpoch => some { s with workEpoch := s.workEpoch + 1 }
  | .setQueues anyQueuedWork localEmpty claimedCount =>
    some { s with
      anyQueuedWork := anyQueuedWork, localEmpty := localEmpty, claimedCount := claimedCount }
  | .setStatus stopRequested status =>
    some { s with stopRequested := stopRequested, status := status }

end

/-- A runtime whose workers search for work; no timer is registered. -/
def machine (n : Nat) (H R : Type) : Transition.Machine (Runtime n H R) (Label n H R) where
  init s := ∃ level, s = { timers := .new level }
  next := step

def WorkerPc.isBlocked : WorkerPc → Bool
  | .blocked _ _ => true
  | _ => false

/-- The deadline of a worker's wait. -/
def WorkerPc.deadline : WorkerPc → Option Int
  | .locked _ deadline _ | .window _ deadline | .blocked _ deadline | .woken _ deadline _ => deadline
  | _ => none

/-- **Parked workers cover the timers.** -/
def TimersCovered (s : Runtime n H R) : Prop :=
  (∀ w, (s.workers w).isBlocked) →
    ∀ e ∈ s.timers.heap.entries, ∃ w d, (s.workers w).deadline = some d ∧ d ≤ e.wakeTime

/-! ## The invariant -/

variable {s s' : Runtime n H R}

/-- A worker at this place has not begun its park's wait, or waits no longer than this. -/
def WorkerPc.Covers (wakeTime : Int) : WorkerPc → Prop
  | .locked _ deadline _ | .window _ deadline | .blocked _ deadline | .woken _ deadline _ =>
    ∃ d, deadline = some d ∧ d ≤ wakeTime
  | .searching | .executing | .epochRead _ | .holding _ | .awake => True

/-- Every timer is covered by the worker that has registered it. -/
structure Inv (s : Runtime n H R) : Prop where
  timers : s.timers.Placed
  covered : ∀ e ∈ s.timers.heap.entries, ∃ w, s.registeredBy e.address = some w ∧
    (s.workers w).Covers e.wakeTime

theorem Inv.initial (level : MetricsLevel) : Inv ({ timers := .new level } : Runtime n H R) where
  timers := .new level
  covered _ he := by cases he

/-- A worker moves to a place where it covers what it has covered. -/
theorem Inv.moveWorker (h : Inv s) {w : Fin n} {pc : WorkerPc}
    (ht : s'.timers = s.timers) (hr : s'.registeredBy = s.registeredBy)
    (hw : s'.workers = Function.update s.workers w pc)
    (hpc : ∀ e ∈ s.timers.heap.entries, (s.workers w).Covers e.wakeTime → pc.Covers e.wakeTime) :
    Inv s' where
  timers := by
    rw [ht]
    exact h.timers
  covered := by
    rw [ht, hr, hw]
    intro e he
    obtain ⟨v, hv, hcovers⟩ := h.covered e he
    refine ⟨v, hv, ?_⟩
    by_cases hvw : v = w
    · subst hvw
      rw [Function.update_self]
      exact hpc e he hcovers
    · rw [Function.update_of_ne hvw]
      exact hcovers

/-- The new timer's worker is executing; the others' timers are as before. -/
theorem Inv.registerTimer (h : Inv s) {w : Fin n} (hw : s.workers w = .executing) (wakeTime : Int)
    (handshake : H) (resumeAction : R) :
    Inv { s with
      timers := (s.timers.add wakeTime handshake resumeAction).1
      registeredBy := Function.update s.registeredBy s.timers.allocated (some w) } where
  timers := h.timers.add ..
  covered := by
    intro e he
    rcases h.timers.mem_add.mp he with rfl | he
    · refine ⟨w, Function.update_self .., ?_⟩
      rw [hw]
      trivial
    · have hne : e.address ≠ s.timers.allocated := Nat.ne_of_lt (h.timers.allocated e he)
      dsimp only
      rw [Function.update_of_ne hne]
      exact h.covered e he

theorem Inv.stepWorker (h : Inv s) {w : Fin n} {action : Action H R}
    (hs : stepWorker s w action (s.workers w) = some s') : Inv s' := by
  generalize hpc : s.workers w = pc at hs
  have hold : ∀ {wakeTime}, (s.workers w).Covers wakeTime → pc.Covers wakeTime :=
    fun hcovers => hpc ▸ hcovers
  unfold ParkTimers.stepWorker at hs
  split at hs
  · cases hs
    exact h.moveWorker rfl rfl rfl fun _ _ _ => trivial
  · cases hs
    exact h.moveWorker rfl rfl rfl fun _ _ _ => trivial
  · cases hs
    exact h.moveWorker rfl rfl rfl fun _ _ _ => trivial
  · cases hs
    exact h.registerTimer hpc ..
  · cases hs
    exact h.moveWorker rfl rfl rfl fun _ _ _ => trivial
  · split at hs
    · cases hs
      exact h.moveWorker rfl rfl rfl fun _ _ _ => trivial
    · cases hs
  · -- The deadline is read with all timers in the queue.
    cases hs
    exact h.moveWorker rfl rfl rfl fun e he _ => h.timers.earliestWakeTime he
  · split at hs
    · cases hs
      exact h.moveWorker rfl rfl rfl fun _ _ _ => trivial
    · cases hs
      exact h.moveWorker rfl rfl rfl fun _ _ => hold
  · cases hs
    exact h.moveWorker rfl rfl rfl fun _ _ => hold
  · cases hs
    exact h.moveWorker rfl rfl rfl fun _ _ => hold
  · cases hs
    exact h.moveWorker rfl rfl rfl fun _ _ => hold
  · split at hs
    · cases hs
      exact h.moveWorker rfl rfl rfl fun _ _ => hold
    · cases hs
  · cases hs
    exact h.moveWorker rfl rfl rfl fun _ _ _ => trivial
  · cases hs

/-- Timers leave the queue. -/
theorem Inv.call (h : Inv s) (op : TimerQueue.Op H R)
    (hop : ∀ wakeTime handshake resumeAction, op ≠ .add wakeTime handshake resumeAction) :
    Inv { s with timers := (s.timers.call op).2 } where
  timers := (h.timers.call hop).1
  covered e he := h.covered e ((h.timers.call hop).2 e he)

theorem Inv.step (h : Inv s) {label : Label n H R} (hs : step s label = some s') : Inv s' := by
  cases label with
  | worker w action => exact h.stepWorker hs
  | cancelTimer timerId =>
    cases hs
    exact h.call (.cancel timerId) fun _ _ _ hadd => by cases hadd
  | processDueTimers now =>
    cases hs
    exact h.call (.collectDue now) fun _ _ _ hadd => by cases hadd
  | cancelAllTimers =>
    cases hs
    exact h.call .cancelAll fun _ _ _ hadd => by cases hadd
  | countEpoch | setQueues _ _ _ | setStatus _ _ =>
    cases hs
    exact ⟨h.timers, h.covered⟩

theorem inv_of_reachable (h : (machine n H R).Reachable s) : Inv s := by
  induction h with
  | initial hinit =>
    obtain ⟨level, rfl⟩ := hinit
    exact .initial level
  | step _ _ hs ih => exact ih.step hs

/-- **Parked workers cover the timers**: the worker that has registered a timer parks
afterwards, with a deadline that is not later. -/
theorem timersCovered_of_reachable (h : (machine n H R).Reachable s) : TimersCovered s := by
  intro hblocked e he
  obtain ⟨w, -, hcovers⟩ := (inv_of_reachable h).covered e he
  have hw := hblocked w
  cases hpc : s.workers w with
  | blocked observed deadline =>
    rw [hpc] at hcovers
    obtain ⟨d, rfl, hle⟩ := hcovers
    exact ⟨w, d, by rw [hpc]; rfl, hle⟩
  | _ => simp [hpc, WorkerPc.isBlocked] at hw

/-- The first worker parks before there is a timer, and the second registers two. -/
theorem timersCovered_parkThenRegister :
    ∃ s : Runtime 2 Unit Unit, (∀ w, (s.workers w).isBlocked) ∧ (s.workers 0).deadline = none ∧
      s.timers.size = 2 ∧ TimersCovered s := by
  let labels : List (Label 2 Unit Unit) := [.worker 0 .readEpoch, .worker 0 .lock,
    .worker 0 .earliestWakeTime, .worker 0 .evaluate, .worker 0 .block, .worker 1 .claim,
    .worker 1 (.registerTimer 5 () ()), .worker 1 (.registerTimer 3 () ()), .worker 1 .finish,
    .worker 1 .readEpoch, .worker 1 .lock, .worker 1 .earliestWakeTime, .worker 1 .evaluate,
    .worker 1 .block]
  obtain ⟨s, hs⟩ := Option.isSome_iff_exists.mp
    (show ((machine 2 Unit Unit).run { timers := .new .off } labels).isSome by decide)
  have hend : ((machine 2 Unit Unit).run { timers := .new .off } labels).map (fun s => decide
      ((∀ w, (s.workers w).isBlocked) ∧ (s.workers 0).deadline = none ∧ s.timers.size = 2)) =
        some true := by
    decide
  simp only [hs, Option.map_some, Option.some.injEq, decide_eq_true_eq] at hend
  have hreach := Transition.Machine.reachable_of_run (m := machine 2 Unit Unit) ⟨.off, rfl⟩ hs
  exact ⟨s, hend.1, hend.2.1, hend.2.2, timersCovered_of_reachable hreach⟩

end ParkTimers
end AstraScheduler
