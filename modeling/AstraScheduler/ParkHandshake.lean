import AstraScheduler.Status
import AstraScheduler.Transition

/-! # The park handshake

A worker that finds nothing to do reads `work_epoch`, locks `lifecycle_mutex`,
evaluates the park predicate and blocks on `work_cv`, which releases the mutex in the
same step.  `post_task_internal` publishes, increments the epoch and notifies one
waiter, and holds `lifecycle_mutex` at none of these steps: a notification that falls
between the predicate and the block reaches only workers that block already.

Only one worker at a time can be in that window, so a second worker is either awake
or can be woken; a lone worker has nobody to take the notification for it. -/

namespace AstraScheduler
namespace ParkHandshake

open Transition (Machine)

variable {n m : Nat}

/-- Where a worker is.  `observed` is the epoch it has read, `deadline` whether a
timer was pending when it locked the mutex. -/
inductive WorkerPc where
  /-- Looking for work without the mutex. -/
  | searching
  /-- Executing an invoker it has claimed. -/
  | executing
  /-- Parking: the epoch is read, the mutex not yet locked. -/
  | epochRead (observed : Nat)
  /-- Holding the mutex, about to evaluate the predicate; `timedOut` in a
  `wait_until` that has reached its deadline. -/
  | locked (observed : Nat) (deadline timedOut : Bool)
  /-- Holding the mutex after a false predicate, about to release and block. -/
  | window (observed : Nat) (deadline : Bool)
  | blocked (observed : Nat) (deadline : Bool)
  /-- Notified or timed out, waiting to lock the mutex again. -/
  | woken (observed : Nat) (deadline timedOut : Bool)
  /-- The wait is over; holding the mutex, about to claim. -/
  | awake
  deriving DecidableEq, Repr

/-- A publisher inside `post_task_internal`. -/
inductive PublisherPc where
  | idle
  | published
  | counted
  deriving DecidableEq, Repr

/-- The workers and publishers of a runtime.  `queue` counts the invokers in all its
ready queues, `claimed` those being executed, `timers` the pending timers. -/
structure Park (n m : Nat) where
  workers : Fin n → WorkerPc
  publishers : Fin m → PublisherPc
  mutex : Option (Fin n) := none
  workEpoch : Nat := 0
  queue : Nat := 0
  claimed : Nat := 0
  timers : Nat := 0
  stopRequested : Bool := false
  status : SchedulerStatus := {}

inductive Label (n m : Nat) where
  | publish (p : Fin m)
  | countEpoch (p : Fin m)
  /-- `notify_one`: `target` is the blocked worker it wakes, if there is one. -/
  | notify (p : Fin m) (target : Option (Fin n))
  | readEpoch (w : Fin n)
  | lock (w : Fin n)
  | evaluate (w : Fin n)
  | block (w : Fin n)
  /-- The deadline of a `wait_until` passes. -/
  | timeout (w : Fin n)
  | relock (w : Fin n)
  /-- A claim, in the search or after the wait; the mutex is released if held. -/
  | claim (w : Fin n)
  /-- Nothing to claim after the wait: back to the search. -/
  | giveUp (w : Fin n)
  /-- `complete_claim` and `notify_all`. -/
  | finish (w : Fin n)
  | setTimers (timers : Nat)
  /-- `request_shutdown_mode` moves the status word. -/
  | setStatus (status : SchedulerStatus)
  /-- `stop_requested = true` under the mutex. -/
  | requestStop
  deriving DecidableEq, Repr

/-- The predicate `work_cv` waits for. -/
def parkPredicate (s : Park n m) (observed : Nat) : Bool :=
  if s.stopRequested then
    s.status.state = .stopped || s.status.shutdownMode = .immediate || s.queue ≠ 0 ||
      (s.claimed = 0 && s.timers = 0)
  else
    s.workEpoch ≠ observed || s.queue ≠ 0

def Park.setWorker (s : Park n m) (w : Fin n) (pc : WorkerPc) : Park n m :=
  { s with workers := Function.update s.workers w pc }

def Park.setPublisher (s : Park n m) (p : Fin m) (pc : PublisherPc) : Park n m :=
  { s with publishers := Function.update s.publishers p pc }

/-- A notified thread leaves the condition variable and goes for the mutex. -/
def WorkerPc.wake : WorkerPc → WorkerPc
  | .blocked observed deadline => .woken observed deadline false
  | pc => pc

def WorkerPc.isBlocked : WorkerPc → Bool
  | .blocked _ _ => true
  | _ => false

def next (s : Park n m) : Label n m → Option (Park n m)
  | .publish p =>
    if s.publishers p = .idle then
      some { s.setPublisher p .published with queue := s.queue + 1 }
    else none
  | .countEpoch p =>
    if s.publishers p = .published then
      some { s.setPublisher p .counted with workEpoch := s.workEpoch + 1 }
    else none
  | .notify p target =>
    if s.publishers p = .counted then
      match target with
      | some w =>
        if (s.workers w).isBlocked then
          some ((s.setPublisher p .idle).setWorker w (s.workers w).wake)
        else none
      | none =>
        if ∀ w, ¬ (s.workers w).isBlocked then some (s.setPublisher p .idle) else none
    else none
  | .readEpoch w =>
    if s.workers w = .searching then some (s.setWorker w (.epochRead s.workEpoch)) else none
  | .lock w =>
    match s.workers w with
    | .epochRead observed =>
      if s.mutex = none then
        some { s.setWorker w (.locked observed (s.timers ≠ 0) false) with mutex := some w }
      else none
    | _ => none
  | .evaluate w =>
    match s.workers w with
    | .locked observed deadline timedOut =>
      if parkPredicate s observed || timedOut then some (s.setWorker w .awake)
      else some (s.setWorker w (.window observed deadline))
    | _ => none
  | .block w =>
    match s.workers w with
    | .window observed deadline =>
      some { s.setWorker w (.blocked observed deadline) with mutex := none }
    | _ => none
  | .timeout w =>
    match s.workers w with
    | .blocked observed true => some (s.setWorker w (.woken observed true true))
    | _ => none
  | .relock w =>
    match s.workers w with
    | .woken observed deadline timedOut =>
      if s.mutex = none then
        some { s.setWorker w (.locked observed deadline timedOut) with mutex := some w }
      else none
    | _ => none
  | .claim w =>
    if s.queue = 0 then none
    else
      match s.workers w with
      | .searching =>
        some { s.setWorker w .executing with queue := s.queue - 1, claimed := s.claimed + 1 }
      | .awake =>
        some { s.setWorker w .executing with
          queue := s.queue - 1
          claimed := s.claimed + 1
          mutex := none }
      | _ => none
  | .giveUp w =>
    if s.workers w = .awake then some { s.setWorker w .searching with mutex := none } else none
  | .finish w =>
    if s.workers w = .executing then
      some { s with
        workers := fun v => if v = w then .searching else (s.workers v).wake
        claimed := s.claimed - 1 }
    else none
  | .setTimers timers => some { s with timers := timers }
  | .setStatus status => some { s with status := status }
  | .requestStop => if s.mutex = none then some { s with stopRequested := true } else none

/-- All workers search for work and nothing has been published. -/
def start (n m : Nat) : Park n m :=
  { workers := fun _ => .searching, publishers := fun _ => .idle }

/-- A runtime with `n` workers and `m` publishing threads. -/
def park (n m : Nat) : Machine (Park n m) (Label n m) where
  init s := s = start n m
  next := next

/-- **A lost wakeup**: work is queued and no shutdown requested, every worker is
blocked without a deadline, and no publisher has a notification left to give. -/
structure LostWakeup (s : Park n m) : Prop where
  notStopping : s.stopRequested = false
  work : s.queue ≠ 0
  blocked : ∀ w, ∃ observed, s.workers w = .blocked observed false
  quiet : ∀ p, s.publishers p = .idle

/-- A worker between its false predicate and its block, without a deadline. -/
def WorkerPc.inWindow : WorkerPc → Bool
  | .window _ false => true
  | _ => false

/-- The last pending notification for queued work does not fall into a moment where
every worker is about to block. -/
def NotifyReachesWorker (s : Park n m) : Label n m → Prop
  | .notify p none =>
    s.stopRequested ∨ s.queue = 0 ∨ (∃ w, ¬ (s.workers w).inWindow) ∨
      ∃ q, q ≠ p ∧ s.publishers q ≠ .idle
  | _ => True

instance (s : Park n m) : (label : Label n m) → Decidable (NotifyReachesWorker s label)
  | .notify p none => inferInstanceAs (Decidable (s.stopRequested ∨ s.queue = 0 ∨
      (∃ w, ¬ (s.workers w).inWindow) ∨ ∃ q, q ≠ p ∧ s.publishers q ≠ .idle))
  | .notify _ (some _) | .publish _ | .countEpoch _ | .readEpoch _ | .lock _ | .evaluate _
  | .block _ | .timeout _ | .relock _ | .claim _ | .giveUp _ | .finish _ | .setTimers _
  | .setStatus _ | .requestStop => inferInstanceAs (Decidable True)

/-! ## Why a second worker suffices -/

/-- A worker that will not look at the queue again by itself. -/
def WorkerPc.asleep : WorkerPc → Bool
  | .window _ false | .blocked _ false => true
  | _ => false

/-- As long as all workers are asleep over queued work, a publisher still has its
notification to give. -/
def Attended (s : Park n m) : Prop :=
  s.stopRequested = false → s.queue ≠ 0 → (∀ w, (s.workers w).asleep) →
    ∃ p, s.publishers p ≠ .idle

variable {s s' : Park n m}

theorem attended_start (n m : Nat) : Attended (start n m) :=
  fun _ hq _ => absurd rfl hq

/-- A worker that is up keeps the invariant by itself. -/
theorem attended_of_up (w : Fin n) (h : (s'.workers w).asleep = false) : Attended s' := by
  intro _ _ hall
  have hw := hall w
  rw [h] at hw
  cases hw

theorem asleep_wake (pc : WorkerPc) (h : pc.isBlocked) : pc.wake.asleep = false := by
  cases pc <;> first | rfl | cases h

theorem inWindow_of_asleep {pc : WorkerPc} (h : pc.asleep) (hblocked : ¬ pc.isBlocked) :
    pc.inWindow := by
  cases pc with
  | window observed timed =>
    cases timed with
    | false => rfl
    | true => cases h
  | blocked observed timed => exact absurd rfl hblocked
  | _ => cases h

/-- A lock or an unlock moves one worker and nothing else. -/
theorem attended_setWorker (w : Fin n) (pc : WorkerPc) {t : Park n m}
    (hpc : pc.asleep = false) (ht : t.workers = (s.setWorker w pc).workers) : Attended t := by
  refine attended_of_up w ?_
  rw [ht]
  simpa [Park.setWorker] using hpc

theorem attended_notify {p : Fin m} {target : Option (Fin n)}
    (hok : NotifyReachesWorker s (.notify p target))
    (hn : next s (.notify p target) = some s') : Attended s' := by
  simp only [next] at hn
  split at hn
  · cases target with
    | some w =>
      simp only at hn
      split at hn
      · rename_i hw
        obtain rfl := Option.some.inj hn
        exact attended_setWorker w _ (asleep_wake _ hw) rfl
      · cases hn
    | none =>
      simp only at hn
      split at hn
      · rename_i hnobody
        obtain rfl := Option.some.inj hn
        intro hstop hq hall
        rcases hok with hs | hs | ⟨w, hw⟩ | ⟨q, hne, hq⟩
        · exact absurd hs (by simpa [Park.setPublisher] using hstop)
        · exact absurd hs hq
        · -- nobody is blocked, so whoever is asleep is in the window
          have hasleep : (s.workers w).asleep := hall w
          exact absurd (inWindow_of_asleep hasleep (hnobody w)) hw
        · refine ⟨q, ?_⟩
          simpa [Park.setPublisher, Function.update_of_ne hne] using hq
      · cases hn
  · cases hn

/-- A false predicate has seen the queue empty. -/
theorem queue_empty_of_predicate {observed : Nat} (hstop : s.stopRequested = false)
    (h : parkPredicate s observed = false) : s.queue = 0 := by
  simp only [parkPredicate, hstop] at h
  simpa using (Bool.or_eq_false_iff.mp h).2

theorem attended_evaluate {w : Fin n} (hn : next s (.evaluate w) = some s') : Attended s' := by
  simp only [next] at hn
  split at hn
  · split at hn
    · obtain rfl := Option.some.inj hn
      exact attended_setWorker w _ rfl rfl
    · rename_i observed _ _ _ hpred
      obtain rfl := Option.some.inj hn
      intro hstop hq _
      have hfalse : parkPredicate s observed = false := by
        simp only [Bool.or_eq_true, not_or, Bool.not_eq_true] at hpred
        exact hpred.1
      exact absurd (queue_empty_of_predicate hstop hfalse) hq
  · cases hn

/-- Blocking puts no worker to sleep that was not already in the window. -/
theorem attended_block {w : Fin n} (h : Attended s) (hn : next s (.block w) = some s') :
    Attended s' := by
  simp only [next] at hn
  split at hn
  · rename_i observed deadline hpc
    obtain rfl := Option.some.inj hn
    intro hstop hq hall
    refine h hstop hq fun v => ?_
    by_cases hv : v = w
    · subst hv
      have hv := hall v
      simp only [Park.setWorker, Function.update_self] at hv
      rw [hpc]
      cases deadline with
      | false => rfl
      | true => cases hv
    · simpa [Park.setWorker, Function.update_of_ne hv] using hall v
  · cases hn

/-- **One step of the handshake** keeps the workers attended, if a notification does
not fall where nobody can take it. -/
theorem attended_next {label : Label n m} (h : Attended s) (hok : NotifyReachesWorker s label)
    (hn : next s label = some s') : Attended s' := by
  cases label with
  | publish p =>
    simp only [next] at hn
    split at hn
    · obtain rfl := Option.some.inj hn
      -- the publisher itself attends to the sleepers until it has notified
      exact fun _ _ _ => ⟨p, by simp [Park.setPublisher]⟩
    · cases hn
  | countEpoch p =>
    simp only [next] at hn
    split at hn
    · obtain rfl := Option.some.inj hn
      exact fun _ _ _ => ⟨p, by simp [Park.setPublisher]⟩
    · cases hn
  | notify p target => exact attended_notify hok hn
  | readEpoch w =>
    simp only [next] at hn
    split at hn
    · obtain rfl := Option.some.inj hn
      -- the worker is awake and stays so
      exact attended_setWorker w _ rfl rfl
    · cases hn
  | lock w =>
    simp only [next] at hn
    split at hn
    · split at hn
      · obtain rfl := Option.some.inj hn
        exact attended_setWorker w _ rfl rfl
      · cases hn
    · cases hn
  | evaluate w => exact attended_evaluate hn
  | block w => exact attended_block h hn
  | timeout w =>
    simp only [next] at hn
    split at hn
    · obtain rfl := Option.some.inj hn
      exact attended_setWorker w _ rfl rfl
    · cases hn
  | relock w =>
    simp only [next] at hn
    split at hn
    · split at hn
      · obtain rfl := Option.some.inj hn
        exact attended_setWorker w _ rfl rfl
      · cases hn
    · cases hn
  | claim w =>
    simp only [next] at hn
    split at hn
    · cases hn
    split at hn
    · obtain rfl := Option.some.inj hn
      exact attended_setWorker w .executing rfl rfl
    · obtain rfl := Option.some.inj hn
      exact attended_setWorker w .executing rfl rfl
    · cases hn
  | giveUp w =>
    simp only [next] at hn
    split at hn
    · obtain rfl := Option.some.inj hn
      exact attended_setWorker w .searching rfl rfl
    · cases hn
  | finish w =>
    simp only [next] at hn
    split at hn
    · obtain rfl := Option.some.inj hn
      -- a worker that is up will look at the queues before it sleeps again
      exact attended_of_up w (by simp [WorkerPc.asleep])
    · cases hn
  | setTimers timers =>
    obtain rfl := Option.some.inj hn
    exact h
  | setStatus status =>
    obtain rfl := Option.some.inj hn
    exact h
  | requestStop =>
    simp only [next] at hn
    split at hn
    · obtain rfl := Option.some.inj hn
      exact fun hstop => absurd hstop (by simp)
    · cases hn

theorem not_lostWakeup_of_attended (h : Attended s) : ¬ LostWakeup s := by
  intro hlost
  have hall : ∀ w, (s.workers w).asleep := by
    intro w
    obtain ⟨observed, hw⟩ := hlost.blocked w
    rw [hw]
    rfl
  obtain ⟨p, hp⟩ := h hlost.notStopping hlost.work hall
  exact hp (hlost.quiet p)

/-- The lone worker parks, a publisher finds it blocked, and it claims the work. -/
def parkThenPublish : List (Label 1 1) :=
  [.readEpoch 0, .lock 0, .evaluate 0, .block 0, .publish 0, .countEpoch 0, .notify 0 (some 0),
    .relock 0, .evaluate 0, .claim 0]

/-- **No wakeup is lost in runs whose notifications reach a worker**: the only step
that can strand queued work is a notification that finds nobody blocked and every
worker about to block. -/
theorem not_lostWakeup (n m : Nat) (s : Park n m)
    (h : (park n m).ReachableUnder NotifyReachesWorker s) : ¬ LostWakeup s := by
  refine not_lostWakeup_of_attended (h.invariant Attended ?_ fun _ _ _ => attended_next)
  rintro s ⟨rfl⟩
  exact attended_start n m

theorem not_lostWakeup_parkThenPublish :
    ∃ s, (park 1 1).run (start 1 1) parkThenPublish = some s ∧ ¬ LostWakeup s := by
  obtain ⟨s, hs⟩ := Option.isSome_iff_exists.mp
    (show ((park 1 1).run (start 1 1) parkThenPublish).isSome by decide)
  exact ⟨s, hs, not_lostWakeup 1 1 s ((Machine.ReachableUnder.initial rfl).run (by decide) hs)⟩

/-- The publisher takes all its steps between the predicate and the block. -/
def publishInWindow : List (Label 1 1) :=
  [.readEpoch 0, .lock 0, .evaluate 0, .publish 0, .countEpoch 0, .notify 0 none, .block 0]

theorem publishInWindow_loses_wakeup :
    ∃ s, (park 1 1).Reachable s ∧ LostWakeup s := by
  obtain ⟨s, hs⟩ := Option.isSome_iff_exists.mp
    (show ((park 1 1).run (start 1 1) publishInWindow).isSome by decide)
  refine ⟨s, Machine.reachable_of_run rfl hs, ?_⟩
  obtain rfl := Option.some.inj hs
  refine ⟨rfl, by decide, fun w => ⟨0, ?_⟩, ?_⟩
  · revert w
    decide
  · decide

/-! ## The mutex admits one worker to the window -/

/-- The worker holds `lifecycle_mutex`. -/
def WorkerPc.holds : WorkerPc → Bool
  | .locked _ _ _ | .window _ _ | .awake => true
  | _ => false

/-- Who holds the mutex is recorded as its holder. -/
def Locks (s : Park n m) : Prop :=
  ∀ w, (s.workers w).holds → s.mutex = some w

theorem holds_wake (pc : WorkerPc) : pc.wake.holds = pc.holds := by
  cases pc <;> rfl

/-- Moving worker `w` keeps the locks if the new mutex suits it and everyone else. -/
theorem locks_setWorker (w : Fin n) (pc : WorkerPc) {t : Park n m}
    (ht : t.workers = (s.setWorker w pc).workers) (hw : pc.holds → t.mutex = some w)
    (hothers : ∀ v, v ≠ w → (s.workers v).holds → t.mutex = some v) : Locks t := by
  intro v hv
  rw [ht] at hv
  by_cases hvw : v = w
  · subst hvw
    exact hw (by simpa [Park.setWorker] using hv)
  · exact hothers v hvw (by simpa [Park.setWorker, Function.update_of_ne hvw] using hv)

/-- A holder has the mutex alone. -/
theorem not_holds_of_holder (h : Locks s) {w : Fin n} (hw : (s.workers w).holds) :
    ∀ v, v ≠ w → ¬ (s.workers v).holds := by
  intro v hvw hv
  exact hvw (Option.some.inj ((h v hv).symm.trans (h w hw)))

theorem not_holds_of_free (h : Locks s) (hfree : s.mutex = none) :
    ∀ v, ¬ (s.workers v).holds := by
  intro v hv
  have := h v hv
  rw [hfree] at this
  cases this

theorem locks_next {label : Label n m} (h : Locks s) (hn : next s label = some s') :
    Locks s' := by
  cases label with
  | publish p =>
    simp only [next] at hn
    split at hn
    · obtain rfl := Option.some.inj hn
      exact h
    · cases hn
  | countEpoch p =>
    simp only [next] at hn
    split at hn
    · obtain rfl := Option.some.inj hn
      exact h
    · cases hn
  | notify p target =>
    simp only [next] at hn
    split at hn
    · cases target with
      | some w =>
        simp only at hn
        split at hn
        · obtain rfl := Option.some.inj hn
          -- whoever is woken has still to take the mutex
          refine locks_setWorker (s := s) w _ rfl (fun hw => ?_) fun v _ hv => h v hv
          rw [holds_wake] at hw
          exact h w hw
        · cases hn
      | none =>
        simp only at hn
        split at hn
        · obtain rfl := Option.some.inj hn
          exact h
        · cases hn
    · cases hn
  | readEpoch w =>
    simp only [next] at hn
    split at hn
    · obtain rfl := Option.some.inj hn
      exact locks_setWorker w _ rfl (by simp [WorkerPc.holds]) fun v _ hv => h v hv
    · cases hn
  | lock w =>
    simp only [next] at hn
    split at hn
    · split at hn
      · rename_i hfree
        obtain rfl := Option.some.inj hn
        exact locks_setWorker (s := s) w _ rfl (fun _ => rfl)
          fun v _ hv => absurd hv (not_holds_of_free h hfree v)
      · cases hn
    · cases hn
  | evaluate w =>
    simp only [next] at hn
    split at hn
    · rename_i hpc
      -- the predicate is read under the mutex, which the worker keeps either way
      have hw : s.mutex = some w := h w (by rw [hpc]; rfl)
      split at hn
      · obtain rfl := Option.some.inj hn
        exact locks_setWorker w _ rfl (fun _ => hw) fun v _ hv => h v hv
      · obtain rfl := Option.some.inj hn
        exact locks_setWorker w _ rfl (fun _ => hw) fun v _ hv => h v hv
    · cases hn
  | block w =>
    simp only [next] at hn
    split at hn
    · rename_i hpc
      obtain rfl := Option.some.inj hn
      -- blocking gives the mutex up, and nobody else has it
      exact locks_setWorker (s := s) w _ rfl (by simp [WorkerPc.holds]) fun v hvw hv =>
        absurd hv (not_holds_of_holder h (by rw [hpc]; rfl) v hvw)
    · cases hn
  | timeout w =>
    simp only [next] at hn
    split at hn
    · obtain rfl := Option.some.inj hn
      exact locks_setWorker w _ rfl (by simp [WorkerPc.holds]) fun v _ hv => h v hv
    · cases hn
  | relock w =>
    simp only [next] at hn
    split at hn
    · split at hn
      · rename_i hfree
        obtain rfl := Option.some.inj hn
        exact locks_setWorker (s := s) w _ rfl (fun _ => rfl)
          fun v _ hv => absurd hv (not_holds_of_free h hfree v)
      · cases hn
    · cases hn
  | claim w =>
    simp only [next] at hn
    split at hn
    · cases hn
    split at hn
    · obtain rfl := Option.some.inj hn
      exact locks_setWorker (s := s) w .executing rfl (by simp [WorkerPc.holds])
        fun v _ hv => h v hv
    · rename_i hpc
      obtain rfl := Option.some.inj hn
      exact locks_setWorker (s := s) w .executing rfl (by simp [WorkerPc.holds]) fun v hvw hv =>
        absurd hv (not_holds_of_holder h (by rw [hpc]; rfl) v hvw)
    · cases hn
  | giveUp w =>
    simp only [next] at hn
    split at hn
    · rename_i hpc
      obtain rfl := Option.some.inj hn
      exact locks_setWorker (s := s) w .searching rfl (by simp [WorkerPc.holds]) fun v hvw hv =>
        absurd hv (not_holds_of_holder h (by rw [hpc]; rfl) v hvw)
    · cases hn
  | finish w =>
    simp only [next] at hn
    split at hn
    · obtain rfl := Option.some.inj hn
      intro v hv
      by_cases hvw : v = w
      · simp [hvw, WorkerPc.holds] at hv
      · simp only [hvw, if_false, holds_wake] at hv
        exact h v hv
    · cases hn
  | setTimers timers =>
    obtain rfl := Option.some.inj hn
    exact h
  | setStatus status =>
    obtain rfl := Option.some.inj hn
    exact h
  | requestStop =>
    simp only [next] at hn
    split at hn
    · obtain rfl := Option.some.inj hn
      exact h
    · cases hn

/-- **Two workers never lose a wakeup**: they cannot both be in the window, so every
notification reaches a worker. -/
theorem not_lostWakeup_of_two_workers (n m : Nat) (s : Park (n + 2) m)
    (h : (park (n + 2) m).Reachable s) : ¬ LostWakeup s := by
  have hinv : Locks s ∧ Attended s := by
    refine h.invariant (fun s => Locks s ∧ Attended s) ?_ fun s label s' hs _ hn =>
      ⟨locks_next hs.1 hn, attended_next hs.2 ?_ hn⟩
    · rintro s ⟨rfl⟩
      exact ⟨by simp [Locks, start, WorkerPc.holds], attended_start _ _⟩
    · unfold NotifyReachesWorker
      split
      · refine Or.inr (Or.inr (Or.inl ?_))
        by_cases h0 : (s.workers 0).inWindow
        · refine ⟨1, fun h1 => ?_⟩
          have hholds : ∀ pc : WorkerPc, pc.inWindow → pc.holds := by
            intro pc hpc
            cases pc <;> first | rfl | cases hpc
          exact not_holds_of_holder hs.1 (hholds _ h0) 1 (by simp) (hholds _ h1)
        · exact ⟨0, h0⟩
      · trivial
  exact not_lostWakeup_of_attended hinv.2

/-- A lone worker that misses the last notification is stranded by its next step. -/
theorem lostWakeup_of_unreached {s s' s'' : Park 1 m} {p : Fin m}
    (hbad : ¬ NotifyReachesWorker s (.notify p none))
    (hn : next s (.notify p none) = some s') (hb : next s' (.block 0) = some s'') :
    LostWakeup s'' := by
  simp only [NotifyReachesWorker, not_or, not_exists, not_not] at hbad
  obtain ⟨hstop, hqueue, hwindow, hquiet⟩ := hbad
  simp only [next] at hn
  split at hn
  · split at hn
    · obtain rfl := Option.some.inj hn
      have h0 := hwindow 0
      simp only [next] at hb
      split at hb
      · rename_i observed deadline hpc
        obtain rfl := Option.some.inj hb
        have hdeadline : deadline = false := by
          rw [show s.workers 0 = .window observed deadline from hpc] at h0
          cases deadline with
          | false => rfl
          | true => cases h0
        refine ⟨eq_false_of_ne_true hstop, hqueue, fun w => ⟨observed, ?_⟩, fun q => ?_⟩
        · rw [Subsingleton.elim w 0]
          simp [Park.setWorker, hdeadline]
        · by_cases hqp : q = p
          · subst hqp
            simp [Park.setPublisher, Park.setWorker]
          · have := hquiet q
            simp only [not_and, not_not] at this
            simpa [Park.setPublisher, Park.setWorker, Function.update_of_ne hqp] using this hqp
      · cases hb
    · cases hn
  · cases hn

end ParkHandshake
end AstraScheduler
