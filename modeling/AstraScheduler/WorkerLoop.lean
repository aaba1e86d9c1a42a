import AstraScheduler.GlobalClaims
import AstraScheduler.StealVictims
import AstraScheduler.Streaks

/-! # The worker loop

`run_worker_loop` of `src/runtime/worker_loop.cpp`, from the startup barrier to its end: the
three places where it claims from its own queue, the two where it claims from the global
queues, its thefts and its park.  `consecutive_local_count` is shared by all of them.

Between two steps of the worker any operation of the queues may happen, on any thread: what
`process_due_timers` publishes, what the other workers claim, and what a task does while the
loop executes it.  What the loop reads of the runtime besides its queues may take any value.
The mutexes, which keep others out of some of these places, are left out.

The record of a run holds the claims of the loop and the attempts that found every global
band empty.  A streak of claims from the own queue never passes the limit. -/

namespace AstraScheduler
namespace WorkerLoop

open LinkedReadyQueues QueueConservation
open GlobalClaims (BandEmpty)
open Streaks
open Transition (Machine)

/-- The options that the loop reads; `validate_options` rejects a limit of zero. -/
structure Options where
  workerCount : Nat
  localBurstLimit : UInt64
  localBurstLimit_pos : 0 < localBurstLimit
  stealProbeLimit : Nat

/-- What the loop reads of the runtime besides its queues. -/
structure Shared where
  startupDone : Bool := false
  startupFailed : Bool := false
  stopRequested : Bool := false
  status : SchedulerStatus := {}
  workEpoch : UInt64 := 0
  hasTimers : Bool := false
  deriving DecidableEq, Repr

structure LocalVariables where
  consecutiveLocalCount : UInt64 := 0
  localCalendarIndex : Nat := 0
  globalCalendarIndex : Nat := 0
  stealCalendarIndex : Nat := 0
  globalDeadlineBursts : Priority → Nat := fun _ => 0
  randomState : UInt64

/-- Where the worker is.  `parked` says whether it has come from the wait. -/
inductive LoopPc (I : Type) where
  /-- Waiting for the startup barrier. -/
  | startup
  | top
  /-- About to claim from the global queues, for the first time in this round. -/
  | globalClaim
  /-- The limit is reached and the global queues were empty. -/
  | retryLocal
  /-- About to choose victims. -/
  | sampling (parked : Bool)
  /-- `victims` have not been tried yet. -/
  | stealing (parked : Bool) (victims : List Nat)
  /-- Nothing found: about to read the epoch. -/
  | parking
  /-- About to lock the mutex and to look for the next timer. -/
  | epochRead (observedEpoch : UInt64)
  | waiting (observedEpoch : UInt64) (nextWake : Bool)
  /-- Behind the wait: about to claim from the global queues. -/
  | awake
  /-- Behind the wait, the global queues were empty. -/
  | awakeLocal
  /-- Behind the wait, nothing was found. -/
  | stopCheck
  /-- `found_task`. -/
  | found (task : QueuedTask I)
  /-- In `execute` or `cancel_pre_start`. -/
  | executing
  | exited
  deriving DecidableEq, Repr

/-- What the loop did, as far as it is recorded. -/
inductive LoopEvent (I : Type) where
  | claimed (source : ClaimSource) (task : QueuedTask I)
  /-- `claim_global` has found nothing in these queues. -/
  | globalEmpty (queues : LinkedReadyQueues I)
  | executed (task : QueuedTask I)
  | cancelledPreStart (task : QueuedTask I)

variable {I : Type}

def LoopEvent.isClaim : LoopEvent I → Bool
  | .claimed _ _ => true
  | .globalEmpty _ | .executed _ | .cancelledPreStart _ => false

/-- A claim from the worker's own queue. -/
def LoopEvent.isLocalClaim : LoopEvent I → Bool
  | .claimed .ownQueue _ => true
  | _ => false

/-- A claim from elsewhere, or an attempt that has found the global queues empty. -/
def LoopEvent.breaksBurst : LoopEvent I → Bool
  | .claimed .ownQueue _ | .executed _ | .cancelledPreStart _ => false
  | .claimed _ _ | .globalEmpty _ => true

namespace LoopEvent
variable {e : LoopEvent I}

theorem isClaim_of_local (h : e.isLocalClaim) : e.isClaim := by
  cases e with
  | claimed source task => rfl
  | globalEmpty queues | executed task | cancelledPreStart task => cases h

theorem not_local_of_breaksBurst (h : e.breaksBurst) : ¬ e.isLocalClaim := by
  intro hlocal
  cases e with
  | claimed source task =>
    cases source with
    | ownQueue => cases h
    | globalQueues | steal => cases hlocal
  | globalEmpty queues | executed task | cancelledPreStart task => cases hlocal

theorem breaksBurst_cases (h : e.breaksBurst) :
    (∃ queues, e = .globalEmpty queues) ∨ e.isClaim := by
  cases e with
  | claimed source task => exact .inr rfl
  | globalEmpty queues => exact .inl ⟨queues, rfl⟩
  | executed task | cancelledPreStart task => cases h

end LoopEvent

/-- The worker's state, and the runtime around it. -/
structure WorkerRun (I : Type) where
  run : QueueRun I
  shared : Shared := {}
  vars : LocalVariables
  pc : LoopPc I := .startup
  record : List (LoopEvent I) := []

/-- `random_state` in front of the loop. -/
def initialRandom (runtimeId : UInt64) (workerIndex : Nat) : UInt64 :=
  (runtimeId <<< 32) ^^^ UInt64.ofNat (workerIndex + 1) ^^^ 0x9E3779B97F4A7C15

/-! ## Looking at the queues -/

section Inspection
variable (rq : LinkedReadyQueues I)

def globalEmpty : Bool :=
  Priority.bands.all fun p => (rq.globalEdfHeaps p).isEmpty && (rq.globalFifoQueues p).head.isNone

/-- `LocalQueues::empty` of worker `w`. -/
def bandsEmpty (w : Nat) : Bool :=
  match rq.localBackend with
  | .chaseLevLockFree => Priority.bands.all fun p => ((rq.localQueues w).chaseLevBands p).isEmpty
  | .locked => Priority.bands.all fun p => ((rq.localQueues w).lockedBands p).isEmpty

def localEmpty (workerIndex : Nat) : Bool :=
  decide (rq.workerCount ≤ workerIndex) || bandsEmpty rq workerIndex

def anyLocalWork : Bool := (List.range rq.workerCount).any fun w => !bandsEmpty rq w

def anyQueuedWork : Bool := !globalEmpty rq || anyLocalWork rq

variable [TaskInvokerBase I]

def anyResumeWorkAfterImmediateCleanup : Bool :=
  (Priority.bands.any fun p => (rq.tasksAt (.fifo p)).any isResume) ||
    (Priority.bands.any fun p => (rq.globalEdfHeaps p).any fun entry => isResume entry.task) ||
    anyLocalWork rq

end Inspection

namespace WorkerRun

/-- The predicate the worker waits for. -/
def parkPredicate (s : WorkerRun I) (workerIndex : Nat) (observedEpoch : UInt64) : Bool :=
  if s.shared.stopRequested then
    s.shared.status.state = .stopped || s.shared.status.shutdownMode = .immediate ||
      anyQueuedWork s.run.queues || (s.run.queues.claimedCount = 0 && !s.shared.hasTimers)
  else
    s.shared.workEpoch != observedEpoch || anyQueuedWork s.run.queues ||
      !localEmpty s.run.queues workerIndex

/-- The loop is left behind a wait that has brought nothing. -/
def leaves [TaskInvokerBase I] (s : WorkerRun I) : Bool :=
  s.shared.stopRequested &&
    (if s.shared.status.state = .stopped then true
    else if s.shared.status.shutdownMode = .immediate then
      !anyResumeWorkAfterImmediateCleanup s.run.queues && s.run.queues.claimedCount = 0
    else
      !anyQueuedWork s.run.queues && s.run.queues.claimedCount = 0 && !s.shared.hasTimers)

/-! ## The steps of the worker -/

/-- A claim that has succeeded. -/
def find (s : WorkerRun I) (source : ClaimSource) (c : Claimed I) (vars : LocalVariables) :
    WorkerRun I :=
  { s with
    run := s.run.claim source (some c)
    vars := vars
    pc := .found c.out
    record := s.record ++ [.claimed source c.out] }

/-- `claim_local`; `missed` is where the loop goes on if there is nothing. -/
def claimLocal [DecidableEq I] (s : WorkerRun I) (workerIndex : Nat) (missed : LoopPc I) :
    WorkerRun I :=
  match s.run.queues.claimLocal workerIndex s.vars.localCalendarIndex with
  | some c => s.find .ownQueue c { s.vars with
      consecutiveLocalCount := s.vars.consecutiveLocalCount + 1
      localCalendarIndex := c.calendarIndex }
  | none => { s with pc := missed }

/-- `claim_global`; `vars` and `missed` are for the case that there is nothing. -/
def claimGlobal [DecidableEq I] (s : WorkerRun I) (vars : LocalVariables) (missed : LoopPc I) :
    WorkerRun I :=
  match s.run.queues.claimGlobal s.vars.globalCalendarIndex s.vars.globalDeadlineBursts with
  | some (c, bursts) => s.find .globalQueues c { s.vars with
      consecutiveLocalCount := 0
      globalCalendarIndex := c.calendarIndex
      globalDeadlineBursts := bursts }
  | none => { s with
      vars := vars
      pc := missed
      record := s.record ++ [.globalEmpty s.run.queues] }

/-- The theft from one victim. -/
def steal [DecidableEq I] (s : WorkerRun I) (victim : Nat) (contended : Priority → Bool)
    (missed : LoopPc I) : WorkerRun I :=
  match s.run.queues.steal victim s.vars.stealCalendarIndex contended with
  | some c => s.find .steal c { s.vars with
      consecutiveLocalCount := 0
      stealCalendarIndex := c.calendarIndex }
  | none => { s with pc := missed }

/-- `execute`, or `cancel_pre_start` of what an immediate shutdown finds unstarted. -/
def start [TaskInvokerBase I] (s : WorkerRun I) (task : QueuedTask I) : WorkerRun I :=
  { s with
    pc := .executing
    record := s.record ++
      [if s.shared.status.shutdownMode = .immediate ∧ isResume task = false then
        .cancelledPreStart task
      else .executed task] }

/-- The next step of the worker.  A thief loses the race for the bands in `contended`;
`timedOut` says that the wait has reached its deadline. -/
def step [DecidableEq I] [TaskInvokerBase I] (s : WorkerRun I) (options : Options)
    (workerIndex : Nat) (contended : Priority → Bool) (timedOut : Bool) : Option (WorkerRun I) :=
  match s.pc with
  | .startup =>
    if s.shared.startupFailed || (!s.shared.startupDone && s.shared.stopRequested) then
      some { s with pc := .exited }
    else if s.shared.startupDone then some { s with pc := .top }
    else none
  | .top =>
    if s.vars.consecutiveLocalCount < options.localBurstLimit then
      some (s.claimLocal workerIndex .globalClaim)
    else some { s with pc := .globalClaim }
  | .globalClaim =>
    if options.localBurstLimit ≤ s.vars.consecutiveLocalCount then
      some (s.claimGlobal { s.vars with consecutiveLocalCount := 0 } .retryLocal)
    else some (s.claimGlobal s.vars (.sampling false))
  | .retryLocal => some (s.claimLocal workerIndex (.sampling false))
  | .sampling parked =>
    (StealVictims.generateStealVictims workerIndex options.workerCount options.stealProbeLimit
      s.vars.randomState).map fun (victims, randomState) =>
        { s with vars := { s.vars with randomState := randomState }, pc := .stealing parked victims }
  | .stealing parked [] => some { s with pc := if parked then .stopCheck else .parking }
  | .stealing parked (victim :: victims) =>
    some (s.steal victim contended (.stealing parked victims))
  | .parking => some { s with pc := .epochRead s.shared.workEpoch }
  | .epochRead observedEpoch => some { s with pc := .waiting observedEpoch s.shared.hasTimers }
  | .waiting observedEpoch nextWake =>
    if s.parkPredicate workerIndex observedEpoch || (nextWake && timedOut) then
      some { s with pc := .awake }
    else none
  | .awake => some (s.claimGlobal s.vars .awakeLocal)
  | .awakeLocal => some (s.claimLocal workerIndex (.sampling true))
  | .stopCheck => some { s with pc := if s.leaves then .exited else .top }
  | .found task => some (s.start task)
  | .executing =>
    some { s with run := { s.run with queues := s.run.queues.completeClaim }, pc := .top }
  | .exited => none

end WorkerRun

inductive Label (I : Type) where
  | worker (contended : Priority → Bool) (timedOut : Bool)
  /-- An operation of the queues that is none of the loop's claims. -/
  | other (op : QueueOp I)
  | share (shared : Shared)

section Runs
variable [DecidableEq I] [TaskInvokerBase I]

def next (options : Options) (workerIndex : Nat) (s : WorkerRun I) : Label I → Option (WorkerRun I)
  | .worker contended timedOut => s.step options workerIndex contended timedOut
  | .other op => (s.run.next op).map fun run => { s with run := run }
  | .share shared => some { s with shared := shared }

/-- The runs of one worker's loop, whatever goes on around it. -/
def machine (options : Options) (runtimeId : UInt64) (workerIndex : Nat) :
    Machine (WorkerRun I) (Label I) where
  init s := QueueConservation.machine.init s.run ∧
    s = { run := s.run
          shared := s.shared
          vars := { randomState := initialRandom runtimeId workerIndex } }
  next := next options workerIndex

/-! ## Streaks of claims from the own queue -/

/-- From here the loop may claim from the own queue without another look at the limit. -/
def LoopPc.belowLimit : LoopPc I → Bool
  | .retryLocal | .sampling _ | .stealing _ _ | .parking | .epochRead _ | .waiting _ _ | .awake
  | .awakeLocal => true
  | .startup | .top | .globalClaim | .stopCheck | .found _ | .executing | .exited => false

/-- `consecutive_local_count` covers the streak, and stays within the limit. -/
structure Inv (options : Options) (s : WorkerRun I) : Prop where
  accounted : Accounted s.run
  count_le : s.vars.consecutiveLocalCount ≤ options.localBurstLimit
  below : s.pc.belowLimit → s.vars.consecutiveLocalCount < options.localBurstLimit
  streak_le : streak LoopEvent.isLocalClaim LoopEvent.breaksBurst s.record ≤
    s.vars.consecutiveLocalCount.toNat
  bounded : Bounded LoopEvent.isLocalClaim LoopEvent.breaksBurst options.localBurstLimit.toNat
    s.record
  emptied : ∀ queues, .globalEmpty queues ∈ s.record → ∀ p, BandEmpty queues p

variable {options : Options} {runtimeId : UInt64} {workerIndex : Nat} {s s' : WorkerRun I}

namespace Inv

theorem init (h : (machine options runtimeId workerIndex).init s) : Inv options s := by
  obtain ⟨hrun, hs⟩ := h
  rw [hs]
  refine ⟨Accounted.init hrun, UInt64.zero_le, ?_, Nat.zero_le _, Bounded.nil, ?_⟩
  · exact fun hpc => by cases hpc
  · exact fun queues hq => by cases hq

/-- A step that claims and records nothing. -/
theorem moveTo (h : Inv options s) {pc : LoopPc I}
    (hpc : pc.belowLimit → s.vars.consecutiveLocalCount < options.localBurstLimit) :
    Inv options { s with pc := pc } :=
  ⟨h.accounted, h.count_le, hpc, h.streak_le, h.bounded, h.emptied⟩

/-- A step that records an event, whose count covers the streak behind it. -/
theorem append (h : Inv options s) {e : LoopEvent I} (hrecord : s'.record = s.record ++ [e])
    (haccounted : Accounted s'.run)
    (hcount : s'.vars.consecutiveLocalCount ≤ options.localBurstLimit)
    (hbelow : s'.pc.belowLimit → s'.vars.consecutiveLocalCount < options.localBurstLimit)
    (hstreak : extend LoopEvent.isLocalClaim LoopEvent.breaksBurst
        (streak LoopEvent.isLocalClaim LoopEvent.breaksBurst s.record) e ≤
      s'.vars.consecutiveLocalCount.toNat)
    (hempty : ∀ queues, e = .globalEmpty queues → ∀ p, BandEmpty queues p) : Inv options s' := by
  have hle := UInt64.le_iff_toNat_le.mp hcount
  refine ⟨haccounted, hcount, hbelow, ?_, ?_, ?_⟩
  · rw [hrecord, streak_concat]
    exact hstreak
  · rw [hrecord]
    apply h.bounded.concat
    rw [streak_concat]
    omega
  · intro queues hq
    rw [hrecord] at hq
    rcases List.mem_append.mp hq with hq | hq
    · exact h.emptied queues hq
    · exact hempty queues (List.mem_singleton.mp hq).symm

/-- A claim below the limit counts one more. -/
theorem claimLocal (h : Inv options s)
    (hbelow : s.vars.consecutiveLocalCount < options.localBurstLimit) (workerIndex : Nat)
    (missed : LoopPc I) : Inv options (s.claimLocal workerIndex missed) := by
  unfold WorkerRun.claimLocal
  have haccounted : Accounted (s.run.claim .ownQueue
      (s.run.queues.claimLocal workerIndex s.vars.localCalendarIndex)) :=
    h.accounted.claimFrom (by decide) ..
  cases hc : s.run.queues.claimLocal workerIndex s.vars.localCalendarIndex with
  | none => exact h.moveTo fun _ => hbelow
  | some c =>
    rw [hc] at haccounted
    have hlt := UInt64.lt_iff_toNat_lt.mp hbelow
    have hlimit := options.localBurstLimit.toNat_lt
    have hcount : (s.vars.consecutiveLocalCount + 1).toNat =
        s.vars.consecutiveLocalCount.toNat + 1 := by
      rw [UInt64.toNat_add]
      exact Nat.mod_eq_of_lt (by change _ + 1 < _; omega)
    refine h.append (e := .claimed .ownQueue c.out) rfl haccounted ?_ ?_ ?_ ?_
    · apply UInt64.le_iff_toNat_le.mpr
      change (s.vars.consecutiveLocalCount + 1).toNat ≤ _
      omega
    · exact fun hpc => by cases hpc
    · change _ + 1 ≤ (s.vars.consecutiveLocalCount + 1).toNat
      have hstreak := h.streak_le
      omega
    · exact fun queues he => by cases he

/-- A claim from elsewhere starts again from zero. -/
theorem foreign (h : Inv options s) {source : ClaimSource} {c : Claimed I} {vars : LocalVariables}
    (hsource : source ≠ .ownQueue) (haccounted : Accounted (s.run.claim source (some c)))
    (hzero : vars.consecutiveLocalCount = 0) : Inv options (s.find source c vars) := by
  have hbreaks : (LoopEvent.claimed source c.out).breaksBurst := by
    cases source with
    | ownQueue => exact absurd rfl hsource
    | globalQueues => rfl
    | steal => rfl
  refine h.append (e := .claimed source c.out) rfl haccounted ?_ ?_ ?_ ?_
  · change vars.consecutiveLocalCount ≤ _
    rw [hzero]
    exact UInt64.zero_le
  · exact fun hpc => by cases hpc
  · rw [extend, if_pos hbreaks]
    exact Nat.zero_le _
  · exact fun queues he => by cases he

/-- An attempt at the global queues that fails has found every band empty. -/
theorem claimGlobal (h : Inv options s) {vars : LocalVariables} {missed : LoopPc I}
    (hcount : vars.consecutiveLocalCount < options.localBurstLimit) :
    Inv options (s.claimGlobal vars missed) := by
  unfold WorkerRun.claimGlobal
  have haccounted := h.accounted.claimGlobal s.vars.globalCalendarIndex s.vars.globalDeadlineBursts
  cases hc : s.run.queues.claimGlobal s.vars.globalCalendarIndex s.vars.globalDeadlineBursts with
  | none =>
    refine h.append (e := .globalEmpty s.run.queues) rfl h.accounted ?_ ?_ ?_ ?_
    · exact UInt64.le_of_lt hcount
    · exact fun _ => hcount
    · exact Nat.zero_le _
    · intro queues he
      obtain rfl := LoopEvent.globalEmpty.inj he
      exact (GlobalClaims.claimGlobal_eq_none h.accounted.wellLinked _ _).mp hc
  | some claimed =>
    rw [hc] at haccounted
    exact h.foreign (by decide) haccounted rfl

theorem steal (h : Inv options s) (victim : Nat) (contended : Priority → Bool)
    {missed : LoopPc I}
    (hmissed : missed.belowLimit → s.vars.consecutiveLocalCount < options.localBurstLimit) :
    Inv options (s.steal victim contended missed) := by
  unfold WorkerRun.steal
  have haccounted : Accounted (s.run.claim .steal
      (s.run.queues.steal victim s.vars.stealCalendarIndex contended)) :=
    h.accounted.claimFrom (by decide) ..
  cases hc : s.run.queues.steal victim s.vars.stealCalendarIndex contended with
  | none => exact h.moveTo hmissed
  | some c =>
    rw [hc] at haccounted
    exact h.foreign (by decide) haccounted rfl

theorem start (h : Inv options s) (task : QueuedTask I) : Inv options (s.start task) := by
  unfold WorkerRun.start
  have hneutral : ∀ e : LoopEvent I, e.isLocalClaim = false → e.breaksBurst = false →
      (∀ queues, e ≠ .globalEmpty queues) →
      Inv options { s with pc := .executing, record := s.record ++ [e] } := by
    intro e hlocal hbreaks hne
    refine h.append (e := e) rfl h.accounted h.count_le ?_ ?_ ?_
    · exact fun hpc => by cases hpc
    · rw [extend, hbreaks, hlocal]
      exact h.streak_le
    · exact fun queues he => absurd he (hne queues)
  split
  · exact hneutral _ rfl rfl fun queues he => by cases he
  · exact hneutral _ rfl rfl fun queues he => by cases he

/-- Every step of the worker keeps the invariant. -/
theorem step (h : Inv options s) {contended : Priority → Bool} {timedOut : Bool}
    (hs : s.step options workerIndex contended timedOut = some s') : Inv options s' := by
  unfold WorkerRun.step at hs
  cases hpc : s.pc with
  | startup =>
    simp only [hpc] at hs
    split at hs
    · cases hs
      exact h.moveTo fun hbelow => by cases hbelow
    · split at hs
      · cases hs
        exact h.moveTo fun hbelow => by cases hbelow
      · cases hs
  | top =>
    simp only [hpc] at hs
    split at hs
    · rename_i hlt
      cases hs
      exact h.claimLocal hlt ..
    · cases hs
      exact h.moveTo fun hbelow => by cases hbelow
  | globalClaim =>
    simp only [hpc] at hs
    split at hs
    · cases hs
      -- the count is set back before the own queue is tried again
      exact h.claimGlobal options.localBurstLimit_pos
    · rename_i hlt
      cases hs
      exact h.claimGlobal (UInt64.not_le.mp hlt)
  | retryLocal =>
    simp only [hpc, Option.some.injEq] at hs
    subst hs
    exact h.claimLocal (h.below (by rw [hpc]; rfl)) ..
  | sampling parked =>
    simp only [hpc, Option.map_eq_some_iff] at hs
    obtain ⟨⟨victims, randomState⟩, -, rfl⟩ := hs
    have hbelow := h.below (by rw [hpc]; rfl)
    exact ⟨h.accounted, h.count_le, fun _ => hbelow, h.streak_le, h.bounded, h.emptied⟩
  | stealing parked victims =>
    have hbelow := h.below (by rw [hpc]; rfl)
    cases victims with
    | nil =>
      simp only [hpc, Option.some.injEq] at hs
      subst hs
      exact h.moveTo fun _ => hbelow
    | cons victim victims =>
      simp only [hpc, Option.some.injEq] at hs
      subst hs
      exact h.steal _ _ fun _ => hbelow
  | parking =>
    simp only [hpc, Option.some.injEq] at hs
    subst hs
    exact h.moveTo fun _ => h.below (by rw [hpc]; rfl)
  | epochRead observedEpoch =>
    simp only [hpc, Option.some.injEq] at hs
    subst hs
    exact h.moveTo fun _ => h.below (by rw [hpc]; rfl)
  | waiting observedEpoch nextWake =>
    simp only [hpc] at hs
    split at hs
    · cases hs
      exact h.moveTo fun _ => h.below (by rw [hpc]; rfl)
    · cases hs
  | awake =>
    simp only [hpc, Option.some.injEq] at hs
    subst hs
    exact h.claimGlobal (h.below (by rw [hpc]; rfl))
  | awakeLocal =>
    simp only [hpc, Option.some.injEq] at hs
    subst hs
    exact h.claimLocal (h.below (by rw [hpc]; rfl)) ..
  | stopCheck =>
    simp only [hpc, Option.some.injEq] at hs
    subst hs
    apply h.moveTo
    split <;> exact fun hbelow => by cases hbelow
  | found task =>
    simp only [hpc, Option.some.injEq] at hs
    subst hs
    exact h.start task
  | executing =>
    simp only [hpc, Option.some.injEq] at hs
    subst hs
    have haccounted : Accounted { s.run with queues := s.run.queues.completeClaim } :=
      h.accounted.step
        (show QueueConservation.machine.next s.run .completeClaim = some _ from rfl)
    refine ⟨haccounted, h.count_le, ?_, h.streak_le, h.bounded, h.emptied⟩
    exact fun hbelow => by cases hbelow
  | exited =>
    simp only [hpc] at hs
    cases hs

theorem next (h : Inv options s) {a : Label I}
    (hs : (machine options runtimeId workerIndex).next s a = some s') : Inv options s' := by
  simp only [machine] at hs
  cases a with
  | worker contended timedOut => exact h.step hs
  | other op =>
    obtain ⟨run, hrun, rfl⟩ := Option.map_eq_some_iff.mp hs
    exact ⟨h.accounted.step hrun, h.count_le, h.below, h.streak_le, h.bounded, h.emptied⟩
  | share shared =>
    obtain rfl := Option.some.inj hs
    exact ⟨h.accounted, h.count_le, h.below, h.streak_le, h.bounded, h.emptied⟩

end Inv

/-! ## Bounded bursts -/

/-- The worker looks at the global queues in time. -/
structure BurstsBounded (limit : UInt64) (s : WorkerRun I) : Prop where
  count : s.vars.consecutiveLocalCount ≤ limit
  /-- Among `limit + 1` successive claims that are all from the own queue there is, between the
  first and the last, an attempt that has found every global band empty. -/
  attempted : ∀ before first between last after,
    s.record = before ++ first :: (between ++ last :: after) →
    first.isLocalClaim → last.isLocalClaim →
    (∀ e ∈ between, e.isClaim → e.isLocalClaim) →
    between.countP LoopEvent.isClaim + 1 = limit.toNat →
    ∃ queues, LoopEvent.globalEmpty queues ∈ between ∧ ∀ p, BandEmpty queues p

/-- In every state that a worker reaches, whatever goes on around it. -/
theorem burstsBounded_of_reachable
    (h : (machine options runtimeId workerIndex).Reachable s) :
    BurstsBounded options.localBurstLimit s := by
  have hinv : Inv options s :=
    h.invariant (Inv options) (fun _ hs => Inv.init hs) fun _ _ _ hs _ hn => hs.next hn
  refine ⟨hinv.count_le, ?_⟩
  intro before first between last after hrecord hfirst hlast hbetween hcount
  have hclaims : between.countP LoopEvent.isLocalClaim = between.countP LoopEvent.isClaim :=
    List.countP_congr fun e he => ⟨LoopEvent.isClaim_of_local, hbetween e he⟩
  have hmany : options.localBurstLimit.toNat <
      (first :: (between ++ [last])).countP LoopEvent.isLocalClaim := by
    rw [List.countP_cons_of_pos hfirst, List.countP_append, List.countP_singleton, if_pos hlast]
    omega
  have hsegment : s.record = before ++ first :: (between ++ [last]) ++ after := by
    rw [hrecord]
    simp
  have hbounded := hinv.bounded
  rw [hsegment] at hbounded
  obtain ⟨e, he, hbreak⟩ := hbounded.exists_break hmany
  have hforeign := LoopEvent.not_local_of_breaksBurst hbreak
  have hmem : e ∈ between := by
    rcases List.mem_cons.mp he with rfl | he
    · exact absurd hfirst hforeign
    · rcases List.mem_append.mp he with he | he
      · exact he
      · rw [List.mem_singleton.mp he] at hforeign
        exact absurd hlast hforeign
  -- all claims of the segment are from the own queue, so it is no claim that breaks the streak
  obtain ⟨queues, rfl⟩ := (LoopEvent.breaksBurst_cases hbreak).resolve_right
    fun hclaim => hforeign (hbetween e hmem hclaim)
  refine ⟨queues, hmem, hinv.emptied queues ?_⟩
  rw [hrecord]
  simp [hmem]

end Runs

/-- A worker on its own, which has to look at the global queues after each local claim. -/
def loneWorker : Options where
  workerCount := 1
  localBurstLimit := 1
  localBurstLimit_pos := by decide
  stealProbeLimit := 8

/-- It claims one task, reaches the limit, finds nothing anywhere and parks; a task that is
published for it wakes it. -/
def parkAtLimit : List (Label Invoker) :=
  let worker := Label.worker (fun _ => false) false
  [Label.share { startupDone := true },
    Label.other (.publish ⟨1, false, .normal, none⟩ false true 0)] ++
    List.replicate 11 worker ++
    [Label.other (.publish ⟨2, false, .high, none⟩ false true 0)] ++ List.replicate 3 worker

def loneStart : WorkerRun Invoker where
  run := { queues := { localBackend := .chaseLevLockFree, workerCount := 1 } }
  vars := { randomState := initialRandom 1 0 }

theorem burstsBounded_parkAtLimit :
    ∃ s, (machine loneWorker 1 0).run loneStart parkAtLimit = some s ∧
      s.record.map LoopEvent.isLocalClaim = [true, false, false, false, true] ∧
      s.vars.consecutiveLocalCount = 1 ∧ BurstsBounded 1 s := by
  obtain ⟨s, hs⟩ := Option.isSome_iff_exists.mp
    (show ((machine loneWorker 1 0).run loneStart parkAtLimit).isSome by decide)
  have hrecord : ((machine loneWorker 1 0).run loneStart parkAtLimit).map
      (fun s => (s.record.map LoopEvent.isLocalClaim, s.vars.consecutiveLocalCount)) =
      some ([true, false, false, false, true], 1) := by decide
  rw [hs] at hrecord
  obtain ⟨hrecord, hcount⟩ := Prod.mk.inj (Option.some.inj hrecord)
  have hinit : (machine loneWorker 1 0).init loneStart := ⟨⟨_, _, rfl⟩, rfl⟩
  exact ⟨s, hs, hrecord, hcount, burstsBounded_of_reachable (Machine.reachable_of_run hinit hs)⟩

end WorkerLoop
end AstraScheduler
