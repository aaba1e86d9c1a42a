import AstraScheduler.Custody
import AstraScheduler.MetricsMerge
import AstraScheduler.WorkerLoop

/-! # The workers of a runtime

All workers of a runtime together.  Each runs the loop of `WorkerLoop`; the code of an invoker
that it executes may wait for a task or for a graph run, which puts `perform_helping_loop` on
top of its stack, and what that executes may wait in its turn.  Nobody else claims from the
queues, and anybody may publish or sweep.

A worker updates `claimed_count_`, the metrics and `parked_workers` in steps of their own: what
it has yet to count is kept in the order of the code.  A counter is the sum of what was added
to it, which is what it shows until it is saturated. -/

namespace AstraScheduler
namespace WorkerPool

open LinkedReadyQueues QueueConservation
open MetricsMerge (ShardCounter)
open Transition (Machine)
open WorkerLoop (LocalVariables LoopEvent LoopPc Shared WorkerRun)

/-- What a worker waits for.  Each kind of wait has variables of its own. -/
inductive WaitKind where
  | task
  | graphRun
  deriving DecidableEq, Repr

/-- The `thread_local` variables that all helping loops of a kind on one thread share. -/
structure HelpVariables where
  localCalendar : Nat := 0
  globalCalendar : Nat := 0
  stealCalendar : Nat := 0
  deadlineBursts : Priority → Nat := fun _ => 0
  random : UInt64 := 0x854329415849

/-- Where a helping loop is. -/
inductive HelpPc (I : Type) where
  /-- About to look at the target and at the deadline. -/
  | top
  | claimLocal
  | claimGlobal
  | sampling
  /-- `victims` have not been tried yet. -/
  | stealing (victims : List Nat)
  | found (task : QueuedTask I)
  | executing (task : QueuedTask I)
  /-- In `wait_for_target`. -/
  | blocked
  deriving DecidableEq, Repr

structure Helping (I : Type) where
  kind : WaitKind
  pc : HelpPc I := .top
  deriving DecidableEq, Repr

/-- An update that a worker has yet to make. -/
inductive Entry where
  /-- Of `claimed_count_`. -/
  | claimed
  | counter (c : ShardCounter)
  /-- A record of `worker_park_duration`. -/
  | parkDuration
  /-- `parked_workers` goes up, or down. -/
  | parked
  | unparked
  deriving DecidableEq, Repr

structure Options extends WorkerLoop.Options where
  maxHelpingDepth : Nat
  metricsLevel : MetricsLevel

/-- The updates that are made at the level of the metrics. -/
def Options.recorded (o : Options) : Entry → Bool
  | .claimed | .parked | .unparked => true
  | .counter _ => o.metricsLevel ≠ .off
  | .parkDuration => o.metricsLevel = .detailed

/-- A worker: its loop, with `task` while it is in the invoker and whether it cancels it; the
waits on top of it, the innermost first; and what it has yet to count. -/
structure Worker (I : Type) where
  loop : LoopPc I := .startup
  vars : LocalVariables
  task : Option (QueuedTask I × Bool) := none
  helps : List (Helping I) := []
  helpVars : WaitKind → HelpVariables := fun _ => {}
  owes : List Entry := []

/-- The queues with their record, and the workers.  `executed` are the invokers that were
executed to their end, `cancelled` those that a loop has cancelled. -/
structure Pool (I : Type) where
  run : QueueRun I
  shared : Shared := {}
  workers : List (Worker I) := []
  executed : List I := []
  cancelled : List I := []
  counts : ShardCounter → Nat := fun _ => 0
  parkDurations : Nat := 0
  parkedWorkers : Nat := 0

/-! ## What the steps count -/

def claimCounter : ClaimSource → ShardCounter
  | .ownQueue => .localClaims
  | .globalQueues => .globalClaims
  | .steal => .stealSuccesses

def Entry.ofPark : Entry → Bool
  | .parkDuration | .parked | .unparked | .counter .workerParks | .counter .workerWakes => true
  | _ => false

def claimEntries (source : ClaimSource) : List Entry := [.claimed, .counter (claimCounter source)]

/-- In front of the next victim. -/
def probe (victims : List Nat) : List Entry :=
  if victims = [] then [] else [.counter .stealAttempts]

section
variable {I : Type}

def eventEntries : LoopEvent I → List Entry
  | .claimed source _ => claimEntries source
  | .globalEmpty _ | .executed _ | .cancelledPreStart _ => []

/-- A victim had nothing. -/
def missedTheft : LoopPc I → LoopPc I → List Entry
  | .stealing _ (_ :: _), .stealing _ _ => [.counter .stealFailures]
  | _, _ => []

/-- What the loop counts on its way to the next step. -/
def entered : LoopPc I → List Entry
  | .stealing _ victims => probe victims
  | .parking => [.parked]
  | .waiting _ _ => [.counter .workerParks]
  | .awake => [.counter .workerWakes, .parkDuration, .unparked]
  | _ => []

/-- What a step of the loop has left to count. -/
def owed (before : LoopPc I) (after : WorkerRun I) : List Entry :=
  after.record.flatMap eventEntries ++ missedTheft before after.pc ++ entered after.pc

/-- The task whose invoker a step of the loop has begun, and whether it cancels it. -/
def begun : List (LoopEvent I) → Option (QueuedTask I × Bool)
  | [.executed task] => some (task, false)
  | [.cancelledPreStart task] => some (task, true)
  | _ => none

namespace Worker
variable (w : Worker I)

/-- The invoker with which the loop is done, if it was executed or else cancelled. -/
def finished (cancelled : Bool) : List I :=
  match w.loop, w.task with
  | .executing, some (task, c) => if c = cancelled then [task.invoker] else []
  | _, _ => []

/-- Code of an invoker is running that may wait. -/
def inCode : Bool :=
  match w.helps with
  | [] =>
    match w.loop, w.task with
    | .executing, some (_, cancels) => !cancels
    | _, _ => false
  | h :: _ =>
    match h.pc with
    | .executing _ => true
    | _ => false

end Worker

/-! ## The steps -/

/-- `claimed_count_` is set. -/
def recount (r : QueueRun I) (count : Nat) : QueueRun I :=
  { r with queues := { r.queues with claimedCount := count } }

namespace Pool
variable [DecidableEq I] [TaskInvokerBase I] (s : Pool I) (o : Options)

/-- The next step of the loop of worker `i`. -/
def loopStep (i : Nat) (contended : Priority → Bool) (timedOut : Bool) (w : Worker I) :
    Option (Pool I) :=
  (WorkerRun.step { run := s.run, shared := s.shared, vars := w.vars, pc := w.loop }
    o.toOptions i contended timedOut).map fun after =>
      { s with
        run := if after.record.any LoopEvent.isClaim then
            recount after.run s.run.queues.claimedCount
          else after.run
        executed := s.executed ++ w.finished false
        cancelled := s.cancelled ++ w.finished true
        workers := s.workers.set i
          { w with
            loop := after.pc
            vars := after.vars
            task := begun after.record
            owes := (owed w.loop after).filter o.recorded } }

/-- The innermost wait `h` of worker `i` goes on; `rest` are the others. -/
def advance (i : Nat) (w : Worker I) (h : Helping I) (rest : List (Helping I)) (pc : HelpPc I)
    (vars : HelpVariables) (entries : List Entry) : Pool I :=
  { s with
    workers := s.workers.set i
      { w with
        helps := { h with pc := pc } :: rest
        helpVars := Function.update w.helpVars h.kind vars
        owes := entries.filter o.recorded } }

/-- A claim of a helping loop that has succeeded. -/
def found (i : Nat) (w : Worker I) (h : Helping I) (rest : List (Helping I))
    (source : ClaimSource) (c : Claimed I) (vars : HelpVariables) : Pool I :=
  { s.advance o i w h rest (.found c.out) vars (claimEntries source) with
    run := recount (s.run.claim source (some c)) s.run.queues.claimedCount }

/-- The next step of a helping loop.  It executes whatever it has claimed, but claims nothing
from the global queues in immediate mode. -/
def helpStep (i : Nat) (contended : Priority → Bool) (w : Worker I) (h : Helping I)
    (rest : List (Helping I)) : Option (Pool I) :=
  let vars := w.helpVars h.kind
  match h.pc with
  | .top => some (s.advance o i w h rest .claimLocal vars [])
  | .claimLocal =>
    match s.run.queues.claimLocal i vars.localCalendar with
    | some c =>
      some (s.found o i w h rest .ownQueue c { vars with localCalendar := c.calendarIndex })
    | none => some (s.advance o i w h rest .claimGlobal vars [])
  | .claimGlobal =>
    if s.shared.status.state = .stopped ∨ s.shared.status.shutdownMode = .immediate then
      some (s.advance o i w h rest .sampling vars [])
    else
      match s.run.queues.claimGlobal vars.globalCalendar vars.deadlineBursts with
      | some (c, bursts) =>
        some (s.found o i w h rest .globalQueues c { vars with
          globalCalendar := c.calendarIndex
          deadlineBursts := bursts })
      | none => some (s.advance o i w h rest .sampling vars [])
  | .sampling =>
    (StealVictims.generateStealVictims i o.workerCount o.stealProbeLimit vars.random).map
      fun (victims, random) =>
        s.advance o i w h rest (.stealing victims) { vars with random := random } (probe victims)
  | .stealing [] => some (s.advance o i w h rest .blocked vars [])
  | .stealing (victim :: victims) =>
    match s.run.queues.steal victim vars.stealCalendar contended with
    | some c => some (s.found o i w h rest .steal c { vars with stealCalendar := c.calendarIndex })
    | none =>
      some (s.advance o i w h rest (.stealing victims) vars
        (.counter .stealFailures :: probe victims))
  | .found task => some (s.advance o i w h rest (.executing task) vars [])
  | .executing task =>
    some { s.advance o i w h rest .top vars [] with
      run := { s.run with queues := s.run.queues.completeClaim }
      executed := s.executed ++ [task.invoker] }
  | .blocked => some (s.advance o i w h rest .top vars [])

/-- A worker goes on once it has counted what it did. -/
def workerStep (i : Nat) (contended : Priority → Bool) (timedOut : Bool) (w : Worker I) :
    Option (Pool I) :=
  if w.owes = [] then
    match w.helps with
    | [] => s.loopStep o i contended timedOut w
    | h :: rest => s.helpStep o i contended w h rest
  else none

/-- The code that worker `i` executes waits; beyond the largest depth that throws. -/
def wait (i : Nat) (kind : WaitKind) (w : Worker I) : Option (Pool I) :=
  if w.inCode ∧ w.owes = [] then
    if o.maxHelpingDepth ≤ w.helps.length then some s
    else some { s with
      workers := s.workers.set i { w with helps := { kind := kind } :: w.helps } }
  else none

/-- The target is complete, or the deadline has passed. -/
def leave (i : Nat) (w : Worker I) : Option (Pool I) :=
  match w.helps, w.owes with
  | { kind := _, pc := .top } :: rest, [] =>
    some { s with workers := s.workers.set i { w with helps := rest } }
  | _, _ => none

/-- One update. -/
def pay : Entry → Pool I
  | .claimed => { s with run := recount s.run (s.run.queues.claimedCount + 1) }
  | .counter c => { s with counts := Function.update s.counts c (s.counts c + 1) }
  | .parkDuration => { s with parkDurations := s.parkDurations + 1 }
  | .parked => { s with parkedWorkers := s.parkedWorkers + 1 }
  | .unparked => { s with parkedWorkers := s.parkedWorkers - 1 }

def count (i : Nat) (w : Worker I) : Option (Pool I) :=
  match w.owes with
  | [] => none
  | e :: owes => some { s.pay e with workers := s.workers.set i { w with owes := owes } }

end Pool

/-- The operations of the queues that are left to workers. -/
def ofWorkers : QueueOp I → Bool
  | .claimLocal _ _ | .claimGlobal _ _ | .steal _ _ _ | .completeClaim => true
  | .publish _ _ _ _ | .cancelUnstarted | .ringRoom _ _ _ => false

inductive Label (I : Type) where
  | worker (i : Nat) (contended : Priority → Bool) (timedOut : Bool)
  /-- Worker `i` makes the next of its updates. -/
  | count (i : Nat)
  | wait (i : Nat) (kind : WaitKind)
  | leave (i : Nat)
  /-- A publication, a sweep, or a ring that gets or loses room. -/
  | queues (op : QueueOp I)
  | share (shared : Shared)

section Machine
variable [DecidableEq I] [TaskInvokerBase I]

def next (o : Options) (s : Pool I) : Label I → Option (Pool I)
  | .worker i contended timedOut => s.workers[i]?.bind (s.workerStep o i contended timedOut)
  | .count i => s.workers[i]?.bind (s.count i)
  | .wait i kind => s.workers[i]?.bind (s.wait o i kind)
  | .leave i => s.workers[i]?.bind (s.leave i)
  | .queues op =>
    if ofWorkers op then none else (s.run.next op).map fun run => { s with run := run }
  | .share shared => some { s with shared := shared }

/-- The workers in front of the startup barrier. -/
def started (o : Options) (runtimeId : UInt64) (backend : LocalDequeBackend) : Pool I where
  run := { queues := { localBackend := backend, workerCount := o.workerCount } }
  workers := (List.range o.workerCount).map fun i =>
    { vars := { randomState := WorkerLoop.initialRandom runtimeId i } }

def machine (o : Options) (runtimeId : UInt64) : Machine (Pool I) (Label I) where
  init s := ∃ backend, s = started o runtimeId backend
  next := next o

end Machine

/-! ## What the workers hold -/

def Helping.hand (h : Helping I) : List (QueuedTask I) :=
  match h.pc with
  | .found task | .executing task => [task]
  | _ => []

namespace Worker
variable (w : Worker I)

def loopHand : List (QueuedTask I) :=
  match w.loop with
  | .found task => [task]
  | .executing => (w.task.map (·.1)).toList
  | _ => []

/-- The tasks that the worker has claimed and is not done with. -/
def hands : List (QueuedTask I) := w.helps.flatMap Helping.hand ++ w.loopHand

def invokers : List I := w.hands.map (·.invoker)

end Worker

/-! ## What a step of a loop does -/

/-- The loop holds a task there. -/
def holds : LoopPc I → Bool
  | .found _ | .executing => true
  | _ => false

/-- It has counted an attempt, and its outcome is open. -/
def probesAt : LoopPc I → Nat
  | .stealing _ (_ :: _) => 1
  | _ => 0

def waitsAt : LoopPc I → Nat
  | .waiting _ _ => 1
  | _ => 0

/-- Between the two updates of `parked_workers`. -/
def parkedAt : LoopPc I → Nat
  | .parking | .epochRead _ | .waiting _ _ => 1
  | _ => 0

/-- What is left of attempts, parks and entries is of what the worker is at. -/
structure Outstanding (es : List Entry) (thefts parks parked : Nat) : Prop where
  thefts : es.count (.counter .stealAttempts) ≤ thefts
  parks : es.count (.counter .workerParks) ≤ parks
  parked : es.count .parked ≤ parked

/-- What a step counts goes with where it leads. -/
structure Even (before after : LoopPc I) (es : List Entry) : Prop where
  thefts : es.count (.counter .stealAttempts) + probesAt before =
    es.count (.counter .stealSuccesses) + es.count (.counter .stealFailures) + probesAt after
  parks : es.count (.counter .workerParks) + waitsAt before =
    es.count (.counter .workerWakes) + waitsAt after
  durations : es.count .parkDuration = es.count (.counter .workerWakes)
  parked : es.count .parked + parkedAt before = es.count .unparked + parkedAt after
  outstanding : Outstanding es (probesAt after) (waitsAt after) (parkedAt after)

/-- A place in the loop that has nothing to do with thefts or the park. -/
structure Calm (pc : LoopPc I) : Prop where
  free : holds pc = false
  probes : probesAt pc = 0
  waits : waitsAt pc = 0
  parked : parkedAt pc = 0

/-- Such a place to which the loop comes without anything to count. -/
structure Quiet (pc : LoopPc I) : Prop extends Calm pc where
  enters : entered pc = []
  notStealing : ∀ parked victims, pc ≠ .stealing parked victims

inductive LoopEffect [DecidableEq I] [TaskInvokerBase I] (before after : WorkerRun I) : Prop
  | claimed (source : ClaimSource) (c : Claimed I) (hplace : holds before.pc = false)
      (hpc : after.pc = .found c.out) (hrecord : after.record = [.claimed source c.out])
      (hrun : after.run = before.run.claim source (some c)) (haccounted : Accounted after.run)
  | moved (hplace : holds before.pc = false) (hpc : holds after.pc = false)
      (hrecord : after.record = [] ∨ ∃ queues, after.record = [.globalEmpty queues])
      (hrun : after.run = before.run)
  | started (task : QueuedTask I) (cancels : Bool) (hplace : before.pc = .found task)
      (hpc : after.pc = .executing)
      (hrecord : after.record = [if cancels then .cancelledPreStart task else .executed task])
      (hcancels : cancels = true → isResume task = false) (hrun : after.run = before.run)
  | completed (hplace : before.pc = .executing) (hpc : after.pc = .top)
      (hrecord : after.record = [])
      (hrun : after.run = { before.run with queues := before.run.queues.completeClaim })

section
variable {pc pc' missing : LoopPc I}

theorem Outstanding.nil {thefts parks parked : Nat} : Outstanding [] thefts parks parked :=
  ⟨Nat.zero_le _, Nat.zero_le _, Nat.zero_le _⟩

theorem Outstanding.sublist {es es' : List Entry} {thefts parks parked : Nat}
    (h : Outstanding es thefts parks parked) (hes : List.Sublist es' es) :
    Outstanding es' thefts parks parked :=
  ⟨(hes.count_le _).trans h.thefts, (hes.count_le _).trans h.parks,
    (hes.count_le _).trans h.parked⟩

theorem Even.still (hbefore : Calm pc) (hafter : Calm pc') : Even pc pc' [] where
  thefts := by rw [hbefore.probes, hafter.probes]; rfl
  parks := by rw [hbefore.waits, hafter.waits]; rfl
  durations := rfl
  parked := by rw [hbefore.parked, hafter.parked]; rfl
  outstanding := .nil

theorem Even.claim (hbefore : Calm pc) {source : ClaimSource} (hsource : source ≠ .steal)
    (task : QueuedTask I) : Even pc (.found task) (claimEntries source) := by
  cases source with
  | ownQueue | globalQueues =>
    exact ⟨by rw [hbefore.probes]; rfl, by rw [hbefore.waits]; rfl, rfl,
      by rw [hbefore.parked]; rfl, ⟨Nat.zero_le _, Nat.zero_le _, Nat.zero_le _⟩⟩
  | steal => exact absurd rfl hsource

variable [DecidableEq I] [TaskInvokerBase I] {before after : WorkerRun I}

omit [DecidableEq I] [TaskInvokerBase I] in
theorem missedTheft_eq_nil (h : ∀ parked victims, pc' ≠ .stealing parked victims) :
    missedTheft pc pc' = [] := by
  unfold missedTheft
  split
  · exact absurd rfl (h _ _)
  · rfl

omit [DecidableEq I] [TaskInvokerBase I] in
theorem owed_claimed {source : ClaimSource} {task : QueuedTask I} (hpc : after.pc = .found task)
    (hrecord : after.record = [.claimed source task]) : owed pc after = claimEntries source := by
  rw [owed, hrecord, hpc, missedTheft_eq_nil fun _ _ h => by cases h]
  simp [eventEntries, entered]

section Claims
variable {r : QueueRun I} {c : Claimed I}

theorem accounted_claimLocal (h : Accounted r) {i index : Nat}
    (hc : r.queues.claimLocal i index = some c) : Accounted (r.claim .ownQueue (some c)) := by
  have hafter : Accounted (r.claim .ownQueue (r.queues.claimLocal i index)) :=
    h.claimFrom (by decide) ..
  rwa [hc] at hafter

theorem accounted_claimGlobal (h : Accounted r) {index : Nat} {bursts bursts' : Priority → Nat}
    (hc : r.queues.claimGlobal index bursts = some (c, bursts')) :
    Accounted (r.claim .globalQueues (some c)) := by
  have hafter := h.claimGlobal index bursts
  rwa [hc] at hafter

theorem accounted_steal (h : Accounted r) {victim index : Nat} {contended : Priority → Bool}
    (hc : r.queues.steal victim index contended = some c) :
    Accounted (r.claim .steal (some c)) := by
  have hafter : Accounted (r.claim .steal (r.queues.steal victim index contended)) :=
    h.claimFrom (by decide) ..
  rwa [hc] at hafter

end Claims

/-- What an attempt at a claim does to the loop. -/
inductive Tried (before : WorkerRun I) (source : ClaimSource) (missing : LoopPc I)
    (after : WorkerRun I) : Prop
  | found (c : Claimed I) (vars : LocalVariables) (h : after = before.find source c vars)
      (haccounted : Accounted (before.run.claim source (some c)))
  | missed (hrun : after.run = before.run) (hpc : after.pc = missing)
      (hrecord : after.record = before.record ∨
        ∃ queues, after.record = before.record ++ [LoopEvent.globalEmpty queues])

theorem tried_claimLocal (haccounted : Accounted before.run) (i : Nat) :
    Tried before .ownQueue missing (before.claimLocal i missing) := by
  unfold WorkerRun.claimLocal
  cases hc : before.run.queues.claimLocal i before.vars.localCalendarIndex with
  | none => exact .missed rfl rfl (.inl rfl)
  | some c => exact .found c _ rfl (accounted_claimLocal haccounted hc)

theorem tried_claimGlobal (haccounted : Accounted before.run) (vars : LocalVariables) :
    Tried before .globalQueues missing (before.claimGlobal vars missing) := by
  unfold WorkerRun.claimGlobal
  cases hc : before.run.queues.claimGlobal before.vars.globalCalendarIndex
      before.vars.globalDeadlineBursts with
  | none => exact .missed rfl rfl (.inr ⟨_, rfl⟩)
  | some claimed => exact .found claimed.1 _ rfl (accounted_claimGlobal haccounted hc)

theorem tried_steal (haccounted : Accounted before.run) (victim : Nat)
    (contended : Priority → Bool) :
    Tried before .steal missing (before.steal victim contended missing) := by
  unfold WorkerRun.steal
  cases hc : before.run.queues.steal victim before.vars.stealCalendarIndex contended with
  | none => exact .missed rfl rfl (.inl rfl)
  | some c => exact .found c _ rfl (accounted_steal haccounted hc)

/-- What a step of the loop does, and that it counts it. -/
def Steps (before after : WorkerRun I) : Prop :=
  LoopEffect before after ∧ Even before.pc after.pc (owed before.pc after)

/-- A step that claims nothing. -/
theorem Steps.moved (hfree : holds before.pc = false) (hafter : holds after.pc = false)
    (hrecord : after.record = [] ∨ ∃ queues, after.record = [.globalEmpty queues])
    (hrun : after.run = before.run) {es : List Entry}
    (hes : missedTheft before.pc after.pc ++ entered after.pc = es)
    (heven : Even before.pc after.pc es) : Steps before after := by
  refine ⟨.moved hfree hafter hrecord hrun, ?_⟩
  have hnone : after.record.flatMap eventEntries = [] := by
    rcases hrecord with hrecord | ⟨queues, hrecord⟩ <;> rw [hrecord] <;> rfl
  rwa [owed, hnone, List.nil_append, hes]

/-- A claim from the own queue or the global queues. -/
theorem Tried.steps {source : ClaimSource} (h : Tried before source missing after)
    (hsource : source ≠ .steal) (hrecord : before.record = []) (hbefore : Calm before.pc)
    (hmissing : Quiet missing) : Steps before after := by
  cases h with
  | found c vars h haccounted =>
    subst h
    have hfound : (before.find source c vars).record = [.claimed source c.out] := by
      rw [WorkerRun.find, hrecord]
      rfl
    refine ⟨.claimed source c hbefore.free rfl hfound rfl haccounted, ?_⟩
    rw [owed_claimed rfl hfound]
    exact .claim hbefore hsource c.out
  | missed hrun hpc hafter =>
    rw [hrecord] at hafter
    have hnone : missedTheft before.pc after.pc ++ entered after.pc = [] := by
      rw [hpc, missedTheft_eq_nil hmissing.notStealing, hmissing.enters, List.nil_append]
    refine .moved hbefore.free (hpc ▸ hmissing.free) hafter hrun hnone ?_
    rw [hpc]
    exact .still hbefore hmissing.toCalm

theorem Steps.still (hbefore : Calm before.pc) (hafter : Quiet after.pc)
    (hrecord : after.record = []) (hrun : after.run = before.run) : Steps before after := by
  have hnone : missedTheft before.pc after.pc ++ entered after.pc = [] := by
    rw [missedTheft_eq_nil hafter.notStealing, hafter.enters, List.nil_append]
  exact .moved hbefore.free hafter.free (.inl hrecord) hrun hnone (.still hbefore hafter.toCalm)

omit [DecidableEq I] [TaskInvokerBase I] in
theorem probe_even (parked : Bool) (victims : List Nat) (hpc : Calm pc) :
    Even pc (.stealing parked victims) (probe victims) := by
  cases victims with
  | nil => exact .still hpc ⟨rfl, rfl, rfl, rfl⟩
  | cons victim victims =>
    exact ⟨by rw [hpc.probes]; rfl, by rw [hpc.waits]; rfl, rfl, by rw [hpc.parked]; rfl,
      ⟨Nat.le_refl _, Nat.zero_le _, Nat.zero_le _⟩⟩

/-- Every step of the loop. -/
theorem steps_of_step {o : WorkerLoop.Options} {i : Nat} {contended : Priority → Bool}
    {timedOut : Bool} (haccounted : Accounted before.run) (hrecord : before.record = [])
    (hs : before.step o i contended timedOut = some after) : Steps before after := by
  have hcalm : ∀ {a : LoopPc I}, before.pc = a → holds a = false → probesAt a = 0 →
      waitsAt a = 0 → parkedAt a = 0 → Calm before.pc :=
    fun h h1 h2 h3 h4 => h ▸ ⟨h1, h2, h3, h4⟩
  unfold WorkerRun.step at hs
  cases hpc : before.pc with
  | startup =>
    have hbefore := hcalm hpc rfl rfl rfl rfl
    simp only [hpc] at hs
    split at hs
    · cases hs
      exact .still hbefore ⟨⟨rfl, rfl, rfl, rfl⟩, rfl, nofun⟩ hrecord rfl
    · split at hs <;> cases hs
      exact .still hbefore ⟨⟨rfl, rfl, rfl, rfl⟩, rfl, nofun⟩ hrecord rfl
  | top =>
    have hbefore := hcalm hpc rfl rfl rfl rfl
    simp only [hpc] at hs
    split at hs <;> cases hs
    · exact (tried_claimLocal haccounted i).steps (by decide) hrecord hbefore
        ⟨⟨rfl, rfl, rfl, rfl⟩, rfl, nofun⟩
    · exact .still hbefore ⟨⟨rfl, rfl, rfl, rfl⟩, rfl, nofun⟩ hrecord rfl
  | globalClaim =>
    have hbefore := hcalm hpc rfl rfl rfl rfl
    simp only [hpc] at hs
    split at hs <;> cases hs
    all_goals
      exact (tried_claimGlobal haccounted _).steps (by decide) hrecord hbefore
        ⟨⟨rfl, rfl, rfl, rfl⟩, rfl, nofun⟩
  | retryLocal | awakeLocal =>
    have hbefore := hcalm hpc rfl rfl rfl rfl
    simp only [hpc] at hs
    cases hs
    exact (tried_claimLocal haccounted i).steps (by decide) hrecord hbefore
      ⟨⟨rfl, rfl, rfl, rfl⟩, rfl, nofun⟩
  | awake =>
    have hbefore := hcalm hpc rfl rfl rfl rfl
    simp only [hpc] at hs
    cases hs
    exact (tried_claimGlobal haccounted _).steps (by decide) hrecord hbefore
      ⟨⟨rfl, rfl, rfl, rfl⟩, rfl, nofun⟩
  | sampling parked =>
    have hbefore := hcalm hpc rfl rfl rfl rfl
    simp only [hpc, Option.map_eq_some_iff] at hs
    obtain ⟨⟨victims, random⟩, -, rfl⟩ := hs
    -- a sample with a victim in it begins a probe, which the metrics count
    refine .moved hbefore.free rfl (.inl hrecord) rfl ?_ (probe_even parked victims hbefore)
    rw [hpc]
    rfl
  | stealing parked victims =>
    cases victims with
    | nil =>
      have hbefore := hcalm hpc rfl rfl rfl rfl
      simp only [hpc] at hs
      cases hs
      cases parked with
      | true => exact .still hbefore ⟨⟨rfl, rfl, rfl, rfl⟩, rfl, nofun⟩ hrecord rfl
      | false =>
        refine .moved hbefore.free rfl (.inl hrecord) rfl rfl ?_
        rw [hpc]
        exact ⟨rfl, rfl, rfl, rfl, ⟨Nat.zero_le _, Nat.zero_le _, Nat.le_refl _⟩⟩
    | cons victim victims =>
      simp only [hpc] at hs
      cases hs
      -- the last victim ends the probe, whether or not it has something to steal
      cases tried_steal haccounted victim contended with
      | found c vars h haccounted =>
        rw [h]
        have hfound : (before.find .steal c vars).record = [.claimed .steal c.out] := by
          rw [WorkerRun.find, hrecord]
          rfl
        refine ⟨.claimed .steal c (by rw [hpc]; rfl) rfl hfound rfl haccounted, ?_⟩
        rw [owed_claimed rfl hfound, hpc]
        exact ⟨rfl, rfl, rfl, rfl, ⟨Nat.zero_le _, Nat.zero_le _, Nat.zero_le _⟩⟩
      | missed hrun hnext hafter =>
        rw [hrecord] at hafter
        refine .moved (by rw [hpc]; rfl) (by rw [hnext]; rfl) hafter hrun rfl ?_
        rw [hpc, hnext]
        cases victims with
        | nil => exact ⟨rfl, rfl, rfl, rfl, ⟨Nat.zero_le _, Nat.zero_le _, Nat.zero_le _⟩⟩
        | cons next victims =>
          exact ⟨rfl, rfl, rfl, rfl, ⟨Nat.le_refl _, Nat.zero_le _, Nat.zero_le _⟩⟩
  | parking | epochRead observedEpoch =>
    simp only [hpc] at hs
    cases hs
    refine .moved (by rw [hpc]; rfl) rfl (.inl hrecord) rfl rfl ?_
    rw [hpc]
    exact ⟨rfl, rfl, rfl, rfl, ⟨Nat.zero_le _, Nat.le_refl _, Nat.zero_le _⟩⟩
  | waiting observedEpoch nextWake =>
    simp only [hpc] at hs
    split at hs <;> cases hs
    refine .moved (by rw [hpc]; rfl) rfl (.inl hrecord) rfl rfl ?_
    rw [hpc]
    exact ⟨rfl, rfl, rfl, rfl, ⟨Nat.zero_le _, Nat.zero_le _, Nat.zero_le _⟩⟩
  | stopCheck =>
    have hbefore := hcalm hpc rfl rfl rfl rfl
    simp only [hpc] at hs
    cases hs
    refine .still hbefore ?_ hrecord rfl
    dsimp only
    split <;> exact ⟨⟨rfl, rfl, rfl, rfl⟩, rfl, nofun⟩
  | found task =>
    simp only [hpc] at hs
    cases hs
    rw [WorkerRun.start, hrecord]
    split
    -- in Immediate mode the first segment is cancelled and not executed
    case isTrue himmediate =>
      refine ⟨.started task true hpc rfl rfl (fun _ => himmediate.2) rfl, ?_⟩
      rw [hpc]
      exact ⟨rfl, rfl, rfl, rfl, ⟨Nat.zero_le _, Nat.zero_le _, Nat.zero_le _⟩⟩
    case isFalse =>
      refine ⟨.started task false hpc rfl rfl (fun h => by cases h) rfl, ?_⟩
      rw [hpc]
      exact ⟨rfl, rfl, rfl, rfl, ⟨Nat.zero_le _, Nat.zero_le _, Nat.zero_le _⟩⟩
  | executing =>
    simp only [hpc] at hs
    cases hs
    refine ⟨.completed hpc rfl hrecord rfl, ?_⟩
    rw [owed, hrecord, hpc]
    exact ⟨rfl, rfl, rfl, rfl, ⟨Nat.zero_le _, Nat.zero_le _, Nat.zero_le _⟩⟩
  | exited =>
    simp only [hpc] at hs
    cases hs

end

end
end WorkerPool
end AstraScheduler
