import AstraScheduler.DrainMachine

/-! # Claims and first starts in Immediate mode

The two loops that claim invokers, `run_worker_loop` and `perform_helping_loop`, with the
sweep of `request_shutdown_mode` beside them.  `packed_status` is exchanged without a mutex,
so what a loop does with an invoker is apart from its claim, and the helping loop's look at
the mode is apart from the claim it permits.

A claim remembers the mode it was made in; no step looks at that.  The loops are followed
up to the last worker's exit, so the state Stopped is left out. -/

namespace AstraScheduler
namespace ImmediateClaims

open Transition (Machine)
open HelpingWait (Segment)

/-- What the first segment of a task is: a `SubmittedInvokerGate`, which starts the control
block, or a node of a graph run. -/
inductive Body where
  | submitted
  | node
  | coroutineNode
  deriving DecidableEq, Repr

inductive Start where
  | unstarted
  | cancelled
  | begun
  deriving DecidableEq, Repr

structure TaskEntry where
  body : Body
  start : Start := .unstarted
  deriving DecidableEq, Repr

/-- An invoker a thread has claimed, and `packed_status` at its claim. -/
structure Claim where
  segment : Segment
  claimedIn : ShutdownMode
  deriving DecidableEq, Repr

inductive WorkerLoc where
  /-- Without a claim: in one of the loops, or running the code of its innermost frame. -/
  | search
  /-- Holding `lifecycle_mutex`, with the status the helping loop has read. -/
  | holding (status : Option SchedulerStatus)
  | claimed (claim : Claim)
  /-- About to call `cancel_pre_start`. -/
  | cancelling (claim : Claim)
  /-- About to call `execute`. -/
  | executing (claim : Claim)
  deriving DecidableEq, Repr

structure Frame where
  task : TaskId
  /-- In a helping wait. -/
  waiting : Bool := false
  deriving DecidableEq, Repr

structure Worker where
  loc : WorkerLoc := .search
  frames : List Frame := []
  deriving DecidableEq, Repr

structure Runtime (n : Nat) where
  workers : Fin n → Worker := fun _ => {}
  status : SchedulerStatus := {}
  /-- `lifecycle_mutex` is held. -/
  lifecycleMutex : Bool := false
  tasks : TaskId → Option TaskEntry := fun _ => none
  /-- `cancel_requested` of the graph run a node belongs to. -/
  cancelRequested : TaskId → Bool := fun _ => false
  /-- Accepted, and not yet published. -/
  accepted : List TaskId := []
  global : List Segment := []
  locals : Fin n → List Segment := fun _ => []
  /-- The resumes a sweep under way has taken out of the local queues. -/
  sweep : Option (List Segment) := none

/-- Steps of threads other than the loops. -/
inductive OutsideStep (n : Nat) where
  /-- A submission, or a node of a graph run, passes `acquire`. -/
  | accept (task : TaskId) (body : Body) (isInternal : Bool)
  /-- Its invoker is published: to the local queue of a worker, or to the global ones. -/
  | publish (task : TaskId) (place : Option (Fin n))
  /-- A resume of a begun task is published. -/
  | post (task : TaskId) (place : Option (Fin n))
  /-- `request_cancel` of a submitted task, or of a graph run for one of its nodes. -/
  | cancel (task : TaskId)
  /-- The exchange of `request_shutdown_mode`. -/
  | request (mode : ShutdownMode)
  /-- `cancel_unstarted` under the mutex: the global queues, the local queues invoker by
  invoker, and the resumes it has kept. -/
  | sweepGlobal
  | sweepLocal (victim : Fin n) (segment : Segment)
  | sweepEnd
  deriving DecidableEq, Repr

/-- Steps of a worker's loops. -/
inductive WorkerStep (n : Nat) where
  | claimLocal (segment : Segment)
  | steal (victim : Fin n) (segment : Segment)
  | lock
  /-- The look of the helping loop at `packed_status`. -/
  | readStatus
  | claimGlobal (segment : Segment)
  | unlock
  /-- The worker loop looks at the mode; the helping loop does not. -/
  | dispatch
  | cancelPreStart
  | execute
  /-- The code it runs begins or ends a helping wait, returns or suspends. -/
  | beginWait
  | endWait
  | segmentReturn
  deriving DecidableEq, Repr

inductive Label (n : Nat) where
  | outside (step : OutsideStep n)
  | worker (w : Fin n) (step : WorkerStep n)
  deriving DecidableEq, Repr

/-- In one of the two loops. -/
def Worker.looping (x : Worker) : Bool := x.frames.head?.all Frame.waiting

section Steps
variable {n : Nat} (s : Runtime n)

def Runtime.setWorker (w : Fin n) (x : Worker) : Runtime n :=
  { s with workers := Function.update s.workers w x }

def Runtime.setLocal (v : Fin n) (queue : List Segment) : Runtime n :=
  { s with locals := Function.update s.locals v queue }

/-- `execute` of this invoker begins the body of a task.  A node that is not a coroutine
looks at its run first; the gate of a submitted task asks `try_start`. -/
def Runtime.begins (g : Segment) : Bool :=
  !g.resume &&
    match s.tasks g.task with
    | some ⟨.submitted, .unstarted⟩ | some ⟨.coroutineNode, .unstarted⟩ => true
    | some ⟨.node, .unstarted⟩ => !s.cancelRequested g.task
    | _ => false

def Runtime.setStart (t : TaskId) (start : Start) : Runtime n :=
  { s with tasks := Function.update s.tasks t ((s.tasks t).map fun e => { e with start := start }) }

/-- `cancel_pre_start`: a graph node does nothing. -/
def Runtime.cancelPreStart (g : Segment) : Runtime n :=
  if s.tasks g.task = some ⟨.submitted, .unstarted⟩ ∧ ¬ g.resume then s.setStart g.task .cancelled
  else s

def Runtime.enqueue (place : Option (Fin n)) (g : Segment) : Runtime n :=
  match place with
  | none => { s with global := s.global ++ [g] }
  | some v => s.setLocal v (s.locals v ++ [g])

def outsideStep : OutsideStep n → Option (Runtime n)
  | .accept t body isInternal =>
    if Drain.admits s.status isInternal ∧ s.tasks t = none then
      some { s with
        tasks := Function.update s.tasks t (some { body := body })
        accepted := t :: s.accepted }
    else none
  | .publish t place =>
    if t ∈ s.accepted then
      some ({ s with accepted := s.accepted.erase t }.enqueue place ⟨t, false⟩)
    else none
  | .post t place =>
    if (s.tasks t).any fun e => e.start = .begun then some (s.enqueue place ⟨t, true⟩) else none
  | .cancel t =>
    match s.tasks t with
    | some ⟨.submitted, .unstarted⟩ => some (s.setStart t .cancelled)
    | some ⟨.submitted, _⟩ => some s
    | some _ => some { s with cancelRequested := Function.update s.cancelRequested t true }
    | none => none
  | .request mode =>
    match Drain.exchanged mode s.status with
    | some status => if mode = .none then none else some { s with status := status }
    | none => some s
  | .sweepGlobal =>
    if s.status.shutdownMode = .immediate ∧ !s.lifecycleMutex then
      some { s.global.foldl Runtime.cancelPreStart s with
        global := s.global.filter Segment.resume
        lifecycleMutex := true
        sweep := some [] }
    else none
  | .sweepLocal v g =>
    match s.sweep with
    | some resumes =>
      if g ∈ s.locals v then
        let s' := s.setLocal v ((s.locals v).erase g)
        if g.resume then some { s' with sweep := some (resumes ++ [g]) }
        else some (s'.cancelPreStart g)
      else none
    | none => none
  | .sweepEnd =>
    match s.sweep with
    | some resumes =>
      some { s with global := s.global ++ resumes, lifecycleMutex := false, sweep := none }
    | none => none

/-- The worker has a claim. -/
def Runtime.claimBy (w : Fin n) (g : Segment) : Runtime n :=
  s.setWorker w { s.workers w with loc := .claimed ⟨g, s.status.shutdownMode⟩ }

/-- The status the helping loop wants to have read before it claims from the global queues. -/
def permits (status : SchedulerStatus) : Bool :=
  status.state ≠ .stopped ∧ status.shutdownMode ≠ .immediate

def workerStep (w : Fin n) : WorkerStep n → Option (Runtime n)
  | .claimLocal g =>
    let x := s.workers w
    let claimed := (s.claimBy w g).setLocal w ((s.locals w).erase g)
    if g ∈ s.locals w ∧ x.looping then
      match x.loc with
      | .search => some claimed
      -- after parking the worker loop holds the mutex; it is released at the end of the scope
      | .holding _ => if x.frames = [] then some { claimed with lifecycleMutex := false } else none
      | _ => none
    else none
  | .steal v g =>
    let x := s.workers w
    if x.loc = .search ∧ x.looping ∧ v ≠ w ∧ g ∈ s.locals v then
      some ((s.claimBy w g).setLocal v ((s.locals v).erase g))
    else none
  | .lock =>
    let x := s.workers w
    if x.loc = .search ∧ x.looping ∧ !s.lifecycleMutex then
      some { s.setWorker w { x with loc := .holding none } with lifecycleMutex := true }
    else none
  | .readStatus =>
    let x := s.workers w
    if x.loc = .holding none ∧ x.frames ≠ [] then
      some (s.setWorker w { x with loc := .holding (some s.status) })
    else none
  | .claimGlobal g =>
    let x := s.workers w
    match x.loc with
    | .holding status =>
      if g ∈ s.global ∧ (x.frames = [] ∨ status.any permits) then
        some { s.claimBy w g with global := s.global.erase g, lifecycleMutex := false }
      else none
    | _ => none
  | .unlock =>
    let x := s.workers w
    match x.loc with
    | .holding _ =>
      some { s.setWorker w { x with loc := .search } with lifecycleMutex := false }
    | _ => none
  | .dispatch =>
    let x := s.workers w
    match x.loc with
    | .claimed c =>
      if x.frames = [] ∧ s.status.shutdownMode = .immediate ∧ ¬ c.segment.resume then
        some (s.setWorker w { x with loc := .cancelling c })
      else some (s.setWorker w { x with loc := .executing c })
    | _ => none
  | .cancelPreStart =>
    let x := s.workers w
    match x.loc with
    | .cancelling c =>
      some ((s.cancelPreStart c.segment).setWorker w { x with loc := .search })
    | _ => none
  | .execute =>
    let x := s.workers w
    match x.loc with
    | .executing c =>
      let entered : Worker := ⟨.search, ⟨c.segment.task, false⟩ :: x.frames⟩
      if c.segment.resume then some (s.setWorker w entered)
      else if s.begins c.segment then
        some ((s.setStart c.segment.task .begun).setWorker w entered)
      else some (s.setWorker w { x with loc := .search })
    | _ => none
  | .beginWait =>
    let x := s.workers w
    match x.loc, x.frames with
    | .search, frame :: frames =>
      some (s.setWorker w { x with frames := { frame with waiting := true } :: frames })
    | _, _ => none
  | .endWait =>
    let x := s.workers w
    match x.loc, x.frames with
    | .search, frame :: frames =>
      some (s.setWorker w { x with frames := { frame with waiting := false } :: frames })
    | _, _ => none
  | .segmentReturn =>
    let x := s.workers w
    match x.loc, x.frames with
    | .search, frame :: frames =>
      if frame.waiting then none else some (s.setWorker w { x with frames := frames })
    | _, _ => none

def step : Label n → Option (Runtime n)
  | .outside e => outsideStep s e
  | .worker w e => workerStep s w e

end Steps

/-- A running runtime with `n` workers under every interleaving of its threads. -/
def machine (n : Nat) : Machine (Runtime n) (Label n) where
  init s := s = {}
  next := step

/-- The step begins the body of a task that has not started, by the claim `c`. -/
def FirstStart {n : Nat} (s : Runtime n) : Label n → Claim → Prop
  | .worker w .execute, c => (s.workers w).loc = .executing c ∧ s.begins c.segment
  | _, _ => False

/-- What Immediate mode is to prevent. -/
def NoLateStart {n : Nat} (s : Runtime n) (a : Label n) : Prop :=
  ∀ c, FirstStart s a c → c.claimedIn ≠ .immediate

/-- In a helping wait while the mode is Immediate. -/
def Runtime.helpsLate {n : Nat} (s : Runtime n) (w : Fin n) : Prop :=
  s.status.shutdownMode = .immediate ∧ (s.workers w).frames ≠ []

def Runtime.unstartedIn {n : Nat} (s : Runtime n) (queue : List Segment) : Prop :=
  ∃ g ∈ queue, s.begins g

/-- When a helping loop claims in Immediate mode, the local queue it claims from has been
emptied of first segments, and the mode has not changed between its look and its claim from
the global queues, unless these hold no first segment either. -/
def HelpersKeepOff {n : Nat} (s : Runtime n) : Label n → Prop
  | .worker w (.claimLocal _) => s.helpsLate w → ¬ s.unstartedIn (s.locals w)
  | .worker w (.steal v _) => s.helpsLate w → ¬ s.unstartedIn (s.locals v)
  | .worker w (.claimGlobal _) =>
    s.helpsLate w → s.unstartedIn s.global →
      ∀ looked, (s.workers w).loc = .holding (some looked) → looked.shutdownMode = .immediate
  | _ => True

end ImmediateClaims
end AstraScheduler
