import AstraScheduler.GraphExecution
import AstraScheduler.MetricsStages

/-! # Graph runs and what they record

Any number of graph runs on one runtime, from their bulk admission to their completion.  An
ordinary node is recorded by the worker that executes it, before it is marked terminal; the
control block of a coroutine node records its own transitions.  A record of one update is
made with the step it belongs to; of a longer one the updates follow one by one, and the
thread goes on when they are made. -/

namespace AstraScheduler
namespace GraphMetrics

open RuntimeMetrics
open GraphExecution (BodyResult Run Frame)

/-! ## What a step has to record -/

/-- What is recorded of a run and its nodes. -/
inductive Event (n : Nat) where
  | published (node : Fin n)
  | firstStart (node : Fin n)
  | outcome (node : Fin n) (completion : Completion)
  /-- `request_cancel` of a coroutine node, by the worker that executes it or by a cancel call. -/
  | cancelledBeforeStart (node : Fin n) (byCall : Bool)
  | suspended (node : Fin n)
  | resumed (node : Fin n)
  | nodeTerminal
  | runCompleted
  deriving DecidableEq, Repr

/-- What is recorded of code that has ended. -/
def completion {E : Type} : BodyResult E → Completion
  | .returned => .succeeded
  | .threwTaskCancelled => .cancelledCooperative
  | .threw _ => .failed

section Event
variable {n k : Nat} {E : Type} (g : FrozenTaskGraph n) (s : Run n k E)

/-- What the worker with `frame` on top of its stack records in its next step. -/
def frameEvent : Frame n E → Option (Event n)
  | .claimed m true => some (.resumed m)
  | .claimed m false =>
    -- neither a cancelled node nor a coroutine has a first start
    if s.cancelRequested ∨ g.isCoroutineNode m then none else some (.firstStart m)
  | .cancelTask m =>
    if (s.entries m).taskState = .ready then some (.cancelledBeforeStart m false) else none
  | .record _ _ _ => some .nodeTerminal
  | .complete _ => some .runCompleted
  | .post m => some (.published m)
  | .code _ | .check _ _ | .readState _ | .storeOutcome _ _ _ | .countNode _ | .trigger _
  | .edges _ _ _ | .countDown _ _ _ _ | .decide _ | .decideCancel _ => none

/-- What a step of the run records. -/
def event : GraphExecution.Label n k E → Option (Event n)
  | .postRoot => s.roots.head?.map .published
  | .step w => (s.workers w).head?.bind (frameEvent g s)
  | .finish w result =>
    match s.workers w with
    | .code m :: _ => some (.outcome m (completion result))
    | _ => none
  | .suspend w =>
    match s.workers w with
    | .code m :: _ => if (s.entries m).taskState = .running then some (.suspended m) else none
    | _ => none
  | .cancelNode j =>
    match s.cancellers[j]? with
    | some (m :: _) =>
      if g.isCoroutineNode m ∧ (s.entries m).taskState = .ready then
        some (.cancelledBeforeStart m true)
      else none
    | _ => none
  | .claim _ _ _ | .awake _ | .requestCancel => none

end Event

/-- The records of one update. -/
def Event.single {n : Nat} (deadline : Fin n → Option Nat) : Event n → List Update
  | .published m => recordPublished (deadline m).isSome
  | .nodeTerminal => recordGraphNodeTerminal
  | .runCompleted => recordGraphRunCompleted
  | .firstStart _ | .outcome _ _ | .cancelledBeforeStart _ _ | .suspended _ | .resumed _ => []

/-! ## A run and its records -/

/-- A run with what its threads have still to record. -/
structure MeteredRun (n k : Nat) (E : Type) where
  run : Run n k E
  deadlineDisposition : Fin n → DeadlineDisposition := fun _ => .none
  /-- How the code of a node has ended. -/
  completion : Fin n → Completion := fun _ => .succeeded
  /-- What the worker that has the node in hand has still to record of it, -/
  left : Fin n → List Update := fun _ => []
  /-- and what the call that cancelled its control block has. -/
  cancelLeft : Fin n → List Update := fun _ => []
  /-- The node that a call of `request_cancel` has cancelled last. -/
  cancelling : List (Option (Fin n)) := []

section Metered
variable {n k : Nat} {E : Type} (deadline : Fin n → Option Nat) (x : MeteredRun n k E)

/-- Whether the first start of a node is in time. -/
def judge (m : Fin n) (now : Nat) : DeadlineDisposition :=
  match deadline m, x.deadlineDisposition m with
  | some deadline, .none => if now ≤ deadline then .met else .missed
  | _, disposition => disposition

def MeteredRun.begin (m : Fin n) (updates : List Update) : MeteredRun n k E :=
  { x with left := Function.update x.left m updates }

/-- A thread begins a record. -/
def MeteredRun.note (level : MetricsLevel) (now : Nat) : Event n → MeteredRun n k E
  | .published _ | .nodeTerminal | .runCompleted => x
  | .firstStart m =>
    let disposition := judge deadline x m now
    let updates := recordFirstStart (if (deadline m).isSome then some disposition else none)
    { x.begin m (record level updates) with
      deadlineDisposition := Function.update x.deadlineDisposition m disposition }
  | .outcome m completion =>
    { x.begin m (record level (recordOutcome completion.counter)) with
      completion := Function.update x.completion m completion }
  | .cancelledBeforeStart m false =>
    x.begin m (record level (recordCancelledBeforeStart (deadline m).isSome))
  | .cancelledBeforeStart m true =>
    let updates := recordCancelledBeforeStart (deadline m).isSome
    { x with cancelLeft := Function.update x.cancelLeft m (record level updates) }
  | .suspended m => x.begin m (record level recordSuspended)
  | .resumed m => x.begin m (record level (recordResumed ++ recordResumeSegment))

/-- The run has taken a step with the event `e`. -/
def MeteredRun.after (level : MetricsLevel) (now : Nat) (e : Option (Event n)) (run : Run n k E)
    (cancelling : List (Option (Fin n))) : MeteredRun n k E :=
  { e.elim x (x.note deadline level now) with run := run, cancelling := cancelling }

/-- The worker has made the record of its last step. -/
def MeteredRun.recorded (w : Fin k) : Bool :=
  match x.run.workers w with
  | .code m :: _ | .storeOutcome m _ _ :: _ | .check m false :: _ => x.left m = []
  | .check m true :: _ => (x.run.entries m).body = .suspended → x.left m = []
  | _ => true

/-- The thread that takes the step has nothing left to record. -/
def MeteredRun.mayAct : GraphExecution.Label n k E → Bool
  | .claim w _ _ | .step w | .finish w _ | .suspend w => x.recorded w
  -- the resume waits for the suspension to be published
  | .awake m => x.left m = []
  | .cancelNode j =>
    match x.cancelling[j]? with
    | some (some m) => x.cancelLeft m = []
    | _ => true
  | .postRoot | .requestCancel => true

/-- The cancel calls go on with the calls of the run. -/
def MeteredRun.cancellingAfter (e : Option (Event n)) :
    GraphExecution.Label n k E → List (Option (Fin n))
  | .requestCancel => x.cancelling ++ [none]
  | .cancelNode j =>
    match x.run.cancellers[j]?, e with
    | some (_ :: _), some (.cancelledBeforeStart m _) => x.cancelling.set j (some m)
    | some (_ :: _), _ => x.cancelling.set j none
    | some [], _ | none, _ => x.cancelling.eraseIdx j
  | _ => x.cancelling

end Metered

/-! ## The runtime -/

/-- The graphs to be run, and the deadlines of their nodes. -/
structure Workload where
  count : Nat
  size : Fin count → Nat
  graph : ∀ r, FrozenTaskGraph (size r)
  deadline : ∀ r, Fin (size r) → Option Nat

/-- How far a call of `GraphExecution::run` has got. -/
inductive Phase (n k : Nat) (E : Type) where
  | uncalled
  /-- The slots are acquired, and this is still to be recorded. -/
  | admitting (left : List Update)
  /-- The graph is materialized: from here on the nodes account for themselves. -/
  | admitted (run : MeteredRun n k E)

structure State (W : Workload) (k : Nat) (E : Type) where
  metrics : RuntimeMetrics
  runs : ∀ r, Phase (W.size r) k E

/-- The label says which worker of the runtime the thread is, if it is one. -/
inductive Label (W : Workload) (k : Nat) (E : Type) where
  /-- `acquire_graph_slots` succeeds. -/
  | acquire (r : Fin W.count)
  /-- The next update of the admission. -/
  | admission (r : Fin W.count) (worker : Option Nat)
  | materialize (r : Fin W.count)
  | on (r : Fin W.count) (step : GraphExecution.Label (W.size r) k E) (now : Nat)
      (worker : Option Nat)
  /-- The next update of the record of a node. -/
  | update (r : Fin W.count) (node : Fin (W.size r)) (worker : Option Nat)
  | cancelUpdate (r : Fin W.count) (node : Fin (W.size r)) (worker : Option Nat)

/-- The admission of a graph; the lease of an empty one rolls the start of the run back. -/
def recordAdmission (count : Nat) : List Update :=
  recordAcquired count ++ recordGraphStarted ++ if count = 0 then recordGraphRunCompleted else []

section Steps
variable {W : Workload} {k : Nat} {E : Type} (s : State W k E)

def State.setPhase (r : Fin W.count) (phase : Phase (W.size r) k E) : State W k E :=
  { s with runs := Function.update s.runs r phase }

def State.apply (worker : Option Nat) (updates : List Update) : State W k E :=
  { s with metrics := updates.foldl (fun m u => m.apply worker u) s.metrics }

/-- A step of an admitted run. -/
def onRun (r : Fin W.count) (x : MeteredRun (W.size r) k E)
    (a : GraphExecution.Label (W.size r) k E) (now : Nat) (worker : Option Nat) :
    Option (State W k E) :=
  if x.mayAct a then
    (GraphExecution.step (W.graph r) x.run a).map fun run =>
      let e := event (W.graph r) x.run a
      let x' := x.after (W.deadline r) s.metrics.level now e run (x.cancellingAfter e a)
      (s.setPhase r (.admitted x')).apply worker
        (record s.metrics.level (e.elim [] (Event.single (W.deadline r))))
  else none

def step : Label W k E → Option (State W k E)
  | .acquire r =>
    match s.runs r with
    | .uncalled =>
      some (s.setPhase r (.admitting (record s.metrics.level (recordAdmission (W.size r)))))
    | _ => none
  | .admission r worker =>
    match s.runs r with
    | .admitting (u :: left) => some ((s.setPhase r (.admitting left)).apply worker [u])
    | _ => none
  | .materialize r =>
    match s.runs r with
    | .admitting [] => some (s.setPhase r (.admitted { run := GraphExecution.initial (W.graph r) }))
    | _ => none
  | .on r a now worker =>
    match s.runs r with
    | .admitted x => onRun s r x a now worker
    | _ => none
  | .update r m worker =>
    match s.runs r with
    | .admitted x =>
      match x.left m with
      | u :: left => some ((s.setPhase r (.admitted (x.begin m left))).apply worker [u])
      | [] => none
    | _ => none
  | .cancelUpdate r m worker =>
    match s.runs r with
    | .admitted x =>
      match x.cancelLeft m with
      | u :: left =>
        some ((s.setPhase r (.admitted { x with
          cancelLeft := Function.update x.cancelLeft m left })).apply worker [u])
      | [] => none
    | _ => none

end Steps

/-- A runtime with `k` workers that has run nothing yet. -/
structure Initial {W : Workload} {k : Nat} {E : Type} (s : State W k E) : Prop where
  metrics : ∃ level, s.metrics = RuntimeMetrics.init level k
  runs : ∀ r, s.runs r = .uncalled

def machine (W : Workload) (k : Nat) (E : Type) :
    Transition.Machine (State W k E) (Label W k E) where
  init := Initial
  next := step

end GraphMetrics
end AstraScheduler
