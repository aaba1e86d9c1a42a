import AstraScheduler.Status
import AstraScheduler.Transition
import Mathlib.Data.List.Sort
import Mathlib.Order.WellFounded

/-! # Graph runs

`GraphExecution` and `GraphRunSharedState`: a frozen graph, the countdown of its nodes and
the propagation from a completed node to its successors, under every interleaving of the
workers, of the thread that posts the roots and of the threads that cancel the run.

A step is one atomic access or one critical section.  What a worker still has to do is a
stack of frames: `trigger_successors` calls itself, and a worker that waits inside a node
claims other invokers.  The counters are integers; a negative one is a counter that has
wrapped around. -/

namespace AstraScheduler

/-! ## Frozen graphs -/

/-- `EdgePolicy` (graph.hpp). -/
inductive EdgePolicy where
  | requireSuccess
  | afterCompletion
  deriving DecidableEq, Repr

/-- `GraphEdge` between the nodes of a graph of `n` nodes; node `i` is `NodeId{i + 1}`. -/
structure GraphEdge (n : Nat) where
  predecessor : Fin n
  successor : Fin n
  policy : EdgePolicy := .requireSuccess
  deriving DecidableEq, Repr

/-- A validated graph: `freeze` lets no cycle through. -/
structure FrozenTaskGraph (n : Nat) where
  /-- `is_coroutine_node` of the node's invoker. -/
  isCoroutineNode : Fin n → Bool
  edges : List (GraphEdge n)
  acyclic : WellFounded fun p m => ∃ e ∈ edges, e.predecessor = p ∧ e.successor = m

namespace FrozenTaskGraph
variable {n : Nat} (g : FrozenTaskGraph n)

/-- The `successors` of a node entry, in the order of the edges. -/
def successors (p : Fin n) : List (Fin n × EdgePolicy) :=
  (g.edges.filter fun e => e.predecessor = p).map fun e => (e.successor, e.policy)

/-- What `materialize` counts into `remaining_predecessors`. -/
def indegree (m : Fin n) : Nat := g.edges.countP fun e => e.successor = m

/-- A graph whose edges go to later nodes has no cycle. -/
def ofOrdered (isCoroutineNode : Fin n → Bool) (edges : List (GraphEdge n))
    (h : ∀ e ∈ edges, e.predecessor < e.successor) : FrozenTaskGraph n where
  isCoroutineNode := isCoroutineNode
  edges := edges
  acyclic := by
    refine Subrelation.wf ?_ (wellFounded_lt (α := Fin n))
    rintro _ _ ⟨e, he, rfl, rfl⟩
    exact h e he

end FrozenTaskGraph

/-- `GraphRunState` (status.hpp). -/
inductive GraphRunState where
  | running
  | succeeded
  | failed
  | cancelled
  deriving DecidableEq, Repr

namespace GraphExecution

/-! ## The shared state -/

/-- How far the body of a node has got. -/
inductive BodyState where
  | unstarted
  | running
  /-- A coroutine that waits for its resume. -/
  | suspended
  /-- The resume is posted and not yet executed. -/
  | resuming
  | finished
  deriving DecidableEq, Repr

/-- `GraphRunSharedState::NodeEntry`; `taskState` and `exception` are in the control block
of a coroutine node. -/
structure NodeEntry (E : Type) where
  remainingPredecessors : Int
  hasFailedRequiredPredecessor : Bool := false
  outcome : TaskState := .ready
  taskState : TaskState := .ready
  exception : Option E := none
  body : BodyState := .unstarted
  deriving DecidableEq, Repr

/-- `GraphReport`. -/
structure GraphReport (n : Nat) (E : Type) where
  succeededNodes : Nat := 0
  failedNodes : Nat := 0
  cancelledNodes : Nat := 0
  failedNodeExceptions : List (Fin n × E) := []
  deriving DecidableEq, Repr

/-- How the code of a node ends. -/
inductive BodyResult (E : Type) where
  | returned
  | threwTaskCancelled
  | threw (exception : E)
  deriving DecidableEq, Repr

namespace BodyResult
variable {E : Type}

def state : BodyResult E → TaskState
  | .returned => .succeeded
  | .threwTaskCancelled => .cancelled
  | .threw _ => .failed

def exception : BodyResult E → Option E
  | .threw e => some e
  | .returned | .threwTaskCancelled => none

end BodyResult

/-- What a worker is about to do for a node. -/
inductive Frame (n : Nat) (E : Type) where
  /-- It has taken the node's invoker, or a resume of its coroutine, from a queue. -/
  | claimed (node : Fin n) (resume : Bool)
  /-- The run is cancelled: `request_cancel` on the coroutine's control block. -/
  | cancelTask (node : Fin n)
  /-- The code of the node is running. -/
  | code (node : Fin n)
  /-- A segment has returned; is the coroutine completed? -/
  | check (node : Fin n) (suspended : Bool)
  | readState (node : Fin n)
  /-- `mark_node_terminal`: the outcome, the report, the countdown, the run state. -/
  | storeOutcome (node : Fin n) (outcome : TaskState) (exception : Option E)
  | record (node : Fin n) (outcome : TaskState) (exception : Option E)
  | countNode (node : Fin n)
  | complete (node : Fin n)
  /-- `trigger_successors`. -/
  | trigger (node : Fin n)
  | edges (node : Fin n) (outcome : TaskState) (rest : List (Fin n × EdgePolicy))
  | countDown (node : Fin n) (outcome : TaskState) (successor : Fin n)
      (rest : List (Fin n × EdgePolicy))
  /-- The last predecessor of the node is done: was one that is required unsuccessful? -/
  | decide (node : Fin n)
  /-- Is the run cancelled? -/
  | decideCancel (node : Fin n)
  /-- `post_node`. -/
  | post (node : Fin n)
  deriving DecidableEq, Repr

/-- A graph run on a runtime with `k` workers.  The last seven fields record what has
happened. -/
structure Run (n k : Nat) (E : Type) where
  entries : Fin n → NodeEntry E
  remainingNodes : Int
  runState : GraphRunState
  cancelRequested : Bool := false
  report : GraphReport n E := {}
  /-- The ready queues: the nodes whose first invoker or whose resume is in one. -/
  queue : List (Fin n × Bool) := []
  workers : Fin k → List (Frame n E) := fun _ => []
  /-- The roots that `run` has still to post. -/
  roots : List (Fin n)
  /-- The calls of `GraphRun::request_cancel` under way, with the nodes each has to visit. -/
  cancellers : List (List (Fin n)) := []
  posted : List (Fin n) := []
  started : List (Fin n) := []
  entered : List (Fin n) := []
  marks : List (Fin n × TaskState) := []
  triggered : List (Fin n) := []
  completions : List GraphRunState := []
  /-- The nodes whose invokers had been entered when the first cancel call returned. -/
  cancelReturned : Option (List (Fin n)) := none

inductive Label (n k : Nat) (E : Type) where
  /-- `run` posts the next root. -/
  | postRoot
  | claim (w : Fin k) (node : Fin n) (resume : Bool)
  /-- Worker `w` takes its next step outside of node code. -/
  | step (w : Fin k)
  | finish (w : Fin k) (result : BodyResult E)
  /-- The coroutine suspends, and the suspension is published. -/
  | suspend (w : Fin k)
  /-- Whatever the coroutine awaits posts its resume. -/
  | awake (node : Fin n)
  | requestCancel
  /-- The `j`-th of the cancel calls visits its next node, or returns. -/
  | cancelNode (j : Nat)
  deriving DecidableEq, Repr

section Steps
variable {n k : Nat} {E : Type} (g : FrozenTaskGraph n) (s : Run n k E)

def Run.setEntry (m : Fin n) (entry : NodeEntry E) : Run n k E :=
  { s with entries := Function.update s.entries m entry }

/-- What an entry keeps, the run keeps. -/
theorem Run.entries_eq {s s' : Run n k E} {m : Fin n} {entry : NodeEntry E}
    (hentries : s'.entries = Function.update s.entries m entry) {α : Type} (f : NodeEntry E → α)
    (p : Fin n) (h : f entry = f (s.entries m) := by rfl) : f (s'.entries p) = f (s.entries p) := by
  rw [hentries]
  by_cases hp : p = m
  · subst hp
    rwa [Function.update_self]
  · rw [Function.update_of_ne hp]

def Run.setStack (w : Fin k) (stack : List (Frame n E)) : Run n k E :=
  { s with workers := Function.update s.workers w stack }

/-- `TaskControlBlock::request_cancel` of a coroutine node. -/
def Run.requestTaskCancel (m : Fin n) : Run n k E :=
  if (s.entries m).taskState = .ready then
    s.setEntry m { s.entries m with taskState := .cancelled }
  else s

/-- `post_node`. -/
def Run.postNode (m : Fin n) : Run n k E :=
  { s with queue := s.queue ++ [(m, false)], posted := m :: s.posted }

/-- The counters of the report, under its mutex. -/
def GraphReport.record (r : GraphReport n E) (m : Fin n) (outcome : TaskState)
    (exception : Option E) : GraphReport n E :=
  match outcome with
  | .succeeded => { r with succeededNodes := r.succeededNodes + 1 }
  | .failed => { r with
      failedNodes := r.failedNodes + 1
      failedNodeExceptions := r.failedNodeExceptions ++ (exception.map fun e => (m, e)).toList }
  | .cancelled => { r with cancelledNodes := r.cancelledNodes + 1 }
  | .waiting | .ready | .running | .suspended => r

/-- The failures in the order of their nodes. -/
def GraphReport.sorted (r : GraphReport n E) : GraphReport n E :=
  { r with failedNodeExceptions := r.failedNodeExceptions.insertionSort fun a b => a.1 ≤ b.1 }

/-- The state of a run all of whose nodes are terminal. -/
def GraphReport.runState (r : GraphReport n E) : GraphRunState :=
  if 0 < r.failedNodes then .failed
  else if 0 < r.cancelledNodes then .cancelled
  else .succeeded

/-- The invoker of a node, or the wrapper of a resume, is executed. -/
def enter (w : Fin k) (rest : List (Frame n E)) (m : Fin n) (resume : Bool) : Run n k E :=
  if resume then
    -- `transition_to_running`
    let entry := s.entries m
    let taskState := if entry.taskState = .suspended ∨ entry.taskState = .ready then .running
                     else entry.taskState
    (s.setEntry m { entry with taskState := taskState, body := .running }).setStack w
      (.code m :: rest)
  else
    let s' := { s with entered := m :: s.entered }
    if s.cancelRequested then
      if g.isCoroutineNode m then s'.setStack w (.cancelTask m :: rest)
      else s'.setStack w (.storeOutcome m .cancelled none :: rest)
    else
      { s'.setEntry m { s.entries m with body := .running } with started := m :: s.started }.setStack
        w (.code m :: rest)

/-- One step of a worker with `frame` on top of its stack. -/
def stepFrame (w : Fin k) (rest : List (Frame n E)) : Frame n E → Option (Run n k E)
  | .claimed m resume => some (enter g s w rest m resume)
  | .cancelTask m =>
    -- the coroutine is resumed all the same
    let s' := s.requestTaskCancel m
    some ({ s'.setEntry m { s'.entries m with body := .running } with
      started := m :: s.started }.setStack w (.code m :: rest))
  | .code _ => none
  | .check m _ =>
    if (s.entries m).taskState.terminal then some (s.setStack w (.readState m :: rest))
    else some (s.setStack w rest)
  | .readState m =>
    let entry := s.entries m
    let exception := if entry.taskState = .failed then entry.exception else none
    some (s.setStack w (.storeOutcome m entry.taskState exception :: rest))
  | .storeOutcome m outcome exception =>
    some { (s.setEntry m { s.entries m with outcome := outcome }).setStack w
        (.record m outcome exception :: rest) with
      marks := (m, outcome) :: s.marks }
  | .record m outcome exception =>
    some { s.setStack w (.countNode m :: rest) with
      report := s.report.record m outcome exception }
  | .countNode m =>
    let frame := if s.remainingNodes = 1 then .complete m else .trigger m
    some { s.setStack w (frame :: rest) with remainingNodes := s.remainingNodes - 1 }
  | .complete m =>
    some { s.setStack w (.trigger m :: rest) with
      report := s.report.sorted
      runState := s.report.runState
      completions := s.report.runState :: s.completions }
  | .trigger m =>
    some { s.setStack w (.edges m (s.entries m).outcome (g.successors m) :: rest) with
      triggered := m :: s.triggered }
  | .edges _ _ [] => some (s.setStack w rest)
  | .edges m outcome ((c, policy) :: more) =>
    let s' := s.setStack w (.countDown m outcome c more :: rest)
    if policy = .requireSuccess ∧ outcome ≠ .succeeded then
      some (s'.setEntry c { s.entries c with hasFailedRequiredPredecessor := true })
    else some s'
  | .countDown m outcome c more =>
    let entry := s.entries c
    let frames := if entry.remainingPredecessors = 1 then [.decide c] else []
    some ((s.setEntry c { entry with
      remainingPredecessors := entry.remainingPredecessors - 1 }).setStack w
        (frames ++ .edges m outcome more :: rest))
  | .decide m =>
    if (s.entries m).hasFailedRequiredPredecessor then
      some (s.setStack w (.storeOutcome m .cancelled none :: rest))
    else some (s.setStack w (.decideCancel m :: rest))
  | .decideCancel m =>
    if s.cancelRequested then some (s.setStack w (.storeOutcome m .cancelled none :: rest))
    else some (s.setStack w (.post m :: rest))
  | .post m => some ((s.postNode m).setStack w rest)

/-- A worker at the top of its loop, or waiting inside node code, may claim. -/
def mayClaim (stack : List (Frame n E)) : Bool :=
  match stack with
  | [] | .code _ :: _ => true
  | _ => false

/-- The code of a node ends.  An ordinary node marks itself, a coroutine its control block. -/
def finish (w : Fin k) (rest : List (Frame n E)) (m : Fin n) (result : BodyResult E) :
    Run n k E :=
  let entry := { s.entries m with body := .finished }
  if g.isCoroutineNode m then
    (s.setEntry m { entry with
      taskState := result.state
      exception := result.exception.or entry.exception }).setStack w (.check m false :: rest)
  else (s.setEntry m entry).setStack w (.storeOutcome m result.state result.exception :: rest)

instance lawfulQueueEntry (n : Nat) : LawfulBEq (Fin n × Bool) := inferInstance

def step : Label n k E → Option (Run n k E)
  | .postRoot =>
    match s.roots with
    | m :: roots => some { s.postNode m with roots := roots }
    | [] => none
  | .claim w m resume =>
    if (m, resume) ∈ s.queue ∧ mayClaim (s.workers w) then
      some { s.setStack w (.claimed m resume :: s.workers w) with
        queue := s.queue.erase (m, resume) }
    else none
  | .step w =>
    match s.workers w with
    | frame :: rest => stepFrame g s w rest frame
    | [] => none
  | .finish w result =>
    match s.workers w with
    | .code m :: rest => some (finish g s w rest m result)
    | _ => none
  | .suspend w =>
    match s.workers w with
    | .code m :: rest =>
      if g.isCoroutineNode m then
        let entry := s.entries m
        -- `transition_to_suspended`
        let taskState := if entry.taskState = .running then .suspended else entry.taskState
        some ((s.setEntry m { entry with taskState := taskState, body := .suspended }).setStack w
          (.check m true :: rest))
      else none
    | _ => none
  | .awake m =>
    let entry := s.entries m
    if entry.body = .suspended then
      some { s.setEntry m { entry with body := .resuming } with queue := s.queue ++ [(m, true)] }
    else none
  | .requestCancel =>
    some { s with cancelRequested := true, cancellers := s.cancellers ++ [List.finRange n] }
  | .cancelNode j =>
    match s.cancellers[j]? with
    | some (m :: rest) =>
      let s' := if g.isCoroutineNode m then s.requestTaskCancel m else s
      some { s' with cancellers := s.cancellers.set j rest }
    | some [] =>
      some { s with
        cancellers := s.cancellers.eraseIdx j
        cancelReturned := s.cancelReturned.or (some s.entered) }
    | none => none

/-- The state in which `run` begins to post the roots. -/
def initial : Run n k E where
  entries m := { remainingPredecessors := g.indegree m }
  remainingNodes := n
  runState := if n = 0 then .succeeded else .running
  roots := (List.finRange n).filter fun m => g.indegree m = 0

end Steps

/-- A run of graph `g` on `k` workers. -/
def machine {n : Nat} (g : FrozenTaskGraph n) (k : Nat) (E : Type) :
    Transition.Machine (Run n k E) (Label n k E) where
  init s := s = initial g
  next := step g

end GraphExecution
end AstraScheduler
