import AstraScheduler.AdmissionController
import AstraScheduler.CoroutineOwnership
import AstraScheduler.Custody
import AstraScheduler.GraphFreeze

/-! # Cold coroutines

A coroutine starts suspended, and its frame belongs to the `Task` that the call returned.  From
there it goes on by moves only: to another `Task`, to the invoker that `spawn` makes, or into a
`TaskGraph`, whose nodes go to a `FrozenTaskGraph` and to the shared state of a run, until the
node is posted.  All these objects may be moved, overwritten and destroyed at any time, and
every call that passes a frame on may throw.

A frame that `spawn` has taken is from then on the frame of `CoroutineFrame.machine`.  What the
task of a posted node does with its frame is not followed here. -/

namespace AstraScheduler
namespace ColdCoroutines

open GraphFreeze (TaskGraph Frozen Edge ValidationFailure)
open Transition (Machine)
open Custody (Balanced)

/-- `TaskOptions`; a priority is any byte until it is validated. -/
structure TaskOptions where
  priority : UInt8 := 1
  deadline : Option Int := none
  deriving DecidableEq

def isValidPriority (priority : UInt8) : Bool := priority ≤ 3

/-- The invoker of a node: a callable, or a `GraphCoroutineNodeInvoker`, whose `coro` is null
once the node is posted. -/
inductive NodeInvoker where
  | callable
  | coroutine (coro : Option Nat)
  deriving DecidableEq

/-- `NodeData`, less the id, which is its place.  The invoker is null once a run has taken it. -/
structure NodeData where
  invoker : Option NodeInvoker
  options : Option TaskOptions
  deriving DecidableEq

/-- The objects of a program that may own frames. -/
inductive Object where
  | task (coro : Option Nat)
  | taskGraph (graph : TaskGraph NodeData)
  | frozenTaskGraph (graph : Frozen NodeData)
  /-- The entries of a `GraphRunSharedState`. -/
  | graphRun (entries : List (Option NodeInvoker))
  | destroyed
  deriving DecidableEq

def invokerFrames : Option NodeInvoker → List Nat
  | some (.coroutine coro) => coro.toList
  | _ => []

def nodeFrames (nodes : List NodeData) : List Nat := nodes.flatMap fun d => invokerFrames d.invoker

/-- The frames an object owns: its destructor destroys them. -/
def Object.frames : Object → List Nat
  | .task coro => coro.toList
  | .taskGraph graph => nodeFrames graph.nodes
  | .frozenTaskGraph graph => nodeFrames graph.nodes
  | .graphRun entries => entries.flatMap invokerFrames
  | .destroyed => []

/-- What a move leaves behind.  The state of a run is shared and does not move. -/
def Object.movedFrom : Object → Option Object
  | .task _ => some (.task none)
  | .taskGraph _ => some (.taskGraph {})
  | .frozenTaskGraph _ => some (.frozenTaskGraph { nodes := [], edges := [] })
  | .graphRun _ | .destroyed => none

inductive SubmissionError where
  | stopping | stopped | capacityExhausted
  deriving DecidableEq, Repr

inductive Exception where
  | logicError (what : String)
  | invalidArgument (what : String)
  | submissionRejected (reason : SubmissionError)
  | graphValidation (failure : ValidationFailure)
  /-- An allocation failed, or an identity sequence is used up. -/
  | failure
  deriving DecidableEq

/-- `submission_error_for`; of `Success` there is none. -/
def submissionErrorFor : AdmissionDecision → Exception
  | .stopping => .submissionRejected .stopping
  | .stopped => .submissionRejected .stopped
  | .capacityExhausted => .submissionRejected .capacityExhausted
  | .success => .logicError "cannot map successful admission to submission error"

/-- What a call has thrown. -/
abbrev Thrown := Option Exception

/-- `validate_priority`, where there are options. -/
def validatePriority (options : Option TaskOptions) : Thrown :=
  if options.any fun o => !isValidPriority o.priority then
    some (.invalidArgument "unknown or invalid Priority value (R-080 / D-129)")
  else none

/-- The scheduler handle and the options of a `spawn` or `run`, and what admission decides. -/
structure Submission where
  schedulerValid : Bool := true
  options : Option TaskOptions := none
  decision : AdmissionDecision := .success
  deriving DecidableEq

/-- What a `spawn` or `run` throws up to the admission. -/
def Submission.refusal (c : Submission) : Thrown :=
  if !c.schedulerValid then some (.logicError "operating on empty/moved-from Scheduler")
  else
    match validatePriority c.options with
    | some e => some e
    | none => if c.decision = .success then none else some (submissionErrorFor c.decision)

/-- `destroyed` are the frames that objects have destroyed, `posted` those that the task of a
node has taken, `lost` those whose handle was dropped by an exception, each in this order. -/
structure Program where
  created : Nat := 0
  objects : List Object := []
  destroyed : List Nat := []
  spawned : List (Nat × CoroutineFrame.Run) := []
  posted : List Nat := []
  lost : List Nat := []
  deriving DecidableEq

/-- Where `emplace_coroutine` fails behind its checks: the node's invoker is not allocated, or
the vector of nodes does not grow. -/
inductive EmplaceFailure where
  | makeInvoker
  | pushBack
  deriving DecidableEq

/-- Where a `spawn` fails otherwise: ahead of `release_handle`, or behind it. -/
inductive SpawnFailure where
  | early
  | late
  deriving DecidableEq

/-- Where a `run` fails otherwise: in `allocate_graph_run_id`, which is called first; ahead of
`materialize`; or when `materialize` has moved the invokers of the first `moved` nodes. -/
inductive RunFailure where
  | identity
  | early
  | materialize (moved : Nat)
  deriving DecidableEq

inductive Label where
  /-- A coroutine function is called. -/
  | call
  /-- An object is default-constructed. -/
  | construct (object : Object)
  | moveConstruct (i : Nat)
  | moveAssign (i j : Nat)
  | destroy (i : Nat)
  | emplace (g : Nat) (options : Option TaskOptions)
  | emplaceCoroutine (g i : Nat) (options : Option TaskOptions) (fails : Option EmplaceFailure)
  | addEdge (g : Nat) (edge : Edge)
  | freeze (g : Nat)
  | run (f : Nat) (call : Submission) (fails : Option RunFailure)
  | postNode (r k : Nat) (fails : Bool)
  | spawn (i : Nat) (call : Submission) (fails : Option SpawnFailure)
  /-- A step of a spawned coroutine, or of someone around it. -/
  | coroutine (k : Nat) (step : CoroutineFrame.Label)
  deriving DecidableEq

namespace Program
variable (s : Program)

def set (i : Nat) (o : Object) : Program := { s with objects := s.objects.set i o }

def push (o : Object) : Program := { s with objects := s.objects ++ [o] }

/-- Frames are destroyed, in this order. -/
def destroyFrames (frames : List Nat) : Program := { s with destroyed := s.destroyed ++ frames }

/-- A defaulted or written-out move constructor. -/
def moveConstruct (i : Nat) : Option Program := do
  let o ← s.objects[i]?
  let left ← o.movedFrom
  return (s.set i left).push o

/-- Move assignment destroys what the target owned.  `Task` takes care of an assignment to
itself; the standard leaves open what a vector does. -/
def moveAssign (i j : Nat) : Option Program :=
  match s.objects[i]?, s.objects[j]? with
  | some (.task a), some (.task b) =>
    if i = j then some s
    else some (((s.destroyFrames a.toList).set i (.task b)).set j (.task none))
  | some (.taskGraph a), some (.taskGraph b) =>
    if i = j then none
    else some (((s.destroyFrames (nodeFrames a.nodes)).set i (.taskGraph b)).set j (.taskGraph {}))
  | some (.frozenTaskGraph a), some (.frozenTaskGraph b) =>
    if i = j then none
    else some (((s.destroyFrames (nodeFrames a.nodes)).set i (.frozenTaskGraph b)).set j
      (.frozenTaskGraph { nodes := [], edges := [] }))
  | _, _ => none

/-- The destructor of an object. -/
def destroy (i : Nat) : Option Program :=
  s.objects[i]?.bind fun o =>
    if o = .destroyed then none else some ((s.destroyFrames o.frames).set i .destroyed)

/-- `nodes_.push_back` of a new node. -/
def addNode (g : Nat) (graph : TaskGraph NodeData) (d : NodeData) : Program :=
  s.set g (.taskGraph { graph with nodes := graph.nodes ++ [d] })

/-- `TaskGraph::emplace` -/
def emplace (g : Nat) (options : Option TaskOptions) : Option (Program × Thrown) :=
  match s.objects[g]? with
  | some (.taskGraph graph) =>
    match validatePriority options with
    | some e => some (s, some e)
    | none => some (s.addNode g graph { invoker := some .callable, options := options }, none)
  | _ => none

/-- `TaskGraph::emplace_coroutine`.  The invoker is not allocated before the frame is
released; a node that is not pushed is destroyed with its invoker. -/
def emplaceCoroutine (g i : Nat) (options : Option TaskOptions) (fails : Option EmplaceFailure) :
    Option (Program × Thrown) :=
  match s.objects[g]?, s.objects[i]? with
  | some (.taskGraph graph), some (.task coro) =>
    match validatePriority options, coro with
    | some e, _ => some (s, some e)
    | none, none =>
      some (s, some (.logicError "cannot emplace empty/invalid Task<void> into TaskGraph"))
    | none, some f =>
      let t := s.set i (.task none)
      match fails with
      | none =>
        some (t.addNode g graph { invoker := some (.coroutine (some f)), options := options }, none)
      | some .makeInvoker => some ({ t with lost := t.lost ++ [f] }, some .failure)
      | some .pushBack => some (t.destroyFrames [f], some .failure)
  | _, _ => none

/-- `TaskGraph::add_edge` -/
def addEdge (g : Nat) (edge : Edge) : Option Program :=
  match s.objects[g]? with
  | some (.taskGraph graph) =>
    some (s.set g (.taskGraph { graph with edges := graph.edges ++ [edge] }))
  | _ => none

/-- `TaskGraph::freeze` -/
def freeze (g : Nat) : Option (Program × Thrown) :=
  match s.objects[g]? with
  | some (.taskGraph graph) =>
    match graph.freeze with
    | (.error e, _) => some (s, some (.graphValidation e))
    | (.ok frozen, left) => some ((s.set g (.taskGraph left)).push (.frozenTaskGraph frozen), none)
  | _ => none

/-- `materialize` has moved the invokers of the first `moved` nodes. -/
def leaveMoved (moved : Nat) (nodes : List NodeData) : List NodeData :=
  (nodes.take moved).map (fun d => { d with invoker := none }) ++ nodes.drop moved

/-- `GraphExecution::run`, up to the first post.  If `materialize` throws, the shared state is
destroyed with the invokers it has been given. -/
def run (f : Nat) (call : Submission) (fails : Option RunFailure) : Option (Program × Thrown) :=
  match s.objects[f]? with
  | some (.frozenTaskGraph graph) =>
    if call.schedulerValid ∧ fails = some .identity then some (s, some .failure)
    else
      match call.refusal, fails with
      | some e, _ => some (s, some e)
      | none, some .identity | none, some .early => some (s, some .failure)
      | none, some (.materialize moved) =>
        some ((s.destroyFrames (nodeFrames (graph.nodes.take moved))).set f
          (.frozenTaskGraph { graph with nodes := leaveMoved moved graph.nodes }), some .failure)
      | none, none =>
        some ((s.set f (.frozenTaskGraph
            { graph with nodes := leaveMoved graph.nodes.length graph.nodes })).push
          (.graphRun (graph.nodes.map (·.invoker))), none)
  | _ => none

/-- `post_node` of a coroutine node: it takes the frame out of the node's invoker first. -/
def postNode (r k : Nat) (fails : Bool) : Option (Program × Thrown) :=
  match s.objects[r]? with
  | some (.graphRun entries) =>
    match entries[k]? with
    | some (some (.coroutine (some f))) =>
      let t := s.set r (.graphRun (entries.set k (some (.coroutine none))))
      if fails then some ({ t with lost := t.lost ++ [f] }, some .failure)
      else some ({ t with posted := t.posted ++ [f] }, none)
    | _ => none
  | _ => none

/-- `spawn`, and `try_spawn`, which returns the rejection.  `make_spawn_invoker` releases the
frame when the task's state is set up; an invoker that is not published drops it. -/
def spawn (i : Nat) (call : Submission) (fails : Option SpawnFailure) :
    Option (Program × Thrown) :=
  match s.objects[i]? with
  | some (.task none) => some (s, some (.logicError "cannot spawn empty/invalid Task"))
  | some (.task (some f)) =>
    match call.refusal, fails with
    | some e, _ => some (s, some e)
    | none, some .early => some (s, some .failure)
    | none, some .late =>
      some ({ s.set i (.task none) with lost := s.lost ++ [f] }, some .failure)
    | none, none => some ({ s.set i (.task none) with spawned := s.spawned ++ [(f, {})] }, none)
  | _ => none

/-- A step of the machine of the `k`-th spawned coroutine. -/
def coroutine (k : Nat) (step : CoroutineFrame.Label) : Option Program :=
  s.spawned[k]?.bind fun p =>
    (CoroutineFrame.machine.next p.2 step).map fun run =>
      { s with spawned := s.spawned.set k (p.1, run) }

/-- A default-constructed object owns nothing. -/
def construct (o : Object) : Option Program :=
  if o.movedFrom = some o then some (s.push o) else none

/-- One call, and what it throws. -/
def perform : Label → Option (Program × Thrown)
  | .call => some ({ s.push (.task (some s.created)) with created := s.created + 1 }, none)
  | .construct o => (s.construct o).map (·, none)
  | .moveConstruct i => (s.moveConstruct i).map (·, none)
  | .moveAssign i j => (s.moveAssign i j).map (·, none)
  | .destroy i => (s.destroy i).map (·, none)
  | .emplace g options => s.emplace g options
  | .emplaceCoroutine g i options fails => s.emplaceCoroutine g i options fails
  | .addEdge g edge => (s.addEdge g edge).map (·, none)
  | .freeze g => s.freeze g
  | .run f call fails => s.run f call fails
  | .postNode r k fails => s.postNode r k fails
  | .spawn i call fails => s.spawn i call fails
  | .coroutine k step => (s.coroutine k step).map (·, none)

def next (a : Label) : Option Program := (s.perform a).map (·.1)

def machine : Machine Program Label where
  init s := s = {}
  next := next

/-- The frames that no object owns any more, by where they are. -/
def ended : List Nat := s.destroyed ++ s.spawned.map (·.1) ++ s.posted ++ s.lost

end Program

/-! ## The books -/

section
variable {s t : Program} {thrown : Thrown} {i j : Nat} {o : Object} {f : Nat}

structure Sound (s : Program) : Prop where
  books : Balanced Object.frames s.objects s.ended (List.range s.created)
  spawned : ∀ p ∈ s.spawned, CoroutineFrame.machine.Reachable p.2

theorem count_ended (s : Program) (f : Nat) :
    s.ended.count f = s.destroyed.count f + (s.spawned.map (·.1)).count f + s.posted.count f +
      s.lost.count f := by
  simp only [Program.ended, List.count_append]

theorem movedFrom_frames {left : Object} (h : o.movedFrom = some left) : left.frames = [] := by
  cases o <;> cases h <;> rfl

theorem nodeFrames_append (ds es : List NodeData) :
    nodeFrames (ds ++ es) = nodeFrames ds ++ nodeFrames es :=
  List.flatMap_append

theorem nodeFrames_singleton (d : NodeData) : nodeFrames [d] = invokerFrames d.invoker :=
  List.flatMap_singleton ..

theorem nodeFrames_leaveMoved (moved : Nat) (ds : List NodeData) :
    nodeFrames (Program.leaveMoved moved ds) = nodeFrames (ds.drop moved) := by
  have htaken : nodeFrames ((ds.take moved).map fun d => { d with invoker := none }) = [] := by
    refine List.flatMap_eq_nil_iff.mpr fun d hd => ?_
    obtain ⟨e, -, rfl⟩ := List.mem_map.mp hd
    rfl
  rw [Program.leaveMoved, nodeFrames_append, htaken, List.nil_append]

theorem nodeFrames_invokers (ds : List NodeData) :
    (ds.map (·.invoker)).flatMap invokerFrames = nodeFrames ds :=
  List.flatMap_map ..

theorem freeze_ok {graph left : TaskGraph NodeData} {frozen : Frozen NodeData}
    (h : graph.freeze = (.ok frozen, left)) : frozen.nodes = graph.nodes ∧ left.nodes = [] := by
  unfold TaskGraph.freeze at h
  dsimp only at h
  repeat' split at h
  all_goals cases h
  exact ⟨rfl, rfl⟩

theorem eq_some_of_quiet {x : Option Program} (h : x.map (·, none) = some (t, thrown)) :
    x = some t := by
  obtain ⟨u, rfl, hu⟩ := Option.map_eq_some_iff.mp h
  cases hu
  rfl

namespace Sound

theorem initial : Sound {} where
  books := .nil
  spawned := by simp

/-- The objects change; the frames they own no more have ended. -/
theorem objects (h : Sound s) (hbooks : Balanced Object.frames t.objects t.ended
    (List.range s.created)) (hcreated : t.created = s.created) (hspawned : t.spawned = s.spawned) :
    Sound t where
  books := hcreated ▸ hbooks
  spawned := hspawned ▸ h.spawned

theorem call (h : Sound s) :
    Sound { s.push (.task (some s.created)) with created := s.created + 1 } where
  books := by
    rw [List.range_succ]
    exact h.books.construct (.task (some s.created))
  spawned := h.spawned

theorem construct (h : Sound s) (hs : s.construct o = some t) : Sound t := by
  unfold Program.construct at hs
  split at hs
  case isTrue hfresh =>
    obtain rfl := Option.some.inj hs
    have hbooks := h.books.construct o
    rw [movedFrom_frames hfresh, List.append_nil] at hbooks
    exact h.objects hbooks rfl rfl
  case isFalse => cases hs

theorem moveConstruct (h : Sound s) (hs : s.moveConstruct i = some t) : Sound t := by
  obtain ⟨o, ho, hs⟩ := Option.bind_eq_some_iff.mp hs
  obtain ⟨left, hleft, hs⟩ := Option.bind_eq_some_iff.mp hs
  obtain rfl := Option.some.inj hs
  refine h.objects (h.books.split ho fun f => ?_) rfl rfl
  rw [movedFrom_frames hleft, List.count_nil]
  show 0 + _ + s.ended.count f = _
  omega

theorem moveAssign (h : Sound s) (hs : s.moveAssign i j = some t) : Sound t := by
  unfold Program.moveAssign at hs
  split at hs
  case h_1 a b hi hj =>
    split at hs
    case isTrue => exact Option.some.inj hs ▸ h
    case isFalse hij =>
      obtain rfl := Option.some.inj hs
      refine h.objects (h.books.exchange hi hj hij fun f => ?_) rfl rfl
      simp only [count_ended, Program.set, Program.destroyFrames, List.count_append,
        Object.frames, Option.toList_none, List.count_nil]
      omega
  case h_2 a b hi hj =>
    split at hs
    case isTrue => cases hs
    case isFalse hij =>
      obtain rfl := Option.some.inj hs
      refine h.objects (h.books.exchange hi hj hij fun f => ?_) rfl rfl
      simp only [count_ended, Program.set, Program.destroyFrames, List.count_append,
        Object.frames, nodeFrames, List.flatMap_nil, List.count_nil]
      omega
  case h_3 a b hi hj =>
    split at hs
    case isTrue => cases hs
    case isFalse hij =>
      obtain rfl := Option.some.inj hs
      refine h.objects (h.books.exchange hi hj hij fun f => ?_) rfl rfl
      simp only [count_ended, Program.set, Program.destroyFrames, List.count_append,
        Object.frames, nodeFrames, List.flatMap_nil, List.count_nil]
      omega
  case h_4 => cases hs

theorem destroy (h : Sound s) (hs : s.destroy i = some t) : Sound t := by
  obtain ⟨o, ho, hs⟩ := Option.bind_eq_some_iff.mp hs
  split at hs
  case isTrue => cases hs
  case isFalse =>
    obtain rfl := Option.some.inj hs
    refine h.objects (h.books.replace ho fun f => ?_) rfl rfl
    simp only [count_ended, Program.set, Program.destroyFrames, List.count_append, Object.frames,
      List.count_nil]
    omega

theorem addNode (h : Sound s) {graph : TaskGraph NodeData} {d : NodeData}
    (hg : s.objects[i]? = some (.taskGraph graph)) (hd : invokerFrames d.invoker = []) :
    Sound (s.addNode i graph d) := by
  refine h.objects (h.books.replace hg fun f => ?_) rfl rfl
  simp only [Object.frames, nodeFrames_append, nodeFrames_singleton, hd, List.append_nil]
  rfl

theorem emplace (h : Sound s) {options : Option TaskOptions}
    (hs : s.emplace i options = some (t, thrown)) : Sound t := by
  unfold Program.emplace at hs
  split at hs
  case h_1 graph hg =>
    split at hs <;> cases hs
    · exact h
    · exact h.addNode hg rfl
  case h_2 => cases hs

theorem emplaceCoroutine (h : Sound s) {g : Nat} {options : Option TaskOptions}
    {fails : Option EmplaceFailure}
    (hs : s.emplaceCoroutine g i options fails = some (t, thrown)) : Sound t := by
  unfold Program.emplaceCoroutine at hs
  split at hs
  case h_1 graph coro hg hi =>
    split at hs
    case h_1 => cases hs; exact h
    case h_2 => cases hs; exact h
    case h_3 f hvalid =>
      have hig : i ≠ g := by
        rintro rfl
        cases hi.symm.trans hg
      dsimp only at hs
      split at hs <;> cases hs
      case h_1 =>
        refine h.objects (h.books.exchange hi hg hig fun r => ?_) rfl rfl
        simp only [Object.frames, nodeFrames_append, List.count_append, nodeFrames_singleton,
          invokerFrames, Option.toList_none, List.count_nil]
        show _ + s.ended.count r = _
        omega
      case h_2 =>
        refine h.objects (h.books.replace hi fun r => ?_) rfl rfl
        simp only [count_ended, Program.set, List.count_append, Object.frames,
          Option.toList_none, Option.toList_some, List.count_nil]
        omega
      case h_3 =>
        refine h.objects (h.books.replace hi fun r => ?_) rfl rfl
        simp only [count_ended, Program.set, Program.destroyFrames, List.count_append,
          Object.frames, Option.toList_none, Option.toList_some, List.count_nil]
        omega
  case h_2 => cases hs

theorem addEdge (h : Sound s) {edge : Edge} (hs : s.addEdge i edge = some t) : Sound t := by
  unfold Program.addEdge at hs
  split at hs <;> cases hs
  case h_1 graph hg => exact h.objects (h.books.replace hg fun f => rfl) rfl rfl

theorem freeze (h : Sound s) (hs : s.freeze i = some (t, thrown)) : Sound t := by
  unfold Program.freeze at hs
  split at hs
  case h_1 graph hg =>
    split at hs <;> cases hs
    case h_1 => exact h
    case h_2 frozen left hfreeze =>
      obtain ⟨hfrozen, hleft⟩ := freeze_ok hfreeze
      refine h.objects (h.books.split hg fun f => ?_) rfl rfl
      simp only [Object.frames, hfrozen, hleft, nodeFrames, List.flatMap_nil, List.count_nil]
      show 0 + _ + s.ended.count f = _
      omega
  case h_2 => cases hs

theorem run (h : Sound s) {call : Submission} {fails : Option RunFailure}
    (hs : s.run i call fails = some (t, thrown)) : Sound t := by
  unfold Program.run at hs
  split at hs
  case h_1 graph hg =>
    split at hs
    case isTrue => cases hs; exact h
    split at hs <;> cases hs
    case h_1 => exact h
    case h_2 => exact h
    case h_3 => exact h
    case h_4 moved _ _ =>
      refine h.objects (h.books.replace hg fun f => ?_) rfl rfl
      have hparts : (nodeFrames graph.nodes).count f =
          (nodeFrames (graph.nodes.take moved)).count f +
            (nodeFrames (graph.nodes.drop moved)).count f := by
        rw [← List.count_append, ← nodeFrames_append, List.take_append_drop]
      simp only [count_ended, Program.set, Program.destroyFrames, List.count_append,
        Object.frames, nodeFrames_leaveMoved]
      omega
    case h_5 =>
      refine h.objects (h.books.split hg fun f => ?_) rfl rfl
      simp only [Object.frames, nodeFrames_leaveMoved, List.drop_length, nodeFrames_invokers]
      show 0 + _ + s.ended.count f = _
      omega
  case h_2 => cases hs

theorem postNode (h : Sound s) {k : Nat} {fails : Bool}
    (hs : s.postNode i k fails = some (t, thrown)) : Sound t := by
  unfold Program.postNode at hs
  split at hs
  case h_1 entries hr =>
    split at hs
    case h_1 f hk =>
      have htaken : ∀ r, ((entries.set k (some (.coroutine none))).flatMap invokerFrames).count r +
          [f].count r = (entries.flatMap invokerFrames).count r := by
        intro r
        rw [Custody.count_flatMap, Custody.count_flatMap]
        exact Custody.held_set invokerFrames hk (some (.coroutine none)) r
      dsimp only at hs
      split at hs <;> cases hs
      all_goals
        refine h.objects (h.books.replace hr fun r => ?_) rfl rfl
        have := htaken r
        simp only [count_ended, Program.set, List.count_append, Object.frames]
        omega
    case h_2 => cases hs
  case h_2 => cases hs

theorem spawn (h : Sound s) {call : Submission} {fails : Option SpawnFailure}
    (hs : s.spawn i call fails = some (t, thrown)) : Sound t := by
  unfold Program.spawn at hs
  split at hs
  case h_1 => cases hs; exact h
  case h_2 f hi =>
    split at hs <;> cases hs
    case h_1 => exact h
    case h_2 => exact h
    case h_3 =>
      refine h.objects (h.books.replace hi fun r => ?_) rfl rfl
      simp only [count_ended, Program.set, List.count_append, Object.frames,
        Option.toList_none, Option.toList_some, List.count_nil]
      omega
    case h_4 =>
      refine ⟨h.books.replace hi fun r => ?_, ?_⟩
      · simp only [count_ended, Program.set, List.map_append, List.map_cons, List.map_nil,
          List.count_append, Object.frames, Option.toList_none, Option.toList_some,
          List.count_nil]
        omega
      · intro p hp
        rcases List.mem_append.mp hp with hp | hp
        · exact h.spawned p hp
        · obtain rfl := List.mem_singleton.mp hp
          exact .initial rfl
  case h_3 => cases hs

theorem coroutine (h : Sound s) {k : Nat} {step : CoroutineFrame.Label}
    (hs : s.coroutine k step = some t) : Sound t := by
  obtain ⟨p, hp, hs⟩ := Option.bind_eq_some_iff.mp hs
  obtain ⟨run, hrun, rfl⟩ := Option.map_eq_some_iff.mp hs
  have hsame : (s.spawned.set k (p.1, run)).map (·.1) = s.spawned.map (·.1) := by
    obtain ⟨hk, rfl⟩ := List.getElem?_eq_some_iff.mp hp
    have hlength : k < (s.spawned.map (·.1)).length := by rwa [List.length_map]
    have hfirst : (s.spawned.map (·.1))[k] = s.spawned[k].1 := List.getElem_map ..
    rw [List.map_set, ← hfirst, List.set_getElem_self]
  refine ⟨?_, ?_⟩
  · have hended : ({ s with spawned := s.spawned.set k (p.1, run) } : Program).ended = s.ended := by
      simp only [Program.ended, hsame]
    rw [hended]
    exact h.books
  · intro q hq
    rcases List.mem_or_eq_of_mem_set hq with hq | rfl
    · exact h.spawned q hq
    · exact .step (h.spawned p (List.mem_of_getElem? hp)) trivial hrun

theorem perform (h : Sound s) {a : Label} (hs : s.perform a = some (t, thrown)) : Sound t := by
  cases a with
  | call => cases hs; exact h.call
  | construct o =>
    exact h.construct (eq_some_of_quiet hs)
  | moveConstruct i =>
    exact h.moveConstruct (eq_some_of_quiet hs)
  | moveAssign i j =>
    exact h.moveAssign (eq_some_of_quiet hs)
  | destroy i =>
    exact h.destroy (eq_some_of_quiet hs)
  | emplace g options => exact h.emplace hs
  | emplaceCoroutine g i options fails => exact h.emplaceCoroutine hs
  | addEdge g edge =>
    exact h.addEdge (eq_some_of_quiet hs)
  | freeze g => exact h.freeze hs
  | run f call fails => exact h.run hs
  | postNode r k fails => exact h.postNode hs
  | spawn i call fails => exact h.spawn hs
  | coroutine k step =>
    exact h.coroutine (eq_some_of_quiet hs)

end Sound

theorem sound_of_reachable (h : Program.machine.Reachable s) : Sound s := by
  apply h.invariant Sound
  · rintro s rfl
    exact .initial
  · intro s a t hs _ ht
    obtain ⟨⟨u, thrown⟩, hu, rfl⟩ := Option.map_eq_some_iff.mp ht
    exact hs.perform hu

/-- A call that is refused has changed nothing: what it was given can be used again. -/
theorem refused_unchanged {a : Label} {e : Exception} (h : s.perform a = some (t, some e))
    (he : e ≠ .failure) : t = s := by
  have hquiet : ∀ {x : Option Program}, x.map (·, (none : Thrown)) ≠ some (t, some e) := by
    intro x hx
    obtain ⟨u, -, hu⟩ := Option.map_eq_some_iff.mp hx
    cases hu
  cases a with
  | call => cases h
  | construct o | moveConstruct i | moveAssign i j | destroy i | addEdge g edge
  | coroutine k step => exact absurd h hquiet
  | emplace g options =>
    simp only [Program.perform, Program.emplace] at h
    grind
  | emplaceCoroutine g i options fails =>
    simp only [Program.perform, Program.emplaceCoroutine] at h
    grind
  | freeze g =>
    simp only [Program.perform, Program.freeze] at h
    grind
  | run f call fails =>
    simp only [Program.perform, Program.run] at h
    grind
  | postNode r k fails =>
    simp only [Program.perform, Program.postNode] at h
    grind
  | spawn i call fails =>
    simp only [Program.perform, Program.spawn] at h
    grind

/-! ## The result -/

/-- How often frame `f` has been destroyed: by objects, and by its invokers once spawned. -/
def Program.destroys (s : Program) (f : Nat) : Nat :=
  s.destroyed.count f + ((s.spawned.filter (·.1 = f)).map (·.2.destroys)).sum

structure FramesAccounted (s : Program) : Prop where
  /-- A frame is owned by one object, and once. -/
  owner : ∀ (i j : Nat) (o p : Object) (f : Nat), s.objects[i]? = some o → s.objects[j]? = some p →
    f ∈ o.frames → f ∈ p.frames → i = j
  ownedOnce : ∀ (i : Nat) (o : Object), s.objects[i]? = some o → o.frames.Nodup
  /-- Nothing has been done with it yet, not even a step of its body. -/
  cold : ∀ (i : Nat) (o : Object) (f : Nat), s.objects[i]? = some o → f ∈ o.frames → f ∉ s.ended
  /-- A frame ends in one way, and once: what was spawned is never destroyed by an object, and
  what was destroyed is never spawned or posted. -/
  endsOnce : s.ended.Nodup
  /-- Nobody destroys a frame that is already destroyed, the invokers of its task included. -/
  destroyedOnce : ∀ f, s.destroys f ≤ 1
  /-- Once no object owns a frame, each frame that was created has ended. -/
  settled : (∀ o ∈ s.objects, o.frames = []) → s.ended.Perm (List.range s.created)
  /-- A call refused by a check or by the admission leaves everything as it was. -/
  refused : ∀ (a : Label) (t : Program) (e : Exception), s.perform a = some (t, some e) →
    e ≠ .failure → t = s

/-- The invokers of one frame belong to one coroutine, which destroys it at most once. -/
theorem sum_destroys_le {ps : List (Nat × CoroutineFrame.Run)}
    (h : ∀ p ∈ ps, CoroutineFrame.machine.Reachable p.2) (f : Nat) :
    ((ps.filter (·.1 = f)).map (·.2.destroys)).sum ≤ (ps.map (·.1)).count f := by
  induction ps with
  | nil => exact Nat.le_refl _
  | cons p ps ih =>
    have hrest := ih fun q hq => h q (List.mem_cons_of_mem _ hq)
    obtain ⟨owner, howned⟩ := CoroutineFrame.owned_of_reachable (h p (List.mem_cons_self ..))
    have hp := howned.frameSafety.destroyedOnce
    rw [List.map_cons, List.count_cons, List.filter_cons]
    by_cases hpf : p.1 = f
    · simp only [hpf, decide_true, if_true, List.map_cons, List.sum_cons, beq_self_eq_true]
      omega
    · simp only [hpf, decide_false, Bool.false_eq_true, if_false, beq_iff_eq]
      omega

/-- **Every frame is accounted for**, in any program of calls, moves, assignments, destructions
and exceptions. -/
theorem frames_accounted (h : Program.machine.Reachable s) : FramesAccounted s := by
  have hs := sound_of_reachable h
  have hborn : (List.range s.created).Nodup := List.nodup_range
  refine {
    owner := fun i j o p f => hs.books.eq_of_mem hborn
    ownedOnce := fun i o => hs.books.nodup_owns hborn
    cold := fun i o f => hs.books.not_mem_ended hborn
    endsOnce := hs.books.nodup_ended hborn
    destroyedOnce := fun f => ?_
    settled := hs.books.ended_perm
    refused := fun a t e => refused_unchanged }
  have honce := List.nodup_iff_count_le_one.mp (hs.books.nodup_ended hborn) f
  have hspawned := sum_destroys_le hs.spawned f
  rw [count_ended] at honce
  unfold Program.destroys
  omega

end

/-- A rejected `spawn` keeps its frame, which is spawned by a second call and finishes; a
second frame goes into a graph that is overwritten, a third one is lost by a failure. -/
def spawnAndOverwrite : List Label :=
  [.call, .spawn 0 { decision := .capacityExhausted } none, .spawn 0 {} none, .call,
    .construct (.taskGraph {}), .emplaceCoroutine 2 1 none none, .construct (.taskGraph {}),
    .moveAssign 2 3, .call, .moveConstruct 4, .spawn 5 {} (some .late),
    .coroutine 0 (.advance 0), .coroutine 0 (.advance 0), .coroutine 0 (.advance 0),
    .coroutine 0 (.advance 0), .coroutine 0 (.complete 0 .succeeded), .coroutine 0 (.advance 0),
    .coroutine 0 (.advance 0), .coroutine 0 (.advance 0), .coroutine 0 (.advance 0)]

theorem frames_accounted_spawnAndOverwrite : ∃ s,
    Program.machine.run {} spawnAndOverwrite = some s ∧ FramesAccounted s ∧
      s.ended.Perm (List.range 3) ∧ s.destroys 0 = 1 ∧ s.destroys 1 = 1 ∧ s.lost = [2] := by
  obtain ⟨s, hs⟩ := Option.isSome_iff_exists.mp
    (show (Program.machine.run {} spawnAndOverwrite).isSome by decide)
  have hend : (Program.machine.run {} spawnAndOverwrite).map (fun t =>
      (t.created, t.objects.all (·.frames = []), t.destroys 0, t.destroys 1, t.lost)) =
      some (3, true, 1, 1, [2]) := by decide
  rw [hs] at hend
  obtain ⟨hcreated, hempty, h0, h1, hlost⟩ := by simpa using hend
  have haccounted := frames_accounted (Machine.reachable_of_run rfl hs)
  refine ⟨s, hs, haccounted, ?_, h0, h1, hlost⟩
  rw [← hcreated]
  exact haccounted.settled hempty

end ColdCoroutines
end AstraScheduler
