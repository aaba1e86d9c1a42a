import AstraScheduler.GraphExecution
import AstraScheduler.Kahn
import Mathlib.Data.List.Sort
import Mathlib.Data.List.Perm.Lattice

/-! # Freezing a graph

`TaskGraph::freeze` checks the edges of a builder in four passes and moves its nodes and
edges into a frozen graph.  The last pass counts the nodes that Kahn's algorithm visits and,
if some are left, looks for a cycle by a depth-first search from the smallest node up.

A node id is its value; `adj` and the counters are indexed by it, as the vectors of the
source are.  The counters are integers, so that one that would wrap around is negative. -/

namespace AstraScheduler
namespace GraphFreeze

/-- `GraphEdge`: `from` and `to` need not be nodes of the builder. -/
structure Edge where
  fromNode : Nat
  toNode : Nat
  policy : EdgePolicy := .requireSuccess
  deriving DecidableEq, Repr

/-- The builder, with its nodes' data left open. -/
structure TaskGraph (ν : Type) where
  nodes : List ν := []
  edges : List Edge := []
  deriving DecidableEq

structure Frozen (ν : Type) where
  nodes : List ν
  edges : List Edge
  deriving DecidableEq

inductive GraphValidationError where
  | foreignNode | selfEdge | duplicateEdge | cycle
  deriving DecidableEq, Repr

def formatMessage : GraphValidationError → String
  | .foreignNode => "Graph validation failed: edge references node foreign to builder"
  | .selfEdge => "Graph validation failed: self-edge detected"
  | .duplicateEdge => "Graph validation failed: duplicate edge detected"
  | .cycle => "Graph validation failed: cycle detected in graph"

/-- The exception `graph_validation_error`. -/
structure ValidationFailure where
  reason : GraphValidationError
  cycleWitness : List Nat := []
  deriving DecidableEq, Repr

/-! ## The depth-first search -/

structure Search where
  /-- 0 for a node not entered, 1 for one on the path, 2 for one finished with. -/
  state : Nat → Nat := fun _ => 0
  path : List Nat := []
  witness : List Nat := []

/-- The loop of `find_cycle_dfs` over the successors of `u` and what follows it; `visit` is
the recursive call. -/
def visitSuccessors (visit : Nat → Search → Option (Bool × Search)) (u : Nat) :
    List Nat → Search → Option (Bool × Search)
  | [], s =>
    some (false, { s with path := s.path.dropLast, state := Function.update s.state u 2 })
  | v :: vs, s =>
    if s.state v = 1 ∧ v ∈ s.path then
      some (true, { s with witness := s.path.dropWhile (fun w => w ≠ v) ++ [v] })
    else if s.state v = 0 then
      match visit v s with
      | none => none
      | some (true, s') => some (true, s')
      | some (false, s') => visitSuccessors visit u vs s'
    else visitSuccessors visit u vs s

/-- `find_cycle_dfs`, with calls nested at most `depth` deep; `none` if they go deeper. -/
def findCycleDfs (adj : Nat → List Nat) : Nat → Nat → Search → Option (Bool × Search)
  | 0, _, _ => none
  | depth + 1, u, s =>
    visitSuccessors (findCycleDfs adj depth) u (adj u)
      { s with state := Function.update s.state u 1, path := s.path ++ [u] }

/-- The loop of `freeze` that starts the search. -/
def searchFrom (adj : Nat → List Nat) (depth : Nat) : List Nat → Search → Option Search
  | [], s => some s
  | i :: is, s =>
    if s.state i = 0 then
      match findCycleDfs adj depth i s with
      | none => none
      | some (true, s') => some s'
      | some (false, s') => searchFrom adj depth is s'
    else searchFrom adj depth is s

/-! ## The passes -/

/-- `1, …, n`. -/
def nodeIds (n : Nat) : List Nat := List.range' 1 n

def foreign (n : Nat) (e : Edge) : Bool :=
  e.fromNode = 0 ∨ n < e.fromNode ∨ e.toNode = 0 ∨ n < e.toNode

def Edge.key (e : Edge) : Nat × Nat := (e.fromNode, e.toNode)

/-- The loop over `seen_edges`. -/
def repeats : List (Nat × Nat) → List Edge → Bool
  | _, [] => false
  | seen, e :: es => if e.key ∈ seen then true else repeats (e.key :: seen) es

/-- `adj` before it is sorted. -/
def adjacency (edges : List Edge) : Nat → List Nat :=
  edges.foldl (fun adj e => Function.update adj e.fromNode (adj e.fromNode ++ [e.toNode]))
    fun _ => []

def sortedAdjacency (edges : List Edge) (u : Nat) : List Nat :=
  (adjacency edges u).insertionSort (· ≤ ·)

def inDegree (edges : List Edge) : Nat → Int :=
  edges.foldl (fun degree e => Function.update degree e.toNode (degree e.toNode + 1)) fun _ => 0

/-- The priority queue's `push`; `top` is the first element. -/
def pushReady (v : Nat) (queue : List Nat) : List Nat := queue.orderedInsert (· ≤ ·) v

/-- The state in which the `while` loop of Kahn's algorithm starts. -/
def kahnStart (n : Nat) (edges : List Edge) : Kahn.State Nat where
  queue := (nodeIds n).foldl
    (fun queue i => if inDegree edges i = 0 then pushReady i queue else queue) []
  missing := inDegree edges

def visitedCount (n : Nat) (edges : List Edge) : Nat :=
  (Kahn.rounds pushReady (sortedAdjacency edges) n (kahnStart n edges)).visitedCount

/-- The search for a witness in a graph of `n` nodes. -/
def findCycle (depth n : Nat) (edges : List Edge) : Option Search :=
  searchFrom (sortedAdjacency edges) depth (nodeIds n) {}

namespace TaskGraph
variable {ν : Type}

/-- `freeze`: the frozen graph or the exception, and the builder afterwards. -/
def freeze (g : TaskGraph ν) : Except ValidationFailure (Frozen ν) × TaskGraph ν :=
  let n := g.nodes.length
  if g.edges.any (foreign n) then (.error { reason := .foreignNode }, g)
  else if g.edges.any fun e => e.fromNode = e.toNode then (.error { reason := .selfEdge }, g)
  else if repeats [] g.edges then (.error { reason := .duplicateEdge }, g)
  else if (0 < n ∧ g.edges ≠ []) ∧ visitedCount n g.edges < n then
    (.error { reason := .cycle, cycleWitness := (findCycle n n g.edges).elim [] Search.witness }, g)
  else (.ok { nodes := g.nodes, edges := g.edges }, { nodes := [], edges := [] })

end TaskGraph
end GraphFreeze
end AstraScheduler
