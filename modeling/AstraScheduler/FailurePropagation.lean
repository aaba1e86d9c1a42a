import AstraScheduler.FreezeValidation
import AstraScheduler.GraphOutcomes

/-! # From a builder to its report

A builder whose `freeze` succeeds, and a run of the frozen graph to its end.  What becomes of a
node is said in terms of the builder's edges: a node is not run exactly if a node that was run
and did not succeed leads to it over edges that all require success. -/

namespace AstraScheduler
namespace FailurePropagation

open GraphExecution (BodyResult Run Label Runs reference Follows Agrees machine initial)
open GraphFreeze (Edge InRange ValidDag)
open Relation (TransGen)
open Transition (Machine)

variable {n k : Nat} {E ν : Type}

/-! ## In a frozen graph -/

section Frozen
variable {g : FrozenTaskGraph n} {assign : Fin n → BodyResult E}

end Frozen

/-! ## In the builder -/

/-- The `NodeId` of a node. -/
def nodeId (m : Fin n) : Nat := m + 1

variable {edges : List Edge}

/-- The second node requires the success of the first, the third only its end. -/
def fork : GraphFreeze.TaskGraph Unit where
  nodes := [(), (), ()]
  edges := [{ fromNode := 1, toNode := 2 },
    { fromNode := 1, toNode := 3, policy := .afterCompletion }]

def first : Fin fork.nodes.length := ⟨0, by decide⟩

end FailurePropagation
end AstraScheduler
