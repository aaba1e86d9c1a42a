import AstraScheduler.GraphExecution
import AstraScheduler.WorkStacks

/-! # The books of a graph run

A node is in one place from the moment its last predecessor is counted off: in a queue, on
a worker's stack, suspended, or done.  An edge is counted off once, when its predecessor is
done.  Every step of a run keeps these accounts, as long as no worker that has suspended a
coroutine comes back to find it completed by another one (`ChecksInTime`). -/

namespace AstraScheduler
namespace GraphExecution

open WorkStacks

variable {n k : Nat} {E : Type} {g : FrozenTaskGraph n} {s s' : Run n k E}

/-! ## Edges -/

/-- The edges from `p` to `m`. -/
def edgesBetween (g : FrozenTaskGraph n) (p m : Fin n) : Nat :=
  (g.successors p).countP fun c => c.1 = m

theorem edgesBetween_eq (p m : Fin n) :
    edgesBetween g p m = g.edges.countP fun e => e.predecessor = p ∧ e.successor = m := by
  rw [edgesBetween, FrozenTaskGraph.successors, List.countP_map, List.countP_filter]
  refine List.countP_congr fun e _ => ?_
  simp [and_comm]

/-- The edges into `m` from the nodes of a list. -/
theorem sum_edgesBetween {ps : List (Fin n)} (h : ps.Nodup) (m : Fin n) :
    (ps.map fun p => edgesBetween g p m).sum =
      g.edges.countP fun e => e.successor = m ∧ e.predecessor ∈ ps := by
  induction ps with
  | nil => simp
  | cons p ps ih =>
    obtain ⟨hp, hps⟩ := List.nodup_cons.mp h
    rw [List.map_cons, List.sum_cons, ih hps, edgesBetween_eq]
    clear ih h hps
    induction g.edges with
    | nil => rfl
    | cons e es ihes =>
      simp only [List.countP_cons]
      have hsplit : (if decide (e.successor = m ∧ e.predecessor ∈ p :: ps) then 1 else 0) =
          (if decide (e.predecessor = p ∧ e.successor = m) then 1 else 0) +
            if decide (e.successor = m ∧ e.predecessor ∈ ps) then 1 else 0 := by
        by_cases hm : e.successor = m
        · by_cases hep : e.predecessor = p
          · simp [hm, hep, hp]
          · simp [hm, hep]
        · simp [hm]
      omega

theorem sum_edgesBetween_le {ps : List (Fin n)} (h : ps.Nodup) (m : Fin n) :
    (ps.map fun p => edgesBetween g p m).sum ≤ g.indegree m := by
  rw [sum_edgesBetween h]
  refine List.countP_mono_left fun e _ he => ?_
  simp only [decide_eq_true_eq] at he ⊢
  exact he.1

/-- Where all edges into `m` come from the list, so do all its predecessors. -/
theorem mem_of_sum_edgesBetween {ps : List (Fin n)} (h : ps.Nodup) {m : Fin n}
    (hsum : g.indegree m ≤ (ps.map fun p => edgesBetween g p m).sum) :
    ∀ e ∈ g.edges, e.successor = m → e.predecessor ∈ ps := by
  rw [sum_edgesBetween h, FrozenTaskGraph.indegree,
    List.countP_eq_countP_filter_add g.edges _ fun e => e.predecessor ∈ ps,
    List.countP_filter] at hsum
  intro e he hm
  by_contra hno
  have hpos : 0 < List.countP (fun e => e.successor = m)
      (g.edges.filter fun e => !decide (e.predecessor ∈ ps)) :=
    List.countP_pos_iff.mpr ⟨e, List.mem_filter.mpr ⟨he, by simpa using hno⟩, by simpa using hm⟩
  have heq : g.edges.countP (fun e => decide (e.successor = m) && decide (e.predecessor ∈ ps)) =
      g.edges.countP fun e => e.successor = m ∧ e.predecessor ∈ ps :=
    List.countP_congr fun e _ => by simp
  omega

/-! ## What the frames hold -/

namespace Frame

/-- The frame has node `m` in hand, on its way to completion or past it. -/
def holds (m : Fin n) : Frame n E → Nat
  | .claimed p _ | .cancelTask p | .code p | .check p false | .readState p
  | .storeOutcome p _ _ | .record p _ _ | .countNode p | .complete p | .trigger p | .decide p
  | .decideCancel p | .post p => if p = m then 1 else 0
  | .check _ true | .edges _ _ _ | .countDown _ _ _ _ => 0

/-- The edges into `m` that the frame has still to count off. -/
def pending (m : Fin n) : Frame n E → Nat
  | .edges _ _ rest => rest.countP fun c => c.1 = m
  | .countDown _ _ c rest => (if c = m then 1 else 0) + rest.countP fun c => c.1 = m
  | _ => 0

/-- `m` is marked terminal and its successors are not yet looked at. -/
def marked (m : Fin n) : Frame n E → Nat
  | .record p _ _ | .countNode p | .complete p | .trigger p => if p = m then 1 else 0
  | _ => 0

/-- The outcome is marked and not in the report. -/
def recording (outcome : TaskState) : Frame n E → Nat
  | .record _ o _ => if o = outcome then 1 else 0
  | _ => 0

/-- The failure of `m` is marked and not in the report. -/
def failing (m : Fin n) : Frame n E → Nat
  | .record p .failed _ => if p = m then 1 else 0
  | _ => 0

/-- The node is marked and not counted off. -/
def counting : Frame n E → Nat
  | .record _ _ _ | .countNode _ => 1
  | _ => 0

/-- Whether to post `m` is being decided. -/
def deciding (m : Fin n) : Frame n E → Nat
  | .decide p | .decideCancel p | .post p => if p = m then 1 else 0
  | _ => 0

/-- The node is the last one. -/
def completing : Frame n E → Nat
  | .complete _ => 1
  | _ => 0

end Frame

/-! ## The accounts -/

/-- The places node `m` is in. -/
def tokens (s : Run n k E) (m : Fin n) : Nat :=
  s.roots.count m + s.queue.countP (fun c => c.1 = m) + weight (Frame.holds m) s.workers +
    (if (s.entries m).body = .suspended then 1 else 0) + s.triggered.count m

/-- The entry of the report for an outcome. -/
def GraphReport.count (r : GraphReport n E) : TaskState → Nat
  | .succeeded => r.succeededNodes
  | .failed => r.failedNodes
  | .cancelled => r.cancelledNodes
  | .waiting | .ready | .running | .suspended => 0

/-- Where the nodes and the edges are. -/
structure Places (g : FrozenTaskGraph n) (s : Run n k E) : Prop where
  /-- A node is in one place once its predecessors are counted off, and in none before. -/
  token : ∀ m, tokens s m = if (s.entries m).remainingPredecessors = 0 then 1 else 0
  /-- An edge is counted off, or about to be, once its predecessor is done. -/
  edges : ∀ m, (s.entries m).remainingPredecessors +
    (s.triggered.map fun p => edgesBetween g p m).sum =
      (g.indegree m + weight (Frame.pending m) s.workers : Nat)
  marks : ∀ m, (s.marks.map Prod.fst).count m =
    weight (Frame.marked m) s.workers + s.triggered.count m
  posted : ∀ m, s.posted.count m + s.roots.count m + weight (Frame.deciding m) s.workers ≤
    tokens s m
  started : ∀ m ∈ s.started, (s.entries m).remainingPredecessors = 0

/-- The counters of the run. -/
structure Totals (s : Run n k E) : Prop where
  nodes : s.remainingNodes + s.marks.length = (n + weight Frame.counting s.workers : Nat)
  report : ∀ outcome, outcome.terminal → s.report.count outcome +
    weight (Frame.recording outcome) s.workers = s.marks.countP fun c => c.2 = outcome
  failures : ∀ m, (s.report.failedNodeExceptions.map Prod.fst).count m +
    weight (Frame.failing m) s.workers = s.marks.count (m, .failed)
  completion : weight Frame.completing s.workers + s.completions.length =
    if s.remainingNodes = 0 ∧ 0 < n then 1 else 0
  runState : s.runState = s.completions.head?.getD (if n = 0 then .succeeded else .running)
  completed : ∀ r ∈ s.completions, r = s.report.runState ∧
    s.report.failedNodeExceptions.Pairwise fun a b => a.1 ≤ b.1

structure Ledger (g : FrozenTaskGraph n) (s : Run n k E) : Prop extends Places g s, Totals s

namespace Ledger

theorem token_le (h : Ledger g s) (m : Fin n) : tokens s m ≤ 1 := by
  rw [h.token]
  split <;> omega

theorem nodup_triggered (h : Ledger g s) : s.triggered.Nodup := by
  refine List.nodup_iff_count_le_one.mpr fun m => ?_
  have hle := h.token_le m
  rw [tokens] at hle
  omega

theorem marked_le (m : Fin n) (a : Frame n E) : Frame.marked m a ≤ Frame.holds m a := by
  cases a with
  | record p _ _ | countNode p | complete p | trigger p => exact Nat.le_refl _
  | _ => exact Nat.zero_le _

/-- No node is marked twice. -/
theorem marks_le (h : Ledger g s) (m : Fin n) : (s.marks.map Prod.fst).count m ≤ 1 := by
  have hle := h.token_le m
  have hmono := weight_mono (marked_le m) s.workers
  rw [h.marks m]
  rw [tokens] at hle
  omega

theorem marks_length_le (h : Ledger g s) : s.marks.length ≤ n := by
  have hnodup : (s.marks.map Prod.fst).Nodup := List.nodup_iff_count_le_one.mpr h.marks_le
  simpa using hnodup.length_le_card

/-- A counter that is about to be decreased is positive. -/
theorem pending_le (h : Ledger g s) (m : Fin n) :
    (weight (Frame.pending m) s.workers : Int) ≤ (s.entries m).remainingPredecessors := by
  have hedges := h.edges m
  have hsum := sum_edgesBetween_le (g := g) h.nodup_triggered m
  omega

theorem counting_le (h : Ledger g s) :
    (weight Frame.counting s.workers : Int) ≤ s.remainingNodes := by
  have hnodes := h.nodes
  have hlen := h.marks_length_le
  omega

/-- A completed run has counted off all its nodes. -/
theorem remainingNodes_eq_zero (h : Ledger g s) {r : GraphRunState} (hr : r ∈ s.completions) :
    s.remainingNodes = 0 := by
  by_contra hne
  have hcompletion := h.completion
  have hlen := List.length_pos_of_mem hr
  rw [if_neg fun hzero => hne hzero.1] at hcompletion
  omega

/-- A node in a worker's hands is not suspended. -/
theorem not_suspended (h : Ledger g s) {w : Fin k} {a : Frame n E} (ha : a ∈ s.workers w)
    {m : Fin n} (hm : Frame.holds m a = 1) : (s.entries m).body ≠ .suspended := by
  intro hsus
  have htoken := h.token_le m
  have hle := le_weight (f := Frame.holds m) ha
  simp only [tokens, hsus, if_true] at htoken
  omega

/-- The predecessors of a node in a place are done. -/
theorem predecessors_triggered (h : Ledger g s) {m : Fin n}
    (hzero : (s.entries m).remainingPredecessors = 0) :
    ∀ e ∈ g.edges, e.successor = m → e.predecessor ∈ s.triggered := by
  refine mem_of_sum_edgesBetween h.nodup_triggered ?_
  have hedges := h.edges m
  omega

theorem remaining_eq_zero (h : Ledger g s) {m : Fin n} (hpos : 0 < tokens s m) :
    (s.entries m).remainingPredecessors = 0 := by
  by_contra hne
  have htoken := h.token m
  rw [if_neg hne] at htoken
  omega

end Ledger

end GraphExecution
end AstraScheduler
