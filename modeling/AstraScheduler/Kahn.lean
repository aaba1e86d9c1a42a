import AstraScheduler.Acyclicity
import Mathlib.Algebra.Ring.Int.Defs
import Mathlib.Data.List.Perm.Subperm
import Mathlib.Data.List.Count

/-! # Kahn's algorithm

Every node counts its predecessors that have not been visited; a node whose count is zero
is ready.  A round takes one ready node, visits it and lowers the counts of its successors.
The rounds end when no node is ready, and they have visited every node exactly when the
graph has no cycle.  In which order the ready nodes are taken is left to `push`, which puts
a node anywhere into the queue. -/

namespace Kahn
open Acyclicity Relation
variable {α : Type*} [DecidableEq α]

structure State (α : Type*) where
  queue : List α
  /-- The predecessors not visited yet. -/
  missing : α → Int
  visitedCount : Nat := 0

/-- A predecessor of `v` has been visited. -/
def release (push : α → List α → List α) (s : State α) (v : α) : State α :=
  { s with
    missing := Function.update s.missing v (s.missing v - 1)
    queue := if s.missing v - 1 = 0 then push v s.queue else s.queue }

/-- At most `fuel` rounds. -/
def rounds (push : α → List α → List α) (succ : α → List α) : Nat → State α → State α
  | 0, s => s
  | fuel + 1, s =>
    match s.queue with
    | [] => s
    | u :: rest =>
      rounds push succ fuel
        ((succ u).foldl (release push)
          { s with queue := rest, visitedCount := s.visitedCount + 1 })

/-- Finitely many nodes, each with its successors, none of them twice. -/
structure Graph (nodes : List α) (succ : α → List α) : Prop where
  nodup : nodes.Nodup
  succ_nodup : ∀ u, (succ u).Nodup
  source : ∀ {u v}, v ∈ succ u → u ∈ nodes
  target : ∀ {u v}, v ∈ succ u → v ∈ nodes

/-- `push` adds the node somewhere. -/
def Adds (push : α → List α → List α) : Prop := ∀ a q, List.Perm (push a q) (a :: q)

/-- How many predecessors of `v` are outside `visited`. -/
def unvisitedPreds (nodes : List α) (succ : α → List α) (visited : List α) (v : α) : Nat :=
  nodes.countP fun u => u ∉ visited ∧ v ∈ succ u

variable {push : α → List α → List α} {nodes : List α} {succ : α → List α}

/-- The state when exactly the nodes of `visited` have been visited. -/
structure Inv (nodes : List α) (succ : α → List α) (visited : List α) (s : State α) : Prop where
  nodup : (visited ++ s.queue).Nodup
  known : ∀ v ∈ visited ++ s.queue, v ∈ nodes
  count : s.visitedCount = visited.length
  missing : ∀ v, s.missing v = unvisitedPreds nodes succ visited v
  ready : ∀ v ∈ nodes, s.missing v = 0 ↔ v ∈ visited ++ s.queue
  settled : Settled (fun v u => v ∈ succ u) fun v => v ∈ visited

theorem foldl_release (hpush : Adds push) {vs : List α} (hvs : vs.Nodup) (s : State α) :
    (vs.foldl (release push) s).visitedCount = s.visitedCount ∧
      (∀ v, (vs.foldl (release push) s).missing v =
        if v ∈ vs then s.missing v - 1 else s.missing v) ∧
      List.Perm (vs.foldl (release push) s).queue
        ((vs.filter fun v => s.missing v = 1) ++ s.queue) := by
  induction vs generalizing s with
  | nil => exact ⟨rfl, fun _ => rfl, .refl _⟩
  | cons v vs ih =>
    obtain ⟨hv, hvs⟩ := List.nodup_cons.mp hvs
    obtain ⟨hcount, hmissing, hqueue⟩ := ih hvs (release push s v)
    have hsame : ∀ w ∈ vs, (release push s v).missing w = s.missing w := by
      intro w hw
      exact Function.update_of_ne (fun h : w = v => hv (h ▸ hw)) ..
    refine ⟨hcount, fun w => ?_, ?_⟩
    · rw [List.foldl_cons, hmissing]
      by_cases hwv : w = v
      · subst hwv
        rw [if_neg hv, if_pos List.mem_cons_self]
        exact Function.update_self ..
      · by_cases hw : w ∈ vs
        · rw [if_pos hw, if_pos (List.mem_cons_of_mem v hw), hsame w hw]
        · rw [if_neg hw, if_neg fun h => (List.mem_cons.mp h).elim hwv hw]
          exact Function.update_of_ne hwv ..
    · rw [List.foldl_cons]
      refine hqueue.trans ?_
      rw [List.filter_congr (q := fun w => decide (s.missing w = 1)) fun w hw => by
        rw [hsame w hw]]
      by_cases hone : s.missing v = 1
      · have hq : (release push s v).queue = push v s.queue :=
          if_pos (by rw [hone]; rfl)
        rw [hq, List.filter_cons_of_pos (by simpa using hone)]
        exact ((hpush v s.queue).append_left _).trans List.perm_middle
      · have hq : (release push s v).queue = s.queue := if_neg (by omega)
        rw [hq, List.filter_cons_of_neg (by simpa using hone)]

/-- Visiting `u` takes it out of the counts of its successors. -/
theorem unvisitedPreds_cons (g : Graph nodes succ) {visited : List α} {u : α}
    (hu : u ∈ nodes) (hnew : u ∉ visited) (v : α) :
    (unvisitedPreds nodes succ (u :: visited) v : Int) =
      if v ∈ succ u then (unvisitedPreds nodes succ visited v : Int) - 1
      else unvisitedPreds nodes succ visited v := by
  have hperm := List.perm_cons_erase hu
  unfold unvisitedPreds
  rw [hperm.countP_eq, hperm.countP_eq, List.countP_cons, List.countP_cons]
  have hrest : (nodes.erase u).countP (fun w => w ∉ u :: visited ∧ v ∈ succ w) =
      (nodes.erase u).countP (fun w => w ∉ visited ∧ v ∈ succ w) := by
    refine List.countP_congr fun w hw => ?_
    have hne : w ≠ u := fun h => (g.nodup.mem_erase_iff.mp hw).1 h
    simp [hne]
  rw [hrest]
  by_cases hv : v ∈ succ u
  · simp [hv, hnew]
  · simp [hv]

theorem unvisitedPreds_pos (g : Graph nodes succ) {visited : List α} {u v : α}
    (hnew : u ∉ visited) (hv : v ∈ succ u) : 0 < unvisitedPreds nodes succ visited v :=
  List.countP_pos_iff.mpr ⟨u, g.source hv, by simp [hnew, hv]⟩

/-- **A round**: a ready node is visited. -/
theorem Inv.round (hpush : Adds push) (g : Graph nodes succ) {visited : List α} {s : State α}
    {u : α} {rest : List α} (h : Inv nodes succ visited s) (hq : s.queue = u :: rest) :
    Inv nodes succ (u :: visited) ((succ u).foldl (release push)
      { s with queue := rest, visitedCount := s.visitedCount + 1 }) := by
  obtain ⟨hcount, hmissing, hqueue⟩ := foldl_release hpush (g.succ_nodup u)
    { s with queue := rest, visitedCount := s.visitedCount + 1 }
  have hnd := h.nodup
  rw [hq] at hnd
  have hu : u ∈ nodes := h.known u (by rw [hq]; simp)
  have hnew : u ∉ visited := fun hu => (List.nodup_append.mp hnd).2.2 u hu u (by simp) rfl
  -- nothing that was ready before follows `u`
  have hnot : ∀ v ∈ nodes, v ∈ visited ++ u :: rest → v ∉ succ u := by
    intro v hv hready hsucc
    have hzero := (h.ready v hv).mpr (hq ▸ hready)
    have hpos := unvisitedPreds_pos g hnew hsucc
    rw [h.missing] at hzero
    omega
  have hmem : ∀ v, v ∈ (u :: visited) ++ ((succ u).foldl (release push)
      { s with queue := rest, visitedCount := s.visitedCount + 1 }).queue ↔
      v ∈ visited ++ u :: rest ∨ v ∈ succ u ∧ s.missing v = 1 := by
    intro v
    rw [List.mem_append, hqueue.mem_iff]
    simp only [List.mem_cons, List.mem_append, List.mem_filter, decide_eq_true_eq]
    tauto
  refine ⟨?_, fun v hv => ?_, ?_, fun v => ?_, fun v hv => ?_, ?_⟩
  · have hperm : List.Perm ((u :: visited) ++ ((succ u).foldl (release push)
        { s with queue := rest, visitedCount := s.visitedCount + 1 }).queue)
        (((succ u).filter fun v => s.missing v = 1) ++ (visited ++ u :: rest)) := by
      refine (hqueue.append_left _).trans ?_
      refine (List.perm_append_comm_assoc (u :: visited) _ rest).trans ?_
      exact List.Perm.append_left _ List.perm_middle.symm
    refine hperm.nodup_iff.mpr (List.nodup_append.mpr ⟨(g.succ_nodup u).filter _, hnd, ?_⟩)
    rintro a ha b hb rfl
    exact hnot a (g.target (List.mem_of_mem_filter ha)) hb (List.mem_of_mem_filter ha)
  · rcases (hmem v).mp hv with hv | ⟨hv, -⟩
    · exact h.known v (hq ▸ hv)
    · exact g.target hv
  · rw [hcount, List.length_cons, h.count]
  · rw [hmissing, unvisitedPreds_cons g hu hnew, ← h.missing]
  · rw [hmissing, hmem]
    by_cases hsucc : v ∈ succ u
    · rw [if_pos hsucc]
      have := hnot v hv
      constructor
      · intro hzero
        exact .inr ⟨hsucc, by simp only at hzero; omega⟩
      · rintro (hready | ⟨-, hone⟩)
        · exact absurd hsucc (hnot v hv hready)
        · simp only
          omega
    · rw [if_neg hsucc]
      refine (h.ready v hv).trans ?_
      rw [hq]
      simp [hsucc]
  · refine (h.settled.insert hnew fun b hb => ?_).congr fun a => List.mem_cons.symm
    -- a ready node has no predecessor left to visit
    by_contra hno
    have hzero := (h.ready u hu).mpr (by rw [hq]; simp)
    have hpos := unvisitedPreds_pos g hno hb
    rw [h.missing] at hzero
    omega

/-- With a round for every node, no node is ready at the end. -/
theorem Inv.rounds (hpush : Adds push) (g : Graph nodes succ) {fuel : Nat} {visited : List α}
    {s : State α} (h : Inv nodes succ visited s) (hf : nodes.length ≤ visited.length + fuel) :
    ∃ visited', Inv nodes succ visited' (rounds push succ fuel s) ∧
      (rounds push succ fuel s).queue = [] := by
  induction fuel generalizing visited s with
  | zero =>
    refine ⟨visited, h, ?_⟩
    have hle := (List.subperm_of_subset h.nodup h.known).length_le
    rw [List.length_append] at hle
    exact List.length_eq_zero_iff.mp (by show s.queue.length = 0; omega)
  | succ fuel ih =>
    unfold Kahn.rounds
    split
    · rename_i hq
      exact ⟨visited, h, hq⟩
    · rename_i u rest hq
      exact ih (h.round hpush g hq) (by rw [List.length_cons]; omega)

/-- Where no node is ready, all are visited or there is a cycle. -/
theorem Inv.visited_iff (g : Graph nodes succ) {visited : List α} {s : State α}
    (h : Inv nodes succ visited s) (hq : s.queue = []) :
    nodes.length ≤ s.visitedCount ↔ Acyclic fun u v => v ∈ succ u := by
  have hready := h.ready
  have hnodup := h.nodup
  have hnodes := h.known
  simp only [hq, List.append_nil] at hready hnodup hnodes
  constructor
  · intro hall
    have hperm : List.Perm visited nodes :=
      (List.subperm_of_subset hnodup hnodes).perm_of_length_le (by rw [← h.count]; exact hall)
    refine acyclic_swap.mp (h.settled.acyclic_of_source fun v u hv => ?_)
    exact hperm.mem_iff.mpr (g.target hv)
  · intro hacyclic
    by_contra hless
    let left := nodes.filter fun v => v ∉ visited
    have hne : left ≠ [] := by
      intro hnil
      have hsub : ∀ v ∈ nodes, v ∈ visited := by
        intro v hv
        by_contra hno
        have : v ∈ left := List.mem_filter.mpr ⟨hv, by simpa using hno⟩
        rw [hnil] at this
        cases this
      have := (List.subperm_of_subset g.nodup hsub).length_le
      rw [← h.count] at this
      exact hless this
    refine not_acyclic_of_pred hne (fun v hv => ?_) hacyclic
    obtain ⟨hv, hno⟩ := List.mem_filter.mp hv
    have hno : v ∉ visited := by simpa using hno
    have hpos : unvisitedPreds nodes succ visited v ≠ 0 := by
      intro hzero
      exact hno ((hready v hv).mp (by rw [h.missing, hzero]; rfl))
    obtain ⟨u, hu, huv⟩ := List.countP_pos_iff.mp (Nat.pos_of_ne_zero hpos)
    simp only [decide_eq_true_eq] at huv
    exact ⟨u, List.mem_filter.mpr ⟨hu, by simpa using huv.1⟩, huv.2⟩

/-- **Kahn's algorithm**: started with every node's number of predecessors and the nodes
without one, the rounds visit all nodes exactly when the graph is acyclic. -/
theorem rounds_visitedCount (hpush : Adds push) (g : Graph nodes succ) {s : State α} {fuel : Nat}
    (hmissing : ∀ v, s.missing v = unvisitedPreds nodes succ [] v)
    (hqueue : List.Perm s.queue (nodes.filter fun v => s.missing v = 0))
    (hcount : s.visitedCount = 0) (hf : nodes.length ≤ fuel) :
    nodes.length ≤ (rounds push succ fuel s).visitedCount ↔ Acyclic fun u v => v ∈ succ u := by
  have h : Inv nodes succ [] s := by
    refine ⟨?_, fun v hv => ?_, hcount, hmissing, fun v hv => ?_,
      Settled.empty.congr fun _ => by simp⟩
    · rw [List.nil_append]
      exact hqueue.nodup_iff.mpr (g.nodup.filter _)
    · rw [List.nil_append] at hv
      exact List.mem_of_mem_filter (hqueue.mem_iff.mp hv)
    · rw [List.nil_append, hqueue.mem_iff, List.mem_filter]
      simp [hv]
  obtain ⟨visited, hend, hq⟩ := h.rounds hpush g (by simpa using hf)
  exact hend.visited_iff g hq

end Kahn
