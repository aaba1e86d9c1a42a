import AstraScheduler.GraphExecution

/-! # The slots of a graph run

A graph run is admitted with one slot for each of its nodes.  A node gives its slot to
its invoker when it is posted, or back to the admission controller when
`trigger_successors` cancels it.  Which nodes are decided is settled by their countdowns:
a call that counts a node down from one decides it.  Here nothing is said of who counts
down, or how often: any thread may count down any node at any time, and still no node is
decided twice.  `slots_simulates` shows that a run of `GraphExecution` is one of these. -/

namespace AstraScheduler

/-- The slots of one call of `GraphExecution::run`; node `m` is `NodeId{m + 1}`.  The
last two fields record what has happened to the nodes. -/
structure GraphSlots where
  nodeCount : Nat
  isInternal : Bool
  /-- The `GraphAdmissionLease` is not yet committed. -/
  leased : Bool := true
  remainingPredecessors : Nat → Int
  /-- The roots that `run` has still to post. -/
  roots : List Nat := []
  /-- The nodes that some call of `trigger_successors` has counted down to zero and not yet
  posted or cancelled. -/
  decisions : List Nat := []
  posted : List Nat := []
  released : List Nat := []

namespace GraphSlots
variable (g : GraphSlots)

/-- `run` after `acquire_graph_slots`, for a graph with these indegrees. -/
def admitted (nodeCount : Nat) (isInternal : Bool) (indegree : Nat → Nat) : GraphSlots where
  nodeCount := nodeCount
  isInternal := isInternal
  remainingPredecessors m := indegree m

/-- `GraphAdmissionLease::commit`, with the roots `run` has collected in the order of
their nodes. -/
def commit : GraphSlots :=
  { g with
    leased := false
    roots := (List.range g.nodeCount).filter fun m => g.remainingPredecessors m = 0 }

/-- `remaining_predecessors.fetch_sub(1)` of `trigger_successors`. -/
def countDown (m : Nat) : GraphSlots :=
  { g with
    remainingPredecessors :=
      Function.update g.remainingPredecessors m (g.remainingPredecessors m - 1)
    decisions := if g.remainingPredecessors m = 1 then g.decisions ++ [m] else g.decisions }

/-- `post_node` of the first root. -/
def postRoot : Option GraphSlots :=
  match g.roots with
  | [] => none
  | m :: roots => some { g with roots := roots, posted := g.posted ++ [m] }

/-- `post_node` of a decided node. -/
def postDecided (m : Nat) : Option GraphSlots :=
  if m ∈ g.decisions then
    some { g with decisions := g.decisions.erase m, posted := g.posted ++ [m] }
  else none

/-- A decided node is cancelled: its slot is released. -/
def cancelDecided (m : Nat) : Option GraphSlots :=
  if m ∈ g.decisions then
    some { g with decisions := g.decisions.erase m, released := g.released ++ [m] }
  else none

/-- The nodes that have their slot still. -/
def unposted : List Nat :=
  (List.range g.nodeCount).filter fun m => m ∉ g.posted ∧ m ∉ g.released

/-- The units of the pending counter that stand for unposted nodes. -/
def units : Nat := if g.isInternal then 0 else g.unposted.length

/-- The nodes that have been decided, whatever has become of them. -/
def decided : List Nat := g.roots ++ g.decisions ++ g.posted ++ g.released

/-- A node is decided once, when its countdown reaches zero. -/
structure Counted (g : GraphSlots) : Prop where
  once : ∀ m, g.decided.count m =
    if m < g.nodeCount ∧ g.leased = false ∧ g.remainingPredecessors m ≤ 0 then 1 else 0
  indegree : g.leased → ∀ m, 0 ≤ g.remainingPredecessors m

variable {g} {g' : GraphSlots} {m : Nat} {n : Nat} {isInternal : Bool} {indegree : Nat → Nat}

theorem unposted_eq_range (h : g.posted = [] ∧ g.released = []) :
    g.unposted = List.range g.nodeCount := by
  simp [unposted, h.1, h.2]

theorem units_admitted : (admitted n isInternal indegree).units = if isInternal then 0 else n := by
  rw [units, unposted_eq_range ⟨rfl, rfl⟩, List.length_range]
  rfl

namespace Counted

theorem admitted : Counted (GraphSlots.admitted n isInternal indegree) where
  once := by simp [decided, GraphSlots.admitted]
  indegree := fun _ m => Int.natCast_nonneg _

theorem empty_of_leased (h : Counted g) (hl : g.leased = true) : g.decided = [] := by
  refine List.eq_nil_iff_forall_not_mem.mpr fun m hm => ?_
  have hcount := h.once m
  rw [if_neg (by simp [hl]), List.count_eq_zero] at hcount
  exact hcount hm

/-- Before the commit every node has its slot. -/
theorem units_of_leased (h : Counted g) (hl : g.leased = true) :
    g.units = if g.isInternal then 0 else g.nodeCount := by
  have hempty := h.empty_of_leased hl
  simp only [decided, List.append_eq_nil_iff] at hempty
  rw [units, unposted_eq_range ⟨hempty.1.2, hempty.2⟩, List.length_range]

theorem commit (h : Counted g) (hl : g.leased = true) : Counted g.commit where
  once := by
    intro m
    have hempty := h.empty_of_leased hl
    simp only [decided, List.append_eq_nil_iff] at hempty
    obtain ⟨⟨⟨-, hdecisions⟩, hposted⟩, hreleased⟩ := hempty
    have hzero : g.remainingPredecessors m = 0 ↔ g.remainingPredecessors m ≤ 0 := by
      have := h.indegree hl m
      omega
    have hnd : ((List.range g.nodeCount).filter fun p =>
        decide (g.remainingPredecessors p = 0)).Nodup := List.nodup_range.filter _
    simp only [decided, GraphSlots.commit, hdecisions, hposted, hreleased, List.append_nil]
    rw [hnd.count]
    simp [hzero]
  indegree := nofun

theorem countDown (h : Counted g) (hl : g.leased = false) (m : Nat) (hm : m < g.nodeCount) :
    Counted (g.countDown m) where
  once := by
    intro p
    have hcount := h.once p
    simp only [decided, List.count_append] at hcount
    by_cases hp : p = m
    · subst hp
      by_cases hone : g.remainingPredecessors p = 1
      · rw [if_neg (by simp [hone])] at hcount
        simp only [decided, GraphSlots.countDown, hone, if_true, List.count_append,
          Function.update_self, List.count_singleton_self]
        rw [if_pos ⟨hm, hl, by omega⟩]
        omega
      · simp only [decided, GraphSlots.countDown, if_neg hone, List.count_append,
          Function.update_self]
        by_cases hle : g.remainingPredecessors p ≤ 0
        · rw [if_pos ⟨hm, hl, hle⟩] at hcount
          rw [if_pos ⟨hm, hl, by omega⟩]
          exact hcount
        · rw [if_neg (by simp [hle])] at hcount
          rw [if_neg (by omega)]
          exact hcount
    · have hdecisions : (g.countDown m).decisions.count p = g.decisions.count p := by
        simp only [GraphSlots.countDown]
        split
        · rw [List.count_append, List.count_singleton, if_neg (by simpa using Ne.symm hp)]
          rfl
        · rfl
      simp only [decided, List.count_append, hdecisions]
      simpa only [GraphSlots.countDown, Function.update_of_ne hp] using hcount
  indegree := by
    intro hleased
    exact absurd (hl.symm.trans hleased) (by decide)

/-- Moving a node from one stage to the next decides nothing new. -/
theorem of_perm (h : Counted g) (hperm : g'.decided.Perm g.decided)
    (hn : g'.nodeCount = g.nodeCount) (hl : g'.leased = g.leased)
    (hr : g'.remainingPredecessors = g.remainingPredecessors) : Counted g' where
  once := by
    intro m
    rw [hperm.count_eq, hn, hl, hr]
    exact h.once m
  indegree := by
    rw [hl, hr]
    exact h.indegree

theorem nodup (h : Counted g) : g.decided.Nodup :=
  List.nodup_iff_count_le_one.mpr fun m => by
    rw [h.once m]
    split <;> omega

theorem lt_of_mem (h : Counted g) (hm : m ∈ g.decided) : m < g.nodeCount := by
  by_contra hge
  have hcount := h.once m
  rw [if_neg (by omega), List.count_eq_zero] at hcount
  exact hcount hm

end Counted

/-- The slot of an undecided or waiting node leaves the run once. -/
theorem unposted_perm (hm : m < g.nodeCount) (hposted : m ∉ g.posted) (hreleased : m ∉ g.released)
    (hn : g'.nodeCount = g.nodeCount)
    (hgone : ∀ p, (p ∈ g'.posted ∨ p ∈ g'.released) ↔ (p = m ∨ p ∈ g.posted ∨ p ∈ g.released)) :
    (m :: g'.unposted).Perm g.unposted := by
  have hmem : m ∈ g.unposted := by simp [unposted, hm, hposted, hreleased]
  have hnd : g.unposted.Nodup := List.nodup_range.filter _
  have heq : g'.unposted = g.unposted.erase m := by
    rw [hnd.erase_eq_filter, unposted, unposted, List.filter_filter, hn]
    refine List.filter_congr fun p _ => ?_
    have := hgone p
    rw [Bool.eq_iff_iff]
    simp only [decide_eq_true_eq, Bool.and_eq_true, bne_iff_ne]
    tauto
  rw [heq]
  exact (List.perm_cons_erase hmem).symm

/-- A decided node gives up its slot. -/
structure Settles (g g' : GraphSlots) : Prop where
  counted : Counted g'
  isInternal : g'.isInternal = g.isInternal
  units : g.units = g'.units + if g.isInternal then 0 else 1

/-- `m` has waited in one of the lists of decided nodes; `g'` has it among the posted or
the released ones. -/
theorem Counted.settles (h : Counted g) (hperm : g'.decided.Perm g.decided)
    (hn : g'.nodeCount = g.nodeCount) (hl : g'.leased = g.leased)
    (hr : g'.remainingPredecessors = g.remainingPredecessors)
    (hint : g'.isInternal = g.isInternal) (hm : m ∈ g.roots ++ g.decisions)
    (hgone : ∀ p, (p ∈ g'.posted ∨ p ∈ g'.released) ↔
      (p = m ∨ p ∈ g.posted ∨ p ∈ g.released)) : Settles g g' where
  counted := h.of_perm hperm hn hl hr
  isInternal := hint
  units := by
    have hnd := h.nodup
    rw [decided, List.append_assoc, List.nodup_append] at hnd
    have hout : m ∉ g.posted ++ g.released := fun hmem => hnd.2.2 m hm m hmem rfl
    rw [List.mem_append, not_or] at hout
    have hlt : m < g.nodeCount := by
      refine h.lt_of_mem ?_
      rw [decided, List.append_assoc]
      exact List.mem_append_left _ hm
    have hlength := (unposted_perm hlt hout.1 hout.2 hn hgone).length_eq
    rw [List.length_cons] at hlength
    simp only [GraphSlots.units, hint]
    split
    · rfl
    · exact hlength.symm

namespace Counted

theorem postRoot (h : Counted g) (hp : g.postRoot = some g') : Settles g g' := by
  unfold GraphSlots.postRoot at hp
  split at hp
  · cases hp
  case h_2 m roots hroots =>
    obtain rfl := Option.some.inj hp
    refine h.settles (m := m) ?_ rfl rfl rfl rfl (by simp [hroots]) fun p => ?_
    · refine List.perm_iff_count.mpr fun a => ?_
      simp only [decided, hroots, List.count_append, List.count_cons, List.count_nil]
      omega
    · simp only [List.mem_append, List.mem_singleton]
      tauto

/-- The two ways out of the decided nodes. -/
theorem settle (h : Counted g) (hm : m ∈ g.decisions) {posted released : List Nat}
    (hperm : (posted ++ released).Perm (m :: (g.posted ++ g.released))) :
    Settles g
      { g with decisions := g.decisions.erase m, posted := posted, released := released } := by
  refine h.settles (m := m) ?_ rfl rfl rfl rfl (List.mem_append_right _ hm) fun p => ?_
  · refine List.perm_iff_count.mpr fun a => ?_
    have hcount := hperm.count_eq a
    have herase := (List.perm_cons_erase hm).count_eq a
    simp only [decided, List.count_append, List.count_cons] at hcount herase ⊢
    omega
  · have hmem := hperm.mem_iff (a := p)
    simpa only [List.mem_append, List.mem_cons] using hmem

theorem postDecided (h : Counted g) (hp : g.postDecided m = some g') : Settles g g' := by
  unfold GraphSlots.postDecided at hp
  split at hp
  case isFalse => cases hp
  case isTrue hm =>
    obtain rfl := Option.some.inj hp
    refine h.settle hm ?_
    rw [List.append_assoc]
    exact List.perm_middle

theorem cancelDecided (h : Counted g) (hp : g.cancelDecided m = some g') : Settles g g' := by
  unfold GraphSlots.cancelDecided at hp
  split at hp
  case isFalse => cases hp
  case isTrue hm =>
    obtain rfl := Option.some.inj hp
    refine h.settle hm ?_
    rw [← List.append_assoc]
    exact List.perm_append_singleton ..

end Counted

end GraphSlots
end AstraScheduler
