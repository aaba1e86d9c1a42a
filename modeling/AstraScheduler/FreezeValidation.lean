import AstraScheduler.GraphFreeze

/-! # What freezing accepts

The passes of `freeze` decide the four conditions on the edges, in their order: the loops
over the edges compute the successors and the numbers of predecessors of the graph the
edges describe, and Kahn's algorithm leaves a node of that graph out exactly when it has a
cycle.  A frozen graph is a graph the execution can run. -/

namespace AstraScheduler
namespace GraphFreeze
open Acyclicity Relation
variable {ν : Type} {n : Nat} {edges : List Edge}

/-- There is an edge from `u` to `v`. -/
def Leads (edges : List Edge) (u v : Nat) : Prop :=
  ∃ e ∈ edges, e.fromNode = u ∧ e.toNode = v

/-- Every edge connects nodes of the builder. -/
def InRange (n : Nat) (edges : List Edge) : Prop :=
  ∀ e ∈ edges, (1 ≤ e.fromNode ∧ e.fromNode ≤ n) ∧ 1 ≤ e.toNode ∧ e.toNode ≤ n

def NoSelfEdge (edges : List Edge) : Prop := ∀ e ∈ edges, e.fromNode ≠ e.toNode

def NoDuplicate (edges : List Edge) : Prop := (edges.map Edge.key).Nodup

/-- The edges of a directed acyclic graph on the nodes `1, …, n`. -/
structure ValidDag (n : Nat) (edges : List Edge) : Prop where
  inRange : InRange n edges
  noSelfEdge : NoSelfEdge edges
  noDuplicate : NoDuplicate edges
  acyclic : Acyclic (Leads edges)

/-- The reason is the first that applies. -/
def FirstReason (n : Nat) (edges : List Edge) : GraphValidationError → Prop
  | .foreignNode => ¬ InRange n edges
  | .selfEdge => InRange n edges ∧ ¬ NoSelfEdge edges
  | .duplicateEdge => InRange n edges ∧ NoSelfEdge edges ∧ ¬ NoDuplicate edges
  | .cycle =>
    InRange n edges ∧ NoSelfEdge edges ∧ NoDuplicate edges ∧ ¬ Acyclic (Leads edges)

/-! ## The loops over the edges -/

theorem mem_nodeIds {u : Nat} : u ∈ nodeIds n ↔ 1 ≤ u ∧ u ≤ n := by
  unfold nodeIds
  rw [List.mem_range'_1]
  omega

theorem length_nodeIds : (nodeIds n).length = n := List.length_range' ..

theorem nodup_nodeIds : (nodeIds n).Nodup := List.nodup_range' ..

theorem adjacency_eq (edges : List Edge) (u : Nat) :
    adjacency edges u = (edges.filter fun e => e.fromNode = u).map Edge.toNode := by
  have hfold : ∀ adj : Nat → List Nat,
      (edges.foldl (fun (adj : Nat → List Nat) (e : Edge) =>
        Function.update adj e.fromNode (adj e.fromNode ++ [e.toNode])) adj) u =
        adj u ++ (edges.filter fun e => e.fromNode = u).map Edge.toNode := by
    induction edges with
    | nil => exact fun adj => (List.append_nil _).symm
    | cons e es ih =>
      intro adj
      rw [List.foldl_cons, ih]
      by_cases heu : e.fromNode = u
      · subst heu
        simp
      · simp [heu, Function.update_of_ne (Ne.symm heu)]
  exact (hfold _).trans (List.nil_append _)

theorem inDegree_eq (edges : List Edge) (v : Nat) :
    inDegree edges v = edges.countP fun e => e.toNode = v := by
  have hfold : ∀ degree : Nat → Int,
      (edges.foldl (fun (degree : Nat → Int) (e : Edge) =>
        Function.update degree e.toNode (degree e.toNode + 1)) degree) v =
        degree v + edges.countP fun e => e.toNode = v := by
    induction edges with
    | nil => exact fun degree => (Int.add_zero _).symm
    | cons e es ih =>
      intro degree
      rw [List.foldl_cons, ih]
      by_cases hev : e.toNode = v
      · subst hev
        simp
        omega
      · simp [hev, Function.update_of_ne (Ne.symm hev)]
  exact (hfold _).trans (Int.zero_add _)

theorem sortedAdjacency_perm (edges : List Edge) (u : Nat) :
    List.Perm (sortedAdjacency edges u)
      ((edges.filter fun e => e.fromNode = u).map Edge.toNode) := by
  rw [← adjacency_eq]
  exact List.perm_insertionSort ..

theorem mem_sortedAdjacency {u v : Nat} :
    v ∈ sortedAdjacency edges u ↔ Leads edges u v := by
  rw [(sortedAdjacency_perm edges u).mem_iff, List.mem_map]
  simp only [List.mem_filter, decide_eq_true_eq, and_assoc]
  rfl

/-- Seen from one end, edges without repetition have different other ends. -/
theorem nodup_map_of_key {l : List Edge} {f g : Edge → Nat} {u : Nat}
    (hl : (l.map Edge.key).Nodup) (hkey : ∀ a b : Edge, f a = f b → g a = g b → a.key = b.key)
    (hf : ∀ e ∈ l, f e = u) : (l.map g).Nodup := by
  rw [List.Nodup, List.pairwise_map] at hl ⊢
  refine hl.imp_of_mem fun ha hb hne hg => ?_
  exact hne (hkey _ _ ((hf _ ha).trans (hf _ hb).symm) hg)

theorem NoDuplicate.filter (h : NoDuplicate edges) (p : Edge → Bool) :
    ((edges.filter p).map Edge.key).Nodup :=
  h.sublist (List.filter_sublist.map _)

theorem kahnGraph (hrange : InRange n edges) (hdup : NoDuplicate edges) :
    Kahn.Graph (nodeIds n) (sortedAdjacency edges) where
  nodup := nodup_nodeIds
  succ_nodup u := by
    refine (sortedAdjacency_perm edges u).nodup_iff.mpr
      (nodup_map_of_key (f := Edge.fromNode) (u := u) (hdup.filter _) ?_ ?_)
    · exact fun a b hfrom hto => Prod.ext hfrom hto
    · exact fun e he => by simpa using (List.mem_filter.mp he).2
  source h := by
    obtain ⟨e, he, rfl, -⟩ := mem_sortedAdjacency.mp h
    exact mem_nodeIds.mpr (hrange e he).1
  target h := by
    obtain ⟨e, he, -, rfl⟩ := mem_sortedAdjacency.mp h
    exact mem_nodeIds.mpr (hrange e he).2

/-- The in-degrees count the predecessors. -/
theorem inDegree_eq_unvisitedPreds (hrange : InRange n edges) (hdup : NoDuplicate edges)
    (v : Nat) :
    inDegree edges v = Kahn.unvisitedPreds (nodeIds n) (sortedAdjacency edges) [] v := by
  have hperm : List.Perm ((edges.filter fun e => e.toNode = v).map Edge.fromNode)
      ((nodeIds n).filter fun u => u ∉ ([] : List Nat) ∧ v ∈ sortedAdjacency edges u) := by
    refine (List.perm_ext_iff_of_nodup ?_ (nodup_nodeIds.filter _)).mpr fun u => ?_
    · refine nodup_map_of_key (f := Edge.toNode) (u := v) (hdup.filter _) ?_ ?_
      · exact fun a b hto hfrom => Prod.ext hfrom hto
      · exact fun e he => by simpa using (List.mem_filter.mp he).2
    · rw [List.mem_map, List.mem_filter, mem_nodeIds]
      simp only [List.mem_filter, decide_eq_true_eq, mem_sortedAdjacency, List.not_mem_nil,
        not_false_eq_true, true_and]
      constructor
      · rintro ⟨e, ⟨he, hto⟩, rfl⟩
        exact ⟨(hrange e he).1, e, he, rfl, hto⟩
      · rintro ⟨-, e, he, rfl, hto⟩
        exact ⟨e, ⟨he, hto⟩, rfl⟩
  rw [inDegree_eq, Kahn.unvisitedPreds, List.countP_eq_length_filter,
    List.countP_eq_length_filter, ← hperm.length_eq, List.length_map]

theorem adds_pushReady : Kahn.Adds pushReady := fun v q => List.perm_orderedInsert (· ≤ ·) v q

theorem kahnStart_queue (n : Nat) (edges : List Edge) :
    List.Perm (kahnStart n edges).queue ((nodeIds n).filter fun v => inDegree edges v = 0) := by
  have hfold : ∀ (ids queue : List Nat), List.Perm
      (ids.foldl (fun queue i => if inDegree edges i = 0 then pushReady i queue else queue) queue)
      (ids.filter (fun v => inDegree edges v = 0) ++ queue) := by
    intro ids
    induction ids with
    | nil => exact fun queue => .refl _
    | cons i ids ih =>
      intro queue
      rw [List.foldl_cons]
      refine (ih _).trans ?_
      by_cases hi : inDegree edges i = 0
      · rw [if_pos hi, List.filter_cons_of_pos (by simpa using hi)]
        exact ((adds_pushReady i queue).append_left _).trans List.perm_middle
      · rw [if_neg hi, List.filter_cons_of_neg (by simpa using hi)]
  exact (hfold _ _).trans (.of_eq (List.append_nil _))

theorem visitedCount_lt_iff (hrange : InRange n edges) (hdup : NoDuplicate edges) :
    visitedCount n edges < n ↔ ¬ Acyclic (Leads edges) := by
  have hkahn := Kahn.rounds_visitedCount adds_pushReady (kahnGraph hrange hdup)
    (s := kahnStart n edges) (inDegree_eq_unvisitedPreds hrange hdup)
    (kahnStart_queue n edges) rfl (Nat.le_of_eq length_nodeIds)
  rw [length_nodeIds] at hkahn
  have hrel : (fun u v => v ∈ sortedAdjacency edges u) = Leads edges := by
    funext u v
    exact propext mem_sortedAdjacency
  rw [hrel] at hkahn
  rw [← hkahn]
  exact Nat.not_le.symm

/-! ## The passes -/

theorem any_foreign_iff : edges.any (foreign n) = true ↔ ¬ InRange n edges := by
  rw [List.any_eq_true, InRange, not_forall]
  refine exists_congr fun e => ?_
  rw [foreign, decide_eq_true_iff, Classical.not_imp]
  refine and_congr_right fun _ => ?_
  omega

theorem any_self_iff : (edges.any fun e => e.fromNode = e.toNode) = true ↔
    ¬ NoSelfEdge edges := by
  simp [NoSelfEdge]

theorem repeats_iff (seen : List (Nat × Nat)) (edges : List Edge) :
    repeats seen edges = true ↔ ¬ ((∀ e ∈ edges, e.key ∉ seen) ∧ NoDuplicate edges) := by
  induction edges generalizing seen with
  | nil => simp [repeats, NoDuplicate]
  | cons e es ih =>
    unfold repeats
    by_cases he : e.key ∈ seen
    · rw [if_pos he]
      simp [he]
    · rw [if_neg he, ih]
      refine not_congr ?_
      simp only [NoDuplicate, List.map_cons, List.nodup_cons, List.mem_map, List.mem_cons,
        not_or, not_exists, not_and]
      constructor
      · rintro ⟨hnew, hdup⟩
        refine ⟨?_, fun a ha => (hnew a ha).1, hdup⟩
        rintro a (rfl | ha)
        · exact he
        · exact (hnew a ha).2
      · rintro ⟨hseen, hother, hdup⟩
        exact ⟨fun a ha => ⟨hother a ha, hseen a (.inr ha)⟩, hdup⟩

theorem acyclic_nil : Acyclic (Leads []) := by
  intro a hcycle
  obtain ⟨b, ⟨e, he, -⟩, -⟩ := TransGen.head'_iff.mp hcycle
  cases he

/-- A graph with a reason to reject it is not valid. -/
theorem FirstReason.not_valid {reason : GraphValidationError}
    (h : FirstReason n edges reason) : ¬ ValidDag n edges := by
  intro hvalid
  cases reason with
  | foreignNode => exact h hvalid.inRange
  | selfEdge => exact h.2 hvalid.noSelfEdge
  | duplicateEdge => exact h.2.2 hvalid.noDuplicate
  | cycle => exact h.2.2.2 hvalid.acyclic

namespace TaskGraph

/-- The two ways `freeze` can end. -/
theorem freeze_cases (g : TaskGraph ν) :
    ValidDag g.nodes.length g.edges ∧
        g.freeze = (.ok { nodes := g.nodes, edges := g.edges }, { nodes := [], edges := [] }) ∨
      ∃ failure, FirstReason g.nodes.length g.edges failure.reason ∧
        g.freeze = (.error failure, g) := by
  simp only [freeze]
  by_cases hrange : InRange g.nodes.length g.edges
  · rw [if_neg fun h => any_foreign_iff.mp h hrange]
    by_cases hself : NoSelfEdge g.edges
    · rw [if_neg fun h => any_self_iff.mp h hself]
      by_cases hdup : NoDuplicate g.edges
      · rw [if_neg fun h => (repeats_iff _ _).mp h ⟨fun _ _ => List.not_mem_nil, hdup⟩]
        by_cases hacyclic : Acyclic (Leads g.edges)
        · rw [if_neg fun h => (visitedCount_lt_iff hrange hdup).mp h.2 hacyclic]
          exact .inl ⟨⟨hrange, hself, hdup, hacyclic⟩, rfl⟩
        · have hne : g.edges ≠ [] := fun hnil => hacyclic (hnil ▸ acyclic_nil)
          have hpos : 0 < g.nodes.length := by
            obtain ⟨e, he⟩ := List.exists_mem_of_ne_nil _ hne
            have := (hrange e he).1
            omega
          rw [if_pos ⟨⟨hpos, hne⟩, (visitedCount_lt_iff hrange hdup).mpr hacyclic⟩]
          exact .inr ⟨⟨.cycle, _⟩, ⟨hrange, hself, hdup, hacyclic⟩, rfl⟩
      · rw [if_pos ((repeats_iff _ _).mpr fun h => hdup h.2)]
        exact .inr ⟨⟨.duplicateEdge, _⟩, ⟨hrange, hself, hdup⟩, rfl⟩
    · rw [if_pos (any_self_iff.mpr hself)]
      exact .inr ⟨⟨.selfEdge, _⟩, ⟨hrange, hself⟩, rfl⟩
  · rw [if_pos (any_foreign_iff.mpr hrange)]
    exact .inr ⟨⟨.foreignNode, _⟩, hrange, rfl⟩

/-- **Freezing accepts exactly the valid graphs**: it succeeds if and only if the edges are
those of a directed acyclic graph on the builder's nodes, and then keeps nodes and edges as
they are; a failure has the first reason that applies and leaves the builder as it was. -/
theorem freeze_accepts (g : TaskGraph ν) :
    ((∃ frozen, g.freeze.1 = .ok frozen) ↔ ValidDag g.nodes.length g.edges) ∧
      (∀ frozen, g.freeze.1 = .ok frozen → frozen.nodes = g.nodes ∧ frozen.edges = g.edges) ∧
      ∀ failure, g.freeze.1 = .error failure →
        FirstReason g.nodes.length g.edges failure.reason ∧ g.freeze.2 = g := by
  rcases g.freeze_cases with ⟨hvalid, heq⟩ | ⟨failure, hreason, heq⟩
  · refine ⟨⟨fun _ => hvalid, fun _ => ⟨_, congrArg Prod.fst heq⟩⟩, ?_, ?_⟩
    · intro frozen hok
      rw [heq] at hok
      obtain rfl := Except.ok.inj hok
      exact ⟨rfl, rfl⟩
    · intro failure herr
      rw [heq] at herr
      cases herr
  · refine ⟨⟨?_, fun hvalid => absurd hvalid hreason.not_valid⟩, ?_, ?_⟩
    · rintro ⟨frozen, hok⟩
      rw [heq] at hok
      cases hok
    · intro frozen hok
      rw [heq] at hok
      cases hok
    · intro failure' herr
      rw [heq] at herr ⊢
      obtain rfl := Except.error.inj herr
      exact ⟨hreason, rfl⟩

end TaskGraph
/-! ## What is frozen can be run -/

/-- A frozen graph as the execution reads it: node `i` is the node with the id `i + 1`. -/
def ValidDag.frozenTaskGraph (h : ValidDag n edges) (isCoroutineNode : Fin n → Bool) :
    FrozenTaskGraph n where
  isCoroutineNode := isCoroutineNode
  edges := edges.attach.map fun e =>
    { predecessor := ⟨e.1.fromNode - 1, by have := h.inRange e.1 e.2; omega⟩
      successor := ⟨e.1.toNode - 1, by have := h.inRange e.1 e.2; omega⟩
      policy := e.1.policy }
  acyclic := by
    refine Acyclic.wellFounded fun i hcycle => h.acyclic (i + 1) ?_
    refine TransGen.lift (fun i : Fin n => (i : Nat) + 1) ?_ _ _ hcycle
    rintro _ _ ⟨_, he, rfl, rfl⟩
    obtain ⟨e, -, rfl⟩ := List.mem_map.mp he
    have hrange := h.inRange e.1 e.2
    exact ⟨e.1, e.2, by simp only; omega, by simp only; omega⟩

end GraphFreeze
end AstraScheduler
