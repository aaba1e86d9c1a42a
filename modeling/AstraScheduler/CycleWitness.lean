import AstraScheduler.FreezeValidation
import Mathlib.Data.List.Chain
import Mathlib.Data.List.TakeWhile

/-! # The cycle that a rejected graph is reported with

The depth-first search keeps the nodes it is inside of, in order, as a path of the graph;
the nodes it is finished with are settled: no edge leaves them and no cycle passes through
them.  A search that comes back without having found anything has settled every node, so in
a graph with a cycle it finds an edge back onto its path, and the path from there on closes. -/

namespace AstraScheduler
namespace GraphFreeze
open Acyclicity Relation
variable {ν : Type} {n : Nat} {edges : List Edge}

/-- A closed walk along the edges that passes no node twice before it closes. -/
structure ClosedPath (r : Nat → Nat → Prop) (w : List Nat) : Prop where
  nonempty : w ≠ []
  /-- More than the one node that is first and last. -/
  proper : 1 < w.length
  closed : w.head? = w.getLast?
  chain : w.IsChain r
  distinct : w.dropLast.Nodup

/-- The search between two steps: what is on the path, and what it is finished with. -/
structure Searching (adj : Nat → List Nat) (ids : List Nat) (s : Search) : Prop where
  states : ∀ v, s.state v ≤ 2
  grey : ∀ v, s.state v = 1 ↔ v ∈ s.path
  distinct : s.path.Nodup
  known : ∀ v ∈ s.path, v ∈ ids
  chain : s.path.IsChain fun u v => v ∈ adj u
  settled : Settled (fun u v => v ∈ adj u) fun v => s.state v = 2

/-- What a search step leaves behind: a closed path, or the same path as before with `u`
and all that was finished before finished. -/
structure Outcome (adj : Nat → List Nat) (ids : List Nat) (path : List Nat) (u : Nat)
    (s : Search) (r : Bool × Search) : Prop where
  found : r.1 = true → ClosedPath (fun u v => v ∈ adj u) r.2.witness
  searching : r.1 = false → Searching adj ids r.2
  path : r.1 = false → r.2.path = path
  finished : r.1 = false → r.2.state u = 2
  kept : r.1 = false → ∀ v, s.state v = 2 → r.2.state v = 2

variable {adj : Nat → List Nat} {ids : List Nat} {s : Search}

/-- Entering a node that the path leads to. -/
theorem Searching.enter (h : Searching adj ids s) {u : Nat} (hu : u ∈ ids)
    (hwhite : s.state u = 0) (hlast : ∀ w ∈ s.path.getLast?, u ∈ adj w) :
    Searching adj ids
      { s with state := Function.update s.state u 1, path := s.path ++ [u] } where
  states v := by
    by_cases hv : v = u
    · subst hv
      simp
    · simpa [hv] using h.states v
  grey v := by
    by_cases hv : v = u
    · subst hv
      simp
    · simpa [hv] using h.grey v
  distinct := by
    refine List.nodup_append.mpr ⟨h.distinct, List.nodup_singleton u, ?_⟩
    rintro a ha b hb rfl
    rw [List.mem_singleton.mp hb, ← h.grey, hwhite] at ha
    cases ha
  known v hv := by
    rcases List.mem_append.mp hv with hv | hv
    · exact h.known v hv
    · exact List.mem_singleton.mp hv ▸ hu
  chain := by
    refine h.chain.append (List.isChain_singleton u) fun w hw v hv => ?_
    obtain rfl := Option.some.inj hv
    exact hlast w hw
  settled := by
    refine h.settled.congr fun v => ?_
    by_cases hv : v = u
    · subst hv
      simp [hwhite]
    · simp [hv]

/-- Leaving a node whose successors are all finished. -/
theorem Searching.leave (h : Searching adj ids s) {path : List Nat} {u : Nat}
    (hpath : s.path = path ++ [u]) (hdone : ∀ v ∈ adj u, s.state v = 2) :
    Searching adj ids
      { s with path := s.path.dropLast, state := Function.update s.state u 2 } := by
  have hdrop : s.path.dropLast = path := by rw [hpath, List.dropLast_concat]
  have hdistinct := h.distinct
  have hchain := h.chain
  have hgrey : s.state u = 1 := (h.grey u).mpr (by rw [hpath]; simp)
  rw [hpath] at hdistinct hchain
  obtain ⟨hnodup, -, hnot⟩ := List.nodup_append.mp hdistinct
  refine ⟨fun v => ?_, fun v => ?_, ?_, fun v hv => ?_, ?_, ?_⟩
  · by_cases hv : v = u
    · subst hv
      simp
    · simpa [hv] using h.states v
  · simp only [hdrop]
    by_cases hv : v = u
    · subst hv
      simp only [Function.update_self]
      refine ⟨fun hno => (by cases hno), fun hmem => ?_⟩
      exact absurd rfl (hnot v hmem v (by simp))
    · simp only [Function.update_of_ne hv]
      rw [h.grey, hpath]
      simp [hv]
  · simpa only [hdrop] using hnodup
  · simp only [hdrop] at hv
    exact h.known v (by rw [hpath]; exact List.mem_append_left _ hv)
  · simpa only [hdrop] using hchain.left_of_append
  · refine (h.settled.insert (u := u) (by rw [hgrey]; omega) hdone).congr fun v => ?_
    by_cases hv : v = u
    · subst hv
      simp
    · simp [hv]

/-- An edge from the end of the path back onto it closes a path. -/
theorem Searching.close (h : Searching adj ids s) {path : List Nat} {u v : Nat}
    (hpath : s.path = path ++ [u]) (hv : v ∈ s.path) (huv : v ∈ adj u) :
    ClosedPath (fun u v => v ∈ adj u) (s.path.dropWhile (fun w => w ≠ v) ++ [v]) := by
  obtain ⟨rest, hcut⟩ : ∃ rest, s.path.dropWhile (fun w => w ≠ v) = v :: rest := by
    cases hdrop : s.path.dropWhile (fun w => w ≠ v) with
    | nil =>
      have := List.dropWhile_eq_nil_iff.mp hdrop v hv
      simp at this
    | cons w rest =>
      have := List.head_dropWhile_not (fun w => decide (w ≠ v)) (l := s.path)
        (by rw [hdrop]; simp)
      simp only [hdrop, List.head_cons, decide_eq_false_iff_not, not_not] at this
      exact ⟨rest, by rw [this]⟩
  have hsuffix : (v :: rest) <:+ s.path := hcut ▸ List.dropWhile_suffix _
  have hlast : (v :: rest).getLast? = some u := by
    obtain ⟨front, hfront⟩ := hsuffix
    have hend : s.path.getLast? = some u := by rw [hpath, List.getLast?_concat]
    rw [← hfront, List.getLast?_append] at hend
    simpa using hend
  rw [hcut]
  refine ⟨by simp, by simp, ?_, ?_, ?_⟩
  · rw [List.getLast?_concat]
    rfl
  · refine List.IsChain.append (h.chain.suffix hsuffix) (List.isChain_singleton v) ?_
    intro w hw x hx
    rw [hlast] at hw
    obtain rfl := Option.some.inj hw
    obtain rfl := Option.some.inj hx
    exact huv
  · rw [List.dropLast_concat]
    exact h.distinct.sublist hsuffix.sublist

/-- The loop over the successors, when the recursive call does what it should. -/
theorem visitSuccessors_spec {visit : Nat → Search → Option (Bool × Search)} {u : Nat}
    {path : List Nat} {s₀ : Search}
    (hvisit : ∀ v ∈ adj u, ∀ s, Searching adj ids s → s.path = path ++ [u] → s.state v = 0 →
      ∃ r, visit v s = some r ∧ Outcome adj ids (path ++ [u]) v s r)
    (vs : List Nat) (s : Search) (h : Searching adj ids s) (hpath : s.path = path ++ [u])
    (hsub : ∀ v ∈ vs, v ∈ adj u) (hdone : ∀ v ∈ adj u, v ∉ vs → s.state v = 2)
    (hkept : ∀ v, s₀.state v = 2 → s.state v = 2) :
    ∃ r, visitSuccessors visit u vs s = some r ∧ Outcome adj ids path u s₀ r := by
  induction vs generalizing s with
  | nil =>
    refine ⟨_, rfl, fun hno => (by cases hno), fun _ => ?_, fun _ => ?_, fun _ => ?_,
      fun _ v hv => ?_⟩
    · exact h.leave hpath fun v hv => hdone v hv List.not_mem_nil
    · simp only [hpath, List.dropLast_concat]
    · exact Function.update_self ..
    · by_cases hvu : v = u
      · subst hvu
        exact Function.update_self ..
      · exact (Function.update_of_ne hvu ..).trans (hkept v hv)
  | cons v vs ih =>
    have hvu := hsub v List.mem_cons_self
    have hrest : ∀ w ∈ vs, w ∈ adj u := fun w hw => hsub w (List.mem_cons_of_mem v hw)
    unfold visitSuccessors
    split
    · rename_i hgrey
      refine ⟨_, rfl, fun _ => h.close hpath hgrey.2 hvu, ?_, ?_, ?_, ?_⟩ <;> intro hno <;> cases hno
    · rename_i hgrey
      split
      · rename_i hwhite
        obtain ⟨⟨found, s'⟩, hr, hout⟩ := hvisit v hvu s h hpath hwhite
        rw [hr]
        cases found with
        | true =>
          refine ⟨_, rfl, fun _ => hout.found rfl, ?_, ?_, ?_, ?_⟩ <;> intro hno <;> cases hno
        | false =>
          refine ih s' (hout.searching rfl) (hout.path rfl) hrest (fun w hw hnot => ?_)
            fun w hw => hout.kept rfl w (hkept w hw)
          by_cases hwv : w = v
          · exact hwv ▸ hout.finished rfl
          · exact hout.kept rfl w (hdone w hw fun hmem =>
              (List.mem_cons.mp hmem).elim hwv hnot)
      · rename_i hwhite
        have hblack : s.state v = 2 := by
          have hstate := h.states v
          have hnot : s.state v ≠ 1 := fun hone => hgrey ⟨hone, (h.grey v).mp hone⟩
          omega
        refine ih s h hpath hrest (fun w hw hnot => ?_) hkept
        by_cases hwv : w = v
        · exact hwv ▸ hblack
        · exact hdone w hw fun hmem => (List.mem_cons.mp hmem).elim hwv hnot

/-- **The search from a node**: every call is made for a node that is not on the path, so
calls are nested at most as deep as there are nodes. -/
theorem findCycleDfs_spec (hids : ∀ {u v}, v ∈ adj u → v ∈ ids) (depth : Nat) (u : Nat)
    (s : Search) (h : Searching adj ids s) (hu : u ∈ ids) (hwhite : s.state u = 0)
    (hlast : ∀ w ∈ s.path.getLast?, u ∈ adj w) (hdepth : ids.length ≤ s.path.length + depth) :
    ∃ r, findCycleDfs adj depth u s = some r ∧ Outcome adj ids s.path u s r := by
  induction depth generalizing u s with
  | zero =>
    have henter := h.enter hu hwhite hlast
    have := (List.subperm_of_subset henter.distinct henter.known).length_le
    rw [List.length_append, List.length_singleton] at this
    omega
  | succ depth ih =>
    have henter := h.enter hu hwhite hlast
    refine visitSuccessors_spec (fun v hv s' hs' hpath hwhite' => ?_) (adj u) _ henter rfl
      (fun v hv => hv) (fun v hv hnot => absurd hv hnot) fun v hv => ?_
    · have hvisit := ih v s' hs' (hids hv) hwhite' (fun w hw => ?_) ?_
      · rwa [hpath] at hvisit
      · rw [hpath, List.getLast?_concat] at hw
        obtain rfl := Option.some.inj hw
        exact hv
      · rw [hpath, List.length_append, List.length_singleton]
        omega
    · have hne : v ≠ u := by
        rintro rfl
        rw [hwhite] at hv
        cases hv
      exact (Function.update_of_ne hne ..).trans hv

/-- The search from one node after the other: it ends, with a closed path or with every
node that was to be tried finished. -/
theorem searchFrom_spec (hids : ∀ {u v}, v ∈ adj u → v ∈ ids) {depth : Nat}
    (hdepth : ids.length ≤ depth) (is : List Nat) (s : Search) (h : Searching adj ids s)
    (hpath : s.path = []) (his : ∀ i ∈ is, i ∈ ids) :
    ∃ s', searchFrom adj depth is s = some s' ∧
      (ClosedPath (fun u v => v ∈ adj u) s'.witness ∨
        Searching adj ids s' ∧ (∀ i ∈ is, s'.state i = 2) ∧
          ∀ v, s.state v = 2 → s'.state v = 2) := by
  induction is generalizing s with
  | nil => exact ⟨s, rfl, .inr ⟨h, fun i hi => (by cases hi), fun _ hv => hv⟩⟩
  | cons i is ih =>
    have hrest : ∀ j ∈ is, j ∈ ids := fun j hj => his j (List.mem_cons_of_mem i hj)
    unfold searchFrom
    split
    · rename_i hwhite
      obtain ⟨⟨found, s'⟩, hr, hout⟩ := findCycleDfs_spec hids depth i s h
        (his i List.mem_cons_self) hwhite (fun w hw => by rw [hpath] at hw; cases hw) (by omega)
      rw [hr]
      cases found with
      | true => exact ⟨s', rfl, .inl (hout.found rfl)⟩
      | false =>
        obtain ⟨t, ht, hend⟩ := ih s' (hout.searching rfl) ((hout.path rfl).trans hpath) hrest
        refine ⟨t, ht, hend.imp_right fun ⟨hsearch, hall, hkept⟩ => ⟨hsearch, ?_, ?_⟩⟩
        · intro j hj
          rcases List.mem_cons.mp hj with rfl | hj
          · exact hkept j (hout.finished rfl)
          · exact hall j hj
        · exact fun v hv => hkept v (hout.kept rfl v hv)
    · rename_i hwhite
      have hblack : s.state i = 2 := by
        have hstate := h.states i
        have hnot : s.state i ≠ 1 := by
          intro hone
          have hmem := (h.grey i).mp hone
          rw [hpath] at hmem
          cases hmem
        omega
      obtain ⟨t, ht, hend⟩ := ih s h hpath hrest
      refine ⟨t, ht, hend.imp_right fun ⟨hsearch, hall, hkept⟩ => ⟨hsearch, ?_, hkept⟩⟩
      intro j hj
      rcases List.mem_cons.mp hj with rfl | hj
      · exact hkept j hblack
      · exact hall j hj

theorem Searching.start : Searching adj ids {} where
  states _ := Nat.zero_le 2
  grey _ := ⟨fun h => (by cases h), fun h => (by cases h)⟩
  distinct := .nil
  known _ h := by cases h
  chain := .nil
  settled := Settled.empty.congr fun _ => ⟨fun h => h.elim, fun h => (by cases h)⟩

/-- A cyclic graph has its cycle found. -/
theorem findCycle_spec (hrange : InRange n edges) (hcyclic : ¬ Acyclic (Leads edges))
    {depth : Nat} (hdepth : n ≤ depth) :
    ∃ s, findCycle depth n edges = some s ∧ ClosedPath (Leads edges) s.witness := by
  have hids : ∀ {u v : Nat}, v ∈ sortedAdjacency edges u → v ∈ nodeIds n := by
    intro u v hv
    obtain ⟨e, he, -, rfl⟩ := mem_sortedAdjacency.mp hv
    exact mem_nodeIds.mpr (hrange e he).2
  have hrel : (fun u v => v ∈ sortedAdjacency edges u) = Leads edges := by
    funext u v
    exact propext mem_sortedAdjacency
  have hlength : (nodeIds n).length ≤ depth := by
    rw [length_nodeIds]
    exact hdepth
  obtain ⟨s, hs, hend⟩ := searchFrom_spec hids hlength (nodeIds n) {} .start rfl fun _ hi => hi
  refine ⟨s, hs, ?_⟩
  rcases hend with hclosed | ⟨hsearch, hall, -⟩
  · exact hrel ▸ hclosed
  · have hsettled := hsearch.settled
    rw [hrel] at hsettled
    refine absurd (hsettled.acyclic_of_source ?_) hcyclic
    rintro a b ⟨e, he, rfl, -⟩
    exact hall _ (mem_nodeIds.mpr (hrange e he).1)

/-- The successors of a node do not depend on the order in which the edges were added. -/
theorem sortedAdjacency_congr {edges' : List Edge}
    (h : List.Perm (edges.map Edge.key) (edges'.map Edge.key)) :
    sortedAdjacency edges = sortedAdjacency edges' := by
  have hmap : ∀ (es : List Edge) (u : Nat),
      (es.filter fun e => e.fromNode = u).map Edge.toNode =
        ((es.map Edge.key).filter fun k => k.1 = u).map Prod.snd := by
    intro es u
    rw [List.filter_map, List.map_map]
    rfl
  funext u
  refine List.Perm.eq_of_pairwise' (List.pairwise_insertionSort (· ≤ ·) _)
    (List.pairwise_insertionSort (· ≤ ·) _) ?_
  refine (sortedAdjacency_perm edges u).trans (.trans ?_ (sortedAdjacency_perm edges' u).symm)
  rw [hmap, hmap]
  exact (h.filter _).map _

/-- **The witness**: where Kahn's pass leaves a node unprocessed, the depth-first search
ends with a closed path of the graph, the same one for every order of the edges. -/
theorem findCycle_witness (hrange : InRange n edges) (hdup : NoDuplicate edges)
    (hleft : visitedCount n edges < n) {depth : Nat} (hdepth : n ≤ depth) :
    ∃ s, findCycle depth n edges = some s ∧ ClosedPath (Leads edges) s.witness ∧
      ∀ edges', List.Perm (edges'.map Edge.key) (edges.map Edge.key) →
        findCycle depth n edges' = some s := by
  obtain ⟨s, hs, hclosed⟩ :=
    findCycle_spec hrange ((visitedCount_lt_iff hrange hdup).mp hleft) hdepth
  refine ⟨s, hs, hclosed, fun edges' hperm => ?_⟩
  rw [findCycle, sortedAdjacency_congr hperm]
  exact hs

theorem findCycle_witness_triangle :
    ∃ s, findCycle 3 3 [⟨3, 1, .requireSuccess⟩, ⟨1, 2, .requireSuccess⟩,
        ⟨2, 3, .afterCompletion⟩] = some s ∧
      ClosedPath (Leads [⟨3, 1, .requireSuccess⟩, ⟨1, 2, .requireSuccess⟩,
        ⟨2, 3, .afterCompletion⟩]) s.witness ∧
      ∀ edges', List.Perm (edges'.map Edge.key) [(3, 1), (1, 2), (2, 3)] →
        findCycle 3 3 edges' = some s := by
  refine findCycle_witness ?_ ?_ (by decide) (Nat.le_refl 3)
  · unfold InRange
    decide
  · unfold NoDuplicate
    decide

/-- The exception for a cyclic graph carries such a path. -/
theorem TaskGraph.freeze_cycleWitness {g : TaskGraph ν} {failure : ValidationFailure}
    (h : g.freeze.1 = .error failure) (hreason : failure.reason = .cycle) :
    ClosedPath (Leads g.edges) failure.cycleWitness := by
  have hfirst := ((g.freeze_accepts).2.2 failure h).1
  rw [hreason] at hfirst
  obtain ⟨hrange, hself, hdup, hcyclic⟩ := hfirst
  obtain ⟨s, hs, hclosed⟩ := findCycle_spec hrange hcyclic (Nat.le_refl _)
  simp only [freeze] at h
  rw [if_neg fun h => any_foreign_iff.mp h hrange, if_neg fun h => any_self_iff.mp h hself,
    if_neg fun h => (repeats_iff _ _).mp h ⟨fun _ _ => List.not_mem_nil, hdup⟩] at h
  split at h
  · obtain rfl := Except.error.inj h
    simpa only [hs, Option.elim_some] using hclosed
  · cases h

end GraphFreeze
end AstraScheduler
