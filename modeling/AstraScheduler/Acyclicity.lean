import Mathlib.Data.Fintype.EquivFin
import Mathlib.Logic.Relation
import Mathlib.Order.WellFounded
import Mathlib.Data.Finite.Defs
import Mathlib.Order.RelClasses

/-! # Relations without cycles

A graph is given by its edge relation.  A set of nodes is *settled* when no edge leaves it
and no cycle passes through it; a node all of whose successors are settled may join it.
Backwards, along the reversed edges, this is the set a topological order has put in place,
and forwards the set a depth-first search has finished with. -/

namespace Acyclicity
variable {α : Type*} {r : α → α → Prop}

open Relation

/-- No node is reached from itself. -/
def Acyclic (r : α → α → Prop) : Prop := ∀ a, ¬ TransGen r a a

theorem acyclic_swap : Acyclic (Function.swap r) ↔ Acyclic r :=
  forall_congr' fun _ => not_congr transGen_swap

/-- No edge leaves the set, and no cycle passes through it. -/
structure Settled (r : α → α → Prop) (p : α → Prop) : Prop where
  closed : ∀ {a b}, p a → r a b → p b
  acyclic : ∀ a, p a → ¬ TransGen r a a

theorem Settled.empty : Settled r fun _ => False := ⟨fun h => h.elim, fun _ h => h.elim⟩

theorem Settled.of_transGen {p : α → Prop} (h : Settled r p) {a b : α} (hab : TransGen r a b)
    (ha : p a) : p b := by
  induction hab with
  | single hr => exact h.closed ha hr
  | tail _ hr ih => exact h.closed ih hr

/-- A node whose successors are settled can be settled. -/
theorem Settled.insert {p : α → Prop} (h : Settled r p) {u : α} (hu : ¬ p u)
    (hsucc : ∀ b, r u b → p b) : Settled r fun a => a = u ∨ p a where
  closed := by
    rintro a b (rfl | ha) hr
    · exact .inr (hsucc b hr)
    · exact .inr (h.closed ha hr)
  acyclic := by
    rintro a (rfl | ha) hcycle
    · obtain ⟨b, hr, hb⟩ := TransGen.head'_iff.mp hcycle
      rcases reflTransGen_iff_eq_or_transGen.mp hb with rfl | hb
      · exact hu (hsucc a hr)
      · exact hu (h.of_transGen hb (hsucc b hr))
    · exact h.acyclic a ha hcycle

theorem Settled.congr {p q : α → Prop} (h : Settled r p) (hpq : ∀ a, p a ↔ q a) : Settled r q where
  closed ha hr := (hpq _).mp (h.closed ((hpq _).mpr ha) hr)
  acyclic a ha := h.acyclic a ((hpq a).mpr ha)

/-- A relation is acyclic if the nodes with a successor are settled. -/
theorem Settled.acyclic_of_source {p : α → Prop} (h : Settled r p)
    (hp : ∀ a b, r a b → p a) : Acyclic r := by
  intro a hcycle
  obtain ⟨b, hr, -⟩ := TransGen.head'_iff.mp hcycle
  exact h.acyclic a (hp a b hr) hcycle

/-- Nodes that all have a predecessor among themselves contain a cycle. -/
theorem not_acyclic_of_pred {S : List α} (hne : S ≠ [])
    (hpred : ∀ b ∈ S, ∃ a ∈ S, r a b) : ¬ Acyclic r := by
  intro hacyclic
  let R : {a // a ∈ S} → {a // a ∈ S} → Prop := fun a b => TransGen r a b
  have : Finite {a // a ∈ S} := by
    classical
    exact Finite.of_fintype _
  have : IsTrans _ R := ⟨fun _ _ _ => TransGen.trans⟩
  have : Std.Irrefl R := ⟨fun a => hacyclic a⟩
  obtain ⟨b, hb⟩ := List.exists_mem_of_ne_nil S hne
  obtain ⟨m, -, hm⟩ := (Finite.wellFounded_of_trans_of_irrefl R).has_min Set.univ
    ⟨⟨b, hb⟩, trivial⟩
  obtain ⟨a, ha, hr⟩ := hpred m m.2
  exact hm ⟨a, ha⟩ trivial (.single hr)

/-- On finitely many nodes, no cycle means no infinite descent. -/
theorem Acyclic.wellFounded [Finite α] (h : Acyclic r) : WellFounded r := by
  have : IsTrans α (TransGen r) := ⟨fun _ _ _ => TransGen.trans⟩
  have : Std.Irrefl (TransGen r) := ⟨h⟩
  exact Subrelation.wf (fun hr => TransGen.single hr)
    (Finite.wellFounded_of_trans_of_irrefl (TransGen r))

end Acyclicity
