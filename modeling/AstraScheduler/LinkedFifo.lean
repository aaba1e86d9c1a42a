import Mathlib.Logic.Function.Basic
import Mathlib.Data.List.Basic

/-! # Singly linked FIFOs over shared nodes

Every node has one `next` pointer, and a FIFO is two end pointers and a count: it owns
no memory, it borrows the pointers of the nodes linked into it.  Several FIFOs live over
the same nodes.  `Holds` says which nodes a FIFO links and in which order; the
operations are the list operations on that order, and they leave alone every FIFO whose
nodes are others. -/

namespace LinkedFifo
variable {P : Type*}

structure Fifo (P : Type*) where
  head : Option P := none
  tail : Option P := none
  count : Nat := 0
  deriving DecidableEq, Repr

/-- Following `next` from `start` passes the nodes `ps` and then ends. -/
def Chain (next : P → Option P) : Option P → List P → Prop
  | start, [] => start = none
  | start, p :: ps => start = some p ∧ Chain next (next p) ps

/-- The first `n` nodes on the way from `start`. -/
def walk (next : P → Option P) : Nat → Option P → List P
  | 0, _ => []
  | _ + 1, none => []
  | n + 1, some p => p :: walk next n (next p)

/-- The nodes of a FIFO, read off its pointers. -/
def nodes (next : P → Option P) (q : Fifo P) : List P := walk next q.count q.head

structure Holds (next : P → Option P) (q : Fifo P) (ps : List P) : Prop where
  chain : Chain next q.head ps
  tail : q.tail = ps.getLast?
  count : q.count = ps.length

section Operations
variable [DecidableEq P]

/-- Links `p` in behind the tail. -/
def pushBack (next : P → Option P) (q : Fifo P) (p : P) : (P → Option P) × Fifo P :=
  let next := Function.update next p none
  match q.tail with
  | none => (next, { head := some p, tail := some p, count := q.count + 1 })
  | some t =>
    (Function.update next t (some p), { q with tail := some p, count := q.count + 1 })

/-- Unlinks the head. -/
def popFront (next : P → Option P) (q : Fifo P) : Option (P × (P → Option P) × Fifo P) :=
  q.head.map fun p =>
    (p, Function.update next p none,
      { head := next p
        tail := if (next p).isNone then none else q.tail
        count := q.count - 1 })

end Operations

/-! ## Chains -/

variable {next next' : P → Option P} {q : Fifo P} {p : P} {ps qs : List P}

theorem Chain.congr {start : Option P} (h : Chain next start ps)
    (heq : ∀ p ∈ ps, next' p = next p) : Chain next' start ps := by
  induction ps generalizing start with
  | nil => exact h
  | cons p ps ih =>
    refine ⟨h.1, ?_⟩
    rw [heq p (List.mem_cons_self ..)]
    exact ih h.2 fun a ha => heq a (List.mem_cons_of_mem _ ha)

theorem Chain.walk {start : Option P} (h : Chain next start ps) :
    LinkedFifo.walk next ps.length start = ps := by
  induction ps generalizing start with
  | nil => rfl
  | cons p ps ih =>
    rw [h.1]
    exact congrArg (p :: ·) (ih h.2)

/-- A chain grows at its last node. -/
theorem Chain.extend [DecidableEq P] {start : Option P} {t : P}
    (h : Chain next start (ps ++ [t])) (hnd : (ps ++ [t]).Nodup) (hp : p ∉ ps ++ [t]) :
    Chain (Function.update (Function.update next p none) t (some p)) start
      (ps ++ [t] ++ [p]) := by
  induction ps generalizing start with
  | nil =>
    have hne : p ≠ t := fun heq => hp (by simp [heq])
    refine ⟨h.1, ?_⟩
    rw [Function.update_self]
    refine ⟨rfl, ?_⟩
    rw [Function.update_of_ne hne, Function.update_self]
    rfl
  | cons a ps ih =>
    have hat : a ≠ t := fun heq => by simp [heq] at hnd
    have hap : a ≠ p := fun heq => hp (by simp [heq])
    refine ⟨h.1, ?_⟩
    rw [Function.update_of_ne hat, Function.update_of_ne hap]
    exact ih h.2 (List.nodup_cons.mp hnd).2 fun hm => hp (List.mem_cons_of_mem _ hm)

/-! ## What a FIFO holds -/

theorem holds_empty : Holds next {} ([] : List P) := ⟨rfl, rfl, rfl⟩

theorem Holds.nodes_eq (h : Holds next q ps) : nodes next q = ps := by
  rw [nodes, h.count]
  exact h.chain.walk

/-- Only the pointers of its own nodes matter to a FIFO. -/
theorem Holds.congr (h : Holds next q ps) (heq : ∀ p ∈ ps, next' p = next p) :
    Holds next' q ps :=
  ⟨h.chain.congr heq, h.tail, h.count⟩

theorem Holds.head_eq (h : Holds next q ps) : q.head = ps.head? := by
  cases ps with
  | nil => exact h.chain
  | cons p ps => exact h.chain.1

section Operations
variable [DecidableEq P]

theorem Holds.pushBack (h : Holds next q ps) (hnd : ps.Nodup) (hp : p ∉ ps) :
    Holds (LinkedFifo.pushBack next q p).1 (LinkedFifo.pushBack next q p).2 (ps ++ [p]) := by
  unfold LinkedFifo.pushBack
  cases htail : q.tail with
  | none =>
    obtain rfl : ps = [] := List.getLast?_eq_none_iff.mp (h.tail.symm.trans htail)
    refine ⟨⟨rfl, ?_⟩, rfl, by simp [h.count]⟩
    exact Function.update_self ..
  | some t =>
    obtain ⟨init, rfl⟩ := List.getLast?_eq_some_iff.mp (h.tail.symm.trans htail)
    exact ⟨h.chain.extend hnd hp, by simp, by simp [h.count]⟩

/-- Pushing writes to the new node and to the old tail only. -/
theorem Holds.pushBack_next (h : Holds next q ps) {a : P} (ha : a ≠ p) (haps : a ∉ ps) :
    (LinkedFifo.pushBack next q p).1 a = next a := by
  unfold LinkedFifo.pushBack
  cases htail : q.tail with
  | none => exact Function.update_of_ne ha ..
  | some t =>
    have hat : a ≠ t := by
      rintro rfl
      exact haps (List.mem_of_getLast? (h.tail.symm.trans htail))
    exact (Function.update_of_ne hat ..).trans (Function.update_of_ne ha ..)

theorem Holds.popFront_nil (h : Holds next q []) : LinkedFifo.popFront next q = none := by
  simp [LinkedFifo.popFront, h.head_eq]

theorem Holds.popFront_cons (h : Holds next q (p :: ps)) (hnd : (p :: ps).Nodup) :
    ∃ q', LinkedFifo.popFront next q = some (p, Function.update next p none, q') ∧
      Holds (Function.update next p none) q' ps := by
  have hhead : q.head = some p := h.head_eq
  refine ⟨_, by rw [LinkedFifo.popFront, hhead]; rfl, ?_, ?_, ?_⟩
  · have hchain : Chain next (next p) ps := h.chain.2
    refine hchain.congr fun a ha => Function.update_of_ne ?_ ..
    rintro rfl
    exact (List.nodup_cons.mp hnd).1 ha
  · cases ps with
    | nil => simp [show next p = none from h.chain.2]
    | cons a ps => simpa [h.chain.2.1] using h.tail
  · simp [h.count]

end Operations
end LinkedFifo
