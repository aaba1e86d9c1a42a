import Mathlib.Algebra.Ring.Nat
import Mathlib.Data.List.Perm.Basic
import Mathlib.Data.List.Range

/-! # Exactly-once accounts of a double-ended queue

Every value accepted by a queue receives a ticket, its position in the order of
acceptance.  A ledger records where each ticket is: still in the queue, taken from the
front, taken from the back, or held by an operation that has removed it from the queue
and not yet returned.  That every ticket is in exactly one of these places, and that
the front leaves in order, is part of the type, so a program that can be described by a
ledger in each of its states delivers every value at most once. -/

/-- The account of a queue over values `α`. -/
structure TicketLedger (α : Type*) where
  /-- The accepted values; ticket `t` belongs to the `t`-th of them. -/
  issued : List α
  front : List Nat
  back : List Nat
  held : Option Nat
  /-- The tickets in the queue, from front to back. -/
  live : List Nat
  accounted : (front ++ back ++ held.toList ++ live).Perm (List.range issued.length)
  frontSorted : front.Pairwise (· < ·)
  liveSorted : live.Pairwise (· < ·)
  frontBelow : ∀ a ∈ front, ∀ b ∈ live, a < b

namespace TicketLedger
variable {α : Type*} (l : TicketLedger α)

/-- The value a ticket was issued for. -/
def value (t : Nat) : Option α := l.issued[t]?

theorem lt_of_mem {t : Nat} (h : t ∈ l.front ++ l.back ++ l.held.toList ++ l.live) :
    t < l.issued.length :=
  List.mem_range.mp (l.accounted.mem_iff.mp h)

theorem lt_of_mem_live {t : Nat} (h : t ∈ l.live) : t < l.issued.length :=
  l.lt_of_mem (List.mem_append_right _ h)

theorem lt_of_mem_front {t : Nat} (h : t ∈ l.front) : t < l.issued.length :=
  l.lt_of_mem (by simp [h])

/-- No ticket is in two places. -/
theorem nodup : (l.front ++ l.back ++ l.held.toList ++ l.live).Nodup :=
  l.accounted.nodup_iff.mpr List.nodup_range

/-- Nothing accepted yet. -/
def empty : TicketLedger α where
  issued := []
  front := []
  back := []
  held := none
  live := []
  accounted := by simp
  frontSorted := .nil
  liveSorted := .nil
  frontBelow := by simp

/-- A value is accepted at the back. -/
def issue (v : α) : TicketLedger α where
  issued := l.issued ++ [v]
  front := l.front
  back := l.back
  held := l.held
  live := l.live ++ [l.issued.length]
  accounted := by
    rw [List.length_append, List.length_singleton, List.range_succ, ← List.append_assoc]
    exact l.accounted.append_right _
  frontSorted := l.frontSorted
  liveSorted := by
    rw [List.pairwise_append]
    refine ⟨l.liveSorted, by simp, ?_⟩
    intro a ha b hb
    have hlt := l.lt_of_mem_live ha
    rw [List.mem_singleton] at hb
    omega
  frontBelow := by
    intro a ha b hb
    rcases List.mem_append.mp hb with hb | hb
    · exact l.frontBelow a ha b hb
    · have hlt := l.lt_of_mem_front ha
      rw [List.mem_singleton] at hb
      omega

variable {t : Nat} {rest : List Nat}

/-- The first ticket leaves the queue at the front. -/
def takeFront (h : l.live = t :: rest) : TicketLedger α where
  issued := l.issued
  front := l.front ++ [t]
  back := l.back
  held := l.held
  live := rest
  accounted := by
    refine List.Perm.trans (List.perm_iff_count.mpr fun a => ?_) l.accounted
    simp only [h, List.count_append, List.count_cons, List.count_nil]
    omega
  frontSorted := by
    rw [List.pairwise_append]
    refine ⟨l.frontSorted, by simp, ?_⟩
    intro a ha b hb
    rw [List.mem_singleton.mp hb]
    exact l.frontBelow a ha t (by simp [h])
  liveSorted := by
    have hs := l.liveSorted
    rw [h] at hs
    exact hs.of_cons
  frontBelow := by
    intro a ha b hb
    rcases List.mem_append.mp ha with ha | ha
    · exact l.frontBelow a ha b (by simp [h, hb])
    · have hs := l.liveSorted
      rw [h, List.pairwise_cons] at hs
      rw [List.mem_singleton.mp ha]
      exact hs.1 b hb

/-- The last ticket leaves the queue into the hands of an operation at the back. -/
def hold (h : l.live = rest ++ [t]) (hnone : l.held = none) : TicketLedger α where
  issued := l.issued
  front := l.front
  back := l.back
  held := some t
  live := rest
  accounted := by
    refine List.Perm.trans (List.perm_iff_count.mpr fun a => ?_) l.accounted
    simp only [h, hnone, List.count_append, Option.toList_some, Option.toList_none,
      List.count_nil]
    omega
  frontSorted := l.frontSorted
  liveSorted := by
    have hs := l.liveSorted
    rw [h, List.pairwise_append] at hs
    exact hs.1
  frontBelow := fun a ha b hb => l.frontBelow a ha b (by simp [h, hb])

/-- The held ticket is returned. -/
def deliver (h : l.held = some t) : TicketLedger α where
  issued := l.issued
  front := l.front
  back := l.back ++ [t]
  held := none
  live := l.live
  accounted := by
    have ha := l.accounted
    rw [h] at ha
    simpa using ha
  frontSorted := l.frontSorted
  liveSorted := l.liveSorted
  frontBelow := l.frontBelow

theorem value_issue_of_lt {v : α} {t : Nat} (h : t < l.issued.length) :
    (l.issue v).value t = l.value t := by
  simp [value, issue, List.getElem?_append_left h]

theorem value_issue_new (v : α) : (l.issue v).value l.issued.length = some v := by
  simp [value, issue]

section Fields
variable (v : α) (h : l.live = t :: rest) (hlast : l.live = rest ++ [t]) (hnone : l.held = none)
  (hheld : l.held = some t)

@[simp] theorem issued_issue : (l.issue v).issued = l.issued ++ [v] := rfl
@[simp] theorem live_issue : (l.issue v).live = l.live ++ [l.issued.length] := rfl
@[simp] theorem held_issue : (l.issue v).held = l.held := rfl

@[simp] theorem issued_takeFront : (l.takeFront h).issued = l.issued := rfl
@[simp] theorem value_takeFront : (l.takeFront h).value = l.value := rfl
@[simp] theorem live_takeFront : (l.takeFront h).live = rest := rfl
@[simp] theorem held_takeFront : (l.takeFront h).held = l.held := rfl

@[simp] theorem issued_hold : (l.hold hlast hnone).issued = l.issued := rfl
@[simp] theorem value_hold : (l.hold hlast hnone).value = l.value := rfl
@[simp] theorem live_hold : (l.hold hlast hnone).live = rest := rfl
@[simp] theorem held_hold : (l.hold hlast hnone).held = some t := rfl

@[simp] theorem issued_deliver : (l.deliver hheld).issued = l.issued := rfl
@[simp] theorem value_deliver : (l.deliver hheld).value = l.value := rfl
@[simp] theorem live_deliver : (l.deliver hheld).live = l.live := rfl
@[simp] theorem held_deliver : (l.deliver hheld).held = none := rfl

end Fields

/-- The values delivered at the front and at the back, in the order of delivery. -/
def Delivered (front back : List α) : Prop :=
  front.map some = l.front.map l.value ∧ back.map some = l.back.map l.value

variable {front back : List α}

theorem Delivered.issue (v : α) (h : l.Delivered front back) :
    (l.issue v).Delivered front back := by
  refine ⟨h.1.trans ?_, h.2.trans ?_⟩
  · refine List.map_congr_left fun t ht => (l.value_issue_of_lt (l.lt_of_mem_front ht)).symm
  · refine List.map_congr_left fun t ht => (l.value_issue_of_lt (l.lt_of_mem ?_)).symm
    have : t ∈ l.back := ht
    simp [this]

theorem Delivered.takeFront {v : α} (hlive : l.live = t :: rest) (hv : l.value t = some v)
    (h : l.Delivered front back) : (l.takeFront hlive).Delivered (front ++ [v]) back := by
  refine ⟨?_, h.2⟩
  rw [List.map_append, h.1]
  simp [TicketLedger.takeFront, value, ← hv]

theorem Delivered.deliver {v : α} (hheld : l.held = some t) (hv : l.value t = some v)
    (h : l.Delivered front back) : (l.deliver hheld).Delivered front (back ++ [v]) := by
  refine ⟨h.1, ?_⟩
  rw [List.map_append, h.2]
  simp [TicketLedger.deliver, value, ← hv]

end TicketLedger
