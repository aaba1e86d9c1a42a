import Mathlib.Data.List.Perm.Basic

/-! # Callbacks that wait for a completion

A cell that completes once keeps the callbacks left with it.  Who completes it takes them
all out and invokes them one by one; who comes later finds the cell complete and invokes
its callback itself.  The ledger records what was added and what was invoked, and what is
in between: waiting in the cell, or in the hands of a call that is still delivering.

Calls in progress are a list, not threads: a call may pause anywhere, a thread may have
several of them nested, and new ones appear at any time. -/

namespace CallbackLedger
variable {K : Type*}

structure Deliveries (K : Type*) where
  /-- Left with the cell. -/
  waiting : List K := []
  /-- What each delivering call has still to invoke. -/
  inHand : List (List K) := []
  added : List K := []
  invoked : List K := []
  deriving DecidableEq, Repr

namespace Deliveries

/-- A callback is left with the incomplete cell. -/
def leave (d : Deliveries K) (k : K) : Deliveries K :=
  { d with waiting := d.waiting ++ [k], added := d.added ++ [k] }

/-- A callback comes too late to wait: the call that brought it invokes it. -/
def handOver (d : Deliveries K) (k : K) : Deliveries K :=
  { d with inHand := [k] :: d.inHand, added := d.added ++ [k] }

/-- The completing call takes the callbacks out. -/
def takeOut (d : Deliveries K) : Deliveries K :=
  { d with waiting := [], inHand := d.waiting :: d.inHand }

/-- Call `i` invokes its next callback. -/
def deliver (d : Deliveries K) (i : Nat) : Option (Deliveries K) :=
  match d.inHand[i]? with
  | some (k :: rest) =>
    some { d with inHand := d.inHand.set i rest, invoked := d.invoked ++ [k] }
  | _ => none

/-- The callbacks that some call has still to invoke. -/
def pending (d : Deliveries K) : List K := d.inHand.flatten

/-- Several deliveries, one after the other. -/
def deliverAll (d : Deliveries K) : List Nat → Option (Deliveries K)
  | [] => some d
  | i :: calls => (d.deliver i).bind fun d' => d'.deliverAll calls

theorem flatten_set_perm {l : List (List K)} {i : Nat} {k : K} {rest : List K}
    (h : l[i]? = some (k :: rest)) : (k :: (l.set i rest).flatten).Perm l.flatten := by
  induction l generalizing i with
  | nil => cases h
  | cons c l ih =>
    cases i with
    | zero =>
      obtain rfl : c = k :: rest := Option.some.inj h
      exact List.Perm.refl _
    | succ i =>
      rw [List.getElem?_cons_succ] at h
      rw [List.set_cons_succ, List.flatten_cons, List.flatten_cons]
      exact List.perm_middle.symm.trans ((ih h).append_left c)

/-- A delivery invokes one pending callback and leaves everything else alone. -/
theorem deliver_cases {d d' : Deliveries K} {i : Nat} (h : d.deliver i = some d') :
    ∃ k, (k :: d'.pending).Perm d.pending ∧ d'.invoked = d.invoked ++ [k] ∧
      d'.waiting = d.waiting ∧ d'.added = d.added := by
  unfold deliver at h
  split at h
  case h_1 k rest hcall =>
    cases h
    exact ⟨k, flatten_set_perm hcall, rfl, rfl, rfl⟩
  case h_2 => cases h

theorem deliver_length {d d' : Deliveries K} {i : Nat} (h : d.deliver i = some d') :
    d'.pending.length + 1 = d.pending.length := by
  obtain ⟨k, hpending, -⟩ := deliver_cases h
  exact hpending.length_eq

/-- As long as something is pending, some call can go on. -/
theorem exists_deliver {d : Deliveries K} (h : d.pending ≠ []) :
    ∃ i d', d.deliver i = some d' := by
  obtain ⟨k, hk⟩ := List.exists_mem_of_ne_nil _ h
  obtain ⟨call, hcall, hmem⟩ := List.mem_flatten.mp hk
  obtain ⟨i, hi⟩ := List.mem_iff_getElem?.mp hcall
  obtain ⟨c, rest, rfl⟩ := List.exists_cons_of_ne_nil (List.ne_nil_of_mem hmem)
  exact ⟨i, _, by rw [deliver, hi]⟩

/-- The calls in progress can always finish. -/
theorem exists_deliverAll (d : Deliveries K) :
    ∃ calls d', d.deliverAll calls = some d' ∧ d'.pending = [] := by
  induction hn : d.pending.length generalizing d with
  | zero => exact ⟨[], d, rfl, List.length_eq_zero_iff.mp hn⟩
  | succ n ih =>
    have hne : d.pending ≠ [] := by
      rintro hnil
      rw [hnil] at hn
      cases hn
    obtain ⟨i, d', hd'⟩ := exists_deliver hne
    have hlength := deliver_length hd'
    obtain ⟨calls, e, hcalls, he⟩ := ih d' (by omega)
    exact ⟨i :: calls, e, by rw [deliverAll, hd']; exact hcalls, he⟩

end Deliveries

/-- Nothing is lost and nothing is early: what was added is invoked, in a call's hands or
waiting; before the completion everything waits, after it nothing does. -/
structure Sound (complete : Prop) (d : Deliveries K) : Prop where
  conserved : (d.invoked ++ d.pending ++ d.waiting).Perm d.added
  early : ¬ complete → d.invoked = [] ∧ d.pending = []
  late : complete → d.waiting = []

namespace Sound
variable {complete : Prop} {d d' : Deliveries K}

theorem empty : Sound complete ({} : Deliveries K) :=
  ⟨List.Perm.refl _, fun _ => ⟨rfl, rfl⟩, fun _ => rfl⟩

theorem leave (h : Sound complete d) (hc : ¬ complete) (k : K) : Sound complete (d.leave k) where
  conserved := by
    change (d.invoked ++ d.pending ++ (d.waiting ++ [k])).Perm (d.added ++ [k])
    rw [← List.append_assoc]
    exact h.conserved.append_right [k]
  early := h.early
  late := fun hcomplete => absurd hcomplete hc

theorem handOver (h : Sound complete d) (hc : complete) (k : K) :
    Sound complete (d.handOver k) where
  conserved := by
    change (d.invoked ++ (k :: d.pending) ++ d.waiting).Perm (d.added ++ [k])
    rw [List.append_assoc, List.cons_append]
    refine List.perm_middle.trans (List.Perm.trans ?_ (List.perm_append_singleton k _).symm)
    rw [← List.append_assoc]
    exact h.conserved.cons k
  early := fun hcomplete => absurd hc hcomplete
  late := h.late

/-- Completion: whatever waited is now in hand. -/
theorem takeOut (h : Sound complete d) : Sound True d.takeOut where
  conserved := by
    change (d.invoked ++ (d.waiting ++ d.pending) ++ []).Perm d.added
    rw [List.append_nil]
    refine List.Perm.trans ?_ h.conserved
    rw [List.append_assoc]
    exact List.perm_append_comm.append_left d.invoked
  early := fun hcomplete => absurd trivial hcomplete
  late := fun _ => rfl

theorem deliver (h : Sound complete d) {i : Nat} (hd : d.deliver i = some d') :
    Sound complete d' := by
  obtain ⟨k, hpending, hinvoked, hwaiting, hadded⟩ := Deliveries.deliver_cases hd
  refine ⟨?_, fun hc => ?_, fun hc => hwaiting.trans (h.late hc)⟩
  · rw [hinvoked, hwaiting, hadded, List.append_assoc d.invoked]
    exact ((hpending.append_left d.invoked).append_right d.waiting).trans h.conserved
  · have hnone := hpending.length_eq
    rw [(h.early hc).2] at hnone
    cases hnone

/-- A sound ledger depends on the completion only as a truth value. -/
theorem congr {complete' : Prop} (h : Sound complete d) (hc : complete' ↔ complete) :
    Sound complete' d := by
  rwa [propext hc]

/-- Something that was invoked was invoked after the completion. -/
theorem complete_of_invoked (h : Sound complete d) (hne : d.invoked ≠ []) : complete := by
  by_contra hc
  exact hne (h.early hc).1

theorem complete_of_deliver (h : Sound complete d) {i : Nat} (hd : d.deliver i = some d') :
    complete := by
  obtain ⟨k, -, hinvoked, -⟩ := Deliveries.deliver_cases hd
  apply (h.deliver hd).complete_of_invoked
  rw [hinvoked]
  exact List.append_ne_nil_of_right_ne_nil _ (List.cons_ne_nil k [])

/-- Each callback added is invoked, in hand or waiting, as often as it was added. -/
theorem count [DecidableEq K] (h : Sound complete d) (k : K) :
    d.invoked.count k + d.pending.count k + d.waiting.count k = d.added.count k := by
  have hcount := h.conserved.count_eq k
  rwa [List.count_append, List.count_append] at hcount

/-- **Exactly once**: when no call delivers any more, what was invoked is what was added. -/
theorem exactlyOnce (h : Sound complete d) (hc : complete) (hd : d.pending = []) :
    d.invoked.Perm d.added := by
  have hperm := h.conserved
  rwa [hd, h.late hc, List.append_nil, List.append_nil] at hperm

end Sound
end CallbackLedger
