import AstraScheduler.TimerQueueInvariant
import Mathlib.Data.List.Count

/-! # The timer queue over whole runs

A queue keeps its entries in order, each at the place it records and each under its id,
through any calls, and a call answers what a priority queue would.  The ids are a 64-bit
counter: an id comes back after `2 ^ 64` calls of `add`, and if its first owner is still
armed then, the map forgets that owner.  The results are about the runs in which no `add`
is given the id of a live entry, which include all runs of at most `2 ^ 64` of them. -/

namespace AstraScheduler
namespace TimerQueue
open BinaryHeap
variable {H R : Type} {q : TimerQueue H R}

/-- The heap is ordered, every entry's index is its position, and the heap and the map
hold the same entries. -/
structure WellFormed (q : TimerQueue H R) : Prop where
  ordered : ∀ i a p, 0 < i → q.heap.entries[i]? = some a →
    q.heap.entries[(i - 1) / 2]? = some p → compareTimerEntry a p = false
  indexed : ∀ i e, q.heap.entries[i]? = some e → q.heap.heapIndex e.address = i
  mapped : ∀ id e, q.map id = some e ↔ e ∈ q.heap.entries ∧ e.timerId = id

/-- What a call returns and leaves behind, for the live entries as a collection. -/
def Answers (q : TimerQueue H R) : Op H R → Result H R → TimerQueue H R → Prop
  | .add wakeTime handshake resumeAction, result, q' =>
    ∃ e : TimerEntry H R, e.wakeTime = wakeTime ∧ e.handshake = handshake ∧
      e.resumeAction = resumeAction ∧ e.timerId = q.nextTimerId ∧
      e.sequence = q.nextTimerSequence ∧ e ∉ q.heap.entries ∧
      List.Perm q'.heap.entries (e :: q.heap.entries) ∧
      ∃ becameEarliest, result = .added e.timerId becameEarliest ∧
        (becameEarliest = true ↔ q'.heap.entries.head? = some e)
  | .cancel timerId, result, q' =>
    result = .done ∧
      ((∀ e ∈ q.heap.entries, e.timerId ≠ timerId) ∧ q' = q ∨
        ∃ e, e.timerId = timerId ∧ List.Perm q.heap.entries (e :: q'.heap.entries) ∧
          ∀ e' ∈ q'.heap.entries, e'.timerId ≠ timerId)
  | .collectDue now, result, q' =>
    ∃ due : List (TimerEntry H R), result = .items (due.map TimerEntry.dueItem) ∧
      due.Pairwise (fun a b => compareTimerEntry a b = true) ∧
      List.Perm due (q.heap.entries.filter fun e => e.wakeTime ≤ now) ∧
      List.Perm q'.heap.entries (q.heap.entries.filter fun e => !decide (e.wakeTime ≤ now))
  | .cancelAll, result, q' =>
    ∃ all : List (TimerEntry H R), result = .items (all.map TimerEntry.dueItem) ∧
      all.Pairwise (fun a b => compareTimerEntry a b = true) ∧
      List.Perm all q.heap.entries ∧ q'.heap.entries = []

/-- The id that an `add` would be given is not the id of a live entry. -/
def FreshId (q : TimerQueue H R) : Op H R → Prop
  | .add .. => ∀ e ∈ q.heap.entries, e.timerId ≠ q.nextTimerId
  | _ => True

instance decidableFreshId (q : TimerQueue H R) : ∀ op, Decidable (FreshId q op)
  | .add .. => inferInstanceAs (Decidable (∀ e ∈ q.heap.entries, e.timerId ≠ q.nextTimerId))
  | .cancel _ | .collectDue _ | .cancelAll => .isTrue trivial

/-- What every call keeps, if the ids are fresh. -/
structure Inv (q : TimerQueue H R) : Prop where
  heap : q.heap.Ok
  mapped : ∀ id e, q.map id = some e ↔ e ∈ q.heap.entries ∧ e.timerId = id
  allocated : ∀ e ∈ q.heap.entries, e.address < q.allocated
  counters : q.nextTimerSequence = q.nextTimerId
  sequence : ∀ e ∈ q.heap.entries, e.sequence = e.timerId

theorem Inv.wellFormed (h : Inv q) : WellFormed q :=
  ⟨fun i a p hi ha hp => h.heap.ordered i hi a p ha hp, h.heap.indexed, h.mapped⟩

theorem Inv.new (level : MetricsLevel) : Inv (new level : TimerQueue H R) where
  heap := ⟨fun _ _ _ _ ha => (by cases ha), fun _ _ he => (by cases he)⟩
  mapped _ e := ⟨fun h => (by cases h), fun h => (by cases h.1)⟩
  allocated _ he := by cases he
  counters := rfl
  sequence _ he := by cases he

theorem Inv.eq_of_timerId (h : Inv q) {a b : TimerEntry H R} (ha : a ∈ q.heap.entries)
    (hb : b ∈ q.heap.entries) (hid : a.timerId = b.timerId) : a = b :=
  Option.some.inj (((h.mapped b.timerId a).mpr ⟨ha, hid⟩).symm.trans
    ((h.mapped b.timerId b).mpr ⟨hb, rfl⟩))

theorem Inv.not_mem_rest (h : Inv q) {e : TimerEntry H R} {rest : List (TimerEntry H R)}
    (hp : List.Perm q.heap.entries (e :: rest)) : e ∉ rest := by
  intro he
  have hnd := (hp.map TimerEntry.address).nodup_iff.mp (Heap.distinct_of_indexed h.heap.indexed)
  exact (List.nodup_cons.mp hnd).1 (List.mem_map_of_mem he)

/-! ## The calls -/

theorem Inv.add (h : Inv q) (wakeTime : Int) (handshake : H) (resumeAction : R)
    (hfresh : ∀ e ∈ q.heap.entries, e.timerId ≠ q.nextTimerId) :
    Inv (q.add wakeTime handshake resumeAction).1 := by
  obtain ⟨hok, hperm⟩ := h.heap.push (e := q.entryOf wakeTime handshake resumeAction)
    fun a ha => Nat.ne_of_lt (h.allocated a ha)
  refine ⟨hok, fun id e => ?_, fun e he => ?_, ?_, fun e he => ?_⟩
  · refine Iff.trans ?_ (and_congr_left fun _ => hperm.mem_iff.symm)
    rw [List.mem_cons]
    show Function.update q.map q.nextTimerId _ id = some e ↔ _
    by_cases hid : id = q.nextTimerId
    · subst hid
      rw [Function.update_self]
      refine ⟨fun he => ?_, ?_⟩
      · obtain rfl := Option.some.inj he
        exact ⟨.inl rfl, rfl⟩
      · rintro ⟨rfl | he, hid⟩
        · rfl
        · exact absurd hid (hfresh e he)
    · rw [Function.update_of_ne hid, h.mapped]
      refine ⟨fun he => ⟨.inr he.1, he.2⟩, ?_⟩
      rintro ⟨rfl | he, hid'⟩
      · exact absurd hid'.symm hid
      · exact ⟨he, hid'⟩
  · rcases List.mem_cons.mp (hperm.mem_iff.mp he) with rfl | he
    · exact Nat.lt_succ_self _
    · exact Nat.lt_succ_of_lt (h.allocated e he)
  · show q.nextTimerSequence + 1 = q.nextTimerId + 1
    rw [h.counters]
  · rcases List.mem_cons.mp (hperm.mem_iff.mp he) with rfl | he
    · exact h.counters
    · exact h.sequence e he

theorem add_becameEarliest (q : TimerQueue H R) (wakeTime : Int) (handshake : H)
    (resumeAction : R) : (q.add wakeTime handshake resumeAction).2.2 =
      (q.add wakeTime handshake resumeAction).1.heap.entries.head?.any
        fun front => front.timerId = q.nextTimerId := by
  unfold add
  dsimp only
  generalize (q.heap.push (q.entryOf wakeTime handshake resumeAction)).entries.head? = front
  cases front <;> rfl

theorem Inv.answersAdd (h : Inv q) (wakeTime : Int) (handshake : H) (resumeAction : R)
    (hfresh : ∀ e ∈ q.heap.entries, e.timerId ≠ q.nextTimerId) :
    Answers q (.add wakeTime handshake resumeAction)
      (q.call (.add wakeTime handshake resumeAction)).1
      (q.call (.add wakeTime handshake resumeAction)).2 := by
  have hinv := h.add wakeTime handshake resumeAction hfresh
  obtain ⟨-, hperm⟩ := h.heap.push (e := q.entryOf wakeTime handshake resumeAction)
    fun a ha => Nat.ne_of_lt (h.allocated a ha)
  refine ⟨q.entryOf wakeTime handshake resumeAction, rfl, rfl, rfl, rfl, rfl,
    fun hmem => hfresh _ hmem rfl, hperm, _, rfl, ?_⟩
  have hmem : q.entryOf wakeTime handshake resumeAction ∈
      (q.add wakeTime handshake resumeAction).1.heap.entries :=
    hperm.mem_iff.mpr List.mem_cons_self
  have hfront := q.add_becameEarliest wakeTime handshake resumeAction
  cases hhead : (q.add wakeTime handshake resumeAction).1.heap.entries.head? with
  | none =>
    rw [List.head?_eq_none_iff.mp hhead] at hmem
    cases hmem
  | some front =>
    rw [hhead] at hfront
    change (q.add wakeTime handshake resumeAction).2.2 = true ↔
      (q.add wakeTime handshake resumeAction).1.heap.entries.head? = _
    rw [hfront, hhead, Option.any_some, decide_eq_true_iff, Option.some.injEq]
    refine ⟨fun hid => ?_, fun hfront => hfront ▸ rfl⟩
    exact hinv.eq_of_timerId (List.mem_of_head? hhead) hmem hid

/-- An entry leaves the heap and the map. -/
theorem Inv.removed (h : Inv q) {i : Nat} {e : TimerEntry H R} (he : q.heap.entries[i]? = some e)
    (m : Metrics) :
    Inv { q with
      metrics := m, heap := q.heap.remove i, map := Function.update q.map e.timerId none } := by
  obtain ⟨hok, hperm⟩ := h.heap.remove he
  have hmem := List.mem_of_getElem? he
  have hsub : ∀ {a}, a ∈ (q.heap.remove i).entries → a ∈ q.heap.entries := fun ha =>
    hperm.mem_iff.mpr (List.mem_cons_of_mem e ha)
  refine ⟨hok, fun id a => ?_, fun a ha => h.allocated a (hsub ha), h.counters,
    fun a ha => h.sequence a (hsub ha)⟩
  show Function.update q.map e.timerId none id = some a ↔ _
  by_cases hid : id = e.timerId
  · subst hid
    rw [Function.update_self]
    refine ⟨fun hno => (by cases hno), ?_⟩
    rintro ⟨ha, hid⟩
    obtain rfl := h.eq_of_timerId (hsub ha) hmem hid
    exact absurd ha (h.not_mem_rest hperm)
  · rw [Function.update_of_ne hid, h.mapped]
    refine ⟨?_, fun ha => ⟨hsub ha.1, ha.2⟩⟩
    rintro ⟨ha, rfl⟩
    rcases List.mem_cons.mp (hperm.mem_iff.mp ha) with rfl | ha
    · exact absurd rfl hid
    · exact ⟨ha, rfl⟩

/-- `cancel` of an id in the map finds the entry where it says it is. -/
theorem Inv.getElem?_heapIndex (h : Inv q) {id : UInt64} {e : TimerEntry H R}
    (he : q.map id = some e) : q.heap.entries[q.heap.heapIndex e.address]? = some e := by
  obtain ⟨i, hi⟩ := List.mem_iff_getElem?.mp ((h.mapped id e).mp he).1
  rw [h.heap.indexed i e hi]
  exact hi

theorem Inv.cancel (h : Inv q) (timerId : UInt64) : Inv (q.cancel timerId) := by
  unfold TimerQueue.cancel
  split
  · exact h
  · rename_i e he
    obtain rfl := ((h.mapped timerId e).mp he).2
    exact h.removed (h.getElem?_heapIndex he) _

theorem Inv.answersCancel (h : Inv q) (timerId : UInt64) :
    Answers q (.cancel timerId) .done (q.cancel timerId) := by
  refine ⟨rfl, ?_⟩
  unfold TimerQueue.cancel
  split
  · rename_i hnone
    refine .inl ⟨fun e he hid => ?_, rfl⟩
    rw [(h.mapped timerId e).mpr ⟨he, hid⟩] at hnone
    cases hnone
  · rename_i e he
    obtain ⟨hmem, rfl⟩ := (h.mapped timerId e).mp he
    obtain ⟨-, hperm⟩ := h.heap.remove (h.getElem?_heapIndex he)
    refine .inr ⟨e, rfl, hperm, fun a ha hid => ?_⟩
    obtain rfl := h.eq_of_timerId (hperm.mem_iff.mpr (List.mem_cons_of_mem e ha)) hmem hid
    exact h.not_mem_rest hperm ha

/-! ## The loops that empty the heap from its front -/

/-- The front entry comes strictly before every other. -/
theorem Inv.front_before (h : Inv q) {e a : TimerEntry H R} {rest : List (TimerEntry H R)}
    (he : q.heap.entries[0]? = some e) (hp : List.Perm q.heap.entries (e :: rest))
    (ha : a ∈ rest) : compareTimerEntry e a = true := by
  have hmem := hp.mem_iff.mpr (List.mem_cons_of_mem e ha)
  obtain ⟨i, hi⟩ := List.mem_iff_getElem?.mp hmem
  have hle := compareTimerEntry_false_iff.mp
    (h.heap.ordered.first compareTimerEntry_order he hi)
  rw [compareTimerEntry_iff]
  by_contra hno
  have hseq : a.sequence.toNat = e.sequence.toNat := by omega
  have hid : a.timerId = e.timerId := by
    rw [← h.sequence a hmem, ← h.sequence e (List.mem_of_getElem? he)]
    exact UInt64.toNat_inj.mp hseq
  obtain rfl := h.eq_of_timerId hmem (List.mem_of_getElem? he) hid
  exact h.not_mem_rest hp ha

/-- What the loop took out, and what it left. -/
structure Popped (due : TimerEntry H R → Bool) (q : TimerQueue H R)
    (r : List (TimerEntry H R) × TimerQueue H R) : Prop where
  inv : Inv r.2
  perm : List.Perm q.heap.entries (r.1 ++ r.2.heap.entries)
  ordered : r.1.Pairwise fun a b => compareTimerEntry a b = true
  taken : ∀ e ∈ r.1, due e = true
  left : ∀ e ∈ r.2.heap.entries, due e = false

/-- With a round for every entry, the loop takes out the due entries in order.  `due` must
hold of whatever is level with or before a due entry. -/
theorem Inv.popWhile (h : Inv q) {due : TimerEntry H R → Bool}
    (hdue : ∀ a b, compareTimerEntry b a = false → due b = true → due a = true) {fuel : Nat}
    (hf : q.heap.entries.length ≤ fuel) : Popped due q (popWhile due fuel q) := by
  induction fuel generalizing q with
  | zero =>
    have hnil : q.heap.entries = [] := List.length_eq_zero_iff.mp (by omega)
    refine ⟨h, .refl _, .nil, fun _ he => (by cases he), fun e he => ?_⟩
    simp only [TimerQueue.popWhile, hnil] at he
    cases he
  | succ fuel ih =>
    unfold TimerQueue.popWhile
    split
    · rename_i hnone
      have hnil := List.head?_eq_none_iff.mp hnone
      refine ⟨h, .refl _, .nil, fun _ he => (by cases he), fun e he => ?_⟩
      rw [hnil] at he
      cases he
    · rename_i e hhead
      have he : q.heap.entries[0]? = some e := by rw [← List.head?_eq_getElem?, hhead]
      split
      · rename_i hyes
        obtain ⟨-, hperm⟩ := h.heap.remove he
        have hinv := h.removed he q.metrics
        rw [← Heap.popFront_eq_remove] at hperm hinv
        have hlen := hperm.length_eq
        rw [List.length_cons] at hlen
        have hrest := ih hinv (by show q.heap.popFront.entries.length ≤ fuel; omega)
        refine ⟨hrest.inv, hperm.trans (hrest.perm.cons e), ?_, ?_, hrest.left⟩
        · refine List.pairwise_cons.mpr ⟨fun a ha => ?_, hrest.ordered⟩
          exact h.front_before he hperm (hrest.perm.mem_iff.mpr (List.mem_append_left _ ha))
        · intro a ha
          rcases List.mem_cons.mp ha with rfl | ha
          · exact hyes
          · exact hrest.taken a ha
      · rename_i hno
        refine ⟨h, .refl _, .nil, fun _ ha => (by cases ha), fun a ha => ?_⟩
        obtain ⟨i, hi⟩ := List.mem_iff_getElem?.mp ha
        by_contra hne
        exact hno (hdue e a (h.heap.ordered.first compareTimerEntry_order he hi)
          (eq_true_of_ne_false hne))

theorem Popped.due_perm {due : TimerEntry H R → Bool}
    {r : List (TimerEntry H R) × TimerQueue H R} (h : Popped due q r) :
    List.Perm r.1 (q.heap.entries.filter due) := by
  have htaken : r.1.filter due = r.1 := List.filter_eq_self.mpr h.taken
  have hleft : r.2.heap.entries.filter due = [] :=
    List.filter_eq_nil_iff.mpr fun e he => by
      rw [h.left e he]
      exact Bool.false_ne_true
  have hperm := h.perm.filter due
  rw [List.filter_append, htaken, hleft, List.append_nil] at hperm
  exact hperm.symm

theorem Popped.left_perm {due : TimerEntry H R → Bool}
    {r : List (TimerEntry H R) × TimerQueue H R} (h : Popped due q r) :
    List.Perm r.2.heap.entries (q.heap.entries.filter fun e => !due e) := by
  have htaken : (r.1.filter fun e => !due e) = [] :=
    List.filter_eq_nil_iff.mpr fun e he => by
      rw [h.taken e he]
      exact Bool.false_ne_true
  have hleft : (r.2.heap.entries.filter fun e => !due e) = r.2.heap.entries :=
    List.filter_eq_self.mpr fun e he => by
      rw [h.left e he]
      rfl
  have hperm := h.perm.filter fun e => !due e
  rw [List.filter_append, htaken, hleft, List.nil_append] at hperm
  exact hperm.symm

theorem Inv.popDue (h : Inv q) (now : Int) : Popped (fun e => e.wakeTime ≤ now) q
    (TimerQueue.popWhile (fun e => e.wakeTime ≤ now) q.heap.entries.length q) := by
  refine h.popWhile (fun a b hab hb => ?_) (Nat.le_refl _)
  rw [compareTimerEntry_false_iff] at hab
  rw [decide_eq_true_iff] at hb ⊢
  omega

theorem Inv.popAll (h : Inv q) : Popped (fun _ => true) q
    (TimerQueue.popWhile (fun _ => true) q.heap.entries.length q) :=
  h.popWhile (fun _ _ _ _ => rfl) (Nat.le_refl _)

/-- The metrics are no part of the invariant. -/
theorem Inv.withMetrics (h : Inv q) (m : Metrics) : Inv { q with metrics := m } :=
  ⟨h.heap, h.mapped, h.allocated, h.counters, h.sequence⟩

/-! ## Runs -/

theorem Inv.call (h : Inv q) {op : Op H R} (hfresh : FreshId q op) : Inv (q.call op).2 := by
  cases op with
  | add wakeTime handshake resumeAction => exact h.add wakeTime handshake resumeAction hfresh
  | cancel timerId => exact h.cancel timerId
  | collectDue now => exact (h.popDue now).inv.withMetrics _
  | cancelAll => exact h.popAll.inv.withMetrics _

theorem Inv.answers (h : Inv q) {op : Op H R} (hfresh : FreshId q op) :
    Answers q op (q.call op).1 (q.call op).2 := by
  cases op with
  | add wakeTime handshake resumeAction =>
    exact h.answersAdd wakeTime handshake resumeAction hfresh
  | cancel timerId => exact h.answersCancel timerId
  | collectDue now =>
    have hp := h.popDue now
    exact ⟨_, rfl, hp.ordered, hp.due_perm, hp.left_perm⟩
  | cancelAll =>
    have hp := h.popAll
    refine ⟨_, rfl, hp.ordered, ?_, ?_⟩
    · simpa using hp.due_perm
    · refine List.eq_nil_iff_forall_not_mem.mpr fun e he => ?_
      exact Bool.noConfusion (hp.left e he)

/-! ## What the calls leave in the heap -/

theorem Inv.mem_cancel (h : Inv q) {timerId : UInt64} {e : TimerEntry H R}
    (he : e ∈ (q.cancel timerId).heap.entries) : e ∈ q.heap.entries ∧ e.timerId ≠ timerId := by
  rcases (h.answersCancel timerId).2 with ⟨hunknown, hsame⟩ | ⟨a, -, hperm, hrest⟩
  · rw [hsame] at he
    exact ⟨he, hunknown e he⟩
  · exact ⟨hperm.mem_iff.mpr (List.mem_cons_of_mem a he), hrest e he⟩

theorem Inv.mem_collectDue (h : Inv q) {now : Int} {e : TimerEntry H R}
    (he : e ∈ (q.collectDue now).2.heap.entries) : e ∈ q.heap.entries ∧ now < e.wakeTime := by
  have hleft := List.mem_filter.mp ((h.popDue now).left_perm.mem_iff.mp he)
  simpa using hleft

theorem Inv.due_collectDue (h : Inv q) {now : Int} {item : DueItem H R}
    (hitem : item ∈ (q.collectDue now).1) :
    ∃ e ∈ q.heap.entries, e.wakeTime ≤ now ∧ e.dueItem = item := by
  obtain ⟨e, he, rfl⟩ := List.mem_map.mp hitem
  have hdue := List.mem_filter.mp ((h.popDue now).due_perm.mem_iff.mp he)
  exact ⟨e, hdue.1, by simpa using hdue.2, rfl⟩

theorem Inv.not_mem_cancelAll (h : Inv q) (e : TimerEntry H R) :
    e ∉ q.cancelAll.2.heap.entries :=
  fun he => Bool.noConfusion (h.popAll.left e he)

theorem Inv.due_cancelAll (h : Inv q) {item : DueItem H R} (hitem : item ∈ q.cancelAll.1) :
    ∃ e ∈ q.heap.entries, e.dueItem = item := by
  obtain ⟨e, he, rfl⟩ := List.mem_map.mp hitem
  exact ⟨e, (List.mem_filter.mp (h.popAll.due_perm.mem_iff.mp he)).1, rfl⟩

/-! ## Reachable queues -/

theorem inv_of_reachable (h : (machine H R).ReachableUnder FreshId q) : Inv q := by
  refine h.invariant Inv ?_ ?_
  · rintro q ⟨level, rfl⟩
    exact .new level
  · intro q op q' hq hfresh hn
    obtain rfl := Option.some.inj hn
    exact hq.call hfresh

/-- **The queue over whole runs**: after any calls whose ids were fresh the queue is well
formed, and the next such call answers like a priority queue. -/
theorem reachable_answers (h : (machine H R).ReachableUnder FreshId q) :
    WellFormed q ∧ ∀ op, FreshId q op → Answers q op (q.call op).1 (q.call op).2 :=
  ⟨(inv_of_reachable h).wellFormed, fun _ hfresh => (inv_of_reachable h).answers hfresh⟩

theorem reachable_answers_run :
    ∃ q, (machine Unit Unit).run (new .basic)
        [.add 5 () (), .add 3 () (), .add 5 () (), .cancel 2, .cancel 7] = some q ∧
      WellFormed q ∧ ∀ op, FreshId q op → Answers q op (q.call op).1 (q.call op).2 := by
  have hinit : (machine Unit Unit).init (new .basic) := ⟨.basic, rfl⟩
  obtain ⟨q, hq⟩ : ∃ q, (machine Unit Unit).run (new .basic)
      [.add 5 () (), .add 3 () (), .add 5 () (), .cancel 2, .cancel 7] = some q := ⟨_, rfl⟩
  refine ⟨q, hq, reachable_answers
    ((Transition.Machine.ReachableUnder.initial hinit).run ?_ hq)⟩
  decide

/-! ## Whatever the ids -/

/-- What every call keeps, fresh ids or not: a live entry may be missing from the map. -/
structure Placed (q : TimerQueue H R) : Prop where
  heap : q.heap.Ok
  mapped : ∀ id e, q.map id = some e → e ∈ q.heap.entries ∧ e.timerId = id
  allocated : ∀ e ∈ q.heap.entries, e.address < q.allocated

theorem Inv.placed (h : Inv q) : Placed q :=
  ⟨h.heap, fun id e he => (h.mapped id e).mp he, h.allocated⟩

theorem Placed.new (level : MetricsLevel) : Placed (new level : TimerQueue H R) where
  heap := ⟨fun _ _ _ _ ha => (by cases ha), fun _ _ he => (by cases he)⟩
  mapped _ _ he := by cases he
  allocated _ he := by cases he

theorem Placed.mem_add (h : Placed q) {wakeTime : Int} {handshake : H} {resumeAction : R}
    {e : TimerEntry H R} : e ∈ (q.add wakeTime handshake resumeAction).1.heap.entries ↔
      e = q.entryOf wakeTime handshake resumeAction ∨ e ∈ q.heap.entries := by
  obtain ⟨-, hperm⟩ := h.heap.push (e := q.entryOf wakeTime handshake resumeAction)
    fun a ha => Nat.ne_of_lt (h.allocated a ha)
  exact hperm.mem_iff.trans List.mem_cons

theorem Placed.add (h : Placed q) (wakeTime : Int) (handshake : H) (resumeAction : R) :
    Placed (q.add wakeTime handshake resumeAction).1 := by
  refine ⟨(h.heap.push fun a ha => Nat.ne_of_lt (h.allocated a ha)).1, fun id e he => ?_,
    fun e he => ?_⟩
  · change Function.update q.map q.nextTimerId _ id = some e at he
    rw [h.mem_add]
    by_cases hid : id = q.nextTimerId
    · rw [hid, Function.update_self] at he
      obtain rfl := Option.some.inj he
      exact ⟨.inl rfl, hid.symm⟩
    · rw [Function.update_of_ne hid] at he
      exact ⟨.inr (h.mapped id e he).1, (h.mapped id e he).2⟩
  · rcases h.mem_add.mp he with rfl | he
    · exact Nat.lt_succ_self _
    · exact Nat.lt_succ_of_lt (h.allocated e he)

/-- An entry leaves the heap, and its id the map. -/
theorem Placed.removed (h : Placed q) {i : Nat} {e : TimerEntry H R}
    (he : q.heap.entries[i]? = some e) (m : Metrics) :
    Placed { q with
      metrics := m, heap := q.heap.remove i, map := Function.update q.map e.timerId none } ∧
      ∀ a ∈ (q.heap.remove i).entries, a ∈ q.heap.entries := by
  obtain ⟨hok, hperm⟩ := h.heap.remove he
  have hsub : ∀ a ∈ (q.heap.remove i).entries, a ∈ q.heap.entries := fun a ha =>
    hperm.mem_iff.mpr (List.mem_cons_of_mem e ha)
  refine ⟨⟨hok, fun id a ha => ?_, fun a ha => h.allocated a (hsub a ha)⟩, hsub⟩
  change Function.update q.map e.timerId none id = some a at ha
  by_cases hid : id = e.timerId
  · rw [hid, Function.update_self] at ha
    cases ha
  · rw [Function.update_of_ne hid] at ha
    obtain ⟨hmem, rfl⟩ := h.mapped id a ha
    rcases List.mem_cons.mp (hperm.mem_iff.mp hmem) with rfl | hrest
    · exact absurd rfl hid
    · exact ⟨hrest, rfl⟩

theorem Placed.cancel (h : Placed q) (timerId : UInt64) :
    Placed (q.cancel timerId) ∧ ∀ e ∈ (q.cancel timerId).heap.entries, e ∈ q.heap.entries := by
  unfold TimerQueue.cancel
  split
  · exact ⟨h, fun _ he => he⟩
  · rename_i e he
    obtain ⟨hmem, rfl⟩ := h.mapped timerId e he
    obtain ⟨i, hi⟩ := List.mem_iff_getElem?.mp hmem
    rw [h.heap.indexed i e hi]
    exact h.removed hi _

theorem Placed.popWhile (h : Placed q) (due : TimerEntry H R → Bool) (fuel : Nat) :
    Placed (TimerQueue.popWhile due fuel q).2 ∧
      ∀ e ∈ (TimerQueue.popWhile due fuel q).2.heap.entries, e ∈ q.heap.entries := by
  induction fuel generalizing q with
  | zero => exact ⟨h, fun _ he => he⟩
  | succ fuel ih =>
    unfold TimerQueue.popWhile
    split
    · exact ⟨h, fun _ he => he⟩
    · rename_i e hhead
      split
      · have he : q.heap.entries[0]? = some e := by rw [← List.head?_eq_getElem?, hhead]
        obtain ⟨hplaced, hsub⟩ := h.removed he q.metrics
        rw [← Heap.popFront_eq_remove] at hplaced hsub
        obtain ⟨hrest, hrestSub⟩ := ih hplaced
        exact ⟨hrest, fun a ha => hsub a (hrestSub a ha)⟩
      · exact ⟨h, fun _ he => he⟩

/-- A call without a new timer leaves a part of the entries. -/
theorem Placed.call (h : Placed q) {op : Op H R}
    (hop : ∀ wakeTime handshake resumeAction, op ≠ .add wakeTime handshake resumeAction) :
    Placed (q.call op).2 ∧ ∀ e ∈ (q.call op).2.heap.entries, e ∈ q.heap.entries := by
  cases op with
  | add wakeTime handshake resumeAction => exact absurd rfl (hop _ _ _)
  | cancel timerId => exact h.cancel timerId
  | collectDue now =>
    obtain ⟨hplaced, hsub⟩ := h.popWhile (fun e => e.wakeTime ≤ now) q.heap.entries.length
    exact ⟨⟨hplaced.heap, hplaced.mapped, hplaced.allocated⟩, hsub⟩
  | cancelAll =>
    obtain ⟨hplaced, hsub⟩ := h.popWhile (fun _ => true) q.heap.entries.length
    exact ⟨⟨hplaced.heap, hplaced.mapped, hplaced.allocated⟩, hsub⟩

/-- No live entry is due before `earliest_wake_time`. -/
theorem Placed.earliestWakeTime (h : Placed q) {e : TimerEntry H R} (he : e ∈ q.heap.entries) :
    ∃ w, q.earliestWakeTime = some w ∧ w ≤ e.wakeTime := by
  obtain ⟨i, hi⟩ := List.mem_iff_getElem?.mp he
  obtain ⟨front, hfront⟩ : ∃ front, q.heap.entries[0]? = some front :=
    ⟨_, List.getElem?_eq_getElem (List.length_pos_of_mem he)⟩
  refine ⟨front.wakeTime, ?_, ?_⟩
  · rw [TimerQueue.earliestWakeTime, List.head?_eq_getElem?, hfront]
    rfl
  · have hle := h.heap.ordered.first compareTimerEntry_order hfront hi
    rw [compareTimerEntry_false_iff] at hle
    omega

/-! ## The ids -/

/-- How many of the calls are `add`. -/
def addCalls (ops : List (Op H R)) : Nat :=
  ops.countP fun
    | .add .. => true
    | _ => false

/-- The live entries' ids are among the first `n` given out, and the next one is the one
after these. -/
def GivenOut (n : Nat) (q : TimerQueue H R) : Prop :=
  q.nextTimerId = UInt64.ofNat (n + 1) ∧
    ∀ e ∈ q.heap.entries, ∃ k, 1 ≤ k ∧ k ≤ n ∧ e.timerId = UInt64.ofNat k

theorem GivenOut.freshId {n : Nat} {op : Op H R} (h : GivenOut n q)
    (hn : n + addCalls [op] ≤ 2 ^ 64) : FreshId q op := by
  cases op with
  | add =>
    change n + 1 ≤ 2 ^ 64 at hn
    intro e he hid
    obtain ⟨k, hk1, hkn, hk⟩ := h.2 e he
    rw [hk, h.1, ← UInt64.toNat_inj, UInt64.toNat_ofNat', UInt64.toNat_ofNat'] at hid
    omega
  | cancel => trivial
  | collectDue => trivial
  | cancelAll => trivial

theorem popWhile_nextTimerId (due : TimerEntry H R → Bool) (fuel : Nat) (q : TimerQueue H R) :
    (TimerQueue.popWhile due fuel q).2.nextTimerId = q.nextTimerId := by
  induction fuel generalizing q with
  | zero => rfl
  | succ fuel ih =>
    unfold TimerQueue.popWhile
    split
    · rfl
    · split
      · exact ih _
      · rfl

/-- A call without a new timer leaves a part of the entries. -/
theorem GivenOut.sublist {n : Nat} {q' : TimerQueue H R} (h : GivenOut n q)
    (hid : q'.nextTimerId = q.nextTimerId)
    (hsub : ∀ e ∈ q'.heap.entries, e ∈ q.heap.entries) : GivenOut n q' :=
  ⟨hid.trans h.1, fun e he => h.2 e (hsub e he)⟩

theorem GivenOut.call {n : Nat} {op : Op H R} (hinv : Inv q) (h : GivenOut n q)
    (hfresh : FreshId q op) : GivenOut (n + addCalls [op]) (q.call op).2 := by
  have hans := hinv.answers hfresh
  cases op with
  | add wakeTime handshake resumeAction =>
    obtain ⟨e, -, -, -, hid, -, -, hperm, -⟩ := hans
    refine ⟨?_, fun a ha => ?_⟩
    · show q.nextTimerId + 1 = UInt64.ofNat (n + 1 + 1)
      rw [h.1, UInt64.ofNat_add (n + 1)]
      rfl
    · rcases List.mem_cons.mp (hperm.mem_iff.mp ha) with rfl | ha
      · exact ⟨n + 1, by omega, Nat.le_refl _, hid.trans h.1⟩
      · obtain ⟨k, hk1, hkn, hk⟩ := h.2 a ha
        exact ⟨k, hk1, Nat.le_succ_of_le hkn, hk⟩
  | cancel timerId =>
    refine h.sublist ?_ fun a ha => ?_
    · show (q.cancel timerId).nextTimerId = q.nextTimerId
      unfold TimerQueue.cancel
      split <;> rfl
    · rcases hans.2 with ⟨-, hsame⟩ | ⟨e, -, hperm, -⟩
      · exact hsame ▸ ha
      · exact hperm.mem_iff.mpr (List.mem_cons_of_mem e ha)
  | collectDue now =>
    obtain ⟨due, -, -, -, hperm⟩ := hans
    exact h.sublist (popWhile_nextTimerId ..)
      fun a ha => (List.mem_filter.mp (hperm.mem_iff.mp ha)).1
  | cancelAll =>
    obtain ⟨all, -, -, -, hnil⟩ := hans
    refine h.sublist (popWhile_nextTimerId ..) fun a ha => ?_
    rw [hnil] at ha
    cases ha

theorem GivenOut.everyStep {n : Nat} {ops : List (Op H R)} (hinv : Inv q) (h : GivenOut n q)
    (hadds : n + addCalls ops ≤ 2 ^ 64) : (machine H R).EveryStep FreshId q ops := by
  induction ops generalizing q n with
  | nil => trivial
  | cons op ops ih =>
    have hsplit : addCalls (op :: ops) = addCalls [op] + addCalls ops := by
      rw [← List.singleton_append]
      exact List.countP_append
    have hfresh : FreshId q op := h.freshId (by omega)
    refine ⟨hfresh, fun q' hq' => ?_⟩
    obtain rfl := Option.some.inj hq'
    exact ih (hinv.call hfresh) (h.call hinv hfresh) (by omega)

/-- A run of at most `2 ^ 64` calls of `add` never gives out the id of a live entry. -/
theorem everyStep_freshId {level : MetricsLevel} {ops : List (Op H R)}
    (hadds : addCalls ops ≤ 2 ^ 64) :
    (machine H R).EveryStep FreshId (new level) ops := by
  refine GivenOut.everyStep (.new level) (n := 0) ⟨rfl, fun _ he => ?_⟩ (by omega)
  cases he

/-! ## An id that comes back -/

/-- `n` timers, each cancelled before the next is added, the first under the id `id`. -/
def churn : Nat → UInt64 → List (Op Unit Unit)
  | 0, _ => []
  | n + 1, id => .add 1 () () :: .cancel id :: churn n (id + 1)

/-- Only the timer `e` is armed, due before any timer of `churn`. -/
structure Alone (e : TimerEntry Unit Unit) (id : UInt64) (q : TimerQueue Unit Unit) : Prop where
  entries : q.heap.entries = [e]
  map : q.map = Function.update (fun _ => none) e.timerId (some e)
  next : q.nextTimerId = id
  due : e.wakeTime = 0

theorem Alone.push {e : TimerEntry Unit Unit} {id : UInt64} {q : TimerQueue Unit Unit}
    (h : Alone e id q) : q.heap.push (q.entryOf 1 () ()) =
      { entries := [e, q.entryOf 1 () ()],
        heapIndex := Function.update q.heap.heapIndex q.allocated 1 } := by
  have hlater : compareTimerEntry (q.entryOf 1 () ()) e = false := by
    rw [compareTimerEntry_false_iff, h.due]
    exact .inl (by show (0 : Int) < 1; omega)
  simp only [Heap.push, h.entries, Heap.bubbleUp, List.length_singleton]
  rw [if_pos Nat.one_pos, if_neg]
  · rfl
  · intro hfirst
    rw [Heap.comesFirst_eq (a := q.entryOf 1 () ()) (b := e) rfl rfl, hlater] at hfirst
    exact Bool.false_ne_true hfirst

/-- A timer that is added and cancelled leaves the id counter one further. -/
theorem Alone.addCancel {e : TimerEntry Unit Unit} {id : UInt64} {q : TimerQueue Unit Unit}
    (h : Alone e id q) (hid : id ≠ e.timerId) :
    Alone e (id + 1) ((q.add 1 () ()).1.cancel id) := by
  have hheap : (q.add 1 () ()).1.heap = q.heap.push (q.entryOf 1 () ()) := rfl
  have hmap : (q.add 1 () ()).1.map = Function.update q.map id (some (q.entryOf 1 () ())) := by
    rw [← h.next]
    rfl
  have hremove : (q.heap.push (q.entryOf 1 () ())).remove
      ((q.heap.push (q.entryOf 1 () ())).heapIndex q.allocated) =
      { entries := [e], heapIndex := Function.update q.heap.heapIndex q.allocated 1 } := by
    rw [h.push]
    simp only [Function.update_self]
    rfl
  have hcancel : (q.add 1 () ()).1.cancel id = { (q.add 1 () ()).1 with
      metrics := ((q.add 1 () ()).1.cancel id).metrics
      heap := { entries := [e], heapIndex := Function.update q.heap.heapIndex q.allocated 1 }
      map := Function.update (q.add 1 () ()).1.map id none } := by
    simp only [TimerQueue.cancel, hmap, Function.update_self, hheap]
    rw [show (q.entryOf 1 () ()).address = q.allocated from rfl, hremove]
  rw [hcancel]
  refine ⟨rfl, ?_, ?_, h.due⟩
  · show Function.update (q.add 1 () ()).1.map id none = _
    have hnone : q.map id = none := by rw [h.map, Function.update_of_ne hid]
    rw [hmap, Function.update_idem]
    exact (Function.update_eq_self_iff.mpr hnone.symm).trans h.map
  · show q.nextTimerId + 1 = id + 1
    rw [h.next]

theorem Alone.churn {e : TimerEntry Unit Unit} (n : Nat) {id : UInt64}
    {q : TimerQueue Unit Unit} (h : Alone e id q) (hid : ∀ k < n, id + UInt64.ofNat k ≠ e.timerId) :
    ∃ q', (machine Unit Unit).run q (TimerQueue.churn n id) = some q' ∧
      Alone e (id + UInt64.ofNat n) q' := by
  induction n generalizing id q with
  | zero => exact ⟨q, rfl, by simpa using h⟩
  | succ n ih =>
    have hstep := h.addCancel (by simpa using hid 0 (Nat.succ_pos n))
    have hshift : ∀ k : Nat, id + 1 + UInt64.ofNat k = id + UInt64.ofNat (k + 1) := by
      intro k
      rw [UInt64.ofNat_add, UInt64.add_comm (UInt64.ofNat k), ← UInt64.add_assoc]
      rfl
    obtain ⟨q', hrun, halone⟩ := ih hstep fun k hk => by
      rw [hshift]
      exact hid (k + 1) (Nat.succ_lt_succ hk)
    exact ⟨q', hrun, hshift n ▸ halone⟩

/-- After `n` of them the id of the first timer is given out again. -/
theorem forgotten_of_wrap (n : Nat) (hn : (2 : UInt64) + UInt64.ofNat n = 1)
    (hid : ∀ k < n, (2 : UInt64) + UInt64.ofNat k ≠ 1) :
    ∃ q, (machine Unit Unit).run (new .off)
        (.add 0 () () :: (churn n 2 ++ [Op.add 1 () ()])) = some q ∧ ¬ WellFormed q := by
  let e : TimerEntry Unit Unit := ⟨0, 1, 0, 1, (), ()⟩
  have halone : Alone e 2 ((new .off).add 0 () ()).1 := ⟨rfl, rfl, rfl, rfl⟩
  obtain ⟨q, hrun, hq⟩ := halone.churn n hid
  have hnext : q.nextTimerId = 1 := hq.next.trans hn
  refine ⟨(q.add 1 () ()).1, ?_, fun hwell => ?_⟩
  · show (machine Unit Unit).run ((new .off).add 0 () ()).1 _ = _
    rw [Transition.Machine.run_append, hrun]
    rfl
  · have hentries : (q.add 1 () ()).1.heap.entries = [e, q.entryOf 1 () ()] :=
      congrArg Heap.entries hq.push
    have hmap := (hwell.mapped 1 e).mpr ⟨by rw [hentries]; exact List.mem_cons_self, rfl⟩
    change Function.update q.map q.nextTimerId (some (q.entryOf 1 () ())) 1 = some e at hmap
    rw [hnext, Function.update_self] at hmap
    have hdue := congrArg TimerEntry.wakeTime (Option.some.inj hmap)
    cases hdue

/-- **The id that comes back**: while the first timer stays armed, `2 ^ 64 - 1` others come
and go, and the next `add` takes the first timer's id: the heap then holds two entries under
one id and the map only the later one. -/
theorem idComesBack :
    ∃ q, (machine Unit Unit).run (new .off)
        (.add 0 () () :: (churn (2 ^ 64 - 1) 2 ++ [Op.add 1 () ()])) = some q ∧
      ¬ WellFormed q := by
  apply forgotten_of_wrap
  · decide
  · intro k hk hid
    rw [← UInt64.toNat_inj, UInt64.toNat_add, UInt64.toNat_ofNat'] at hid
    change (2 + k % 2 ^ 64) % 2 ^ 64 = 1 at hid
    omega

end TimerQueue
end AstraScheduler
