import AstraScheduler.TimerQueue
import Mathlib.Data.List.Perm.Basic
import Mathlib.Order.Defs.LinearOrder

/-! # What the timer queue's operations do to its entries

The heap's two loops are the sifts of a binary heap ordered by (wake time, sequence), with
the indices carried along.  An operation is then described by what it does to the live
entries as a collection, and by the invariant it keeps. -/

namespace AstraScheduler
namespace TimerQueue
open BinaryHeap
variable {H R : Type}

theorem compareTimerEntry_iff {a b : TimerEntry H R} :
    compareTimerEntry a b = true ↔
      a.wakeTime < b.wakeTime ∨
        a.wakeTime = b.wakeTime ∧ a.sequence.toNat < b.sequence.toNat := by
  unfold compareTimerEntry
  split
  · rename_i hne
    rw [decide_eq_true_iff]
    omega
  · rename_i heq
    rw [decide_eq_true_iff, UInt64.lt_iff_toNat_lt]
    omega

theorem compareTimerEntry_false_iff {a b : TimerEntry H R} :
    compareTimerEntry a b = false ↔
      b.wakeTime < a.wakeTime ∨
        a.wakeTime = b.wakeTime ∧ b.sequence.toNat ≤ a.sequence.toNat := by
  rw [← Bool.not_eq_true, compareTimerEntry_iff]
  omega

theorem compareTimerEntry_order : StrictWeakOrder (compareTimerEntry (H := H) (R := R)) where
  irrefl a := by
    rw [compareTimerEntry_false_iff]
    omega
  trans hab hbc := by
    rw [compareTimerEntry_iff] at *
    omega
  notBefore hab hbc := by
    rw [compareTimerEntry_false_iff] at *
    omega

namespace Heap
variable {h : Heap H R} {i j k : Nat}

/-! ## The loops are the sifts -/

theorem comesFirst_iff : h.comesFirst i j = true ↔
    ∃ a b, h.entries[i]? = some a ∧ h.entries[j]? = some b ∧ compareTimerEntry a b = true := by
  unfold comesFirst
  split
  · rename_i a b ha hb
    refine ⟨fun hab => ⟨a, b, ha, hb, hab⟩, ?_⟩
    rintro ⟨a', b', ha', hb', hab⟩
    obtain rfl := Option.some.inj (ha.symm.trans ha')
    obtain rfl := Option.some.inj (hb.symm.trans hb')
    exact hab
  · rename_i hnone
    refine ⟨fun hf => Bool.noConfusion hf, ?_⟩
    rintro ⟨a, b, ha, hb, -⟩
    exact (hnone a b ha hb).elim

theorem comesFirst_eq {a b : TimerEntry H R} (ha : h.entries[i]? = some a)
    (hb : h.entries[j]? = some b) : h.comesFirst i j = compareTimerEntry a b := by
  simp only [comesFirst, ha, hb]

theorem comesFirst_of_none (hi : h.entries[i]? = none) : h.comesFirst i j = false := by
  simp only [comesFirst, hi]

@[simp] theorem setIndex_entries : (h.setIndex i).entries = h.entries := by
  unfold setIndex
  split <;> rfl

@[simp] theorem exchange_entries : (h.exchange i j).entries = h.entries.swap i j := by
  simp [exchange]

theorem bubbleUp_entries (fuel : Nat) (h : Heap H R) (idx : Nat) :
    (bubbleUp fuel h idx).entries = siftUp compareTimerEntry fuel h.entries idx := by
  induction fuel generalizing h idx with
  | zero => rfl
  | succ fuel ih =>
    simp only [bubbleUp, siftUp]
    by_cases hidx : 0 < idx
    · rw [if_pos hidx]
      by_cases hfirst : h.comesFirst idx ((idx - 1) / 2) = true
      · obtain ⟨a, b, ha, hb, hab⟩ := comesFirst_iff.mp hfirst
        rw [if_pos hfirst, ih, exchange_entries, ha, hb]
        exact (if_pos ⟨hidx, hab⟩).symm
      · rw [if_neg hfirst]
        split
        · rename_i a b ha hb
          rw [comesFirst_eq ha hb] at hfirst
          rw [if_neg fun hc => hfirst hc.2]
        · rfl
    · rw [if_neg hidx]
      split
      · rw [if_neg fun hc => hidx hc.1]
      · rfl

theorem smallest_of_none {idx : Nat} (hf : firstChild compareTimerEntry h.entries idx = none) :
    h.smallest idx = idx := by
  have hl : h.entries[2 * idx + 1]? = none :=
    firstChild_eq_none hf (by omega) (by unfold parent; omega)
  have hr : h.entries[2 * idx + 2]? = none :=
    firstChild_eq_none hf (by omega) (by unfold parent; omega)
  simp only [smallest, comesFirst_of_none hl, comesFirst_of_none hr, Bool.false_eq_true, if_false]

/-- The smallest of a round is the first child, if that comes before its parent. -/
theorem smallest_of_some {idx : Nat} {x c : TimerEntry H R} (hx : h.entries[idx]? = some x)
    (hf : firstChild compareTimerEntry h.entries idx = some (j, c)) :
    h.smallest idx = if compareTimerEntry c x then j else idx := by
  have o := compareTimerEntry_order (H := H) (R := R)
  unfold firstChild at hf
  simp only [smallest]
  split at hf
  · rename_i l r hl hr
    rw [comesFirst_eq hl hx]
    by_cases hlx : compareTimerEntry l x = true
    · rw [if_pos hlx, comesFirst_eq hr hl]
      split at hf <;> rename_i hrl <;> cases hf
      · rw [if_pos hrl, if_pos (o.trans hrl hlx)]
      · rw [if_neg hrl, if_pos hlx]
    · rw [if_neg hlx, comesFirst_eq hr hx]
      split at hf <;> rename_i hrl <;> cases hf
      · rfl
      · have hrx := o.notBefore (eq_false_of_ne_true hrl) (eq_false_of_ne_true hlx)
        rw [if_neg (by rw [hrx]; exact Bool.false_ne_true), if_neg hlx]
  · rename_i l hl hr
    cases hf
    rw [comesFirst_eq hl hx, comesFirst_of_none hr, if_neg Bool.false_ne_true]
  · cases hf

theorem bubbleDown_entries (fuel : Nat) (h : Heap H R) (idx : Nat) :
    (bubbleDown fuel h idx).entries = siftDown compareTimerEntry fuel h.entries idx := by
  induction fuel generalizing h idx with
  | zero => rfl
  | succ fuel ih =>
    simp only [bubbleDown, siftDown]
    cases hx : h.entries[idx]? with
    | none =>
      have hnone : ∀ k, idx ≤ k → h.entries[k]? = none := fun k hk =>
        List.getElem?_eq_none_iff.mpr (Nat.le_trans (List.getElem?_eq_none_iff.mp hx) hk)
      have hs : h.smallest idx = idx := by
        simp only [smallest, comesFirst_of_none (hnone (2 * idx + 1) (by omega)),
          comesFirst_of_none (hnone (2 * idx + 2) (by omega)), Bool.false_eq_true, if_false]
      simp only [hs, ne_eq, not_true, if_false]
    | some x =>
      cases hf : firstChild compareTimerEntry h.entries idx with
      | none => simp only [smallest_of_none hf, ne_eq, not_true, if_false]
      | some jc =>
        obtain ⟨j, c⟩ := jc
        obtain ⟨-, ⟨hj, hp⟩, -⟩ := firstChild_eq_some compareTimerEntry_order hf
        have hne : j ≠ idx := by
          have := parent_lt hj
          omega
        simp only [smallest_of_some hx hf]
        by_cases hcx : compareTimerEntry c x = true
        · simp only [if_pos hcx, ne_eq, hne, not_false_eq_true, if_true, ih, exchange_entries,
            List.swap_comm (i := idx)]
        · simp only [if_neg hcx, ne_eq, not_true, if_false]

/-! ## The indices -/

/-- The entry at `i` records that it is there. -/
def IndexedAt (h : Heap H R) (i : Nat) : Prop :=
  ∀ e, h.entries[i]? = some e → h.heapIndex e.address = i

/-- No entry is in the heap twice. -/
def Distinct (h : Heap H R) : Prop := (h.entries.map TimerEntry.address).Nodup

theorem Distinct.eq (hd : h.Distinct) {a b : TimerEntry H R} (ha : h.entries[i]? = some a)
    (hb : h.entries[j]? = some b) (hab : a.address = b.address) : i = j := by
  have hlt : i < (h.entries.map TimerEntry.address).length := by
    rw [List.length_map]
    exact (List.getElem?_eq_some_iff.mp ha).1
  refine (List.getElem?_inj hlt hd).mp ?_
  rw [List.getElem?_map, List.getElem?_map, ha, hb, Option.map_some, Option.map_some, hab]

theorem Distinct.perm {h' : Heap H R} (hd : h.Distinct) (hp : List.Perm h'.entries h.entries) :
    h'.Distinct :=
  (hp.map TimerEntry.address).nodup_iff.mpr hd

theorem distinct_of_indexed (hi : ∀ i, h.IndexedAt i) : h.Distinct := by
  rw [Distinct, List.Nodup, List.pairwise_map, List.pairwise_iff_getElem]
  intro i j hilt hjlt hij heq
  have hi' := hi i _ (List.getElem?_eq_getElem hilt)
  have hj' := hi j _ (List.getElem?_eq_getElem hjlt)
  rw [heq, hj'] at hi'
  omega

theorem IndexedAt.setIndex_self : (h.setIndex i).IndexedAt i := by
  intro e he
  rw [setIndex_entries] at he
  simp [setIndex, he]

theorem IndexedAt.setIndex (hd : h.Distinct) (hk : h.IndexedAt k) :
    (h.setIndex i).IndexedAt k := by
  intro e he
  rw [setIndex_entries] at he
  unfold Heap.setIndex
  split
  · rename_i a ha
    by_cases hae : e.address = a.address
    · rw [hae, hd.eq he ha hae]
      exact Function.update_self ..
    · exact (Function.update_of_ne hae ..).trans (hk e he)
  · exact hk e he

theorem indexed_exchange (hi : ∀ i, h.IndexedAt i) {a b : TimerEntry H R}
    (ha : h.entries[i]? = some a) (hb : h.entries[j]? = some b) (k : Nat) :
    (h.exchange i j).IndexedAt k := by
  have hswap : ({ h with entries := h.entries.swap i j } : Heap H R).Distinct :=
    (distinct_of_indexed hi).perm (List.swap_perm ..)
  have hset : (({ h with entries := h.entries.swap i j } : Heap H R).setIndex i).Distinct :=
    hswap.perm (.of_eq setIndex_entries)
  unfold exchange
  by_cases hkj : k = j
  · subst hkj
    exact .setIndex_self
  · refine IndexedAt.setIndex hset ?_
    by_cases hki : k = i
    · subst hki
      exact .setIndex_self
    · refine IndexedAt.setIndex hswap fun e he => ?_
      rw [getElem?_swap ha hb, if_neg hki, if_neg hkj] at he
      exact hi k e he

theorem indexed_bubbleUp (fuel : Nat) (h : Heap H R) (idx : Nat) (hi : ∀ i, h.IndexedAt i) :
    ∀ i, (bubbleUp fuel h idx).IndexedAt i := by
  induction fuel generalizing h idx with
  | zero => exact hi
  | succ fuel ih =>
    simp only [bubbleUp]
    split
    · split
      · rename_i hfirst
        obtain ⟨a, b, ha, hb, -⟩ := comesFirst_iff.mp hfirst
        exact ih _ _ (indexed_exchange hi ha hb)
      · exact hi
    · exact hi

theorem smallest_mem {idx : Nat} (hne : h.smallest idx ≠ idx) :
    ∃ a b, h.entries[idx]? = some a ∧ h.entries[h.smallest idx]? = some b := by
  simp only [smallest] at hne ⊢
  by_cases hl : h.comesFirst (2 * idx + 1) idx = true
  · obtain ⟨l, x, hlget, hx, -⟩ := comesFirst_iff.mp hl
    simp only [if_pos hl] at hne ⊢
    split
    · rename_i hr
      obtain ⟨r, -, hrget, -⟩ := comesFirst_iff.mp hr
      exact ⟨x, r, hx, hrget⟩
    · exact ⟨x, l, hx, hlget⟩
  · simp only [if_neg hl] at hne ⊢
    split at hne
    · rename_i hr
      obtain ⟨r, x, hrget, hx, -⟩ := comesFirst_iff.mp hr
      rw [if_pos hr]
      exact ⟨x, r, hx, hrget⟩
    · exact absurd rfl hne

theorem indexed_bubbleDown (fuel : Nat) (h : Heap H R) (idx : Nat) (hi : ∀ i, h.IndexedAt i) :
    ∀ i, (bubbleDown fuel h idx).IndexedAt i := by
  induction fuel generalizing h idx with
  | zero => exact hi
  | succ fuel ih =>
    simp only [bubbleDown]
    split
    · rename_i hne
      obtain ⟨a, b, ha, hb⟩ := smallest_mem hne
      exact ih _ _ (indexed_exchange hi ha hb)
    · exact hi

/-! ## The operations on the heap -/

/-- Ordered, each entry at the place it records. -/
structure Ok (h : Heap H R) : Prop where
  ordered : Ordered compareTimerEntry h.entries
  indexed : ∀ i, h.IndexedAt i

theorem perm_replace {α : Type} {l : List α} {e last : α} (he : l[i]? = some e)
    (hlast : l.getLast? = some last) (hi : i + 1 < l.length) :
    List.Perm l (e :: (l.set i last).dropLast) := by
  obtain ⟨pre, rfl⟩ := List.getLast?_eq_some_iff.mp hlast
  have hlt : i < pre.length := by
    rw [List.length_append, List.length_singleton] at hi
    omega
  rw [List.set_append_left _ _ hlt, List.dropLast_concat]
  rw [List.getElem?_append_left hlt, List.getElem?_eq_getElem hlt] at he
  obtain rfl := Option.some.inj he
  calc List.Perm (pre ++ [last]) (last :: pre) := List.perm_append_singleton ..
    List.Perm _ (last :: pre[i] :: pre.eraseIdx i) :=
      (List.getElem_cons_eraseIdx_perm hlt).symm.cons last
    List.Perm _ (pre[i] :: last :: pre.eraseIdx i) := List.Perm.swap ..
    List.Perm _ (pre[i] :: pre.set i last) := ((List.set_perm_cons_eraseIdx hlt last).symm).cons _

theorem Ok.dropLast (ok : h.Ok) : Ok { h with entries := h.entries.dropLast } := by
  have hget : ∀ {k : Nat} {a : TimerEntry H R}, h.entries.dropLast[k]? = some a →
      h.entries[k]? = some a := by
    intro k a ha
    rw [List.getElem?_dropLast] at ha
    split at ha
    · exact ha
    · cases ha
  exact ⟨fun k hk a b ha hb => ok.ordered k hk a b (hget ha) (hget hb),
    fun k e he => ok.indexed k e (hget he)⟩

theorem replaceByLast_entries {last : TimerEntry H R} (hlast : h.entries.getLast? = some last) :
    (h.replaceByLast i).entries = (h.entries.set i last).dropLast := by
  simp only [replaceByLast, hlast, setIndex_entries]

theorem Ok.replaceByLast (ok : h.Ok) (hi : i + 1 < h.entries.length) :
    OrderedBut compareTimerEntry (h.replaceByLast i).entries i ∧
      ∀ k, (h.replaceByLast i).IndexedAt k := by
  obtain ⟨last, hlast⟩ : ∃ last, h.entries.getLast? = some last :=
    ⟨_, List.getLast?_eq_some_getLast (List.ne_nil_of_length_pos (by omega))⟩
  have he := List.getElem?_eq_getElem (l := h.entries) (i := i) (by omega)
  refine ⟨?_, fun k => ?_⟩
  · rw [replaceByLast_entries hlast]
    exact ok.ordered.replace compareTimerEntry_order last
  · have hd : ({ h with entries := (h.entries.set i last).dropLast } : Heap H R).Distinct := by
      have hperm := (perm_replace he hlast hi).map TimerEntry.address
      exact (List.nodup_cons.mp (hperm.nodup_iff.mp (distinct_of_indexed ok.indexed))).2
    simp only [Heap.replaceByLast, hlast]
    by_cases hki : k = i
    · subst hki
      exact .setIndex_self
    · refine IndexedAt.setIndex hd fun e hk => ?_
      rw [List.getElem?_dropLast] at hk
      split at hk
      · rw [List.getElem?_set_ne (Ne.symm hki)] at hk
        exact ok.indexed k e hk
      · cases hk

/-- `cancel`'s removal of the entry at `i`. -/
theorem Ok.remove (ok : h.Ok) {e : TimerEntry H R} (he : h.entries[i]? = some e) :
    (h.remove i).Ok ∧ List.Perm h.entries (e :: (h.remove i).entries) := by
  have hlt := (List.getElem?_eq_some_iff.mp he).1
  obtain ⟨last, hlast⟩ : ∃ last, h.entries.getLast? = some last :=
    ⟨_, List.getLast?_eq_some_getLast (List.ne_nil_of_length_pos (by omega))⟩
  unfold Heap.remove
  split
  · rename_i hend
    refine ⟨ok.dropLast, ?_⟩
    obtain ⟨pre, hpre⟩ := List.getLast?_eq_some_iff.mp hlast
    rw [List.getLast?_eq_getElem?, ← hend, he] at hlast
    obtain rfl := Option.some.inj hlast
    rw [hpre, List.dropLast_concat]
    exact List.perm_append_singleton ..
  · have hi : i + 1 < h.entries.length := by omega
    obtain ⟨hbut, hindexed⟩ := ok.replaceByLast hi
    refine ⟨⟨?_, indexed_bubbleUp _ _ _ (indexed_bubbleDown _ _ _ hindexed)⟩, ?_⟩
    · rw [bubbleUp_entries, bubbleDown_entries]
      exact (hbut.siftDown_upReady compareTimerEntry_order (by omega)).siftUp
        compareTimerEntry_order (Nat.le_refl _)
    · have hsift := (siftUp_perm compareTimerEntry i _ i).trans
        (siftDown_perm compareTimerEntry (h.replaceByLast i).entries.length
          (h.replaceByLast i).entries i)
      simp only [bubbleUp_entries, bubbleDown_entries]
      refine (perm_replace he hlast hi).trans (List.Perm.cons e ?_)
      rw [← replaceByLast_entries hlast]
      exact hsift.symm

theorem popFront_eq_remove : h.popFront = h.remove 0 := by
  unfold popFront Heap.remove
  by_cases hone : h.entries.length = 1
  · rw [if_pos hone, if_pos (by omega)]
  · rw [if_neg hone]
    split
    · obtain ⟨entries, heapIndex⟩ := h
      obtain rfl : entries = [] := List.length_eq_zero_iff.mp (by simp only at *; omega)
      rfl
    · rfl

theorem Ok.push (ok : h.Ok) {e : TimerEntry H R}
    (hnew : ∀ a ∈ h.entries, a.address ≠ e.address) :
    (h.push e).Ok ∧ List.Perm (h.push e).entries (e :: h.entries) := by
  have hindexed : ∀ k, IndexedAt
      { entries := h.entries ++ [e],
        heapIndex := Function.update h.heapIndex e.address h.entries.length } k := by
    intro k a ha
    by_cases hk : k < h.entries.length
    · rw [List.getElem?_append_left hk] at ha
      exact (Function.update_of_ne (hnew a (List.mem_of_getElem? ha)) ..).trans
        (ok.indexed k a ha)
    · rw [List.getElem?_append_right (by omega), List.getElem?_singleton] at ha
      split at ha
      · obtain rfl := Option.some.inj ha
        refine (Function.update_self ..).trans ?_
        omega
      · cases ha
  refine ⟨⟨?_, indexed_bubbleUp _ _ _ hindexed⟩, ?_⟩
  · unfold Heap.push
    rw [bubbleUp_entries]
    exact (ok.ordered.append e).siftUp compareTimerEntry_order (Nat.le_refl _)
  · unfold Heap.push
    rw [bubbleUp_entries]
    exact (siftUp_perm ..).trans (List.perm_append_singleton ..)

end Heap
end TimerQueue
end AstraScheduler
