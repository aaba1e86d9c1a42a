import AstraScheduler.BinaryHeap
import Mathlib.Tactic.Common
import Mathlib.Algebra.Ring.Nat

/-! # The order of a binary heap

A heap in a list is ordered when no element comes before its parent.  A sift starts
from a list that is ordered but for the neighbourhood of one position: `UpReady` is what
`siftUp` needs there, `DownReady` what `siftDown` needs.  After the removal of an inner
element neither need hold, but sifting down and then up from its place restores the
order whichever way the replacement has to go (`OrderedBut.siftDown_upReady`). -/

namespace BinaryHeap
variable {α : Type*} {before : α → α → Bool} {xs : List α} {i j : Nat}

/-- A comparison of elements by a key: `before` is a strict order, and being level with
one another is transitive. -/
structure StrictWeakOrder (before : α → α → Bool) : Prop where
  irrefl : ∀ a, before a a = false
  trans : ∀ {a b c}, before a b = true → before b c = true → before a c = true
  notBefore : ∀ {a b c}, before a b = false → before b c = false → before a c = false

theorem StrictWeakOrder.asymm (o : StrictWeakOrder before) {a b : α}
    (h : before a b = true) : before b a = false := by
  by_contra hne
  have := o.trans h (eq_true_of_ne_false hne)
  rw [o.irrefl] at this
  exact Bool.noConfusion this

/-- The position whose children include `i`. -/
def parent (i : Nat) : Nat := (i - 1) / 2

theorem parent_lt (h : 0 < i) : parent i < i := by
  unfold parent
  omega

theorem child_cases (hj : 0 < j) (h : parent j = i) : j = 2 * i + 1 ∨ j = 2 * i + 2 := by
  unfold parent at h
  omega

/-- The element at `c` does not come before the one at `p`. -/
def InOrder (before : α → α → Bool) (xs : List α) (c p : Nat) : Prop :=
  ∀ a b, xs[c]? = some a → xs[p]? = some b → before a b = false

/-- No element comes before its parent. -/
def Ordered (before : α → α → Bool) (xs : List α) : Prop :=
  ∀ i, 0 < i → InOrder before xs i (parent i)

/-- Ordered wherever position `i` is not concerned, and across it. -/
structure OrderedBut (before : α → α → Bool) (xs : List α) (i : Nat) : Prop where
  apart : ∀ j, 0 < j → j ≠ i → parent j ≠ i → InOrder before xs j (parent j)
  across : 0 < i → ∀ j, 0 < j → parent j = i → InOrder before xs j (parent i)

structure UpReady (before : α → α → Bool) (xs : List α) (i : Nat) : Prop
    extends OrderedBut before xs i where
  below : ∀ j, 0 < j → parent j = i → InOrder before xs j i

structure DownReady (before : α → α → Bool) (xs : List α) (i : Nat) : Prop
    extends OrderedBut before xs i where
  above : 0 < i → InOrder before xs i (parent i)

theorem UpReady.ordered (h : UpReady before xs i) (hi : 0 < i → InOrder before xs i (parent i)) :
    Ordered before xs := by
  intro j hj
  by_cases hji : j = i
  · subst hji
    exact hi hj
  · by_cases hp : parent j = i
    · rw [hp]
      exact h.below j hj hp
    · exact h.apart j hj hji hp

theorem DownReady.ordered (h : DownReady before xs i)
    (hi : ∀ j, 0 < j → parent j = i → InOrder before xs j i) : Ordered before xs :=
  UpReady.ordered ⟨h.toOrderedBut, hi⟩ h.above

/-- Across a position that is in place, two comparisons make one. -/
theorem InOrder.chain (o : StrictWeakOrder before) {c m p : Nat} {b : α}
    (hm : xs[m]? = some b) (hc : InOrder before xs c m) (hp : InOrder before xs m p) :
    InOrder before xs c p :=
  fun a d ha hd => o.notBefore (hc a b ha hm) (hp b d hm hd)

theorem exists_getElem?_of_le {a : α} (h : xs[j]? = some a) (hij : i ≤ j) :
    ∃ b, xs[i]? = some b := by
  have := (List.getElem?_eq_some_iff.mp h).1
  exact ⟨xs[i], List.getElem?_eq_getElem (by omega)⟩

theorem Ordered.upReady (o : StrictWeakOrder before) (h : Ordered before xs) (i : Nat) :
    UpReady before xs i where
  apart j hj _ _ := h j hj
  across hi j hj hp := by
    intro a d ha hd
    obtain ⟨b, hb⟩ := exists_getElem?_of_le (i := i) ha (by have := parent_lt hj; omega)
    exact InOrder.chain o hb (hp ▸ h j hj) (h i hi) a d ha hd
  below j hj hp := hp ▸ h j hj

/-- No element of an ordered heap comes before the first one. -/
theorem Ordered.first (o : StrictWeakOrder before) (h : Ordered before xs) {r : α}
    (hr : xs[0]? = some r) : ∀ {i : Nat} {a : α}, xs[i]? = some a → before a r = false := by
  intro i
  induction i using Nat.strong_induction_on with
  | h i ih =>
    intro a ha
    by_cases hi : i = 0
    · subst hi
      obtain rfl := Option.some.inj (ha.symm.trans hr)
      exact o.irrefl a
    · obtain ⟨b, hb⟩ := exists_getElem?_of_le ha (Nat.le_of_lt (parent_lt (Nat.pos_of_ne_zero hi)))
      exact o.notBefore (h i (by omega) a b ha hb) (ih _ (parent_lt (by omega)) hb)

theorem getElem?_swap {a b : α} (hi : xs[i]? = some a) (hj : xs[j]? = some b) (k : Nat) :
    (xs.swap i j)[k]? = if k = i then some b else if k = j then some a else xs[k]? := by
  obtain ⟨hilt, rfl⟩ := List.getElem?_eq_some_iff.mp hi
  obtain ⟨hjlt, rfl⟩ := List.getElem?_eq_some_iff.mp hj
  rw [List.swap_eq_of_lt hilt hjlt]
  by_cases hki : k = i <;> by_cases hkj : k = j
  · subst hki
    subst hkj
    simp [hilt]
  · subst hki
    simp [Ne.symm hkj, hilt]
  · subst hkj
    simp [hki, hjlt]
  · simp [hki, hkj, Ne.symm hki, Ne.symm hkj]

/-! ## Sifting up -/

theorem UpReady.swap (o : StrictWeakOrder before) (h : UpReady before xs i) (hi : 0 < i)
    {x p : α} (hx : xs[i]? = some x) (hp : xs[parent i]? = some p) (hb : before x p = true) :
    UpReady before (xs.swap i (parent i)) (parent i) := by
  have hget := getElem?_swap hx hp
  have hpi := parent_lt hi
  -- the siblings of `i`, compared with what moves up to their parent
  have hsibling : ∀ j, 0 < j → j ≠ i → parent j = parent i → ∀ a, xs[j]? = some a →
      before a p = false ∧ before a x = false := by
    intro j hj hji hjp a ha
    have hap := h.apart j hj hji (by omega) a p ha (by rw [hjp]; exact hp)
    refine ⟨hap, ?_⟩
    by_contra hax
    rw [o.trans (eq_true_of_ne_false hax) hb] at hap
    exact Bool.noConfusion hap
  refine ⟨⟨?_, ?_⟩, ?_⟩
  · intro j hj hjp hpj a b ha hb'
    rw [hget] at ha hb'
    by_cases hji : j = i
    · exact absurd (congrArg parent hji) hpj
    rw [if_neg hji, if_neg hjp] at ha
    by_cases hpji : parent j = i
    · rw [if_pos hpji] at hb'
      obtain rfl := Option.some.inj hb'
      exact h.across hi j hj hpji a p ha hp
    · rw [if_neg hpji, if_neg hpj] at hb'
      exact h.apart j hj hji hpji a b ha hb'
  · intro hp0 j hj hpj a b ha hb'
    have hpp := parent_lt hp0
    rw [hget] at ha hb'
    rw [if_neg (by omega), if_neg (by omega)] at hb'
    have hgrand := h.apart (parent i) hp0 (by omega) (by omega) p b hp hb'
    by_cases hji : j = i
    · rw [if_pos hji] at ha
      obtain rfl := Option.some.inj ha
      exact hgrand
    · have := parent_lt hj
      rw [if_neg hji, if_neg (by omega)] at ha
      exact o.notBefore (hsibling j hj hji hpj a ha).1 hgrand
  · intro j hj hpj a b ha hb'
    have := parent_lt hj
    rw [hget] at ha hb'
    rw [if_neg (by omega), if_pos rfl] at hb'
    obtain rfl := Option.some.inj hb'
    by_cases hji : j = i
    · rw [if_pos hji] at ha
      obtain rfl := Option.some.inj ha
      exact o.asymm hb
    · rw [if_neg hji, if_neg (by omega)] at ha
      exact (hsibling j hj hji hpj a ha).2

/-- With a step for every level above `i`, sifting up leaves an ordered heap. -/
theorem UpReady.siftUp (o : StrictWeakOrder before) {fuel : Nat} (h : UpReady before xs i)
    (hf : i ≤ fuel) : Ordered before (siftUp before fuel xs i) := by
  induction fuel generalizing xs i with
  | zero => exact h.ordered fun hi => absurd hi (by omega)
  | succ fuel ih =>
    unfold BinaryHeap.siftUp
    split
    · rename_i x p hx hp
      split
      · rename_i hup
        have := parent_lt hup.1
        exact ih (h.swap o hup.1 hx hp hup.2) (by unfold parent at this; omega)
      · rename_i hstop
        refine h.ordered fun hi a b ha hb => ?_
        obtain rfl := Option.some.inj (hx.symm.trans ha)
        obtain rfl := Option.some.inj (hp.symm.trans hb)
        by_contra hne
        exact hstop ⟨hi, eq_true_of_ne_false hne⟩
    · rename_i hnone
      exact h.ordered fun _ a b ha hb => (hnone a b ha hb).elim

/-! ## Sifting down -/

theorem firstChild_eq_none (h : firstChild before xs i = none) (hj : 0 < j)
    (hp : parent j = i) : xs[j]? = none := by
  have hleft : xs[2 * i + 1]? = none := by
    unfold firstChild at h
    split at h
    · split at h <;> cases h
    · cases h
    · assumption
  have := List.getElem?_eq_none_iff.mp hleft
  refine List.getElem?_eq_none_iff.mpr ?_
  rcases child_cases hj hp with rfl | rfl <;> omega

theorem firstChild_eq_some (o : StrictWeakOrder before) {c : α}
    (h : firstChild before xs i = some (j, c)) :
    xs[j]? = some c ∧ (0 < j ∧ parent j = i) ∧
      ∀ k, 0 < k → parent k = i → ∀ b, xs[k]? = some b → before b c = false := by
  have hleft : parent (2 * i + 1) = i := by
    unfold parent
    omega
  have hright : parent (2 * i + 2) = i := by
    unfold parent
    omega
  unfold firstChild at h
  split at h
  · rename_i l r hl hr
    split at h <;> rename_i hb <;> cases h
    · refine ⟨hr, ⟨by omega, hright⟩, fun k hk hp b hkb => ?_⟩
      rcases child_cases hk hp with rfl | rfl
      · obtain rfl := Option.some.inj (hkb.symm.trans hl)
        exact o.asymm hb
      · obtain rfl := Option.some.inj (hkb.symm.trans hr)
        exact o.irrefl b
    · refine ⟨hl, ⟨by omega, hleft⟩, fun k hk hp b hkb => ?_⟩
      rcases child_cases hk hp with rfl | rfl
      · obtain rfl := Option.some.inj (hkb.symm.trans hl)
        exact o.irrefl b
      · obtain rfl := Option.some.inj (hkb.symm.trans hr)
        exact eq_false_of_ne_true hb
  · rename_i l hl hr
    cases h
    refine ⟨hl, ⟨by omega, hleft⟩, fun k hk hp b hkb => ?_⟩
    rcases child_cases hk hp with rfl | rfl
    · obtain rfl := Option.some.inj (hkb.symm.trans hl)
      exact o.irrefl b
    · rw [hr] at hkb
      cases hkb
  · cases h

theorem DownReady.swap (h : DownReady before xs i) {x c : α} (hj : 0 < j) (hpj : parent j = i)
    (hx : xs[i]? = some x) (hc : xs[j]? = some c) (hb : before c x = true)
    (o : StrictWeakOrder before)
    (hfirst : ∀ k, 0 < k → parent k = i → ∀ b, xs[k]? = some b → before b c = false) :
    DownReady before (xs.swap i j) j := by
  have hget := getElem?_swap hx hc
  have hlt : i < j := hpj ▸ parent_lt hj
  refine ⟨⟨?_, ?_⟩, ?_⟩
  · intro k hk hkj hpk a b ha hb'
    rw [hget] at ha hb'
    rw [if_neg hpk] at hb'
    by_cases hki : k = i
    · subst hki
      have := parent_lt hk
      rw [if_pos rfl] at ha
      obtain rfl := Option.some.inj ha
      rw [if_neg (by omega)] at hb'
      exact h.across hk j hj hpj c b hc hb'
    · rw [if_neg hki, if_neg hkj] at ha
      by_cases hpki : parent k = i
      · rw [if_pos hpki] at hb'
        obtain rfl := Option.some.inj hb'
        exact hfirst k hk hpki a ha
      · rw [if_neg hpki] at hb'
        exact h.apart k hk hki hpki a b ha hb'
  · intro _ k hk hpk a b ha hb'
    have := parent_lt hk
    rw [hget] at ha hb'
    rw [if_neg (by omega), if_neg (by omega)] at ha
    rw [if_pos hpj] at hb'
    obtain rfl := Option.some.inj hb'
    exact h.apart k hk (by omega) (by omega) a c ha (by rw [hpk]; exact hc)
  · intro _ a b ha hb'
    rw [hget] at ha hb'
    rw [if_neg (by omega), if_pos rfl] at ha
    rw [if_pos hpj] at hb'
    obtain rfl := Option.some.inj ha
    obtain rfl := Option.some.inj hb'
    exact o.asymm hb

theorem siftDown_of_inOrder (o : StrictWeakOrder before) {fuel : Nat}
    (h : ∀ j, 0 < j → parent j = i → InOrder before xs j i) :
    siftDown before fuel xs i = xs := by
  unfold siftDown
  split
  · rfl
  · split
    · rename_i x j c hx hc
      obtain ⟨hget, ⟨hj, hp⟩, -⟩ := firstChild_eq_some o hc
      rw [if_neg]
      rw [h j hj hp c x hget hx]
      exact Bool.false_ne_true
    · rfl

/-- With a step for every position after `i`, sifting down leaves an ordered heap. -/
theorem DownReady.siftDown (o : StrictWeakOrder before) {fuel : Nat} (h : DownReady before xs i)
    (hf : xs.length ≤ i + fuel) : Ordered before (siftDown before fuel xs i) := by
  induction fuel generalizing xs i with
  | zero =>
    refine h.ordered fun j hj hp a b ha _ => ?_
    have := (List.getElem?_eq_some_iff.mp ha).1
    have := parent_lt hj
    omega
  | succ fuel ih =>
    unfold BinaryHeap.siftDown
    split
    · rename_i x j c hx hc
      obtain ⟨hget, ⟨hj, hp⟩, hfirst⟩ := firstChild_eq_some o hc
      split
      · rename_i hb
        have := parent_lt hj
        exact ih (h.swap hj hp hx hget hb o hfirst) (by rw [List.length_swap]; omega)
      · rename_i hstop
        refine h.ordered fun k hk hpk a b ha hb => ?_
        obtain rfl := Option.some.inj (hx.symm.trans hb)
        exact o.notBefore (hfirst k hk hpk a ha) (eq_false_of_ne_true hstop)
    · rename_i hnone
      refine h.ordered fun j hj hp a b ha hb => ?_
      cases hc : firstChild before xs i with
      | none =>
        rw [firstChild_eq_none hc hj hp] at ha
        cases ha
      | some jc => exact (hnone b jc.1 jc.2 hb hc).elim

/-- **Either way round**: from a list ordered but for `i`, sifting down from `i` leaves
what sifting up from `i` needs.  If the element at `i` belongs further up, no child comes
before it and the first sift does nothing; if not, the first sift restores the order. -/
theorem OrderedBut.siftDown_upReady (o : StrictWeakOrder before) {fuel : Nat}
    (h : OrderedBut before xs i) (hf : xs.length ≤ i + fuel) :
    UpReady before (siftDown before fuel xs i) i := by
  by_cases hup : 0 < i ∧ ∃ x p, xs[i]? = some x ∧ xs[parent i]? = some p ∧ before x p = true
  · obtain ⟨hi, x, p, hx, hp, hb⟩ := hup
    have hbelow : ∀ j, 0 < j → parent j = i → InOrder before xs j i := by
      intro j hj hpj a b ha hb'
      obtain rfl := Option.some.inj (hx.symm.trans hb')
      have hap := h.across hi j hj hpj a p ha hp
      by_contra hne
      rw [o.trans (eq_true_of_ne_false hne) hb] at hap
      exact Bool.noConfusion hap
    rw [siftDown_of_inOrder o hbelow]
    exact ⟨h, hbelow⟩
  · refine (DownReady.siftDown o ⟨h, fun hi a b ha hb => ?_⟩ hf).upReady o i
    by_contra hne
    exact hup ⟨hi, a, b, ha, hb, eq_true_of_ne_false hne⟩

/-! ## Adding and removing an element -/

theorem Ordered.append (h : Ordered before xs) (a : α) :
    UpReady before (xs ++ [a]) xs.length := by
  have hend : ∀ {j : Nat} {b : α}, xs.length < j → (xs ++ [a])[j]? = some b → False := by
    intro j b hj hb
    have := (List.getElem?_eq_some_iff.mp hb).1
    rw [List.length_append, List.length_singleton] at this
    omega
  refine ⟨⟨?_, ?_⟩, ?_⟩
  · intro j hj hjl hpl b c hb hc
    have := parent_lt hj
    by_cases hlt : j < xs.length
    · rw [List.getElem?_append_left hlt] at hb
      rw [List.getElem?_append_left (by omega)] at hc
      exact h j hj b c hb hc
    · exact (hend (by omega) hb).elim
  · intro _ j hj hp b _ hb
    exact (hend (hp ▸ parent_lt hj) hb).elim
  · intro j hj hp b _ hb
    exact (hend (hp ▸ parent_lt hj) hb).elim

/-- The list with the element at `i` replaced by the last one, which leaves its place. -/
theorem Ordered.replace (o : StrictWeakOrder before) (h : Ordered before xs) (b : α) :
    OrderedBut before (xs.set i b).dropLast i := by
  have hget : ∀ {k : Nat} {c : α}, k ≠ i → (xs.set i b).dropLast[k]? = some c →
      xs[k]? = some c := by
    intro k c hk hc
    rw [List.getElem?_dropLast] at hc
    split at hc
    · rwa [List.getElem?_set_ne (Ne.symm hk)] at hc
    · cases hc
  refine ⟨?_, ?_⟩
  · intro j hj hji hpj a c ha hc
    exact h j hj a c (hget hji ha) (hget hpj hc)
  · intro hi0 j hj hp a c ha hc
    have := parent_lt hj
    have := parent_lt hi0
    exact (h.upReady o i).across hi0 j hj hp a c (hget (by omega) ha) (hget (by omega) hc)

/-- A new last element joins an ordered heap. -/
theorem Ordered.pushHeap (o : StrictWeakOrder before) (h : Ordered before xs) (a : α) :
    Ordered before (BinaryHeap.pushHeap before (xs ++ [a])) := by
  unfold BinaryHeap.pushHeap
  rw [List.length_append, List.length_singleton, Nat.add_sub_cancel]
  exact (h.append a).siftUp o (by omega)

/-- Popping moves the first element of an ordered heap to the end, behind an ordered heap. -/
theorem Ordered.popHeap (o : StrictWeakOrder before) (h : Ordered before xs) {r : α}
    (hr : xs[0]? = some r) :
    ∃ ys, BinaryHeap.popHeap before xs = ys ++ [r] ∧ Ordered before ys := by
  obtain ⟨hpos, hfirst⟩ := List.getElem?_eq_some_iff.mp hr
  have hlast : xs.length - 1 < xs.length := by omega
  have hswap : xs.swap 0 (xs.length - 1) = (xs.set 0 xs[xs.length - 1]).set (xs.length - 1) r := by
    rw [List.swap_eq_of_lt hpos hlast, hfirst]
  have htake : (xs.swap 0 (xs.length - 1)).take (xs.length - 1) =
      (xs.set 0 xs[xs.length - 1]).dropLast := by
    rw [hswap, List.take_set_of_le (Nat.le_refl _), List.dropLast_eq_take, List.length_set]
  have hdrop : (xs.swap 0 (xs.length - 1)).drop (xs.length - 1) = [r] := by
    have hend : xs.length - 1 < (xs.swap 0 (xs.length - 1)).length := by rwa [List.length_swap]
    rw [List.drop_eq_getElem_cons hend, List.drop_eq_nil_of_le (by rw [List.length_swap]; omega)]
    simp [hswap]
  refine ⟨_, congrArg₂ (· ++ ·) rfl hdrop, ?_⟩
  have hready : DownReady before ((xs.swap 0 (xs.length - 1)).take (xs.length - 1)) 0 := by
    rw [htake]
    exact ⟨h.replace o _, fun hlt => absurd hlt (Nat.lt_irrefl 0)⟩
  refine hready.siftDown o ?_
  rw [List.length_take]
  omega

end BinaryHeap
