import AstraScheduler.ChaseLevInvariant

/-! # The owner's steps keep the account

One lemma for each access of the owner that does more than read: it says what the
access makes of the live part, of the ledger, and of the cell a late thief may still be
reading.  `Represents.ownerStep` collects them. -/

namespace AstraScheduler
namespace ChaseLevDeque

variable {α : Type*} {n : Nat} {d : Deque α} {l : TicketLedger α}

/-! ## Push -/

theorem pushRoom_ok [Inhabited α] {item : α} {b t : Nat} (h : OwnerOk d l (.pushActive item b t))
    (fail : Bool) : OwnerOk d l (pushRoom d fail item b t) := by
  obtain ⟨hs, hb, ht, hlt⟩ := h
  have hspan := hs.ring.span
  simp only [pushRoom]
  split_ifs with h1 h2 h3
  · exact hs
  · exact ⟨hs, hb, rfl, by omega⟩
  · exact hs
  · refine ⟨hs, hb, rfl, ht, le_rfl, by omega, hlt, rfl, ?_⟩
    intro j hle hlt'
    omega

/-- One cell is copied to the larger ring. -/
theorem growCopy_ok {item : α} {b t buf i : Nat} {fresh : Buffer α}
    (h : OwnerOk d l (.growCopy item b t buf i fresh)) (hi : i < b) :
    OwnerOk d l (.growCopy item b t buf (i + 1)
      (fresh.storeCell i ((d.history buf).loadCell i))) := by
  obtain ⟨hs, hb, hbuf, ht, hti, hib, hlt, hcap, hagree⟩ := h
  refine ⟨hs, hb, hbuf, ht, by omega, by omega, hlt, hcap, ?_⟩
  intro j hle hj
  by_cases hij : j = i
  · rw [hij, Buffer.loadCell_storeCell_same, hbuf]
    rfl
  · rw [Buffer.loadCell_storeCell_of_lt _ _ (by omega) (by omega)]
    exact hagree j hle (by omega)

theorem growCopy_done {item : α} {b t buf i : Nat} {fresh : Buffer α}
    (h : OwnerOk d l (.growCopy item b t buf i fresh)) (hi : ¬ i < b) :
    OwnerOk d l (.growPublish item b fresh) := by
  obtain ⟨hs, hb, hbuf, ht, hti, hib, hlt, hcap, hagree⟩ := h
  refine ⟨hs, hb, hcap, ?_⟩
  intro j hle hj
  exact hagree j (ht.trans hle) (by omega)

theorem activeBuffer_publishBuffer (fresh : Buffer α) :
    (d.publishBuffer fresh).activeBuffer = fresh := by
  simp [Deque.publishBuffer, Deque.activeBuffer]

theorem activeBuffer_storeCell (i : Nat) (item : α) :
    (d.storeCell d.active i item).activeBuffer = d.activeBuffer.storeCell i item := by
  simp [Deque.storeCell, Deque.activeBuffer]

/-- The larger ring takes over; the old one is left as it was. -/
theorem growPublish_ok {item : α} {b : Nat} {fresh : Buffer α}
    (h : OwnerOk d l (.growPublish item b fresh)) :
    OwnerOk (d.publishBuffer fresh) l (.pushStore item b (d.active + 1)) ∧
      KeepsHead d l (d.publishBuffer fresh) l := by
  obtain ⟨hs, hb, hcap, hagree⟩ := h
  have hbuf := activeBuffer_publishBuffer (d := d) fresh
  have hroom := hs.ring.room
  refine ⟨⟨⟨?_, hs.held⟩, hb, rfl, ?_⟩, ⟨rfl, Nat.le_succ _, fun _ hx => hx, ?_⟩⟩
  · refine hs.ring.agree rfl ?_ ?_
    · rw [hbuf]
      omega
    · rw [hbuf, ← hb]
      exact hagree
  · rw [hbuf]
    omega
  · intro _ buf hle
    have hne : buf ≠ d.active + 1 := by omega
    simp [Deque.publishBuffer, hne]

/-- The cell written is free: it is at most a capacity away from `top`. -/
theorem pushStore_ok {item : α} {b buf : Nat} (h : OwnerOk d l (.pushStore item b buf)) :
    OwnerOk (d.storeCell buf b item) l (.pushPublish item b) ∧
      KeepsHead d l (d.storeCell buf b item) l := by
  obtain ⟨hs, hb, rfl, hroom⟩ := h
  have hspan := hs.ring.span
  have hbuf := activeBuffer_storeCell (d := d) b item
  refine ⟨⟨⟨?_, hs.held⟩, hb, ?_, ?_⟩, ⟨rfl, le_rfl, fun _ hx => hx, ?_⟩⟩
  · refine hs.ring.agree rfl ?_ ?_
    · rw [hbuf, Buffer.capacity_storeCell]
    · rw [hbuf]
      intro j hle hj
      exact Buffer.loadCell_storeCell_of_lt _ _ (by omega) (by omega)
  · rw [hbuf]
    exact hroom
  · rw [hbuf]
    exact Buffer.loadCell_storeCell_same _ _ _
  · intro hne buf hle
    have hpos := List.length_pos_of_ne_nil hne
    by_cases heq : buf = d.active
    · show (Function.update d.history d.active _ buf).loadCell d.top = _
      rw [heq, Function.update_self]
      have hcap : l.live.length + 1 < (d.history d.active).capacity := hroom
      exact Buffer.loadCell_storeCell_of_lt _ _ (by omega) (by omega)
    · simp [Deque.storeCell, heq]

/-- The store to `bottom` is where a pushed value is accepted. -/
theorem pushPublish_ok {item : α} {b : Nat} (h : OwnerOk d l (.pushPublish item b)) :
    OwnerOk { d with bottom := b + 1 } (l.issue item) .idle ∧
      KeepsHead d l { d with bottom := b + 1 } (l.issue item) := by
  obtain ⟨hs, rfl, hroom, hcell⟩ := h
  refine ⟨⟨(hs.ring.issue hroom hcell).congr rfl rfl, hs.held⟩, .of_eq rfl rfl rfl ?_⟩
  rintro v ⟨t, ht, hv⟩
  have hmem : t ∈ l.live := List.mem_of_mem_head? ht
  refine ⟨t, ?_, ?_⟩
  · simp [List.head?_append, ht]
  · rw [l.value_issue_of_lt (l.lt_of_mem_live hmem), hv]

/-! ## Pop -/

/-- The load of `top` decides who may take the element at the decremented `bottom`: below
it the owner, at it the next compare-exchange. -/
theorem popTop_ok {b buf : Nat} (h : OwnerOk d l (.popTop b buf)) :
    ∃ l' : TicketLedger α,
      OwnerOk d l' (if d.top ≤ b then .popCell b buf d.top else .popRestoreEmpty b) ∧
        KeepsHead d l d l' ∧ l'.issued = l.issued ∧
          ∀ front back, l.Delivered front back → l'.Delivered front back := by
  obtain ⟨hring, hnone, hb, hbuf⟩ := h
  rcases Nat.lt_trichotomy d.top b with hlt | heq | hgt
  · obtain ⟨rest, t, hlive, hlen, hv⟩ := hring.last hlt.le
    refine ⟨l.hold hlive hnone, ?_, ?_, rfl, fun _ _ hd => hd⟩
    · rw [if_pos hlt.le]
      exact ⟨hb, hbuf, .inl ⟨hlt, hring.hold hlive hnone hlen, t, rfl, hv⟩⟩
    · refine .of_eq rfl rfl rfl ?_
      rintro v ⟨u, hu, hval⟩
      -- at least two tickets were live, so the first one stays
      obtain ⟨u', rest', hrest⟩ : ∃ u' rest', rest = u' :: rest' := by
        refine List.exists_cons_of_ne_nil fun hnil => ?_
        simp [hnil] at hlen
        omega
      refine ⟨u, ?_, hval⟩
      rw [hlive, hrest] at hu
      simpa [hrest] using hu
  · refine ⟨l, ?_, .of_eq rfl rfl rfl fun _ hx => hx, rfl, fun _ _ hd => hd⟩
    rw [if_pos heq.le]
    exact ⟨hb, hbuf, .inr ⟨heq, heq.ge, hring, hnone⟩⟩
  · refine ⟨l, ?_, .of_eq rfl rfl rfl fun _ hx => hx, rfl, fun _ _ hd => hd⟩
    rw [if_neg (by omega)]
    exact ⟨hb, hring, hnone⟩

/-- The compare-exchange of `pop` takes the last element, or a thief has taken it. -/
theorem popCas_ok {b : Nat} {item : α} (h : OwnerOk d l (.popCas b item)) (htop : d.top = b) :
    ∃ l' : TicketLedger α,
      OwnerOk { d with top := b + 1 } l' (.popRestoreSuccess b item) ∧
        l'.issued = l.issued ∧
          ∀ front back, l.Delivered front back → l'.Delivered front back := by
  obtain ⟨hb, hle, hring, hnone, hcell⟩ := h
  obtain ⟨rest, t, hlive, hlen, hv⟩ := hring.last htop.le
  obtain rfl : rest = [] := List.length_eq_zero_iff.mp (by omega)
  have hroom := hring.room
  refine ⟨l.hold hlive hnone, ⟨hb, rfl, ⟨rfl, ?_, ?_⟩, t, rfl, ?_⟩, rfl, fun _ _ hd => hd⟩
  · show 0 < d.activeBuffer.capacity
    omega
  · intro j t' hj
    simp at hj
  · rw [TicketLedger.value_hold, hv, hcell]

/-- The owner returns the ticket it holds. -/
theorem Holds.deliver {item : α} {stop : Nat} (h : Holds l item) (hring : Ring d l stop) :
    ∃ l' : TicketLedger α, Settled { d with bottom := stop } l' ∧
      l'.live = l.live ∧ l'.value = l.value ∧ l'.issued = l.issued ∧
        ∀ front back, l.Delivered front back → l'.Delivered front (back ++ [item]) := by
  obtain ⟨t, hheld, hv⟩ := h
  refine ⟨l.deliver hheld, ⟨⟨hring.span, hring.room, hring.contents⟩, rfl⟩, rfl, rfl, rfl, ?_⟩
  intro front back hd
  exact hd.deliver l hheld hv

/-! ## Rebase -/

theorem afterRebase_ok (h : Settled d l) (result : Bool) (caller : RebaseCaller α) :
    OwnerOk d l (afterRebase result caller) := by
  cases caller with
  | push item => cases result <;> exact h
  | pop => exact h
  | user => exact h

@[simp] theorem maintaining_afterRebase (result : Bool) (caller : RebaseCaller α) :
    (afterRebase result caller).maintaining = false := by
  cases caller with
  | push item => cases result <;> rfl
  | pop => rfl
  | user => rfl

theorem OwnerPc.maintaining_of_exclusive {pc : OwnerPc α} (h : pc.exclusive) :
    pc.maintaining := by
  cases pc <;> first | exact h | rfl

theorem exclusive_of_not_maintaining {pc : OwnerPc α} (h : pc.maintaining = false) :
    pc.exclusive = false := by
  rw [← Bool.not_eq_true] at h ⊢
  exact fun hx => h (OwnerPc.maintaining_of_exclusive hx)

/-- One cell is read into the snapshot. -/
theorem rebaseSnapshot_ok {t live buf : Nat} {snapshot : List α} {caller : RebaseCaller α}
    (h : OwnerOk d l (.rebaseSnapshot t live buf snapshot caller)) (hlt : snapshot.length < live) :
    OwnerOk d l (.rebaseSnapshot t live buf
      (snapshot ++ [(d.history buf).loadCell (t + snapshot.length)]) caller) := by
  obtain ⟨hs, ht, hlive, hbuf, hle, hread⟩ := h
  refine ⟨hs, ht, hlive, hbuf, ?_, ?_⟩
  · rw [List.length_append, List.length_singleton]
    exact hlt
  intro j item hj
  by_cases hj' : j < snapshot.length
  · rw [List.getElem?_append_left hj'] at hj
    exact hread j item hj
  · rw [List.getElem?_append_right (by omega), List.getElem?_singleton] at hj
    split at hj
    · obtain rfl : j = snapshot.length := by omega
      rw [← Option.some.inj hj, hbuf]
      rfl
    · exact absurd hj (by simp)

theorem rebaseSnapshot_done {t live buf : Nat} {snapshot : List α} {caller : RebaseCaller α}
    (h : OwnerOk d l (.rebaseSnapshot t live buf snapshot caller))
    (hge : ¬ snapshot.length < live) :
    OwnerOk d l (.rebaseCopy live buf snapshot 0 caller) := by
  obtain ⟨hs, rfl, hlive, hbuf, hle, hread⟩ := h
  refine ⟨hs.held, hlive, hlive ▸ hs.ring.room, hbuf, by omega, by omega, ?_, ?_⟩
  · intro j t item hj hitem
    rw [hs.ring.contents j t hj, hread j item hitem]
  · intro j item hj
    omega

/-- One value is written to its new place. -/
theorem rebaseCopy_ok {live buf i : Nat} {snapshot : List α} {caller : RebaseCaller α} {item : α}
    (h : OwnerOk d l (.rebaseCopy live buf snapshot i caller)) (hitem : snapshot[i]? = some item) :
    OwnerOk (d.storeCell buf i item) l (.rebaseCopy live buf snapshot (i + 1) caller) := by
  obtain ⟨hnone, hlive, hlt, rfl, hlen, hi, hvalues, hcells⟩ := h
  have hbound := (List.getElem?_eq_some_iff.mp hitem).1
  have hbuf := activeBuffer_storeCell (d := d) i item
  refine ⟨hnone, hlive, ?_, rfl, hlen, by omega, hvalues, ?_⟩
  · rw [hbuf]
    exact hlt
  · intro j item' hj hitem'
    rw [hbuf]
    by_cases hij : j = i
    · rw [hij] at hitem' ⊢
      rw [Buffer.loadCell_storeCell_same]
      exact Option.some.inj (hitem.symm.trans hitem')
    · rw [Buffer.loadCell_storeCell_of_lt _ _ (by omega) (by omega)]
      exact hcells j item' (by omega) hitem'

theorem rebaseCopy_done {live buf i : Nat} {snapshot : List α} {caller : RebaseCaller α}
    (h : OwnerOk d l (.rebaseCopy live buf snapshot i caller)) (hnone : snapshot[i]? = none) :
    OwnerOk d l (.rebaseStoreTop live caller) := by
  obtain ⟨hheld, hlive, hlt, hbuf, hlen, hi, hvalues, hcells⟩ := h
  have hge := List.getElem?_eq_none_iff.mp hnone
  refine ⟨hheld, hlive, hlt, ?_⟩
  intro j t hj
  have hj' := (List.getElem?_eq_some_iff.mp hj).1
  have hsnap : snapshot[j]? = some snapshot[j] := List.getElem?_eq_getElem (by omega)
  rw [Nat.zero_add, hvalues j t _ hj hsnap, hcells j _ (by omega) hsnap]

theorem rebaseStoreBottom_ok {live : Nat} {caller : RebaseCaller α}
    (h : OwnerOk d l (.rebaseStoreBottom live caller)) :
    OwnerOk { d with bottom := live } l (.rebaseClear true caller) := by
  obtain ⟨hheld, hlive, hlt, hcontents, htop⟩ := h
  refine ⟨⟨?_, ?_, ?_⟩, hheld⟩
  · show d.top + l.live.length = live
    omega
  · show l.live.length < d.activeBuffer.capacity
    omega
  · show Contents d.activeBuffer d.top l
    rw [htop]
    exact hcontents

/-! ## All of them -/

section Steps
variable {s s' : System α n}

/-- No thief is counted, so none is past the check. -/
theorem Represents.none_critical (h : Represents s l) (hzero : s.deque.activeThieves = 0)
    (i : Fin n) :
    (s.thieves i).critical = false := by
  have hcard := h.counted.trans hzero
  rw [Finset.card_eq_zero, enteredThieves, Finset.filter_eq_empty_iff] at hcard
  exact critical_of_entered (Bool.not_eq_true _ ▸ hcard (Finset.mem_univ i))

/-- The owner's step, assembled from what it makes of the deque and of the ledger. -/
theorem Represents.owner_next (h : Represents s l) {d' : Deque α} {pc' : OwnerPc α}
    {pushed' popped' : List α} {l' : TicketLedger α} (hissued : l'.issued = pushed')
    (hdelivered : l'.Delivered s.stolen popped') (howner : OwnerOk d' l' pc')
    (hkeep : s.owner.exclusive = false → KeepsHead s.deque l d' l')
    (hcount : d'.activeThieves = s.deque.activeThieves)
    (hmaint : pc'.maintaining → d'.maintenance)
    (hexcl : pc'.exclusive → s.owner.exclusive ∨ s.deque.activeThieves = 0) :
    Represents { s with deque := d', owner := pc', pushed := pushed', popped := popped' } l' where
  issued := hissued
  delivered := hdelivered
  owner := howner
  thieves := fun i => by
    cases hx : s.owner.exclusive with
    | false => exact (h.thieves i).keep (hkeep hx)
    | true => exact .of_not_critical (h.excluded hx i)
  counted := h.counted.trans hcount.symm
  maintained := hmaint
  excluded := fun hx i => (hexcl hx).elim (fun hin => h.excluded hin i) (h.none_critical · i)

/-- The owner reads or tests, and goes on. -/
theorem Represents.goto (h : Represents s l) {pc' : OwnerPc α} (howner : OwnerOk s.deque l pc')
    (hmaint : pc'.maintaining → s.owner.maintaining)
    (hexcl : pc'.exclusive → s.owner.exclusive ∨ s.deque.activeThieves = 0) :
    Represents { s with owner := pc' } l :=
  h.owner_next h.issued h.delivered howner
    (fun _ => .of_eq rfl rfl rfl fun _ hx => hx) rfl
    (fun hm => h.maintained (hmaint hm)) hexcl

/-- It goes on outside the maintenance. -/
theorem Represents.goto_outside (h : Represents s l) {pc' : OwnerPc α}
    (howner : OwnerOk s.deque l pc') (hout : pc'.maintaining = false) :
    Represents { s with owner := pc' } l :=
  h.goto howner (by simp [hout]) (by simp [exclusive_of_not_maintaining hout])

/-- It changes the deque outside the maintenance. -/
theorem Represents.owner_outside (h : Represents s l) {d' : Deque α} {pc' : OwnerPc α}
    {pushed' popped' : List α} {l' : TicketLedger α} (hissued : l'.issued = pushed')
    (hdelivered : l'.Delivered s.stolen popped') (howner : OwnerOk d' l' pc')
    (hkeep : KeepsHead s.deque l d' l') (hcount : d'.activeThieves = s.deque.activeThieves)
    (hout : pc'.maintaining = false) :
    Represents { s with deque := d', owner := pc', pushed := pushed', popped := popped' } l' :=
  h.owner_next hissued hdelivered howner (fun _ => hkeep) hcount
    (by simp [hout]) (by simp [exclusive_of_not_maintaining hout])

end Steps

end ChaseLevDeque
end AstraScheduler
