import AstraScheduler.ChaseLevDeque
import AstraScheduler.TicketLedger
import Mathlib.Data.Fintype.Card

/-! # What each state of the deque stands for

In every state a ledger accounts for the values pushed so far, and its live tickets are
laid out in the active ring from `top` on.  Which index is the end of the live part
depends on the owner's step: a `pop` that has decremented `bottom` has not yet taken
the element there.  A thief that has read `top` may be late; all it relies on is that,
if `top` is still what it read, the value it read is that of the first live ticket. -/

namespace AstraScheduler
namespace ChaseLevDeque

variable {α : Type*} {n : Nat}

/-- The live tickets, in order, are in the cells from `base` on. -/
def Contents (buf : Buffer α) (base : Nat) (l : TicketLedger α) : Prop :=
  ∀ j t, l.live[j]? = some t → l.value t = some (buf.loadCell (base + j))

/-- The live tickets occupy the indices from `top` to `stop`, and a cell is free. -/
structure Ring (d : Deque α) (l : TicketLedger α) (stop : Nat) : Prop where
  span : d.top + l.live.length = stop
  room : l.live.length < d.activeBuffer.capacity
  contents : Contents d.activeBuffer d.top l

/-- No operation of the owner has touched the indices. -/
structure Settled (d : Deque α) (l : TicketLedger α) : Prop where
  ring : Ring d l d.bottom
  held : l.held = none

/-- The owner holds a ticket for `item`. -/
def Holds (l : TicketLedger α) (item : α) : Prop :=
  ∃ t, l.held = some t ∧ l.value t = some item

/-- The first live ticket is one for `item`. -/
def HeadIs (l : TicketLedger α) (item : α) : Prop :=
  ∃ t, l.live.head? = some t ∧ l.value t = some item

/-- The two rings agree on the indices from `lo` to `hi`. -/
def AgreeOn (buf buf' : Buffer α) (lo hi : Nat) : Prop :=
  ∀ j, lo ≤ j → j < hi → buf'.loadCell j = buf.loadCell j

/-- What the owner's reads are worth at each of its steps. -/
def OwnerOk (d : Deque α) (l : TicketLedger α) : OwnerPc α → Prop
  | .pushTop _ b => Settled d l ∧ b = d.bottom
  | .pushReloadTop _ b => Settled d l ∧ b = d.bottom
  | .pushActive _ b t =>
    Settled d l ∧ b = d.bottom ∧ t ≤ d.top ∧ b - t < d.activeBuffer.capacity
  | .growCopy _ b t buf i fresh =>
    Settled d l ∧ b = d.bottom ∧ buf = d.active ∧ t ≤ d.top ∧ t ≤ i ∧ i ≤ b ∧
      b - t < d.activeBuffer.capacity ∧ fresh.capacity = d.activeBuffer.capacity * 2 ∧
      AgreeOn d.activeBuffer fresh t i
  | .growPublish _ b fresh =>
    Settled d l ∧ b = d.bottom ∧ fresh.capacity = d.activeBuffer.capacity * 2 ∧
      AgreeOn d.activeBuffer fresh d.top b
  | .pushStore _ b buf =>
    Settled d l ∧ b = d.bottom ∧ buf = d.active ∧
      l.live.length + 1 < d.activeBuffer.capacity
  | .pushPublish item b =>
    Settled d l ∧ b = d.bottom ∧ l.live.length + 1 < d.activeBuffer.capacity ∧
      d.activeBuffer.loadCell b = item
  | .popActive b => Settled d l ∧ b = d.bottom ∧ 0 < b
  | .popDecrement b buf => Settled d l ∧ b + 1 = d.bottom ∧ buf = d.active
  | .popTop b buf => Ring d l (b + 1) ∧ l.held = none ∧ d.bottom = b ∧ buf = d.active
  | .popCell b buf t =>
    d.bottom = b ∧ buf = d.active ∧
      (t < b ∧ Ring d l b ∧ Holds l (d.activeBuffer.loadCell b) ∨
        t = b ∧ b ≤ d.top ∧ Ring d l (b + 1) ∧ l.held = none)
  | .popCas b item =>
    d.bottom = b ∧ b ≤ d.top ∧ Ring d l (b + 1) ∧ l.held = none ∧
      d.activeBuffer.loadCell b = item
  | .popRestoreSuccess b item =>
    d.bottom = b ∧ d.top = b + 1 ∧ Ring d l (b + 1) ∧ Holds l item
  | .popRestoreEmpty b => d.bottom = b ∧ Ring d l (b + 1) ∧ l.held = none
  | .rebaseReloadTop b _ => Settled d l ∧ b = d.bottom
  | .rebaseReloadActive b t _ => Settled d l ∧ b = d.bottom ∧ t = d.top
  | .rebaseSnapshot t live buf snapshot _ =>
    Settled d l ∧ t = d.top ∧ live = l.live.length ∧ buf = d.active ∧
      snapshot.length ≤ live ∧
      ∀ (j : Nat) (item : α), snapshot[j]? = some item → d.activeBuffer.loadCell (t + j) = item
  -- the live part is no longer where the indices say
  | .rebaseCopy live buf snapshot i _ =>
    l.held = none ∧ live = l.live.length ∧ live < d.activeBuffer.capacity ∧
      buf = d.active ∧ snapshot.length = live ∧ i ≤ live ∧
      (∀ (j t : Nat) (item : α), l.live[j]? = some t → snapshot[j]? = some item →
        l.value t = some item) ∧
      ∀ (j : Nat) (item : α), j < i → snapshot[j]? = some item → d.activeBuffer.loadCell j = item
  | .rebaseStoreTop live _ =>
    l.held = none ∧ live = l.live.length ∧ live < d.activeBuffer.capacity ∧
      Contents d.activeBuffer 0 l
  | .rebaseStoreBottom live _ =>
    l.held = none ∧ live = l.live.length ∧ live < d.activeBuffer.capacity ∧
      Contents d.activeBuffer 0 l ∧ d.top = 0
  | .idle | .pushBottom _ | .pushReloadBottom _ | .popBottom | .rebaseBottom _ _
  | .rebaseTop _ _ _ | .rebaseInject _ | .rebaseMaintain _ | .rebaseSpin _
  | .rebaseReloadBottom _ | .rebaseClear _ _ => Settled d l

/-- The owner has waited for the thieves to leave and not yet let them in again. -/
def OwnerPc.exclusive : OwnerPc α → Bool
  | .rebaseReloadBottom _ | .rebaseReloadTop _ _ | .rebaseReloadActive _ _ _
  | .rebaseSnapshot _ _ _ _ _ | .rebaseCopy _ _ _ _ _ | .rebaseStoreTop _ _
  | .rebaseStoreBottom _ _ | .rebaseClear _ _ => true
  | _ => false

/-- The owner has raised `maintenance` and not yet lowered it. -/
def OwnerPc.maintaining : OwnerPc α → Bool
  | .rebaseSpin _ => true
  | pc => pc.exclusive

/-- The thief is counted in `active_thieves`. -/
def ThiefPc.entered : ThiefPc α → Bool
  | .idle | .stealMaintenance | .stealEnter => false
  | _ => true

/-- The thief is past its second look at `maintenance`. -/
def ThiefPc.critical : ThiefPc α → Bool
  | .stealTop | .stealBottom _ | .stealActive _ | .stealCell _ _ | .stealCas _ _ => true
  | _ => false

/-- What a thief's reads are worth, as long as `top` is what it read. -/
def ThiefOk (d : Deque α) (l : TicketLedger α) : ThiefPc α → Prop
  | .stealBottom t => t ≤ d.top
  | .stealActive t => t ≤ d.top ∧ (t = d.top → l.live ≠ [])
  | .stealCell t buf =>
    t ≤ d.top ∧ buf ≤ d.active ∧ (t = d.top → HeadIs l ((d.history buf).loadCell t))
  | .stealCas t item => t ≤ d.top ∧ (t = d.top → HeadIs l item)
  | _ => True

/-- The thieves counted in `active_thieves`. -/
def enteredThieves (thieves : Fin n → ThiefPc α) : Finset (Fin n) :=
  Finset.univ.filter fun i => (thieves i).entered

/-- The ledger `l` accounts for the state `s`. -/
structure Represents (s : System α n) (l : TicketLedger α) : Prop where
  issued : l.issued = s.pushed
  delivered : l.Delivered s.stolen s.popped
  owner : OwnerOk s.deque l s.owner
  thieves : ∀ i, ThiefOk s.deque l (s.thieves i)
  counted : (enteredThieves s.thieves).card = s.deque.activeThieves
  maintained : s.owner.maintaining → s.deque.maintenance
  excluded : s.owner.exclusive → ∀ i, (s.thieves i).critical = false

/-! ## Rings -/

section Ring
variable {d d' : Deque α} {l : TicketLedger α} {stop : Nat}

theorem HeadIs.live_ne_nil {item : α} (h : HeadIs l item) : l.live ≠ [] := by
  obtain ⟨t, ht, _⟩ := h
  intro hnil
  simp [hnil] at ht

theorem Contents.head {buf : Buffer α} {base : Nat} (h : Contents buf base l)
    (hne : l.live ≠ []) : HeadIs l (buf.loadCell base) := by
  obtain ⟨t, rest, hlive⟩ := List.exists_cons_of_ne_nil hne
  exact ⟨t, by simp [hlive], h 0 t (by simp [hlive])⟩

theorem Ring.live_ne_nil (h : Ring d l stop) (hlt : d.top < stop) : l.live ≠ [] := by
  intro hnil
  have hspan := h.span
  simp [hnil] at hspan
  omega

theorem Ring.top_le (h : Ring d l stop) : d.top ≤ stop := by
  have hspan := h.span
  omega

/-- The last live ticket is in the cell before `stop`. -/
theorem Ring.last {b : Nat} (h : Ring d l (b + 1)) (hle : d.top ≤ b) :
    ∃ rest t, l.live = rest ++ [t] ∧ d.top + rest.length = b ∧
      l.value t = some (d.activeBuffer.loadCell b) := by
  have hspan := h.span
  have hne := h.live_ne_nil (by omega)
  obtain ⟨rest, t, hlive⟩ := List.eq_nil_or_concat l.live |>.resolve_left hne
  rw [List.concat_eq_append] at hlive
  have hlen : d.top + rest.length = b := by
    simp [hlive] at hspan
    omega
  refine ⟨rest, t, hlive, hlen, ?_⟩
  rw [← hlen]
  exact h.contents rest.length t (by simp [hlive])

/-- A thief takes the first live ticket and moves `top` past it. -/
theorem Ring.steal {t : Nat} {rest : List Nat} (h : Ring d l stop) (hlive : l.live = t :: rest) :
    Ring { d with top := d.top + 1 } (l.takeFront hlive) stop := by
  have hspan := h.span
  have hroom := h.room
  rw [hlive, List.length_cons] at hspan hroom
  refine ⟨?_, ?_, ?_⟩
  · show d.top + 1 + rest.length = stop
    omega
  · show rest.length < d.activeBuffer.capacity
    omega
  · intro j t' hj
    show l.value t' = some (d.activeBuffer.loadCell (d.top + 1 + j))
    rw [Nat.add_assoc, Nat.add_comm 1 j]
    exact h.contents (j + 1) t' (by rw [hlive]; simpa using hj)

/-- The owner takes the last live ticket. -/
theorem Ring.hold {b t : Nat} {rest : List Nat} (h : Ring d l (b + 1))
    (hlive : l.live = rest ++ [t]) (hnone : l.held = none) (hlen : d.top + rest.length = b) :
    Ring d (l.hold hlive hnone) b := by
  have hroom := h.room
  rw [hlive, List.length_append] at hroom
  refine ⟨hlen, ?_, ?_⟩
  · show rest.length < d.activeBuffer.capacity
    omega
  · intro j t' hj
    refine h.contents j t' ?_
    rw [hlive, List.getElem?_append_left]
    · exact hj
    · exact (List.getElem?_eq_some_iff.mp hj).1

theorem Contents.issue {buf : Buffer α} {base : Nat} {item : α} (h : Contents buf base l)
    (hcell : buf.loadCell (base + l.live.length) = item) : Contents buf base (l.issue item) := by
  intro j t hj
  by_cases hlt : j < l.live.length
  · have hj' : l.live[j]? = some t := by
      rw [← hj]
      exact (List.getElem?_append_left hlt).symm
    rw [l.value_issue_of_lt (l.lt_of_mem_live (List.mem_of_getElem? hj'))]
    exact h j t hj'
  · have hj' : (l.live ++ [l.issued.length])[j]? = some t := hj
    rw [List.getElem?_append_right (by omega), List.getElem?_singleton] at hj'
    split at hj'
    · obtain rfl := Option.some.inj hj'
      obtain rfl : j = l.live.length := by omega
      rw [l.value_issue_new, hcell]
    · exact absurd hj' (by simp)

/-- A pushed value joins at the end. -/
theorem Ring.issue {item : α} (h : Ring d l stop)
    (hroom : l.live.length + 1 < d.activeBuffer.capacity)
    (hcell : d.activeBuffer.loadCell stop = item) : Ring d (l.issue item) (stop + 1) := by
  have hspan := h.span
  refine ⟨?_, ?_, ?_⟩
  · show d.top + (l.live ++ [l.issued.length]).length = stop + 1
    simp
    omega
  · show (l.live ++ [l.issued.length]).length < d.activeBuffer.capacity
    simpa using hroom
  · exact h.contents.issue (by rw [hspan, hcell])

/-- The layout depends on the active ring and `top` only. -/
theorem Ring.congr (h : Ring d l stop) (hbuf : d'.activeBuffer = d.activeBuffer)
    (htop : d'.top = d.top) : Ring d' l stop := by
  refine ⟨?_, ?_, ?_⟩
  · rw [htop, h.span]
  · rw [hbuf]
    exact h.room
  · rw [hbuf, htop]
    exact h.contents

/-- Another ring with the same live cells and no less room. -/
theorem Ring.agree (h : Ring d l stop) (htop : d'.top = d.top)
    (hcap : d.activeBuffer.capacity ≤ d'.activeBuffer.capacity)
    (hagree : AgreeOn d.activeBuffer d'.activeBuffer d.top stop) : Ring d' l stop := by
  have hspan := h.span
  refine ⟨?_, h.room.trans_le hcap, ?_⟩
  · rw [htop, hspan]
  · intro j t hj
    have hlt := (List.getElem?_eq_some_iff.mp hj).1
    rw [htop, hagree _ (by omega) (by omega)]
    exact h.contents j t hj

/-- The values in the ring from `top` to `bottom`, in order. -/
def Deque.liveInterval (d : Deque α) : List α :=
  (List.range (d.bottom - d.top)).map fun j => d.activeBuffer.loadCell (d.top + j)

theorem Ring.liveInterval_eq (h : Ring d l d.bottom) :
    d.liveInterval.map some = l.live.map l.value := by
  have hspan := h.span
  refine List.ext_getElem ?_ ?_
  · simp [Deque.liveInterval]
    omega
  · intro j hj hj'
    have hlt : j < l.live.length := by simpa using hj'
    have hcell := h.contents j l.live[j] (List.getElem?_eq_getElem hlt)
    simp [Deque.liveInterval, hcell]

end Ring

/-! ## Thieves -/

section Thieves
variable {d d' : Deque α} {l l' : TicketLedger α}

/-- A live queue has a first value. -/
theorem exists_headIs (hne : l.live ≠ []) : ∃ item, HeadIs l item := by
  obtain ⟨t, rest, hlive⟩ := List.exists_cons_of_ne_nil hne
  have hlt := l.lt_of_mem_live (t := t) (by simp [hlive])
  exact ⟨l.issued[t], t, by simp [hlive], by simp [TicketLedger.value, hlt]⟩

/-- What the owner must leave alone for a thief that is about to compare `top`. -/
structure KeepsHead (d : Deque α) (l : TicketLedger α) (d' : Deque α)
    (l' : TicketLedger α) : Prop where
  top : d'.top = d.top
  active : d.active ≤ d'.active
  head : ∀ item, HeadIs l item → HeadIs l' item
  cells : l.live ≠ [] → ∀ buf ≤ d.active,
    (d'.history buf).loadCell d.top = (d.history buf).loadCell d.top

theorem KeepsHead.live_ne_nil (h : KeepsHead d l d' l') (hne : l.live ≠ []) :
    l'.live ≠ [] := by
  obtain ⟨item, hitem⟩ := exists_headIs hne
  exact (h.head item hitem).live_ne_nil

/-- The owner moves neither `top` nor a cell. -/
theorem KeepsHead.of_eq (hhistory : d'.history = d.history) (hactive : d'.active = d.active)
    (htop : d'.top = d.top) (hhead : ∀ item, HeadIs l item → HeadIs l' item) :
    KeepsHead d l d' l' where
  top := htop
  active := hactive.ge
  head := hhead
  cells := fun _ _ _ => by rw [hhistory]

theorem ThiefOk.keep {pc : ThiefPc α} (h : ThiefOk d l pc) (hk : KeepsHead d l d' l') :
    ThiefOk d' l' pc := by
  have htop := hk.top
  cases pc with
  | stealBottom t =>
    show t ≤ d'.top
    have hle : t ≤ d.top := h
    omega
  | stealActive t =>
    refine ⟨htop ▸ h.1, fun heq => ?_⟩
    exact hk.live_ne_nil (h.2 (heq.trans htop))
  | stealCell t buf =>
    refine ⟨htop ▸ h.1, h.2.1.trans hk.active, fun heq => ?_⟩
    have heq' : t = d.top := heq.trans htop
    have hhead := h.2.2 heq'
    rw [heq'] at hhead ⊢
    rw [hk.cells hhead.live_ne_nil buf h.2.1]
    exact hk.head _ hhead
  | stealCas t item => exact ⟨htop ▸ h.1, fun heq => hk.head _ (h.2 (heq.trans htop))⟩
  | idle | stealMaintenance | stealEnter | stealCheck | stealTop | stealLeave => trivial

/-- Once `top` has moved on, a late thief's compare-exchange fails whatever it read. -/
theorem ThiefOk.advance {pc : ThiefPc α} (h : ThiefOk d l pc) (htop : d'.top = d.top + 1)
    (hactive : d'.active = d.active) : ThiefOk d' l' pc := by
  cases pc with
  | stealBottom t =>
    show t ≤ d'.top
    have hle : t ≤ d.top := h
    omega
  | stealActive t =>
    have hle := h.1
    exact ⟨by omega, fun heq => by omega⟩
  | stealCell t buf =>
    have hle := h.1
    exact ⟨by omega, hactive ▸ h.2.1, fun heq => by omega⟩
  | stealCas t item =>
    have hle := h.1
    exact ⟨by omega, fun heq => by omega⟩
  | idle | stealMaintenance | stealEnter | stealCheck | stealTop | stealLeave => trivial

theorem ThiefOk.of_not_critical {pc : ThiefPc α} (h : pc.critical = false) :
    ThiefOk d l pc := by
  cases pc with
  | idle | stealMaintenance | stealEnter | stealCheck | stealLeave => trivial
  | stealTop | stealBottom t | stealActive t | stealCell t buf | stealCas t item => cases h

theorem critical_of_entered {pc : ThiefPc α} (h : pc.entered = false) : pc.critical = false := by
  cases pc with
  | idle | stealMaintenance | stealEnter => rfl
  | stealCheck | stealTop | stealBottom t | stealActive t | stealCell t buf | stealCas t item
  | stealLeave => cases h

/-- A thief that moves changes the count by what it was and what it becomes. -/
theorem card_enteredThieves_update (thieves : Fin n → ThiefPc α) (i : Fin n) (pc : ThiefPc α) :
    (enteredThieves (Function.update thieves i pc)).card + (thieves i).entered.toNat =
      (enteredThieves thieves).card + pc.entered.toNat := by
  have hmem : i ∈ enteredThieves thieves ↔ (thieves i).entered := by simp [enteredThieves]
  cases hpc : pc.entered with
  | true =>
    have hset : enteredThieves (Function.update thieves i pc) =
        insert i (enteredThieves thieves) := by
      ext j
      by_cases hj : j = i
      · subst hj
        simp [enteredThieves, hpc]
      · simp [enteredThieves, hj]
    cases hold : (thieves i).entered with
    | true => simp [hset, Finset.insert_eq_of_mem (hmem.mpr hold)]
    | false =>
      have hnot : i ∉ enteredThieves thieves := by simp [hmem, hold]
      simp [hset, Finset.card_insert_of_notMem hnot]
  | false =>
    have hset : enteredThieves (Function.update thieves i pc) =
        (enteredThieves thieves).erase i := by
      ext j
      by_cases hj : j = i
      · subst hj
        simp [enteredThieves, hpc]
      · simp [enteredThieves, hj]
    cases hold : (thieves i).entered with
    | true =>
      have hcard := Finset.card_erase_add_one (hmem.mpr hold)
      simpa [hset] using hcard
    | false =>
      have hnot : i ∉ enteredThieves thieves := by simp [hmem, hold]
      simp [hset, Finset.erase_eq_of_notMem hnot]

/-- A thief past the check and an owner in its exclusive part do not coexist. -/
theorem Represents.not_exclusive {s : System α n} (h : Represents s l) {i : Fin n}
    (hcrit : (s.thieves i).critical) : s.owner.exclusive = false := by
  cases hx : s.owner.exclusive with
  | false => rfl
  | true => exact absurd (h.excluded hx i) (by simp [hcrit])

end Thieves

/-! ## The owner, step by step -/

section Owner
variable {d d' : Deque α} {l : TicketLedger α}

theorem Settled.congr (h : Settled d l) (hbuf : d'.activeBuffer = d.activeBuffer)
    (htop : d'.top = d.top) (hbottom : d'.bottom = d.bottom) : Settled d' l :=
  ⟨hbottom ▸ h.ring.congr hbuf htop, h.held⟩

theorem Settled.length_lt (h : Settled d l) :
    d.top ≤ d.bottom ∧ d.bottom - d.top < d.activeBuffer.capacity := by
  have hspan := h.ring.span
  have hroom := h.ring.room
  omega

/-- Nothing in the owner's reads depends on the thieves' counter or on `maintenance`. -/
theorem OwnerOk.congr {pc : OwnerPc α} (h : OwnerOk d l pc) (hhistory : d'.history = d.history)
    (hactive : d'.active = d.active) (htop : d'.top = d.top) (hbottom : d'.bottom = d.bottom) :
    OwnerOk d' l pc := by
  obtain ⟨history, active, top, bottom, maintenance, activeThieves⟩ := d
  obtain ⟨history', active', top', bottom', maintenance', activeThieves'⟩ := d'
  obtain rfl : history' = history := hhistory
  obtain rfl : active' = active := hactive
  obtain rfl : top' = top := htop
  obtain rfl : bottom' = bottom := hbottom
  have hring : ∀ {stop}, Ring ⟨history', active', top', bottom', maintenance, activeThieves⟩ l stop →
      Ring ⟨history', active', top', bottom', maintenance', activeThieves'⟩ l stop :=
    fun hr => hr.congr rfl rfl
  have hset : Settled ⟨history', active', top', bottom', maintenance, activeThieves⟩ l →
      Settled ⟨history', active', top', bottom', maintenance', activeThieves'⟩ l :=
    fun hs => hs.congr rfl rfl rfl
  cases pc with
  | popTop b buf => exact ⟨hring h.1, h.2⟩
  | popCell b buf t =>
    refine ⟨h.1, h.2.1, h.2.2.imp (fun hx => ⟨hx.1, hring hx.2.1, hx.2.2⟩) fun hx => ?_⟩
    exact ⟨hx.1, hx.2.1, hring hx.2.2.1, hx.2.2.2⟩
  | popCas b item => exact ⟨h.1, h.2.1, hring h.2.2.1, h.2.2.2⟩
  | popRestoreSuccess b item => exact ⟨h.1, h.2.1, hring h.2.2.1, h.2.2.2⟩
  | popRestoreEmpty b => exact ⟨h.1, hring h.2.1, h.2.2⟩
  | rebaseCopy | rebaseStoreTop | rebaseStoreBottom => exact h
  | pushTop | pushReloadTop | pushActive | growCopy | growPublish | pushStore | pushPublish
  | popActive | popDecrement | rebaseReloadTop | rebaseReloadActive | rebaseSnapshot =>
    exact ⟨hset h.1, h.2⟩
  | idle | pushBottom | pushReloadBottom | popBottom | rebaseBottom | rebaseTop | rebaseInject
  | rebaseMaintain | rebaseSpin | rebaseReloadBottom | rebaseClear => exact hset h

/-- A successful thief shortens the live part at its front, whatever the owner is doing. -/
theorem OwnerOk.steal {pc : OwnerPc α} {t : Nat} {rest : List Nat} (h : OwnerOk d l pc)
    (hexcl : pc.exclusive = false) (hlive : l.live = t :: rest) :
    OwnerOk { d with top := d.top + 1 } (l.takeFront hlive) pc := by
  have hset : Settled d l → Settled { d with top := d.top + 1 } (l.takeFront hlive) :=
    fun hs => ⟨hs.ring.steal hlive, hs.held⟩
  have hlen : (l.takeFront hlive).live.length + 1 = l.live.length := by simp [hlive]
  cases pc with
  | pushActive item b u => exact ⟨hset h.1, h.2.1, h.2.2.1.trans (Nat.le_succ _), h.2.2.2⟩
  | growCopy item b u buf i fresh =>
    obtain ⟨hs, hb, hbuf, hu, hrest⟩ := h
    exact ⟨hset hs, hb, hbuf, hu.trans (Nat.le_succ _), hrest⟩
  | growPublish item b fresh =>
    obtain ⟨hs, hb, hcap, hagree⟩ := h
    exact ⟨hset hs, hb, hcap, fun j hj => hagree j (Nat.le_of_succ_le hj)⟩
  | pushStore item b buf =>
    obtain ⟨hs, hb, hbuf, hroom⟩ := h
    refine ⟨hset hs, hb, hbuf, ?_⟩
    show (l.takeFront hlive).live.length + 1 < d.activeBuffer.capacity
    omega
  | pushPublish item b =>
    obtain ⟨hs, hb, hroom, hcell⟩ := h
    refine ⟨hset hs, hb, ?_, hcell⟩
    show (l.takeFront hlive).live.length + 1 < d.activeBuffer.capacity
    omega
  | popTop b buf => exact ⟨h.1.steal hlive, h.2⟩
  | popCell b buf u =>
    refine ⟨h.1, h.2.1, h.2.2.imp (fun hx => ⟨hx.1, hx.2.1.steal hlive, hx.2.2⟩) fun hx => ?_⟩
    exact ⟨hx.1, hx.2.1.trans (Nat.le_succ _), hx.2.2.1.steal hlive, hx.2.2.2⟩
  | popCas b item => exact ⟨h.1, h.2.1.trans (Nat.le_succ _), h.2.2.1.steal hlive, h.2.2.2⟩
  | popRestoreSuccess b item =>
    -- the owner has just taken the last ticket
    have hspan := h.2.2.1.span
    have htop := h.2.1
    omega
  | popRestoreEmpty b => exact ⟨h.1, h.2.1.steal hlive, h.2.2⟩
  | pushTop | pushReloadTop | popActive | popDecrement => exact ⟨hset h.1, h.2⟩
  | idle | pushBottom | pushReloadBottom | popBottom | rebaseBottom | rebaseTop | rebaseInject
  | rebaseMaintain | rebaseSpin => exact hset h
  | rebaseReloadBottom | rebaseReloadTop | rebaseReloadActive | rebaseSnapshot | rebaseCopy
  | rebaseStoreTop | rebaseStoreBottom | rebaseClear => cases hexcl

/-- While thieves are let in, the live part is in the ring, and `bottom` does not exceed
its end. -/
theorem OwnerOk.ring {pc : OwnerPc α} (h : OwnerOk d l pc) (hexcl : pc.exclusive = false) :
    ∃ stop, Ring d l stop ∧ d.bottom ≤ stop := by
  have hset : Settled d l → ∃ stop, Ring d l stop ∧ d.bottom ≤ stop :=
    fun hs => ⟨_, hs.ring, le_rfl⟩
  cases pc with
  | popTop b buf => exact ⟨_, h.1, h.2.2.1.le.trans (Nat.le_succ b)⟩
  | popCell b buf t =>
    rcases h.2.2 with hx | hx
    · exact ⟨_, hx.2.1, h.1.le⟩
    · exact ⟨_, hx.2.2.1, h.1.le.trans (Nat.le_succ b)⟩
  | popCas b item => exact ⟨_, h.2.2.1, h.1.le.trans (Nat.le_succ b)⟩
  | popRestoreSuccess b item => exact ⟨_, h.2.2.1, h.1.le.trans (Nat.le_succ b)⟩
  | popRestoreEmpty b => exact ⟨_, h.2.1, h.1.le.trans (Nat.le_succ b)⟩
  | pushTop | pushReloadTop | pushActive | growCopy | growPublish | pushStore | pushPublish
  | popActive | popDecrement => exact hset h.1
  | idle | pushBottom | pushReloadBottom | popBottom | rebaseBottom | rebaseTop | rebaseInject
  | rebaseMaintain | rebaseSpin => exact hset h
  | rebaseReloadBottom | rebaseReloadTop | rebaseReloadActive | rebaseSnapshot | rebaseCopy
  | rebaseStoreTop | rebaseStoreBottom | rebaseClear => cases hexcl

end Owner

end ChaseLevDeque
end AstraScheduler
