import AstraScheduler.Transition
import Mathlib.Data.Nat.Basic
import Mathlib.Logic.Function.Basic

/-! # The work-stealing deque

`ChaseLevDeque` over one owner and any number of thieves.  Every load, store,
fetch-and-add and compare-exchange of the source is one step, taken in any order under
sequential consistency; what a thread has read so far is in its program counter.

Indices are natural numbers: `bottom` is a 64-bit number in every reachable state
(`Reachable.bottom_le`), and `active_thieves_` counts threads.
`history_buffers_` never shrinks, so a buffer is named by its position in it, and a
thief may go on reading a buffer the owner has replaced. -/

namespace AstraScheduler
namespace ChaseLevDeque

open Transition (Machine)

/-- `ChaseLevDeque::Buffer`: a ring whose capacity is a power of two. -/
structure Buffer (α : Type*) where
  capacity : Nat
  isPowerOfTwo : ∃ k, capacity = 2 ^ k
  cells : Fin capacity → α

namespace Buffer
variable {α : Type*} (buf : Buffer α)

theorem capacity_pos : 0 < buf.capacity := by
  obtain ⟨k, hk⟩ := buf.isPowerOfTwo
  rw [hk]
  exact Nat.two_pow_pos k

/-- The cell of an index: `i & (capacity - 1)`. -/
def slot (i : Nat) : Fin buf.capacity :=
  ⟨i &&& (buf.capacity - 1),
    lt_of_le_of_lt Nat.and_le_right (Nat.sub_lt buf.capacity_pos Nat.one_pos)⟩

def storeCell (i : Nat) (item : α) : Buffer α :=
  { buf with cells := Function.update buf.cells (buf.slot i) item }

def loadCell (i : Nat) : α := buf.cells (buf.slot i)

/-- `Buffer(cap)` with `cap = 2 ^ k`; the cells are value-initialised. -/
def make [Inhabited α] (k : Nat) : Buffer α := ⟨2 ^ k, ⟨k, rfl⟩, fun _ => default⟩

/-- The empty ring of twice the capacity that `grow` allocates. -/
def doubled [Inhabited α] : Buffer α where
  capacity := buf.capacity * 2
  isPowerOfTwo := by
    obtain ⟨k, hk⟩ := buf.isPowerOfTwo
    exact ⟨k + 1, by rw [hk, Nat.pow_succ]⟩
  cells := fun _ => default

@[simp] theorem capacity_storeCell (i : Nat) (item : α) :
    (buf.storeCell i item).capacity = buf.capacity := rfl

@[simp] theorem capacity_doubled [Inhabited α] : buf.doubled.capacity = buf.capacity * 2 := rfl

/-- Masking with `capacity - 1` is the remainder modulo the capacity. -/
theorem val_slot (i : Nat) : (buf.slot i : Nat) = i % buf.capacity := by
  obtain ⟨k, hk⟩ := buf.isPowerOfTwo
  show i &&& (buf.capacity - 1) = i % buf.capacity
  rw [hk, Nat.and_two_pow_sub_one_eq_mod]

@[simp] theorem loadCell_storeCell_same (i : Nat) (item : α) :
    (buf.storeCell i item).loadCell i = item := by
  show Function.update buf.cells (buf.slot i) item (buf.slot i) = item
  simp

/-- Two indices less than a capacity apart have different cells. -/
theorem slot_ne {i j : Nat} (hij : i < j) (hlt : j < i + buf.capacity) :
    buf.slot j ≠ buf.slot i := by
  intro heq
  have hmod : j % buf.capacity = i % buf.capacity := by
    rw [← val_slot, ← val_slot, heq]
  have hdvd : buf.capacity ∣ j - i := Nat.dvd_of_mod_eq_zero (Nat.sub_mod_eq_zero_of_mod_eq hmod)
  have hle := Nat.le_of_dvd (by omega) hdvd
  omega

theorem loadCell_storeCell_of_lt {i j : Nat} (item : α) (hij : i < j)
    (hlt : j < i + buf.capacity) : (buf.storeCell j item).loadCell i = buf.loadCell i := by
  show Function.update buf.cells (buf.slot j) item (buf.slot i) = buf.cells (buf.slot i)
  rw [Function.update_of_ne (buf.slot_ne hij hlt).symm]

end Buffer

/-- `kDefaultRebaseHighWatermark`. -/
def rebaseHighWatermark : Nat := 2 ^ 58

/-- Who called `maybe_quiescent_rebase`. -/
inductive RebaseCaller (α : Type*) where
  | push (item : α)
  | pop
  | user

/-- Where the owner is; the fields are the locals it has read.  `buf` is a position in
`history_buffers_`. -/
inductive OwnerPc (α : Type*) where
  | idle
  -- `push`
  | pushBottom (item : α)
  | pushTop (item : α) (b : Nat)
  | pushReloadBottom (item : α)
  | pushReloadTop (item : α) (b : Nat)
  | pushActive (item : α) (b t : Nat)
  /-- In `grow`: the cells from `t` to `i` are copied to the ring not yet published. -/
  | growCopy (item : α) (b t buf i : Nat) (fresh : Buffer α)
  | growPublish (item : α) (b : Nat) (fresh : Buffer α)
  | pushStore (item : α) (b buf : Nat)
  | pushPublish (item : α) (b : Nat)
  -- `pop`
  | popBottom
  | popActive (b : Nat)
  | popDecrement (b buf : Nat)
  | popTop (b buf : Nat)
  | popCell (b buf t : Nat)
  | popCas (b : Nat) (item : α)
  | popRestoreSuccess (b : Nat) (item : α)
  | popRestoreEmpty (b : Nat)
  -- `maybe_quiescent_rebase`
  | rebaseBottom (highWatermark : Nat) (caller : RebaseCaller α)
  | rebaseTop (highWatermark b : Nat) (caller : RebaseCaller α)
  | rebaseInject (caller : RebaseCaller α)
  | rebaseMaintain (caller : RebaseCaller α)
  | rebaseSpin (caller : RebaseCaller α)
  | rebaseReloadBottom (caller : RebaseCaller α)
  | rebaseReloadTop (b : Nat) (caller : RebaseCaller α)
  | rebaseReloadActive (b t : Nat) (caller : RebaseCaller α)
  | rebaseSnapshot (t live buf : Nat) (snapshot : List α) (caller : RebaseCaller α)
  | rebaseCopy (live buf : Nat) (snapshot : List α) (i : Nat) (caller : RebaseCaller α)
  | rebaseStoreTop (live : Nat) (caller : RebaseCaller α)
  | rebaseStoreBottom (live : Nat) (caller : RebaseCaller α)
  | rebaseClear (result : Bool) (caller : RebaseCaller α)

/-- Where a thief is in `steal`. -/
inductive ThiefPc (α : Type*) where
  | idle
  | stealMaintenance
  | stealEnter
  | stealCheck
  | stealTop
  | stealBottom (t : Nat)
  | stealActive (t : Nat)
  | stealCell (t buf : Nat)
  | stealCas (t : Nat) (item : α)
  | stealLeave

/-- The members of `ChaseLevDeque`.  Positions of `history` beyond `active` are not yet
allocated. -/
structure Deque (α : Type*) where
  history : Nat → Buffer α
  active : Nat := 0
  top : Nat := 0
  bottom : Nat := 0
  maintenance : Bool := false
  activeThieves : Nat := 0

/-- A deque with its owner and its thieves.  `pushed` lists the values whose `push`
returned true, `popped` and `stolen` those of the successful `pop`s and `steal`s. -/
structure System (α : Type*) (n : Nat) where
  deque : Deque α
  owner : OwnerPc α := .idle
  thieves : Fin n → ThiefPc α := fun _ => .idle
  pushed : List α := []
  popped : List α := []
  stolen : List α := []

/-- The owner's operations. -/
inductive OwnerCall (α : Type*) where
  | push (item : α)
  | pop
  | maybeQuiescentRebase (highWatermark : Nat)

inductive Label (α : Type*) (n : Nat) where
  | call (op : OwnerCall α)
  /-- The owner's next access; `fail` where the source may fail there, by injection or
  for want of memory. -/
  | owner (fail : Bool)
  | steal (i : Fin n)
  | thief (i : Fin n)

namespace Deque
variable {α : Type*} (d : Deque α)

/-- The ring `active_buffer_` points to. -/
def activeBuffer : Buffer α := d.history d.active

def storeCell (buf i : Nat) (item : α) : Deque α :=
  { d with history := Function.update d.history buf ((d.history buf).storeCell i item) }

/-- `history_buffers_.push_back` and the store to `active_buffer_`. -/
def publishBuffer (fresh : Buffer α) : Deque α :=
  { d with history := Function.update d.history (d.active + 1) fresh, active := d.active + 1 }

end Deque

section Steps
variable {α : Type*} [Inhabited α] {n : Nat} (s : System α n)

def System.setThief (i : Fin n) (pc : ThiefPc α) : System α n :=
  { s with thieves := Function.update s.thieves i pc }

/-- `push`, `pop` and `maybe_quiescent_rebase` up to their first access. -/
def startCall : OwnerCall α → OwnerPc α
  | .push item => .pushBottom item
  | .pop => .popBottom
  | .maybeQuiescentRebase highWatermark => .rebaseBottom highWatermark .user

/-- Where the owner goes on when `maybe_quiescent_rebase` has returned `result`. -/
def afterRebase (result : Bool) : RebaseCaller α → OwnerPc α
  | .push item => if result then .pushReloadBottom item else .idle
  | .pop => .idle
  | .user => .idle

/-- The tests of `push` between its loads of the ring and its store to the cell, with the
tests of `grow` before its allocation. -/
def pushRoom (d : Deque α) (fail : Bool) (item : α) (b t : Nat) : OwnerPc α :=
  let capacity := d.activeBuffer.capacity
  if b < t then .idle
  else if b - t < capacity - 1 then .pushStore item b d.active
  else if fail ∨ (2 ^ 64 - 1) / 2 < capacity ∨ 2 ^ 62 ≤ capacity then .idle
  else .growCopy item b t d.active t d.activeBuffer.doubled

/-- The owner's next access. -/
def ownerStep (fail : Bool) : Option (System α n) :=
  match s.owner with
  | .idle => none
  | .pushBottom item => some { s with owner := .pushTop item s.deque.bottom }
  | .pushTop item b =>
    some { s with owner :=
      if rebaseHighWatermark ≤ b ∨ rebaseHighWatermark ≤ s.deque.top then
        .rebaseBottom rebaseHighWatermark (.push item)
      else .pushActive item b s.deque.top }
  | .pushReloadBottom item => some { s with owner := .pushReloadTop item s.deque.bottom }
  | .pushReloadTop item b => some { s with owner := .pushActive item b s.deque.top }
  | .pushActive item b t => some { s with owner := pushRoom s.deque fail item b t }
  | .growCopy item b t buf i fresh =>
    let val := (s.deque.history buf).loadCell i
    some { s with owner :=
      if i < b then .growCopy item b t buf (i + 1) (fresh.storeCell i val)
      else .growPublish item b fresh }
  | .growPublish item b fresh =>
    if fail then some { s with owner := .idle }
    else some { s with
      deque := s.deque.publishBuffer fresh
      owner := .pushStore item b (s.deque.active + 1) }
  | .pushStore item b buf =>
    some { s with deque := s.deque.storeCell buf b item, owner := .pushPublish item b }
  | .pushPublish item b =>
    some { s with deque.bottom := b + 1, owner := .idle, pushed := s.pushed ++ [item] }
  | .popBottom =>
    -- `bottom` is unsigned: an empty deque at index zero is not decremented
    some { s with owner :=
      if s.deque.bottom = 0 then .rebaseBottom rebaseHighWatermark .pop
      else .popActive s.deque.bottom }
  | .popActive b => some { s with owner := .popDecrement (b - 1) s.deque.active }
  | .popDecrement b buf => some { s with deque.bottom := b, owner := .popTop b buf }
  | .popTop b buf =>
    some { s with owner :=
      if s.deque.top ≤ b then .popCell b buf s.deque.top else .popRestoreEmpty b }
  | .popCell b buf t =>
    let item := (s.deque.history buf).loadCell b
    if t = b then some { s with owner := .popCas b item }
    else some { s with owner := .idle, popped := s.popped ++ [item] }
  | .popCas b item =>
    if s.deque.top = b then some { s with deque.top := b + 1, owner := .popRestoreSuccess b item }
    else some { s with owner := .popRestoreEmpty b }
  | .popRestoreSuccess b item =>
    some { s with deque.bottom := b + 1, owner := .idle, popped := s.popped ++ [item] }
  | .popRestoreEmpty b =>
    some { s with deque.bottom := b + 1, owner := .rebaseBottom rebaseHighWatermark .pop }
  | .rebaseBottom highWatermark caller =>
    some { s with owner := .rebaseTop highWatermark s.deque.bottom caller }
  | .rebaseTop highWatermark b caller =>
    some { s with owner :=
      if b < highWatermark ∧ s.deque.top < highWatermark then afterRebase false caller
      else .rebaseInject caller }
  | .rebaseInject caller =>
    some { s with owner := if fail then afterRebase false caller else .rebaseMaintain caller }
  | .rebaseMaintain caller =>
    some { s with deque.maintenance := true, owner := .rebaseSpin caller }
  | .rebaseSpin caller =>
    some { s with owner :=
      if s.deque.activeThieves = 0 then .rebaseReloadBottom caller else .rebaseSpin caller }
  | .rebaseReloadBottom caller => some { s with owner := .rebaseReloadTop s.deque.bottom caller }
  | .rebaseReloadTop b caller => some { s with owner := .rebaseReloadActive b s.deque.top caller }
  | .rebaseReloadActive b t caller =>
    some { s with owner :=
      if b < t then .rebaseClear false caller
      else if b - t = 0 then .rebaseStoreTop 0 caller
      -- `snapshot.reserve` is the only thing that can throw
      else if fail then .rebaseClear false caller
      else .rebaseSnapshot t (b - t) s.deque.active [] caller }
  | .rebaseSnapshot t live buf snapshot caller =>
    let item := (s.deque.history buf).loadCell (t + snapshot.length)
    some { s with owner :=
      if snapshot.length < live then .rebaseSnapshot t live buf (snapshot ++ [item]) caller
      else .rebaseCopy live buf snapshot 0 caller }
  | .rebaseCopy live buf snapshot i caller =>
    match snapshot[i]? with
    | some item =>
      some { s with
        deque := s.deque.storeCell buf i item
        owner := .rebaseCopy live buf snapshot (i + 1) caller }
    | none => some { s with owner := .rebaseStoreTop live caller }
  | .rebaseStoreTop live caller =>
    some { s with deque.top := 0, owner := .rebaseStoreBottom live caller }
  | .rebaseStoreBottom live caller =>
    some { s with deque.bottom := live, owner := .rebaseClear true caller }
  | .rebaseClear result caller =>
    some { s with deque.maintenance := false, owner := afterRebase result caller }

/-- A thief's next access. -/
def thiefStep (i : Fin n) : Option (System α n) :=
  match s.thieves i with
  | .idle => none
  | .stealMaintenance => some (s.setThief i (if s.deque.maintenance then .idle else .stealEnter))
  | .stealEnter =>
    some { s.setThief i .stealCheck with deque.activeThieves := s.deque.activeThieves + 1 }
  | .stealCheck => some (s.setThief i (if s.deque.maintenance then .stealLeave else .stealTop))
  | .stealTop => some (s.setThief i (.stealBottom s.deque.top))
  | .stealBottom t =>
    some (s.setThief i (if t < s.deque.bottom then .stealActive t else .stealLeave))
  | .stealActive t => some (s.setThief i (.stealCell t s.deque.active))
  | .stealCell t buf => some (s.setThief i (.stealCas t ((s.deque.history buf).loadCell t)))
  | .stealCas t item =>
    if s.deque.top = t then
      some { s.setThief i .stealLeave with deque.top := t + 1, stolen := s.stolen ++ [item] }
    else some (s.setThief i .stealLeave)
  | .stealLeave =>
    some { s.setThief i .idle with deque.activeThieves := s.deque.activeThieves - 1 }

/-- One step of the owner or of a thief. -/
def step : Label α n → Option (System α n)
  | .call op =>
    match s.owner with
    | .idle => some { s with owner := startCall op }
    | _ => none
  | .owner fail => ownerStep s fail
  | .steal i =>
    match s.thieves i with
    | .idle => some (s.setThief i .stealMaintenance)
    | _ => none
  | .thief i => thiefStep s i

end Steps

/-- `ChaseLevDeque(2 ^ k)`. -/
def initial (α : Type*) [Inhabited α] (n k : Nat) : System α n where
  deque := { history := fun _ => Buffer.make k }

/-- The deque of capacity at most 2^63, a `size_t`, and all interleavings on it. -/
def machine (α : Type*) [Inhabited α] (n : Nat) : Machine (System α n) (Label α n) where
  init s := ∃ k < 64, s = initial α n k
  next := step

/-- No operation is in progress. -/
def System.Quiescent {α : Type*} {n : Nat} (s : System α n) : Prop :=
  s.owner = .idle ∧ ∀ i, s.thieves i = .idle

end ChaseLevDeque
end AstraScheduler
