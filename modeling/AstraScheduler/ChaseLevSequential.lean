import AstraScheduler.ChaseLevInvariant
import Mathlib.Algebra.Ring.Int.Defs

/-! # The two deques, one call after the other

`ChaseLevDeque` and the reference deque `ChaseLevSeqCstOracle` as functions: the calls of one
thread, or of several threads that never overlap.  Where the source can fail, by injection
or for want of memory, a call says whether it does.

No thief is inside between two calls, so the compare-exchanges succeed and the wait of
`maybe_quiescent_rebase` for `active_thieves_` is over at once. -/

namespace AstraScheduler
namespace ChaseLevDeque
variable {α : Type*}

inductive DequeResultStatus where
  | success | empty | retry
  deriving DecidableEq, Repr

/-- What a `pop` or a `steal` returns, with `out` where it was assigned. -/
abbrev Taken (α : Type*) := DequeResultStatus × Option α

namespace Buffer

/-- The loop of `grow`: the cells of the indices from `t` to `b` are copied. -/
def copyFrom (fresh old : Buffer α) (t b : Nat) : Buffer α :=
  (List.range' t (b - t)).foldl (fun fresh i => fresh.storeCell i (old.loadCell i)) fresh

/-- The loop of `maybe_quiescent_rebase` that stores the snapshot from index 0 on. -/
def restore (buf : Buffer α) (snapshot : List α) : Buffer α :=
  (List.range snapshot.length).foldl
    (fun buf i =>
      match snapshot[i]? with
      | some item => buf.storeCell i item
      | none => buf) buf

end Buffer

namespace Deque

/-- `ChaseLevDeque(2 ^ k)`. -/
def new (α : Type*) [Inhabited α] (k : Nat) : Deque α where
  history := fun _ => Buffer.make k

def maybeQuiescentRebase (d : Deque α) (highWatermark : Nat) (fails : Bool) : Bool × Deque α :=
  if d.bottom < highWatermark ∧ d.top < highWatermark then (false, d)
  else if fails then (false, d)
  else if d.bottom < d.top then (false, { d with maintenance := false })
  else
    let live := d.bottom - d.top
    let snapshot := (List.range live).map fun i => d.activeBuffer.loadCell (d.top + i)
    (true,
      { d with
        history := Function.update d.history d.active (d.activeBuffer.restore snapshot)
        top := 0
        bottom := live
        maintenance := false })

/-- `grow`: `none` for a null pointer. -/
def grow [Inhabited α] (d : Deque α) (b t : Nat) (fails : Bool) : Option (Deque α) :=
  let old := d.activeBuffer
  if fails ∨ (2 ^ 64 - 1) / 2 < old.capacity ∨ 2 ^ 62 ≤ old.capacity then none
  else some (d.publishBuffer (old.doubled.copyFrom old t b))

/-- `push` after its look at the high watermark. -/
def pushItem [Inhabited α] (d : Deque α) (item : α) (growFails : Bool) : Bool × Deque α :=
  let b := d.bottom
  let t := d.top
  if b < t then (false, d)
  else if d.activeBuffer.capacity - 1 ≤ b - t then
    match d.grow b t growFails with
    | none => (false, d)
    | some grown => (true, { grown.storeCell grown.active b item with bottom := b + 1 })
  else (true, { d.storeCell d.active b item with bottom := b + 1 })

def push [Inhabited α] (d : Deque α) (item : α) (growFails rebaseFails : Bool) : Bool × Deque α :=
  if rebaseHighWatermark ≤ d.bottom ∨ rebaseHighWatermark ≤ d.top then
    match d.maybeQuiescentRebase rebaseHighWatermark rebaseFails with
    | (false, d) => (false, d)
    | (true, d) => d.pushItem item growFails
  else d.pushItem item growFails

def pop (d : Deque α) (rebaseFails : Bool) : Taken α × Deque α :=
  if d.bottom = 0 then
    ((.empty, none), (d.maybeQuiescentRebase rebaseHighWatermark rebaseFails).2)
  else
    let b := d.bottom - 1
    if d.top ≤ b then
      let item := d.activeBuffer.loadCell b
      if d.top = b then ((.success, some item), { d with top := b + 1, bottom := b + 1 })
      else ((.success, some item), { d with bottom := b })
    else
      ((.empty, none),
        ({ d with bottom := b + 1 }.maybeQuiescentRebase rebaseHighWatermark rebaseFails).2)

def steal (d : Deque α) : Taken α × Deque α :=
  if d.maintenance then ((.retry, none), d)
  else if d.top < d.bottom then
    ((.success, some (d.activeBuffer.loadCell d.top)), { d with top := d.top + 1 })
  else ((.empty, none), d)

def empty (d : Deque α) : Bool := d.bottom ≤ d.top

def size (d : Deque α) : Nat := if d.top < d.bottom then d.bottom - d.top else 0

end Deque

/-! ## The reference deque -/

/-- `static_cast<std::int64_t>` of a size. -/
def int64OfSize (c : Nat) : Int := if c < 2 ^ 63 then c else c - 2 ^ 64

/-- `ChaseLevSeqCstOracle`; the indices are signed. -/
structure Oracle (α : Type*) where
  published : Buffer α
  top : Int := 0
  bottom : Int := 0

namespace Oracle

def new (α : Type*) [Inhabited α] (k : Nat) : Oracle α where
  published := Buffer.make k

/-- `grow`: `none` where the doubled size wraps around to a ring without cells. -/
def grow [Inhabited α] (o : Oracle α) (b t : Int) : Option (Buffer α) :=
  if 2 ^ 64 ≤ o.published.capacity * 2 then none
  else some (o.published.doubled.copyFrom o.published t.toNat b.toNat)

/-- `push`; `none` where it has no defined result, also when `b + 1` overflows. -/
def push [Inhabited α] (o : Oracle α) (item : α) : Option (Oracle α) :=
  let b := o.bottom
  let t := o.top
  let buf :=
    if int64OfSize o.published.capacity ≤ b - t then o.grow b t else some o.published
  buf.bind fun buf =>
    if 2 ^ 63 ≤ b + 1 then none
    else some { o with published := buf.storeCell b.toNat item, bottom := b + 1 }

def pop (o : Oracle α) : Taken α × Oracle α :=
  let b := o.bottom - 1
  let t := o.top
  if t ≤ b then
    let item := o.published.loadCell b.toNat
    if t = b then ((.success, some item), { o with top := t + 1, bottom := b + 1 })
    else ((.success, some item), { o with bottom := b })
  else ((.empty, none), { o with bottom := b + 1 })

def steal (o : Oracle α) : Taken α × Oracle α :=
  if o.top < o.bottom then
    ((.success, some (o.published.loadCell o.top.toNat)), { o with top := o.top + 1 })
  else ((.empty, none), o)

def empty (o : Oracle α) : Bool := o.bottom ≤ o.top

def size (o : Oracle α) : Nat := if o.top < o.bottom then (o.bottom - o.top).toNat else 0

end Oracle

/-! ## A plain deque -/

/-- The operations all three deques have. -/
inductive DequeOp (α : Type*) where
  | push (item : α)
  | pop
  | steal

/-- What an operation answers; a push that is performed answers nothing. -/
abbrev Answer (α : Type*) := Option (Taken α)

namespace ListDeque

/-- Push at the back, pop from the back, steal from the front. -/
def perform (l : List α) : DequeOp α → Answer α × List α
  | .push item => (none, l ++ [item])
  | .pop =>
    match l.getLast? with
    | none => (some (.empty, none), l)
    | some item => (some (.success, some item), l.dropLast)
  | .steal =>
    match l with
    | [] => (some (.empty, none), [])
    | item :: rest => (some (.success, some item), rest)

def run : List α → List (DequeOp α) → List (Answer α) × List α
  | l, [] => ([], l)
  | l, op :: ops =>
    let (answer, l) := perform l op
    let (answers, l) := run l ops
    (answer :: answers, l)

end ListDeque

/-! ## Sequences of calls -/

def Oracle.perform [Inhabited α] (o : Oracle α) : DequeOp α → Option (Answer α × Oracle α)
  | .push item => (o.push item).map fun o => (none, o)
  | .pop => some (some o.pop.1, o.pop.2)
  | .steal => some (some o.steal.1, o.steal.2)

def Oracle.run [Inhabited α] : Oracle α → List (DequeOp α) → Option (List (Answer α) × Oracle α)
  | o, [] => some ([], o)
  | o, op :: ops =>
    (o.perform op).bind fun (answer, o) =>
      (run o ops).map fun (answers, o) => (answer :: answers, o)

/-- A call on the deque, with what fails in it. -/
inductive DequeCall (α : Type*) where
  | push (item : α) (growFails rebaseFails : Bool)
  | pop (rebaseFails : Bool)
  | steal
  | maybeQuiescentRebase (highWatermark : Nat) (fails : Bool)

/-- The deque after the call, and the operation that was performed with its answer: none for
a push that returned false and for a rebase. -/
def Deque.call [Inhabited α] (d : Deque α) : DequeCall α → Option (DequeOp α × Answer α) × Deque α
  | .push item growFails rebaseFails =>
    let (ok, d) := d.push item growFails rebaseFails
    (if ok then some (.push item, none) else none, d)
  | .pop rebaseFails =>
    let (taken, d) := d.pop rebaseFails
    (some (.pop, some taken), d)
  | .steal =>
    let (taken, d) := d.steal
    (some (.steal, some taken), d)
  | .maybeQuiescentRebase highWatermark fails =>
    (none, (d.maybeQuiescentRebase highWatermark fails).2)

/-- The operations that a sequence of calls performs, with their answers. -/
def Deque.run [Inhabited α] : Deque α → List (DequeCall α) → List (DequeOp α × Answer α) × Deque α
  | d, [] => ([], d)
  | d, c :: cs =>
    let (performed, d) := d.call c
    let (trace, d) := run d cs
    (performed.toList ++ trace, d)

end ChaseLevDeque
end AstraScheduler
