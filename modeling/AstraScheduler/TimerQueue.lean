import AstraScheduler.HeapOrder
import AstraScheduler.RuntimeMetrics
import AstraScheduler.Transition

/-! # The timer queue

`TimerQueue` keeps the armed timers in a binary heap of pointers and, for cancellation, in
a map by timer id; each entry records its own place in the heap.  An entry is shared by the
heap and the map, so a pointer is written here as the entry's fixed fields with the address
of its allocation, and the field that changes, `heap_index`, is kept by address. -/

namespace AstraScheduler
namespace TimerQueue
open RuntimeMetrics
variable {H R : Type}

/-- A pointer to a timer entry: where it was allocated and the fields set by `add`. -/
structure TimerEntry (H R : Type) where
  address : Nat
  timerId : UInt64
  wakeTime : Int
  sequence : UInt64
  handshake : H
  resumeAction : R
  deriving DecidableEq

/-- What a fired or cancelled timer hands to its caller. -/
structure DueItem (H R : Type) where
  handshake : H
  resumeAction : R
  wakeTime : Int
  deriving DecidableEq

def TimerEntry.dueItem (e : TimerEntry H R) : DueItem H R where
  handshake := e.handshake
  resumeAction := e.resumeAction
  wakeTime := e.wakeTime

def compareTimerEntry (a b : TimerEntry H R) : Bool :=
  if a.wakeTime ≠ b.wakeTime then a.wakeTime < b.wakeTime else a.sequence < b.sequence

/-- `heap_`, and the `heap_index` of the entries by address. -/
structure Heap (H R : Type) where
  entries : List (TimerEntry H R) := []
  heapIndex : Nat → Nat := fun _ => 0

namespace Heap

/-- `heap_[i]->heap_index = i`. -/
def setIndex (h : Heap H R) (i : Nat) : Heap H R :=
  match h.entries[i]? with
  | some e => { h with heapIndex := Function.update h.heapIndex e.address i }
  | none => h

/-- Both loops' exchange of two entries, with their indices. -/
def exchange (h : Heap H R) (i j : Nat) : Heap H R :=
  ({ h with entries := h.entries.swap i j }.setIndex i).setIndex j

/-- `i < n && compare_timer_entry(*heap_[i], *heap_[j])`. -/
def comesFirst (h : Heap H R) (i j : Nat) : Bool :=
  match h.entries[i]?, h.entries[j]? with
  | some a, some b => compareTimerEntry a b
  | _, _ => false

/-- The loop of `bubble_up`, with at most `fuel` rounds. -/
def bubbleUp : Nat → Heap H R → Nat → Heap H R
  | 0, h, _ => h
  | fuel + 1, h, idx =>
    if 0 < idx then
      let parent := (idx - 1) / 2
      if h.comesFirst idx parent then bubbleUp fuel (h.exchange idx parent) parent else h
    else h

/-- The `smallest` of a round of `bubble_down`. -/
def smallest (h : Heap H R) (idx : Nat) : Nat :=
  let left := 2 * idx + 1
  let right := 2 * idx + 2
  let smallest := if h.comesFirst left idx then left else idx
  if h.comesFirst right smallest then right else smallest

/-- The loop of `bubble_down`, with at most `fuel` rounds. -/
def bubbleDown : Nat → Heap H R → Nat → Heap H R
  | 0, h, _ => h
  | fuel + 1, h, idx =>
    let smallest := h.smallest idx
    if smallest ≠ idx then bubbleDown fuel (h.exchange idx smallest) smallest else h

/-- The new entry goes to the end of the heap and moves up from there. -/
def push (h : Heap H R) (e : TimerEntry H R) : Heap H R :=
  let idx := h.entries.length
  bubbleUp idx
    { entries := h.entries ++ [e], heapIndex := Function.update h.heapIndex e.address idx } idx

/-- `heap_[idx] = std::move(heap_.back()); heap_.pop_back(); heap_[idx]->heap_index = idx`. -/
def replaceByLast (h : Heap H R) (idx : Nat) : Heap H R :=
  match h.entries.getLast? with
  | some last => { h with entries := (h.entries.set idx last).dropLast }.setIndex idx
  | none => h

/-- The front entry leaves, as in the loops of `collect_due` and `cancel_all`. -/
def popFront (h : Heap H R) : Heap H R :=
  if h.entries.length = 1 then { h with entries := h.entries.dropLast }
  else
    let replaced := h.replaceByLast 0
    bubbleDown replaced.entries.length replaced 0

/-- The entry at `idx` leaves, as in `cancel`. -/
def remove (h : Heap H R) (idx : Nat) : Heap H R :=
  if idx = h.entries.length - 1 then { h with entries := h.entries.dropLast }
  else
    let replaced := h.replaceByLast idx
    bubbleUp idx (bubbleDown replaced.entries.length replaced idx) idx

end Heap

/-- The queue's part of the metrics. -/
structure Metrics where
  level : MetricsLevel
  timerRegistrations : Nat := 0
  timerFires : Nat := 0
  timerCancellations : Nat := 0
  timerWakeLateness : Histogram := {}

end TimerQueue

open TimerQueue RuntimeMetrics

structure TimerQueue (H R : Type) where
  metrics : TimerQueue.Metrics
  nextTimerId : UInt64 := 1
  nextTimerSequence : UInt64 := 1
  heap : TimerQueue.Heap H R := {}
  map : UInt64 → Option (TimerEntry H R) := fun _ => none
  /-- How many entries have been allocated: the address of the next one. -/
  allocated : Nat := 0

namespace TimerQueue
variable {H R : Type}

def new (level : MetricsLevel) : TimerQueue H R where
  metrics := { level := level }

/-- The entry that an `add` allocates in this state. -/
def entryOf (q : TimerQueue H R) (wakeTime : Int) (handshake : H) (resumeAction : R) :
    TimerEntry H R where
  address := q.allocated
  timerId := q.nextTimerId
  wakeTime := wakeTime
  sequence := q.nextTimerSequence
  handshake := handshake
  resumeAction := resumeAction

/-- The queue, the new timer's id and whether it `became_earliest`. -/
def add (q : TimerQueue H R) (wakeTime : Int) (handshake : H) (resumeAction : R) :
    TimerQueue H R × UInt64 × Bool :=
  let tid := q.nextTimerId
  let entry := q.entryOf wakeTime handshake resumeAction
  let heap := q.heap.push entry
  ({ metrics :=
       if q.metrics.level ≠ .off then
         { q.metrics with timerRegistrations := saturatingInc q.metrics.timerRegistrations }
       else q.metrics
     nextTimerId := q.nextTimerId + 1
     nextTimerSequence := q.nextTimerSequence + 1
     heap := heap
     map := Function.update q.map tid (some entry)
     allocated := q.allocated + 1 },
   tid,
   match heap.entries.head? with
   | some front => front.timerId = tid
   | none => false)

def cancel (q : TimerQueue H R) (timerId : UInt64) : TimerQueue H R :=
  match q.map timerId with
  | none => q
  | some entry =>
    { q with
      metrics :=
        if q.metrics.level ≠ .off then
          { q.metrics with timerCancellations := saturatingInc q.metrics.timerCancellations }
        else q.metrics
      heap := q.heap.remove (q.heap.heapIndex entry.address)
      map := Function.update q.map timerId none }

/-- The loop of `collect_due` and `cancel_all`: the front entry leaves the heap and the map
while it is `due`; the entries that left, in this order. -/
def popWhile (due : TimerEntry H R → Bool) :
    Nat → TimerQueue H R → List (TimerEntry H R) × TimerQueue H R
  | 0, q => ([], q)
  | fuel + 1, q =>
    match q.heap.entries.head? with
    | none => ([], q)
    | some entry =>
      if due entry then
        let (entries, q') := popWhile due fuel
          { q with heap := q.heap.popFront, map := Function.update q.map entry.timerId none }
        (entry :: entries, q')
      else ([], q)

/-- What `collect_due` records about the timers that fire at `now`. -/
def recordFires (m : Metrics) (now : Int) (items : List (DueItem H R)) : Metrics :=
  if m.level ≠ .off ∧ items ≠ [] then
    { m with
      timerFires := saturatingAdd m.timerFires items.length
      timerWakeLateness :=
        if m.level = .detailed then
          items.foldl
            (fun h item =>
              if item.wakeTime ≤ now then h.record (now - item.wakeTime).toNat else h)
            m.timerWakeLateness
        else m.timerWakeLateness }
  else m

def collectDue (q : TimerQueue H R) (now : Int) : List (DueItem H R) × TimerQueue H R :=
  let (entries, q') := popWhile (fun e => e.wakeTime ≤ now) q.heap.entries.length q
  let dueItems := entries.map TimerEntry.dueItem
  (dueItems, { q' with metrics := recordFires q'.metrics now dueItems })

def cancelAll (q : TimerQueue H R) : List (DueItem H R) × TimerQueue H R :=
  let (entries, q') := popWhile (fun _ => true) q.heap.entries.length q
  let allItems := entries.map TimerEntry.dueItem
  (allItems,
   { q' with
     metrics :=
       if q'.metrics.level ≠ .off ∧ allItems ≠ [] then
         { q'.metrics with
           timerCancellations := saturatingAdd q'.metrics.timerCancellations allItems.length }
       else q'.metrics })

def earliestWakeTime (q : TimerQueue H R) : Option Int :=
  q.heap.entries.head?.map TimerEntry.wakeTime

def empty (q : TimerQueue H R) : Bool := q.heap.entries.isEmpty

def size (q : TimerQueue H R) : Nat := q.heap.entries.length

/-- A call of one of the operations that change the queue. -/
inductive Op (H R : Type) where
  | add (wakeTime : Int) (handshake : H) (resumeAction : R)
  | cancel (timerId : UInt64)
  | collectDue (now : Int)
  | cancelAll

/-- What a call returns. -/
inductive Result (H R : Type) where
  | added (timerId : UInt64) (becameEarliest : Bool)
  | done
  | items (dueItems : List (DueItem H R))
  deriving DecidableEq

def call (q : TimerQueue H R) : Op H R → Result H R × TimerQueue H R
  | .add wakeTime handshake resumeAction =>
    let (q', tid, becameEarliest) := q.add wakeTime handshake resumeAction
    (.added tid becameEarliest, q')
  | .cancel timerId => (.done, q.cancel timerId)
  | .collectDue now =>
    let (dueItems, q') := q.collectDue now
    (.items dueItems, q')
  | .cancelAll =>
    let (allItems, q') := q.cancelAll
    (.items allItems, q')

/-- The runs of a queue: any calls in any order. -/
def machine (H R : Type) : Transition.Machine (TimerQueue H R) (Op H R) where
  init q := ∃ level, q = new level
  next q op := some (q.call op).2

end TimerQueue
end AstraScheduler
