import AstraScheduler.BinaryHeap
import AstraScheduler.LinkedFifo
import AstraScheduler.ReadyQueues

/-! # The ready queues as the source keeps them

`ReadyQueues` (ready_queues.cpp) with its containers: a binary heap and a FIFO of raw
links for each global band, and for each worker four bands that are deques under a
mutex or lock-free deques of raw pointers.  What travels as a pointer keeps its
`is_external` flag in the object, what travels as a `QueuedTask` keeps it beside it.

Every operation is one function and returns what it hands to its caller: the
calendar index and the deadline bursts, which the source passes by reference, are
arguments and results. -/

namespace AstraScheduler
open LinkedFifo (Fifo)

/-- The fields of the `ReadyLinkedInvoker`s.  `adopt_ready_linked` wraps an invoker
that is not one when it is pushed first, once for its life; the wrapper answers for
the invoker and goes by its name. -/
structure ReadyLinks (I : Type) where
  readyNext : I → Option I := fun _ => none
  readyIsExternal : I → Bool := fun _ => false

/-- The containers of `LocalQueues`; `backend` of the queues says which are in use.
`room` is as in `LocalQueues`. -/
structure LocalContainers (I : Type) where
  lockedBands : Priority → List (QueuedTask I) := fun _ => []
  chaseLevBands : Priority → List I := fun _ => []
  room : Priority → Option Nat := fun _ => none

structure LinkedReadyQueues (I : Type) where
  links : ReadyLinks I := {}
  globalEdfHeaps : Priority → List (EdfEntry I) := fun _ => []
  globalFifoQueues : Priority → Fifo I := fun _ => {}
  globalAdmissionSequence : Nat := 0
  localQueues : Nat → LocalContainers I := fun _ => {}
  localBackend : LocalDequeBackend
  workerCount : Nat
  claimedCount : Nat := 0

def kPriorityCalendarLength : Nat := 15

def kEdfDeadlineBurstLimit : Nat := 8

def kPriorityCalendar : List Priority :=
  [.critical, .high, .critical, .normal, .critical, .high, .critical, .low,
    .critical, .high, .critical, .normal, .critical, .high, .critical]

def kFallbackPriorityOrder : List Priority := [.critical, .high, .normal, .low]

/-- The bands of an array indexed by priority, in the order of the array. -/
def Priority.bands : List Priority := [.low, .normal, .high, .critical]

/-- `EdfEntry::operator>`. -/
def EdfEntry.greater {I : Type} (a b : EdfEntry I) : Bool :=
  if a.deadline ≠ b.deadline then decide (b.deadline < a.deadline)
  else decide (b.admissionSequence < a.admissionSequence)

/-- A heap under `std::greater` has its least entry in front. -/
def EdfEntry.before {I : Type} (a b : EdfEntry I) : Bool := b.greater a

variable {I : Type} [DecidableEq I]

def ReadyLinks.write (links : ReadyLinks I) (raw : I) (next : Option I) (isExternal : Bool) :
    ReadyLinks I where
  readyNext := Function.update links.readyNext raw next
  readyIsExternal := Function.update links.readyIsExternal raw isExternal

/-- What a raw pointer is handed out as. -/
def ReadyLinks.task {I : Type} (links : ReadyLinks I) (raw : I) : QueuedTask I :=
  ⟨raw, links.readyIsExternal raw⟩

/-! ## `IntrusiveFifo` -/

namespace IntrusiveFifo

def pushBack (links : ReadyLinks I) (q : Fifo I) (task : I) (isExternal : Bool) :
    ReadyLinks I × Fifo I :=
  let pushed := LinkedFifo.pushBack links.readyNext q task
  ({ readyNext := pushed.1
     readyIsExternal := Function.update links.readyIsExternal task isExternal }, pushed.2)

def popFront (links : ReadyLinks I) (q : Fifo I) :
    Option (QueuedTask I × ReadyLinks I × Fifo I) :=
  (LinkedFifo.popFront links.readyNext q).map fun (raw, next, q) =>
    (links.task raw,
      { readyNext := next
        readyIsExternal := Function.update links.readyIsExternal raw false }, q)

end IntrusiveFifo

/-! ## Claiming by the calendar -/

/-- What the attempt at one band ends with; `retry` is a thief that lost the race for
the band three times. -/
inductive BandClaim (α : Type) where
  | success (claimed : α)
  | empty
  | retry

def BandClaim.ofOption {α : Type} : Option α → BandClaim α
  | some a => .success a
  | none => .empty

/-- The first band that yields something; a band that says `retry` ends the search. -/
def firstClaim {α : Type} (claim : Priority → BandClaim α) : List Priority → Option α
  | [] => none
  | p :: ps =>
    match claim p with
    | .success a => some a
    | .empty => firstClaim claim ps
    | .retry => none

def calendarTarget (calendarIndex : Nat) : Priority :=
  kPriorityCalendar.getD (calendarIndex % kPriorityCalendarLength) .critical

/-- The common part of the three claims: the calendar's band, then the other bands in
the fallback order; success advances the index. -/
def claimByCalendar {α : Type} (calendarIndex : Nat) (claim : Priority → BandClaim α) :
    Option (α × Nat) :=
  let target := calendarTarget calendarIndex
  (firstClaim claim (target :: kFallbackPriorityOrder.filter (· ≠ target))).map fun claimed =>
    (claimed, (calendarIndex + 1) % 2 ^ 64 % kPriorityCalendarLength)

/-- The element at the back or at the front, and the others. -/
def takeEnd {α : Type} (fromBack : Bool) (xs : List α) : Option (α × List α) :=
  if fromBack then xs.getLast?.map fun x => (x, xs.dropLast)
  else
    match xs with
    | [] => none
    | x :: xs => some (x, xs)

/-- `ReadyQueues::choose_local_band`. -/
def chooseLocalBand (bands : Priority → List (QueuedTask I)) (calendarIndex : Nat)
    (fromBack : Bool) : Option ((QueuedTask I × (Priority → List (QueuedTask I))) × Nat) :=
  claimByCalendar calendarIndex fun p =>
    .ofOption ((takeEnd fromBack (bands p)).map fun (out, rest) =>
      (out, Function.update bands p rest))

/-- `LocalQueues::claim_chase_lev`; a thief loses the race for the bands in `contended`. -/
def claimChaseLev (links : ReadyLinks I) (bands : Priority → List I) (calendarIndex : Nat)
    (owner : Bool) (contended : Priority → Bool) :
    Option ((QueuedTask I × ReadyLinks I × (Priority → List I)) × Nat) :=
  claimByCalendar calendarIndex fun p =>
    if !owner ∧ contended p then .retry
    else
      .ofOption ((takeEnd owner (bands p)).map fun (raw, rest) =>
        (links.task raw, links.write raw none false, Function.update bands p rest))

namespace LinkedReadyQueues

def setLocal (rq : LinkedReadyQueues I) (w : Nat) (q : LocalContainers I) :
    LinkedReadyQueues I :=
  { rq with localQueues := Function.update rq.localQueues w q }

/-- The ring of a band has room for `room` more pushes without growth, or for any number. -/
def ringRoom (rq : LinkedReadyQueues I) (w : Nat) (band : Priority) (room : Option Nat) :
    LinkedReadyQueues I :=
  let q := rq.localQueues w
  rq.setLocal w { q with room := Function.update q.room band room }

/-! ## Publication -/

/-- `LocalQueues::push` of worker `w`: `false` when the band's ring cannot grow. -/
def pushLocal (rq : LinkedReadyQueues I) (w : Nat) (task : QueuedTask I)
    (priority : Priority) : LinkedReadyQueues I × Bool :=
  let q := rq.localQueues w
  match rq.localBackend with
  | .locked =>
    let pushed := Function.update q.lockedBands priority (q.lockedBands priority ++ [task])
    (rq.setLocal w { q with lockedBands := pushed }, true)
  | .chaseLevLockFree =>
    let linked := { rq with links := rq.links.write task.invoker none task.isExternal }
    if q.room priority = some 0 then (linked, false)
    else
      let pushed :=
        Function.update q.chaseLevBands priority (q.chaseLevBands priority ++ [task.invoker])
      let room := Function.update q.room priority ((q.room priority).map (· - 1))
      (linked.setLocal w { q with chaseLevBands := pushed, room := room }, true)

/-- `global_fifo_queues_[band].push_back`. -/
def pushFifo (rq : LinkedReadyQueues I) (task : QueuedTask I) (band : Priority) :
    LinkedReadyQueues I :=
  let pushed := IntrusiveFifo.pushBack rq.links (rq.globalFifoQueues band) task.invoker
    task.isExternal
  { rq with
    links := pushed.1
    globalFifoQueues := Function.update rq.globalFifoQueues band pushed.2 }

/-- The deadline branch of `publish`. -/
def pushEdf (rq : LinkedReadyQueues I) (task : QueuedTask I) (band : Priority)
    (deadline : Nat) : LinkedReadyQueues I :=
  let sequence := rq.globalAdmissionSequence + 1
  { rq with
    globalAdmissionSequence := sequence
    globalEdfHeaps := Function.update rq.globalEdfHeaps band
      (BinaryHeap.pushHeap EdfEntry.before
        (rq.globalEdfHeaps band ++ [⟨deadline, sequence, task⟩])) }

/-- `ReadyQueues::publish`. -/
def publish [TaskInvokerBase I] (rq : LinkedReadyQueues I) (task : I)
    (isExternal useLocalQueue : Bool) (workerIndex : Nat) : LinkedReadyQueues I :=
  let band := TaskInvokerBase.priority task
  match TaskInvokerBase.deadline task, TaskInvokerBase.isResumeSegment task with
  | some deadline, false => rq.pushEdf ⟨task, isExternal⟩ band deadline
  | _, _ =>
    if useLocalQueue ∧ workerIndex < rq.workerCount then
      match rq.pushLocal workerIndex ⟨task, false⟩ band with
      | (pushed, true) => pushed
      | (linked, false) => linked.pushFifo ⟨task, isExternal⟩ band
    else rq.pushFifo ⟨task, isExternal⟩ band

/-! ## Claims -/

/-- `std::pop_heap` on a band's heap, then its last entry. -/
def popEdf (rq : LinkedReadyQueues I) (band : Priority) :
    Option (QueuedTask I × LinkedReadyQueues I) :=
  let heap := BinaryHeap.popHeap EdfEntry.before (rq.globalEdfHeaps band)
  heap.getLast?.map fun entry =>
    (entry.task,
      { rq with globalEdfHeaps := Function.update rq.globalEdfHeaps band heap.dropLast })

/-- `fifo_queue.pop_front`. -/
def popFifo (rq : LinkedReadyQueues I) (band : Priority) :
    Option (QueuedTask I × LinkedReadyQueues I) :=
  (IntrusiveFifo.popFront rq.links (rq.globalFifoQueues band)).map fun (out, links, q) =>
    (out, { rq with
      links := links
      globalFifoQueues := Function.update rq.globalFifoQueues band q })

/-- `claim_global_band_locked`: the claimed task and the band's deadline burst. -/
def claimGlobalBandLocked (rq : LinkedReadyQueues I) (band : Priority) (deadlineBurst : Nat) :
    Option (QueuedTask I × LinkedReadyQueues I × Nat) :=
  let fromHeap := (rq.popEdf band).map fun (out, rq) => (out, rq, deadlineBurst + 1)
  let fromFifo := (rq.popFifo band).map fun (out, rq) => (out, rq, 0)
  match (rq.globalEdfHeaps band).isEmpty, (rq.globalFifoQueues band).head.isNone with
  | true, true => none
  | false, false => if deadlineBurst < kEdfDeadlineBurstLimit then fromHeap else fromFifo
  | false, true => fromHeap
  | true, false => fromFifo

/-- A successful claim, with the caller's calendar index after it. -/
structure Claimed (I : Type) where
  out : QueuedTask I
  queues : LinkedReadyQueues I
  calendarIndex : Nat

def countClaim (rq : LinkedReadyQueues I) : LinkedReadyQueues I :=
  { rq with claimedCount := rq.claimedCount + 1 }

/-- `ReadyQueues::claim_global`, with the caller's deadline bursts. -/
def claimGlobal (rq : LinkedReadyQueues I) (calendarIndex : Nat)
    (deadlineBursts : Priority → Nat) : Option (Claimed I × (Priority → Nat)) :=
  (claimByCalendar calendarIndex fun p =>
    .ofOption ((rq.claimGlobalBandLocked p (deadlineBursts p)).map fun (out, rq, burst) =>
      (out, rq, Function.update deadlineBursts p burst))).map
    fun ((out, rq, bursts), index) => (⟨out, rq.countClaim, index⟩, bursts)

/-- `LocalQueues::claim_back` (of the owner) and `LocalQueues::steal_front` of worker `w`. -/
def claimEnd (rq : LinkedReadyQueues I) (w calendarIndex : Nat) (owner : Bool)
    (contended : Priority → Bool) : Option (Claimed I) :=
  let q := rq.localQueues w
  match rq.localBackend with
  | .chaseLevLockFree =>
    (claimChaseLev rq.links q.chaseLevBands calendarIndex owner contended).map
      fun ((out, links, bands), index) =>
        ⟨out, { rq with links := links }.setLocal w { q with chaseLevBands := bands }, index⟩
  | .locked =>
    (chooseLocalBand q.lockedBands calendarIndex owner).map fun ((out, bands), index) =>
      ⟨out, rq.setLocal w { q with lockedBands := bands }, index⟩

/-- `claim_local` and `steal` after the bounds check. -/
def claimFrom (rq : LinkedReadyQueues I) (w calendarIndex : Nat) (owner : Bool)
    (contended : Priority → Bool) : Option (Claimed I) :=
  if w < rq.workerCount then
    (rq.claimEnd w calendarIndex owner contended).map fun c =>
      { c with queues := c.queues.countClaim }
  else none

/-- `ReadyQueues::claim_local`. -/
def claimLocal (rq : LinkedReadyQueues I) (workerIndex calendarIndex : Nat) :
    Option (Claimed I) :=
  rq.claimFrom workerIndex calendarIndex true fun _ => false

/-- `ReadyQueues::steal`. -/
def steal (rq : LinkedReadyQueues I) (victimIndex calendarIndex : Nat)
    (contended : Priority → Bool) : Option (Claimed I) :=
  rq.claimFrom victimIndex calendarIndex false contended

/-- `ReadyQueues::complete_claim`. -/
def completeClaim (rq : LinkedReadyQueues I) : LinkedReadyQueues I :=
  { rq with claimedCount := rq.claimedCount - 1 }

/-! ## The sweep -/

/-- A sweep under way: the queues, the local resumes collected so far, what has been
cancelled in the global and in the local queues, and the units released. -/
structure Sweep (I : Type) where
  queues : LinkedReadyQueues I
  resumes : List (QueuedTask I) := []
  cancelledGlobal : List (QueuedTask I) := []
  cancelledLocal : List (QueuedTask I) := []
  released : Nat := 0

section Sweep
variable [TaskInvokerBase I]

def isResume (task : QueuedTask I) : Bool := TaskInvokerBase.isResumeSegment task.invoker

/-- `cancel_pre_start`, and `admission.release(1)` for an external task. -/
def Sweep.cancelGlobal (s : Sweep I) (tasks : List (QueuedTask I)) : Sweep I :=
  { s with
    cancelledGlobal := s.cancelledGlobal ++ tasks
    released := s.released + tasks.countP (·.isExternal) }

/-- The loop over a deadline heap. -/
def sweepEdf (s : Sweep I) (band : Priority) : Sweep I :=
  let heap := s.queues.globalEdfHeaps band
  let resumes := heap.filter fun entry => isResume entry.task
  let others := heap.filter fun entry => !isResume entry.task
  let heaps := Function.update s.queues.globalEdfHeaps band
    (BinaryHeap.makeHeap EdfEntry.before resumes)
  let swept : Sweep I := { s with queues := { s.queues with globalEdfHeaps := heaps } }
  swept.cancelGlobal (others.map (·.task))

/-- `while (queue.pop_front(task))`: resumes go to `retained`, the others are cancelled. -/
def drainFifo : Nat → ReadyLinks I → Fifo I → Fifo I → List (QueuedTask I) →
    ReadyLinks I × Fifo I × List (QueuedTask I)
  | 0, links, _, retained, cancelled => (links, retained, cancelled)
  | fuel + 1, links, q, retained, cancelled =>
    match IntrusiveFifo.popFront links q with
    | none => (links, retained, cancelled)
    | some (task, links, q) =>
      if isResume task then
        let pushed := IntrusiveFifo.pushBack links retained task.invoker task.isExternal
        drainFifo fuel pushed.1 q pushed.2 cancelled
      else drainFifo fuel links q retained (cancelled ++ [task])

/-- The loop over a global FIFO; it ends after as many rounds as the FIFO has nodes. -/
def sweepFifo (s : Sweep I) (band : Priority) : Sweep I :=
  let q := s.queues.globalFifoQueues band
  let (links, retained, cancelled) := drainFifo q.count s.queues.links q {} []
  let queues := Function.update s.queues.globalFifoQueues band retained
  let swept : Sweep I :=
    { s with queues := { s.queues with links := links, globalFifoQueues := queues } }
  swept.cancelGlobal cancelled

/-- One band of `LocalQueues::cancel_unstarted`.  A lock-free band is emptied by
stealing, its resumes collected; a deque keeps its resumes. -/
def sweepLocalBand (w : Nat) (s : Sweep I) (band : Priority) : Sweep I :=
  let q := s.queues.localQueues w
  match s.queues.localBackend with
  | .chaseLevLockFree =>
    let tasks := (q.chaseLevBands band).map s.queues.links.task
    let links := tasks.foldl
      (fun links task => links.write task.invoker none false) s.queues.links
    let emptied := { q with chaseLevBands := Function.update q.chaseLevBands band [] }
    { s with
      queues := { s.queues with links := links }.setLocal w emptied
      resumes := s.resumes ++ tasks.filter isResume
      cancelledLocal := s.cancelledLocal ++ tasks.filter (!isResume ·) }
  | .locked =>
    let tasks := q.lockedBands band
    let retained := Function.update q.lockedBands band (tasks.filter isResume)
    { s with
      queues := s.queues.setLocal w { q with lockedBands := retained }
      cancelledLocal := s.cancelledLocal ++ tasks.filter (!isResume ·) }

/-- `LocalQueues::cancel_unstarted` of worker `w`. -/
def sweepLocal (s : Sweep I) (w : Nat) : Sweep I :=
  Priority.bands.foldl (sweepLocalBand w) s

/-- The collected resumes go to the global FIFOs of their priorities. -/
def republish (rq : LinkedReadyQueues I) (resumes : List (QueuedTask I)) :
    LinkedReadyQueues I :=
  resumes.foldl (fun rq task => rq.pushFifo task (TaskInvokerBase.priority task.invoker)) rq

/-- The part of `ReadyQueues::cancel_unstarted` under `global_mutex_`. -/
def sweepGlobal (rq : LinkedReadyQueues I) : Sweep I :=
  Priority.bands.foldl sweepFifo (Priority.bands.foldl sweepEdf { queues := rq })

/-- `ReadyQueues::cancel_unstarted` up to the republication of the local resumes. -/
def sweep (rq : LinkedReadyQueues I) : Sweep I :=
  (List.range rq.workerCount).foldl sweepLocal rq.sweepGlobal

/-- `ReadyQueues::cancel_unstarted`. -/
def cancelUnstarted (rq : LinkedReadyQueues I) : Sweep I :=
  let s := rq.sweep
  { s with queues := s.queues.republish s.resumes }

end Sweep
end LinkedReadyQueues
end AstraScheduler
