import AstraScheduler.ChaseLevSequential
import AstraScheduler.LinkedReadyQueues

/-! # The two backends of the local queues

`LocalQueues` with deques under a mutex and with work-stealing deques of raw pointers, each
with its own code: `choose_local_band` and `claim_chase_lev`.  The calls are those of one
thread, or of several that never overlap. -/

namespace AstraScheduler
open ChaseLevDeque (Deque DequeResultStatus Taken)

/-- What `claim_back` or `steal_front` returns and leaves in its arguments; `out` where it
was assigned. -/
structure LocalClaim (I Q : Type) where
  success : Bool
  out : Option (QueuedTask I)
  calendarIndex : Nat
  queues : Q

def nextCalendarIndex (calendarIndex : Nat) : Nat :=
  (calendarIndex + 1) % 2 ^ 64 % kPriorityCalendarLength

/-! ## `LocalDequeBackend::Locked` -/

structure LockedLocalQueues (I : Type) where
  lockedBands : Priority → List (QueuedTask I) := fun _ => []

namespace LockedLocalQueues
variable {I : Type}

def push (q : LockedLocalQueues I) (task : QueuedTask I) (priority : Priority) :
    Bool × LockedLocalQueues I :=
  (true, { q with
    lockedBands := Function.update q.lockedBands priority (q.lockedBands priority ++ [task]) })

/-- The lambda of `choose_local_band`. -/
def claim (q : LockedLocalQueues I) (calendarIndex : Nat) (fromBack : Bool) (priority : Priority) :
    LocalClaim I (LockedLocalQueues I) :=
  match takeEnd fromBack (q.lockedBands priority) with
  | none => ⟨false, none, calendarIndex, q⟩
  | some (out, rest) =>
    ⟨true, some out, nextCalendarIndex calendarIndex,
      { q with lockedBands := Function.update q.lockedBands priority rest }⟩

/-- The loop over `kFallbackPriorityOrder`. -/
def claimFallback (q : LockedLocalQueues I) (calendarIndex : Nat) (fromBack : Bool)
    (target : Priority) : List Priority → LocalClaim I (LockedLocalQueues I)
  | [] => ⟨false, none, calendarIndex, q⟩
  | priority :: priorities =>
    if priority ≠ target ∧ (q.claim calendarIndex fromBack priority).success then
      q.claim calendarIndex fromBack priority
    else claimFallback q calendarIndex fromBack target priorities

def chooseLocalBand (q : LockedLocalQueues I) (calendarIndex : Nat) (fromBack : Bool) :
    LocalClaim I (LockedLocalQueues I) :=
  let target := calendarTarget calendarIndex
  if (q.claim calendarIndex fromBack target).success then q.claim calendarIndex fromBack target
  else q.claimFallback calendarIndex fromBack target kFallbackPriorityOrder

def empty (q : LockedLocalQueues I) : Bool :=
  (q.lockedBands .low).isEmpty && (q.lockedBands .normal).isEmpty &&
    (q.lockedBands .high).isEmpty && (q.lockedBands .critical).isEmpty

end LockedLocalQueues

/-! ## `LocalDequeBackend::ChaseLevLockFree` -/

/-- The bands hold pointers; `none` is the null pointer. -/
structure ChaseLevLocalQueues (I : Type) where
  links : ReadyLinks I := {}
  chaseLevBands : Priority → Deque (Option I) := fun _ => Deque.new (Option I) 6

def kMaxStealRetries : Nat := 3

/-- The steals of one band: again while the answer is `Retry`. -/
def stealRetrying {α : Type} (band : Deque α) (taken : Taken α) : Nat → Taken α × Deque α
  | 0 => (taken, band)
  | retries + 1 =>
    if band.steal.1.1 ≠ .retry then band.steal
    else stealRetrying band.steal.2 band.steal.1 retries

/-- `pop` of the owner, `steal` of a thief. -/
def takeBand {α : Type} (band : Deque α) (owner rebaseFails : Bool) : Taken α × Deque α :=
  if owner then band.pop rebaseFails
  else stealRetrying band (.empty, none) kMaxStealRetries

namespace ChaseLevLocalQueues
variable {I : Type} [DecidableEq I]

/-- `push`; a task the deque refuses stays with the caller. -/
def push (q : ChaseLevLocalQueues I) (task : QueuedTask I) (priority : Priority)
    (growFails rebaseFails : Bool) : Bool × ChaseLevLocalQueues I :=
  let pushed := (q.chaseLevBands priority).push (some task.invoker) growFails rebaseFails
  (pushed.1,
    { links := q.links.write task.invoker none task.isExternal
      chaseLevBands := Function.update q.chaseLevBands priority pushed.2 })

/-- The lambda of `claim_chase_lev`, with the status it returns. -/
def claim (q : ChaseLevLocalQueues I) (calendarIndex : Nat) (owner rebaseFails : Bool)
    (priority : Priority) : DequeResultStatus × LocalClaim I (ChaseLevLocalQueues I) :=
  let taken := takeBand (q.chaseLevBands priority) owner rebaseFails
  let bands := Function.update q.chaseLevBands priority taken.2
  match taken.1.1, taken.1.2.join with
  | .success, some raw =>
    (.success,
      { success := true
        out := some (q.links.task raw)
        calendarIndex := nextCalendarIndex calendarIndex
        queues := ⟨q.links.write raw none false, bands⟩ })
  | .success, none => (.empty, ⟨false, none, calendarIndex, ⟨q.links, bands⟩⟩)
  | status, _ => (status, ⟨false, none, calendarIndex, ⟨q.links, bands⟩⟩)

/-- The loop over `kFallbackPriorityOrder`. -/
def claimFallback (q : ChaseLevLocalQueues I) (calendarIndex : Nat) (owner : Bool)
    (rebaseFails : Priority → Bool) (target : Priority) :
    List Priority → LocalClaim I (ChaseLevLocalQueues I)
  | [] => ⟨false, none, calendarIndex, q⟩
  | priority :: priorities =>
    if priority = target then claimFallback q calendarIndex owner rebaseFails target priorities
    else
      let claimed := q.claim calendarIndex owner (rebaseFails priority) priority
      if claimed.1 = .success ∨ (!owner ∧ claimed.1 = .retry) then claimed.2
      else claimFallback claimed.2.queues calendarIndex owner rebaseFails target priorities

def claimChaseLev (q : ChaseLevLocalQueues I) (calendarIndex : Nat) (owner : Bool)
    (rebaseFails : Priority → Bool) : LocalClaim I (ChaseLevLocalQueues I) :=
  let target := calendarTarget calendarIndex
  let claimed := q.claim calendarIndex owner (rebaseFails target) target
  if claimed.1 = .success ∨ (!owner ∧ claimed.1 = .retry) then claimed.2
  else claimed.2.queues.claimFallback calendarIndex owner rebaseFails target kFallbackPriorityOrder

omit [DecidableEq I] in
def empty (q : ChaseLevLocalQueues I) : Bool :=
  (q.chaseLevBands .low).empty && (q.chaseLevBands .normal).empty &&
    (q.chaseLevBands .high).empty && (q.chaseLevBands .critical).empty

end ChaseLevLocalQueues

/-! ## Sequences of calls -/

/-- A call, with the calendar index it is given by reference and what fails in it. -/
inductive LocalCall (I : Type) where
  | push (task : QueuedTask I) (priority : Priority) (growFails rebaseFails : Bool)
  | claimBack (calendar : Nat) (rebaseFails : Priority → Bool)
  | stealFront (calendar : Nat)
  | empty

/-- A queue with the calendar indices of its owner and of the thieves. -/
structure Calendars (Q : Type) where
  queues : Q
  calendarIndex : Nat → Nat

/-- What a call returns: the flag, the task, and the calendar index it leaves. -/
structure LocalAnswer (I : Type) where
  flag : Bool
  out : Option (QueuedTask I) := none
  calendarIndex : Option Nat := none

/-- A claim with a calendar index passed by reference. -/
def LocalClaim.answer {I Q : Type} (claimed : LocalClaim I Q) (s : Calendars Q) (calendar : Nat) :
    LocalAnswer I × Calendars Q :=
  (⟨claimed.success, claimed.out, some claimed.calendarIndex⟩,
    ⟨claimed.queues, Function.update s.calendarIndex calendar claimed.calendarIndex⟩)

section Calls
variable {I : Type} [DecidableEq I]

omit [DecidableEq I] in
def LockedLocalQueues.call (s : Calendars (LockedLocalQueues I)) :
    LocalCall I → LocalAnswer I × Calendars (LockedLocalQueues I)
  | .push task priority _ _ =>
    let pushed := s.queues.push task priority
    ({ flag := pushed.1 }, { s with queues := pushed.2 })
  | .claimBack calendar _ =>
    (s.queues.chooseLocalBand (s.calendarIndex calendar) true).answer s calendar
  | .stealFront calendar =>
    (s.queues.chooseLocalBand (s.calendarIndex calendar) false).answer s calendar
  | .empty => ({ flag := s.queues.empty }, s)

def ChaseLevLocalQueues.call (s : Calendars (ChaseLevLocalQueues I)) :
    LocalCall I → LocalAnswer I × Calendars (ChaseLevLocalQueues I)
  | .push task priority growFails rebaseFails =>
    let pushed := s.queues.push task priority growFails rebaseFails
    ({ flag := pushed.1 }, { s with queues := pushed.2 })
  | .claimBack calendar rebaseFails =>
    (s.queues.claimChaseLev (s.calendarIndex calendar) true rebaseFails).answer s calendar
  | .stealFront calendar =>
    (s.queues.claimChaseLev (s.calendarIndex calendar) false fun _ => false).answer s calendar
  | .empty => ({ flag := s.queues.empty }, s)

/-- The answers of a sequence of calls. -/
def answers {S C A : Type} (call : S → C → A × S) : S → List C → List A × S
  | s, [] => ([], s)
  | s, c :: cs =>
    let (answer, s) := call s c
    let (rest, s) := answers call s cs
    (answer :: rest, s)

end Calls
end AstraScheduler
