import AstraScheduler.Status
import AstraScheduler.Transition
import Mathlib.Data.List.Nodup

/-! # The Reaper registry and its callers

`ReaperRegistry` (lifecycle/reaper_registry): the slot table, the list of registered ids,
the registration state and the coordinator thread.  Every section the code runs under
`mutex_` is a function on `Registry`; the machine at the end interleaves these sections,
the coordinator's passes, the waits for finalization and the lifecycle callbacks, which
are copied under the mutex and called after it is released.

`std::function<void()>` is a parameter `κ` and the type behind `shared_ptr<void>` is a
parameter `ρ`; `none` is the empty function and the null pointer.  The metrics counters,
the time anchors and the fault injections of the tests are left out. -/

namespace AstraScheduler.ReaperRegistry

/-- `RegistrationState` (reaper_registry.hpp). -/
inductive RegistrationState where
  | opened
  | finalizing
  | finalized
  deriving DecidableEq, Repr

/-- The value of a `RegistrationState` enumerator. -/
def RegistrationState.rank : RegistrationState → Nat
  | .opened => 0
  | .finalizing => 1
  | .finalized => 2

/-- `HandoffCapabilitySlot`. -/
structure HandoffCapabilitySlot (κ ρ : Type) where
  runtimeId : RuntimeId
  handoffExecuted : Bool := false
  joinReady : Bool := false
  joinClaimed : Bool := false
  retainedState : Option ρ := none
  cleanupFn : Option κ := none
  requestGracefulFn : Option κ := none
  requestImmediateFn : Option κ := none
  deriving DecidableEq, Repr

/-- `ReadyWork`: what the coordinator takes out of a slot. -/
structure ReadyWork (κ ρ : Type) where
  runtimeId : RuntimeId
  cleanupFn : Option κ
  retainedState : Option ρ
  deriving DecidableEq, Repr

/-- The members of `ReaperRegistry` that `mutex_` protects.  `coordinatorThread` says that
the pointer `coordinator_thread_` is not null. -/
structure Registry (κ ρ : Type) where
  state : RegistrationState := .opened
  registeredIds : List Nat := []
  slots : List (HandoffCapabilitySlot κ ρ) := []
  coordinatorThread : Bool := false
  coordinatorStop : Bool := false
  coordinatorExited : Bool := false
  coordinatorJoinInProgress : Bool := false
  deriving DecidableEq, Repr

variable {κ ρ : Type}

def HandoffCapabilitySlot.readyWork (s : HandoffCapabilitySlot κ ρ) : ReadyWork κ ρ where
  runtimeId := s.runtimeId
  cleanupFn := s.cleanupFn
  retainedState := s.retainedState

/-- The copy of a callback, with the runtime whose `this` it captures. -/
def HandoffCapabilitySlot.graceful (s : HandoffCapabilitySlot κ ρ) : Option (RuntimeId × κ) :=
  s.requestGracefulFn.map fun f => (s.runtimeId, f)

def HandoffCapabilitySlot.immediate (s : HandoffCapabilitySlot κ ρ) : Option (RuntimeId × κ) :=
  s.requestImmediateFn.map fun f => (s.runtimeId, f)

/-- The test of `has_join_ready_slot_locked` and of the coordinator's loop over the slots. -/
def HandoffCapabilitySlot.eligible (state : RegistrationState) (s : HandoffCapabilitySlot κ ρ) :
    Bool :=
  (s.handoffExecuted || decide (state = .finalizing)) && s.joinReady && !s.joinClaimed

/-- The first slot of a runtime is changed. -/
def updateSlot (id : RuntimeId) (f : HandoffCapabilitySlot κ ρ → HandoffCapabilitySlot κ ρ) :
    List (HandoffCapabilitySlot κ ρ) → List (HandoffCapabilitySlot κ ρ)
  | [] => []
  | s :: ss => if s.runtimeId = id then f s :: ss else s :: updateSlot id f ss

/-- The coordinator's loop over the slots: what it takes, the slots that stay, and the ids
that stay. -/
def takeReady (state : RegistrationState) :
    List (HandoffCapabilitySlot κ ρ) → List Nat →
      List (HandoffCapabilitySlot κ ρ) × List (HandoffCapabilitySlot κ ρ) × List Nat
  | [], ids => ([], [], ids)
  | s :: ss, ids =>
    if s.eligible state then
      let rest := takeReady state ss (ids.erase s.runtimeId.value)
      (s :: rest.1, rest.2)
    else
      let rest := takeReady state ss ids
      (rest.1, s :: rest.2.1, rest.2.2)

namespace Registry

/-- `ensure_coordinator_started_locked`. -/
def ensureCoordinatorStarted (r : Registry κ ρ) : Registry κ ρ :=
  if r.coordinatorThread then r
  else { r with coordinatorStop := false, coordinatorExited := false, coordinatorThread := true }

/-- `register_runtime`. -/
def registerRuntime (r : Registry κ ρ) (id : RuntimeId) (graceful immediate cleanup : Option κ) :
    Registry κ ρ × Bool :=
  if r.state ≠ .opened then (r, false)
  else
    let r := r.ensureCoordinatorStarted
    let slot : HandoffCapabilitySlot κ ρ :=
      { runtimeId := id, requestGracefulFn := graceful, requestImmediateFn := immediate,
        cleanupFn := cleanup }
    ({ r with slots := r.slots ++ [slot], registeredIds := r.registeredIds ++ [id.value] }, true)

/-- `unregister_runtime`. -/
def unregisterRuntime (r : Registry κ ρ) (id : RuntimeId) : Registry κ ρ :=
  { r with
    registeredIds := r.registeredIds.erase id.value
    slots := r.slots.eraseP fun s => decide (s.runtimeId = id) }

/-- `replace_cleanup_fn`. -/
def replaceCleanupFn (r : Registry κ ρ) (id : RuntimeId) (cleanup : Option κ) : Registry κ ρ :=
  { r with slots := updateSlot id (fun s => { s with cleanupFn := cleanup }) r.slots }

/-- `execute_worker_handoff`. -/
def executeWorkerHandoff (r : Registry κ ρ) (id : RuntimeId) (state : Option ρ)
    (cleanup : Option κ) : Registry κ ρ :=
  { r with
    slots := updateSlot id (fun s =>
      { s with handoffExecuted := true, retainedState := state, cleanupFn := cleanup }) r.slots }

/-- `notify_join_ready`. -/
def notifyJoinReady (r : Registry κ ρ) (id : RuntimeId) : Registry κ ρ :=
  { r with slots := updateSlot id (fun s => { s with joinReady := true }) r.slots }

/-- `mark_finalized_locked`. -/
def markFinalized (r : Registry κ ρ) : Registry κ ρ := { r with state := .finalized }

/-- The locked section of `close_registration`, with the callbacks it copies. -/
def closeRegistration (r : Registry κ ρ) : Registry κ ρ × List (RuntimeId × κ) :=
  if r.state = .opened then
    (if r.registeredIds.isEmpty && !r.coordinatorThread then r.markFinalized
     else { r with state := .finalizing },
     r.slots.filterMap (·.graceful))
  else (r, [])

/-- The locked section of `request_all_immediate`. -/
def immediateCallbacks (r : Registry κ ρ) : List (RuntimeId × κ) :=
  r.slots.filterMap (·.immediate)

/-- `has_join_ready_slot_locked`. -/
def hasJoinReadySlot (r : Registry κ ρ) : Bool := r.slots.any (·.eligible r.state)

/-- The coordinator's test for leaving its loop. -/
def drained (r : Registry κ ρ) : Bool :=
  decide (r.state = .finalizing) && r.slots.isEmpty && r.registeredIds.isEmpty

/-- The predicate of the coordinator's wait. -/
def coordinatorWakes (r : Registry κ ρ) : Bool :=
  r.coordinatorStop || r.hasJoinReadySlot || r.drained

/-- One turn of the coordinator's loop up to the unlock: it leaves the loop (`none`), or it
takes the eligible slots. -/
def coordinatorPass (r : Registry κ ρ) :
    Registry κ ρ × Option (List (HandoffCapabilitySlot κ ρ)) :=
  if (r.coordinatorStop && !r.hasJoinReadySlot) || r.drained then
    ({ r with coordinatorExited := true }, none)
  else
    let out := takeReady r.state r.slots r.registeredIds
    ({ r with slots := out.2.1, registeredIds := out.2.2 }, some out.1)

/-- The test of the waits: the coordinator has left its loop over an empty registry. -/
def reclaimable (r : Registry κ ρ) : Bool :=
  r.coordinatorExited && r.registeredIds.isEmpty && r.slots.isEmpty

/-- The locked section of `try_join_exited_coordinator_locked` before the join; `none` when
it returns false. -/
def tryJoinExitedCoordinator (r : Registry κ ρ) : Option (Registry κ ρ) :=
  if r.state = .finalized ∨ ¬ r.coordinatorExited ∨ ¬ r.registeredIds.isEmpty ∨
      ¬ r.slots.isEmpty ∨ r.coordinatorJoinInProgress then none
  else some { r with coordinatorJoinInProgress := true, coordinatorThread := false }

/-- Its locked section after the join. -/
def finishJoin (r : Registry κ ρ) : Registry κ ρ :=
  { r.markFinalized with coordinatorJoinInProgress := false }

end Registry

/-! ## The waits for finalization -/

/-- `wait_finalization` and `wait_finalization_for`, the latter with or without a positive
timeout. -/
inductive WaitCall where
  | wait
  | waitFor (positive : Bool)
  deriving DecidableEq, Repr

/-- Where a wait stands. -/
inductive WaitPc where
  /-- Before its lock; `onWorker` when a worker thread calls it. -/
  | entering (onWorker : Bool)
  /-- In `finalization_cv_.wait` until Finalized or until the coordinator can be joined. -/
  | parked
  /-- In `finalization_cv_.wait` until Finalized, while another thread joins. -/
  | parkedFinal
  /-- Unlocked, joining the thread object it has moved out, if that was not null. -/
  | joining (coordinator : Bool)
  /-- Joined; before its second lock. -/
  | joined
  /-- `std::logic_error`. -/
  | threw
  /-- Returned; `completed` is false for `TimedOut`. -/
  | returned (completed : Bool)
  deriving DecidableEq, Repr

structure Wait where
  call : WaitCall
  pc : WaitPc
  deriving DecidableEq, Repr

namespace Registry

/-- `Completed` if the registry is Finalized, else `TimedOut`. -/
def report (r : Registry κ ρ) : WaitPc := .returned (decide (r.state = .finalized))

/-- A wait that has seen the coordinator's exit joins it, or else does what `otherwise`
says. -/
def joinOr (r : Registry κ ρ) (otherwise : WaitPc) : Registry κ ρ × WaitPc :=
  match r.tryJoinExitedCoordinator with
  | some r' => (r', .joining r.coordinatorThread)
  | none => (r, otherwise)

/-- `wait_finalization` from the head of its loop to the next release of the lock. -/
def waitFinalization (r : Registry κ ρ) : Registry κ ρ × WaitPc :=
  if r.state = .finalized then (r, .returned true)
  else if ¬ r.coordinatorThread then (r.markFinalized, .returned true)
  else if r.reclaimable then r.joinOr .parkedFinal
  else (r, .parked)

/-- The loop of `wait_finalization_for_impl`, from its head to the next release of the lock;
`expired` says whether the clock has reached the deadline. -/
def waitFinalizationForLoop (r : Registry κ ρ) (expired : Bool) : Registry κ ρ × WaitPc :=
  if r.state = .finalized then (r, .returned true)
  else if r.reclaimable then r.joinOr .parkedFinal
  else if expired then (r, r.report)
  else (r, .parked)

/-- `wait_finalization_for_impl` from its lock to the next release of it. -/
def waitFinalizationFor (r : Registry κ ρ) (positive expired : Bool) : Registry κ ρ × WaitPc :=
  if r.state = .finalized then (r, .returned true)
  else if ¬ r.coordinatorThread then (r.markFinalized, .returned true)
  else if ¬ positive then
    if r.reclaimable then r.joinOr r.report else (r, r.report)
  else r.waitFinalizationForLoop expired

/-- The predicate of the first wait on `finalization_cv_`. -/
def finalizationWakes (r : Registry κ ρ) : Bool := decide (r.state = .finalized) || r.reclaimable

end Registry

/-- One locked section of a wait. -/
def Wait.step (r : Registry κ ρ) (w : Wait) (expired : Bool) : Option (Registry κ ρ × WaitPc) :=
  match w.pc, w.call with
  | .entering true, _ => some (r, .threw)
  | .entering false, .wait => some r.waitFinalization
  | .entering false, .waitFor positive => some (r.waitFinalizationFor positive expired)
  | .parked, .wait => if r.finalizationWakes then some r.waitFinalization else none
  | .parked, .waitFor _ =>
    if r.finalizationWakes then some (r.waitFinalizationForLoop expired)
    else if expired then
      -- `wait_until` has returned false; the code tests for the exit once more
      some (if r.reclaimable then r.joinOr .parkedFinal else (r, r.report))
    else none
  | .parkedFinal, .wait => if r.state = .finalized then some (r, .returned true) else none
  | .parkedFinal, .waitFor _ =>
    if r.state = .finalized ∨ expired then some (r, r.report) else none
  | .joined, _ => some (r.finishJoin, .returned true)
  | .joining _, _ | .threw, _ | .returned _, _ => none

/-! ## The process -/

/-- The coordinator thread. -/
inductive Coordinator (κ ρ : Type) where
  | notStarted
  /-- At the head of its loop. -/
  | waiting
  /-- Unlocked, running the cleanups it has taken. -/
  | cleaning (works : List (ReadyWork κ ρ))
  /-- Out of the loop. -/
  | left
  /-- The thread function has returned. -/
  | finished
  | joined
  deriving DecidableEq, Repr

def Coordinator.inLoop : Coordinator κ ρ → Bool
  | .waiting | .cleaning _ => true
  | _ => false

/-- A call of `close_registration` or `request_all_immediate` past its locked section: the
copies it has still to call, and the runtime whose callback it is in. -/
structure Broadcast (κ : Type) where
  pending : List (RuntimeId × κ) := []
  running : Option RuntimeId := none
  deriving DecidableEq, Repr

/-- A use of the `this` a callback has captured: the call begins, or it comes to its end. -/
structure Use where
  runtimeId : RuntimeId
  begins : Bool
  afterUnregister : Bool
  afterDestroy : Bool
  deriving DecidableEq, Repr

/-- The registry and everything that acts on it.  The last fields only record: the ids that
registrations have used, the slots the coordinator has taken (with the registration state of
the pass), the runtimes whose `unregister_runtime` has returned and those whose `Impl` is
destroyed, and the uses of captured pointers. -/
structure Process (κ ρ : Type) where
  registry : Registry κ ρ := {}
  coordinator : Coordinator κ ρ := .notStarted
  waits : List Wait := []
  broadcasts : List (Broadcast κ) := []
  used : List RuntimeId := []
  taken : List (HandoffCapabilitySlot κ ρ × RegistrationState) := []
  unregistered : List RuntimeId := []
  destroyed : List RuntimeId := []
  uses : List Use := []
  deriving DecidableEq, Repr

inductive Label (κ ρ : Type) where
  | registerRuntime (id : RuntimeId) (graceful immediate cleanup : Option κ)
  | unregisterRuntime (id : RuntimeId)
  | replaceCleanupFn (id : RuntimeId) (cleanup : Option κ)
  | executeWorkerHandoff (id : RuntimeId) (state : Option ρ) (cleanup : Option κ)
  | notifyJoinReady (id : RuntimeId)
  | closeRegistration
  | requestAllImmediate
  /-- A broadcast calls its next callback, or the callback it is in returns. -/
  | beginCallback (broadcast : Nat)
  | endCallback (broadcast : Nat)
  /-- The destructor of a runtime's `Impl`. -/
  | destroyImpl (id : RuntimeId)
  | coordinatorPass
  | coordinatorCleanup
  | coordinatorReturn
  | callWait (call : WaitCall) (onWorker : Bool)
  /-- The next locked section of a wait. -/
  | waitStep (wait : Nat) (expired : Bool)
  /-- The join of a wait returns. -/
  | waitJoin (wait : Nat)
  deriving DecidableEq, Repr

namespace Process

def use (s : Process κ ρ) (id : RuntimeId) (begins : Bool) : Use where
  runtimeId := id
  begins := begins
  afterUnregister := decide (id ∈ s.unregistered)
  afterDestroy := decide (id ∈ s.destroyed)

def setWait (s : Process κ ρ) (i : Nat) (w : Wait) : Process κ ρ :=
  { s with waits := s.waits.set i w }

def setBroadcast (s : Process κ ρ) (j : Nat) (b : Broadcast κ) : Process κ ρ :=
  { s with broadcasts := s.broadcasts.set j b }

/-- A registration; the coordinator thread is created when the pointer was null. -/
def registerRuntime (s : Process κ ρ) (id : RuntimeId) (graceful immediate cleanup : Option κ) :
    Process κ ρ :=
  let out := s.registry.registerRuntime id graceful immediate cleanup
  { s with
    registry := out.1
    coordinator :=
      if out.2 ∧ ¬ s.registry.coordinatorThread then .waiting else s.coordinator
    used := id :: s.used }

/-- Only a runtime that was constructed has a call of `unregister_runtime` to record. -/
def unregisterRuntime (s : Process κ ρ) (id : RuntimeId) : Process κ ρ :=
  { s with
    registry := s.registry.unregisterRuntime id
    unregistered := if id ∈ s.used then id :: s.unregistered else s.unregistered }

def closeRegistration (s : Process κ ρ) : Process κ ρ :=
  let out := s.registry.closeRegistration
  { s with
    registry := out.1
    broadcasts := s.broadcasts ++ [{ pending := out.2 }] }

def beginCallback (s : Process κ ρ) (j : Nat) (b : Broadcast κ) : Option (Process κ ρ) :=
  match b.running, b.pending with
  | none, (id, _) :: rest =>
    some { s.setBroadcast j { pending := rest, running := some id } with
      uses := s.use id true :: s.uses }
  | _, _ => none

def endCallback (s : Process κ ρ) (j : Nat) (b : Broadcast κ) : Option (Process κ ρ) :=
  match b.running with
  | some id =>
    some { s.setBroadcast j { b with running := none } with uses := s.use id false :: s.uses }
  | none => none

def coordinatorPass (s : Process κ ρ) : Process κ ρ :=
  let out := s.registry.coordinatorPass
  match out.2 with
  | none => { s with registry := out.1, coordinator := .left }
  | some slots =>
    { s with
      registry := out.1
      coordinator := .cleaning (slots.map (·.readyWork))
      taken := s.taken ++ slots.map fun t => (t, s.registry.state) }

def next (s : Process κ ρ) : Label κ ρ → Option (Process κ ρ)
  | .registerRuntime id graceful immediate cleanup =>
    -- runtime ids are allocated once
    if id ∈ s.used then none else some (s.registerRuntime id graceful immediate cleanup)
  | .unregisterRuntime id => some (s.unregisterRuntime id)
  | .replaceCleanupFn id cleanup =>
    some { s with registry := s.registry.replaceCleanupFn id cleanup }
  | .executeWorkerHandoff id state cleanup =>
    some { s with registry := s.registry.executeWorkerHandoff id state cleanup }
  | .notifyJoinReady id => some { s with registry := s.registry.notifyJoinReady id }
  | .closeRegistration => some s.closeRegistration
  | .requestAllImmediate =>
    some { s with
      broadcasts := s.broadcasts ++ [{ pending := s.registry.immediateCallbacks }] }
  | .beginCallback j => s.broadcasts[j]?.bind (s.beginCallback j)
  | .endCallback j => s.broadcasts[j]?.bind (s.endCallback j)
  | .destroyImpl id =>
    if id ∈ s.used then some { s with destroyed := id :: s.destroyed } else none
  | .coordinatorPass =>
    match s.coordinator with
    | .waiting => if s.registry.coordinatorWakes then some s.coordinatorPass else none
    | _ => none
  | .coordinatorCleanup =>
    match s.coordinator with
    | .cleaning (_ :: works) => some { s with coordinator := .cleaning works }
    | .cleaning [] => some { s with coordinator := .waiting }
    | _ => none
  | .coordinatorReturn =>
    match s.coordinator with
    | .left => some { s with coordinator := .finished }
    | _ => none
  | .callWait call onWorker =>
    some { s with waits := s.waits ++ [⟨call, .entering onWorker⟩] }
  | .waitStep i expired =>
    s.waits[i]?.bind fun w =>
      (w.step s.registry expired).map fun out =>
        { s.setWait i { w with pc := out.2 } with registry := out.1 }
  | .waitJoin i =>
    s.waits[i]?.bind fun w =>
      match w.pc, s.coordinator with
      | .joining false, _ => some (s.setWait i { w with pc := .joined })
      | .joining true, .finished =>
        some { s.setWait i { w with pc := .joined } with coordinator := .joined }
      | _, _ => none

/-- The process before any scheduler is constructed. -/
def machine : Transition.Machine (Process κ ρ) (Label κ ρ) where
  init s := s = {}
  next := next

end Process
end AstraScheduler.ReaperRegistry
