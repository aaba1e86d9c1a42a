import AstraScheduler.ReaperSafety
import AstraScheduler.ShutdownGate

/-! # The startup transaction

The constructor of `Scheduler::Impl` (`src/runtime/scheduler.cpp`), with the workers it
starts, the joins of `reaper_cleanup_and_join`, the callbacks of a finalization and whatever
other runtimes, waits and the coordinator do to the Reaper registry and to the instance table
in the meantime.  Next to the two tables stands what they would be without this
construction: the steps of the others act on both. -/

namespace AstraScheduler.Startup
open Transition (Machine)
open ReaperRegistry (Registry HandoffCapabilitySlot Wait updateSlot takeReady)
open ShutdownGate (Runtime)

/-- Why a construction throws. -/
inductive Failure where
  /-- Registration was closed when the constructor looked, or when it registered. -/
  | finalizationStarted
  | reservationRefused
  | attachThrew
  | reserveThrew
  /-- The creation of the `k`-th worker, counted from one. -/
  | workerCreation (k : Nat)
  | closedBeforeRunning
  deriving DecidableEq, Repr

/-- Where the constructor stands. -/
inductive Pc where
  | registerInstance
  | testOpen
  | register
  | attach
  | reserve
  | create (i : Nat)
  /-- Waiting for `workers_ready`, then looking at the registration. -/
  | await
  | publish
  | returned
  /-- The `catch` block. -/
  | rollback (cause : Failure)
  | cleanup (cause : Failure)
  /-- In `reaper_cleanup_and_join`, as call `c` at the gate. -/
  | cleaning (cause : Failure) (c : Nat)
  | unregister (cause : Failure)
  | unregisterInstance (cause : Failure)
  | threw (cause : Failure)
  deriving DecidableEq, Repr

/-- A worker thread, up to the end of the startup barrier. -/
inductive Worker where
  | starting
  | atBarrier
  | decrementing
  /-- The last worker, before `notify_join_ready`. -/
  | notifying
  | exited
  | running
  deriving DecidableEq, Repr

/-- The two tables a construction enters itself in. -/
structure Tables (κ ρ : Type) where
  slots : List (HandoffCapabilitySlot κ ρ) := []
  registeredIds : List Nat := []
  instances : List RuntimeId := []
  deriving DecidableEq, Repr

/-- `others` are the tables without this construction.  `taken` says that the coordinator
has taken the slot of the runtime and has not run its cleanup yet; `gate` is there from the
first call of `reaper_cleanup_and_join` on. -/
structure Construction (κ ρ : Type) where
  id : RuntimeId
  count : Nat
  traceCollector : Bool
  requestGraceful : κ
  requestImmediate : κ
  cleanupFn : κ
  pc : Pc := .registerInstance
  registry : Registry κ ρ
  instances : List RuntimeId
  others : Tables κ ρ
  workers : List Worker := []
  workersReady : Nat := 0
  activeWorkers : Nat := 0
  startupDone : Bool := false
  startupFailed : Bool := false
  stopRequested : Bool := false
  gate : Option Runtime := none
  taken : Bool := false
  deriving DecidableEq, Repr

/-- What others do to the tables.  Their runtimes have ids of their own. -/
inductive Other (κ ρ : Type) where
  | registerInstance (id : RuntimeId)
  | unregisterInstance (id : RuntimeId)
  | registerRuntime (id : RuntimeId) (graceful immediate cleanup : Option κ)
  | unregisterRuntime (id : RuntimeId)
  | replaceCleanupFn (id : RuntimeId) (cleanup : Option κ)
  | executeWorkerHandoff (id : RuntimeId) (state : Option ρ) (cleanup : Option κ)
  | notifyJoinReady (id : RuntimeId)
  | closeRegistration
  | coordinatorPass
  /-- A locked section of a wait for finalization. -/
  | finalizationWait (wait : Wait) (expired : Bool)
  deriving DecidableEq, Repr

inductive Label (κ ρ : Type) where
  /-- The next step of the constructor; `fails` makes an allocation or the creation of a
  thread throw. -/
  | construct (fails : Bool)
  | worker (i : Nat)
  /-- A callback of a finalization sets `stop_requested`. -/
  | requestStop
  /-- The coordinator calls the cleanup it has taken. -/
  | coordinatorCleanup
  /-- A call at the gate takes a step; the thread of worker `k` can be joined from now on. -/
  | gateStep (c : Nat) (spurious : Bool)
  | gateExit (k : Nat)
  | other (op : Other κ ρ)
  deriving DecidableEq, Repr

variable {κ ρ : Type}

/-- `register_runtime_instance` and `unregister_runtime_instance`. -/
def registerInstance (instances : List RuntimeId) (id : RuntimeId) : List RuntimeId :=
  instances.filter (· ≠ id) ++ [id]

def unregisterInstance (instances : List RuntimeId) (id : RuntimeId) : List RuntimeId :=
  instances.filter (· ≠ id)

namespace Other

def runtime : Other κ ρ → Option RuntimeId
  | .registerInstance id | .unregisterInstance id | .registerRuntime id _ _ _
  | .unregisterRuntime id | .replaceCleanupFn id _ | .executeWorkerHandoff id _ _
  | .notifyJoinReady id => some id
  | .closeRegistration | .coordinatorPass | .finalizationWait _ _ => none

def onRegistry (r : Registry κ ρ) : Other κ ρ → Registry κ ρ
  | .registerInstance _ | .unregisterInstance _ => r
  | .registerRuntime id graceful immediate cleanup =>
    (r.registerRuntime id graceful immediate cleanup).1
  | .unregisterRuntime id => r.unregisterRuntime id
  | .replaceCleanupFn id cleanup => r.replaceCleanupFn id cleanup
  | .executeWorkerHandoff id state cleanup => r.executeWorkerHandoff id state cleanup
  | .notifyJoinReady id => r.notifyJoinReady id
  | .closeRegistration => r.closeRegistration.1
  | .coordinatorPass => r.coordinatorPass.1
  | .finalizationWait wait expired => ((wait.step r expired).map (·.1)).getD r

def isPass : Other κ ρ → Bool
  | .coordinatorPass => true
  | _ => false

def onInstances (instances : List RuntimeId) : Other κ ρ → List RuntimeId
  | .registerInstance id => Startup.registerInstance instances id
  | .unregisterInstance id => Startup.unregisterInstance instances id
  | _ => instances

end Other

/-- A pass of the coordinator takes the slot of a runtime. -/
def passTakes (r : Registry κ ρ) (id : RuntimeId) : Bool :=
  r.coordinatorPass.2.any fun slots => slots.any fun t => t.runtimeId = id

namespace Construction

/-- The registry with the tables as they would be without this construction. -/
def shadow (s : Construction κ ρ) : Registry κ ρ :=
  { s.registry with slots := s.others.slots, registeredIds := s.others.registeredIds }

/-- A step of somebody else. -/
def other (s : Construction κ ρ) (op : Other κ ρ) : Construction κ ρ :=
  let shadow := op.onRegistry s.shadow
  { s with
    registry := op.onRegistry s.registry
    instances := op.onInstances s.instances
    others := {
      slots := shadow.slots
      registeredIds := shadow.registeredIds
      instances := op.onInstances s.others.instances }
    taken := s.taken || (op.isPass && passTakes s.registry s.id) }

/-- The constructor. -/
def construct (s : Construction κ ρ) (fails : Bool) : Option (Construction κ ρ) :=
  match s.pc with
  | .registerInstance =>
    some { s with instances := Startup.registerInstance s.instances s.id, pc := .testOpen }
  | .testOpen =>
    if s.registry.state = .opened then some { s with pc := .register }
    else some { s with pc := .unregisterInstance .finalizationStarted }
  | .register =>
    let out := s.registry.registerRuntime s.id (some s.requestGraceful)
      (some s.requestImmediate) (some s.cleanupFn)
    if out.2 then some { s with registry := out.1, pc := .attach }
    else some { s with pc := .unregisterInstance .reservationRefused }
  | .attach =>
    if s.traceCollector ∧ fails then some { s with pc := .threw .attachThrew }
    else some { s with activeWorkers := s.count, pc := .reserve }
  | .reserve =>
    if fails then some { s with pc := .threw .reserveThrew }
    else some { s with pc := .create 0 }
  | .create i =>
    if i < s.count then
      if fails then some { s with pc := .rollback (.workerCreation (i + 1)) }
      else some { s with workers := s.workers ++ [.starting], pc := .create (i + 1) }
    else some { s with pc := .await }
  | .await =>
    if s.workersReady = s.count then
      if s.registry.state = .opened then some { s with pc := .publish }
      else
        some { s with
          startupFailed := true, stopRequested := true, pc := .rollback .closedBeforeRunning }
    else none
  | .publish => some { s with startupDone := true, pc := .returned }
  | .rollback cause =>
    some { s with startupFailed := true, stopRequested := true, pc := .cleanup cause }
  | .cleanup cause =>
    let r := s.gate.getD (Runtime.started s.workers.length)
    some { s with
      gate := r.next (.call .reaperCleanupAndJoin), pc := .cleaning cause r.calls.length }
  | .cleaning cause c =>
    if (s.gate.bind fun r => r.calls[c]?).any (·.pc = .returned) then
      some { s with pc := .unregister cause }
    else none
  | .unregister cause =>
    some { s with
      registry := s.registry.unregisterRuntime s.id, pc := .unregisterInstance cause }
  | .unregisterInstance cause =>
    some { s with
      instances := Startup.unregisterInstance s.instances s.id, pc := .threw cause }
  | .returned | .threw _ => none

/-- `run_worker_loop` up to the end of the barrier. -/
def workerStep (s : Construction κ ρ) (i : Nat) : Worker → Option (Construction κ ρ)
  | .starting =>
    some { s with
      workersReady := s.workersReady + 1, workers := s.workers.set i .atBarrier }
  | .atBarrier =>
    if s.startupFailed ∨ (¬ s.startupDone ∧ s.stopRequested) then
      some { s with workers := s.workers.set i .decrementing }
    else if s.startupDone then some { s with workers := s.workers.set i .running }
    else none
  | .decrementing =>
    some { s with
      activeWorkers := s.activeWorkers - 1
      workers := s.workers.set i (if s.activeWorkers = 1 then .notifying else .exited) }
  | .notifying =>
    some { s with
      registry := s.registry.notifyJoinReady s.id, workers := s.workers.set i .exited }
  | .exited | .running => none

def next (s : Construction κ ρ) : Label κ ρ → Option (Construction κ ρ)
  | .construct fails => s.construct fails
  | .worker i => s.workers[i]?.bind fun w => s.workerStep i w
  | .requestStop => some { s with stopRequested := true }
  | .coordinatorCleanup =>
    if s.taken then
      let r := s.gate.getD (Runtime.started s.workers.length)
      some { s with gate := r.next (.call .reaperCleanupAndJoin), taken := false }
    else none
  | .gateStep c spurious =>
    s.gate.bind fun r => (r.next (.step c spurious)).map fun r' => { s with gate := some r' }
  | .gateExit k =>
    if s.workers[k]? = some .exited then
      s.gate.bind fun r => (r.next (.workerExit k)).map fun r' => { s with gate := some r' }
    else none
  | .other op => if op.runtime = some s.id then none else some (s.other op)

/-- Before the constructor: the id is new, and only tests stop the coordinator. -/
structure Begins (s : Construction κ ρ) : Prop where
  start : s = {
    id := s.id, count := s.count, traceCollector := s.traceCollector
    requestGraceful := s.requestGraceful, requestImmediate := s.requestImmediate
    cleanupFn := s.cleanupFn, registry := s.registry, instances := s.instances
    others := {
      slots := s.registry.slots, registeredIds := s.registry.registeredIds
      instances := s.instances } }
  slots : ∀ t ∈ s.registry.slots, t.runtimeId ≠ s.id
  ids : s.id.value ∉ s.registry.registeredIds
  instances : s.id ∉ s.instances
  stop : s.registry.coordinatorStop = false

def machine : Machine (Construction κ ρ) (Label κ ρ) where
  init := Begins
  next := next

/-- The tables are what they would be without the construction, and no worker is left. -/
structure RolledBack (s : Construction κ ρ) : Prop where
  slots : s.registry.slots = s.others.slots
  ids : s.registry.registeredIds = s.others.registeredIds
  instances : s.instances = s.others.instances
  workers : ∀ w ∈ s.workers, w = .exited

/-- **The transaction.**  A construction that has thrown has been rolled back. -/
def Transactional (s : Construction κ ρ) : Prop :=
  ∀ cause, s.pc = .threw cause → s.RolledBack

/-- The step is not a failure before the block that rolls back: the trace collector is
attached and the vector of workers reserved without an exception. -/
def InsideTry (s : Construction κ ρ) : Label κ ρ → Prop
  | .construct true => (s.pc = .attach → s.traceCollector = false) ∧ s.pc ≠ .reserve
  | _ => True

instance decidableInsideTry (s : Construction κ ρ) (a : Label κ ρ) :
    Decidable (s.InsideTry a) := by
  unfold InsideTry
  split <;> infer_instance

end Construction

/-! ## The slots of some of the runtimes -/

/-- The slots of the runtimes that satisfy `p`. -/
def slotsOf (p : RuntimeId → Bool) (slots : List (HandoffCapabilitySlot κ ρ)) :
    List (HandoffCapabilitySlot κ ρ) :=
  slots.filter fun t => p t.runtimeId

/-- All runtimes but one, and that one. -/
def but (id : RuntimeId) : RuntimeId → Bool := fun i => !decide (i = id)

def only (id : RuntimeId) : RuntimeId → Bool := fun i => decide (i = id)

def idsBut (id : RuntimeId) (ids : List Nat) : List Nat := ids.filter fun v => !decide (v = id.value)

section
variable {id other : RuntimeId} {f : HandoffCapabilitySlot κ ρ → HandoffCapabilitySlot κ ρ}
  {p : RuntimeId → Bool}

theorem slotsOf_cons_pos {t : HandoffCapabilitySlot κ ρ} (ht : p t.runtimeId = true)
    (ts : List (HandoffCapabilitySlot κ ρ)) : slotsOf p (t :: ts) = t :: slotsOf p ts :=
  List.filter_cons_of_pos ht

theorem slotsOf_cons_neg {t : HandoffCapabilitySlot κ ρ} (ht : ¬ p t.runtimeId = true)
    (ts : List (HandoffCapabilitySlot κ ρ)) : slotsOf p (t :: ts) = slotsOf p ts :=
  List.filter_cons_of_neg ht

theorem slotsOf_append (a b : List (HandoffCapabilitySlot κ ρ)) :
    slotsOf p (a ++ b) = slotsOf p a ++ slotsOf p b :=
  List.filter_append ..

theorem slotsOf_but_eq {slots : List (HandoffCapabilitySlot κ ρ)}
    (h : ∀ t ∈ slots, t.runtimeId ≠ id) : slotsOf (but id) slots = slots :=
  List.filter_eq_self.mpr fun t ht => by simpa [but] using h t ht

theorem mem_slotsOf_only {slots : List (HandoffCapabilitySlot κ ρ)}
    {t : HandoffCapabilitySlot κ ρ} :
    t ∈ slotsOf (only id) slots ↔ t ∈ slots ∧ t.runtimeId = id := by
  simp [slotsOf, only]

/-- `updateSlot` seen by the runtimes of `p`. -/
theorem slotsOf_updateSlot (hf : ∀ t, (f t).runtimeId = t.runtimeId)
    (slots : List (HandoffCapabilitySlot κ ρ)) :
    slotsOf p (updateSlot other f slots) =
      if p other then updateSlot other f (slotsOf p slots) else slotsOf p slots := by
  induction slots with
  | nil => cases p other <;> rfl
  | cons t ts ih =>
    by_cases ht : t.runtimeId = other
    · subst ht
      rw [updateSlot, if_pos rfl]
      by_cases hp : p t.runtimeId = true
      · rw [if_pos hp, slotsOf_cons_pos hp, slotsOf_cons_pos (by rw [hf]; exact hp), updateSlot,
          if_pos rfl]
      · rw [if_neg hp, slotsOf_cons_neg hp, slotsOf_cons_neg (by rw [hf]; exact hp)]
    · rw [updateSlot, if_neg ht]
      by_cases hp : p t.runtimeId = true
      · rw [slotsOf_cons_pos hp, slotsOf_cons_pos hp, ih, updateSlot, if_neg ht]
        cases p other <;> rfl
      · rw [slotsOf_cons_neg hp, slotsOf_cons_neg hp, ih]

/-- `unregister_runtime` seen by the runtimes of `p`. -/
theorem slotsOf_eraseP (slots : List (HandoffCapabilitySlot κ ρ)) :
    slotsOf p (slots.eraseP fun t => decide (t.runtimeId = other)) =
      if p other then (slotsOf p slots).eraseP fun t => decide (t.runtimeId = other)
      else slotsOf p slots := by
  induction slots with
  | nil => cases p other <;> rfl
  | cons t ts ih =>
    by_cases ht : t.runtimeId = other
    · subst ht
      rw [List.eraseP_cons_of_pos (by simp)]
      by_cases hp : p t.runtimeId = true
      · rw [if_pos hp, slotsOf_cons_pos hp, List.eraseP_cons_of_pos (by simp)]
      · rw [if_neg hp, slotsOf_cons_neg hp]
    · rw [List.eraseP_cons_of_neg (by simpa using ht)]
      by_cases hp : p t.runtimeId = true
      · rw [slotsOf_cons_pos hp, slotsOf_cons_pos hp, ih]
        split
        · rw [List.eraseP_cons_of_neg (by simpa using ht)]
        · rfl
      · rw [slotsOf_cons_neg hp, slotsOf_cons_neg hp, ih]

theorem idsBut_eq {ids : List Nat} (h : id.value ∉ ids) : idsBut id ids = ids :=
  List.filter_eq_self.mpr fun v hv => by
    simp only [Bool.not_eq_true', decide_eq_false_iff_not]
    rintro rfl
    exact h hv

theorem idsBut_cons_self (ids : List Nat) : idsBut id (id.value :: ids) = idsBut id ids := by
  simp [idsBut]

theorem idsBut_cons {v : Nat} (hv : v ≠ id.value) (ids : List Nat) :
    idsBut id (v :: ids) = v :: idsBut id ids := by
  simp [idsBut, hv]

theorem idsBut_erase_self (ids : List Nat) : idsBut id (ids.erase id.value) = idsBut id ids := by
  induction ids with
  | nil => rfl
  | cons v vs ih =>
    by_cases hv : v = id.value
    · rw [hv, List.erase_cons_head, idsBut_cons_self]
    · rw [List.erase_cons_tail (by simpa using hv), idsBut_cons hv, idsBut_cons hv, ih]

theorem idsBut_erase {v : Nat} (hne : v ≠ id.value) (ids : List Nat) :
    idsBut id (ids.erase v) = (idsBut id ids).erase v := by
  induction ids with
  | nil => rfl
  | cons w ws ih =>
    by_cases hw : w = v
    · rw [hw, List.erase_cons_head, idsBut_cons hne, List.erase_cons_head]
    · rw [List.erase_cons_tail (by simpa using hw)]
      by_cases hid : w = id.value
      · rw [hid, idsBut_cons_self, idsBut_cons_self, ih]
      · rw [idsBut_cons hid, idsBut_cons hid, List.erase_cons_tail (by simpa using hw), ih]

/-- The coordinator's loop takes from the others what it would take without the runtime. -/
theorem but_takeReady (state : ReaperRegistry.RegistrationState)
    (slots : List (HandoffCapabilitySlot κ ρ)) (ids : List Nat) :
    slotsOf (but id) (takeReady state slots ids).2.1 =
        (takeReady state (slotsOf (but id) slots) (idsBut id ids)).2.1 ∧
      idsBut id (takeReady state slots ids).2.2 =
        (takeReady state (slotsOf (but id) slots) (idsBut id ids)).2.2 := by
  induction slots generalizing ids with
  | nil => exact ⟨rfl, rfl⟩
  | cons t ts ih =>
    by_cases hid : t.runtimeId = id
    · have hp : ¬ but id t.runtimeId = true := by simp [but, hid]
      rw [slotsOf_cons_neg hp]
      by_cases he : t.eligible state
      · simp only [takeReady, he, if_true, hid]
        have h := ih (ids.erase id.value)
        rwa [idsBut_erase_self] at h
      · simp only [takeReady, he, Bool.false_eq_true, if_false, slotsOf_cons_neg hp]
        exact ih ids
    · have hp : but id t.runtimeId = true := by simp [but, hid]
      have hvalue : t.runtimeId.value ≠ id.value := fun h => hid (RuntimeId.value_injective h)
      rw [slotsOf_cons_pos hp]
      by_cases he : t.eligible state
      · simp only [takeReady, he, if_true]
        have h := ih (ids.erase t.runtimeId.value)
        rwa [idsBut_erase hvalue] at h
      · simp only [takeReady, he, Bool.false_eq_true, if_false, slotsOf_cons_pos hp]
        exact ⟨congrArg _ (ih ids).1, (ih ids).2⟩

theorem takeReady_ids_sublist (state : ReaperRegistry.RegistrationState)
    (slots : List (HandoffCapabilitySlot κ ρ)) (ids : List Nat) :
    (takeReady state slots ids).2.2.Sublist ids := by
  induction slots generalizing ids with
  | nil => exact List.Sublist.refl ids
  | cons t ts ih =>
    unfold takeReady
    split
    · exact (ih _).trans List.erase_sublist
    · exact ih ids

/-- As long as nothing stops it, a pass leaves in the tables what the loop leaves there: the
coordinator goes out of its loop over empty tables. -/
theorem coordinatorPass_tables {r : Registry κ ρ} (hstop : r.coordinatorStop = false) :
    r.coordinatorPass.1.slots = (takeReady r.state r.slots r.registeredIds).2.1 ∧
      r.coordinatorPass.1.registeredIds = (takeReady r.state r.slots r.registeredIds).2.2 := by
  unfold Registry.coordinatorPass
  split
  · rename_i hleave
    have hdrained : r.drained = true := by simpa [hstop] using hleave
    have hslots : r.slots = [] := by
      simp only [Registry.drained, Bool.and_eq_true, List.isEmpty_iff] at hdrained
      exact hdrained.1.2
    simp [hslots, takeReady]
  · exact ⟨rfl, rfl⟩

theorem registerRuntime_tables (r : Registry κ ρ) (id : RuntimeId)
    (graceful immediate cleanup : Option κ) :
    (r.registerRuntime id graceful immediate cleanup).1.slots = r.slots ++
      (if r.state = .opened then
        [{ runtimeId := id, requestGracefulFn := graceful, requestImmediateFn := immediate,
           cleanupFn := cleanup }] else []) ∧
    (r.registerRuntime id graceful immediate cleanup).1.registeredIds = r.registeredIds ++
      (if r.state = .opened then [id.value] else []) ∧
    (r.coordinatorStop = false →
      (r.registerRuntime id graceful immediate cleanup).1.coordinatorStop = false) := by
  unfold Registry.registerRuntime
  by_cases hopen : r.state = .opened
  · simp only [hopen, ne_eq, not_true_eq_false, if_false, if_true]
    unfold Registry.ensureCoordinatorStarted
    split
    · exact ⟨rfl, rfl, fun hstop => hstop⟩
    · exact ⟨rfl, rfl, fun _ => rfl⟩
  · simp [hopen]

/-- What a step of somebody else does to the tables: to the entries of the others what it
does without the runtime; the entry of the runtime is at most taken by the coordinator. -/
structure Aside (id : RuntimeId) (op : Other κ ρ) (r : Registry κ ρ) : Prop where
  slots : slotsOf (but id) (op.onRegistry r).slots =
    (op.onRegistry { r with
      slots := slotsOf (but id) r.slots, registeredIds := idsBut id r.registeredIds }).slots
  ids : idsBut id (op.onRegistry r).registeredIds =
    (op.onRegistry { r with
      slots := slotsOf (but id) r.slots
      registeredIds := idsBut id r.registeredIds }).registeredIds
  stop : (op.onRegistry r).coordinatorStop = false
  own : slotsOf (only id) (op.onRegistry r).slots =
    if op.isPass then (slotsOf (only id) r.slots).filter (!·.eligible r.state)
    else slotsOf (only id) r.slots
  count : (op.onRegistry r).registeredIds.count id.value ≤ r.registeredIds.count id.value

/-- A section that leaves the tables alone. -/
theorem Aside.of_keeps {op : Other κ ρ} {r : Registry κ ρ} (hstop : r.coordinatorStop = false)
    (hpass : op.isPass = false)
    (hkeeps : ∀ r : Registry κ ρ, ReaperRegistry.Keeps r (op.onRegistry r)) : Aside id op r where
  slots := by rw [(hkeeps r).slots, (hkeeps _).slots]
  ids := by rw [(hkeeps r).ids, (hkeeps _).ids]
  stop := (hkeeps r).stop.trans hstop
  own := by rw [hpass, (hkeeps r).slots]; rfl
  count := by rw [(hkeeps r).ids]

/-- A section that changes the first slot of another runtime. -/
theorem Aside.of_update {op : Other κ ρ} {r : Registry κ ρ} (hstop : r.coordinatorStop = false)
    (hpass : op.isPass = false)
    (hop : ∀ r : Registry κ ρ, op.onRegistry r = { r with slots := updateSlot other f r.slots })
    (hne : other ≠ id) (hf : ∀ t, (f t).runtimeId = t.runtimeId) : Aside id op r where
  slots := by rw [hop, hop, slotsOf_updateSlot hf, if_pos (by simpa [but] using hne)]
  ids := by rw [hop, hop]
  stop := by rw [hop]; exact hstop
  own := by
    rw [hpass, hop, slotsOf_updateSlot hf, if_neg (by simpa [only] using hne)]
    rfl
  count := by rw [hop]

theorem aside {op : Other κ ρ} {r : Registry κ ρ} (hstop : r.coordinatorStop = false)
    (hne : op.runtime ≠ some id) : Aside id op r := by
  have hid : ∀ {i : RuntimeId}, op.runtime = some i → i ≠ id := by
    rintro i hi rfl
    exact hne hi
  cases op with
  | registerInstance i => exact .of_keeps hstop rfl fun r => .refl r
  | unregisterInstance i => exact .of_keeps hstop rfl fun r => .refl r
  | replaceCleanupFn i cleanup =>
    exact .of_update hstop rfl (fun r => rfl) (hid rfl) fun t => rfl
  | executeWorkerHandoff i state cleanup =>
    exact .of_update hstop rfl (fun r => rfl) (hid rfl) fun t => rfl
  | notifyJoinReady i => exact .of_update hstop rfl (fun r => rfl) (hid rfl) fun t => rfl
  | closeRegistration => exact .of_keeps hstop rfl fun r => .closeRegistration r
  | finalizationWait wait expired =>
    refine .of_keeps hstop rfl fun r => ?_
    simp only [Other.onRegistry]
    cases hs : wait.step r expired with
    | none => exact .refl r
    | some out => exact .waitStep hs
  | unregisterRuntime i =>
    have hi := hid rfl
    have hvalue : i.value ≠ id.value := fun h => hi (RuntimeId.value_injective h)
    refine ⟨?_, ?_, hstop, ?_, ?_⟩
    · exact (slotsOf_eraseP r.slots).trans (if_pos (by simpa [but] using hi))
    · exact idsBut_erase hvalue r.registeredIds
    · exact (slotsOf_eraseP r.slots).trans (if_neg (by simpa [only] using hi))
    · exact (List.erase_sublist (l := r.registeredIds)).count_le _
  | registerRuntime i graceful immediate cleanup =>
    have hi := hid rfl
    have hvalue : i.value ≠ id.value := fun h => hi (RuntimeId.value_injective h)
    obtain ⟨hslots, hids, hkept⟩ := registerRuntime_tables r i graceful immediate cleanup
    obtain ⟨hslots', hids', -⟩ := registerRuntime_tables { r with
      slots := slotsOf (but id) r.slots, registeredIds := idsBut id r.registeredIds }
      i graceful immediate cleanup
    refine ⟨?_, ?_, hkept hstop, ?_, ?_⟩
    · simp only [Other.onRegistry]
      rw [hslots, hslots', slotsOf_append]
      congr 1
      split
      · exact slotsOf_cons_pos (by simpa [but] using hi) []
      · rfl
    · simp only [Other.onRegistry]
      rw [hids, hids', idsBut, List.filter_append]
      congr 1
      split <;> simp [hvalue]
    · simp only [Other.onRegistry, Other.isPass, Bool.false_eq_true, if_false]
      rw [hslots, slotsOf_append]
      split
      · rw [slotsOf_cons_neg (by simpa [only] using hi)]
        exact List.append_nil _
      · exact List.append_nil _
    · simp only [Other.onRegistry]
      rw [hids]
      split <;> simp [hvalue]
  | coordinatorPass =>
    obtain ⟨hslots, hids⟩ := coordinatorPass_tables hstop
    obtain ⟨hslots', hids'⟩ := coordinatorPass_tables (r := { r with
      slots := slotsOf (but id) r.slots, registeredIds := idsBut id r.registeredIds }) hstop
    have hbut := @but_takeReady κ ρ id r.state r.slots r.registeredIds
    refine ⟨?_, ?_, ?_, ?_, ?_⟩
    · exact (congrArg _ hslots).trans (hbut.1.trans hslots'.symm)
    · exact (congrArg _ hids).trans (hbut.2.trans hids'.symm)
    · simp only [Other.onRegistry, Registry.coordinatorPass]
      split <;> exact hstop
    · simp only [Other.onRegistry, Other.isPass, if_true]
      rw [hslots, ReaperRegistry.takeReady_kept]
      simp only [slotsOf, List.filter_filter, Bool.and_comm]
    · simp only [Other.onRegistry]
      rw [hids]
      exact (takeReady_ids_sublist ..).count_le _

end

end AstraScheduler.Startup
