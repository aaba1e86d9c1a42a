import AstraScheduler.ReaperSafety
import AstraScheduler.Threads

/-! # The metrics of the process

`ReaperRegistry` counts what it does: the registrations, handoffs and joins under its mutex,
the calls of `begin_finalization`, the waits that time out and the escalations outside of it.
`process_snapshot` loads the six counters one after the other and then, in one section under
the mutex, the gauges, the state and the times of the finalization.

The counters here are the numbers of what has been counted; the code has them modulo 2^64.
A clock ticks; time 0 is the epoch, which says that a time has not been set.  Of the snapshot
only `schema_version` and `capture_finished_at` are left out. -/

namespace AstraScheduler
namespace ProcessMetrics

open ReaperRegistry
open Transition (Machine)

variable {κ ρ : Type}

/-- `ProcessServiceState`. -/
inductive ProcessServiceState where
  | notStarted
  | active
  | finalizing
  | finalized
  deriving DecidableEq, Repr

def ProcessServiceState.rank : ProcessServiceState → Nat
  | .notStarted => 0
  | .active => 1
  | .finalizing => 2
  | .finalized => 3

/-- `ProcessFinalizationState`. -/
inductive ProcessFinalizationState where
  | notStarted
  | finalizing
  | finalized
  deriving DecidableEq, Repr

/-- The fields of `ProcessMetricsCounters`. -/
inductive Counter where
  | runtimeRegistrations
  | runtimeHandoffs
  | runtimesJoined
  | finalizationBeginCalls
  | finalizationWaitTimeouts
  | finalizationEscalations
  deriving DecidableEq, Repr

/-- The order in which `process_snapshot` loads them. -/
def Counter.loadOrder : List Counter :=
  [.runtimeRegistrations, .runtimeHandoffs, .runtimesJoined, .finalizationBeginCalls,
    .finalizationWaitTimeouts, .finalizationEscalations]

theorem Counter.mem_loadOrder (n : Counter) : n ∈ Counter.loadOrder := by
  cases n <;> decide

/-- `ProcessMetricsGauges`. -/
structure ProcessMetricsGauges where
  registeredRuntimes : Nat
  pendingRuntimes : Nat
  joinReadyRuntimes : Nat
  deriving DecidableEq, Repr

/-- `ProcessMetricsSnapshot`. -/
structure ProcessMetricsSnapshot where
  serviceState : ProcessServiceState
  finalizationState : ProcessFinalizationState
  captureStartedAt : Nat
  finalizationStartedAt : Nat
  finalizationElapsedNs : Nat
  finalizationCompletionDurationNs : Nat
  saturated : Bool
  counters : Counter → UInt64
  gauges : ProcessMetricsGauges

/-- A call of `process_snapshot` before its lock: what it has loaded, and what it has still to
load. -/
structure Capture where
  startedAt : Nat
  counters : Counter → UInt64 := fun _ => 0
  toLoad : List Counter := Counter.loadOrder

/-- The registry, its metrics, and the calls that update them outside of the mutex: of
`begin_finalization` before the lock and after it, of `request_immediate` before the lock, and
of `wait_for` when they have timed out.  `withdrawn` only records, the slots that
`unregister_runtime` has erased, and `snapshots` those taken, in the order of their locks. -/
structure Observed (κ ρ : Type) where
  process : Process κ ρ := {}
  now : Nat := 1
  totals : Counter → Nat := fun _ => 0
  finalizationStartedAt : Nat := 0
  finalizationCompletedAt : Nat := 0
  beginning : Nat := 0
  begun : Nat := 0
  escalating : Nat := 0
  timingOut : Nat := 0
  captures : List Capture := []
  withdrawn : Nat := 0
  snapshots : List ProcessMetricsSnapshot := []

/-- The wait has returned `TimedOut`. -/
def timedOut (w : Wait) : Bool := w.pc = .returned false

namespace Observed

def registry (o : Observed κ ρ) : Registry κ ρ := o.process.registry

/-- The `fetch_add`s of the counters. -/
def count (o : Observed κ ρ) (c : Counter) (n : Nat) : Observed κ ρ :=
  { o with totals := Function.update o.totals c (o.totals c + n) }

/-- `mark_finalization_started_locked`. -/
def markFinalizationStarted (o : Observed κ ρ) : Observed κ ρ :=
  if o.finalizationStartedAt = 0 then { o with finalizationStartedAt := o.now } else o

/-- `mark_finalized_locked`, apart from the state. -/
def markFinalized (o : Observed κ ρ) : Observed κ ρ :=
  let o := o.markFinalizationStarted
  if o.finalizationCompletedAt = 0 then { o with finalizationCompletedAt := o.now } else o

/-- What a step of the registry counts and marks. -/
def record (o : Observed κ ρ) (a : Label κ ρ) (after : Process κ ρ) : Observed κ ρ :=
  let o' := { o with process := after }
  match a with
  | .registerRuntime id graceful immediate cleanup =>
    if (o.registry.registerRuntime id graceful immediate cleanup).2 then
      o'.count .runtimeRegistrations 1
    else o'
  | .unregisterRuntime id =>
    if o.registry.slots.any fun s => decide (s.runtimeId = id) then
      { o' with withdrawn := o.withdrawn + 1 }
    else o'
  | .executeWorkerHandoff id _ _ =>
    if o.registry.slots.any fun s => decide (s.runtimeId = id) then o'.count .runtimeHandoffs 1
    else o'
  | .coordinatorPass =>
    match o.registry.coordinatorPass.2 with
    | none => o'
    | some works => o'.count .runtimesJoined works.length
  | .closeRegistration =>
    let o' := { o' with beginning := o.beginning - 1, begun := o.begun + 1 }
    if o.registry.state = .opened then
      let o' := o'.markFinalizationStarted
      if after.registry.state = .finalized then o'.markFinalized else o'
    else o'
  | .requestAllImmediate => { o' with escalating := o.escalating - 1 }
  | .waitStep i _ =>
    let o' :=
      if after.waits[i]?.any timedOut then { o' with timingOut := o.timingOut + 1 } else o'
    -- a section that has found the registry Finalized finds its times set
    if after.registry.state = .finalized then o'.markFinalized else o'
  | _ => o'

/-- Registration is closed by `begin_finalization`, and a `FinalizationControl`, which it
returns, waits and escalates. -/
def permits (o : Observed κ ρ) : Label κ ρ → Bool
  | .closeRegistration => o.beginning ≠ 0
  | .requestAllImmediate => o.escalating ≠ 0
  | .callWait _ _ => o.begun ≠ 0
  | _ => true

/-- The counter as the code has it. -/
def word (o : Observed κ ρ) (c : Counter) : UInt64 := UInt64.ofNat (o.totals c)

def serviceState (o : Observed κ ρ) : ProcessServiceState :=
  match o.registry.state with
  | .finalizing => .finalizing
  | .finalized => .finalized
  | .opened =>
    if o.registry.coordinatorThread ∨ o.word .runtimeRegistrations ≠ 0 then .active
    else .notStarted

def finalizationState (o : Observed κ ρ) : ProcessFinalizationState :=
  match o.registry.state with
  | .finalizing => .finalizing
  | .finalized => .finalized
  | .opened => .notStarted

def gauges (o : Observed κ ρ) : ProcessMetricsGauges where
  registeredRuntimes := o.registry.registeredIds.length
  joinReadyRuntimes := o.registry.slots.countP fun s => s.joinReady && !s.joinClaimed
  pendingRuntimes := o.registry.slots.countP fun s => !s.joinReady && s.handoffExecuted

/-- `finalization_elapsed_ns` and `finalization_completion_duration_ns`. -/
def durations (o : Observed κ ρ) : Nat × Nat :=
  if o.registry.state = .finalizing ∧ o.finalizationStartedAt ≠ 0 then
    (o.now - o.finalizationStartedAt, 0)
  else if o.registry.state = .finalized ∧ o.finalizationStartedAt ≠ 0 ∧
      o.finalizationCompletedAt ≠ 0 then
    (o.finalizationCompletedAt - o.finalizationStartedAt,
      o.finalizationCompletedAt - o.finalizationStartedAt)
  else (0, 0)

/-- The section of `process_snapshot` under the mutex, and what it does with the counters. -/
def snapshot (o : Observed κ ρ) (c : Capture) : ProcessMetricsSnapshot where
  serviceState := o.serviceState
  finalizationState := o.finalizationState
  captureStartedAt := c.startedAt
  finalizationStartedAt := o.finalizationStartedAt
  finalizationElapsedNs := o.durations.1
  finalizationCompletionDurationNs := o.durations.2
  saturated := Counter.loadOrder.any fun n => c.counters n = UInt64.ofNat (UInt64.size - 1)
  counters := c.counters
  gauges := o.gauges

end Observed

inductive Event (κ ρ : Type) where
  | registry (a : Label κ ρ)
  | tick
  /-- `note_finalization_begin`. -/
  | noteFinalizationBegin
  /-- The first line of `request_all_immediate`. -/
  | countEscalation
  /-- The last lines of `wait_finalization_for`. -/
  | countTimeout
  | callSnapshot
  | loadCounter (capture : Nat)
  | lockSnapshot (capture : Nat)

namespace Observed

def loadCounter (o : Observed κ ρ) (i : Nat) (c : Capture) : Option (Observed κ ρ) :=
  match c.toLoad with
  | [] => none
  | n :: rest =>
    some { o with
      captures := o.captures.set i
        { c with counters := Function.update c.counters n (o.word n), toLoad := rest } }

def lockSnapshot (o : Observed κ ρ) (i : Nat) (c : Capture) : Option (Observed κ ρ) :=
  match c.toLoad with
  | [] =>
    some { o with
      captures := o.captures.eraseIdx i
      snapshots := o.snapshots ++ [o.snapshot c] }
  | _ :: _ => none

def next (o : Observed κ ρ) : Event κ ρ → Option (Observed κ ρ)
  | .registry a => if o.permits a then (Process.next o.process a).map (o.record a) else none
  | .tick => some { o with now := o.now + 1 }
  | .noteFinalizationBegin =>
    some { o.count .finalizationBeginCalls 1 with beginning := o.beginning + 1 }
  | .countEscalation =>
    if o.begun = 0 then none
    else some { o.count .finalizationEscalations 1 with escalating := o.escalating + 1 }
  | .countTimeout =>
    if o.timingOut = 0 then none
    else some { o.count .finalizationWaitTimeouts 1 with timingOut := o.timingOut - 1 }
  | .callSnapshot => some { o with captures := o.captures ++ [{ startedAt := o.now }] }
  | .loadCounter i => o.captures[i]?.bind (o.loadCounter i)
  | .lockSnapshot i => o.captures[i]?.bind (o.lockSnapshot i)

def machine : Machine (Observed κ ρ) (Event κ ρ) where
  init o := o = {}
  next := next

@[simp] theorem count_process (o : Observed κ ρ) (c : Counter) (n : Nat) :
    (o.count c n).process = o.process := rfl

@[simp] theorem count_begun (o : Observed κ ρ) (c : Counter) (n : Nat) :
    (o.count c n).begun = o.begun := rfl

@[simp] theorem count_withdrawn (o : Observed κ ρ) (c : Counter) (n : Nat) :
    (o.count c n).withdrawn = o.withdrawn := rfl

@[simp] theorem count_totals (o : Observed κ ρ) (c d : Counter) (n : Nat) :
    (o.count c n).totals d = if d = c then o.totals c + n else o.totals d :=
  Function.update_apply ..

end Observed

/-! ## The tables -/

theorem updateSlot_length (id : RuntimeId)
    (f : HandoffCapabilitySlot κ ρ → HandoffCapabilitySlot κ ρ)
    (ss : List (HandoffCapabilitySlot κ ρ)) : (updateSlot id f ss).length = ss.length := by
  induction ss with
  | nil => rfl
  | cons s ss ih =>
    unfold updateSlot
    split
    · rfl
    · rw [List.length_cons, List.length_cons, ih]

/-- At most the first slot of the runtime is counted anew. -/
theorem updateSlot_countP_le (id : RuntimeId)
    (f : HandoffCapabilitySlot κ ρ → HandoffCapabilitySlot κ ρ)
    (p : HandoffCapabilitySlot κ ρ → Bool) (ss : List (HandoffCapabilitySlot κ ρ)) :
    (updateSlot id f ss).countP p ≤
      ss.countP p + if ss.any fun s => decide (s.runtimeId = id) then 1 else 0 := by
  induction ss with
  | nil => exact Nat.zero_le _
  | cons s ss ih =>
    unfold updateSlot
    by_cases hs : s.runtimeId = id
    · simp only [hs, if_true, List.countP_cons, List.any_cons, decide_true, Bool.true_or]
      split <;> omega
    · simp only [hs, if_false, List.countP_cons, List.any_cons, decide_false, Bool.false_or]
      omega

theorem updateSlot_countP {id : RuntimeId}
    {f : HandoffCapabilitySlot κ ρ → HandoffCapabilitySlot κ ρ}
    {p : HandoffCapabilitySlot κ ρ → Bool} (hf : ∀ s, p (f s) = p s)
    (ss : List (HandoffCapabilitySlot κ ρ)) :
    (updateSlot id f ss).countP p = ss.countP p := by
  induction ss with
  | nil => rfl
  | cons s ss ih =>
    unfold updateSlot
    split
    · rw [List.countP_cons, List.countP_cons, hf]
    · rw [List.countP_cons, List.countP_cons, ih]

/-- What a step of the registry does to what the metrics are about. -/
inductive Effect (s : Process κ ρ) : Label κ ρ → Process κ ρ → Prop
  | registers (id : RuntimeId) (graceful immediate cleanup : Option κ) :
      Effect s (.registerRuntime id graceful immediate cleanup)
        (s.registerRuntime id graceful immediate cleanup)
  | unregisters (id : RuntimeId) : Effect s (.unregisterRuntime id) (s.unregisterRuntime id)
  | handsOver (id : RuntimeId) (state : Option ρ) (cleanup : Option κ) :
      Effect s (.executeWorkerHandoff id state cleanup)
        { s with registry := s.registry.executeWorkerHandoff id state cleanup }
  | closes : Effect s .closeRegistration s.closeRegistration
  | escalates : Effect s .requestAllImmediate
      { s with broadcasts := s.broadcasts ++ [{ pending := s.registry.immediateCallbacks }] }
  | callsWait (call : WaitCall) (onWorker : Bool) :
      Effect s (.callWait call onWorker)
        { s with waits := s.waits ++ [⟨call, .entering onWorker⟩] }
  | passes : Effect s .coordinatorPass s.coordinatorPass
  | waits {i : Nat} {expired : Bool} {w : Wait} {out : Registry κ ρ × WaitPc}
      (hw : s.waits[i]? = some w) (hout : w.step s.registry expired = some out) :
      Effect s (.waitStep i expired)
        { s.setWait i { w with pc := out.2 } with registry := out.1 }
  | updates {a : Label κ ρ} (id : RuntimeId)
      (f : HandoffCapabilitySlot κ ρ → HandoffCapabilitySlot κ ρ)
      (hf : ∀ slot, (f slot).handoffExecuted = slot.handoffExecuted)
      (hrecord : ∀ (o : Observed κ ρ) (after : Process κ ρ),
        o.record a after = { o with process := after }) :
      Effect s a { s with
        registry := { s.registry with slots := updateSlot id f s.registry.slots } }
  | leaves {a : Label κ ρ} {s' : Process κ ρ} (hregistry : s'.registry = s.registry)
      (htaken : s'.taken = s.taken) (hbroadcasts : s'.broadcasts.length = s.broadcasts.length)
      (hlength : s'.waits.length = s.waits.length)
      (hwaits : s'.waits.countP timedOut = s.waits.countP timedOut)
      (hrecord : ∀ (o : Observed κ ρ) (after : Process κ ρ),
        o.record a after = { o with process := after }) :
      Effect s a s'

variable {s s' : Process κ ρ} {o o' : Observed κ ρ}

theorem effect_of_next {a : Label κ ρ} (hs : Process.next s a = some s') : Effect s a s' := by
  unfold Process.next at hs
  cases a with
  | registerRuntime id graceful immediate cleanup =>
    dsimp only at hs
    split at hs <;> cases hs
    exact .registers id graceful immediate cleanup
  | unregisterRuntime id =>
    cases hs
    exact .unregisters id
  | replaceCleanupFn id cleanup =>
    cases hs
    exact .updates id (fun x => { x with cleanupFn := cleanup }) (fun _ => rfl)
      fun _ _ => rfl
  | notifyJoinReady id =>
    cases hs
    exact .updates id (fun x => { x with joinReady := true }) (fun _ => rfl) fun _ _ => rfl
  | executeWorkerHandoff id state cleanup =>
    cases hs
    exact .handsOver id state cleanup
  | closeRegistration =>
    cases hs
    exact .closes
  | requestAllImmediate =>
    cases hs
    exact .escalates
  | callWait call onWorker =>
    cases hs
    exact .callsWait call onWorker
  | destroyImpl id =>
    dsimp only at hs
    split at hs <;> cases hs
    exact .leaves rfl rfl rfl rfl rfl fun _ _ => rfl
  | beginCallback j =>
    obtain ⟨b, -, hs⟩ := Option.bind_eq_some_iff.mp hs
    unfold Process.beginCallback at hs
    split at hs <;> cases hs
    exact .leaves rfl rfl List.length_set rfl rfl fun _ _ => rfl
  | endCallback j =>
    obtain ⟨b, -, hs⟩ := Option.bind_eq_some_iff.mp hs
    unfold Process.endCallback at hs
    split at hs <;> cases hs
    exact .leaves rfl rfl List.length_set rfl rfl fun _ _ => rfl
  | coordinatorPass =>
    dsimp only at hs
    split at hs
    · split at hs <;> cases hs
      exact .passes
    · cases hs
  | coordinatorCleanup | coordinatorReturn =>
    dsimp only at hs
    split at hs <;> cases hs <;>
      exact .leaves rfl rfl rfl rfl rfl fun _ _ => rfl
  | waitStep i expired =>
    obtain ⟨w, hw, hs⟩ := Option.bind_eq_some_iff.mp hs
    obtain ⟨out, hout, rfl⟩ := Option.map_eq_some_iff.mp hs
    exact .waits hw hout
  | waitJoin i =>
    obtain ⟨w, hw, hs⟩ := Option.bind_eq_some_iff.mp hs
    have hcount (hpc : timedOut w = false) :
        (s.waits.set i { w with pc := .joined }).countP timedOut = s.waits.countP timedOut := by
      have hset := Threads.countP_set timedOut hw { w with pc := .joined }
      have hjoined : timedOut { w with pc := .joined } = false := rfl
      rwa [hpc, hjoined, Nat.add_right_cancel_iff] at hset
    dsimp only at hs
    split at hs
    case h_1 _ _ hpc =>
      cases hs
      exact .leaves rfl rfl rfl List.length_set (hcount (by simp [timedOut, hpc]))
        fun _ _ => rfl
    case h_2 _ _ hpc _ =>
      cases hs
      exact .leaves rfl rfl rfl List.length_set (hcount (by simp [timedOut, hpc]))
        fun _ _ => rfl
    case h_3 => cases hs

/-- A section of a wait leaves the registry alone, or marks it Finalized, or takes the thread of
a coordinator that has left its loop. -/
def Waited (r r' : Registry κ ρ) : Prop :=
  r' = r ∨ r'.state = .finalized ∨ (r.coordinatorExited ∧ r'.state = r.state)

theorem waited_joinOr (r : Registry κ ρ) (otherwise : WaitPc) :
    Waited r (r.joinOr otherwise).1 := by
  unfold Registry.joinOr Registry.tryJoinExitedCoordinator
  split
  case h_1 hjoin =>
    split at hjoin <;> cases hjoin
    exact Or.inr (Or.inr ⟨by simp_all, rfl⟩)
  case h_2 => exact Or.inl rfl

theorem waited_waitFinalization (r : Registry κ ρ) : Waited r r.waitFinalization.1 := by
  unfold Registry.waitFinalization
  split
  · exact Or.inl rfl
  · split
    · exact Or.inr (Or.inl rfl)
    · split
      · exact waited_joinOr r _
      · exact Or.inl rfl

theorem waited_waitFinalizationForLoop (r : Registry κ ρ) (expired : Bool) :
    Waited r (r.waitFinalizationForLoop expired).1 := by
  unfold Registry.waitFinalizationForLoop
  split
  · exact Or.inl rfl
  · split
    · exact waited_joinOr r _
    · split <;> exact Or.inl rfl

theorem waited_waitFinalizationFor (r : Registry κ ρ) (positive expired : Bool) :
    Waited r (r.waitFinalizationFor positive expired).1 := by
  unfold Registry.waitFinalizationFor
  split
  · exact Or.inl rfl
  · split
    · exact Or.inr (Or.inl rfl)
    · split
      · split
        · exact waited_joinOr r _
        · exact Or.inl rfl
      · exact waited_waitFinalizationForLoop r expired

theorem waited_step {r : Registry κ ρ} {w : Wait} {expired : Bool}
    {out : Registry κ ρ × WaitPc} (hout : w.step r expired = some out) : Waited r out.1 := by
  unfold Wait.step at hout
  split at hout
  case h_2 =>
    cases hout
    exact waited_waitFinalization r
  case h_3 =>
    cases hout
    exact waited_waitFinalizationFor r _ expired
  case h_4 =>
    split at hout <;> cases hout
    exact waited_waitFinalization r
  case h_5 =>
    split at hout
    · cases hout
      exact waited_waitFinalizationForLoop r expired
    · split at hout <;> cases hout
      split
      · exact waited_joinOr r _
      · exact Or.inl rfl
  case h_8 =>
    cases hout
    exact Or.inr (Or.inl rfl)
  case h_1 =>
    cases hout
    exact Or.inl rfl
  case h_6 | h_7 =>
    split at hout <;> cases hout
    exact Or.inl rfl
  all_goals cases hout

/-! ## The counters -/

/-- What the counters say of the process: where every registration is, the handoffs and joins,
the calls of `begin_finalization` and of `request_immediate`, and the waits that have timed
out. -/
structure Accounted (o : Observed κ ρ) : Prop where
  registrations : o.totals .runtimeRegistrations =
    o.registry.slots.length + o.totals .runtimesJoined + o.withdrawn
  joined : o.totals .runtimesJoined = o.process.taken.length
  handoffs : o.registry.slots.countP (·.handoffExecuted) +
    o.process.taken.countP (·.1.handoffExecuted) ≤ o.totals .runtimeHandoffs
  registeredFirst : 0 < o.totals .runtimeHandoffs → 0 < o.totals .runtimeRegistrations
  begins : o.totals .finalizationBeginCalls = o.beginning + o.begun
  broadcasts : o.process.broadcasts.length + o.escalating =
    o.begun + o.totals .finalizationEscalations
  timeouts : o.totals .finalizationWaitTimeouts + o.timingOut = o.process.waits.countP timedOut
  begunFirst : o.registry.state ≠ .opened ∨ 0 < o.process.waits.length → 0 < o.begun
  opened : o.registry.state = .opened → o.registry.coordinatorExited = false ∧
    (o.registry.coordinatorThread ↔ 0 < o.totals .runtimeRegistrations)

theorem accounted_init : Accounted ({} : Observed κ ρ) where
  registrations := rfl
  joined := rfl
  handoffs := Nat.le_refl _
  registeredFirst := nofun
  begins := rfl
  broadcasts := rfl
  timeouts := rfl
  begunFirst := by simp [Observed.registry]
  opened _ := ⟨rfl, by simp [Observed.registry]⟩

theorem Accounted.register (h : Accounted o) (id : RuntimeId)
    (graceful immediate cleanup : Option κ) :
    Accounted (o.record (.registerRuntime id graceful immediate cleanup)
      (o.process.registerRuntime id graceful immediate cleanup)) := by
  unfold Observed.record
  by_cases hopen : o.registry.state = .opened
  · obtain ⟨hexited, hthread⟩ := h.opened hopen
    simp only [Observed.registry] at hopen hexited hthread
    have hlength := h.registrations
    by_cases hstarted : o.process.registry.coordinatorThread
    all_goals
      simp only [Observed.registry, Process.registerRuntime, Registry.registerRuntime,
        Registry.ensureCoordinatorStarted, hopen, hstarted, ne_eq, not_true, if_true, if_false,
        Bool.false_eq_true]
      refine ⟨?_, h.joined, ?_, fun _ => ?_, h.begins, h.broadcasts, h.timeouts, ?_, fun _ => ?_⟩
      · simp [Observed.registry] at hlength ⊢
        omega
      · simpa [Observed.registry] using h.handoffs
      · simp
      · simpa [Observed.registry, hopen] using h.begunFirst
      · simp [Observed.registry, hexited]
  · simp only [Observed.registry] at hopen
    simp only [Observed.registry, Process.registerRuntime, Registry.registerRuntime, hopen, ne_eq,
      not_false_eq_true, if_true, Bool.false_eq_true, if_false, false_and]
    exact ⟨h.registrations, h.joined, h.handoffs, h.registeredFirst, h.begins, h.broadcasts,
      h.timeouts, h.begunFirst, h.opened⟩

theorem Accounted.unregister (h : Accounted o) (id : RuntimeId) :
    Accounted (o.record (.unregisterRuntime id) (o.process.unregisterRuntime id)) := by
  have hhandoffs : (o.registry.slots.eraseP fun s => decide (s.runtimeId = id)).countP
      (·.handoffExecuted) ≤ o.registry.slots.countP (·.handoffExecuted) :=
    List.eraseP_sublist.countP_le
  have hlength : (o.registry.slots.eraseP fun s => decide (s.runtimeId = id)).length = _ :=
    List.length_eraseP
  have htotal := h.registrations
  have hless := h.handoffs
  unfold Observed.record
  dsimp only
  split
  case isTrue hany =>
    rw [if_pos hany] at hlength
    have hpos : 0 < o.registry.slots.length := by
      obtain ⟨x, hx, -⟩ := List.any_eq_true.mp hany
      exact List.length_pos_of_mem hx
    refine ⟨?_, h.joined, ?_, h.registeredFirst, h.begins, h.broadcasts, h.timeouts,
      h.begunFirst, h.opened⟩
    · simp only [Observed.registry, Process.unregisterRuntime, Registry.unregisterRuntime] at *
      omega
    · exact Nat.le_trans (Nat.add_le_add_right hhandoffs _) hless
  case isFalse hany =>
    rw [if_neg hany] at hlength
    refine ⟨?_, h.joined, ?_, h.registeredFirst, h.begins, h.broadcasts, h.timeouts,
      h.begunFirst, h.opened⟩
    · simp only [Observed.registry, Process.unregisterRuntime, Registry.unregisterRuntime] at *
      omega
    · exact Nat.le_trans (Nat.add_le_add_right hhandoffs _) hless

theorem Accounted.handOver (h : Accounted o) (id : RuntimeId) (state : Option ρ)
    (cleanup : Option κ) :
    Accounted (o.record (.executeWorkerHandoff id state cleanup)
      { o.process with registry := o.registry.executeWorkerHandoff id state cleanup }) := by
  have hlength := updateSlot_length id
    (fun s => { s with handoffExecuted := true, retainedState := state, cleanupFn := cleanup })
    o.registry.slots
  have hcount := updateSlot_countP_le id
    (fun s => { s with handoffExecuted := true, retainedState := state, cleanupFn := cleanup })
    (·.handoffExecuted) o.registry.slots
  have htotal := h.registrations
  have hless := h.handoffs
  unfold Observed.record
  dsimp only
  split
  case isTrue hany =>
    rw [if_pos hany] at hcount
    have hpos : 0 < o.registry.slots.length := by
      obtain ⟨x, hx, -⟩ := List.any_eq_true.mp hany
      exact List.length_pos_of_mem hx
    refine ⟨?_, h.joined, ?_, fun _ => ?_, h.begins, h.broadcasts, h.timeouts, h.begunFirst,
      h.opened⟩
    · simp [Observed.registry, Registry.executeWorkerHandoff] at *
      omega
    · simp [Observed.registry, Registry.executeWorkerHandoff] at *
      omega
    · simp
      omega
  case isFalse hany =>
    rw [if_neg hany] at hcount
    refine ⟨?_, h.joined, ?_, h.registeredFirst, h.begins, h.broadcasts, h.timeouts,
      h.begunFirst, h.opened⟩
    · simp only [Observed.registry, Registry.executeWorkerHandoff] at *
      omega
    · simp only [Observed.registry, Registry.executeWorkerHandoff] at *
      omega

/-- What the coordinator takes is counted as joined, and is as much handed over as it was. -/
theorem Accounted.pass (h : Accounted o) (hc : Consistent o.process) :
    Accounted (o.record .coordinatorPass o.process.coordinatorPass) := by
  by_cases hdrained : o.process.registry.drained
  · have hnone : o.registry.coordinatorPass.2 = none := by
      simp [Observed.registry, Registry.coordinatorPass, hdrained]
    have hopen : o.registry.state ≠ .opened := fun hopen => by
      simp only [Observed.registry] at hopen
      simp [Registry.drained, hopen] at hdrained
    rw [coordinatorPass_leaves hc.running hdrained]
    unfold Observed.record
    rw [hnone]
    exact ⟨h.registrations, h.joined, h.handoffs, h.registeredFirst, h.begins, h.broadcasts,
      h.timeouts, h.begunFirst, fun he => absurd he hopen⟩
  · have hsome : o.registry.coordinatorPass.2 =
        some (o.registry.slots.filter (·.eligible o.registry.state)) := by
      simp [Observed.registry, Registry.coordinatorPass, hc.running, hdrained, takeReady_taken]
    rw [coordinatorPass_takes hc (by simpa using hdrained)]
    unfold Observed.record
    rw [hsome]
    have hsplit : List.Perm (o.registry.slots.filter (·.eligible o.registry.state) ++
        o.registry.slots.filter (!·.eligible o.registry.state)) o.registry.slots :=
      List.filter_append_perm (·.eligible o.registry.state) o.registry.slots
    have hlength := hsplit.length_eq
    have hcount := hsplit.countP_eq (·.handoffExecuted)
    rw [List.length_append] at hlength
    rw [List.countP_append] at hcount
    have htotal := h.registrations
    have hjoined := h.joined
    have hless := h.handoffs
    refine ⟨?_, ?_, ?_, fun hpos => ?_, h.begins, h.broadcasts, h.timeouts, h.begunFirst,
      fun hopen => ?_⟩
    · simp only [Observed.registry, Observed.count_totals, Observed.count_process,
        Observed.count_withdrawn, reduceCtorEq, if_true, if_false] at *
      omega
    · simp only [Observed.registry, Observed.count_totals, Observed.count_process, if_true,
        List.length_append, List.length_map] at *
      omega
    · have hstates (ss : List (HandoffCapabilitySlot κ ρ)) (state : RegistrationState) :
          (ss.map fun t => (t, state)).countP (·.1.handoffExecuted) =
            ss.countP (·.handoffExecuted) := List.countP_map ..
      simp only [Observed.registry, Observed.count_totals, Observed.count_process,
        reduceCtorEq, if_false, List.countP_append, hstates] at *
      omega
    · exact h.registeredFirst hpos
    · exact h.opened hopen

theorem markFinalizationStarted_eq (o : Observed κ ρ) :
    ∃ started, o.markFinalizationStarted = { o with finalizationStartedAt := started } := by
  unfold Observed.markFinalizationStarted
  split
  · exact ⟨_, rfl⟩
  · exact ⟨_, rfl⟩

theorem markFinalized_eq (o : Observed κ ρ) :
    ∃ started completed, o.markFinalized =
      { o with finalizationStartedAt := started, finalizationCompletedAt := completed } := by
  obtain ⟨started, hstarted⟩ := markFinalizationStarted_eq o
  unfold Observed.markFinalized
  rw [hstarted]
  dsimp only
  split
  · exact ⟨_, _, rfl⟩
  · exact ⟨_, _, rfl⟩

theorem Accounted.markFinalizationStarted (h : Accounted o) :
    Accounted o.markFinalizationStarted := by
  obtain ⟨started, hstarted⟩ := markFinalizationStarted_eq o
  rw [hstarted]
  exact ⟨h.registrations, h.joined, h.handoffs, h.registeredFirst, h.begins, h.broadcasts,
    h.timeouts, h.begunFirst, h.opened⟩

theorem Accounted.markFinalized (h : Accounted o) : Accounted o.markFinalized := by
  obtain ⟨started, completed, hmarked⟩ := markFinalized_eq o
  rw [hmarked]
  exact ⟨h.registrations, h.joined, h.handoffs, h.registeredFirst, h.begins, h.broadcasts,
    h.timeouts, h.begunFirst, h.opened⟩

theorem closeRegistration_closed (r : Registry κ ρ) :
    r.closeRegistration.1.state ≠ .opened := by
  unfold Registry.closeRegistration
  split
  · dsimp only
    split <;> nofun
  · assumption

theorem Accounted.close (h : Accounted o) (hpermits : o.permits .closeRegistration) :
    Accounted (o.record .closeRegistration o.process.closeRegistration) := by
  have hbeginning : o.beginning ≠ 0 := of_decide_eq_true hpermits
  have hbegins := h.begins
  have hbroadcasts := h.broadcasts
  have hslots := (Keeps.closeRegistration o.process.registry).slots
  have hclosed : Accounted { o with
      process := o.process.closeRegistration
      beginning := o.beginning - 1
      begun := o.begun + 1 } := by
    refine ⟨?_, h.joined, ?_, h.registeredFirst, ?_, ?_, h.timeouts, fun _ => Nat.succ_pos _,
      fun hopen => absurd hopen (closeRegistration_closed o.process.registry)⟩
    · simp only [Observed.registry, Process.closeRegistration, hslots]
      exact h.registrations
    · simp only [Observed.registry, Process.closeRegistration, hslots]
      exact h.handoffs
    · dsimp only
      omega
    · simp only [Process.closeRegistration, List.length_append, List.length_singleton]
      omega
  unfold Observed.record
  dsimp only
  split
  · split
    · exact hclosed.markFinalizationStarted.markFinalized
    · exact hclosed.markFinalizationStarted
  · exact hclosed

/-- A wait that times out is one more to count. -/
theorem Accounted.wait (h : Accounted o) {i : Nat} {expired : Bool} {w : Wait}
    {out : Registry κ ρ × WaitPc} (hw : o.process.waits[i]? = some w)
    (hout : w.step o.process.registry expired = some out) :
    Accounted (o.record (.waitStep i expired)
      { o.process.setWait i { w with pc := out.2 } with registry := out.1 }) := by
  have hkeeps := Keeps.waitStep hout
  have hbegun : 0 < o.begun := h.begunFirst (Or.inr (by
    have := (List.getElem?_eq_some_iff.mp hw).1
    omega))
  have hbefore : timedOut w = false := by
    unfold timedOut
    unfold Wait.step at hout
    split at hout <;> simp_all
  have hat : (o.process.waits.set i { w with pc := out.2 })[i]? = some { w with pc := out.2 } :=
    List.getElem?_set_self (List.getElem?_eq_some_iff.mp hw).1
  have hcount := Threads.countP_set timedOut hw { w with pc := out.2 }
  have htimeouts := h.timeouts
  rw [hbefore] at hcount
  have hafter (n : Nat)
      (hn : n = o.timingOut + if timedOut { w with pc := out.2 } then 1 else 0) :
      Accounted { o with
        process := { o.process.setWait i { w with pc := out.2 } with registry := out.1 }
        timingOut := n } := by
    refine ⟨?_, h.joined, ?_, h.registeredFirst, h.begins, h.broadcasts, ?_, fun _ => hbegun,
      fun hopen => ?_⟩
    · simp only [Observed.registry, hkeeps.slots]
      exact h.registrations
    · simp only [Observed.registry, hkeeps.slots]
      exact h.handoffs
    · simp only [Process.setWait, Bool.false_eq_true, if_false] at hcount ⊢
      omega
    · have hstill : o.registry.state = .opened := by
        have hforward := hkeeps.forward
        simp only [Observed.registry] at hopen ⊢
        rw [hopen] at hforward
        cases hstate : o.process.registry.state <;> simp_all [RegistrationState.rank]
      obtain ⟨hexited, hthread⟩ := h.opened hstill
      obtain hsame | hfinal | ⟨hleft, -⟩ := waited_step hout
      · simp only [Observed.registry, hsame]
        exact ⟨hexited, hthread⟩
      · simp only [Observed.registry] at hopen
        rw [hopen] at hfinal
        cases hfinal
      · simp only [Observed.registry] at hexited
        rw [hleft] at hexited
        cases hexited
  have hrecorded : Accounted (if timedOut { w with pc := out.2 } then
      { o with
        process := { o.process.setWait i { w with pc := out.2 } with registry := out.1 }
        timingOut := o.timingOut + 1 }
      else { o with
        process := { o.process.setWait i { w with pc := out.2 } with registry := out.1 } }) := by
    split
    · exact hafter _ (by simp [*])
    · exact hafter _ (by simp [*])
  unfold Observed.record
  simp only [Process.setWait, hat, Option.any_some] at hrecorded ⊢
  split
  · exact hrecorded.markFinalized
  · exact hrecorded

theorem Accounted.effect (h : Accounted o) (hc : Consistent o.process) {a : Label κ ρ}
    (hpermits : o.permits a) (heffect : Effect o.process a s') : Accounted (o.record a s') := by
  cases heffect with
  | registers id graceful immediate cleanup => exact h.register id graceful immediate cleanup
  | unregisters id => exact h.unregister id
  | handsOver id state cleanup => exact h.handOver id state cleanup
  | closes => exact h.close hpermits
  | passes => exact h.pass hc
  | waits hw hout => exact h.wait hw hout
  | escalates =>
    have hescalating : o.escalating ≠ 0 := of_decide_eq_true hpermits
    have hbroadcasts := h.broadcasts
    refine ⟨h.registrations, h.joined, h.handoffs, h.registeredFirst, h.begins, ?_, h.timeouts,
      h.begunFirst, h.opened⟩
    simp only [Observed.record, List.length_append, List.length_singleton]
    omega
  | callsWait call onWorker =>
    have hbegun : o.begun ≠ 0 := of_decide_eq_true hpermits
    refine ⟨h.registrations, h.joined, h.handoffs, h.registeredFirst, h.begins, h.broadcasts, ?_,
      fun _ => Nat.pos_of_ne_zero hbegun, h.opened⟩
    have hentering : timedOut ⟨call, .entering onWorker⟩ = false := rfl
    refine h.timeouts.trans ?_
    simp [Observed.record, hentering]
  | updates id f hf hrecord =>
    rw [hrecord]
    refine ⟨?_, h.joined, ?_, h.registeredFirst, h.begins, h.broadcasts, h.timeouts, h.begunFirst,
      h.opened⟩
    · simp only [Observed.registry, updateSlot_length]
      exact h.registrations
    · simp only [Observed.registry, updateSlot_countP hf]
      exact h.handoffs
  | leaves hregistry htaken hbroadcasts hlength hwaits hrecord =>
    rw [hrecord]
    refine ⟨?_, ?_, ?_, h.registeredFirst, h.begins, ?_, ?_, ?_, ?_⟩
    · simp only [Observed.registry, hregistry]
      exact h.registrations
    · exact h.joined.trans (by rw [htaken])
    · simp only [Observed.registry, hregistry, htaken]
      exact h.handoffs
    · simp only [hbroadcasts]
      exact h.broadcasts
    · exact h.timeouts.trans hwaits.symm
    · simp only [Observed.registry, hregistry, hlength]
      exact h.begunFirst
    · simp only [Observed.registry, hregistry]
      exact h.opened

/-! ## The times -/

/-- The two times are set when the state says so. -/
structure Anchored (o : Observed κ ρ) : Prop where
  clock : 0 < o.now
  started : o.finalizationStartedAt = 0 ↔ o.registry.state = .opened
  completed : o.finalizationCompletedAt = 0 ↔ o.registry.state ≠ .finalized
  past : o.finalizationStartedAt ≤ o.now ∧ o.finalizationCompletedAt ≤ o.now
  ordered : o.finalizationCompletedAt ≠ 0 → o.finalizationStartedAt ≤ o.finalizationCompletedAt

/-- Nothing has moved back, and the times that were set are the same. -/
structure Forward (o o' : Observed κ ρ) : Prop where
  state : o.registry.state.rank ≤ o'.registry.state.rank
  clock : o.now ≤ o'.now
  totals : ∀ c, o.totals c ≤ o'.totals c
  started : o.finalizationStartedAt ≠ 0 → o'.finalizationStartedAt = o.finalizationStartedAt
  completed : o.finalizationCompletedAt ≠ 0 →
    o'.finalizationCompletedAt = o.finalizationCompletedAt
  completes : o.finalizationCompletedAt = 0 → o'.finalizationCompletedAt ≠ 0 →
    o.now ≤ o'.finalizationCompletedAt

namespace Observed

theorem markFinalizationStarted_startedAt (o : Observed κ ρ) :
    o.markFinalizationStarted.finalizationStartedAt =
      if o.finalizationStartedAt = 0 then o.now else o.finalizationStartedAt := by
  unfold markFinalizationStarted
  split <;> rfl

theorem markFinalizationStarted_now (o : Observed κ ρ) :
    o.markFinalizationStarted.now = o.now := by
  unfold markFinalizationStarted
  split <;> rfl

theorem markFinalizationStarted_completedAt (o : Observed κ ρ) :
    o.markFinalizationStarted.finalizationCompletedAt = o.finalizationCompletedAt := by
  unfold markFinalizationStarted
  split <;> rfl

theorem markFinalized_startedAt (o : Observed κ ρ) :
    o.markFinalized.finalizationStartedAt =
      if o.finalizationStartedAt = 0 then o.now else o.finalizationStartedAt := by
  rw [← markFinalizationStarted_startedAt]
  unfold markFinalized
  dsimp only
  split <;> rfl

theorem markFinalized_completedAt (o : Observed κ ρ) :
    o.markFinalized.finalizationCompletedAt =
      if o.finalizationCompletedAt = 0 then o.now else o.finalizationCompletedAt := by
  obtain ⟨started, hstarted⟩ := markFinalizationStarted_eq o
  unfold markFinalized
  rw [hstarted]
  dsimp only
  split <;> rfl

end Observed

/-- The state changes and times are set when registration is closed, and in a wait. -/
theorem Effect.state {a : Label κ ρ} (h : Effect s a s') :
    (s'.registry.state = s.registry.state ∧ ∀ (o : Observed κ ρ) (after : Process κ ρ),
      (o.record a after).finalizationStartedAt = o.finalizationStartedAt ∧
      (o.record a after).finalizationCompletedAt = o.finalizationCompletedAt) ∨
    (a = .closeRegistration ∧ s' = s.closeRegistration) ∨
    ∃ i expired, a = .waitStep i expired ∧ Waited s.registry s'.registry := by
  cases h with
  | registers id graceful immediate cleanup =>
    refine Or.inl ⟨?_, fun o after => ?_⟩
    · unfold Process.registerRuntime
      obtain ⟨-, hout⟩ | ⟨hopen, r', hout, hopen', -⟩ :=
        registerRuntime_cases s.registry id graceful immediate cleanup
      · simp only [hout]
      · simp only [hout, hopen, hopen']
    · unfold Observed.record
      dsimp only
      split <;> exact ⟨rfl, rfl⟩
  | closes => exact Or.inr (Or.inl ⟨rfl, rfl⟩)
  | @waits i expired _ _ _ hout => exact Or.inr (Or.inr ⟨i, expired, rfl, waited_step hout⟩)
  | passes =>
    refine Or.inl ⟨?_, fun o after => ?_⟩
    · unfold Process.coordinatorPass Registry.coordinatorPass
      split <;> rfl
    · unfold Observed.record
      dsimp only
      split <;> exact ⟨rfl, rfl⟩
  | unregisters _ | handsOver _ _ _ =>
    refine Or.inl ⟨rfl, fun o after => ?_⟩
    unfold Observed.record
    dsimp only
    split <;> exact ⟨rfl, rfl⟩
  | escalates | callsWait _ _ => exact Or.inl ⟨rfl, fun _ _ => ⟨rfl, rfl⟩⟩
  | updates _ _ _ hrecord =>
    refine Or.inl ⟨rfl, fun o after => ?_⟩
    rw [hrecord]
    exact ⟨rfl, rfl⟩
  | leaves hregistry _ _ _ _ hrecord =>
    refine Or.inl ⟨by rw [hregistry], fun o after => ?_⟩
    rw [hrecord]
    exact ⟨rfl, rfl⟩

theorem le_count (o : Observed κ ρ) (c d : Counter) (n : Nat) :
    o.totals d ≤ (o.count c n).totals d := by
  rw [Observed.count_totals]
  split
  · subst d
    exact Nat.le_add_right _ n
  · exact Nat.le_refl _

/-- What a step records is in the counters and the times. -/
structure Recorded (o : Observed κ ρ) (after : Process κ ρ) (o' : Observed κ ρ) : Prop where
  process : o'.process = after
  clock : o'.now = o.now
  totals : ∀ c, o.totals c ≤ o'.totals c
  captures : o'.captures = o.captures
  snapshots : o'.snapshots = o.snapshots

theorem Recorded.markFinalizationStarted {after : Process κ ρ} (h : Recorded o after o') :
    Recorded o after o'.markFinalizationStarted := by
  obtain ⟨started, hmarked⟩ := markFinalizationStarted_eq o'
  rw [hmarked]
  exact ⟨h.process, h.clock, h.totals, h.captures, h.snapshots⟩

theorem Recorded.markFinalized {after : Process κ ρ} (h : Recorded o after o') :
    Recorded o after o'.markFinalized := by
  obtain ⟨started, completed, hmarked⟩ := markFinalized_eq o'
  rw [hmarked]
  exact ⟨h.process, h.clock, h.totals, h.captures, h.snapshots⟩

theorem recorded (o : Observed κ ρ) (a : Label κ ρ) (after : Process κ ρ) :
    Recorded o after (o.record a after) := by
  have hsame : Recorded o after { o with process := after } :=
    ⟨rfl, rfl, fun _ => Nat.le_refl _, rfl, rfl⟩
  have hcount (c : Counter) (n : Nat) :
      Recorded o after (Observed.count { o with process := after } c n) :=
    ⟨rfl, rfl, fun d => le_count { o with process := after } c d n, rfl, rfl⟩
  unfold Observed.record
  cases a with
  | registerRuntime _ _ _ _ | executeWorkerHandoff _ _ _ | coordinatorPass =>
    dsimp only
    split
    · first | exact hcount _ _ | exact hsame
    · first | exact hcount _ _ | exact hsame
  | unregisterRuntime id =>
    dsimp only
    split
    · exact ⟨rfl, rfl, hsame.totals, rfl, rfl⟩
    · exact hsame
  | closeRegistration =>
    have hbegun : Recorded o after { o with
        process := after, beginning := o.beginning - 1, begun := o.begun + 1 } :=
      ⟨rfl, rfl, hsame.totals, rfl, rfl⟩
    dsimp only
    split
    · split
      · exact hbegun.markFinalizationStarted.markFinalized
      · exact hbegun.markFinalizationStarted
    · exact hbegun
  | requestAllImmediate => exact ⟨rfl, rfl, hsame.totals, rfl, rfl⟩
  | waitStep i expired =>
    have htiming : Recorded o after (if after.waits[i]?.any timedOut then
        { o with process := after, timingOut := o.timingOut + 1 }
        else { o with process := after }) := by
      split
      · exact ⟨rfl, rfl, hsame.totals, rfl, rfl⟩
      · exact hsame
    dsimp only
    split
    · exact htiming.markFinalized
    · exact htiming
  | _ => exact hsame

/-- The times of a step that makes the registry Finalized. -/
theorem Anchored.finalize (h : Anchored o) (hclock : o'.now = o.now)
    (hstarted : o'.finalizationStartedAt =
      if o.finalizationStartedAt = 0 then o.now else o.finalizationStartedAt)
    (hcompleted : o'.finalizationCompletedAt =
      if o.finalizationCompletedAt = 0 then o.now else o.finalizationCompletedAt)
    (hstate : o'.registry.state = .finalized) : Anchored o' := by
  have hclock' := h.clock
  have hpast := h.past
  have hordered := h.ordered
  have hbefore (hset : o.finalizationCompletedAt ≠ 0) : o.finalizationStartedAt ≠ 0 := by
    intro hunset
    have hopen := h.started.mp hunset
    have hfinal := mt h.completed.mpr hset
    rw [not_not] at hfinal
    rw [hopen] at hfinal
    cases hfinal
  refine ⟨by omega, ?_, ?_, ?_, fun hset => ?_⟩
  · rw [hstate, hstarted]
    split <;> simp <;> omega
  · rw [hstate, hcompleted]
    split <;> simp <;> omega
  · rw [hstarted, hcompleted, hclock]
    constructor <;> split <;> omega
  · rw [hstarted, hcompleted]
    split <;> split <;> omega

theorem record_close_times (o : Observed κ ρ) (after : Process κ ρ) :
    (o.record .closeRegistration after).finalizationStartedAt =
      (if o.registry.state = .opened ∧ o.finalizationStartedAt = 0 then o.now
        else o.finalizationStartedAt) ∧
    (o.record .closeRegistration after).finalizationCompletedAt =
      (if o.registry.state = .opened ∧ after.registry.state = .finalized ∧
        o.finalizationCompletedAt = 0 then o.now else o.finalizationCompletedAt) := by
  unfold Observed.record
  by_cases hopen : o.registry.state = .opened
  · by_cases hfinal : after.registry.state = .finalized
    · simp only [hopen, hfinal, if_true, true_and, Observed.markFinalized_startedAt,
        Observed.markFinalized_completedAt, Observed.markFinalizationStarted_startedAt,
        Observed.markFinalizationStarted_now, Observed.markFinalizationStarted_completedAt]
      refine ⟨?_, trivial⟩
      split
      · simp
      · simp [*]
    · simp [hopen, hfinal, Observed.markFinalizationStarted_startedAt,
        Observed.markFinalizationStarted_completedAt]
  · simp [hopen]

theorem record_wait_times (o : Observed κ ρ) (i : Nat) (expired : Bool) (after : Process κ ρ) :
    (o.record (.waitStep i expired) after).finalizationStartedAt =
      (if after.registry.state = .finalized ∧ o.finalizationStartedAt = 0 then o.now
        else o.finalizationStartedAt) ∧
    (o.record (.waitStep i expired) after).finalizationCompletedAt =
      (if after.registry.state = .finalized ∧ o.finalizationCompletedAt = 0 then o.now
        else o.finalizationCompletedAt) := by
  unfold Observed.record
  by_cases hfinal : after.registry.state = .finalized
  · simp only [hfinal, if_true, true_and, Observed.markFinalized_startedAt,
      Observed.markFinalized_completedAt]
    split <;> exact ⟨rfl, rfl⟩
  · simp only [hfinal, if_false, false_and]
    split <;> exact ⟨rfl, rfl⟩

theorem Anchored.same (h : Anchored o) (hclock : o.now ≤ o'.now)
    (hstarted : o'.finalizationStartedAt = o.finalizationStartedAt)
    (hcompleted : o'.finalizationCompletedAt = o.finalizationCompletedAt)
    (hstate : o'.registry.state = o.registry.state) : Anchored o' := by
  have hnow := h.clock
  have hpast := h.past
  refine ⟨by omega, ?_, ?_, ?_, ?_⟩
  · rw [hstarted, hstate]
    exact h.started
  · rw [hcompleted, hstate]
    exact h.completed
  · omega
  · rw [hstarted, hcompleted]
    exact h.ordered

/-- A step of the registry keeps the times in order and sets each once. -/
theorem Anchored.registry (h : Anchored o) {a : Label κ ρ}
    (hs : Process.next o.process a = some s') :
    Anchored (o.record a s') ∧ Forward o (o.record a s') := by
  have hrec := recorded o a s'
  have hafter : (o.record a s').registry = s'.registry := congrArg Process.registry hrec.process
  have hforward (hstarted : (o.record a s').finalizationStartedAt = o.finalizationStartedAt ∨
        o.finalizationStartedAt = 0)
      (hcompleted : (o.record a s').finalizationCompletedAt = o.finalizationCompletedAt ∨
        o.finalizationCompletedAt = 0 ∧ (o.record a s').finalizationCompletedAt = o.now) :
      Forward o (o.record a s') := by
    refine ⟨?_, Nat.le_of_eq hrec.clock.symm, hrec.totals, fun hset => ?_, fun hset => ?_,
      fun hunset hset => ?_⟩
    · rw [hafter]
      exact state_forward hs
    · exact hstarted.resolve_right hset
    · exact hcompleted.resolve_right fun hboth => hset hboth.1
    · obtain hsame | ⟨-, hnow⟩ := hcompleted
      · exact absurd (hsame.trans hunset) hset
      · exact Nat.le_of_eq hnow.symm
  have hordered (hset : o.finalizationCompletedAt ≠ 0) : o.registry.state = .finalized :=
    not_not.mp (mt h.completed.mpr hset)
  obtain ⟨hstate, htimes⟩ | ⟨rfl, rfl⟩ | ⟨i, expired, rfl, hwaited⟩ := (effect_of_next hs).state
  · obtain ⟨hstarted, hcompleted⟩ := htimes o s'
    refine ⟨h.same (Nat.le_of_eq hrec.clock.symm) hstarted hcompleted ?_,
      hforward (Or.inl hstarted) (Or.inl hcompleted)⟩
    rw [hafter]
    exact hstate
  · obtain ⟨hstarted, hcompleted⟩ := record_close_times o o.process.closeRegistration
    have hclosed := closeRegistration_closed o.process.registry
    refine ⟨?_, hforward ?_ ?_⟩
    · by_cases hopen : o.registry.state = .opened
      · have hunset := h.started.mpr hopen
        by_cases hfinal : o.process.closeRegistration.registry.state = .finalized
        · simp only [hopen, hfinal, true_and] at hstarted hcompleted
          exact h.finalize hrec.clock hstarted hcompleted (by rw [hafter, hfinal])
        · have hnone := h.completed.mpr (by rw [hopen]; nofun)
          have hnow := h.clock
          have hclock := hrec.clock
          simp only [hopen, hunset, hfinal, true_and, false_and, if_true, if_false]
            at hstarted hcompleted
          refine ⟨by omega, ?_, ?_, by omega, fun hset => absurd (hcompleted.trans hnone) hset⟩
          · rw [hstarted, hafter]
            exact ⟨fun hz => absurd hz (Nat.ne_of_gt hnow), fun he => absurd he hclosed⟩
          · rw [hcompleted, hafter]
            exact ⟨fun _ => hfinal, fun _ => hnone⟩
      · simp only [hopen, false_and, if_false] at hstarted hcompleted
        refine h.same (Nat.le_of_eq hrec.clock.symm) hstarted hcompleted ?_
        rw [hafter]
        simp only [Observed.registry] at hopen
        simp [Process.closeRegistration, Registry.closeRegistration, hopen, Observed.registry]
    · rw [hstarted]
      split <;> simp_all
    · rw [hcompleted]
      split <;> simp_all
  · obtain ⟨hstarted, hcompleted⟩ := record_wait_times o i expired s'
    refine ⟨?_, hforward ?_ ?_⟩
    · by_cases hfinal : s'.registry.state = .finalized
      · simp only [hfinal, true_and] at hstarted hcompleted
        exact h.finalize hrec.clock hstarted hcompleted (by rw [hafter, hfinal])
      · simp only [hfinal, false_and, if_false] at hstarted hcompleted
        refine h.same (Nat.le_of_eq hrec.clock.symm) hstarted hcompleted ?_
        rw [hafter]
        obtain hsame | hdone | ⟨-, hstate⟩ := hwaited
        · rw [hsame]
          rfl
        · exact absurd hdone hfinal
        · exact hstate
    · rw [hstarted]
      split <;> simp_all
    · rw [hcompleted]
      split <;> simp_all

/-! ## The snapshots -/

/-- What a snapshot says of itself. -/
structure Coherent (s : ProcessMetricsSnapshot) : Prop where
  /-- Before the first registration there is nothing to say. -/
  notStarted : s.serviceState = .notStarted →
    s.gauges = ⟨0, 0, 0⟩ ∧ s.counters .runtimeRegistrations = 0 ∧
    s.counters .runtimeHandoffs = 0 ∧ s.counters .runtimesJoined = 0
  gauges : s.gauges.pendingRuntimes + s.gauges.joinReadyRuntimes ≤ s.gauges.registeredRuntimes
  finalization : (s.finalizationState = .finalizing ↔ s.serviceState = .finalizing) ∧
    (s.finalizationState = .finalized ↔ s.serviceState = .finalized)
  started : s.finalizationStartedAt = 0 ↔ s.finalizationState = .notStarted
  completion : s.finalizationCompletionDurationNs =
    if s.finalizationState = .finalized then s.finalizationElapsedNs else 0

/-- The states move on, the elapsed time does not shrink, and what is final is final. -/
structure Before (s t : ProcessMetricsSnapshot) : Prop where
  service : s.serviceState.rank ≤ t.serviceState.rank
  started : s.finalizationStartedAt ≠ 0 → t.finalizationStartedAt = s.finalizationStartedAt
  elapsed : s.finalizationElapsedNs ≤ t.finalizationElapsedNs
  final : s.serviceState = .finalized →
    t.finalizationElapsedNs = s.finalizationElapsedNs ∧
    t.finalizationCompletionDurationNs = s.finalizationCompletionDurationNs

theorem ProcessServiceState.finalized_of_rank {st : ProcessServiceState}
    (h : ProcessServiceState.finalized.rank ≤ st.rank) : st = .finalized := by
  cases st with
  | finalized => rfl
  | _ => simp [ProcessServiceState.rank] at h

theorem Before.trans {s t u : ProcessMetricsSnapshot} (h : Before s t) (h' : Before t u) :
    Before s u where
  service := Nat.le_trans h.service h'.service
  started hset := by
    have ht := h.started hset
    exact (h'.started (by rwa [ht])).trans ht
  elapsed := Nat.le_trans h.elapsed h'.elapsed
  final hs := by
    have ht : t.serviceState = .finalized :=
      ProcessServiceState.finalized_of_rank (hs ▸ h.service)
    obtain ⟨he, hc⟩ := h.final hs
    obtain ⟨he', hc'⟩ := h'.final ht
    exact ⟨he'.trans he, hc'.trans hc⟩

/-- The service is started by the first registration. -/
theorem Accounted.serviceState (h : Accounted o) (hopen : o.registry.state = .opened) :
    o.serviceState = if 0 < o.totals .runtimeRegistrations then .active else .notStarted := by
  obtain ⟨-, hthread⟩ := h.opened hopen
  unfold Observed.serviceState
  rw [hopen]
  by_cases hpos : 0 < o.totals .runtimeRegistrations
  · simp [hpos, hthread.mpr hpos]
  · have hzero : o.totals .runtimeRegistrations = 0 := by omega
    have hnone : ¬ o.registry.coordinatorThread := mt hthread.mp hpos
    simp [hzero, hnone, Observed.word]

/-- The durations, once the times are known to be set. -/
theorem Anchored.durations (h : Anchored o) :
    o.durations = match o.registry.state with
      | .opened => (0, 0)
      | .finalizing => (o.now - o.finalizationStartedAt, 0)
      | .finalized => (o.finalizationCompletedAt - o.finalizationStartedAt,
          o.finalizationCompletedAt - o.finalizationStartedAt) := by
  have hstarted := h.started
  have hcompleted := h.completed
  unfold Observed.durations
  cases hstate : o.registry.state with
  | opened => simp
  | finalizing =>
    rw [hstate] at hstarted
    simp [hstarted]
  | finalized =>
    rw [hstate] at hstarted hcompleted
    simp [hstarted, hcompleted]

theorem serviceState_rank (o : Observed κ ρ) :
    o.serviceState.rank ≤ o.registry.state.rank + 1 ∧
    (o.registry.state ≠ .opened → o.serviceState.rank = o.registry.state.rank + 1) := by
  unfold Observed.serviceState
  cases o.registry.state with
  | opened =>
    refine ⟨?_, fun hne => absurd rfl hne⟩
    dsimp only
    split <;> decide
  | finalizing | finalized => exact ⟨Nat.le_refl _, fun _ => rfl⟩

theorem RegistrationState.opened_of_rank {st : RegistrationState}
    (h : st.rank ≤ RegistrationState.opened.rank) : st = .opened := by
  cases st with
  | opened => rfl
  | _ => simp [RegistrationState.rank] at h

theorem before_of_forward (ha : Anchored o) (ha' : Anchored o') (h : Accounted o)
    (h' : Accounted o') (hf : Forward o o') (c c' : Capture) :
    Before (o.snapshot c) (o'.snapshot c') := by
  have hstate := hf.state
  have hstarted := mt ha.started.mp
  have hcompleted := fun hfinal => mt ha.completed.mp (not_not_intro hfinal)
  have hservice : o.serviceState.rank ≤ o'.serviceState.rank := by
    by_cases hopen : o'.registry.state = .opened
    · have hopen₀ := RegistrationState.opened_of_rank (hopen ▸ hstate)
      have htotals := hf.totals .runtimeRegistrations
      rw [h.serviceState hopen₀, h'.serviceState hopen]
      split
      · rw [if_pos (by omega)]
      · exact Nat.zero_le _
    · have hle := (serviceState_rank o).1
      have heq := (serviceState_rank o').2 hopen
      omega
  have hfinal (he : o.registry.state = .finalized) : o'.durations = o.durations := by
    have he' : o'.registry.state = .finalized := by
      rw [he] at hstate
      cases hs : o'.registry.state <;> simp_all [RegistrationState.rank]
    rw [ha.durations, ha'.durations, he, he', hf.started (hstarted (by rw [he]; nofun)),
      hf.completed (hcompleted he)]
  refine ⟨hservice, hf.started, ?_, fun hs => ?_⟩
  · change o.durations.1 ≤ o'.durations.1
    cases hs : o.registry.state with
    | opened =>
      rw [ha.durations, hs]
      exact Nat.zero_le _
    | finalizing =>
      have hsame := hf.started (hstarted (by rw [hs]; nofun))
      have hclock := hf.clock
      rw [ha.durations, ha'.durations, hs]
      cases hs' : o'.registry.state with
      | opened =>
        rw [hs, hs'] at hstate
        simp [RegistrationState.rank] at hstate
      | finalizing =>
        dsimp only
        omega
      | finalized =>
        have hunset := ha.completed.mpr (by rw [hs]; nofun)
        have hset := mt ha'.completed.mp (not_not_intro hs')
        have hlater := hf.completes hunset hset
        dsimp only
        omega
    | finalized => rw [hfinal hs]
  · have he : o.registry.state = .finalized := by
      have hle := (serviceState_rank o).1
      have hrank : o.serviceState.rank = 3 := congrArg ProcessServiceState.rank hs
      cases hs : o.registry.state <;> simp_all [RegistrationState.rank]
    change o'.durations.1 = o.durations.1 ∧ o'.durations.2 = o.durations.2
    rw [hfinal he]
    exact ⟨rfl, rfl⟩

/-- A capture has loaded what the counters were. -/
def Loaded (o : Observed κ ρ) (counters : Counter → UInt64) : Prop :=
  ∀ n, ∃ m ≤ o.totals n, counters n = UInt64.ofNat m

theorem Loaded.later {counters : Counter → UInt64} (h : Loaded o counters)
    (hle : ∀ n, o.totals n ≤ o'.totals n) : Loaded o' counters := fun n =>
  let ⟨m, hm, he⟩ := h n
  ⟨m, Nat.le_trans hm (hle n), he⟩

theorem Loaded.zero {counters : Counter → UInt64} (h : Loaded o counters) {n : Counter}
    (hzero : o.totals n = 0) : counters n = 0 := by
  obtain ⟨m, hm, he⟩ := h n
  obtain rfl : m = 0 := by omega
  exact he

theorem gauges_le (hc : Consistent o.process) :
    o.gauges.pendingRuntimes + o.gauges.joinReadyRuntimes ≤ o.gauges.registeredRuntimes := by
  have hall := List.length_eq_countP_add_countP
    (fun s : HandoffCapabilitySlot κ ρ => s.joinReady && !s.joinClaimed) (l := o.registry.slots)
  have hpending : o.registry.slots.countP (fun s => !s.joinReady && s.handoffExecuted) ≤
      o.registry.slots.countP (fun s => ¬(s.joinReady && !s.joinClaimed)) := by
    refine List.countP_mono_left fun s _ hs => ?_
    simp only [Bool.and_eq_true, Bool.not_eq_true'] at hs
    simp [hs.1]
  have hids : o.registry.registeredIds.length = o.registry.slots.length := by
    simp only [Observed.registry]
    rw [hc.agree, List.length_map]
  simp only [Observed.gauges]
  omega

theorem coherent_snapshot (hc : Consistent o.process) (ha : Anchored o) (h : Accounted o)
    (c : Capture) (hloaded : Loaded o c.counters) : Coherent (o.snapshot c) := by
  have hrank := serviceState_rank o
  refine ⟨fun hs => ?_, gauges_le hc, ?_, ?_, ?_⟩
  · change o.serviceState = .notStarted at hs
    have hopen : o.registry.state = .opened := by
      by_contra hne
      have heq := hrank.2 hne
      rw [hs] at heq
      simp [ProcessServiceState.rank] at heq
    rw [h.serviceState hopen] at hs
    split at hs
    · cases hs
    · rename_i hnone
      have hregistrations := h.registrations
      have hhandoffs := mt h.registeredFirst hnone
      have hslots : o.registry.slots = [] := List.eq_nil_of_length_eq_zero (by omega)
      have hids : o.registry.registeredIds = [] := by
        simp only [Observed.registry] at hslots ⊢
        rw [hc.agree, hslots]
        rfl
      refine ⟨?_, hloaded.zero (by omega), hloaded.zero (by omega), hloaded.zero (by omega)⟩
      simp [Observed.snapshot, Observed.gauges, hslots, hids]
  · unfold Observed.snapshot Observed.serviceState Observed.finalizationState
    cases o.registry.state with
    | opened =>
      dsimp only
      split <;> simp
    | finalizing | finalized => simp
  · refine ha.started.trans ?_
    unfold Observed.snapshot Observed.finalizationState
    cases o.registry.state <;> simp
  · have hstates : o.registry.state = .opened ∨ o.registry.state = .finalizing ∨
        o.registry.state = .finalized := by
      cases o.registry.state <;> simp
    obtain hs | hs | hs := hstates <;>
      simp [Observed.snapshot, ha.durations, Observed.finalizationState, hs]

/-! ## Whole runs -/

structure Invariant (o : Observed κ ρ) : Prop where
  consistent : Consistent o.process
  accounted : Accounted o
  anchored : Anchored o
  loaded : ∀ c ∈ o.captures, Loaded o c.counters
  taken : ∀ s ∈ o.snapshots, Coherent s ∧ Loaded o s.counters ∧ ∀ c, Before s (o.snapshot c)
  ordered : o.snapshots.Pairwise Before

theorem invariant_init : Invariant ({} : Observed κ ρ) where
  consistent := ⟨rfl, List.nodup_nil, by simp, by simp, by simp, rfl⟩
  accounted := accounted_init
  anchored := ⟨Nat.one_pos, by simp [Observed.registry], by simp [Observed.registry],
    by simp, by simp⟩
  loaded _ h := absurd h List.not_mem_nil
  taken _ h := absurd h List.not_mem_nil
  ordered := List.Pairwise.nil

/-- A step that takes no snapshot. -/
theorem Invariant.forward (h : Invariant o) (hc : Consistent o'.process) (hacc : Accounted o')
    (hanch : Anchored o') (hf : Forward o o')
    (hcaptures : ∀ c ∈ o'.captures, Loaded o' c.counters)
    (hsnapshots : o'.snapshots = o.snapshots) : Invariant o' := by
  refine ⟨hc, hacc, hanch, hcaptures, ?_, ?_⟩
  · rw [hsnapshots]
    intro s hs
    obtain ⟨hcoherent, hloaded, hbefore⟩ := h.taken s hs
    refine ⟨hcoherent, hloaded.later hf.totals, fun c => ?_⟩
    exact (hbefore c).trans (before_of_forward h.anchored hanch h.accounted hacc hf c c)
  · rw [hsnapshots]
    exact h.ordered

theorem Forward.of_same (hregistry : o'.registry = o.registry) (hclock : o.now ≤ o'.now)
    (htotals : ∀ c, o.totals c ≤ o'.totals c)
    (hstarted : o'.finalizationStartedAt = o.finalizationStartedAt)
    (hcompleted : o'.finalizationCompletedAt = o.finalizationCompletedAt) : Forward o o' :=
  ⟨by rw [hregistry], hclock, htotals, fun _ => hstarted, fun _ => hcompleted,
    fun hunset hset => absurd (hcompleted.trans hunset) hset⟩

theorem Invariant.registry (h : Invariant o) {a : Label κ ρ} (hpermits : o.permits a)
    (hs : Process.next o.process a = some s') : Invariant (o.record a s') := by
  have hrec := recorded o a s'
  obtain ⟨hanch, hf⟩ := h.anchored.registry hs
  refine h.forward ?_ (h.accounted.effect h.consistent hpermits (effect_of_next hs)) hanch hf ?_
    hrec.snapshots
  · rw [hrec.process]
    exact h.consistent.step hs
  · rw [hrec.captures]
    exact fun c hmem => (h.loaded c hmem).later hf.totals

/-- What is counted outside of the mutex is a step of its own. -/
theorem Invariant.count (h : Invariant o) (c : Counter) (n : Nat) {o' : Observed κ ρ}
    (hprocess : o'.process = o.process) (hclock : o'.now = o.now)
    (htotals : o'.totals = (o.count c n).totals)
    (hstarted : o'.finalizationStartedAt = o.finalizationStartedAt)
    (hcompleted : o'.finalizationCompletedAt = o.finalizationCompletedAt)
    (hcaptures : o'.captures = o.captures) (hsnapshots : o'.snapshots = o.snapshots)
    (hacc : Accounted o') : Invariant o' := by
  have hregistry : o'.registry = o.registry := congrArg Process.registry hprocess
  have hle (d : Counter) : o.totals d ≤ o'.totals d := by
    rw [htotals]
    exact le_count o c d n
  refine h.forward ?_ hacc
    (h.anchored.same (Nat.le_of_eq hclock.symm) hstarted hcompleted (by rw [hregistry]))
    (.of_same hregistry (Nat.le_of_eq hclock.symm) hle hstarted hcompleted) ?_ hsnapshots
  · rw [hprocess]
    exact h.consistent
  · rw [hcaptures]
    exact fun capture hmem => (h.loaded capture hmem).later hle

theorem Invariant.step (h : Invariant o) {e : Event κ ρ} (hs : Observed.next o e = some o') :
    Invariant o' := by
  have hacc := h.accounted
  unfold Observed.next at hs
  cases e with
  | registry a =>
    dsimp only at hs
    split at hs
    case isTrue hpermits =>
      obtain ⟨s', hs', rfl⟩ := Option.map_eq_some_iff.mp hs
      exact h.registry hpermits hs'
    case isFalse => cases hs
  | tick =>
    cases hs
    refine h.forward h.consistent ?_ (h.anchored.same (Nat.le_succ _) rfl rfl rfl)
      (.of_same rfl (Nat.le_succ _) (fun _ => Nat.le_refl _) rfl rfl) h.loaded rfl
    exact ⟨hacc.registrations, hacc.joined, hacc.handoffs, hacc.registeredFirst, hacc.begins,
      hacc.broadcasts, hacc.timeouts, hacc.begunFirst, hacc.opened⟩
  | noteFinalizationBegin =>
    cases hs
    refine h.count .finalizationBeginCalls 1 rfl rfl rfl rfl rfl rfl rfl
      ⟨hacc.registrations, hacc.joined, hacc.handoffs, hacc.registeredFirst, ?_, hacc.broadcasts,
        hacc.timeouts, hacc.begunFirst, hacc.opened⟩
    have hbegins := hacc.begins
    simp only [Observed.count_totals, Observed.count_begun, if_true]
    omega
  | countEscalation =>
    dsimp only at hs
    split at hs <;> cases hs
    refine h.count .finalizationEscalations 1 rfl rfl rfl rfl rfl rfl rfl
      ⟨hacc.registrations, hacc.joined, hacc.handoffs, hacc.registeredFirst, hacc.begins, ?_,
        hacc.timeouts, hacc.begunFirst, hacc.opened⟩
    have hbroadcasts := hacc.broadcasts
    simp only [Observed.count_process, Observed.count_totals, Observed.count_begun, if_true]
    omega
  | countTimeout =>
    dsimp only at hs
    split at hs
    · cases hs
    · cases hs
      refine h.count .finalizationWaitTimeouts 1 rfl rfl rfl rfl rfl rfl rfl
        ⟨hacc.registrations, hacc.joined, hacc.handoffs, hacc.registeredFirst, hacc.begins,
          hacc.broadcasts, ?_, hacc.begunFirst, hacc.opened⟩
      have htimeouts := hacc.timeouts
      simp only [Observed.count_process, Observed.count_totals, if_true]
      omega
  | callSnapshot =>
    cases hs
    refine h.forward h.consistent ?_ (h.anchored.same (Nat.le_refl _) rfl rfl rfl)
      (.of_same rfl (Nat.le_refl _) (fun _ => Nat.le_refl _) rfl rfl) ?_ rfl
    · exact ⟨hacc.registrations, hacc.joined, hacc.handoffs, hacc.registeredFirst, hacc.begins,
        hacc.broadcasts, hacc.timeouts, hacc.begunFirst, hacc.opened⟩
    · intro c hmem
      rcases List.mem_append.mp hmem with hmem | hmem
      · exact h.loaded c hmem
      · obtain rfl := List.mem_singleton.mp hmem
        exact fun n => ⟨0, Nat.zero_le _, rfl⟩
  | loadCounter i =>
    obtain ⟨c, hc, hs⟩ := Option.bind_eq_some_iff.mp hs
    unfold Observed.loadCounter at hs
    split at hs <;> cases hs
    refine h.forward h.consistent ?_ (h.anchored.same (Nat.le_refl _) rfl rfl rfl)
      (.of_same rfl (Nat.le_refl _) (fun _ => Nat.le_refl _) rfl rfl) ?_ rfl
    · exact ⟨hacc.registrations, hacc.joined, hacc.handoffs, hacc.registeredFirst, hacc.begins,
        hacc.broadcasts, hacc.timeouts, hacc.begunFirst, hacc.opened⟩
    · intro c' hmem
      rcases List.mem_or_eq_of_mem_set hmem with hmem | rfl
      · exact h.loaded c' hmem
      · intro n
        -- the counter that has just been loaded, or one that was before
        simp only [Function.update_apply]
        split
        · subst n
          exact ⟨_, Nat.le_refl _, rfl⟩
        · exact h.loaded c (List.mem_of_getElem? hc) n
  | lockSnapshot i =>
    obtain ⟨c, hc, hs⟩ := Option.bind_eq_some_iff.mp hs
    unfold Observed.lockSnapshot at hs
    split at hs <;> cases hs
    have hloaded := h.loaded c (List.mem_of_getElem? hc)
    have hsame : Forward o o := .of_same rfl (Nat.le_refl _) (fun _ => Nat.le_refl _) rfl rfl
    refine ⟨h.consistent, ?_, h.anchored.same (Nat.le_refl _) rfl rfl rfl,
      fun c' hmem => h.loaded c' (List.mem_of_mem_eraseIdx hmem), ?_, ?_⟩
    · exact ⟨hacc.registrations, hacc.joined, hacc.handoffs, hacc.registeredFirst, hacc.begins,
        hacc.broadcasts, hacc.timeouts, hacc.begunFirst, hacc.opened⟩
    · intro s hs
      rcases List.mem_append.mp hs with hs | hs
      · exact h.taken s hs
      · obtain rfl := List.mem_singleton.mp hs
        exact ⟨coherent_snapshot h.consistent h.anchored hacc c hloaded, hloaded, fun c' =>
          before_of_forward h.anchored h.anchored hacc hacc hsame c c'⟩
    · refine List.pairwise_append.mpr ⟨h.ordered, List.pairwise_singleton .., ?_⟩
      intro s hs t ht
      obtain rfl := List.mem_singleton.mp ht
      exact (h.taken s hs).2.2 c

theorem invariant_of_reachable (h : Observed.machine.Reachable o) : Invariant o := by
  refine h.invariant Invariant ?_ fun o e o' hi _ hs => hi.step hs
  rintro o rfl
  exact invariant_init

/-- **The counters account for the process.**  Every registration is in the registry, joined or
withdrawn; no handoff is missing; the waits that have timed out, and no others, are counted or
about to be; and what has been broadcast has been asked for by a call that is counted. -/
theorem process_accounts (h : Observed.machine.Reachable o) :
    o.totals .runtimeRegistrations =
      o.registry.registeredIds.length + o.totals .runtimesJoined + o.withdrawn ∧
    o.registry.slots.countP (·.handoffExecuted) +
      o.process.taken.countP (·.1.handoffExecuted) ≤ o.totals .runtimeHandoffs ∧
    o.totals .finalizationWaitTimeouts + o.timingOut = o.process.waits.countP timedOut ∧
    o.process.broadcasts.length + o.beginning + o.escalating =
      o.totals .finalizationBeginCalls + o.totals .finalizationEscalations ∧
    (o.registry.state ≠ .opened → 0 < o.totals .finalizationBeginCalls) := by
  have hinv := invariant_of_reachable h
  have hacc := hinv.accounted
  have hbegins := hacc.begins
  refine ⟨?_, hacc.handoffs, hacc.timeouts, ?_, fun hclosed => ?_⟩
  · simp only [Observed.registry]
    rw [hinv.consistent.agree, List.length_map]
    exact hacc.registrations
  · have hbroadcasts := hacc.broadcasts
    omega
  · have hbegun := hacc.begunFirst (Or.inl hclosed)
    omega

/-- The counter had this value when the run had made some of its steps, at `since` or later. -/
def Had (as : List (Event κ ρ)) (since : Nat) (n : Counter) (value : UInt64) : Prop :=
  ∃ bs o, bs <+: as ∧ Observed.machine.run {} bs = some o ∧ since ≤ o.now ∧ value = o.word n

theorem Had.later {as bs : List (Event κ ρ)} {since : Nat} {n : Counter} {value : UInt64}
    (h : Had as since n value) (hle : as <+: bs) : Had bs since n value :=
  let ⟨cs, o, hcs, hrun, hnow, he⟩ := h
  ⟨cs, o, hcs.trans hle, hrun, hnow, he⟩

/-- What the captures have loaded, and the snapshots hold, are earlier values. -/
structure Dated (as : List (Event κ ρ)) (o : Observed κ ρ) : Prop where
  run : Observed.machine.run {} as = some o
  captures : ∀ c ∈ o.captures, c.startedAt ≤ o.now ∧
    ∀ n, n ∈ c.toLoad ∨ Had as c.startedAt n (c.counters n)
  snapshots : ∀ s ∈ o.snapshots, ∀ n, Had as s.captureStartedAt n (s.counters n)

section Dated
variable {as : List (Event κ ρ)} {e : Event κ ρ}

theorem Dated.run_snoc (h : Dated as o) (hs : Observed.next o e = some o') :
    Observed.machine.run {} (as ++ [e]) = some o' := by
  rw [Machine.run_append, h.run]
  change (Observed.next o e).bind _ = _
  rw [hs]
  rfl

/-- A step that neither loads a counter nor takes or begins a snapshot. -/
theorem Dated.same (h : Dated as o) (hs : Observed.next o e = some o') (hclock : o.now ≤ o'.now)
    (hcaptures : o'.captures = o.captures) (hsnapshots : o'.snapshots = o.snapshots) :
    Dated (as ++ [e]) o' where
  run := h.run_snoc hs
  captures c hmem := by
    obtain ⟨hstart, hhad⟩ := h.captures c (hcaptures ▸ hmem)
    exact ⟨Nat.le_trans hstart hclock, fun n =>
      (hhad n).imp_right (·.later (List.prefix_append ..))⟩
  snapshots s hmem n := (h.snapshots s (hsnapshots ▸ hmem) n).later (List.prefix_append ..)

theorem Dated.loadCounter (h : Dated as o) {i : Nat}
    (hs : Observed.next o (.loadCounter i) = some o') : Dated (as ++ [Event.loadCounter i]) o' := by
  have hrun := h.run_snoc hs
  obtain ⟨c, hc, hs⟩ := Option.bind_eq_some_iff.mp hs
  unfold Observed.loadCounter at hs
  split at hs <;> cases hs
  rename_i n rest hload
  refine ⟨hrun, fun c' hmem => ?_, fun s hmem m =>
    (h.snapshots s hmem m).later (List.prefix_append ..)⟩
  rcases List.mem_or_eq_of_mem_set hmem with hmem | rfl
  · obtain ⟨hstart, hhad⟩ := h.captures c' hmem
    exact ⟨hstart, fun m => (hhad m).imp_right (·.later (List.prefix_append ..))⟩
  · obtain ⟨hstart, hhad⟩ := h.captures c (List.mem_of_getElem? hc)
    refine ⟨hstart, fun m => ?_⟩
    by_cases heq : m = n
    · -- loaded just now
      subst heq
      exact Or.inr ⟨as, o, List.prefix_append .., h.run, hstart, by simp⟩
    · rcases hhad m with hleft | hhad
      · rw [hload] at hleft
        exact Or.inl ((List.mem_cons.mp hleft).resolve_left heq)
      · refine Or.inr ?_
        simp only [Function.update_of_ne heq]
        exact hhad.later (List.prefix_append ..)

theorem Dated.lockSnapshot (h : Dated as o) {i : Nat}
    (hs : Observed.next o (.lockSnapshot i) = some o') : Dated (as ++ [Event.lockSnapshot i]) o' := by
  have hrun := h.run_snoc hs
  obtain ⟨c, hc, hs⟩ := Option.bind_eq_some_iff.mp hs
  unfold Observed.lockSnapshot at hs
  split at hs <;> cases hs
  rename_i hload
  refine ⟨hrun, fun c' hmem => ?_, fun s hmem n => ?_⟩
  · obtain ⟨hstart, hhad⟩ := h.captures c' (List.mem_of_mem_eraseIdx hmem)
    exact ⟨hstart, fun n => (hhad n).imp_right (·.later (List.prefix_append ..))⟩
  · rcases List.mem_append.mp hmem with hmem | hmem
    · exact (h.snapshots s hmem n).later (List.prefix_append ..)
    · obtain rfl := List.mem_singleton.mp hmem
      -- every counter has been loaded
      refine (((h.captures c (List.mem_of_getElem? hc)).2 n).resolve_left ?_).later
        (List.prefix_append ..)
      rw [hload]
      exact List.not_mem_nil

theorem Dated.step (h : Dated as o) (hs : Observed.next o e = some o') :
    Dated (as ++ [e]) o' := by
  cases e with
  | registry a =>
    have hstep := hs
    dsimp only [Observed.next] at hs
    split at hs
    case isTrue hpermits =>
      obtain ⟨s', hs', rfl⟩ := Option.map_eq_some_iff.mp hs
      have hrec := recorded o a s'
      exact h.same hstep (Nat.le_of_eq hrec.clock.symm) hrec.captures hrec.snapshots
    case isFalse => cases hs
  | tick =>
    have hstep := hs
    cases hs
    exact h.same hstep (Nat.le_succ _) rfl rfl
  | noteFinalizationBegin =>
    have hstep := hs
    cases hs
    exact h.same hstep (Nat.le_refl _) rfl rfl
  | countEscalation | countTimeout =>
    have hstep := hs
    dsimp only [Observed.next] at hs
    split at hs <;> cases hs
    exact h.same hstep (Nat.le_refl _) rfl rfl
  | callSnapshot =>
    have hrun := h.run_snoc hs
    cases hs
    refine ⟨hrun, fun c hmem => ?_, fun s hmem n =>
      (h.snapshots s hmem n).later (List.prefix_append ..)⟩
    rcases List.mem_append.mp hmem with hmem | hmem
    · obtain ⟨hstart, hhad⟩ := h.captures c hmem
      exact ⟨hstart, fun n => (hhad n).imp_right (·.later (List.prefix_append ..))⟩
    · obtain rfl := List.mem_singleton.mp hmem
      exact ⟨Nat.le_refl _, fun n => Or.inl (Counter.mem_loadOrder n)⟩
  | loadCounter i => exact h.loadCounter hs
  | lockSnapshot i => exact h.lockSnapshot hs

end Dated

/-- A runtime is handed over and joined, another withdrawn, while a snapshot is being taken; a
wait times out, and a second snapshot is taken when the process is Finalized. -/
def twoSnapshots : List (Event Nat Nat) :=
  [.registry (.registerRuntime ⟨1⟩ none none none), .callSnapshot, .loadCounter 0,
    .registry (.registerRuntime ⟨2⟩ none none none), .loadCounter 0, .loadCounter 0,
    .registry (.executeWorkerHandoff ⟨1⟩ none none), .loadCounter 0, .loadCounter 0,
    .loadCounter 0, .noteFinalizationBegin, .tick, .registry .closeRegistration,
    .lockSnapshot 0, .registry (.callWait (.waitFor false) false),
    .registry (.waitStep 0 true), .countTimeout, .registry (.notifyJoinReady ⟨1⟩),
    .registry .coordinatorPass, .registry (.unregisterRuntime ⟨2⟩),
    .registry .coordinatorCleanup, .registry .coordinatorCleanup, .registry .coordinatorPass,
    .registry .coordinatorReturn, .registry (.callWait .wait false),
    .registry (.waitStep 1 false), .registry (.waitJoin 1), .tick,
    .registry (.waitStep 1 false), .callSnapshot, .loadCounter 0, .loadCounter 0,
    .loadCounter 0, .loadCounter 0, .loadCounter 0, .loadCounter 0, .lockSnapshot 0]

theorem process_accounts_twoSnapshots :
    ∃ o : Observed Nat Nat, Observed.machine.run {} twoSnapshots = some o ∧
      Counter.loadOrder.map o.totals = [2, 1, 1, 1, 1, 0] ∧
      o.totals .runtimeRegistrations =
        o.registry.registeredIds.length + o.totals .runtimesJoined + o.withdrawn := by
  obtain ⟨o, ho⟩ := Option.isSome_iff_exists.mp
    (show (Observed.machine.run ({} : Observed Nat Nat) twoSnapshots).isSome by decide)
  have hend : (Observed.machine.run ({} : Observed Nat Nat) twoSnapshots).map
      (Counter.loadOrder.map ·.totals) = some [2, 1, 1, 1, 1, 0] := by decide
  rw [ho] at hend
  exact ⟨o, ho, Option.some.inj hend, (process_accounts (Machine.reachable_of_run rfl ho)).1⟩

end ProcessMetrics
end AstraScheduler
