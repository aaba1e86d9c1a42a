import AstraScheduler.ExecutionIdentity
import AstraScheduler.TraceCollector

/-! # The identities of wait and await events

`emit_wait_event` (`runtime_diagnostics.cpp`) stores the sequences of the waiting task and of
its target, the runtime of the target, and for the waiting task's runtime its own: that of the
diagnostics it is called on.  Those belong to the runtime of the worker that emits, and on any
other thread to the runtime of the target.  `trace.hpp` calls the stored runtime the source's.

An event goes to a producer slot of a collector as an emission; the reason it also carries is
left out, as in `TraceEvent`. -/

namespace AstraScheduler
namespace WaitEvents
open Trace (TraceEvent TraceEventKind categoryForKind)
open TraceCollector (Emission)
open ExecutionIdentity (GraphRunId)

variable {I : Type}

/-- `GraphRunId::valid`. -/
def graphRunValid (r : GraphRunId) : Bool := r.runtimeId.value != 0 && r.sequence != 0

/-! ## Diagnostics -/

/-- The tracing part of `RuntimeDiagnostics`; slots are those of the collector. -/
structure RuntimeDiagnostics where
  runtimeId : RuntimeId
  traceCollector : Option Nat := none
  workerSlots : List Nat := []
  externalSlot : Option Nat := none
  deriving DecidableEq, Repr

/-- `runtime_registry`: the diagnostics of the live runtimes. -/
abbrev RuntimeRegistry := List RuntimeDiagnostics

def RuntimeRegistry.findRuntimeInstance (reg : RuntimeRegistry) (id : RuntimeId) :
    Option RuntimeDiagnostics :=
  reg.find? fun d => d.runtimeId = id

/-- `TraceEmitDesc`, as far as wait events fill it in. -/
structure TraceEmitDesc where
  kind : TraceEventKind
  runtimeId : RuntimeId := {}
  taskSequence : Nat := 0
  targetRuntimeId : RuntimeId := {}
  targetTaskSequence : Nat := 0
  graphRunSequence : Nat := 0

/-- `trace_emit_desc`. -/
def traceEmitDesc (slot : Nat) (desc : TraceEmitDesc) : Emission where
  slot := slot
  category := categoryForKind desc.kind
  event :=
    { kind := desc.kind.raw
      runtimeId := UInt64.ofNat desc.runtimeId.value
      taskId := UInt64.ofNat desc.taskSequence
      targetRuntimeId := UInt64.ofNat desc.targetRuntimeId.value
      targetTaskId := UInt64.ofNat desc.targetTaskSequence
      graphRunId := UInt64.ofNat desc.graphRunSequence }

namespace RuntimeDiagnostics

def selectSlot (d : RuntimeDiagnostics) (fromCurrentWorker : Bool) (workerIndex : Nat) :
    Option Nat :=
  if d.traceCollector.isNone then none
  else if fromCurrentWorker ∧ workerIndex < d.workerSlots.length then d.workerSlots[workerIndex]?
  else d.externalSlot

/-- The `description` of `emit_wait_event`. -/
def waitDesc (d : RuntimeDiagnostics) (kind : TraceEventKind) (source target : TaskId)
    (graphTarget : GraphRunId) : TraceEmitDesc where
  kind := kind
  runtimeId := d.runtimeId
  taskSequence := if source.valid then source.sequence else 0
  targetRuntimeId := if target.valid then target.runtimeId else {}
  targetTaskSequence := if target.valid then target.sequence else 0
  graphRunSequence := if graphRunValid graphTarget then graphTarget.sequence else 0

def emitWaitEvent (d : RuntimeDiagnostics) (fromCurrentWorker : Bool) (workerIndex : Nat)
    (kind : TraceEventKind) (source target : TaskId) (graphTarget : GraphRunId) :
    Option Emission :=
  (d.selectSlot fromCurrentWorker workerIndex).map fun slot =>
    traceEmitDesc slot (d.waitDesc kind source target graphTarget)

end RuntimeDiagnostics

/-! ## Where the events come from -/

/-- A thread and the registry as it finds it. -/
structure Caller (I : Type) where
  registry : RuntimeRegistry
  ctx : ThreadContext I

namespace Caller

def currentWorkerDiagnostics (c : Caller I) : Option RuntimeDiagnostics :=
  if c.ctx.currentWorkerImpl.isNone ∨ c.ctx.currentWorkerRuntimeId.value = 0 then none
  else c.registry.findRuntimeInstance c.ctx.currentWorkerRuntimeId

/-- The diagnostics a wait or await of something in runtime `id` is recorded with. -/
def diagnosticsFor (c : Caller I) (id : RuntimeId) : Option RuntimeDiagnostics :=
  if c.ctx.currentWorkerImpl.isSome then c.currentWorkerDiagnostics
  else c.registry.findRuntimeInstance id

def emitWaitTraceEvent (c : Caller I) (diagnostics : Option RuntimeDiagnostics)
    (kind : TraceEventKind) (source target : TaskId) (graphTarget : GraphRunId) :
    Option Emission :=
  diagnostics.bind fun d =>
    d.emitWaitEvent (c.currentWorkerDiagnostics = some d) c.ctx.currentWorkerIndex kind source
      target graphTarget

end Caller

/-- What `WaitDiagnosticsGuard` keeps for its destructor. -/
structure WaitDiagnosticsGuard where
  diagnostics : Option RuntimeDiagnostics
  source : TaskId
  target : TaskId := {}
  graphTarget : GraphRunId := {}

def WaitDiagnosticsGuard.emit (g : WaitDiagnosticsGuard) (c : Caller I) (kind : TraceEventKind) :
    Option Emission :=
  c.emitWaitTraceEvent g.diagnostics kind g.source g.target g.graphTarget

namespace Caller

/-- Rejected before anything is recorded. -/
def directSelfWait (c : Caller I) (target : TaskId) : Bool :=
  c.ctx.currentWorkerImpl.isSome && c.ctx.currentExecutingTaskId != {} &&
    c.ctx.currentExecutingTaskId == target

/-- The same for a thread that executes a node of `executing`. -/
def directSelfRun (c : Caller I) (executing target : GraphRunId) : Bool :=
  c.ctx.currentWorkerImpl.isSome && executing != {} && executing == target

/-- `perform_caller_wait` up to its guard; `none` when it throws before. -/
def performCallerWait (c : Caller I) (target : TaskId) : Option WaitDiagnosticsGuard :=
  if c.directSelfWait target then none
  else
    some
      { diagnostics := c.diagnosticsFor target.runtimeId
        source := c.ctx.currentExecutingTaskId
        target := target }

/-- `perform_graph_caller_wait` up to its guard. -/
def performGraphCallerWait (c : Caller I) (executing target : GraphRunId) :
    Option WaitDiagnosticsGuard :=
  if c.directSelfRun executing target then none
  else
    some
      { diagnostics := c.diagnosticsFor target.runtimeId
        source := c.ctx.currentExecutingTaskId
        graphTarget := target }

def recordAwaitRegistration (c : Caller I) (source target : TaskId) : Option Emission :=
  c.emitWaitTraceEvent (c.diagnosticsFor target.runtimeId) .awaitArmed source target {}

def recordAwaitTriggered (c : Caller I) (source target : TaskId) : Option Emission :=
  c.emitWaitTraceEvent (c.diagnosticsFor target.runtimeId) .awaitTriggered source target {}

def recordAwaitResumed (c : Caller I) (source target : TaskId) : Option Emission :=
  c.emitWaitTraceEvent (c.diagnosticsFor target.runtimeId) .awaitResumed source target {}

end Caller

/-- One of the places that emit.  A wait ends on the thread it began on; `atExit` is what its
guard's destructor finds there. -/
inductive EmitCall (I : Type) where
  | waitBegin (target : TaskId)
  | waitEnd (target : TaskId) (atExit : Caller I)
  | graphWaitBegin (executing target : GraphRunId)
  | graphWaitEnd (executing target : GraphRunId) (atExit : Caller I)
  | awaitArmed (source target : TaskId)
  | awaitTriggered (source target : TaskId)
  | awaitResumed (source target : TaskId)

namespace EmitCall

def emitted (c : Caller I) : EmitCall I → Option Emission
  | .waitBegin target => (c.performCallerWait target).bind (·.emit c .waitBegin)
  | .waitEnd target atExit => (c.performCallerWait target).bind (·.emit atExit .waitEnd)
  | .graphWaitBegin executing target =>
    (c.performGraphCallerWait executing target).bind (·.emit c .waitBegin)
  | .graphWaitEnd executing target atExit =>
    (c.performGraphCallerWait executing target).bind (·.emit atExit .waitEnd)
  | .awaitArmed source target => c.recordAwaitRegistration source target
  | .awaitTriggered source target => c.recordAwaitTriggered source target
  | .awaitResumed source target => c.recordAwaitResumed source target

/-- The task that waits; the default id for a thread outside any task. -/
def waiting (c : Caller I) : EmitCall I → TaskId
  | .waitBegin _ | .waitEnd _ _ | .graphWaitBegin _ _ | .graphWaitEnd _ _ _ =>
    c.ctx.currentExecutingTaskId
  | .awaitArmed source _ | .awaitTriggered source _ | .awaitResumed source _ => source

/-- The task that is waited for. -/
def target : EmitCall I → TaskId
  | .waitBegin target | .waitEnd target _ | .awaitArmed _ target | .awaitTriggered _ target
  | .awaitResumed _ target => target
  | .graphWaitBegin _ _ | .graphWaitEnd _ _ _ => {}

/-- The runtime of what is waited for, a graph run included. -/
def targetRuntime : EmitCall I → RuntimeId
  | .graphWaitBegin _ target | .graphWaitEnd _ target _ => target.runtimeId
  | call => call.target.runtimeId

/-- The wait of a task or a graph run for itself. -/
def rejected (c : Caller I) : EmitCall I → Bool
  | .waitBegin target | .waitEnd target _ => c.directSelfWait target
  | .graphWaitBegin executing target | .graphWaitEnd executing target _ =>
    c.directSelfRun executing target
  | _ => false

/-- The thread the event is emitted on, as it is then. -/
def emitter (c : Caller I) : EmitCall I → Caller I
  | .waitEnd _ atExit | .graphWaitEnd _ _ atExit => atExit
  | _ => c

end EmitCall

/-! ## True identities -/

/-- Identifiers are 64-bit values in the source. -/
structure Fits (t : TaskId) : Prop where
  runtime : t.runtimeId.value < 2 ^ 64
  sequence : t.sequence < 2 ^ 64

/-- The source pair of an event. -/
def recordedSource (e : TraceEvent) : TaskId := ⟨⟨e.runtimeId.toNat⟩, e.taskId.toNat⟩

def recordedTarget (e : TraceEvent) : TaskId := ⟨⟨e.targetRuntimeId.toNat⟩, e.targetTaskId.toNat⟩

/-- An event of a wait of `waiting` for `target`. -/
structure TrueIdentity (waiting target : TaskId) (e : TraceEvent) : Prop where
  source : e.taskId ≠ 0 → recordedSource e = waiting
  target : recordedTarget e = if target.valid then target else {}

/-- The runtime whose diagnostics are used: the worker's, or on other threads that of what is
waited for. -/
def emittingRuntime (c : Caller I) (call : EmitCall I) : RuntimeId :=
  if c.ctx.currentWorkerImpl.isSome then c.ctx.currentWorkerRuntimeId else call.targetRuntime

/-- The slot the event goes to. -/
def producerSlot (c : Caller I) (call : EmitCall I) : Option Nat :=
  (c.diagnosticsFor call.targetRuntime).bind fun d =>
    d.selectSlot ((call.emitter c).currentWorkerDiagnostics = some d)
      (call.emitter c).ctx.currentWorkerIndex

/-- The waiting task, if there is one, is of the runtime that records its event. -/
def AtHome (c : Caller I) (call : EmitCall I) : Prop :=
  call.rejected c = false → (producerSlot c call).isSome → (call.waiting c).valid →
    emittingRuntime c call = (call.waiting c).runtimeId

structure IdsFit (c : Caller I) (call : EmitCall I) : Prop where
  waiting : Fits (call.waiting c)
  target : Fits call.target
  runtime : (emittingRuntime c call).value < 2 ^ 64

/-! ## When the identities are true -/

theorem toNat_ofNat {n : Nat} (h : n < 2 ^ 64) : (UInt64.ofNat n).toNat = n := by
  rw [UInt64.toNat_ofNat']
  exact Nat.mod_eq_of_lt h

theorem taskId_eq {r : RuntimeId} {n : Nat} (hr : r.value < 2 ^ 64) (hn : n < 2 ^ 64) :
    (⟨⟨(UInt64.ofNat r.value).toNat⟩, (UInt64.ofNat n).toNat⟩ : TaskId) = ⟨r, n⟩ := by
  rw [toNat_ofNat hr, toNat_ofNat hn]

/-- The event of one `emit_wait_event`. -/
theorem trueIdentity_waitDesc {d : RuntimeDiagnostics} {source target : TaskId}
    (hd : d.runtimeId.value < 2 ^ 64) (hs : Fits source) (ht : Fits target) (slot : Nat)
    (kind : TraceEventKind) (graphTarget : GraphRunId) :
    TrueIdentity source target
        (traceEmitDesc slot (d.waitDesc kind source target graphTarget)).event ↔
      (source.valid → d.runtimeId = source.runtimeId) := by
  have htarget : recordedTarget
      (traceEmitDesc slot (d.waitDesc kind source target graphTarget)).event =
      if target.valid then target else {} := by
    unfold recordedTarget traceEmitDesc RuntimeDiagnostics.waitDesc
    by_cases hv : target.valid
    · simp only [if_pos hv]
      exact taskId_eq ht.runtime ht.sequence
    · simp only [if_neg hv]
      exact taskId_eq (r := {}) (n := 0) (by decide) (by decide)
  by_cases hv : source.valid
  · have hne : UInt64.ofNat source.sequence ≠ 0 := by
      intro hzero
      have hseq := congrArg UInt64.toNat hzero
      rw [toNat_ofNat hs.sequence] at hseq
      simp [TaskId.valid, hseq] at hv
    refine ⟨fun hid _ => ?_, fun hhome => ⟨fun _ => ?_, htarget⟩⟩
    · have hsource := hid.source
        (by simpa [traceEmitDesc, RuntimeDiagnostics.waitDesc, hv] using hne)
      rw [← congrArg TaskId.runtimeId hsource]
      exact (congrArg RuntimeId.mk (toNat_ofNat hd)).symm
    · simp only [recordedSource, traceEmitDesc, RuntimeDiagnostics.waitDesc, if_pos hv, hhome hv]
      exact taskId_eq hs.runtime hs.sequence
  · refine iff_of_true ⟨fun hne => ?_, htarget⟩ fun h => absurd h hv
    simp [traceEmitDesc, RuntimeDiagnostics.waitDesc, hv] at hne

theorem trueIdentity_emitWaitEvent {d : RuntimeDiagnostics} {fromCurrentWorker : Bool}
    {workerIndex : Nat} {kind : TraceEventKind} {source target : TaskId} {graphTarget : GraphRunId}
    (hd : d.runtimeId.value < 2 ^ 64) (hs : Fits source) (ht : Fits target) :
    (∀ e, d.emitWaitEvent fromCurrentWorker workerIndex kind source target graphTarget = some e →
        TrueIdentity source target e.event) ↔
      ((d.selectSlot fromCurrentWorker workerIndex).isSome → source.valid →
        d.runtimeId = source.runtimeId) := by
  unfold RuntimeDiagnostics.emitWaitEvent
  cases d.selectSlot fromCurrentWorker workerIndex with
  | none => simp
  | some slot =>
    have hone := trueIdentity_waitDesc hd hs ht slot kind graphTarget
    simpa using hone

theorem runtimeId_of_find {reg : RuntimeRegistry} {id : RuntimeId} {d : RuntimeDiagnostics}
    (h : reg.findRuntimeInstance id = some d) : d.runtimeId = id := by
  simpa using List.find?_some h

namespace EmitCall

/-- A wait emits through its guard unless it is rejected. -/
theorem bind_emit (rejected : Bool) (g : WaitDiagnosticsGuard) (c : Caller I)
    (kind : TraceEventKind) :
    ((if rejected then none else some g).bind fun g => g.emit c kind) =
      if rejected then none else g.emit c kind := by
  cases rejected <;> rfl

/-- All of them call `emit_wait_event` alike. -/
theorem emitted_eq (c : Caller I) (call : EmitCall I) :
    ∃ kind graphTarget, call.emitted c =
      if call.rejected c then none
      else (c.diagnosticsFor call.targetRuntime).bind fun d =>
        d.emitWaitEvent ((call.emitter c).currentWorkerDiagnostics = some d)
          (call.emitter c).ctx.currentWorkerIndex kind (call.waiting c) call.target
          graphTarget := by
  cases call with
  | waitBegin target => exact ⟨.waitBegin, {}, bind_emit ..⟩
  | waitEnd target atExit => exact ⟨.waitEnd, {}, bind_emit ..⟩
  | graphWaitBegin executing target => exact ⟨.waitBegin, target, bind_emit ..⟩
  | graphWaitEnd executing target atExit => exact ⟨.waitEnd, target, bind_emit ..⟩
  | awaitArmed source target => exact ⟨.awaitArmed, {}, rfl⟩
  | awaitTriggered source target => exact ⟨.awaitTriggered, {}, rfl⟩
  | awaitResumed source target => exact ⟨.awaitResumed, {}, rfl⟩

end EmitCall

theorem runtimeId_of_diagnosticsFor {c : Caller I} {call : EmitCall I} {d : RuntimeDiagnostics}
    (h : c.diagnosticsFor call.targetRuntime = some d) : d.runtimeId = emittingRuntime c call := by
  unfold Caller.diagnosticsFor at h
  unfold emittingRuntime
  split at h
  · rename_i hw
    rw [if_pos hw]
    unfold Caller.currentWorkerDiagnostics at h
    split at h
    · cases h
    · exact runtimeId_of_find h
  · rename_i hw
    rw [if_neg hw]
    exact runtimeId_of_find h

/-- **Every event of a wait or an await** carries true identities exactly when it is recorded
by the waiting task's own runtime. -/
theorem trueIdentity_iff_atHome {c : Caller I} {call : EmitCall I} (h : IdsFit c call) :
    (∀ e, call.emitted c = some e → TrueIdentity (call.waiting c) call.target e.event) ↔
      AtHome c call := by
  obtain ⟨kind, graphTarget, heq⟩ := call.emitted_eq c
  rw [heq]
  unfold AtHome producerSlot
  by_cases hrejected : call.rejected c
  · simp [hrejected]
  · cases hd : c.diagnosticsFor call.targetRuntime with
    | none => simp [hrejected]
    | some d =>
      have hruntime := runtimeId_of_diagnosticsFor hd
      rw [← hruntime, if_neg hrejected, Option.bind_some, Option.bind_some]
      have hfit : d.runtimeId.value < 2 ^ 64 := hruntime ▸ h.runtime
      rw [trueIdentity_emitWaitEvent hfit h.waiting h.target]
      exact ⟨fun hhome _ => hhome, fun hhome => hhome (eq_false_of_ne_true hrejected)⟩

/-- Task 7 of runtime 1 awaits task 5 of runtime 2, whose worker completes it: the event names
task 7 of runtime 2. -/
def crossRuntimeTrigger : Caller Invoker where
  registry :=
    [{ runtimeId := ⟨1⟩, traceCollector := some 0, workerSlots := [2], externalSlot := some 1 },
      { runtimeId := ⟨2⟩, traceCollector := some 0, workerSlots := [3], externalSlot := some 1 }]
  ctx :=
    { currentWorkerRuntimeId := ⟨2⟩
      currentWorkerImpl := some 2
      currentExecutingTaskId := ⟨⟨2⟩, 5⟩ }

theorem awaitTriggered_foreignSource :
    ¬ ∀ (c : Caller Invoker) (call : EmitCall Invoker), IdsFit c call →
      ∀ e, call.emitted c = some e →
        TrueIdentity (call.waiting c) call.target e.event := by
  intro hall
  have hfit : IdsFit crossRuntimeTrigger (.awaitTriggered ⟨⟨1⟩, 7⟩ ⟨⟨2⟩, 5⟩) :=
    ⟨⟨by decide, by decide⟩, ⟨by decide, by decide⟩, by decide⟩
  obtain ⟨e, he⟩ := Option.isSome_iff_exists.mp (show (EmitCall.emitted crossRuntimeTrigger
    (.awaitTriggered ⟨⟨1⟩, 7⟩ ⟨⟨2⟩, 5⟩)).isSome by decide)
  have hsource : (EmitCall.emitted crossRuntimeTrigger (.awaitTriggered ⟨⟨1⟩, 7⟩ ⟨⟨2⟩, 5⟩)).map
      (fun e => (e.event.taskId, recordedSource e.event)) = some (7, ⟨⟨2⟩, 7⟩) := by decide
  rw [he] at hsource
  obtain ⟨htask, hpair⟩ := Prod.mk.inj (Option.some.inj hsource)
  have htrue := (hall _ _ hfit e he).source (by rw [htask]; decide)
  rw [hpair] at htrue
  revert htrue
  decide

/-- The worker that runs task 7 arms the same await. -/
def armingAtHome : Caller Invoker :=
  { crossRuntimeTrigger with
    ctx :=
      { currentWorkerRuntimeId := ⟨1⟩
        currentWorkerImpl := some 1
        currentExecutingTaskId := ⟨⟨1⟩, 7⟩ } }

theorem trueIdentity_armingAtHome :
    ∃ e, EmitCall.emitted armingAtHome (.awaitArmed ⟨⟨1⟩, 7⟩ ⟨⟨2⟩, 5⟩) = some e ∧
      TrueIdentity ⟨⟨1⟩, 7⟩ ⟨⟨2⟩, 5⟩ e.event := by
  have hfit : IdsFit armingAtHome (.awaitArmed ⟨⟨1⟩, 7⟩ ⟨⟨2⟩, 5⟩) :=
    ⟨⟨by decide, by decide⟩, ⟨by decide, by decide⟩, by decide⟩
  have hhome : AtHome armingAtHome (.awaitArmed ⟨⟨1⟩, 7⟩ ⟨⟨2⟩, 5⟩) := fun _ _ _ => by decide
  obtain ⟨e, he⟩ := Option.isSome_iff_exists.mp (show (EmitCall.emitted armingAtHome
    (.awaitArmed ⟨⟨1⟩, 7⟩ ⟨⟨2⟩, 5⟩)).isSome by decide)
  exact ⟨e, he, (trueIdentity_iff_atHome hfit).mpr hhome e he⟩

end WaitEvents
end AstraScheduler
