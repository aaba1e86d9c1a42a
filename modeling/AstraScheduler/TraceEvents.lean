import Mathlib.Data.List.Sort

/-! # Trace events and snapshots

The records a capture leaves behind (`include/astra/trace.hpp`): kinds with their raw
values, the category each kind belongs to, events, producer reports and the snapshot.  A
snapshot without backing (a default-constructed or moved-from one) is `none`.  The order of
an export is that of `trace_ordered_events` in `src/observability/trace_collector.cpp`. -/

namespace AstraScheduler.Trace

/-! ## Categories -/

/-- A bit mask; the source gives each category one bit. -/
abbrev TraceCategory := UInt64

namespace TraceCategory

def none : TraceCategory := 0
def taskLifecycle : TraceCategory := 0x1
def queueScheduling : TraceCategory := 0x2
def stealSuccess : TraceCategory := 0x4
def stealAttempt : TraceCategory := 0x8
def waitAwait : TraceCategory := 0x10
def coroutine : TraceCategory := 0x20
def graph : TraceCategory := 0x40
def timer : TraceCategory := 0x80
def deadline : TraceCategory := 0x100
def runtimeLifecycle : TraceCategory := 0x200
def verbose : TraceCategory := 0x400

end TraceCategory

/-! ## Kinds -/

inductive TraceEventKind
  | admission
  | rejected
  | taskReady
  | taskClaimed
  | taskFirstStart
  | taskSegmentEnd
  | taskTerminal
  | cancelRequested
  | localClaim
  | globalClaim
  | stealSuccess
  | stealAttempt
  | workerPark
  | workerWake
  | coroutineSuspend
  | coroutineResume
  | coroutineYield
  | timerRegister
  | timerFire
  | timerCancel
  | graphAccepted
  | graphTerminal
  | nodeDependencyRelease
  | deadlineMet
  | deadlineMissed
  | waitBegin
  | waitEnd
  | awaitArmed
  | awaitTriggered
  | awaitResumed
  | runtimeHandoff
  | runtimeJoinReady
  | runtimeJoined
  | finalizationBegin
  | finalizationEscalate
  | coordinatorExit
  | finalizationComplete
  | unobservedFailure
  deriving DecidableEq, Repr

/-- The value an event stores. -/
def TraceEventKind.raw : TraceEventKind → UInt16
  | .admission => 1
  | .rejected => 2
  | .taskReady => 3
  | .taskClaimed => 4
  | .taskFirstStart => 5
  | .taskSegmentEnd => 6
  | .taskTerminal => 7
  | .cancelRequested => 8
  | .localClaim => 9
  | .globalClaim => 10
  | .stealSuccess => 11
  | .stealAttempt => 12
  | .workerPark => 13
  | .workerWake => 14
  | .coroutineSuspend => 15
  | .coroutineResume => 16
  | .coroutineYield => 17
  | .timerRegister => 18
  | .timerFire => 19
  | .timerCancel => 20
  | .graphAccepted => 21
  | .graphTerminal => 22
  | .nodeDependencyRelease => 23
  | .deadlineMet => 24
  | .deadlineMissed => 25
  | .waitBegin => 26
  | .waitEnd => 27
  | .awaitArmed => 28
  | .awaitTriggered => 29
  | .awaitResumed => 30
  | .runtimeHandoff => 31
  | .runtimeJoinReady => 32
  | .runtimeJoined => 33
  | .finalizationBegin => 34
  | .finalizationEscalate => 35
  | .coordinatorExit => 36
  | .finalizationComplete => 37
  | .unobservedFailure => 38

def TraceEventKind.all : List TraceEventKind :=
  [.admission, .rejected, .taskReady, .taskClaimed, .taskFirstStart, .taskSegmentEnd,
    .taskTerminal, .cancelRequested, .localClaim, .globalClaim, .stealSuccess, .stealAttempt,
    .workerPark, .workerWake, .coroutineSuspend, .coroutineResume, .coroutineYield,
    .timerRegister, .timerFire, .timerCancel, .graphAccepted, .graphTerminal,
    .nodeDependencyRelease, .deadlineMet, .deadlineMissed, .waitBegin, .waitEnd, .awaitArmed,
    .awaitTriggered, .awaitResumed, .runtimeHandoff, .runtimeJoinReady, .runtimeJoined,
    .finalizationBegin, .finalizationEscalate, .coordinatorExit, .finalizationComplete,
    .unobservedFailure]

/-- `static_cast<TraceEventKind>`, as far as the value is one of the enumeration's. -/
def TraceEventKind.ofRaw? (kind : UInt16) : Option TraceEventKind :=
  TraceEventKind.all.find? fun k => k.raw == kind

theorem TraceEventKind.ofRaw?_raw (k : TraceEventKind) : ofRaw? k.raw = some k := by
  cases k <;> rfl

theorem TraceEventKind.raw_of_ofRaw? {kind : UInt16} {k : TraceEventKind}
    (h : ofRaw? kind = some k) : k.raw = kind := by
  have hfound := List.find?_some h
  simpa using hfound

/-- `category_for_kind`. -/
def categoryForKind : TraceEventKind → TraceCategory
  | .admission | .rejected | .taskReady | .taskClaimed | .taskFirstStart | .taskSegmentEnd
  | .taskTerminal | .cancelRequested => .taskLifecycle
  | .localClaim | .globalClaim | .stealSuccess => .queueScheduling
  | .stealAttempt => .stealAttempt
  | .workerPark | .workerWake => .queueScheduling
  | .coroutineSuspend | .coroutineResume | .coroutineYield => .coroutine
  | .timerRegister | .timerFire | .timerCancel => .timer
  | .graphAccepted | .graphTerminal | .nodeDependencyRelease => .graph
  | .deadlineMet | .deadlineMissed => .deadline
  | .waitBegin | .waitEnd | .awaitArmed | .awaitTriggered | .awaitResumed => .waitAwait
  | .runtimeHandoff | .runtimeJoinReady | .runtimeJoined => .runtimeLifecycle
  | .finalizationBegin | .finalizationEscalate | .coordinatorExit | .finalizationComplete
  | .unobservedFailure => .runtimeLifecycle

/-! ## Events and snapshots -/

/-- One recorded event, with the fields the export reads. -/
structure TraceEvent where
  schemaVersion : UInt32 := 1
  category : UInt16 := 0
  kind : UInt16 := 0
  timestampNs : UInt64 := 0
  producerId : UInt64 := 0
  localSequence : UInt64 := 0
  runtimeId : UInt64 := 0
  taskId : UInt64 := 0
  targetRuntimeId : UInt64 := 0
  targetTaskId : UInt64 := 0
  graphRunId : UInt64 := 0
  nodeId : UInt32 := 0
  workerId : UInt32 := 0
  segmentSequence : UInt32 := 0
  deriving DecidableEq, Repr

inductive TraceProducerKind
  | worker
  | externalControl
  | reaper
  deriving DecidableEq, Repr

structure ProducerReport where
  producerId : UInt64 := 0
  kind : TraceProducerKind := .worker
  capacity : UInt64 := 0
  droppedEvents : UInt64 := 0
  deriving DecidableEq, Repr

/-- What a stopped capture commits. -/
structure TraceSnapshotData where
  schemaVersion : UInt32 := 1
  /-- `origin().time_since_epoch().count()`. -/
  origin : Int64 := 0
  eventRecordSize : UInt64 := 0
  categories : TraceCategory := 0
  producers : List ProducerReport := []
  events : List TraceEvent := []
  deriving DecidableEq, Repr

abbrev TraceSnapshot := Option TraceSnapshotData

def TraceSnapshot.events (snapshot : TraceSnapshot) : List TraceEvent :=
  match snapshot with
  | some data => data.events
  | none => []

/-- The comparison of `trace_ordered_events`. -/
def eventBefore (a b : TraceEvent) : Bool :=
  if a.timestampNs ≠ b.timestampNs then a.timestampNs < b.timestampNs
  else if a.producerId ≠ b.producerId then a.producerId < b.producerId
  else a.localSequence < b.localSequence

/-- `trace_ordered_events`: a stable sort, so `a` stays in front of `b` unless `b` comes
before it. -/
def traceOrderedEvents (snapshot : TraceSnapshot) : List TraceEvent :=
  snapshot.events.insertionSort fun a b => eventBefore b a = false

/-- Nothing is lost or made up by ordering. -/
theorem traceOrderedEvents_perm (snapshot : TraceSnapshot) :
    (traceOrderedEvents snapshot).Perm snapshot.events :=
  List.perm_insertionSort _ _

end AstraScheduler.Trace
