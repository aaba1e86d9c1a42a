import AstraScheduler.JsonGrammar
import AstraScheduler.TraceEvents

/-! # The Chrome trace writer and the bracket it leaves open

`write_chrome_trace` of `src/observability/trace_export.cpp`, piece by piece: its
validation, the fold over the ordered events that pairs segment ends with their starts,
the text of one event, and the metadata behind the events.

The writer promises syntactically valid JSON for every loss, and its tests assume balanced
brackets.  Each event is a balanced text (`eventText_balanced`), each separator too, and so
is the metadata.  The bracket of `{"traceEvents":[` is the one that nothing closes:
whatever the snapshot and the layout, one more bracket is opened than closed
(`chromeTraceText_moves`), so no written text is JSON. -/

namespace AstraScheduler.Trace
open JsonGrammar

/-! ## Names -/

def TraceEventKind.name : TraceEventKind → String
  | .admission => "admission"
  | .rejected => "rejected"
  | .taskReady => "task_ready"
  | .taskClaimed => "task_claimed"
  | .taskFirstStart => "task_first_start"
  | .taskSegmentEnd => "task_segment_end"
  | .taskTerminal => "task_terminal"
  | .cancelRequested => "cancel_requested"
  | .localClaim => "local_claim"
  | .globalClaim => "global_claim"
  | .stealSuccess => "steal_success"
  | .stealAttempt => "steal_attempt"
  | .workerPark => "worker_park"
  | .workerWake => "worker_wake"
  | .coroutineSuspend => "coroutine_suspend"
  | .coroutineResume => "coroutine_resume"
  | .coroutineYield => "coroutine_yield"
  | .timerRegister => "timer_register"
  | .timerFire => "timer_fire"
  | .timerCancel => "timer_cancel"
  | .graphAccepted => "graph_accepted"
  | .graphTerminal => "graph_terminal"
  | .nodeDependencyRelease => "node_dependency_release"
  | .deadlineMet => "deadline_met"
  | .deadlineMissed => "deadline_missed"
  | .waitBegin => "wait_begin"
  | .waitEnd => "wait_end"
  | .awaitArmed => "await_armed"
  | .awaitTriggered => "await_triggered"
  | .awaitResumed => "await_resumed"
  | .runtimeHandoff => "runtime_handoff"
  | .runtimeJoinReady => "runtime_join_ready"
  | .runtimeJoined => "runtime_joined"
  | .finalizationBegin => "finalization_begin"
  | .finalizationEscalate => "finalization_escalate"
  | .coordinatorExit => "coordinator_exit"
  | .finalizationComplete => "finalization_complete"
  | .unobservedFailure => "unobserved_failure"

/-- `trace_event_kind_name`: a null pointer for an unknown kind. -/
def traceEventKindName (kind : UInt16) : Option String :=
  (TraceEventKind.ofRaw? kind).map TraceEventKind.name

/-- `trace_category_name`.  The category of successful steals has no name. -/
def traceCategoryName (category : TraceCategory) : Option String :=
  if category = .taskLifecycle then some "task"
  else if category = .queueScheduling then some "queue"
  else if category = .stealAttempt then some "steal_attempt"
  else if category = .waitAwait then some "wait_await"
  else if category = .coroutine then some "coroutine"
  else if category = .graph then some "graph"
  else if category = .timer then some "timer"
  else if category = .deadline then some "deadline"
  else if category = .runtimeLifecycle then some "runtime"
  else if category = .verbose then some "verbose"
  else none

def producerKindName : TraceProducerKind → String
  | .worker => "worker"
  | .externalControl => "external_control"
  | .reaper => "reaper"

/-! ## Numbers and strings

Each function gives what the source's appends to its output. -/

/-- `std::to_string`. -/
def stdToString (n : Nat) : List Char := Nat.toDigits 10 n

/-- `append_ns_as_us`: microseconds with three decimals. -/
def appendNsAsUs (ns : UInt64) : List Char :=
  let fraction := ns % 1000
  stdToString (ns / 1000).toNat ++ '.' ::
    ((if fraction < 100 then ['0'] else []) ++ (if fraction < 10 then ['0'] else []) ++
      stdToString fraction.toNat)

/-- The digit of `value & 0xF`. -/
def hexDigit (value : UInt64) : Char := Nat.digitChar (value &&& 0xF).toNat

/-- The loop of `append_hex64`, `i` places before the end of the buffer. -/
def hexLoop : Nat → UInt64 → List Char → List Char
  | 0, _, buf => buf
  | i + 1, value, buf => hexLoop i (value >>> 4) (hexDigit value :: buf)

/-- `append_hex64`. -/
def appendHex64 (value : UInt64) : List Char := hexLoop 16 value []

/-- One character of `append_json_string`. -/
def escapeChar (c : Char) : List Char :=
  if c = '"' then "\\\"".toList
  else if c = '\\' then "\\\\".toList
  else if c = '\n' then "\\n".toList
  else if c = '\r' then "\\r".toList
  else if c = '\t' then "\\t".toList
  else if c.toNat < 0x20 then
    "\\u00".toList ++
      [hexDigit (UInt64.ofNat (c.toNat / 16)), hexDigit (UInt64.ofNat c.toNat)]
  else [c]

/-- `append_json_string`. -/
def appendJsonString (text : List Char) : List Char :=
  '"' :: text.flatMap escapeChar ++ ['"']

/-- `append_json_string` of a table's name.  The source would follow a null pointer where
the table has none; validation keeps such events out. -/
def appendJsonName (name : Option String) : List Char :=
  match name with
  | some text => appendJsonString text.toList
  | none => []

/-! ## Validation -/

/-- What the writer throws. -/
inductive ExportError
  | invalidArgument (what : String)
  | runtimeError (what : String)
  deriving DecidableEq, Repr

/-- The checks on one event, in their order. -/
def validateEvent (ev : TraceEvent) : Except ExportError Unit := do
  if ev.schemaVersion ≠ 1 then
    throw (.invalidArgument "trace event carries unsupported schema_version")
  match TraceEventKind.ofRaw? ev.kind with
  | none => throw (.invalidArgument "trace event carries unknown EventKind")
  | some kind =>
    let category := categoryForKind kind
    if category = .none ∨ ev.category ≠ (category &&& 0xFFFF).toUInt16 then
      throw (.invalidArgument "trace event category does not match its EventKind")
  if (ev.taskId ≠ 0 ∨ ev.graphRunId ≠ 0 ∨ ev.segmentSequence ≠ 0) ∧ ev.runtimeId = 0 then
    throw (.invalidArgument "task-bearing trace event is missing RuntimeId")
  if (ev.targetTaskId ≠ 0 ∨ ev.targetRuntimeId ≠ 0) ∧
      (ev.targetRuntimeId = 0 ∨ ev.targetTaskId = 0) then
    throw (.invalidArgument "wait edge trace event has incomplete target identity")
  if ev.nodeId ≠ 0 ∧ ev.graphRunId = 0 then
    throw (.invalidArgument "trace event carries NodeId without GraphRunId")
  if ev.segmentSequence ≠ 0 ∧ ev.taskId = 0 then
    throw (.invalidArgument "trace event carries SegmentSequence without TaskId")

/-- The validation loop: the first bad event decides. -/
def validate : List TraceEvent → Except ExportError Unit
  | [] => pure ()
  | ev :: events => do
    validateEvent ev
    validate events

/-! ## Phases

How an event is shown is decided together with the pairing of segments. -/

def isFlowStartKind (kind : UInt16) : Bool :=
  kind == TraceEventKind.admission.raw || kind == TraceEventKind.taskReady.raw ||
    kind == TraceEventKind.coroutineSuspend.raw || kind == TraceEventKind.awaitArmed.raw

def isFlowFinishKind (kind : UInt16) : Bool :=
  kind == TraceEventKind.taskClaimed.raw || kind == TraceEventKind.localClaim.raw ||
    kind == TraceEventKind.globalClaim.raw || kind == TraceEventKind.stealSuccess.raw ||
    kind == TraceEventKind.coroutineResume.raw || kind == TraceEventKind.awaitTriggered.raw ||
    kind == TraceEventKind.awaitResumed.raw

def isSegmentEndKind (kind : UInt16) : Bool :=
  kind == TraceEventKind.taskSegmentEnd.raw || kind == TraceEventKind.taskTerminal.raw

def isSegmentStartKind (kind : UInt16) : Bool :=
  kind == TraceEventKind.taskFirstStart.raw || kind == TraceEventKind.coroutineResume.raw ||
    kind == TraceEventKind.awaitResumed.raw

/-- Producer, runtime and task. -/
abbrev SegmentKey := UInt64 × UInt64 × UInt64

def TraceEvent.segmentKey (ev : TraceEvent) : SegmentKey :=
  (ev.producerId, ev.runtimeId, ev.taskId)

/-- The map `segment_start`. -/
abbrev SegmentStarts := SegmentKey → Option UInt64

inductive Phase
  /-- `ph: X`, with the recorded start. -/
  | duration (start : UInt64)
  /-- A segment end whose start is not known: shown as an instant, counted as a gap. -/
  | gap
  | flowStart
  | flowFinish
  | instant
  deriving DecidableEq, Repr

/-- The phase of an event and the map behind it. -/
def phaseOf (starts : SegmentStarts) (ev : TraceEvent) : Phase × SegmentStarts :=
  let starts :=
    if isSegmentStartKind ev.kind then
      Function.update starts ev.segmentKey (some ev.timestampNs)
    else starts
  if isSegmentEndKind ev.kind then
    match starts ev.segmentKey with
    | some start =>
      if start ≤ ev.timestampNs then
        (.duration start, Function.update starts ev.segmentKey none)
      else (.gap, starts)
    | none => (.gap, starts)
  else if isFlowStartKind ev.kind && ev.taskId != 0 then (.flowStart, starts)
  else if isFlowFinishKind ev.kind && ev.taskId != 0 then (.flowFinish, starts)
  else (.instant, starts)

/-! ## The text of an event -/

/-- `,"id":"0x…"`, the flow id. -/
def flowIdText (ev : TraceEvent) : List Char :=
  ",\"id\":\"0x".toList ++ appendHex64 ev.runtimeId ++ appendHex64 ev.taskId ++ ['"']

/-- From behind the opening quote of `ph` to the end of the time stamps. -/
def phaseText (phase : Phase) (ev : TraceEvent) : List Char :=
  match phase with
  | .duration start =>
    "X\",\"ts\":".toList ++ appendNsAsUs start ++ ",\"dur\":".toList ++
      appendNsAsUs (ev.timestampNs - start)
  | .gap => "i\",\"ts\":".toList ++ appendNsAsUs ev.timestampNs
  | .flowStart => "s\",\"ts\":".toList ++ appendNsAsUs ev.timestampNs ++ flowIdText ev
  | .flowFinish => "f\",\"ts\":".toList ++ appendNsAsUs ev.timestampNs ++ flowIdText ev
  | .instant => "i\",\"ts\":".toList ++ appendNsAsUs ev.timestampNs

/-- A member that is written only if its field is set. -/
def optionalField (name : String) (value : Nat) : List Char :=
  if value ≠ 0 then name.toList ++ stdToString value else []

/-- What stands between the braces of `args`. -/
def argsText (ev : TraceEvent) : List Char :=
  "\"producer\":".toList ++ stdToString ev.producerId.toNat ++
    ",\"sequence\":".toList ++ stdToString ev.localSequence.toNat ++
    ",\"runtime\":".toList ++ stdToString ev.runtimeId.toNat ++
    optionalField ",\"worker\":" ev.workerId.toNat ++
    optionalField ",\"task\":" ev.taskId.toNat ++
    (if ev.targetRuntimeId ≠ 0 then
      ",\"target_runtime\":".toList ++ stdToString ev.targetRuntimeId.toNat ++
        ",\"target_task\":".toList ++ stdToString ev.targetTaskId.toNat
    else []) ++
    optionalField ",\"graph_run\":" ev.graphRunId.toNat ++
    optionalField ",\"node\":" ev.nodeId.toNat ++
    optionalField ",\"segment\":" ev.segmentSequence.toNat

/-- The object written for one event. -/
def eventText (phase : Phase) (ev : TraceEvent) : List Char :=
  "\x7b\"name\":".toList ++ appendJsonName (traceEventKindName ev.kind) ++
    ",\"cat\":".toList ++
    appendJsonName (traceCategoryName (ev.category.toUInt64 &&& 0xFFFF)) ++
    ",\"ph\":\"".toList ++ phaseText phase ev ++
    ",\"pid\":1,\"tid\":".toList ++ stdToString ev.producerId.toNat ++
    ",\"args\":\x7b".toList ++ argsText ev ++ "\x7d\x7d".toList

/-! ## The loop over the events -/

structure ExportState where
  segmentStart : SegmentStarts
  /-- The map `recorded_by_producer`; a producer without entry has recorded none. -/
  recordedByProducer : UInt64 → UInt64
  schemaGaps : UInt64
  first : Bool
  json : List Char

/-- One round of the loop. -/
def exportEvent (sep : List Char) (st : ExportState) (ev : TraceEvent) : ExportState :=
  let (phase, starts) := phaseOf st.segmentStart ev
  { segmentStart := starts
    recordedByProducer :=
      Function.update st.recordedByProducer ev.producerId (st.recordedByProducer ev.producerId + 1)
    schemaGaps := if phase = .gap then st.schemaGaps + 1 else st.schemaGaps
    first := false
    json := st.json ++ (if st.first then [] else sep) ++ eventText phase ev }

def exportEvents (sep json : List Char) (events : List TraceEvent) : ExportState :=
  events.foldl (exportEvent sep) ⟨fun _ => none, fun _ => 0, 0, true, json⟩

/-! ## Metadata and the whole text -/

/-- The entry of one producer. -/
def reportText (recordedByProducer : UInt64 → UInt64) (report : ProducerReport) : List Char :=
  "\x7b\"producer_id\":".toList ++ stdToString report.producerId.toNat ++
    ",\"kind\":".toList ++ appendJsonString (producerKindName report.kind).toList ++
    ",\"capacity\":".toList ++ stdToString report.capacity.toNat ++
    ",\"recorded\":".toList ++ stdToString (recordedByProducer report.producerId).toNat ++
    ",\"dropped\":".toList ++ stdToString report.droppedEvents.toNat ++ ['}']

/-- The loop over the producers. -/
def reportsText (recordedByProducer : UInt64 → UInt64) : List ProducerReport → List Char
  | [] => []
  | report :: reports =>
    reportText recordedByProducer report ++
      reports.flatMap fun r => ',' :: reportText recordedByProducer r

structure ChromeTraceExportResult where
  traceComplete : Bool
  recordedEvents : UInt64
  droppedEvents : UInt64
  schemaGaps : UInt64
  deriving DecidableEq, Repr

def droppedTotal (producers : List ProducerReport) : UInt64 :=
  producers.foldl (fun total report => total + report.droppedEvents) 0

def exportResult (data : TraceSnapshotData) (events : List TraceEvent) (st : ExportState) :
    ChromeTraceExportResult where
  traceComplete := droppedTotal data.producers == 0 && st.schemaGaps == 0
  recordedEvents := UInt64.ofNat events.length
  droppedEvents := droppedTotal data.producers
  schemaGaps := st.schemaGaps

/-- From `"metadata":` to the brace that closes its object. -/
def metadataText (data : TraceSnapshotData) (result : ChromeTraceExportResult)
    (recordedByProducer : UInt64 → UInt64) : List Char :=
  "\"metadata\":\x7b\"format\":".toList ++ appendJsonString "chrome_trace_event".toList ++
    ",\"exporter_version\":".toList ++ appendJsonString "1.0".toList ++
    ",\"schema_version\":".toList ++ stdToString data.schemaVersion.toNat ++
    ",\"event_record_size\":".toList ++ stdToString data.eventRecordSize.toNat ++
    ",\"trace_complete\":".toList ++
    (if result.traceComplete then "true".toList else "false".toList) ++
    ",\"recorded_events\":".toList ++ stdToString result.recordedEvents.toNat ++
    ",\"dropped_events\":".toList ++ stdToString result.droppedEvents.toNat ++
    ",\"schema_gaps\":".toList ++ stdToString result.schemaGaps.toNat ++
    ",\"capture_origin_steady_ns\":".toList ++ stdToString data.origin.toUInt64.toNat ++
    ",\"categories_mask\":\"0x".toList ++ appendHex64 (data.categories &&& 0xFFFFFFFF) ++ ['"'] ++
    ",\"producers\":[".toList ++ reportsText recordedByProducer data.producers ++ "]\x7d".toList

def separator (prettyPrint : Bool) : List Char :=
  if prettyPrint then ",\n".toList else ",".toList

/-- The string `json` when the writer is done, and the result it returns. -/
def chromeTraceText (data : TraceSnapshotData) (events : List TraceEvent) (prettyPrint : Bool) :
    List Char × ChromeTraceExportResult :=
  let sep := separator prettyPrint
  let start := "\x7b\"traceEvents\":[".toList ++ (if prettyPrint then ['\n'] else [])
  let st := exportEvents sep start events
  let result := exportResult data events st
  (st.json ++ sep ++ (if prettyPrint then ['\n'] else []) ++
      metadataText data result st.recordedByProducer ++
      (if prettyPrint then "\n\x7d".toList else "\x7d".toList),
    result)

/-- The caller's stream: what it has taken, and whether it still takes anything. -/
structure OStream where
  written : List Char := []
  good : Bool := true
  deriving DecidableEq, Repr

/-- `write_chrome_trace`. -/
def writeChromeTrace (snapshot : TraceSnapshot) (out : OStream) (prettyPrint : Bool) :
    Except ExportError (ChromeTraceExportResult × OStream) :=
  match snapshot with
  | none =>
    throw (.invalidArgument "write_chrome_trace requires a stopped TraceSnapshot")
  | some data => do
    let events := traceOrderedEvents snapshot
    validate events
    let (json, result) := chromeTraceText data events prettyPrint
    if out.good then
      pure (result, { out with written := out.written ++ json })
    else
      throw (.runtimeError "write_chrome_trace failed writing to output stream")

/-! ## What each piece does to the count of brackets -/

theorem stdToString_balanced (n : Nat) : Balanced (stdToString n) := by
  apply Balanced.of_neutral
  intro c hc
  exact neutral_of_isDigit (Nat.isDigit_of_mem_toDigits (by decide) (by decide) hc)

/-- A text that stands only on a condition. -/
theorem optional_balanced {p : Prop} [Decidable p] {t : List Char} (h : Balanced t) :
    Balanced (if p then t else []) := by
  split
  · exact h
  · exact Moves.nil _

theorem appendNsAsUs_balanced (ns : UInt64) : Balanced (appendNsAsUs ns) := by
  have hzero : Balanced ['0'] := Moves.of_scan rfl
  have hpad := (optional_balanced (p := ns % 1000 < 100) hzero).append
    (optional_balanced (p := ns % 1000 < 10) hzero)
  exact (stdToString_balanced _).append
    (Moves.cons (Moves.of_scan (k := 0) rfl) (hpad.append (stdToString_balanced _)))

theorem hexDigit_isHex (value : UInt64) : HexDigit (hexDigit value) := by
  have hdigits : ∀ n < 16, HexDigit (Nat.digitChar n) := by decide
  apply hdigits
  have hand : (value &&& 0xF).toNat = value.toNat &&& 15 := rfl
  have hle : value.toNat &&& 15 ≤ 15 := Nat.and_le_right
  omega

theorem hexLoop_moves (i : Nat) (value : UInt64) {buf : List Char}
    (h : Moves .inside buf .inside 0) : Moves .inside (hexLoop i value buf) .inside 0 := by
  induction i generalizing value buf with
  | zero => exact h
  | succ i ih => exact ih _ (Moves.cons (hexDigit_isHex value).moves h)

theorem appendHex64_moves (value : UInt64) : Moves .inside (appendHex64 value) .inside 0 :=
  hexLoop_moves _ _ (Moves.nil _)

/-- Every character is escaped to what may stand in a string. -/
theorem escapeChar_body (c : Char) {t : List Char} (ht : StringBody t) :
    StringBody (escapeChar c ++ t) := by
  unfold escapeChar
  split_ifs with hquote hback hline hreturn htab hcontrol
  · exact .escape (by decide) ht
  · exact .escape (by decide) ht
  · exact .escape (by decide) ht
  · exact .escape (by decide) ht
  · exact .escape (by decide) ht
  · exact .unicode (by decide) (by decide) (hexDigit_isHex _) (hexDigit_isHex _) ht
  · exact .plain hquote hback (by omega) ht

theorem escape_body (text : List Char) : StringBody (text.flatMap escapeChar) := by
  induction text with
  | nil => exact .nil
  | cons c text ih => rw [List.flatMap_cons]; exact escapeChar_body c ih

theorem appendJsonString_balanced (text : List Char) : Balanced (appendJsonString text) :=
  (escape_body text).balanced

theorem appendJsonName_balanced (name : Option String) : Balanced (appendJsonName name) := by
  induction name with
  | none => exact Moves.nil _
  | some text => exact appendJsonString_balanced _

/-- A hexadecimal number between `0x` and the closing quote. -/
theorem closeString_moves : Moves .inside ['"'] .outside 0 := Moves.of_scan rfl

theorem flowIdText_balanced (ev : TraceEvent) : Balanced (flowIdText ev) := by
  have hopen : Moves .outside ",\"id\":\"0x".toList .inside 0 := Moves.of_chars (by decide)
  exact ((hopen.append (appendHex64_moves _)).append (appendHex64_moves _)).append
    closeString_moves

/-- The phase's text begins inside of the string it closes. -/
theorem phaseText_moves (phase : Phase) (ev : TraceEvent) :
    Moves .inside (phaseText phase ev) .outside 0 := by
  induction phase with
  | duration start =>
    have hopen : Moves .inside "X\",\"ts\":".toList .outside 0 := Moves.of_chars (by decide)
    have hdur : Balanced ",\"dur\":".toList := Moves.of_chars (by decide)
    exact ((hopen.append (appendNsAsUs_balanced _)).append hdur).append
      (appendNsAsUs_balanced _)
  | gap =>
    have hopen : Moves .inside "i\",\"ts\":".toList .outside 0 := Moves.of_chars (by decide)
    exact hopen.append (appendNsAsUs_balanced _)
  | flowStart =>
    have hopen : Moves .inside "s\",\"ts\":".toList .outside 0 := Moves.of_chars (by decide)
    exact (hopen.append (appendNsAsUs_balanced _)).append (flowIdText_balanced ev)
  | flowFinish =>
    have hopen : Moves .inside "f\",\"ts\":".toList .outside 0 := Moves.of_chars (by decide)
    exact (hopen.append (appendNsAsUs_balanced _)).append (flowIdText_balanced ev)
  | instant =>
    have hopen : Moves .inside "i\",\"ts\":".toList .outside 0 := Moves.of_chars (by decide)
    exact hopen.append (appendNsAsUs_balanced _)

/-- A fixed name in front of a number. -/
theorem field_balanced {name : String} (hname : Balanced name.toList) (value : Nat) :
    Balanced (name.toList ++ stdToString value) :=
  hname.append (stdToString_balanced value)

theorem optionalField_balanced {name : String} (hname : Balanced name.toList) (value : Nat) :
    Balanced (optionalField name value) :=
  optional_balanced (field_balanced hname value)

theorem argsText_balanced (ev : TraceEvent) : Balanced (argsText ev) := by
  have hproducer : Balanced "\"producer\":".toList := Moves.of_chars (by decide)
  have hsequence : Balanced ",\"sequence\":".toList := Moves.of_chars (by decide)
  have hruntime : Balanced ",\"runtime\":".toList := Moves.of_chars (by decide)
  have hworker : Balanced ",\"worker\":".toList := Moves.of_chars (by decide)
  have htask : Balanced ",\"task\":".toList := Moves.of_chars (by decide)
  have hpeer : Balanced ",\"target_runtime\":".toList := Moves.of_chars (by decide)
  have hpeerTask : Balanced ",\"target_task\":".toList := Moves.of_chars (by decide)
  have hgraph : Balanced ",\"graph_run\":".toList := Moves.of_chars (by decide)
  have hnode : Balanced ",\"node\":".toList := Moves.of_chars (by decide)
  have hsegment : Balanced ",\"segment\":".toList := Moves.of_chars (by decide)
  have hfixed := ((field_balanced hproducer ev.producerId.toNat).append hsequence).append
    (stdToString_balanced ev.localSequence.toNat)
  have hsource := ((hfixed.append hruntime).append
    (stdToString_balanced ev.runtimeId.toNat)).append
    (optionalField_balanced hworker ev.workerId.toNat)
  have htarget := ((field_balanced hpeer ev.targetRuntimeId.toNat).append hpeerTask).append
    (stdToString_balanced ev.targetTaskId.toNat)
  have hedge := (hsource.append (optionalField_balanced htask ev.taskId.toNat)).append
    (optional_balanced (p := ev.targetRuntimeId ≠ 0) htarget)
  exact ((hedge.append (optionalField_balanced hgraph _)).append
    (optionalField_balanced hnode _)).append (optionalField_balanced hsegment _)

/-- The object of an event, whatever its kind and fields. -/
theorem eventText_balanced (phase : Phase) (ev : TraceEvent) :
    Balanced (eventText phase ev) := by
  have hname : Balanced "\x7b\"name\":".toList := Moves.of_chars (by decide)
  have hcat : Balanced ",\"cat\":".toList := Moves.of_chars (by decide)
  have hph : Moves .outside ",\"ph\":\"".toList .inside 0 := Moves.of_chars (by decide)
  have hpid : Balanced ",\"pid\":1,\"tid\":".toList := Moves.of_chars (by decide)
  have hargs : Balanced ",\"args\":\x7b".toList := Moves.of_chars (by decide)
  have hend : Balanced "\x7d\x7d".toList := Moves.of_chars (by decide)
  have hnames := ((hname.append (appendJsonName_balanced (traceEventKindName ev.kind))).append
    hcat).append (appendJsonName_balanced (traceCategoryName (ev.category.toUInt64 &&& 0xFFFF)))
  have htimes : Balanced _ :=
    ((Moves.append hnames hph).append (phaseText_moves phase ev)).append hpid
  exact (((htimes.append (stdToString_balanced _)).append hargs).append
    (argsText_balanced ev)).append hend

theorem separator_balanced (prettyPrint : Bool) : Balanced (separator prettyPrint) := by
  induction prettyPrint <;> exact Moves.of_scan (by decide)

/-- One round of the loop leaves the count of brackets alone. -/
theorem exportEvent_moves {sep : List Char} (hsep : Balanced sep) {st : ExportState}
    (ev : TraceEvent) {k : Int} (h : Moves .outside st.json .outside k) :
    Moves .outside (exportEvent sep st ev).json .outside k := by
  have hlead : Balanced (if st.first then [] else sep) := by
    split
    · exact Moves.nil _
    · exact hsep
  have hround := (h.append hlead).append (eventText_balanced (phaseOf st.segmentStart ev).1 ev)
  rwa [Int.add_zero, Int.add_zero] at hround

theorem exportEvents_moves {sep json : List Char} (hsep : Balanced sep)
    (events : List TraceEvent) {k : Int} (h : Moves .outside json .outside k) :
    Moves .outside (exportEvents sep json events).json .outside k := by
  unfold exportEvents
  generalize hst : (⟨fun _ => none, fun _ => 0, 0, true, json⟩ : ExportState) = st
  have hjson : Moves .outside st.json .outside k := by rw [← hst]; exact h
  clear hst h
  induction events generalizing st with
  | nil => exact hjson
  | cons ev events ih => exact ih _ (exportEvent_moves hsep ev hjson)

theorem reportText_balanced (recordedByProducer : UInt64 → UInt64) (report : ProducerReport) :
    Balanced (reportText recordedByProducer report) := by
  have hid : Balanced "\x7b\"producer_id\":".toList := Moves.of_chars (by decide)
  have hkind : Balanced ",\"kind\":".toList := Moves.of_chars (by decide)
  have hcapacity : Balanced ",\"capacity\":".toList := Moves.of_chars (by decide)
  have hrecorded : Balanced ",\"recorded\":".toList := Moves.of_chars (by decide)
  have hdropped : Balanced ",\"dropped\":".toList := Moves.of_chars (by decide)
  have hclose : Balanced ['}'] := Moves.of_scan (by decide)
  have hwho := ((field_balanced hid report.producerId.toNat).append hkind).append
    (appendJsonString_balanced (producerKindName report.kind).toList)
  have hsize := (hwho.append hcapacity).append (stdToString_balanced report.capacity.toNat)
  have hloss := ((hsize.append hrecorded).append
    (stdToString_balanced (recordedByProducer report.producerId).toNat)).append hdropped
  exact (hloss.append (stdToString_balanced _)).append hclose

theorem reportsText_balanced (recordedByProducer : UInt64 → UInt64)
    (reports : List ProducerReport) : Balanced (reportsText recordedByProducer reports) := by
  have htail : ∀ l : List ProducerReport,
      Balanced (l.flatMap fun r => ',' :: reportText recordedByProducer r) := by
    intro l
    induction l with
    | nil => exact Moves.nil _
    | cons r l ih =>
      rw [List.flatMap_cons]
      exact (reportText_balanced recordedByProducer r).comma.append ih
  induction reports with
  | nil => exact Moves.nil _
  | cons report reports ih => exact (reportText_balanced recordedByProducer report).append (htail _)

/-- The metadata opens one array, that of the producers, and closes it. -/
theorem metadataText_balanced (data : TraceSnapshotData) (result : ChromeTraceExportResult)
    (recordedByProducer : UInt64 → UInt64) :
    Balanced (metadataText data result recordedByProducer) := by
  have hformat : Balanced "\"metadata\":\x7b\"format\":".toList := Moves.of_chars (by decide)
  have hversion : Balanced ",\"exporter_version\":".toList := Moves.of_chars (by decide)
  have hschema : Balanced ",\"schema_version\":".toList := Moves.of_chars (by decide)
  have hsize : Balanced ",\"event_record_size\":".toList := Moves.of_chars (by decide)
  have hcomplete : Balanced ",\"trace_complete\":".toList := Moves.of_chars (by decide)
  have hflag : Balanced (if result.traceComplete then "true".toList else "false".toList) := by
    split <;> exact Moves.of_scan (by decide)
  have hrecorded : Balanced ",\"recorded_events\":".toList := Moves.of_chars (by decide)
  have hdropped : Balanced ",\"dropped_events\":".toList := Moves.of_chars (by decide)
  have hgaps : Balanced ",\"schema_gaps\":".toList := Moves.of_chars (by decide)
  have horigin : Balanced ",\"capture_origin_steady_ns\":".toList := Moves.of_chars (by decide)
  have hmask : Moves .outside ",\"categories_mask\":\"0x".toList .inside 0 :=
    Moves.of_chars (by decide)
  have hopen : Moves .outside ",\"producers\":[".toList .outside 1 := Moves.of_chars (by decide)
  have hclose : Moves .outside "]\x7d".toList .outside (-1) := Moves.of_chars (by decide)
  have hhead := ((hformat.append (appendJsonString_balanced "chrome_trace_event".toList)).append
    hversion).append (appendJsonString_balanced "1.0".toList)
  have hlayout := (((hhead.append hschema).append
    (stdToString_balanced data.schemaVersion.toNat)).append hsize).append
    (stdToString_balanced data.eventRecordSize.toNat)
  have htotals := (((hlayout.append hcomplete).append hflag).append hrecorded).append
    (stdToString_balanced result.recordedEvents.toNat)
  have hlosses := (((htotals.append hdropped).append
    (stdToString_balanced result.droppedEvents.toNat)).append hgaps).append
    (stdToString_balanced result.schemaGaps.toNat)
  have hcapture := (hlosses.append horigin).append
    (stdToString_balanced data.origin.toUInt64.toNat)
  have hcategories := ((Moves.append hcapture hmask).append
    (appendHex64_moves (data.categories &&& 0xFFFFFFFF))).append closeString_moves
  exact ((hcategories.append hopen).append (reportsText_balanced _ _)).append hclose

/-- Whatever was captured, in both layouts: the text opens one bracket more than it
closes. -/
theorem chromeTraceText_moves (data : TraceSnapshotData) (events : List TraceEvent)
    (prettyPrint : Bool) :
    Moves .outside (chromeTraceText data events prettyPrint).1 .outside 1 := by
  have hsep := separator_balanced prettyPrint
  have hstart : Moves .outside "\x7b\"traceEvents\":[".toList .outside 1 :=
    Moves.of_chars (by decide)
  have hnl : Balanced ['\n'] := Moves.of_scan (by decide)
  have hline : Balanced (if prettyPrint then ['\n'] else []) := optional_balanced hnl
  have hend : Balanced (if prettyPrint then "\n\x7d".toList else "\x7d".toList) := by
    split <;> exact Moves.of_scan (by decide)
  have hevents := exportEvents_moves hsep events (hstart.append hline)
  exact (((hevents.append hsep).append hline).append (metadataText_balanced data _ _)).append hend

/-! ## Validated events -/

theorem validateEvent_schema {ev : TraceEvent} (h : validateEvent ev = .ok ()) :
    ev.schemaVersion = 1 := by
  by_contra hschema
  unfold validateEvent at h
  rw [if_pos hschema] at h
  cases h

/-- An event that passes the checks is of a known kind and carries that kind's category. -/
theorem validateEvent_kind {ev : TraceEvent} (h : validateEvent ev = .ok ()) :
    ∃ k, TraceEventKind.ofRaw? ev.kind = some k ∧
      ev.category = (categoryForKind k &&& 0xFFFF).toUInt16 := by
  have hschema := validateEvent_schema h
  unfold validateEvent at h
  rw [if_neg (not_not.mpr hschema)] at h
  cases hk : TraceEventKind.ofRaw? ev.kind with
  | none =>
    rw [hk] at h
    cases h
  | some k =>
    refine ⟨k, rfl, ?_⟩
    by_contra hcategory
    rw [hk] at h
    dsimp only at h
    rw [if_pos (.inr hcategory)] at h
    cases h

/-- Validation keeps null pointers out of the text: both names exist. -/
theorem validateEvent_names {ev : TraceEvent} (h : validateEvent ev = .ok ()) :
    (traceEventKindName ev.kind).isSome ∧
      (traceCategoryName (ev.category.toUInt64 &&& 0xFFFF)).isSome := by
  obtain ⟨k, hk, hcategory⟩ := validateEvent_kind h
  refine ⟨by simp [traceEventKindName, hk], ?_⟩
  rw [hcategory]
  cases k <;> rfl

/-! ## No export is JSON -/

/-- The object of an event: it names the kind, and its arguments name the producer and the
sequence number, which identify the event. -/
def Describes (ev : TraceEvent) (v : Value) : Prop :=
  ∃ ms args name, v = .object ms ∧ traceEventKindName ev.kind = some name ∧
    ("name".toList, .string name.toList) ∈ ms ∧ ("args".toList, .object args) ∈ ms ∧
    ("producer".toList, .number (stdToString ev.producerId.toNat)) ∈ args ∧
    ("sequence".toList, .number (stdToString ev.localSequence.toNat)) ∈ args

/-- What an export should be: one JSON object whose `traceEvents` are the objects of the
events, in their order, and whose `metadata` is an object. -/
def WellFormedExport (text : List Char) (events : List TraceEvent) : Prop :=
  ∃ ms objects metadata, IsDocument (.object ms) text ∧
    ("traceEvents".toList, .array objects) ∈ ms ∧ List.Forall₂ Describes events objects ∧
    ("metadata".toList, .object metadata) ∈ ms

/-- What the writer returns, and what it appends to its stream. -/
theorem writeChromeTrace_some {data : TraceSnapshotData} {out out' : OStream}
    {prettyPrint : Bool} {result : ChromeTraceExportResult}
    (h : writeChromeTrace (some data) out prettyPrint = .ok (result, out')) :
    validate (traceOrderedEvents (some data)) = .ok () ∧
      result = (chromeTraceText data (traceOrderedEvents (some data)) prettyPrint).2 ∧
      out'.written = out.written ++
        (chromeTraceText data (traceOrderedEvents (some data)) prettyPrint).1 := by
  unfold writeChromeTrace at h
  cases hvalid : validate (traceOrderedEvents (some data)) with
  | error e =>
    simp only [hvalid] at h
    cases h
  | ok u =>
    simp only [hvalid] at h
    change (if out.good = true then _ else _) = _ at h
    split at h
    case isTrue =>
      cases h
      exact ⟨rfl, rfl, rfl⟩
    case isFalse => cases h

theorem writeChromeTrace_written {snapshot : TraceSnapshot} {out out' : OStream}
    {prettyPrint : Bool} {result : ChromeTraceExportResult}
    (h : writeChromeTrace snapshot out prettyPrint = .ok (result, out')) :
    ∃ data, snapshot = some data ∧ validate (traceOrderedEvents snapshot) = .ok () ∧
      out'.written = out.written ++
        (chromeTraceText data (traceOrderedEvents snapshot) prettyPrint).1 := by
  cases snapshot with
  | none => cases h
  | some data =>
    obtain ⟨hvalid, -, hwritten⟩ := writeChromeTrace_some h
    exact ⟨data, rfl, hvalid, hwritten⟩

/-- No snapshot that passes validation is exported as JSON, in neither layout: the array of
the events is never closed. -/
theorem export_not_wellFormed {snapshot : TraceSnapshot} {out out' : OStream}
    {prettyPrint : Bool} {result : ChromeTraceExportResult} {text : List Char}
    (h : writeChromeTrace snapshot out prettyPrint = .ok (result, out'))
    (htext : out'.written = out.written ++ text) :
    ¬ WellFormedExport text (traceOrderedEvents snapshot) := by
  rintro ⟨ms, objects, metadata, hdoc, -⟩
  obtain ⟨data, -, -, hwritten⟩ := writeChromeTrace_written h
  rw [List.append_cancel_left (htext.symm.trans hwritten)] at hdoc
  exact not_isDocument_of_moves (by decide)
    (chromeTraceText_moves data (traceOrderedEvents snapshot) prettyPrint) _ hdoc

/-- A capture of one admission. -/
def loneAdmission : TraceSnapshotData where
  events := [{ category := 1, kind := TraceEventKind.admission.raw, runtimeId := 1, taskId := 7 }]
  producers := [{ capacity := 4 }]

theorem export_not_wellFormed_admission :
    ¬ WellFormedExport (chromeTraceText loneAdmission loneAdmission.events true).1
      loneAdmission.events :=
  @export_not_wellFormed (some loneAdmission) {} _ true _ _ rfl rfl

/-- A capture in which nothing happened. -/
def emptyCapture : TraceSnapshotData where
  producers := [{ capacity := 4 }]

/-- The export of the empty capture passes validation and is no JSON. -/
theorem emptyCapture_unclosed :
    ∃ result out, writeChromeTrace (some emptyCapture) {} false = .ok (result, out) ∧
      ¬ WellFormedExport out.written (traceOrderedEvents (some emptyCapture)) := by
  refine ⟨_, _, rfl, ?_⟩
  rintro ⟨ms, objects, metadata, hdoc, -⟩
  exact not_isDocument_of_moves (by decide)
    (chromeTraceText_moves emptyCapture (traceOrderedEvents (some emptyCapture)) false) _ hdoc

end AstraScheduler.Trace
