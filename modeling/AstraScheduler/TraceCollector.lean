import AstraScheduler.Status
import AstraScheduler.Threads
import AstraScheduler.TraceEvents
import AstraScheduler.Transition

/-! # The trace collector

A `TraceCollector` and everybody who uses it (`src/observability/trace_collector.cpp`).
Generations and buffers are objects that are shared and never reused, so they are named by
the order of their allocation.  The functions under the collector's mutex exclude each other
and are one process, whose place is `control`; an emission takes no lock and takes one atomic
step at a time, as does the process under the mutex.  The 64-bit counters are numbers here: no
event adds more than one to any of them, so they agree with these below 2^64 emissions. -/

namespace AstraScheduler.TraceCollector
open Trace (TraceCategory TraceEvent TraceProducerKind ProducerReport TraceSnapshotData)
open Transition (Machine)

structure TraceOptions where
  eventsPerWorker : Nat := 16384
  externalControlEvents : Nat := 65536
  eventsPerReaperProducer : Nat := 4096
  categories : TraceCategory := 0x3F7
  deriving DecidableEq, Repr

/-- `TraceCategory::All`. -/
def allCategories : TraceCategory := 0x7FF

def capacityForKind (options : TraceOptions) : TraceProducerKind → Nat
  | .worker => options.eventsPerWorker
  | .externalControl => options.externalControlEvents
  | .reaper => options.eventsPerReaperProducer

/-- A written place of a buffer.  `generation` only records whose emission it was. -/
structure Recorded where
  event : TraceEvent
  generation : Nat
  deriving DecidableEq, Repr

/-- `generation` and `owner`, the slot it was made for, only record. -/
structure TraceBuffer where
  capacity : Nat
  slots : List (Option Recorded)
  nextTicket : Nat := 0
  dropped : Nat := 0
  generation : Nat
  owner : Nat
  deriving DecidableEq, Repr

def TraceBuffer.new (capacity generation owner : Nat) : TraceBuffer where
  capacity := capacity
  slots := List.replicate capacity none
  generation := generation
  owner := owner

/-- The number of places that have been given away. -/
def TraceBuffer.committed (b : TraceBuffer) : Nat := min b.nextTicket b.capacity

structure TraceGeneration where
  options : TraceOptions
  mask : TraceCategory
  origin : Nat
  active : Bool := true
  inflight : Nat := 0
  deriving DecidableEq, Repr

structure TraceBufferEntry where
  generation : Nat
  buffer : Nat
  deriving DecidableEq, Repr

structure TraceSlot where
  kind : TraceProducerKind
  runtimeId : RuntimeId
  workerIndex : UInt32
  producerId : UInt64
  entry : Option TraceBufferEntry := none
  deriving DecidableEq, Repr

structure TraceCapture where
  generation : Option Nat
  closed : Bool := false
  deriving DecidableEq, Repr

/-- What `stop_capture` takes from one buffer. -/
structure Part where
  buffer : Nat
  report : ProducerReport
  dropped : Nat
  events : List (Option Recorded) := []
  deriving DecidableEq, Repr

/-- A snapshot, before its parts are put together. -/
structure Snapshot where
  generation : Nat
  origin : Nat
  categories : TraceCategory
  parts : List Part
  deriving DecidableEq, Repr

/-- The backing of the snapshot: a place that was never written holds a default event. -/
def Snapshot.data (n : Snapshot) : TraceSnapshotData where
  schemaVersion := 1
  origin := Int64.ofNat n.origin
  eventRecordSize := 96
  categories := n.categories
  producers := n.parts.map (·.report)
  events := n.parts.flatMap fun p => p.events.map fun r => (r.map (·.event)).getD {}

/-- What `stop_capture` does with one slot. -/
inductive ReadStage where
  | loadEntry
  | readTicket (buffer : Nat)
  | readDropped (buffer committed : Nat)
  | copy (part : Part) (committed : Nat)
  deriving DecidableEq, Repr

/-- Where the function that holds the collector's mutex stands. -/
inductive Control where
  | idle
  /-- `start_capture` has allocated everything and commits. -/
  | storing (generation : Nat) (prepared : List (Nat × TraceBufferEntry))
  /-- `stop_capture` or, with `discard`, `abort_capture`. -/
  | deactivating (capture generation : Nat) (discard : Bool)
  | quiescing (capture generation : Nat) (discard : Bool)
  | reading (capture generation slot : Nat) (parts : List Part) (stage : ReadStage)
  | clearing (capture generation : Nat) (parts : Option (List Part))
  deriving DecidableEq, Repr

/-- `stop_capture` is about to allocate: for the snapshot, or for what it has read of a buffer. -/
def Control.allocates : Control → Bool
  | .reading _ _ 0 [] .loadEntry => true
  | .reading _ _ _ _ (.copy part _) => part.events.isEmpty
  | _ => false

/-- Where an emission stands.  It has loaded generation `g`, found buffer `b`, drawn
ticket `t`. -/
inductive EmitPc where
  | loadCurrent
  | checkActive (g : Nat)
  | enter (g : Nat)
  | loadEntry (g : Nat)
  | checkAgain (g b : Nat)
  | ticket (g b : Nat)
  | drop (g b : Nat)
  | write (g b t : Nat)
  | leave (g : Nat)
  | done
  deriving DecidableEq, Repr

/-- One call of `emit_event`. -/
structure Emission where
  slot : Nat
  category : TraceCategory
  event : TraceEvent
  pc : EmitPc := .loadCurrent
  deriving DecidableEq, Repr

/-- `tickets` records generation and buffer of each emission that has drawn a ticket,
`snapshots` what the calls of `stop_capture` have returned, and `withheld` the generations for
which they have returned an empty `TraceSnapshot`. -/
structure Collector where
  generations : List TraceGeneration := []
  buffers : List TraceBuffer := []
  slots : List TraceSlot := []
  current : Option Nat := none
  nextProducerId : UInt64 := 1
  externalSlot : Option Nat := none
  reaperSlot : Option Nat := none
  captures : List TraceCapture := []
  control : Control := .idle
  emissions : List Emission := []
  tickets : List (Nat × Nat) := []
  snapshots : List Snapshot := []
  withheld : List Nat := []
  deriving DecidableEq, Repr

/-- What `start_capture` throws. -/
inductive StartError where
  | logicError (what : String)
  | invalidArgument (what : String)
  | lengthError (what : String)
  deriving DecidableEq, Repr

namespace Collector

def active (s : Collector) (g : Nat) : Bool := (s.generations[g]?).elim false (·.active)

def inflight (s : Collector) (g : Nat) : Nat := (s.generations[g]?).elim 0 (·.inflight)

def mask (s : Collector) (g : Nat) : TraceCategory := (s.generations[g]?).elim 0 (·.mask)

def origin (s : Collector) (g : Nat) : Nat := (s.generations[g]?).elim 0 (·.origin)

def modifyGeneration (s : Collector) (g : Nat) (f : TraceGeneration → TraceGeneration) :
    Collector :=
  { s with generations := s.generations.modify g f }

def recordingLocked (s : Collector) : Bool := s.current.elim false s.active

/-! ## Producers -/

/-- The singleton slots; a worker has none. -/
def existingSlot (s : Collector) : TraceProducerKind → Option Nat
  | .worker => none
  | .externalControl => s.externalSlot
  | .reaper => s.reaperSlot

/-- The entry of a new slot: a buffer at once while a generation records. -/
def newEntry (s : Collector) : Option TraceBufferEntry :=
  if s.recordingLocked then s.current.map fun g => ⟨g, s.buffers.length⟩ else none

def newBuffers (s : Collector) (kind : TraceProducerKind) : List TraceBuffer :=
  match s.newEntry.bind fun entry => s.generations[entry.generation]?.map fun G => (entry, G) with
  | none => []
  | some (entry, G) => [.new (capacityForKind G.options kind) entry.generation s.slots.length]

/-- `open_slot_locked`.  Where an allocation fails (`allocFails`) the producer id is spent. -/
def openSlotLocked (s : Collector) (kind : TraceProducerKind) (runtimeId : RuntimeId)
    (workerIndex : UInt32) (allocFails : Bool) : Collector :=
  if (s.existingSlot kind).isSome then s
  else if allocFails then { s with nextProducerId := s.nextProducerId + 1 }
  else
    { s with
      nextProducerId := s.nextProducerId + 1
      buffers := s.buffers ++ s.newBuffers kind
      slots := s.slots ++ [{
        kind := kind
        runtimeId := runtimeId
        workerIndex := workerIndex
        producerId := s.nextProducerId
        entry := s.newEntry }]
      externalSlot := if kind = .externalControl then some s.slots.length else s.externalSlot
      reaperSlot := if kind = .reaper then some s.slots.length else s.reaperSlot }

/-! ## Captures -/

def countKind (s : Collector) (kind : TraceProducerKind) : Nat :=
  s.slots.countP fun slot => slot.kind = kind

def addPart (total count capacity : Nat) : Except StartError Nat :=
  if 2 ^ 64 ≤ count * capacity ∨ 2 ^ 64 ≤ total + count * capacity then
    .error (.lengthError "TraceOptions total buffer size overflows")
  else .ok (total + count * capacity)

/-- The checks of `start_capture`, before it changes anything. -/
def checkStart (s : Collector) (options : TraceOptions) : Except StartError Unit := do
  if s.recordingLocked then
    throw (.logicError "TraceCollector already has an active capture generation")
  if options.eventsPerWorker = 0 ∨ options.externalControlEvents = 0 ∨
      options.eventsPerReaperProducer = 0 then
    throw (.invalidArgument "TraceOptions capacities must be greater than 0")
  if options.categories &&& ~~~allCategories ≠ 0 then
    throw (.invalidArgument "TraceOptions::categories contains unknown bits")
  let total ← addPart 0 (s.countKind .worker) options.eventsPerWorker
  let total ← addPart total (s.countKind .externalControl) options.externalControlEvents
  let _ ← addPart total (s.countKind .reaper) options.eventsPerReaperProducer

/-- The new generation and a buffer for each slot, before the commit. -/
def prepare (s : Collector) (options : TraceOptions) (now : Nat) : Collector :=
  let generation := s.generations.length
  { s with
    generations := s.generations ++
      [{ options := options, mask := options.categories, origin := now }]
    buffers := s.buffers ++ s.slots.mapIdx fun k slot =>
      .new (capacityForKind options slot.kind) generation k
    control := .storing generation
      (s.slots.mapIdx fun k _ => (k, ⟨generation, s.buffers.length + k⟩)) }

/-- `start_capture`: what throws, a failed allocation included, leaves all as it was. -/
def startCapture (s : Collector) (options : TraceOptions) (now : Nat) (allocFails : Bool) :
    Collector :=
  match s.checkStart options with
  | .error _ => s
  | .ok () => if allocFails then s else s.prepare options now

def closeCapture (s : Collector) (c : Nat) : Collector :=
  { s with captures := s.captures.modify c fun _ => { generation := none, closed := true } }

/-- The first part of `stop` with `stop_capture`, and of `abort_capture`: a closed capture has
nothing left to do, and one whose generation is not the current one only closes; there
`stop_capture` returns an empty snapshot. -/
def endCapture (s : Collector) (c : Nat) (discard : Bool) : Collector :=
  match s.captures[c]? with
  | none => s
  | some capture =>
    if capture.closed then s
    else match capture.generation with
      | none => s.closeCapture c
      | some g =>
        if s.current = some g then { s with control := .deactivating c g discard }
        else if discard then s.closeCapture c
        else { s.closeCapture c with withheld := s.withheld ++ [g] }

/-- `report` of `stop_capture`. -/
def report (slot : TraceSlot) (b : TraceBuffer) : ProducerReport where
  producerId := slot.producerId
  kind := slot.kind
  capacity := UInt64.ofNat b.capacity
  droppedEvents := UInt64.ofNat b.dropped

/-- The loop of `stop_capture` at slot `k`. -/
def readStep (s : Collector) (c g k : Nat) (parts : List Part) : ReadStage → Option Collector
  | .loadEntry =>
    match s.slots[k]? with
    | none => some { s with control := .clearing c g (some parts) }
    | some slot =>
      match slot.entry with
      | none => some { s with control := .reading c g (k + 1) parts .loadEntry }
      | some entry =>
        if entry.generation = g then
          some { s with control := .reading c g k parts (.readTicket entry.buffer) }
        else some { s with control := .reading c g (k + 1) parts .loadEntry }
  | .readTicket buffer =>
    s.buffers[buffer]?.map fun b =>
      { s with control := .reading c g k parts (.readDropped buffer b.committed) }
  | .readDropped buffer committed =>
    match s.slots[k]?, s.buffers[buffer]? with
    | some slot, some b =>
      let part : Part := { buffer := buffer, report := report slot b, dropped := b.dropped }
      some { s with control := .reading c g k parts (.copy part committed) }
    | _, _ => none
  | .copy part committed =>
    if part.events.length < committed then
      s.buffers[part.buffer]?.map fun b =>
        let event := (b.slots[part.events.length]?).join
        { s with control :=
            .reading c g k parts (.copy { part with events := part.events ++ [event] } committed) }
    else some { s with control := .reading c g (k + 1) (parts ++ [part]) .loadEntry }

def snapshotOf (s : Collector) (g : Nat) (parts : List Part) : Snapshot where
  generation := g
  origin := s.origin g
  categories := s.mask g
  parts := parts

def controlStep (s : Collector) : Option Collector :=
  match s.control with
  | .idle => none
  | .storing g ((k, entry) :: prepared) =>
    some { s with
      slots := s.slots.modify k fun slot => { slot with entry := some entry }
      control := .storing g prepared }
  | .storing g [] =>
    some { s with
      current := some g
      captures := s.captures ++ [{ generation := some g }]
      control := .idle }
  | .deactivating c g discard =>
    some { s.modifyGeneration g fun G => { G with active := false } with
      control := .quiescing c g discard }
  | .quiescing c g discard =>
    if s.inflight g ≠ 0 then some s
    else if discard then some { s with control := .clearing c g none }
    else some { s with control := .reading c g 0 [] .loadEntry }
  | .reading c g k parts stage => s.readStep c g k parts stage
  | .clearing c g parts =>
    some { s.closeCapture c with
      current := none
      control := .idle
      snapshots := s.snapshots ++ parts.toList.map (s.snapshotOf g) }

/-- The `bad_alloc` of `stop_capture` leaves the capture open and the generation current, which
does not record any more. -/
def stopFails (s : Collector) : Option Collector :=
  if s.control.allocates then some { s with control := .idle } else none

/-! ## Emissions -/

def goto (s : Collector) (i : Nat) (e : Emission) (pc : EmitPc) : Collector :=
  { s with emissions := s.emissions.set i { e with pc := pc } }

def setBuffer (s : Collector) (b : Nat) (B : TraceBuffer) : Collector :=
  { s with buffers := s.buffers.set b B }

/-- The event as it is stored. -/
def stamp (s : Collector) (e : Emission) (g t now : Nat) : TraceEvent :=
  { e.event with
    schemaVersion := 1
    category := (e.category &&& 0xFFFF).toUInt16
    timestampNs := if s.origin g ≤ now then UInt64.ofNat (now - s.origin g) else 0
    producerId := (s.slots[e.slot]?).elim 0 (·.producerId)
    localSequence := UInt64.ofNat t }

/-- `emit_event`, one atomic operation at a time. -/
def emitStep (s : Collector) (i : Nat) (e : Emission) (now : Nat) : Option Collector :=
  match e.pc with
  | .loadCurrent =>
    match s.current with
    | none => some (s.goto i e .done)
    | some g => some (s.goto i e (.checkActive g))
  | .checkActive g => some (s.goto i e (if s.active g then .enter g else .done))
  | .enter g =>
    some ((s.modifyGeneration g fun G => { G with inflight := G.inflight + 1 }).goto i e
      (.loadEntry g))
  | .loadEntry g =>
    match (s.slots[e.slot]?).bind (·.entry) with
    | none => some (s.goto i e (.leave g))
    | some entry =>
      if entry.generation = g then some (s.goto i e (.checkAgain g entry.buffer))
      else some (s.goto i e (.leave g))
  | .checkAgain g b =>
    if s.active g ∧ s.mask g &&& e.category ≠ 0 then some (s.goto i e (.ticket g b))
    else some (s.goto i e (.leave g))
  | .ticket g b =>
    s.buffers[b]?.map fun B =>
      { s.setBuffer b { B with nextTicket := B.nextTicket + 1 } with
        tickets := (g, b) :: s.tickets }.goto i e
          (if B.capacity ≤ B.nextTicket then .drop g b else .write g b B.nextTicket)
  | .drop g b =>
    s.buffers[b]?.map fun B =>
      (s.setBuffer b { B with dropped := B.dropped + 1 }).goto i e (.leave g)
  | .write g b t =>
    s.buffers[b]?.map fun B =>
      (s.setBuffer b { B with slots := B.slots.set t (some ⟨s.stamp e g t now, g⟩) }).goto i e
        (.leave g)
  | .leave g =>
    some ((s.modifyGeneration g fun G => { G with inflight := G.inflight - 1 }).goto i e .done)
  | .done => none

end Collector

inductive Label where
  /-- An attaching runtime, or a producer opened on its own. -/
  | openSlot (kind : TraceProducerKind) (runtimeId : RuntimeId) (workerIndex : UInt32)
      (allocFails : Bool)
  | startCapture (options : TraceOptions) (now : Nat) (allocFails : Bool)
  | stopCapture (c : Nat)
  | abortCapture (c : Nat)
  | control
  /-- An allocation of `stop_capture` fails. -/
  | stopFails
  | emit (slot : Nat) (category : TraceCategory) (event : TraceEvent)
  | emission (i now : Nat)
  deriving DecidableEq, Repr

namespace Collector

def next (s : Collector) : Label → Option Collector
  | .openSlot kind runtimeId workerIndex allocFails =>
    if s.control = .idle then some (s.openSlotLocked kind runtimeId workerIndex allocFails)
    else none
  | .startCapture options now allocFails =>
    if s.control = .idle then some (s.startCapture options now allocFails) else none
  | .stopCapture c => if s.control = .idle then some (s.endCapture c false) else none
  | .abortCapture c => if s.control = .idle then some (s.endCapture c true) else none
  | .control => s.controlStep
  | .stopFails => s.stopFails
  | .emit slot category event =>
    if slot < s.slots.length then
      some { s with
        emissions := s.emissions ++ [{ slot := slot, category := category, event := event }] }
    else none
  | .emission i now => s.emissions[i]?.bind fun e => s.emitStep i e now

/-- A new collector, and any number of emissions to come. -/
def machine : Machine Collector Label where
  init s := s = {}
  next := next

end Collector
end AstraScheduler.TraceCollector
