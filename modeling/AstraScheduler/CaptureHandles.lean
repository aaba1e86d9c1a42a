import AstraScheduler.Custody
import AstraScheduler.TraceCapture

/-! # Capture objects

`start_capture` returns a `TraceCapture`, which may be moved, overwritten and destroyed, and
which any number of threads may tell to stop.  The capture ends with its object: a destructor or
an assignment that finds it open aborts it.  Calls of `stop` on one object share one
transaction, under the mutex of the capture; the first takes the snapshot, the others return it.

The collector is the machine of `TraceCollector`, where a capture is the `Impl` that the object
points to; its two calls `stop_capture` and `abort_capture` are made by the objects here.  As
the language demands, nobody moves or destroys an object while a call on it is running.  The
result is about runs in which `stop_capture` can allocate its snapshots: where it cannot, it
throws and leaves a capture open that does not record. -/

namespace AstraScheduler.CaptureHandles

open TraceCollector (Collector Control Exclusive Inv ReadStage Snapshot)
open Transition (Machine)
open Custody (Balanced)

/-- A `TraceCapture` object: its `impl_`, with which its `collector_` comes and goes, and its
`result_`.  `aborting` is set from the call of `abort_capture` on, in the object's destructor or
in an assignment to it. -/
structure Handle where
  impl : Option Nat := none
  result : Option Nat := none
  aborting : Bool := false
  deriving DecidableEq, Repr

/-- Where a call of `stop` stands. -/
inductive StopPc where
  | entered
  /-- It holds the `stop_mutex` of capture `c`, which it has found open. -/
  | locked (c : Nat)
  /-- In `stop_capture`, which holds the collector's mutex. -/
  | stopping (c : Nat)
  /-- `stop_capture` has returned the snapshot, or an empty one. -/
  | stopped (c : Nat) (snapshot : Option Nat)
  | returned (c : Nat) (snapshot : Option Nat)
  | threw (what : String)
  deriving DecidableEq, Repr

namespace StopPc

def running : StopPc → Bool
  | .returned _ _ | .threw _ => false
  | _ => true

/-- The capture whose `stop_mutex` the call holds. -/
def holds : StopPc → Option Nat
  | .locked c | .stopping c | .stopped c _ => some c
  | _ => none

end StopPc

structure StopCall where
  handle : Nat
  pc : StopPc := .entered
  deriving DecidableEq, Repr

/-- The capture that the function under the collector's mutex ends, and whether it discards
what was recorded. -/
def ending : Control → Option (Nat × Bool)
  | .idle | .storing _ _ => none
  | .deactivating c _ discard | .quiescing c _ discard => some (c, discard)
  | .reading c _ _ _ _ => some (c, false)
  | .clearing c _ parts => some (c, parts.isNone)

def isOpen (s : Collector) (c : Nat) : Bool := (s.captures[c]?).any fun capture => !capture.closed

/-- An object is `none` after its destruction; `dropped` are the captures whose object was
destroyed or overwritten. -/
structure Program where
  collector : Collector := {}
  handles : List (Option Handle) := []
  stops : List StopCall := []
  dropped : List Nat := []
  deriving DecidableEq

inductive Label where
  /-- A step of the collector that no capture object takes. -/
  | collector (a : TraceCollector.Label)
  /-- A default-constructed object. -/
  | construct
  | moveConstruct (h : Nat)
  /-- A destructor or an assignment finds the capture open. -/
  | abort (h : Nat)
  | destroy (h : Nat)
  | moveAssign (h k : Nat)
  /-- A thread calls `stop`. -/
  | stop (h : Nat)
  /-- The next step of the `i`-th call. -/
  | stopStep (i : Nat)
  deriving DecidableEq

namespace Program
variable (s : Program)

def handle (h : Nat) : Option Handle := (s.handles[h]?).join

/-- A call of `stop` on the object is running. -/
def busy (h : Nat) : Bool := s.stops.any fun call => call.handle = h && call.pc.running

/-- Its capture has not been closed. -/
def holdsOpen (a : Handle) : Bool := a.impl.any (isOpen s.collector)

/-- `stop_capture` has returned to the call that waits for it. -/
def deliver (c n : Nat) (call : StopCall) : StopCall :=
  if call.pc = .stopping c then { call with pc := .stopped c (some n) } else call

/-- `stop_capture` has thrown to the call that waits for it. -/
def bail (c : Nat) (call : StopCall) : StopCall :=
  if call.pc = .stopping c then { call with pc := .threw "std::bad_alloc" } else call

/-- An allocation of `stop_capture` fails. -/
def stopFails : Option Program :=
  s.collector.stopFails.map fun t =>
    { s with
      collector := t
      stops := match ending s.collector.control with
        | some (c, _) => s.stops.map (bail c)
        | none => s.stops }

/-- A step under the collector's mutex.  The last one of `start_capture` returns the object,
the last one of `stop_capture` the snapshot. -/
def control : Option Program :=
  s.collector.controlStep.map fun t =>
    match s.collector.control with
    | .storing _ [] =>
      { s with
        collector := t
        handles := s.handles ++ [some { impl := some s.collector.captures.length }] }
    | .clearing c _ (some _) =>
      { s with
        collector := t
        stops := s.stops.map (deliver c s.collector.snapshots.length) }
    | _ => { s with collector := t }

def moveConstruct (h : Nat) : Option Program :=
  (s.handle h).bind fun a =>
    if a.aborting ∨ s.busy h then none
    else some { s with handles := s.handles.set h (some {}) ++ [some a] }

/-- The first half of `~TraceCapture` and of the assignment. -/
def abort (h : Nat) : Option Program :=
  (s.handle h).bind fun a =>
    a.impl.bind fun c =>
      if s.collector.control = .idle ∧ isOpen s.collector c ∧ s.busy h = false ∧ a.aborting = false
      then
        some { s with
          collector := s.collector.endCapture c true
          handles := s.handles.set h (some { a with aborting := true }) }
      else none

/-- The rest of `~TraceCapture`. -/
def destroy (h : Nat) : Option Program :=
  (s.handle h).bind fun a =>
    if s.busy h ∨ s.holdsOpen a then none
    else some { s with handles := s.handles.set h none, dropped := s.dropped ++ a.impl.toList }

/-- The rest of the assignment; one to itself does nothing. -/
def moveAssign (h k : Nat) : Option Program :=
  (s.handle h).bind fun a =>
    (s.handle k).bind fun b =>
      if h = k then some s
      else if s.busy h ∨ s.busy k ∨ b.aborting ∨ s.holdsOpen a then none
      else
        some { s with
          handles := (s.handles.set h (some b)).set k (some {})
          dropped := s.dropped ++ a.impl.toList }

def stop (h : Nat) : Option Program :=
  (s.handle h).bind fun a =>
    if a.aborting then none else some { s with stops := s.stops ++ [{ handle := h }] }

def setStop (i : Nat) (call : StopCall) (pc : StopPc) : Program :=
  { s with stops := s.stops.set i { call with pc := pc } }

/-- `stop`, from lock to lock: behind `stop_mutex` it looks at `closed`. -/
def enter (i : Nat) (call : StopCall) : Option Program :=
  (s.handle call.handle).bind fun a =>
    match a.impl with
    | none =>
      some (s.setStop i call (.threw "TraceCapture::stop called on empty/moved-from capture"))
    | some c =>
      if s.stops.any fun other => other.pc.holds = some c then none
      else if isOpen s.collector c then some (s.setStop i call (.locked c))
      else
        match a.result with
        | some n => some (s.setStop i call (.returned c (some n)))
        | none => some (s.setStop i call (.threw "TraceCapture generation was discarded"))

def stopStep (i : Nat) : Option Program :=
  s.stops[i]?.bind fun call =>
    match call.pc with
    | .entered => s.enter i call
    | .locked c =>
      -- a capture whose generation is not the current one is closed at once
      if s.collector.control = .idle then
        let t := s.collector.endCapture c false
        some { s.setStop i call (if t.control = .idle then .stopped c none else .stopping c) with
          collector := t }
      else none
    | .stopped c n =>
      (s.handle call.handle).map fun a =>
        { s.setStop i call (.returned c n) with
          handles := s.handles.set call.handle (some { a with result := n }) }
    | .stopping _ | .returned _ _ | .threw _ => none

def next : Label → Option Program
  | .collector .control => s.control
  | .collector .stopFails => s.stopFails
  | .collector (.stopCapture _) | .collector (.abortCapture _) => none
  | .collector a => (s.collector.next a).map fun t => { s with collector := t }
  | .construct => some { s with handles := s.handles ++ [some {}] }
  | .moveConstruct h => s.moveConstruct h
  | .abort h => s.abort h
  | .destroy h => s.destroy h
  | .moveAssign h k => s.moveAssign h k
  | .stop h => s.stop h
  | .stopStep i => s.stopStep i

def machine : Machine Program Label where
  init s := s = {}
  next := next

/-- `stop_capture` can allocate its snapshot. -/
def Allocates (_ : Program) (x : Label) : Prop := x ≠ .collector .stopFails

instance (s : Program) (x : Label) : Decidable (s.Allocates x) :=
  inferInstanceAs (Decidable (x ≠ .collector .stopFails))

/-- `TraceCapture::recording` -/
def recording (a : Handle) : Bool := s.holdsOpen a && s.collector.recordingLocked

end Program

/-! ## Captures, generations and snapshots -/

section
variable {s t : Collector} {c g : Nat}

/-- While no allocation of `stop_capture` fails, an open capture is that of the current
generation, which records between two calls under the mutex. -/
structure Steady (s : Collector) : Prop where
  inv : Inv s
  exclusive : Exclusive s
  recording : s.control = .idle → ∀ g, s.current = some g → s.active g = true

namespace Steady

theorem new : Steady {} := ⟨TraceCollector.inv_new, ⟨nofun, nofun, nofun, rfl⟩, nofun⟩

theorem recordingLocked_iff (h : Steady s) (hidle : s.control = .idle) :
    s.recordingLocked = s.current.isSome := by
  unfold Collector.recordingLocked
  cases hcur : s.current with
  | none => rfl
  | some g => exact h.recording hidle g hcur

theorem startsAlone (h : Steady s) {a : TraceCollector.Label} (hs : s.next a = some t) :
    s.StartsAlone a := by
  cases a with
  | startCapture options now allocFails =>
    simp only [Collector.next] at hs
    split at hs <;> cases hs
    rename_i hidle
    exact fun hsome => (h.recordingLocked_iff hidle).trans hsome
  | _ => trivial

theorem recording_same (h : Steady s) (hs : TraceCollector.SameCaptures s t)
    (hidle : t.control = .idle) : ∀ g, t.current = some g → t.active g = true := by
  intro g hg
  rw [hs.active]
  exact h.recording (hs.control.symm.trans hidle) g (hs.current.symm.trans hg)

theorem recording_endCapture (h : Steady s) (hidle : s.control = .idle) (discard : Bool) :
    (s.endCapture c discard).control = .idle →
      ∀ g, (s.endCapture c discard).current = some g →
        (s.endCapture c discard).active g = true := by
  have hrec := h.recording hidle
  unfold Collector.endCapture
  split
  · exact fun _ => hrec
  split
  · exact fun _ => hrec
  split
  · exact fun _ => hrec
  split
  · exact nofun
  · split <;> exact fun _ => hrec

theorem recording_controlStep (h : Steady s) (hs : s.controlStep = some t)
    (hidle : t.control = .idle) : ∀ g, t.current = some g → t.active g = true := by
  unfold Collector.controlStep at hs
  split at hs
  case h_1 => cases hs
  case h_3 g hcontrol =>
    have hc := h.inv.control
    rw [hcontrol] at hc
    cases hs
    intro g' hg
    cases hg
    exact hc.2.1
  case h_7 =>
    cases hs
    exact nofun
  case h_5 c g discard hcontrol =>
    split at hs
    · cases hs
      rw [hcontrol] at hidle
      cases hidle
    · split at hs <;> cases hs <;> cases hidle
  case h_6 =>
    obtain ⟨control, rfl, ⟨_, _, _, rfl⟩ | ⟨_, rfl⟩⟩ := Collector.readStep_control hs <;>
      cases hidle
  case h_2 | h_4 =>
    cases hs
    cases hidle

theorem step (h : Steady s) {a : TraceCollector.Label} (ha : a ≠ .stopFails)
    (hs : s.next a = some t) : Steady t := by
  refine ⟨h.inv.step hs, h.exclusive.step h.inv (h.startsAlone hs) hs, ?_⟩
  cases a with
  | openSlot _ _ _ _ =>
    exact h.recording_same (TraceCollector.sameCaptures_next hs (.inl ⟨_, _, _, _, rfl⟩))
  | emit _ _ _ =>
    exact h.recording_same (TraceCollector.sameCaptures_next hs (.inr (.inl ⟨_, _, _, rfl⟩)))
  | emission _ _ =>
    exact h.recording_same (TraceCollector.sameCaptures_next hs (.inr (.inr ⟨_, _, rfl⟩)))
  | startCapture options now allocFails =>
    simp only [Collector.next] at hs
    split at hs <;> cases hs
    rename_i hidle
    unfold Collector.startCapture
    split
    · exact h.recording
    · split
      · exact h.recording
      · exact fun hcontrol => by cases hcontrol
  | stopCapture c | abortCapture c =>
    simp only [Collector.next] at hs
    split at hs <;> cases hs
    rename_i hidle
    exact h.recording_endCapture hidle _
  | control => exact h.recording_controlStep hs
  | stopFails => exact absurd rfl ha

end Steady

/-- A step that neither begins nor ends a capture. -/
structure Quiet (s t : Collector) : Prop where
  current : t.current = s.current
  captures : t.captures = s.captures
  snapshots : t.snapshots = s.snapshots
  ending : ending t.control = ending s.control

/-- The `c`-th capture is that of the `c`-th generation, and a snapshot is taken of each
generation once at most. -/
structure Paired (s : Collector) : Prop where
  size : s.generations.length =
    s.captures.length + if s.control.storing?.isSome then 1 else 0
  storing : ∀ g, s.control.storing? = some g → g = s.captures.length
  named : ∀ (c g : Nat), s.captures[c]? = some { generation := some g, closed := false } → g = c
  current : ∀ g, s.current = some g → isOpen s g = true
  ended : ∀ n ∈ s.snapshots, n.generation < s.captures.length ∧ isOpen s n.generation = false
  unique : (s.snapshots.map (·.generation)).Nodup

theorem isOpen_congr (h : t.captures = s.captures) : isOpen t c = isOpen s c := by
  rw [isOpen, h, isOpen]

theorem isOpen_iff : isOpen s c = true ↔
    ∃ capture, s.captures[c]? = some capture ∧ capture.closed = false := by
  simp [isOpen, Option.any_eq_true]

theorem lt_of_isOpen (h : isOpen s c = true) : c < s.captures.length := by
  obtain ⟨capture, hc, -⟩ := isOpen_iff.mp h
  exact (List.getElem?_eq_some_iff.mp hc).1

/-- What a step under the mutex does to the captures. -/
inductive ControlEffect (s t : Collector) : Prop
  | moved (h : Quiet s t) (hsize : t.generations.length = s.generations.length)
      (hstoring : t.control.storing? = s.control.storing?)
      (hlast : (∀ g, s.control ≠ .storing g []) ∧ ∀ c g parts, s.control ≠ .clearing c g parts)
  | committed (g : Nat) (hcontrol : s.control = .storing g [])
      (ht : t = { s with
        current := some g, captures := s.captures ++ [{ generation := some g }], control := .idle })
  | cleared (c g : Nat) (parts : Option (List TraceCollector.Part))
      (hcontrol : s.control = .clearing c g parts)
      (ht : t = { s.closeCapture c with
        current := none
        control := .idle
        snapshots := s.snapshots ++ parts.toList.map (s.snapshotOf g) })

theorem controlEffect (hs : s.controlStep = some t) : ControlEffect s t := by
  unfold Collector.controlStep at hs
  split at hs
  case h_1 => cases hs
  case h_2 g k entry prepared hcontrol =>
    cases hs
    exact .moved ⟨rfl, rfl, rfl, by rw [hcontrol]; rfl⟩ rfl (by rw [hcontrol]; rfl)
      (by rw [hcontrol]; exact ⟨nofun, nofun⟩)
  case h_3 g hcontrol =>
    cases hs
    exact .committed g hcontrol rfl
  case h_4 c g discard hcontrol =>
    cases hs
    exact .moved ⟨rfl, rfl, rfl, by rw [hcontrol]; rfl⟩ (List.length_modify ..)
      (by rw [hcontrol]; rfl) (by rw [hcontrol]; exact ⟨nofun, nofun⟩)
  case h_5 c g discard hcontrol =>
    split at hs
    · cases hs
      exact .moved ⟨rfl, rfl, rfl, rfl⟩ rfl rfl (by rw [hcontrol]; exact ⟨nofun, nofun⟩)
    · cases discard <;> cases hs
      all_goals
        exact .moved ⟨rfl, rfl, rfl, by rw [hcontrol]; rfl⟩ rfl (by rw [hcontrol]; rfl)
          (by rw [hcontrol]; exact ⟨nofun, nofun⟩)
  case h_6 c g k parts stage hcontrol =>
    obtain ⟨control, rfl, ⟨_, _, _, rfl⟩ | ⟨_, rfl⟩⟩ := Collector.readStep_control hs <;>
      exact .moved ⟨rfl, rfl, rfl, by rw [hcontrol]; rfl⟩ rfl (by rw [hcontrol]; rfl)
        (by rw [hcontrol]; exact ⟨nofun, nofun⟩)
  case h_7 c g parts hcontrol =>
    cases hs
    exact .cleared c g parts hcontrol rfl

/-- The call of `stop_capture` or `abort_capture` for an open capture. -/
theorem endCapture_open (hi : Exclusive s) (ho : isOpen s c = true) (discard : Bool) :
    ∃ g, s.captures[c]? = some { generation := some g, closed := false } ∧
      s.endCapture c discard = { s with control := .deactivating c g discard } := by
  obtain ⟨capture, hc, hclosed⟩ := isOpen_iff.mp ho
  obtain ⟨hsome, hcurrent⟩ := hi.captures c capture hc hclosed
  obtain ⟨g, hg⟩ := Option.isSome_iff_exists.mp hsome
  obtain ⟨generation, closed⟩ := capture
  cases hg
  cases hclosed
  refine ⟨g, hc, ?_⟩
  unfold Collector.endCapture
  simp only [hc, hcurrent.symm, Bool.false_eq_true, if_false, if_true]

theorem getElem?_closeCapture (s : Collector) (c c' : Nat) :
    (s.closeCapture c).captures[c']? =
      (s.captures[c']?).map fun capture =>
        if c = c' then { generation := none, closed := true } else capture := by
  rw [Collector.closeCapture, List.getElem?_modify]
  rfl

theorem isOpen_closeCapture (s : Collector) (c c' : Nat) :
    isOpen (s.closeCapture c) c' = (isOpen s c' && !decide (c = c')) := by
  rw [isOpen, getElem?_closeCapture, isOpen]
  cases s.captures[c']? with
  | none => rfl
  | some capture => by_cases hcc : c = c' <;> simp [hcc]

theorem getElem?_concat_cases {α : Type*} {l : List α} {a b : α} {i : Nat}
    (h : (l ++ [a])[i]? = some b) : l[i]? = some b ∨ i = l.length ∧ a = b := by
  rcases Nat.lt_trichotomy i l.length with hi | rfl | hi
  · rw [List.getElem?_append_left hi] at h
    exact .inl h
  · rw [List.getElem?_concat_length] at h
    exact .inr ⟨rfl, Option.some.inj h⟩
  · rw [List.getElem?_eq_none (by simp; omega)] at h
    cases h

namespace Paired

theorem new : Paired {} where
  size := rfl
  storing := by
    intro g hstoring
    cases hstoring
  named := by
    intro c g hc
    cases hc
  current := by
    intro g hg
    cases hg
  ended := fun _ hn => absurd hn List.not_mem_nil
  unique := List.nodup_nil

theorem quiet (h : Paired s) (hq : Quiet s t) (hsize : t.generations.length = s.generations.length)
    (hstoring : t.control.storing? = s.control.storing?) : Paired t where
  size := by rw [hsize, hstoring, hq.captures]; exact h.size
  storing := by rw [hstoring, hq.captures]; exact h.storing
  named := by rw [hq.captures]; exact h.named
  current g hg := (isOpen_congr hq.captures).trans (h.current g (hq.current.symm.trans hg))
  ended := by
    rw [hq.snapshots, hq.captures]
    exact fun n hn => ⟨(h.ended n hn).1, (isOpen_congr hq.captures).trans (h.ended n hn).2⟩
  unique := by rw [hq.snapshots]; exact h.unique

/-- `start_capture` has allocated the next generation. -/
theorem prepare (h : Paired s) (hidle : s.control = .idle) (options : TraceCollector.TraceOptions)
    (now : Nat) : Paired (s.prepare options now) := by
  have hsize : s.generations.length = s.captures.length := by
    have := h.size
    rw [hidle] at this
    exact this
  refine ⟨?_, ?_, h.named, h.current, h.ended, h.unique⟩
  · show (s.generations ++ [_]).length = s.captures.length + 1
    rw [List.length_append, hsize]
    rfl
  · intro g hg
    cases hg
    exact hsize

theorem committed (h : Paired s) (hcontrol : s.control = .storing g [])
    (ht : t = { s with
      current := some g, captures := s.captures ++ [{ generation := some g }], control := .idle }) :
    Paired t := by
  obtain rfl : g = s.captures.length := h.storing g (by rw [hcontrol]; rfl)
  have hsize := h.size
  rw [hcontrol] at hsize
  subst ht
  refine ⟨?_, nofun, ?_, ?_, ?_, h.unique⟩
  · rw [List.length_append]
    exact hsize
  · intro c g' hc
    rcases getElem?_concat_cases hc with hc | ⟨rfl, hnew⟩
    · exact h.named c g' hc
    · cases hnew
      rfl
  · intro g hg
    cases hg
    rw [isOpen, List.getElem?_concat_length]
    rfl
  · intro n hn
    obtain ⟨hlt, hclosed⟩ := h.ended n hn
    refine ⟨?_, ?_⟩
    · rw [List.length_append]
      exact Nat.lt_add_right 1 hlt
    · rw [isOpen, List.getElem?_append_left hlt]
      exact hclosed

theorem cleared (h : Paired s) (hi : Inv s) {parts : Option (List TraceCollector.Part)}
    (hcontrol : s.control = .clearing c g parts)
    (ht : t = { s.closeCapture c with
      current := none
      control := .idle
      snapshots := s.snapshots ++ parts.toList.map (s.snapshotOf g) }) : Paired t := by
  have hopen := hi.control
  rw [hcontrol] at hopen
  obtain ⟨⟨-, hc⟩, -, -⟩ := hopen
  obtain rfl := h.named c g hc
  have hsize := h.size
  rw [hcontrol] at hsize
  have hlength : (s.closeCapture g).captures.length = s.captures.length :=
    List.length_modify ..
  have hstill : isOpen s g = true := isOpen_iff.mpr ⟨_, hc, rfl⟩
  subst ht
  refine ⟨?_, nofun, ?_, nofun, ?_, ?_⟩
  · exact hsize.trans (congrArg (· + 0) hlength.symm)
  · intro c' g' hc'
    rw [getElem?_closeCapture] at hc'
    obtain ⟨old, hold, heq⟩ := Option.map_eq_some_iff.mp hc'
    split at heq
    · cases heq
    · exact h.named c' g' (heq ▸ hold)
  · intro n hn
    show n.generation < (s.closeCapture g).captures.length ∧
      isOpen (s.closeCapture g) n.generation = false
    rw [hlength, isOpen_closeCapture]
    rcases List.mem_append.mp hn with hn | hn
    · obtain ⟨hlt, hclosed⟩ := h.ended n hn
      exact ⟨hlt, by rw [hclosed]; rfl⟩
    · obtain ⟨taken, -, rfl⟩ := List.mem_map.mp hn
      exact ⟨lt_of_isOpen hstill, by simp [Collector.snapshotOf]⟩
  · rw [List.map_append]
    refine List.nodup_append.mpr ⟨h.unique, ?_, ?_⟩
    · cases parts <;> simp
    · intro g₁ h₁ g₂ h₂ heq
      obtain ⟨n, hn, rfl⟩ := List.mem_map.mp h₁
      obtain ⟨m, hm, rfl⟩ := List.mem_map.mp h₂
      obtain ⟨taken, -, rfl⟩ := List.mem_map.mp hm
      have hclosed := (h.ended n hn).2
      rw [heq] at hclosed
      exact Bool.false_ne_true (hclosed.symm.trans hstill)

end Paired

/-- The steps of the collector that no capture object takes, but those under the mutex. -/
theorem quiet_next (h : Paired s) {a : TraceCollector.Label} (hs : s.next a = some t)
    (hcontrol : a ≠ .control) (hfails : a ≠ .stopFails) (hstop : ∀ c, a ≠ .stopCapture c)
    (habort : ∀ c, a ≠ .abortCapture c) : Quiet s t ∧ Paired t := by
  have hsame : TraceCollector.SameCaptures s t → Quiet s t ∧ Paired t := by
    intro hsame
    have hq : Quiet s t :=
      ⟨hsame.current, hsame.captures, hsame.snapshots, by rw [hsame.control]⟩
    exact ⟨hq, h.quiet hq hsame.size (by rw [hsame.control])⟩
  cases a with
  | openSlot _ _ _ _ => exact hsame (TraceCollector.sameCaptures_next hs (.inl ⟨_, _, _, _, rfl⟩))
  | startCapture options now allocFails =>
    simp only [Collector.next] at hs
    split at hs
    case isFalse => cases hs
    case isTrue hidle =>
      obtain rfl := Option.some.inj hs
      unfold Collector.startCapture
      split
      · exact ⟨⟨rfl, rfl, rfl, rfl⟩, h⟩
      · split
        · exact ⟨⟨rfl, rfl, rfl, rfl⟩, h⟩
        · exact ⟨⟨rfl, rfl, rfl, by rw [hidle]; rfl⟩, h.prepare hidle options now⟩
  | stopCapture c => exact absurd rfl (hstop c)
  | abortCapture c => exact absurd rfl (habort c)
  | control => exact absurd rfl hcontrol
  | stopFails => exact absurd rfl hfails
  | emit _ _ _ => exact hsame (TraceCollector.sameCaptures_next hs (.inr (.inl ⟨_, _, _, rfl⟩)))
  | emission _ _ => exact hsame (TraceCollector.sameCaptures_next hs (.inr (.inr ⟨_, _, rfl⟩)))
end

/-! ## The invariant -/

section
variable {s t : Program} {h i c n : Nat} {a b : Handle} {call : StopCall}

/-- What an object owns. -/
def owns (o : Option Handle) : List Nat := (o.bind (·.impl)).toList

/-- Snapshot `n` was taken of capture `c`. -/
def SnapshotOf (s : Collector) (n c : Nat) : Prop :=
  ∃ snapshot, s.snapshots[n]? = some snapshot ∧ snapshot.generation = c

/-- A call that is running has its object to itself, but for other calls. -/
def Running (s : Program) (h : Nat) (p : Option Nat → Prop) : Prop :=
  ∃ a, s.handle h = some a ∧ a.aborting = false ∧ p a.impl

def CallOk (s : Program) (call : StopCall) : Prop :=
  match call.pc with
  | .entered => Running s call.handle fun _ => True
  | .locked c => Running s call.handle (· = some c) ∧ isOpen s.collector c = true
  | .stopping c => Running s call.handle (· = some c) ∧
      ending s.collector.control = some (c, false)
  | .stopped c n => Running s call.handle (· = some c) ∧ isOpen s.collector c = false ∧
      ∃ k, n = some k ∧ SnapshotOf s.collector k c
  | .returned c n => ∃ k, n = some k ∧ SnapshotOf s.collector k c
  | .threw what => what = "TraceCapture::stop called on empty/moved-from capture"

structure HandleOk (s : Program) (h : Nat) (a : Handle) : Prop where
  result : ∀ n, a.result = some n → ∃ c, a.impl = some c ∧ SnapshotOf s.collector n c
  /-- Whoever closed the capture of an object that is in use has left a snapshot. -/
  closed : ∀ c, a.impl = some c → isOpen s.collector c = false → a.aborting = false →
    a.result.isSome ∨ ∃ call ∈ s.stops, call.handle = h ∧ ∃ k, call.pc = .stopped c (some k)

structure Sound (s : Program) : Prop where
  steady : Steady s.collector
  paired : Paired s.collector
  books : Balanced owns s.handles s.dropped (List.range s.collector.captures.length)
  dropped : ∀ c ∈ s.dropped, isOpen s.collector c = false
  calls : ∀ call ∈ s.stops, CallOk s call
  /-- A `stop_mutex` is held by one call. -/
  mutex : ∀ (i j : Nat) (x y : StopCall) (c : Nat), s.stops[i]? = some x → s.stops[j]? = some y →
    x.pc.holds = some c → y.pc.holds = some c → i = j
  /-- Whoever ends a capture under the collector's mutex is a call of `stop`, or the destructor
  or assignment of its object. -/
  stopping : ∀ c, ending s.collector.control = some (c, false) →
    ∃ call ∈ s.stops, call.pc = .stopping c
  aborting : ∀ c, ending s.collector.control = some (c, true) →
    ∃ h a, s.handle h = some a ∧ a.aborting = true ∧ a.impl = some c
  handles : ∀ h a, s.handle h = some a → HandleOk s h a

/-! ### Looking an object up -/

theorem getElem?_handle (ha : s.handle h = some a) : s.handles[h]? = some (some a) :=
  Option.join_eq_some_iff.mp ha

theorem lookup_set_ne {l : List (Option Handle)} {k : Nat} (hk : h ≠ k) (o : Option Handle) :
    ((l.set h o)[k]?).join = (l[k]?).join := by
  rw [List.getElem?_set_ne hk]

theorem lookup_set_self {l : List (Option Handle)} (ha : (l[h]?).join = some a)
    (o : Option Handle) : ((l.set h o)[h]?).join = o := by
  have hlt := (List.getElem?_eq_some_iff.mp (Option.join_eq_some_iff.mp ha)).1
  rw [List.getElem?_set_self hlt]
  rfl

theorem lookup_set_cases {l : List (Option Handle)} {k : Nat} {o : Option Handle}
    (hk : ((l.set h o)[k]?).join = some b) :
    h = k ∧ o = some b ∨ h ≠ k ∧ (l[k]?).join = some b := by
  by_cases hhk : h = k
  · subst hhk
    have hget := Option.join_eq_some_iff.mp hk
    rw [List.getElem?_set] at hget
    split at hget
    · split at hget
      · exact .inl ⟨rfl, Option.some.inj hget⟩
      · cases hget
    · exact absurd rfl ‹_›
  · rw [lookup_set_ne hhk] at hk
    exact .inr ⟨hhk, hk⟩

theorem lookup_append {l : List (Option Handle)} (ha : (l[h]?).join = some a)
    (o : Option Handle) : ((l ++ [o])[h]?).join = some a := by
  have hlt := (List.getElem?_eq_some_iff.mp (Option.join_eq_some_iff.mp ha)).1
  rw [List.getElem?_append_left hlt]
  exact ha

theorem lookup_append_cases {l : List (Option Handle)} {k : Nat} {o : Option Handle}
    (hk : ((l ++ [o])[k]?).join = some b) :
    (l[k]?).join = some b ∨ k = l.length ∧ o = some b := by
  rcases getElem?_concat_cases (Option.join_eq_some_iff.mp hk) with hk | hk
  · exact .inl (Option.join_eq_some_iff.mpr hk)
  · exact .inr hk

/-! ### What a step leaves alone -/

theorem mem_owns (hc : a.impl = some c) : c ∈ owns (some a) := by
  simp [owns, hc]

theorem Running.mono {p : Option Nat → Prop} (hr : Running s h p) (hh : t.handle h = s.handle h) :
    Running t h p := by
  obtain ⟨a, ha, hrest⟩ := hr
  exact ⟨a, hh.trans ha, hrest⟩

theorem CallOk.mono (hc : CallOk s call)
    (hhandle : call.pc.running = true → ∀ p, Running s call.handle p → Running t call.handle p)
    (hopen : ∀ c, call.pc.holds = some c → isOpen t.collector c = isOpen s.collector c)
    (hending : ∀ c, call.pc = .stopping c →
      ending t.collector.control = ending s.collector.control)
    (hsnapshot : ∀ n c, SnapshotOf s.collector n c → SnapshotOf t.collector n c) :
    CallOk t call := by
  unfold CallOk at hc ⊢
  cases hpc : call.pc with
  | entered =>
    rw [hpc] at hc hhandle
    exact hhandle rfl _ hc
  | locked c =>
    rw [hpc] at hc hhandle hopen
    exact ⟨hhandle rfl _ hc.1, (hopen c rfl).trans hc.2⟩
  | stopping c =>
    rw [hpc] at hc hhandle
    exact ⟨hhandle rfl _ hc.1, (hending c hpc).trans hc.2⟩
  | stopped c n =>
    rw [hpc] at hc hhandle hopen
    obtain ⟨hr, hclosed, k, hk, hsnap⟩ := hc
    exact ⟨hhandle rfl _ hr, (hopen c rfl).trans hclosed, k, hk, hsnapshot k c hsnap⟩
  | returned c n =>
    rw [hpc] at hc
    obtain ⟨k, hk, hsnap⟩ := hc
    exact ⟨k, hk, hsnapshot k c hsnap⟩
  | threw what =>
    rw [hpc] at hc
    exact hc

/-- A call that holds the mutex of a capture was made on its object. -/
theorem CallOk.holder (hc : CallOk s call) (hholds : call.pc.holds = some c) :
    Running s call.handle (· = some c) := by
  unfold CallOk at hc
  cases hpc : call.pc with
  | locked c' | stopping c' | stopped c' n =>
    rw [hpc] at hc hholds
    cases hholds
    exact hc.1
  | entered | returned c' n | threw what =>
    rw [hpc] at hholds
    cases hholds

theorem HandleOk.mono (ha : HandleOk s h a)
    (hopen : ∀ c, a.impl = some c → isOpen t.collector c = isOpen s.collector c)
    (hstops : ∀ call ∈ s.stops, (∃ c k, call.pc = .stopped c k) → call ∈ t.stops)
    (hsnapshot : ∀ n c, SnapshotOf s.collector n c → SnapshotOf t.collector n c) :
    HandleOk t h a where
  result := by
    intro n hn
    obtain ⟨c, hc, hsnap⟩ := ha.result n hn
    exact ⟨c, hc, hsnapshot n c hsnap⟩
  closed := by
    intro c hc hclosed haborting
    rcases ha.closed c hc ((hopen c hc).symm.trans hclosed) haborting with hr | hcall
    · exact .inl hr
    · obtain ⟨call, hmem, hh, k, hpc⟩ := hcall
      exact .inr ⟨call, hstops call hmem ⟨c, some k, hpc⟩, hh, k, hpc⟩

theorem not_busy (hb : s.busy h = false) (hcall : call ∈ s.stops) (hrun : call.pc.running = true) :
    call.handle ≠ h := by
  intro hh
  refine Bool.false_ne_true (hb.symm.trans (List.any_eq_true.mpr ⟨call, hcall, ?_⟩))
  simp [hh, hrun]

/-- Nobody is in a call on the object: what holds of it goes with it. -/
theorem HandleOk.moved (ha : HandleOk s h a) (hb : s.busy h = false)
    (hcollector : t.collector = s.collector) (k : Nat) : HandleOk t k a where
  result := by rw [hcollector]; exact ha.result
  closed := by
    rw [hcollector]
    intro c hc hclosed haborting
    rcases ha.closed c hc hclosed haborting with hr | hcall
    · exact .inl hr
    · obtain ⟨call, hmem, hh, n, hpc⟩ := hcall
      exact absurd hh (not_busy hb hmem (by rw [hpc]; rfl))

theorem handleOk_empty (s : Program) (h : Nat) : HandleOk s h {} where
  result := by
    intro n hresult
    cases hresult
  closed := by
    intro c himpl
    cases himpl

namespace Sound

theorem lt_of_impl (hs : Sound s) (ha : s.handle h = some a) (hc : a.impl = some c) :
    c < s.collector.captures.length :=
  List.mem_range.mp (hs.books.mem_born (getElem?_handle ha) (mem_owns hc))

theorem eq_of_impl (hs : Sound s) {k : Nat} (ha : s.handle h = some a) (hb : s.handle k = some b)
    (hca : a.impl = some c) (hcb : b.impl = some c) : h = k :=
  hs.books.eq_of_mem List.nodup_range (getElem?_handle ha) (getElem?_handle hb) (mem_owns hca)
    (mem_owns hcb)

theorem inv (hs : Sound s) : Inv s.collector := hs.steady.inv

/-- The capture that the function under the mutex ends is still open. -/
theorem open_of_ending (hs : Sound s) {discard : Bool}
    (hending : ending s.collector.control = some (c, discard)) : isOpen s.collector c = true := by
  have hcontrol := hs.inv.control
  have hopen : ∀ g, TraceCollector.OpenCapture s.collector c g → isOpen s.collector c = true :=
    fun g hg => isOpen_iff.mpr ⟨_, hg.2, rfl⟩
  cases hctl : s.collector.control with
  | idle | storing g prepared =>
    rw [hctl] at hending
    cases hending
  | deactivating c' g discard' =>
    rw [hctl] at hending hcontrol
    cases hending
    exact hopen g hcontrol
  | quiescing c' g discard' | reading c' g k parts stage | clearing c' g parts =>
    rw [hctl] at hending hcontrol
    cases hending
    exact hopen g hcontrol.1

theorem initial : Sound {} where
  steady := .new
  paired := .new
  books := .nil
  dropped := fun _ hc => absurd hc List.not_mem_nil
  calls := fun _ hcall => absurd hcall List.not_mem_nil
  mutex := by
    intro i j x y c hx
    cases hx
  stopping := by
    intro c hending
    cases hending
  aborting := by
    intro c hending
    cases hending
  handles := by
    intro h a ha
    cases ha

/-- A step of the collector that neither begins nor ends a capture. -/
theorem quiet (hs : Sound s) {u : Collector} (hr : Steady u) (hp : Paired u)
    (hq : Quiet s.collector u) : Sound { s with collector := u } where
  steady := hr
  paired := hp
  books := by
    show Balanced owns s.handles s.dropped (List.range u.captures.length)
    rw [hq.captures]
    exact hs.books
  dropped c hc := (isOpen_congr hq.captures).trans (hs.dropped c hc)
  calls call hcall := (hs.calls call hcall).mono (fun _ p hr => hr.mono rfl)
    (fun c _ => isOpen_congr hq.captures) (fun c _ => hq.ending)
    (by intro n c hn; rw [SnapshotOf, hq.snapshots]; exact hn)
  mutex := hs.mutex
  stopping c hc := hs.stopping c (hq.ending.symm.trans hc)
  aborting c hc := hs.aborting c (hq.ending.symm.trans hc)
  handles h a ha := (hs.handles h a ha).mono (fun c _ => isOpen_congr hq.captures)
    (fun call hcall _ => hcall) (by intro n c hn; rw [SnapshotOf, hq.snapshots]; exact hn)

/-- `start_capture` returns its object. -/
theorem committed (hs : Sound s) {u : Collector} {g : Nat}
    (hcontrol : s.collector.control = .storing g [])
    (hu : u = { s.collector with
      current := some g
      captures := s.collector.captures ++ [{ generation := some g }]
      control := .idle })
    (hr : Steady u) :
    Sound { s with
      collector := u
      handles := s.handles ++ [some { impl := some s.collector.captures.length }] } := by
  have hp := hs.paired.committed hcontrol hu
  have hopen : ∀ c, c < s.collector.captures.length → isOpen u c = isOpen s.collector c := by
    intro c hc
    subst hu
    rw [isOpen, List.getElem?_append_left hc, isOpen]
  have hsnapshot : ∀ n c, SnapshotOf s.collector n c → SnapshotOf u n c := by
    subst hu
    exact fun n c hn => hn
  have hnew : isOpen u s.collector.captures.length = true := by
    subst hu
    rw [isOpen, List.getElem?_concat_length]
    rfl
  have hlook : ∀ h a, s.handle h = some a → ((s.handles ++
      [some { impl := some s.collector.captures.length }])[h]?).join = some a :=
    fun h a ha => lookup_append ha _
  have hlt : ∀ call ∈ s.stops, ∀ c, call.pc.holds = some c → c < s.collector.captures.length := by
    intro call hcall c hc
    obtain ⟨a, ha, -, himpl⟩ := (hs.calls call hcall).holder hc
    exact hs.lt_of_impl ha himpl
  refine ⟨hr, hp, ?_, ?_, ?_, hs.mutex, ?_, ?_, ?_⟩
  · have hbooks := hs.books.construct (some { impl := some s.collector.captures.length })
    have hlength : u.captures.length = s.collector.captures.length + 1 := by
      subst hu
      exact List.length_append
    show Balanced owns _ s.dropped (List.range u.captures.length)
    rw [hlength, List.range_succ]
    exact hbooks
  · intro c hc
    have hlt := List.mem_range.mp (hs.books.mem_born_of_ended hc)
    exact (hopen c hlt).trans (hs.dropped c hc)
  · intro call hcall
    refine (hs.calls call hcall).mono ?_ (fun c hc => hopen c (hlt call hcall c hc)) ?_ hsnapshot
    · rintro - p ⟨a, ha, hrest⟩
      exact ⟨a, hlook _ a ha, hrest⟩
    · intro c hc
      subst hu
      show none = ending s.collector.control
      rw [hcontrol]
      rfl
  · intro c hc
    subst hu
    cases hc
  · intro c hc
    subst hu
    cases hc
  · intro h a ha
    rcases lookup_append_cases ha with ha | ⟨-, ha⟩
    · exact (hs.handles h a ha).mono (fun c hc => hopen c (hs.lt_of_impl ha hc))
        (fun call hcall _ => hcall) hsnapshot
    · cases ha
      refine ⟨nofun, fun c hc hclosed => ?_⟩
      cases hc
      exact absurd (hnew.symm.trans hclosed) Bool.noConfusion

end Sound

/-- The last step of `stop_capture` or `abort_capture`. -/
structure Closes (s u : Collector) (c : Nat) : Prop where
  opened : isOpen s c = true
  stays : ∀ c', isOpen u c' = (isOpen s c' && !decide (c = c'))
  captures : u.captures.length = s.captures.length
  control : u.control = .idle
  snapshots : ∀ n c', SnapshotOf s n c' → SnapshotOf u n c'

theorem Closes.others {s u : Collector} (hu : Closes s u c) {c' : Nat} (hne : c ≠ c') :
    isOpen u c' = isOpen s c' := by
  rw [hu.stays, decide_eq_false hne, Bool.not_false, Bool.and_true]

theorem Closes.closed {s u : Collector} (hu : Closes s u c) : isOpen u c = false := by
  rw [hu.stays, decide_eq_true rfl, Bool.not_true, Bool.and_false]

theorem Closes.of_open {s u : Collector} (hu : Closes s u c) {c' : Nat}
    (hc : isOpen s c' = false) : isOpen u c' = false := by
  rw [hu.stays, hc, Bool.false_and]

theorem closes_clearing {s u : Collector} (hi : Inv s) {g : Nat}
    {parts : Option (List TraceCollector.Part)} (hcontrol : s.control = .clearing c g parts)
    (hu : u = { s.closeCapture c with
      current := none
      control := .idle
      snapshots := s.snapshots ++ parts.toList.map (s.snapshotOf g) }) : Closes s u c := by
  have hopen := hi.control
  rw [hcontrol] at hopen
  subst hu
  refine ⟨isOpen_iff.mpr ⟨_, hopen.1.2, rfl⟩, isOpen_closeCapture s c,
    List.length_modify .., rfl, ?_⟩
  rintro n c' ⟨snapshot, hn, hc'⟩
  refine ⟨snapshot, ?_, hc'⟩
  rw [List.getElem?_append_left (List.getElem?_eq_some_iff.mp hn).1]
  exact hn

theorem deliver_holds (n : Nat) (call : StopCall) :
    (Program.deliver c n call).pc.holds = call.pc.holds := by
  unfold Program.deliver
  split
  case isTrue hpc => rw [hpc]; rfl
  case isFalse => rfl

namespace Sound

/-- An aborted capture is closed. -/
theorem discarded (hs : Sound s) {u : Collector} (hr : Steady u)
    (hp : Paired u) (hu : Closes s.collector u c)
    (hending : ending s.collector.control = some (c, true)) : Sound { s with collector := u } := by
  obtain ⟨k, b, hb, haborting, hbc⟩ := hs.aborting c hending
  have hothers : ∀ h a, s.handle h = some a → a.aborting = false → a.impl ≠ some c := by
    rintro h a ha hno hc
    obtain rfl := hs.eq_of_impl ha hb hc hbc
    cases ha.symm.trans hb
    exact Bool.false_ne_true (hno.symm.trans haborting)
  refine ⟨hr, hp, ?_, ?_, ?_, hs.mutex, ?_, ?_, ?_⟩
  · show Balanced owns s.handles s.dropped (List.range u.captures.length)
    rw [hu.captures]
    exact hs.books
  · exact fun c' hc' => hu.of_open (hs.dropped c' hc')
  · intro call hcall
    have hok := hs.calls call hcall
    refine hok.mono (fun _ p hr => hr.mono rfl) ?_ ?_ hu.snapshots
    · intro c' hc'
      obtain ⟨a, ha, hno, hac⟩ := hok.holder hc'
      exact hu.others fun h => hothers _ a ha hno (h ▸ hac)
    · intro c' hpc
      unfold CallOk at hok
      rw [hpc] at hok
      cases hok.2.symm.trans hending
  · intro c' hc'
    rw [show ({ s with collector := u } : Program).collector.control = .idle from hu.control] at hc'
    cases hc'
  · intro c' hc'
    rw [show ({ s with collector := u } : Program).collector.control = .idle from hu.control] at hc'
    cases hc'
  · intro h a ha
    have hok := hs.handles h a ha
    refine ⟨fun n hn => ?_, fun c' hc' hclosed hno => ?_⟩
    · obtain ⟨c', hc', hsnap⟩ := hok.result n hn
      exact ⟨c', hc', hu.snapshots n c' hsnap⟩
    · have hne : c ≠ c' := fun h' => hothers h a ha hno (h' ▸ hc')
      exact hok.closed c' hc' ((hu.others hne).symm.trans hclosed) hno

/-- `stop_capture` returns a snapshot. -/
theorem delivered (hs : Sound s) {u : Collector} (hr : Steady u)
    (hp : Paired u) (hu : Closes s.collector u c)
    (hending : ending s.collector.control = some (c, false))
    (hnew : SnapshotOf u s.collector.snapshots.length c) :
    Sound { s with
      collector := u
      stops := s.stops.map (Program.deliver c s.collector.snapshots.length) } := by
  obtain ⟨caller, hcaller, hcpc⟩ := hs.stopping c hending
  obtain ⟨b, hb, -, hbc⟩ := (hs.calls caller hcaller).holder (by rw [hcpc]; rfl)
  -- every call that holds the mutex of this capture is the one that waits for it
  have hwaits : ∀ call ∈ s.stops, call.pc.holds = some c → call.pc = .stopping c := by
    intro call hcall hholds
    obtain ⟨i, hi⟩ := List.mem_iff_getElem?.mp hcall
    obtain ⟨j, hj⟩ := List.mem_iff_getElem?.mp hcaller
    obtain rfl := hs.mutex i j call caller c hi hj hholds (by rw [hcpc]; rfl)
    cases hi.symm.trans hj
    exact hcpc
  have hidle : ∀ p : Program, p.collector = u → ending p.collector.control = none := by
    rintro p rfl
    rw [hu.control]
    rfl
  refine ⟨hr, hp, ?_, ?_, ?_, ?_, ?_, ?_, ?_⟩
  · show Balanced owns s.handles s.dropped (List.range u.captures.length)
    rw [hu.captures]
    exact hs.books
  · exact fun c' hc' => hu.of_open (hs.dropped c' hc')
  · intro call hcall
    obtain ⟨old, hold, rfl⟩ := List.mem_map.mp hcall
    have hok := hs.calls old hold
    by_cases hpc : old.pc = .stopping c
    · obtain ⟨a, ha, hno, hac⟩ := hok.holder (by rw [hpc]; rfl)
      simp only [Program.deliver, hpc, if_true]
      exact ⟨⟨a, ha, hno, hac⟩, hu.closed, _, rfl, hnew⟩
    · simp only [Program.deliver, hpc, if_false]
      refine hok.mono (fun _ p hr => hr.mono rfl) ?_ ?_ hu.snapshots
      · intro c' hc'
        exact hu.others fun h => hpc (hwaits old hold (h ▸ hc'))
      · intro c' hpc'
        unfold CallOk at hok
        rw [hpc'] at hok
        cases hok.2.symm.trans hending
        exact absurd hpc' hpc
  · intro i j x y c' hx hy hxc hyc
    rw [List.getElem?_map] at hx hy
    obtain ⟨x', hx', rfl⟩ := Option.map_eq_some_iff.mp hx
    obtain ⟨y', hy', rfl⟩ := Option.map_eq_some_iff.mp hy
    rw [deliver_holds] at hxc hyc
    exact hs.mutex i j x' y' c' hx' hy' hxc hyc
  · intro c' hc'
    cases (hidle _ rfl).symm.trans hc'
  · intro c' hc'
    cases (hidle _ rfl).symm.trans hc'
  · intro h a ha
    have hok := hs.handles h a ha
    refine ⟨fun n hn => ?_, fun c' hc' hclosed hno => ?_⟩
    · obtain ⟨c', hc', hsnap⟩ := hok.result n hn
      exact ⟨c', hc', hu.snapshots n c' hsnap⟩
    · by_cases hcc : c = c'
      · subst hcc
        obtain rfl := hs.eq_of_impl ha hb hc' hbc
        refine .inr ⟨_, List.mem_map_of_mem hcaller, ?_⟩
        simp [Program.deliver, hcpc]
      · rcases hok.closed c' hc' ((hu.others hcc).symm.trans hclosed) hno with hr | hcall
        · exact .inl hr
        · obtain ⟨call, hmem, hh, k, hpc⟩ := hcall
          refine .inr ⟨call, List.mem_map.mpr ⟨call, hmem, ?_⟩, hh, k, hpc⟩
          simp [Program.deliver, hpc]

theorem control (hs : Sound s) (ht : s.control = some t) : Sound t := by
  obtain ⟨u, hu, rfl⟩ := Option.map_eq_some_iff.mp ht
  have hr : Steady u := hs.steady.step (a := .control) nofun hu
  cases controlEffect hu with
  | moved hq hsize hstoring hlast =>
    split
    case h_1 g hcontrol => exact absurd hcontrol (hlast.1 g)
    case h_2 c g parts hcontrol => exact absurd hcontrol (hlast.2 c g _)
    case h_3 => exact hs.quiet hr (hs.paired.quiet hq hsize hstoring) hq
  | committed g hcontrol hu' =>
    rw [hcontrol]
    exact hs.committed hcontrol hu' hr
  | cleared c g parts hcontrol hu' =>
    have hp := hs.paired.cleared hs.inv hcontrol hu'
    have hcloses := closes_clearing hs.inv hcontrol hu'
    have hending : ending s.collector.control = some (c, parts.isNone) := by
      rw [hcontrol]
      rfl
    rw [hcontrol]
    cases parts with
    | none => exact hs.discarded hr hp hcloses hending
    | some parts =>
      refine hs.delivered hr hp hcloses hending ⟨s.collector.snapshotOf g parts, ?_, ?_⟩
      · subst hu'
        exact List.getElem?_concat_length
      · have hopen := hs.inv.control
        rw [hcontrol] at hopen
        exact hs.paired.named c g hopen.1.2

/-- The objects change, the collector and the calls do not. -/
theorem rehandle (hs : Sound s) {handles : List (Option Handle)} {dropped : List Nat}
    (hbooks : Balanced owns handles dropped (List.range s.collector.captures.length))
    (hdropped : ∀ c ∈ dropped, isOpen s.collector c = false)
    (hcalls : ∀ call ∈ s.stops, call.pc.running = true → ∀ a, s.handle call.handle = some a →
      ∃ b, (handles[call.handle]?).join = some b ∧ b.aborting = a.aborting ∧ b.impl = a.impl)
    (haborting : ∀ h a, s.handle h = some a → a.aborting = true → s.holdsOpen a = true →
      (handles[h]?).join = some a)
    (hhandles : ∀ h a, (handles[h]?).join = some a →
      HandleOk { s with handles := handles, dropped := dropped } h a) :
    Sound { s with handles := handles, dropped := dropped } where
  steady := hs.steady
  paired := hs.paired
  books := hbooks
  dropped := hdropped
  calls call hcall := by
    refine (hs.calls call hcall).mono ?_ (fun _ _ => rfl) (fun _ _ => rfl) fun _ _ h => h
    rintro hrun p ⟨a, ha, hno, hp⟩
    obtain ⟨b, hb, hab, himpl⟩ := hcalls call hcall hrun a ha
    exact ⟨b, hb, hab.trans hno, himpl ▸ hp⟩
  mutex := hs.mutex
  stopping := hs.stopping
  aborting c hc := by
    obtain ⟨h, a, ha, hab, hac⟩ := hs.aborting c hc
    have hopen : s.holdsOpen a = true := by
      rw [Program.holdsOpen, hac]
      exact hs.open_of_ending hc
    exact ⟨h, a, haborting h a ha hab hopen, hab, hac⟩
  handles := hhandles

/-- An object that none of the changes touches. -/
theorem kept (hs : Sound s) (ha : s.handle h = some a) (hcollector : t.collector = s.collector)
    (hstops : t.stops = s.stops) : HandleOk t h a :=
  (hs.handles h a ha).mono (fun c _ => by rw [hcollector]) (fun call hcall _ => hstops ▸ hcall)
    fun n c hn => by rw [hcollector]; exact hn

theorem construct (hs : Sound s) : Sound { s with handles := s.handles ++ [some {}] } := by
  refine hs.rehandle ?_ hs.dropped (fun call _ _ a ha => ⟨a, lookup_append ha _, rfl, rfl⟩)
    (fun h a ha _ _ => lookup_append ha _) fun h a ha => ?_
  · have hbooks := hs.books.construct (some {})
    rwa [show owns (some {}) = [] from rfl, List.append_nil] at hbooks
  · rcases lookup_append_cases ha with ha | ⟨-, ha⟩
    · exact hs.kept ha rfl rfl
    · cases ha
      exact handleOk_empty ..

theorem moveConstruct (hs : Sound s) (ht : s.moveConstruct h = some t) : Sound t := by
  obtain ⟨a, ha, ht⟩ := Option.bind_eq_some_iff.mp ht
  split at ht
  case isTrue => cases ht
  case isFalse hfree =>
    obtain rfl := Option.some.inj ht
    obtain ⟨hidle, hbusy⟩ : a.aborting = false ∧ s.busy h = false := by simpa using hfree
    refine hs.rehandle ?_ hs.dropped (fun call hcall hrun b hb => ?_) (fun k b hb hab _ => ?_)
      fun k b hb => ?_
    · refine hs.books.split (getElem?_handle ha) fun c => ?_
      show 0 + _ + _ = _
      omega
    · have hne := not_busy hbusy hcall hrun
      exact ⟨b, lookup_append ((lookup_set_ne hne.symm _).trans hb) _, rfl, rfl⟩
    · have hne : h ≠ k := by
        rintro rfl
        cases ha.symm.trans hb
        exact Bool.false_ne_true (hidle.symm.trans hab)
      exact lookup_append ((lookup_set_ne hne _).trans hb) _
    · rcases lookup_append_cases hb with hb | ⟨-, hb⟩
      · rcases lookup_set_cases hb with ⟨-, hb⟩ | ⟨-, hb⟩
        · cases hb
          exact handleOk_empty ..
        · exact hs.kept hb rfl rfl
      · cases hb
        refine (hs.handles h a ha).moved hbusy ?_ k
        rfl

theorem holdsOpen_eq_false (ha : s.holdsOpen a = false) (hc : a.impl = some c) :
    isOpen s.collector c = false := by
  rw [Program.holdsOpen, hc] at ha
  exact ha

theorem destroy (hs : Sound s) (ht : s.destroy h = some t) : Sound t := by
  obtain ⟨a, ha, ht⟩ := Option.bind_eq_some_iff.mp ht
  split at ht
  case isTrue => cases ht
  case isFalse hfree =>
    obtain rfl := Option.some.inj ht
    obtain ⟨hbusy, hclosed⟩ : s.busy h = false ∧ s.holdsOpen a = false := by simpa using hfree
    refine hs.rehandle ?_ (fun c hc => ?_) (fun call hcall hrun b hb => ?_)
      (fun k b hb _ hopen => ?_) fun k b hb => ?_
    · refine hs.books.replace (getElem?_handle ha) fun c => ?_
      rw [List.count_append]
      show 0 + (_ + (owns (some a)).count c) = _
      omega
    · rcases List.mem_append.mp hc with hc | hc
      · exact hs.dropped c hc
      · exact holdsOpen_eq_false hclosed (Option.mem_toList.mp hc)
    · exact ⟨b, (lookup_set_ne (not_busy hbusy hcall hrun).symm _).trans hb, rfl, rfl⟩
    · have hne : h ≠ k := by
        rintro rfl
        cases ha.symm.trans hb
        exact Bool.false_ne_true (hclosed.symm.trans hopen)
      exact (lookup_set_ne hne _).trans hb
    · rcases lookup_set_cases hb with ⟨-, hb⟩ | ⟨-, hb⟩
      · cases hb
      · exact hs.kept hb rfl rfl

theorem moveAssign (hs : Sound s) {k : Nat} (ht : s.moveAssign h k = some t) : Sound t := by
  obtain ⟨a, ha, ht⟩ := Option.bind_eq_some_iff.mp ht
  obtain ⟨b, hb, ht⟩ := Option.bind_eq_some_iff.mp ht
  split at ht
  case isTrue => exact Option.some.inj ht ▸ hs
  case isFalse hne =>
    split at ht
    case isTrue => cases ht
    case isFalse hfree =>
      obtain rfl := Option.some.inj ht
      obtain ⟨hbusy, hbusy', hidle, hclosed⟩ : s.busy h = false ∧ s.busy k = false ∧
          b.aborting = false ∧ s.holdsOpen a = false := by simpa using hfree
      have hother : ∀ {j x}, j ≠ h → j ≠ k → s.handle j = some x →
          (((s.handles.set h (some b)).set k (some {}))[j]?).join = some x := by
        intro j x hjh hjk hx
        rw [lookup_set_ne hjk.symm, lookup_set_ne hjh.symm]
        exact hx
      refine hs.rehandle ?_ (fun c hc => ?_) (fun call hcall hrun x hx => ?_)
        (fun j x hx hab hopen => ?_) fun j x hx => ?_
      · refine hs.books.exchange (getElem?_handle ha) (getElem?_handle hb) hne fun c => ?_
        rw [List.count_append]
        show _ + 0 + (_ + (owns (some a)).count c) = _
        omega
      · rcases List.mem_append.mp hc with hc | hc
        · exact hs.dropped c hc
        · exact holdsOpen_eq_false hclosed (Option.mem_toList.mp hc)
      · exact ⟨x, hother (not_busy hbusy hcall hrun) (not_busy hbusy' hcall hrun) hx, rfl, rfl⟩
      · refine hother ?_ ?_ hx
        · rintro rfl
          cases ha.symm.trans hx
          exact Bool.false_ne_true (hclosed.symm.trans hopen)
        · rintro rfl
          cases hb.symm.trans hx
          exact Bool.false_ne_true (hidle.symm.trans hab)
      · rcases lookup_set_cases hx with ⟨-, hx⟩ | ⟨-, hx⟩
        · cases hx
          exact handleOk_empty ..
        · rcases lookup_set_cases hx with ⟨-, hx⟩ | ⟨-, hx⟩
          · cases hx
            refine (hs.handles k b hb).moved hbusy' ?_ j
            rfl
          · exact hs.kept hx rfl rfl

/-- A destructor or an assignment calls `abort_capture`. -/
theorem abort (hs : Sound s) (ht : s.abort h = some t) : Sound t := by
  obtain ⟨a, ha, ht⟩ := Option.bind_eq_some_iff.mp ht
  obtain ⟨c, hc, ht⟩ := Option.bind_eq_some_iff.mp ht
  split at ht
  case isFalse => cases ht
  case isTrue hfree =>
    obtain rfl := Option.some.inj ht
    obtain ⟨hidle, hopen, hbusy, hno⟩ := hfree
    obtain ⟨g, hcg, hend⟩ := endCapture_open hs.steady.exclusive hopen true
    have hnext : s.collector.next (.abortCapture c) = some (s.collector.endCapture c true) := by
      simp only [Collector.next, hidle, if_true]
    have hr : Steady (s.collector.endCapture c true) :=
      hs.steady.step (a := .abortCapture c) (by simp) hnext
    have hnone : ending s.collector.control = none := by
      rw [hidle]
      rfl
    rw [hend] at hr ⊢
    have hp : Paired { s.collector with control := .deactivating c g true } := by
      refine ⟨?_, fun g hg => ?_, hs.paired.named, hs.paired.current, hs.paired.ended,
        hs.paired.unique⟩
      · have hsize := hs.paired.size
        rw [hidle] at hsize
        exact hsize
      · cases hg
    refine ⟨hr, hp, ?_, hs.dropped, fun call hcall => ?_, hs.mutex, fun c' hc' => ?_,
      fun c' hc' => ?_, fun k b hb => ?_⟩
    · exact hs.books.replace (getElem?_handle ha) fun r => rfl
    · have hok := hs.calls call hcall
      refine hok.mono ?_ (fun _ _ => rfl) (fun c' hpc => ?_) fun _ _ hn => hn
      · rintro hrun p ⟨b, hb, hrest⟩
        exact ⟨b, (lookup_set_ne (not_busy hbusy hcall hrun).symm _).trans hb, hrest⟩
      · unfold CallOk at hok
        rw [hpc] at hok
        cases hok.2.symm.trans hnone
    · cases hc'
    · cases hc'
      exact ⟨h, { a with aborting := true }, lookup_set_self ha _, rfl, hc⟩
    · rcases lookup_set_cases hb with ⟨-, hb⟩ | ⟨-, hb⟩
      · cases hb
        refine ⟨(hs.handles h a ha).result, fun c' _ _ hab => ?_⟩
        cases hab
      · exact (hs.handles k b hb).mono (fun _ _ => rfl) (fun _ hcall _ => hcall) fun _ _ hn => hn

/-! ### Calls of `stop` -/

theorem stop (hs : Sound s) (ht : s.stop h = some t) : Sound t := by
  obtain ⟨a, ha, ht⟩ := Option.bind_eq_some_iff.mp ht
  split at ht
  case isTrue => cases ht
  case isFalse hno =>
    obtain rfl := Option.some.inj ht
    have hno : a.aborting = false := by simpa using hno
    refine ⟨hs.steady, hs.paired, hs.books, hs.dropped, fun call hcall => ?_, ?_,
      fun c hc => ?_, hs.aborting, fun k b hb => ?_⟩
    · rcases List.mem_append.mp hcall with hcall | hcall
      · exact (hs.calls call hcall).mono (fun _ _ hr => hr.mono rfl) (fun _ _ => rfl)
          (fun _ _ => rfl) fun _ _ hn => hn
      · obtain rfl := List.mem_singleton.mp hcall
        exact ⟨a, ha, hno, trivial⟩
    · intro i j x y c hx hy hxc hyc
      rcases getElem?_concat_cases hx with hx | ⟨-, rfl⟩
      · rcases getElem?_concat_cases hy with hy | ⟨-, rfl⟩
        · exact hs.mutex i j x y c hx hy hxc hyc
        · cases hyc
      · cases hxc
    · obtain ⟨call, hcall, hpc⟩ := hs.stopping c hc
      exact ⟨call, List.mem_append_left _ hcall, hpc⟩
    · exact (hs.handles k b hb).mono (fun _ _ => rfl)
        (fun call hcall _ => List.mem_append_left _ hcall) fun _ _ hn => hn

/-- A call goes on.  The collector may have begun to end a capture for it. -/
theorem goOn (hs : Sound s) {u : Collector} {pc : StopPc} (hi : s.stops[i]? = some call)
    (hr : Steady u) (hp : Paired u)
    (hcaptures : u.captures = s.collector.captures)
    (hsnapshots : u.snapshots = s.collector.snapshots)
    (hending : ending u.control = ending s.collector.control ∨
      ending s.collector.control = none ∧ ∃ c, pc = .stopping c ∧
        ending u.control = some (c, false))
    (hfrom : ∀ c, call.pc ≠ .stopping c)
    (hresult : (∃ c k, call.pc = .stopped c k) → ∀ a, s.handle call.handle = some a →
      a.result.isSome)
    (hok : CallOk { s.setStop i call pc with collector := u } { call with pc := pc })
    (hmutex : ∀ c, pc.holds = some c → call.pc.holds = some c ∨
      ∀ other ∈ s.stops, other.pc.holds ≠ some c) :
    Sound { s.setStop i call pc with collector := u } := by
  have hkeep : ∀ {j x}, s.stops[j]? = some x → i ≠ j → x ∈ s.stops.set i { call with pc := pc } :=
    fun hj hij => List.mem_of_getElem? ((List.getElem?_set_ne hij).trans hj)
  have hsnapshot : ∀ n c, SnapshotOf s.collector n c → SnapshotOf u n c := by
    intro n c hn
    rw [SnapshotOf, hsnapshots]
    exact hn
  refine ⟨hr, hp, ?_, fun c hc => ?_, fun x hx => ?_, ?_, fun c hc => ?_, fun c hc => ?_,
    fun k b hb => ?_⟩
  · show Balanced owns s.handles s.dropped (List.range u.captures.length)
    rw [hcaptures]
    exact hs.books
  · exact (isOpen_congr hcaptures).trans (hs.dropped c hc)
  · rcases List.mem_or_eq_of_mem_set hx with hx | rfl
    · have hold := hs.calls x hx
      refine hold.mono (fun _ _ hr => hr.mono rfl) (fun _ _ => isOpen_congr hcaptures)
        (fun c hpc => ?_) hsnapshot
      rcases hending with hsame | ⟨hnone, -⟩
      · exact hsame
      · unfold CallOk at hold
        rw [hpc] at hold
        cases hold.2.symm.trans hnone
    · exact hok
  · -- the mutex of `c` is free or this call's own
    have hown : ∀ j y c, s.stops[j]? = some y → pc.holds = some c → y.pc.holds = some c →
        i = j := by
      intro j y c hy hc hyc
      rcases hmutex c hc with hheld | hfree
      · exact hs.mutex i j call y c hi hy hheld hyc
      · exact absurd hyc (hfree y (List.mem_of_getElem? hy))
    have hsplit : ∀ {j x}, (s.stops.set i { call with pc := pc })[j]? = some x →
        i = j ∧ x.pc = pc ∨ i ≠ j ∧ s.stops[j]? = some x := by
      intro j x hx
      by_cases hij : i = j
      · subst hij
        rw [List.getElem?_set] at hx
        split at hx
        · split at hx
          · exact .inl ⟨rfl, by rw [← Option.some.inj hx]⟩
          · cases hx
        · exact absurd rfl ‹_›
      · rw [List.getElem?_set_ne hij] at hx
        exact .inr ⟨hij, hx⟩
    intro j k x y c hx hy hxc hyc
    rcases hsplit hx with ⟨rfl, hxpc⟩ | ⟨hij, hx⟩ <;>
      rcases hsplit hy with ⟨hik, hypc⟩ | ⟨hik, hy⟩
    · exact hik
    · exact absurd (hown k y c hy (hxpc ▸ hxc) hyc) hik
    · subst hik
      exact absurd (hown j x c hx (hypc ▸ hyc) hxc) hij
    · exact hs.mutex j k x y c hx hy hxc hyc
  · rcases hending with hsame | ⟨-, c', rfl, hc'⟩
    · obtain ⟨x, hx, hpc⟩ := hs.stopping c (hsame.symm.trans hc)
      obtain ⟨j, hj⟩ := List.mem_iff_getElem?.mp hx
      refine ⟨x, hkeep hj ?_, hpc⟩
      rintro rfl
      cases hi.symm.trans hj
      exact hfrom c hpc
    · cases hc'.symm.trans hc
      have hlt := (List.getElem?_eq_some_iff.mp hi).1
      exact ⟨_, List.mem_of_getElem? (List.getElem?_set_self hlt), rfl⟩
  · rcases hending with hsame | ⟨-, c', -, hc'⟩
    · exact hs.aborting c (hsame.symm.trans hc)
    · cases hc'.symm.trans hc
  · have hold := hs.handles k b hb
    refine ⟨fun n hn => ?_, fun c hc hclosed hno => ?_⟩
    · obtain ⟨c, hc, hsnap⟩ := hold.result n hn
      exact ⟨c, hc, hsnapshot n c hsnap⟩
    · rcases hold.closed c hc ((isOpen_congr hcaptures).symm.trans hclosed) hno with hres | hcall
      · exact .inl hres
      · obtain ⟨x, hx, hxk, n, hpc⟩ := hcall
        obtain ⟨j, hj⟩ := List.mem_iff_getElem?.mp hx
        by_cases hij : i = j
        · subst hij
          cases hi.symm.trans hj
          exact .inl (hresult ⟨c, _, hpc⟩ b (hxk.symm ▸ hb))
        · exact .inr ⟨x, hkeep hj hij, hxk, n, hpc⟩

/-- A call goes on by itself. -/
theorem advance (hs : Sound s) {pc : StopPc} (hi : s.stops[i]? = some call)
    (hfrom : call.pc = .entered) (hok : CallOk (s.setStop i call pc) { call with pc := pc })
    (hmutex : ∀ c, pc.holds = some c → ∀ other ∈ s.stops, other.pc.holds ≠ some c) :
    Sound (s.setStop i call pc) := by
  refine hs.goOn hi hs.steady hs.paired rfl rfl (.inl rfl) (fun c hc => ?_) ?_ hok
    fun c hc => .inr (hmutex c hc)
  · cases hfrom.symm.trans hc
  · rintro ⟨c, k, hc⟩
    cases hfrom.symm.trans hc

theorem enter (hs : Sound s) (hi : s.stops[i]? = some call) (hpc : call.pc = .entered)
    (ht : s.enter i call = some t) : Sound t := by
  have hold := hs.calls call (List.mem_of_getElem? hi)
  unfold CallOk at hold
  rw [hpc] at hold
  obtain ⟨a, ha, hno, -⟩ := hold
  obtain ⟨a', ha', ht⟩ := Option.bind_eq_some_iff.mp ht
  obtain rfl : a = a' := Option.some.inj (ha.symm.trans ha')
  split at ht
  case h_1 himpl =>
    cases ht
    exact hs.advance hi hpc rfl nofun
  case h_2 c himpl =>
    split at ht
    case isTrue => cases ht
    case isFalse hfree =>
      have hfree : ∀ other ∈ s.stops, other.pc.holds ≠ some c := by simpa using hfree
      split at ht
      case isTrue hopen =>
        cases ht
        refine hs.advance hi hpc ⟨⟨a, ha, hno, himpl⟩, hopen⟩ fun c' hc' => ?_
        cases hc'
        exact hfree
      case isFalse hclosed =>
        have hclosed : isOpen s.collector c = false := by simpa using hclosed
        split at ht
        case h_1 n hn =>
          cases ht
          obtain ⟨c', hc', hsnap⟩ := (hs.handles _ a ha).result n hn
          cases himpl.symm.trans hc'
          exact hs.advance hi hpc ⟨n, rfl, hsnap⟩ nofun
        case h_2 hnone =>
          -- somebody has closed the capture and would still hold the mutex
          rcases (hs.handles _ a ha).closed c himpl hclosed hno with hres | hcall
          · rw [hnone] at hres
            cases hres
          · obtain ⟨x, hx, -, k, hxpc⟩ := hcall
            exact absurd (by rw [hxpc]; rfl) (hfree x hx)

theorem stopStep (hs : Sound s) (ht : s.stopStep i = some t) : Sound t := by
  obtain ⟨call, hi, ht⟩ := Option.bind_eq_some_iff.mp ht
  have hold := hs.calls call (List.mem_of_getElem? hi)
  cases hpc : call.pc with
  | entered =>
    simp only [hpc] at ht
    exact hs.enter hi hpc ht
  | locked c =>
    simp only [hpc] at ht
    unfold CallOk at hold
    rw [hpc] at hold
    split at ht
    case isFalse => cases ht
    case isTrue hidle =>
      obtain rfl := Option.some.inj ht
      obtain ⟨g, hcg, hend⟩ := endCapture_open hs.steady.exclusive hold.2 false
      have hnext : s.collector.next (.stopCapture c) = some (s.collector.endCapture c false) := by
        simp only [Collector.next, hidle, if_true]
      have hr : Steady (s.collector.endCapture c false) :=
        hs.steady.step (a := .stopCapture c) (by simp) hnext
      rw [hend] at hr ⊢
      have hp : Paired { s.collector with control := .deactivating c g false } := by
        refine ⟨?_, fun g hg => ?_, hs.paired.named, hs.paired.current, hs.paired.ended,
          hs.paired.unique⟩
        · have hsize := hs.paired.size
          rw [hidle] at hsize
          exact hsize
        · cases hg
      refine hs.goOn hi hr hp rfl rfl (.inr ⟨by rw [hidle]; rfl, c, rfl, rfl⟩)
        (fun c' hc' => ?_) ?_ ⟨hold.1.mono rfl, rfl⟩ fun c' hc' => .inl ?_
      · cases hpc.symm.trans hc'
      · rintro ⟨c', k, hc'⟩
        cases hpc.symm.trans hc'
      · cases hc'
        rw [hpc]
        rfl
  | stopped c n =>
    simp only [hpc] at ht
    unfold CallOk at hold
    rw [hpc] at hold
    obtain ⟨⟨a, ha, hno, himpl⟩, -, k, rfl, hsnap⟩ := hold
    obtain ⟨a', ha', rfl⟩ := Option.map_eq_some_iff.mp ht
    obtain rfl : a = a' := Option.some.inj (ha.symm.trans ha')
    -- first the result is stored, then the call returns
    have hstored : Sound { s with
        handles := s.handles.set call.handle (some { a with result := some k }) } := by
      refine hs.rehandle (hs.books.replace (getElem?_handle ha) fun r => rfl) hs.dropped
        (fun x _ _ b hb => ?_) (fun h b hb hab _ => ?_) fun h b hb => ?_
      · by_cases hx : call.handle = x.handle
        · rw [← hx] at hb ⊢
          cases ha.symm.trans hb
          exact ⟨_, lookup_set_self ha _, rfl, rfl⟩
        · exact ⟨b, (lookup_set_ne hx _).trans hb, rfl, rfl⟩
      · refine (lookup_set_ne ?_ _).trans hb
        rintro rfl
        cases ha.symm.trans hb
        exact Bool.false_ne_true (hno.symm.trans hab)
      · rcases lookup_set_cases hb with ⟨-, hb⟩ | ⟨-, hb⟩
        · cases hb
          refine ⟨fun n hn => ?_, fun _ _ _ _ => .inl rfl⟩
          cases hn
          exact ⟨c, himpl, hsnap⟩
        · exact hs.kept hb rfl rfl
    refine hstored.goOn hi hs.steady hs.paired rfl rfl (.inl rfl) (fun c' hc' => ?_)
      (fun _ b hb => ?_) ⟨k, rfl, hsnap⟩ fun c' hc' => ?_
    · cases hpc.symm.trans hc'
    · cases (lookup_set_self ha _).symm.trans hb
      rfl
    · cases hc'
  | stopping c | returned c n | threw what =>
    simp only [hpc] at ht
    cases ht

theorem next (hs : Sound s) {x : Label} (hok : s.Allocates x) (ht : s.next x = some t) :
    Sound t := by
  cases x with
  | collector x =>
    have hquiet : x ≠ .control → x ≠ .stopFails → (∀ c, x ≠ .stopCapture c) →
        (∀ c, x ≠ .abortCapture c) →
        (s.collector.next x).map (fun u => { s with collector := u }) = some t → Sound t := by
      intro hcontrol hfails hstop habort hx
      obtain ⟨u, hu, rfl⟩ := Option.map_eq_some_iff.mp hx
      obtain ⟨hq, hp⟩ := quiet_next hs.paired hu hcontrol hfails hstop habort
      exact hs.quiet (hs.steady.step hfails hu) hp hq
    cases x with
    | control => exact hs.control ht
    | stopFails => exact absurd rfl hok
    | stopCapture c | abortCapture c => cases ht
    | openSlot _ _ _ _ | startCapture _ _ _ | emit _ _ _ | emission _ _ =>
      exact hquiet nofun nofun nofun nofun ht
  | construct => exact Option.some.inj ht ▸ hs.construct
  | moveConstruct h => exact hs.moveConstruct ht
  | abort h => exact hs.abort ht
  | destroy h => exact hs.destroy ht
  | moveAssign h k => exact hs.moveAssign ht
  | stop h => exact hs.stop ht
  | stopStep i => exact hs.stopStep ht

end Sound

theorem sound_of_reachable (hs : Program.machine.ReachableUnder Program.Allocates s) :
    Sound s := by
  apply hs.invariant Sound
  · rintro s rfl
    exact .initial
  · intro s x t hs hok ht
    exact hs.next hok ht

/-! ## The result -/

structure CapturesOwned (s : Program) : Prop where
  /-- A capture belongs to one object. -/
  owner : ∀ (h k : Nat) (a b : Handle) (c : Nat), s.handle h = some a → s.handle k = some b →
    a.impl = some c → b.impl = some c → h = k
  /-- An open capture has an object: none is left behind that nobody can stop. -/
  owned : ∀ c, isOpen s.collector c = true → ∃ h a, s.handle h = some a ∧ a.impl = some c
  /-- Between two calls under its mutex, the collector records if and only if an object has its
  capture open; with the last such object gone, a new capture can be started. -/
  recording : s.collector.control = .idle → (s.collector.recordingLocked = true ↔
    ∃ h a, s.handle h = some a ∧ s.holdsOpen a = true)
  /-- A call of `stop` returns the snapshot of the generation that its capture was started
  with, never an empty one. -/
  answered : ∀ call ∈ s.stops, ∀ c n, call.pc = .returned c n → ∃ k snapshot, n = some k ∧
    s.collector.snapshots[k]? = some snapshot ∧ snapshot.generation = c
  /-- All calls for a capture return the same snapshot. -/
  shared : ∀ x ∈ s.stops, ∀ y ∈ s.stops, ∀ c n m, x.pc = .returned c n → y.pc = .returned c m →
    n = m
  /-- A call throws on an object without a capture only. -/
  threw : ∀ call ∈ s.stops, ∀ what, call.pc = .threw what →
    what = "TraceCapture::stop called on empty/moved-from capture"

/-- **A capture ends with its object**, and calls of `stop` share its snapshot. -/
theorem captures_owned (hs : Program.machine.ReachableUnder Program.Allocates s) :
    CapturesOwned s := by
  have hsound := sound_of_reachable hs
  have howned : ∀ c, isOpen s.collector c = true →
      ∃ h a, s.handle h = some a ∧ a.impl = some c := by
    intro c hc
    have hlive : c ∉ s.dropped := fun hd =>
      Bool.false_ne_true ((hsound.dropped c hd).symm.trans hc)
    obtain ⟨h, o, ho, hco⟩ := hsound.books.exists_owner
      (List.mem_range.mpr (lt_of_isOpen hc)) hlive
    obtain ⟨a, rfl, hac⟩ := Option.bind_eq_some_iff.mp (Option.mem_toList.mp hco)
    exact ⟨h, a, Option.join_eq_some_iff.mpr ho, hac⟩
  have hanswered : ∀ call ∈ s.stops, ∀ c n, call.pc = .returned c n →
      ∃ k, n = some k ∧ SnapshotOf s.collector k c := by
    intro call hcall c n hpc
    have hok := hsound.calls call hcall
    unfold CallOk at hok
    rwa [hpc] at hok
  refine {
    owner := fun h k a b c ha hb => hsound.eq_of_impl ha hb
    owned := howned
    recording := fun hidle => ?_
    answered := ?_
    shared := ?_
    threw := ?_ }
  · rw [hsound.steady.recordingLocked_iff hidle]
    constructor
    · intro hsome
      obtain ⟨g, hg⟩ := Option.isSome_iff_exists.mp hsome
      have hopen := hsound.paired.current g hg
      obtain ⟨h, a, ha, hag⟩ := howned g hopen
      exact ⟨h, a, ha, by rw [Program.holdsOpen, hag]; exact hopen⟩
    · rintro ⟨h, a, -, hopen⟩
      obtain ⟨c, -, hc⟩ := (Option.any_eq_true ..).mp hopen
      obtain ⟨capture, hcapture, hclosed⟩ := isOpen_iff.mp hc
      obtain ⟨hsome, hcurrent⟩ := hsound.steady.exclusive.captures c capture hcapture hclosed
      rwa [hcurrent] at hsome
  · intro call hcall c n hpc
    obtain ⟨k, rfl, snapshot, hk, hc⟩ := hanswered call hcall c n hpc
    exact ⟨k, snapshot, rfl, hk, hc⟩
  · intro x hx y hy c n m hxpc hypc
    obtain ⟨k, rfl, p, hk, hp⟩ := hanswered x hx c n hxpc
    obtain ⟨l, rfl, q, hl, hq⟩ := hanswered y hy c m hypc
    have hgenerations : ∀ {j : Nat} {r : Snapshot}, s.collector.snapshots[j]? = some r →
        r.generation = c → (s.collector.snapshots.map (·.generation))[j]? = some c := by
      intro j r hj hr
      rw [List.getElem?_map, hj, ← hr]
      rfl
    have hlt := (List.getElem?_eq_some_iff.mp (hgenerations hk hp)).1
    exact congrArg some ((List.getElem?_inj hlt hsound.paired.unique).mp
      ((hgenerations hk hp).trans (hgenerations hl hq).symm))
  · intro call hcall what hpc
    have hok := hsound.calls call hcall
    unfold CallOk at hok
    rwa [hpc] at hok
end

/-- Two threads stop one capture; the second capture is moved and aborted with its object, and
the object that it was moved from is told to stop. -/
def stopTwiceAndAbort : List Label :=
  ([.collector (.startCapture {} 0 false), .collector .control, .stop 0, .stop 0, .stopStep 0,
    .stopStep 0] : List Label) ++
    (List.replicate 4 (.collector .control) : List Label) ++
    ([.stopStep 0, .stopStep 1, .collector (.startCapture {} 5 false), .collector .control,
      .moveConstruct 1, .abort 2] : List Label) ++
    (List.replicate 3 (.collector .control) : List Label) ++
    ([.destroy 2, .stop 1, .stopStep 2] : List Label)

theorem captures_owned_stopTwiceAndAbort : ∃ s,
    Program.machine.run {} stopTwiceAndAbort = some s ∧ CapturesOwned s ∧
      s.stops.map (·.pc) = [.returned 0 (some 0), .returned 0 (some 0),
        .threw "TraceCapture::stop called on empty/moved-from capture"] ∧
      s.collector.recordingLocked = false := by
  obtain ⟨s, hs⟩ := Option.isSome_iff_exists.mp
    (show (Program.machine.run {} stopTwiceAndAbort).isSome by decide)
  have hend : (Program.machine.run {} stopTwiceAndAbort).map (fun t =>
      (t.stops.map (·.pc), t.collector.recordingLocked)) =
      some ([.returned 0 (some 0), .returned 0 (some 0),
        .threw "TraceCapture::stop called on empty/moved-from capture"], false) := by decide
  rw [hs] at hend
  obtain ⟨hpcs, hrecording⟩ := Prod.mk.inj (Option.some.inj hend)
  have hnew : Program.machine.ReachableUnder Program.Allocates {} := .initial rfl
  exact ⟨s, hs, captures_owned (hnew.run (by decide) hs), hpcs, hrecording⟩

end AstraScheduler.CaptureHandles
