import AstraScheduler.TraceCollector

/-! # Emissions and the gate of a generation

The invariant of the collector, and that the steps of an emission keep it.  The emissions
that `stop_capture` waits for are those counted in `inflight`; one that enters later finds the
generation inactive before it draws a ticket.  So once the wait is over no emission stands
between that second look and its last write (`EmitPc.window`), and the buffers of the
generation no longer change. -/

namespace AstraScheduler.TraceCollector
open Trace (TraceCategory TraceEvent TraceProducerKind ProducerReport TraceSnapshotData)
open Transition (Machine)
open Threads (countP_set mem_set_of_ne mem_set_self)

namespace EmitPc

/-- The generation whose gate an emission is about to enter or has entered. -/
def known : EmitPc → Option Nat
  | .enter g | .loadEntry g | .checkAgain g _ | .ticket g _ | .drop g _ | .write g _ _
  | .leave g => some g
  | .loadCurrent | .checkActive _ | .done => none

/-- The generation in whose `inflight` an emission is counted. -/
def inside : EmitPc → Option Nat
  | .loadEntry g | .checkAgain g _ | .ticket g _ | .drop g _ | .write g _ _ | .leave g => some g
  | .loadCurrent | .checkActive _ | .enter _ | .done => none

/-- The generation and the buffer that an emission has found. -/
def found : EmitPc → Option (Nat × Nat)
  | .checkAgain g b | .ticket g b | .drop g b | .write g b _ => some (g, b)
  | _ => none

/-- The same, past the second look at `active`: it is going to change the buffer. -/
def window : EmitPc → Option (Nat × Nat)
  | .ticket g b | .drop g b | .write g b _ => some (g, b)
  | _ => none

/-- It has drawn its ticket, or will draw none. -/
def past : EmitPc → Bool
  | .drop _ _ | .write _ _ _ | .leave _ | .done => true
  | _ => false

/-- It is going to count a loss in buffer `b`. -/
def dropping (b : Nat) : EmitPc → Bool
  | .drop _ b' => b' = b
  | _ => false

/-- It is going to write to buffer `b`. -/
def writing (b : Nat) : EmitPc → Bool
  | .write _ b' _ => b' = b
  | _ => false

theorem window_inside {pc : EmitPc} {g b : Nat} (h : pc.window = some (g, b)) :
    pc.inside = some g := by
  cases pc <;> simp_all [window, inside]

theorem inside_known {pc : EmitPc} {g : Nat} (h : pc.inside = some g) : pc.known = some g := by
  cases pc with
  | loadCurrent | checkActive _ | enter _ | done => cases h
  | loadEntry _ | checkAgain _ _ | ticket _ _ | drop _ _ | write _ _ _ | leave _ => exact h

theorem window_found {pc : EmitPc} {g b : Nat} (h : pc.window = some (g, b)) :
    pc.found = some (g, b) := by
  cases pc <;> simp_all [window, found]

end EmitPc

/-- The generation that `start_capture` is publishing, and the one that is waited for. -/
def Control.storing? : Control → Option Nat
  | .storing g _ => some g
  | _ => none

def Control.quiescing? : Control → Option Nat
  | .quiescing _ g _ => some g
  | _ => none

def Control.prepared : Control → List (Nat × TraceBufferEntry)
  | .storing _ prepared => prepared
  | _ => []

namespace Collector

/-- The emissions that have drawn a ticket from a buffer. -/
def ticketsOf (s : Collector) (b : Nat) : Nat := s.tickets.countP fun t => t.2 = b

end Collector

/-! ## The invariant -/

/-- What an emission knows: the generation exists, and the buffer it has found is of that
generation and of its slot. -/
structure EmissionOk (s : Collector) (e : Emission) : Prop where
  known : ∀ g, e.pc.known = some g → g < s.generations.length
  found : ∀ g b, e.pc.found = some (g, b) → ∃ B, s.buffers[b]? = some B ∧
    B.generation = g ∧ B.owner = e.slot
  place : ∀ g b t, e.pc = .write g b t → ∃ B, s.buffers[b]? = some B ∧ t < B.committed

/-- A written place. -/
structure RecordOk (s : Collector) (B : TraceBuffer) (t : Nat) (r : Recorded) : Prop where
  sequence : r.event.localSequence = UInt64.ofNat t
  producer : ∃ slot, s.slots[B.owner]? = some slot ∧ r.event.producerId = slot.producerId
  generation : r.generation = B.generation

/-- A buffer: each ticket is written, about to be written, a counted loss, or about to be
counted. -/
structure BufferOk (s : Collector) (b : Nat) (B : TraceBuffer) : Prop where
  size : B.slots.length = B.capacity
  known : B.generation < s.generations.length
  owner : ∃ slot, s.slots[B.owner]? = some slot
  count : B.nextTicket = s.ticketsOf b
  losses : B.dropped + s.emissions.countP (fun e => e.pc.dropping b) + B.committed = B.nextTicket
  written : ∀ t < B.committed, (∃ r, B.slots[t]? = some (some r) ∧ RecordOk s B t r) ∨
    ∃ e ∈ s.emissions, e.pc = .write B.generation b t
  fresh : ∀ t, B.committed ≤ t → t < B.capacity → B.slots[t]? = some none

/-- The entry of slot `k` leads to a buffer of its own. -/
def EntryOk (s : Collector) (k : Nat) (entry : TraceBufferEntry) : Prop :=
  ∃ B, s.buffers[entry.buffer]? = some B ∧ B.generation = entry.generation ∧ B.owner = k

/-- The slots: a buffer of the generation that is being published or, between two starts, of the
current one, is in its slot, or is about to be stored there. -/
structure SlotsOk (s : Collector) : Prop where
  entries : ∀ (k : Nat) (slot : TraceSlot) entry, s.slots[k]? = some slot →
    slot.entry = some entry → EntryOk s k entry
  unique : ∀ (b b' : Nat) (B B' : TraceBuffer), s.buffers[b]? = some B → s.buffers[b']? = some B' →
    B.generation = B'.generation → B.owner = B'.owner → b = b'
  bound : ∀ (b : Nat) (B : TraceBuffer), s.buffers[b]? = some B →
    s.control.storing? = some B.generation ∨
      s.control.storing? = none ∧ s.current = some B.generation →
    (∃ slot, s.slots[B.owner]? = some slot ∧ slot.entry = some ⟨B.generation, b⟩) ∨
      (B.owner, ⟨B.generation, b⟩) ∈ s.control.prepared

/-- A part as it stands in its buffer. -/
structure PartOk (s : Collector) (p : Part) (B : TraceBuffer) : Prop where
  report : ∃ slot, s.slots[B.owner]? = some slot ∧ p.report = Collector.report slot B
  dropped : p.dropped = B.dropped
  events : p.events = B.slots.take B.committed

/-- The parts taken from the slots below `k`. -/
structure Taken (s : Collector) (g k : Nat) (parts : List Part) : Prop where
  each : ∀ p ∈ parts, ∃ B, s.buffers[p.buffer]? = some B ∧ B.generation = g ∧ B.owner < k ∧
    PartOk s p B
  distinct : (parts.map (·.buffer)).Nodup
  complete : ∀ (b : Nat) (B : TraceBuffer), s.buffers[b]? = some B → B.generation = g → B.owner < k →
    b ∈ parts.map (·.buffer)

/-- What has been read from slot `k`. -/
def StageOk (s : Collector) (g k : Nat) : ReadStage → Prop
  | .loadEntry => True
  | .readTicket b => ∃ B, s.buffers[b]? = some B ∧ B.generation = g ∧ B.owner = k
  | .readDropped b committed => ∃ B, s.buffers[b]? = some B ∧ B.generation = g ∧ B.owner = k ∧
      committed = B.committed
  | .copy p committed => ∃ B, s.buffers[p.buffer]? = some B ∧ B.generation = g ∧ B.owner = k ∧
      committed = B.committed ∧
      (∃ slot, s.slots[B.owner]? = some slot ∧ p.report = Collector.report slot B) ∧
      p.dropped = B.dropped ∧ p.events.length ≤ committed ∧
      p.events = B.slots.take p.events.length

/-- Capture `c` is open, and its generation is the current one. -/
def OpenCapture (s : Collector) (c g : Nat) : Prop :=
  s.current = some g ∧ s.captures[c]? = some { generation := some g, closed := false }

/-- What holds where the function under the mutex stands. -/
def ControlOk (s : Collector) : Control → Prop
  | .idle => True
  | .storing g prepared => s.recordingLocked = false ∧ s.active g = true ∧
      ∀ q ∈ prepared, q.2.generation = g ∧ EntryOk s q.1 q.2
  | .deactivating c g _ => OpenCapture s c g
  | .quiescing c g _ => OpenCapture s c g ∧ s.active g = false
  | .reading c g k parts stage => OpenCapture s c g ∧ s.active g = false ∧ Taken s g k parts ∧
      StageOk s g k stage
  | .clearing c g parts => OpenCapture s c g ∧ s.active g = false ∧
      ∀ taken ∈ parts, Taken s g s.slots.length taken

/-- A snapshot: its generation is over, and it has all that was to be taken. -/
structure SnapshotOk (s : Collector) (n : Snapshot) : Prop where
  known : n.generation < s.generations.length
  inactive : s.active n.generation = false
  past : s.current ≠ some n.generation
  taken : ∃ k, Taken s n.generation k n.parts ∧
    ∀ (b : Nat) (B : TraceBuffer), s.buffers[b]? = some B → B.generation = n.generation →
      B.owner < k

structure Inv (s : Collector) : Prop where
  gate : ∀ (g : Nat) (G : TraceGeneration), s.generations[g]? = some G →
    G.inflight = s.emissions.countP fun e => e.pc.inside = some g
  window : ∀ e ∈ s.emissions, ∀ g b, e.pc.window = some (g, b) →
    s.active g = true ∨ s.control.quiescing? = some g
  emissions : ∀ e ∈ s.emissions, EmissionOk s e
  active : ∀ g, s.active g = true → s.current = some g ∨ s.control.storing? = some g
  known : ∀ g, s.current = some g → g < s.generations.length
  control : ControlOk s s.control
  buffers : ∀ (b : Nat) (B : TraceBuffer), s.buffers[b]? = some B → BufferOk s b B
  tickets : ∀ t ∈ s.tickets, ∃ B, s.buffers[t.2]? = some B ∧ B.generation = t.1
  slots : SlotsOk s
  snapshots : ∀ n ∈ s.snapshots, SnapshotOk s n

/-! ## Steps that leave a generation alone -/

/-- The slots of `s` are still there, perhaps with other entries. -/
def SlotsKept (s s' : Collector) : Prop :=
  ∀ (k : Nat) (slot : TraceSlot), s.slots[k]? = some slot →
    ∃ slot', s'.slots[k]? = some slot' ∧ slot'.producerId = slot.producerId ∧
      slot'.kind = slot.kind

theorem SlotsKept.of_eq {s s' : Collector} (h : s'.slots = s.slots) : SlotsKept s s' :=
  fun k slot hk => ⟨slot, by rw [h]; exact hk, rfl, rfl⟩

/-- The buffers of generation `g` are the same. -/
def SameBuffers (s s' : Collector) (g : Nat) : Prop :=
  ∀ (b : Nat) (B : TraceBuffer), B.generation = g → (s'.buffers[b]? = some B ↔ s.buffers[b]? = some B)

theorem SameBuffers.of_eq {s s' : Collector} {g : Nat} (h : s'.buffers = s.buffers) :
    SameBuffers s s' g :=
  fun b B _ => by rw [h]

section
variable {s s' : Collector} {g k : Nat}

theorem SlotsKept.report (h : SlotsKept s s') {r : ProducerReport} {B : TraceBuffer}
    (hr : ∃ slot, s.slots[k]? = some slot ∧ r = Collector.report slot B) :
    ∃ slot, s'.slots[k]? = some slot ∧ r = Collector.report slot B := by
  obtain ⟨slot, hk, rfl⟩ := hr
  obtain ⟨slot', hk', hid, hkind⟩ := h k slot hk
  exact ⟨slot', hk', by simp [Collector.report, hid, hkind]⟩

theorem PartOk.keep {p : Part} {B : TraceBuffer} (h : PartOk s p B) (hslots : SlotsKept s s') :
    PartOk s' p B :=
  ⟨hslots.report h.report, h.dropped, h.events⟩

theorem Taken.keep {parts : List Part} (h : Taken s g k parts) (hslots : SlotsKept s s')
    (hb : SameBuffers s s' g) : Taken s' g k parts where
  each p hp := by
    obtain ⟨B, hB, hg, hk, hok⟩ := h.each p hp
    exact ⟨B, (hb _ B hg).mpr hB, hg, hk, hok.keep hslots⟩
  distinct := h.distinct
  complete b B hB hg hk := h.complete b B ((hb b B hg).mp hB) hg hk

theorem StageOk.keep {stage : ReadStage} (h : StageOk s g k stage) (hslots : SlotsKept s s')
    (hb : SameBuffers s s' g) : StageOk s' g k stage := by
  cases stage with
  | loadEntry => trivial
  | readTicket b =>
    obtain ⟨B, hB, hg, hk⟩ := h
    exact ⟨B, (hb _ B hg).mpr hB, hg, hk⟩
  | readDropped b committed =>
    obtain ⟨B, hB, hg, hk⟩ := h
    exact ⟨B, (hb _ B hg).mpr hB, hg, hk⟩
  | copy p committed =>
    obtain ⟨B, hB, hg, hk, hc, hr, hrest⟩ := h
    exact ⟨B, (hb _ B hg).mpr hB, hg, hk, hc, hslots.report hr, hrest⟩

theorem SnapshotOk.keep {n : Snapshot} (h : SnapshotOk s n) (hslots : SlotsKept s s')
    (hb : SameBuffers s s' n.generation) (hg : s.generations.length ≤ s'.generations.length)
    (ha : s'.active n.generation = s.active n.generation)
    (hcur : s'.current ≠ some n.generation) : SnapshotOk s' n where
  known := Nat.lt_of_lt_of_le h.known hg
  inactive := ha.trans h.inactive
  past := hcur
  taken := by
    obtain ⟨k, htaken, hall⟩ := h.taken
    exact ⟨k, htaken.keep hslots hb, fun b B hB hgen => hall b B ((hb b B hgen).mp hB) hgen⟩

/-- A buffer that is the same, while nobody draws a ticket from it, writes to it or counts a
loss there. -/
theorem BufferOk.keep {b : Nat} {B : TraceBuffer} (h : BufferOk s b B) (hslots : SlotsKept s s')
    (hg : s.generations.length ≤ s'.generations.length)
    (htickets : s'.ticketsOf b = s.ticketsOf b)
    (hdrop : s'.emissions.countP (fun e => e.pc.dropping b) =
      s.emissions.countP fun e => e.pc.dropping b)
    (hwrite : ∀ e ∈ s.emissions, e.pc.writing b → e ∈ s'.emissions) : BufferOk s' b B where
  size := h.size
  known := Nat.lt_of_lt_of_le h.known hg
  owner := by
    obtain ⟨slot, hslot⟩ := h.owner
    obtain ⟨slot', hslot', -⟩ := hslots _ slot hslot
    exact ⟨slot', hslot'⟩
  count := h.count.trans htickets.symm
  losses := by rw [hdrop]; exact h.losses
  written t ht := by
    rcases h.written t ht with ⟨r, hr, hok⟩ | ⟨e, he, hpc⟩
    · obtain ⟨slot, hslot, hid⟩ := hok.producer
      obtain ⟨slot', hslot', hid', -⟩ := hslots _ slot hslot
      exact .inl ⟨r, hr, hok.sequence, ⟨slot', hslot', hid.trans hid'.symm⟩, hok.generation⟩
    · exact .inr ⟨e, hwrite e he (by simp [hpc, EmitPc.writing]), hpc⟩
  fresh := h.fresh

theorem EmissionOk.keep {e : Emission} (h : EmissionOk s e)
    (hg : s.generations.length ≤ s'.generations.length)
    (hb : ∀ (b : Nat) (B : TraceBuffer), s.buffers[b]? = some B → ∃ B', s'.buffers[b]? = some B' ∧
      B'.generation = B.generation ∧ B'.owner = B.owner ∧ B.committed ≤ B'.committed) :
    EmissionOk s' e where
  known g hk := Nat.lt_of_lt_of_le (h.known g hk) hg
  found g b hf := by
    obtain ⟨B, hB, hgen, howner⟩ := h.found g b hf
    obtain ⟨B', hB', hgen', howner', -⟩ := hb b B hB
    exact ⟨B', hB', hgen'.trans hgen, howner'.trans howner⟩
  place g b t hp := by
    obtain ⟨B, hB, ht⟩ := h.place g b t hp
    obtain ⟨B', hB', -, -, hc⟩ := hb b B hB
    exact ⟨B', hB', Nat.lt_of_lt_of_le ht hc⟩

end

/-! ## Emissions -/

/-- `B` has become `B'` by a step of an emission. -/
structure Grown (B B' : TraceBuffer) : Prop where
  generation : B'.generation = B.generation
  owner : B'.owner = B.owner
  committed : B.committed ≤ B'.committed

/-- What a step of emission `i` leaves alone: it changes no buffer but the one it has in its
window, and of a generation only the count of those inside. -/
structure EmitStep (s s' : Collector) (i : Nat) (e : Emission) (pc : EmitPc) : Prop where
  emissions : s'.emissions = s.emissions.set i { e with pc := pc }
  slots : s'.slots = s.slots
  current : s'.current = s.current
  captures : s'.captures = s.captures
  control : s'.control = s.control
  snapshots : s'.snapshots = s.snapshots
  size : s'.generations.length = s.generations.length
  active : ∀ g, s'.active g = s.active g
  gate : ∀ (g : Nat) (G' : TraceGeneration), s'.generations[g]? = some G' →
    ∃ G, s.generations[g]? = some G ∧
      G'.inflight + (if e.pc.inside = some g then 1 else 0) =
        G.inflight + (if pc.inside = some g then 1 else 0)
  buffers : s'.buffers = s.buffers ∨ ∃ b B B', s.buffers[b]? = some B ∧ Grown B B' ∧
    e.pc.window = some (B.generation, b) ∧ s'.buffers = s.buffers.set b B'

namespace EmitStep
variable {s s' : Collector} {i : Nat} {e : Emission} {pc : EmitPc}

theorem recordingLocked (f : EmitStep s s' i e pc) :
    s'.recordingLocked = s.recordingLocked := by
  simp only [Collector.recordingLocked, f.current, funext f.active]

theorem forward (f : EmitStep s s' i e pc) {b : Nat} {B : TraceBuffer}
    (hB : s.buffers[b]? = some B) : ∃ B', s'.buffers[b]? = some B' ∧
      B'.generation = B.generation ∧ B'.owner = B.owner ∧ B.committed ≤ B'.committed := by
  rcases f.buffers with heq | ⟨b₀, B₀, B₁, hB₀, hgrown, -, heq⟩
  · exact ⟨B, heq ▸ hB, rfl, rfl, Nat.le_refl _⟩
  · by_cases hb : b₀ = b
    · subst hb
      obtain rfl := Option.some.inj (hB₀.symm.trans hB)
      refine ⟨B₁, ?_, hgrown.generation, hgrown.owner, hgrown.committed⟩
      rw [heq, List.getElem?_set_self (List.getElem?_eq_some_iff.mp hB₀).1]
    · exact ⟨B, by rw [heq, List.getElem?_set_ne hb]; exact hB, rfl, rfl, Nat.le_refl _⟩

theorem back (f : EmitStep s s' i e pc) {b : Nat} {B' : TraceBuffer}
    (hB : s'.buffers[b]? = some B') : ∃ B, s.buffers[b]? = some B ∧
      B'.generation = B.generation ∧ B'.owner = B.owner := by
  rcases f.buffers with heq | ⟨b₀, B₀, B₁, hB₀, hgrown, -, heq⟩
  · exact ⟨B', heq ▸ hB, rfl, rfl⟩
  · by_cases hb : b₀ = b
    · subst hb
      rw [heq, List.getElem?_set_self (List.getElem?_eq_some_iff.mp hB₀).1] at hB
      obtain rfl := Option.some.inj hB
      exact ⟨B₀, hB₀, hgrown.generation, hgrown.owner⟩
    · rw [heq, List.getElem?_set_ne hb] at hB
      exact ⟨B', hB, rfl, rfl⟩

/-- A generation that this emission has not in its window. -/
theorem sameBuffers (f : EmitStep s s' i e pc) {g : Nat}
    (hg : ∀ b, e.pc.window ≠ some (g, b)) : SameBuffers s s' g := by
  rcases f.buffers with heq | ⟨b₀, B₀, B₁, hB₀, hgrown, hwin, heq⟩
  · exact .of_eq heq
  · intro b B hgen
    by_cases hb : b₀ = b
    · subst hb
      have hne : B₀.generation ≠ g := by
        rintro rfl
        exact hg _ hwin
      rw [heq, List.getElem?_set_self (List.getElem?_eq_some_iff.mp hB₀).1, hB₀]
      constructor
      · intro h
        obtain rfl := Option.some.inj h
        exact absurd (hgrown.generation.symm.trans hgen) hne
      · intro h
        obtain rfl := Option.some.inj h
        exact absurd hgen hne
    · rw [heq, List.getElem?_set_ne hb]

/-- A buffer that the step does not touch. -/
theorem keep (f : EmitStep s s' i e pc) (hi : s.emissions[i]? = some e) {b : Nat}
    {B : TraceBuffer} (h : BufferOk s b B) (ht : s'.ticketsOf b = s.ticketsOf b)
    (hd : e.pc.dropping b = pc.dropping b) (hw : e.pc.writing b = false) : BufferOk s' b B := by
  refine h.keep (.of_eq f.slots) f.size.ge ht ?_ ?_
  · have := countP_set (fun e => e.pc.dropping b) hi { e with pc := pc }
    simp only [hd] at this
    rw [f.emissions]
    omega
  · intro x hx hxw
    rw [f.emissions]
    refine mem_set_of_ne hi hx ?_
    rintro rfl
    rw [hw] at hxw
    cases hxw

end EmitStep

section
variable {s s' : Collector} {i : Nat} {e : Emission} {pc : EmitPc}

/-- No emission has a generation in its window that is neither active nor waited for. -/
theorem Inv.settled (h : Inv s) {g : Nat} (ha : s.active g = false)
    (hq : s.control.quiescing? ≠ some g) {x : Emission} (hx : x ∈ s.emissions) (b : Nat) :
    x.pc.window ≠ some (g, b) := by
  intro hw
  rcases h.window x hx g b hw with h1 | h1
  · rw [ha] at h1
    cases h1
  · exact hq h1

/-- A generation with a snapshot is not being waited for. -/
theorem Inv.quiescing_current (h : Inv s) {g : Nat} (hq : s.control.quiescing? = some g) :
    s.current = some g := by
  have hc := h.control
  cases hctl : s.control <;> rw [hctl] at hq hc <;> simp only [Control.quiescing?] at hq
  case quiescing c g' discard =>
    obtain rfl := Option.some.inj hq
    exact hc.1.1
  all_goals cases hq

/-- **One step of an emission.**  What it changes is left to be shown. -/
theorem Inv.emitStep (h : Inv s) (hi : s.emissions[i]? = some e) (f : EmitStep s s' i e pc)
    (hok : EmissionOk s' { e with pc := pc })
    (hwin : ∀ g b, pc.window = some (g, b) → s.active g = true ∨ s.control.quiescing? = some g)
    (hbuf : ∀ (b : Nat) (B : TraceBuffer), s'.buffers[b]? = some B → BufferOk s' b B)
    (htickets : ∀ t ∈ s'.tickets, ∃ B, s'.buffers[t.2]? = some B ∧ B.generation = t.1) :
    Inv s' := by
  have he : e ∈ s.emissions := List.mem_of_getElem? hi
  have hslots : SlotsKept s s' := .of_eq f.slots
  have hentry : ∀ k entry, EntryOk s k entry → EntryOk s' k entry := by
    rintro k entry ⟨B, hB, hg, ho⟩
    obtain ⟨B', hB', hg', ho', -⟩ := f.forward hB
    exact ⟨B', hB', hg'.trans hg, ho'.trans ho⟩
  -- a generation that nobody waits for and that is not active is the same after the step
  have hsame : ∀ g, s.active g = false → s.control.quiescing? ≠ some g → SameBuffers s s' g :=
    fun g ha hq => f.sameBuffers fun b => h.settled ha hq he b
  refine
    { gate := ?_, window := ?_, emissions := ?_, active := ?_, known := ?_, control := ?_,
      buffers := hbuf, tickets := htickets, slots := ⟨?_, ?_, ?_⟩, snapshots := ?_ }
  · intro g G' hG'
    obtain ⟨G, hG, heq⟩ := f.gate g G' hG'
    have hset := countP_set (fun e => e.pc.inside = some g) hi { e with pc := pc }
    have hold := h.gate g G hG
    rw [f.emissions]
    simp only [decide_eq_true_eq] at hset
    omega
  · intro x hx g b hw
    rw [f.emissions] at hx
    rw [f.active, f.control]
    rcases List.mem_or_eq_of_mem_set hx with hx | rfl
    · exact h.window x hx g b hw
    · exact hwin g b hw
  · intro x hx
    rw [f.emissions] at hx
    rcases List.mem_or_eq_of_mem_set hx with hx | rfl
    · exact (h.emissions x hx).keep f.size.ge fun b B hB => f.forward hB
    · exact hok
  · intro g hg
    rw [f.active] at hg
    rw [f.current, f.control]
    exact h.active g hg
  · rw [f.current, f.size]
    exact h.known
  · have hc := h.control
    rw [f.control]
    cases hctl : s.control with
    | idle => trivial
    | storing g prepared =>
      rw [hctl] at hc
      exact ⟨f.recordingLocked.trans hc.1, (f.active g).trans hc.2.1, fun q hq =>
        ⟨(hc.2.2 q hq).1, hentry _ _ (hc.2.2 q hq).2⟩⟩
    | deactivating c g discard =>
      rw [hctl] at hc
      exact ⟨f.current.trans hc.1, f.captures ▸ hc.2⟩
    | quiescing c g discard =>
      rw [hctl] at hc
      exact ⟨⟨f.current.trans hc.1.1, f.captures ▸ hc.1.2⟩, (f.active g).trans hc.2⟩
    | reading c g k parts stage =>
      rw [hctl] at hc
      have hs := hsame g hc.2.1 (by simp [hctl, Control.quiescing?])
      exact ⟨⟨f.current.trans hc.1.1, f.captures ▸ hc.1.2⟩, (f.active g).trans hc.2.1,
        hc.2.2.1.keep hslots hs, hc.2.2.2.keep hslots hs⟩
    | clearing c g parts =>
      rw [hctl] at hc
      have hs := hsame g hc.2.1 (by simp [hctl, Control.quiescing?])
      refine ⟨⟨f.current.trans hc.1.1, f.captures ▸ hc.1.2⟩, (f.active g).trans hc.2.1, ?_⟩
      intro taken htaken
      rw [f.slots]
      exact (hc.2.2 taken htaken).keep hslots hs
  · intro k slot entry hk hentry'
    rw [f.slots] at hk
    exact hentry k entry (h.slots.entries k slot entry hk hentry')
  · intro b b' B B' hB hB' hg ho
    obtain ⟨B₁, hB₁, hg₁, ho₁⟩ := f.back hB
    obtain ⟨B₂, hB₂, hg₂, ho₂⟩ := f.back hB'
    exact h.slots.unique b b' B₁ B₂ hB₁ hB₂ (by rw [← hg₁, hg, hg₂]) (by rw [← ho₁, ho, ho₂])
  · intro b B hB hlive
    obtain ⟨B₁, hB₁, hg₁, ho₁⟩ := f.back hB
    rw [f.current, f.control, hg₁] at hlive
    rw [f.slots, f.control, hg₁, ho₁]
    exact h.slots.bound b B₁ hB₁ hlive
  · intro n hn
    rw [f.snapshots] at hn
    have hok := h.snapshots n hn
    have hq : s.control.quiescing? ≠ some n.generation :=
      fun hq => hok.past (h.quiescing_current hq)
    exact hok.keep hslots (hsame _ hok.inactive hq) f.size.ge (f.active _) (f.current ▸ hok.past)

theorem EmitStep.goto (hin : e.pc.inside = pc.inside) : EmitStep s (s.goto i e pc) i e pc where
  emissions := rfl
  slots := rfl
  current := rfl
  captures := rfl
  control := rfl
  snapshots := rfl
  size := rfl
  active _ := rfl
  gate g G' hG' := ⟨G', hG', by rw [hin]⟩
  buffers := .inl rfl

theorem Collector.active_modifyGeneration (s : Collector) (g : Nat)
    {f : TraceGeneration → TraceGeneration} (hf : ∀ G, (f G).active = G.active) (g' : Nat) :
    (s.modifyGeneration g f).active g' = s.active g' := by
  simp only [active, modifyGeneration, List.getElem?_modify]
  split
  · cases s.generations[g']? <;> simp [hf]
  · cases s.generations[g']? <;> simp

/-- Entering and leaving the gate of generation `g`. -/
theorem EmitStep.gated {g : Nat} {f : TraceGeneration → TraceGeneration}
    (hact : ∀ G, (f G).active = G.active)
    (hcount : ∀ G, s.generations[g]? = some G →
      (f G).inflight + (if e.pc.inside = some g then 1 else 0) =
        G.inflight + (if pc.inside = some g then 1 else 0))
    (hother : ∀ g', g' ≠ g → e.pc.inside ≠ some g' ∧ pc.inside ≠ some g') :
    EmitStep s ((s.modifyGeneration g f).goto i e pc) i e pc where
  emissions := rfl
  slots := rfl
  current := rfl
  captures := rfl
  control := rfl
  snapshots := rfl
  size := by simp [Collector.goto, Collector.modifyGeneration]
  active := s.active_modifyGeneration g hact
  gate g' G' hG' := by
    simp only [Collector.goto, Collector.modifyGeneration, List.getElem?_modify] at hG'
    by_cases hg : g = g'
    · subst hg
      obtain ⟨G, hG, rfl⟩ := Option.map_eq_some_iff.mp hG'
      exact ⟨G, hG, by simpa using hcount G hG⟩
    · obtain ⟨h1, h2⟩ := hother g' (Ne.symm hg)
      obtain ⟨G, hG, rfl⟩ := Option.map_eq_some_iff.mp hG'
      exact ⟨G, hG, by simp [h1, h2, hg]⟩
  buffers := .inl rfl

/-- A step in the window. -/
theorem EmitStep.inBuffer {b : Nat} {B B' : TraceBuffer} {tickets : List (Nat × Nat)}
    (hB : s.buffers[b]? = some B) (hgrown : Grown B B')
    (hwin : e.pc.window = some (B.generation, b)) (hin : e.pc.inside = pc.inside) :
    EmitStep s ({ s.setBuffer b B' with tickets := tickets }.goto i e pc) i e pc where
  emissions := rfl
  slots := rfl
  current := rfl
  captures := rfl
  control := rfl
  snapshots := rfl
  size := rfl
  active _ := rfl
  gate g G' hG' := ⟨G', hG', by rw [hin]⟩
  buffers := .inr ⟨b, B, B', hB, hgrown, hwin, rfl⟩

/-- A step that changes no buffer. -/
theorem Inv.moved (h : Inv s) (hi : s.emissions[i]? = some e) (f : EmitStep s s' i e pc)
    (hbuf : s'.buffers = s.buffers) (htickets : s'.tickets = s.tickets)
    (hquiet : ∀ b, e.pc.dropping b = false ∧ pc.dropping b = false ∧ e.pc.writing b = false)
    (hknown : ∀ g, pc.known = some g → g < s.generations.length)
    (hfound : ∀ g b, pc.found = some (g, b) → ∃ B, s.buffers[b]? = some B ∧
      B.generation = g ∧ B.owner = e.slot)
    (hwrite : ∀ g b t, pc ≠ .write g b t)
    (hwin : ∀ g b, pc.window = some (g, b) → s.active g = true ∨ s.control.quiescing? = some g) :
    Inv s' := by
  refine h.emitStep hi f ⟨?_, ?_, ?_⟩ hwin ?_ ?_
  · intro g hg
    rw [f.size]
    exact hknown g hg
  · intro g b hg
    rw [hbuf]
    exact hfound g b hg
  · exact fun g b t hw => absurd hw (hwrite g b t)
  · intro b B hB
    rw [hbuf] at hB
    obtain ⟨hd, hd', hw⟩ := hquiet b
    exact f.keep hi (h.buffers b B hB) (by simp only [Collector.ticketsOf, htickets])
      (hd.trans hd'.symm) hw
  · rw [htickets, hbuf]
    exact h.tickets

theorem Collector.lt_of_active {g : Nat} (h : s.active g = true) : g < s.generations.length := by
  rw [active] at h
  by_contra hge
  rw [List.getElem?_eq_none (Nat.le_of_not_lt hge)] at h
  cases h

theorem Inv.ticketStep {g b now : Nat} (h : Inv s) (hi : s.emissions[i]? = some e)
    (hpc : e.pc = .ticket g b) (hs : s.emitStep i e now = some s') : Inv s' := by
  have he : e ∈ s.emissions := List.mem_of_getElem? hi
  obtain ⟨B, hB, hgen, howner⟩ := (h.emissions e he).found g b (by rw [hpc]; rfl)
  have hok := h.buffers b B hB
  have hwin := h.window e he g b (by rw [hpc]; rfl)
  simp only [Collector.emitStep, hpc, hB, Option.map_some, Option.some.injEq] at hs
  have hlt := (List.getElem?_eq_some_iff.mp hB).1
  generalize hpc' : (if B.capacity ≤ B.nextTicket then EmitPc.drop g b
    else .write g b B.nextTicket) = pc at hs
  have hinside : pc.inside = some g ∧ pc.found = some (g, b) ∧ pc.window = some (g, b) ∧
      pc.known = some g := by
    rw [← hpc']
    split <;> exact ⟨rfl, rfl, rfl, rfl⟩
  -- one more ticket: committed is the number of tickets, up to the capacity
  have hcommitted : B.committed ≤ min (B.nextTicket + 1) B.capacity := by
    simp only [TraceBuffer.committed]
    omega
  have f : EmitStep s s' i e pc := by
    rw [← hs]
    refine .inBuffer hB ⟨rfl, rfl, hcommitted⟩ ?_ ?_
    · rw [hpc, hgen]
      rfl
    · rw [hpc, hinside.1]
      rfl
  have hbuffers : s'.buffers = s.buffers.set b { B with nextTicket := B.nextTicket + 1 } := by
    rw [← hs]
    rfl
  have htickets : s'.tickets = (g, b) :: s.tickets := by
    rw [← hs]
    rfl
  have hnew : s'.buffers[b]? = some { B with nextTicket := B.nextTicket + 1 } := by
    rw [hbuffers, List.getElem?_set_self hlt]
  have hself : { e with pc := pc } ∈ s'.emissions := by
    rw [f.emissions]
    exact mem_set_self hi _
  refine h.emitStep hi f ⟨?_, ?_, ?_⟩ ?_ ?_ ?_
  · intro g' hk
    rw [f.size]
    obtain rfl := Option.some.inj (hinside.2.2.2.symm.trans hk)
    exact hgen ▸ hok.known
  · intro g' b' hf
    obtain ⟨rfl, rfl⟩ := Prod.mk.inj (Option.some.inj (hinside.2.1.symm.trans hf))
    exact ⟨_, hnew, hgen, howner⟩
  · intro g' b' t hw
    obtain rfl : pc = .write g' b' t := hw
    split at hpc'
    · cases hpc'
    · obtain ⟨rfl, rfl, rfl⟩ := EmitPc.write.inj hpc'
      refine ⟨_, hnew, ?_⟩
      simp only [TraceBuffer.committed]
      omega
  · intro g' b' hw
    obtain ⟨rfl, rfl⟩ := Prod.mk.inj (Option.some.inj (hinside.2.2.1.symm.trans hw))
    exact hwin
  · intro b' B' hB'
    by_cases hb : b = b'
    · subst hb
      obtain rfl := Option.some.inj (hnew.symm.trans hB')
      -- the counts of this buffer: one ticket more, and perhaps one emission about to drop
      have hcount := countP_set (fun e => e.pc.dropping b) hi { e with pc := pc }
      have hkept := hok.losses
      refine
        { size := hok.size, known := f.size.symm ▸ hok.known, owner := f.slots.symm ▸ hok.owner,
          count := ?_, losses := ?_, written := ?_, fresh := ?_ }
      · have := hok.count
        simp only [Collector.ticketsOf, htickets, List.countP_cons, decide_true, if_true] at this ⊢
        omega
      · rw [f.emissions]
        have hd : e.pc.dropping b = false := by rw [hpc]; rfl
        have hd' : pc.dropping b = decide (B.capacity ≤ B.nextTicket) := by
          rw [← hpc']
          split <;> simp [EmitPc.dropping, *]
        simp only [hd, hd', decide_eq_true_eq, Bool.false_eq_true, if_false] at hcount
        simp only [TraceBuffer.committed] at hkept ⊢
        split at hcount <;> omega
      · intro t ht
        by_cases hold : t < B.committed
        · rcases hok.written t hold with ⟨r, hr, hrok⟩ | ⟨x, hx, hxpc⟩
          · exact .inl ⟨r, hr, hrok.sequence, f.slots.symm ▸ hrok.producer, hrok.generation⟩
          · refine .inr ⟨x, ?_, hxpc⟩
            rw [f.emissions]
            refine mem_set_of_ne hi hx ?_
            rintro rfl
            rw [hpc] at hxpc
            cases hxpc
        · refine .inr ⟨_, hself, ?_⟩
          simp only [TraceBuffer.committed] at ht hold
          -- the new cell is the one that this emission will write
          have hcap : ¬ B.capacity ≤ B.nextTicket := by omega
          have hteq : t = B.nextTicket := by omega
          rw [← hpc', if_neg hcap, hteq, hgen]
      · intro t ht
        exact hok.fresh t (Nat.le_trans hcommitted ht)
    · rw [hbuffers, List.getElem?_set_ne hb] at hB'
      -- the other buffers do not see the step
      refine f.keep hi (h.buffers b' B' hB') ?_ ?_ ?_
      · simp only [Collector.ticketsOf, htickets, List.countP_cons, decide_eq_true_eq, hb, if_false,
          Nat.add_zero]
      · rw [hpc, ← hpc']
        split <;> simp [EmitPc.dropping, hb]
      · rw [hpc]
        rfl
  · intro t ht
    rw [htickets] at ht
    rcases List.mem_cons.mp ht with rfl | ht
    · exact ⟨_, hnew, hgen⟩
    · obtain ⟨B₁, hB₁, hg₁⟩ := h.tickets t ht
      obtain ⟨B₂, hB₂, hg₂, -⟩ := f.forward hB₁
      exact ⟨B₂, hB₂, hg₂.trans hg₁⟩

/-- The last access to a buffer: only that buffer is left to be looked at. -/
theorem Inv.lastAccess {g b : Nat} {B B' : TraceBuffer} (h : Inv s)
    (hi : s.emissions[i]? = some e) (hB : s.buffers[b]? = some B)
    (hpc : e.pc = .drop g b ∨ ∃ t, e.pc = .write g b t)
    (hgrown : Grown B B')
    (hok : BufferOk ((s.setBuffer b B').goto i e (.leave g)) b B') :
    Inv ((s.setBuffer b B').goto i e (.leave g)) := by
  have he : e ∈ s.emissions := List.mem_of_getElem? hi
  have hwin : e.pc.window = some (g, b) := by
    rcases hpc with hpc | ⟨t, hpc⟩ <;> rw [hpc] <;> rfl
  have hin : e.pc.inside = some g := EmitPc.window_inside hwin
  obtain ⟨B₀, hB₀, hgen, -⟩ := (h.emissions e he).found g b (EmitPc.window_found hwin)
  obtain rfl := Option.some.inj (hB.symm.trans hB₀)
  have f : EmitStep s ((s.setBuffer b B').goto i e (.leave g)) i e (.leave g) :=
    .inBuffer hB hgrown (by rw [hwin, hgen]) hin
  refine h.emitStep hi f ⟨?_, ?_, ?_⟩ ?_ ?_ ?_
  · intro g' hk
    obtain rfl := Option.some.inj hk
    rw [f.size, ← hgen]
    exact (h.buffers b B hB).known
  · exact fun g' b' hf => by cases hf
  · exact fun g' b' t hw => by cases hw
  · exact fun g' b' hw => by cases hw
  · intro b' B₁ hB₁
    by_cases hb : b = b'
    · subst hb
      have hlt := (List.getElem?_eq_some_iff.mp hB).1
      simp only [Collector.goto, Collector.setBuffer, List.getElem?_set_self hlt] at hB₁
      obtain rfl := Option.some.inj hB₁
      exact hok
    · simp only [Collector.goto, Collector.setBuffer, List.getElem?_set_ne hb] at hB₁
      refine f.keep hi (h.buffers b' B₁ hB₁) rfl ?_ ?_
      · rcases hpc with hpc | ⟨t, hpc⟩ <;> simp [hpc, EmitPc.dropping, hb]
      · rcases hpc with hpc | ⟨t, hpc⟩ <;> simp [hpc, EmitPc.writing, hb]
  · intro t ht
    obtain ⟨B₁, hB₁, hg₁⟩ := h.tickets t ht
    obtain ⟨B₂, hB₂, hg₂, -⟩ := f.forward hB₁
    exact ⟨B₂, hB₂, hg₂.trans hg₁⟩

theorem Inv.dropStep {g b now : Nat} (h : Inv s) (hi : s.emissions[i]? = some e)
    (hpc : e.pc = .drop g b) (hs : s.emitStep i e now = some s') : Inv s' := by
  have he : e ∈ s.emissions := List.mem_of_getElem? hi
  obtain ⟨B, hB, hgen, -⟩ := (h.emissions e he).found g b (by rw [hpc]; rfl)
  have hok := h.buffers b B hB
  simp only [Collector.emitStep, hpc, hB, Option.map_some, Option.some.injEq] at hs
  subst hs
  refine h.lastAccess hi hB (.inl hpc) ⟨rfl, rfl, Nat.le_refl _⟩
    { size := hok.size, known := hok.known, owner := hok.owner, count := hok.count,
      losses := ?_, written := ?_, fresh := hok.fresh }
  · have hcount := countP_set (fun e => e.pc.dropping b) hi { e with pc := .leave g }
    have hlosses := hok.losses
    simp only [hpc, EmitPc.dropping, decide_true, if_true, Bool.false_eq_true, if_false] at hcount
    simp only [Collector.goto, Collector.setBuffer, TraceBuffer.committed] at hlosses ⊢
    simp only [EmitPc.dropping] at hlosses ⊢
    omega
  · intro t ht
    rcases hok.written t ht with ⟨r, hr, hrok⟩ | ⟨x, hx, hxpc⟩
    · exact .inl ⟨r, hr, hrok.sequence, hrok.producer, hrok.generation⟩
    · refine .inr ⟨x, mem_set_of_ne hi hx ?_, hxpc⟩
      rintro rfl
      rw [hpc] at hxpc
      cases hxpc

theorem Inv.writeStep {g b t now : Nat} (h : Inv s) (hi : s.emissions[i]? = some e)
    (hpc : e.pc = .write g b t) (hs : s.emitStep i e now = some s') : Inv s' := by
  have he : e ∈ s.emissions := List.mem_of_getElem? hi
  obtain ⟨B, hB, hgen, howner⟩ := (h.emissions e he).found g b (by rw [hpc]; rfl)
  obtain ⟨B₀, hB₀, hplace⟩ := (h.emissions e he).place g b t hpc
  obtain rfl := Option.some.inj (hB.symm.trans hB₀)
  have hok := h.buffers b B hB
  simp only [Collector.emitStep, hpc, hB, Option.map_some, Option.some.injEq] at hs
  subst hs
  have hlt : t < B.slots.length := by
    have := hok.size
    simp only [TraceBuffer.committed] at hplace
    omega
  refine h.lastAccess hi hB (.inr ⟨t, hpc⟩) ⟨rfl, rfl, Nat.le_refl _⟩
    { size := by simpa using hok.size, known := hok.known, owner := hok.owner, count := hok.count,
      losses := ?_, written := ?_, fresh := ?_ }
  · have hcount := countP_set (fun e => e.pc.dropping b) hi { e with pc := .leave g }
    have hlosses := hok.losses
    simp only [hpc, EmitPc.dropping, Bool.false_eq_true, if_false] at hcount
    simp only [Collector.goto, Collector.setBuffer, TraceBuffer.committed] at hlosses ⊢
    simp only [EmitPc.dropping] at hlosses ⊢
    omega
  · intro k hk
    by_cases hkt : t = k
    · subst hkt
      obtain ⟨slot, hslot⟩ := hok.owner
      refine .inl ⟨_, List.getElem?_set_self hlt, rfl, ⟨slot, hslot, ?_⟩, hgen.symm⟩
      rw [howner] at hslot
      simp [Collector.stamp, hslot]
    · rcases hok.written k hk with ⟨r, hr, hrok⟩ | ⟨x, hx, hxpc⟩
      · refine .inl ⟨r, ?_, hrok.sequence, hrok.producer, hrok.generation⟩
        rw [List.getElem?_set_ne hkt]
        exact hr
      · refine .inr ⟨x, mem_set_of_ne hi hx ?_, hxpc⟩
        rintro rfl
        rw [hpc] at hxpc
        exact hkt (EmitPc.write.inj hxpc).2.2
  · intro k hk hcap
    have hkt : t ≠ k := by
      rintro rfl
      exact absurd hplace (Nat.not_lt_of_le hk)
    rw [List.getElem?_set_ne hkt]
    exact hok.fresh k hk hcap

/-- Every step of an emission. -/
theorem Inv.emission {now : Nat} (h : Inv s) (hi : s.emissions[i]? = some e)
    (hs : s.emitStep i e now = some s') : Inv s' := by
  have he : e ∈ s.emissions := List.mem_of_getElem? hi
  have hok := h.emissions e he
  -- the steps that leave the gate or go back, without a buffer
  have hgoto : ∀ pc, e.pc.inside = pc.inside →
      (∀ b, e.pc.dropping b = false ∧ pc.dropping b = false ∧ e.pc.writing b = false) →
      (∀ g, pc.known = some g → g < s.generations.length) →
      (∀ g b, pc.found = some (g, b) → ∃ B, s.buffers[b]? = some B ∧
        B.generation = g ∧ B.owner = e.slot) →
      (∀ g b t, pc ≠ .write g b t) →
      (∀ g b, pc.window = some (g, b) → s.active g = true ∨ s.control.quiescing? = some g) →
      Inv (s.goto i e pc) := fun pc hin hq hk hf hw hwin =>
    h.moved hi (.goto hin) rfl rfl hq hk hf hw hwin
  cases hpc : e.pc with
  | ticket g b => exact h.ticketStep hi hpc hs
  | drop g b => exact h.dropStep hi hpc hs
  | write g b t => exact h.writeStep hi hpc hs
  | done =>
    simp only [Collector.emitStep, hpc] at hs
    cases hs
  | loadCurrent =>
    simp only [Collector.emitStep, hpc] at hs
    split at hs <;> obtain rfl := Option.some.inj hs <;>
      exact hgoto _ (by rw [hpc]; rfl) (fun b => by rw [hpc]; exact ⟨rfl, rfl, rfl⟩) nofun nofun
        nofun nofun
  | checkActive g =>
    simp only [Collector.emitStep, hpc, Option.some.injEq] at hs
    subst hs
    split
    · rename_i hact
      refine hgoto _ (by rw [hpc]; rfl) (fun b => by rw [hpc]; exact ⟨rfl, rfl, rfl⟩) ?_ nofun
        nofun nofun
      intro g' hk
      obtain rfl := Option.some.inj hk
      exact Collector.lt_of_active hact
    · exact hgoto _ (by rw [hpc]; rfl) (fun b => by rw [hpc]; exact ⟨rfl, rfl, rfl⟩) nofun nofun
        nofun nofun
  | enter g =>
    simp only [Collector.emitStep, hpc, Option.some.injEq] at hs
    subst hs
    have hlt := hok.known g (by rw [hpc]; rfl)
    refine h.moved hi (.gated (fun _ => rfl) ?_ ?_) rfl rfl
      (fun b => by rw [hpc]; exact ⟨rfl, rfl, rfl⟩) ?_ nofun nofun nofun
    · intro G hG
      simp [hpc, EmitPc.inside]
    · intro g' hg
      rw [hpc]
      exact ⟨nofun, fun hin => hg (Option.some.inj hin).symm⟩
    · intro g' hk
      obtain rfl := Option.some.inj hk
      exact hlt
  | leave g =>
    simp only [Collector.emitStep, hpc, Option.some.injEq] at hs
    subst hs
    refine h.moved hi (.gated (fun _ => rfl) ?_ ?_) rfl rfl
      (fun b => by rw [hpc]; exact ⟨rfl, rfl, rfl⟩) nofun nofun nofun nofun
    · intro G hG
      have hpos : 0 < G.inflight := by
        rw [h.gate g G hG]
        exact List.countP_pos_iff.mpr ⟨e, he, by simp [hpc, EmitPc.inside]⟩
      simp only [hpc, EmitPc.inside, if_true, reduceCtorEq, if_false]
      omega
    · intro g' hg
      rw [hpc]
      exact ⟨fun hin => hg (Option.some.inj hin).symm, nofun⟩
  | loadEntry g =>
    have hlt := hok.known g (by rw [hpc]; rfl)
    have hleave : Inv (s.goto i e (.leave g)) := by
      refine hgoto _ (by rw [hpc]; rfl) (fun b => by rw [hpc]; exact ⟨rfl, rfl, rfl⟩) ?_ nofun
        nofun nofun
      intro g' hk
      obtain rfl := Option.some.inj hk
      exact hlt
    simp only [Collector.emitStep, hpc] at hs
    split at hs
    · obtain rfl := Option.some.inj hs
      exact hleave
    · rename_i entry hentry
      split at hs <;> obtain rfl := Option.some.inj hs
      · rename_i hgen
        obtain ⟨slot, hslot, hse⟩ := Option.bind_eq_some_iff.mp hentry
        obtain ⟨B, hB, hg, ho⟩ := h.slots.entries e.slot slot entry hslot hse
        refine hgoto _ (by rw [hpc]; rfl) (fun b => by rw [hpc]; exact ⟨rfl, rfl, rfl⟩) ?_ ?_
          nofun nofun
        · intro g' hk
          obtain rfl := Option.some.inj hk
          exact hlt
        · intro g' b' hf
          obtain ⟨rfl, rfl⟩ := Prod.mk.inj (Option.some.inj hf)
          exact ⟨B, hB, hg.trans hgen, ho⟩
      · exact hleave
  | checkAgain g b =>
    have hlt := hok.known g (by rw [hpc]; rfl)
    simp only [Collector.emitStep, hpc] at hs
    split at hs <;> obtain rfl := Option.some.inj hs
    · rename_i hact
      refine hgoto _ (by rw [hpc]; rfl) (fun b => by rw [hpc]; exact ⟨rfl, rfl, rfl⟩) ?_ ?_
        nofun ?_
      · intro g' hk
        obtain rfl := Option.some.inj hk
        exact hlt
      · intro g' b' hf
        exact hok.found g' b' (by rw [hpc]; exact hf)
      · intro g' b' hw
        obtain ⟨rfl, rfl⟩ := Prod.mk.inj (Option.some.inj hw)
        exact .inl hact.1
    · refine hgoto _ (by rw [hpc]; rfl) (fun b => by rw [hpc]; exact ⟨rfl, rfl, rfl⟩) ?_ nofun
        nofun nofun
      intro g' hk
      obtain rfl := Option.some.inj hk
      exact hlt

/-! ## What an emission does not do -/

/-- A step that begins and ends no capture. -/
structure SameCaptures (s s' : Collector) : Prop where
  current : s'.current = s.current
  captures : s'.captures = s.captures
  control : s'.control = s.control
  snapshots : s'.snapshots = s.snapshots
  withheld : s'.withheld = s.withheld
  size : s'.generations.length = s.generations.length
  active : ∀ g, s'.active g = s.active g

/-- What a step of an emission does: it draws one ticket at most, and writes its event to a
place of a buffer, if it writes at all. -/
structure EmitEffect (s s' : Collector) (i : Nat) (e : Emission) (now : Nat) : Prop where
  captures : SameCaptures s s'
  emissions : ∃ pc, s'.emissions = s.emissions.set i { e with pc := pc } ∧
    s'.tickets.length + (if e.pc.past then 1 else 0) ≤
      s.tickets.length + (if pc.past then 1 else 0)
  producers : s'.nextProducerId = s.nextProducerId ∧ s'.slots = s.slots
  buffers : s'.buffers = s.buffers ∨ ∃ b B B', s.buffers[b]? = some B ∧
    s'.buffers = s.buffers.set b B' ∧
    (B'.slots = B.slots ∨ ∃ g t, B'.slots = B.slots.set t (some ⟨s.stamp e g t now, g⟩))

theorem emitEffect_of_step {now : Nat} (hs : s.emitStep i e now = some s') :
    EmitEffect s s' i e now := by
  have hgoto : e.pc.past = false → ∀ pc, EmitEffect s (s.goto i e pc) i e now := fun hpast pc =>
    ⟨⟨rfl, rfl, rfl, rfl, rfl, rfl, fun _ => rfl⟩,
      ⟨pc, rfl, by rw [hpast]; exact Nat.le_add_right _ _⟩, ⟨rfl, rfl⟩, Or.inl rfl⟩
  cases hpc : e.pc with
  | loadCurrent =>
    simp only [Collector.emitStep, hpc] at hs
    split at hs <;> cases hs <;> exact hgoto (by rw [hpc]; rfl) _
  | loadEntry g =>
    simp only [Collector.emitStep, hpc] at hs
    split at hs
    · cases hs
      exact hgoto (by rw [hpc]; rfl) _
    · split at hs <;> cases hs <;> exact hgoto (by rw [hpc]; rfl) _
  | checkActive g =>
    simp only [Collector.emitStep, hpc] at hs
    cases hs
    exact hgoto (by rw [hpc]; rfl) _
  | checkAgain g b =>
    simp only [Collector.emitStep, hpc] at hs
    split at hs <;> cases hs <;> exact hgoto (by rw [hpc]; rfl) _
  | enter g | leave g =>
    simp only [Collector.emitStep, hpc] at hs
    cases hs
    exact ⟨⟨rfl, rfl, rfl, rfl, rfl, List.length_modify .., s.active_modifyGeneration g fun _ => rfl⟩,
      ⟨_, rfl, by rw [hpc]; exact Nat.le_refl _⟩, ⟨rfl, rfl⟩, Or.inl rfl⟩
  | ticket g b =>
    simp only [Collector.emitStep, hpc] at hs
    obtain ⟨B, hB, rfl⟩ := Option.map_eq_some_iff.mp hs
    refine ⟨⟨rfl, rfl, rfl, rfl, rfl, rfl, fun _ => rfl⟩, ⟨_, rfl, ?_⟩, ⟨rfl, rfl⟩,
      Or.inr ⟨b, B, _, hB, rfl, Or.inl rfl⟩⟩
    rw [hpc]
    split <;> exact Nat.le_refl _
  | drop g b =>
    simp only [Collector.emitStep, hpc] at hs
    obtain ⟨B, hB, rfl⟩ := Option.map_eq_some_iff.mp hs
    exact ⟨⟨rfl, rfl, rfl, rfl, rfl, rfl, fun _ => rfl⟩,
      ⟨_, rfl, by rw [hpc]; exact Nat.le_refl _⟩, ⟨rfl, rfl⟩,
      Or.inr ⟨b, B, _, hB, rfl, Or.inl rfl⟩⟩
  | write g b t =>
    simp only [Collector.emitStep, hpc] at hs
    obtain ⟨B, hB, rfl⟩ := Option.map_eq_some_iff.mp hs
    exact ⟨⟨rfl, rfl, rfl, rfl, rfl, rfl, fun _ => rfl⟩,
      ⟨_, rfl, by rw [hpc]; exact Nat.le_refl _⟩, ⟨rfl, rfl⟩,
      Or.inr ⟨b, B, _, hB, rfl, Or.inr ⟨g, t, rfl⟩⟩⟩
  | done =>
    simp only [Collector.emitStep, hpc] at hs
    cases hs

end

end AstraScheduler.TraceCollector
