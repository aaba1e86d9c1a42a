import AstraScheduler.TraceEmission
import Mathlib.Algebra.BigOperators.Group.List.Basic

/-! # Captures are exact

What `stop_capture` returns, against what the emissions did: `start_capture`, `stop_capture`,
`abort_capture` and `open_slot_locked` keep the invariant as well, and a snapshot of a
generation that is over says what is in its buffers and always will be. -/

namespace AstraScheduler.TraceCollector
open Trace (TraceCategory TraceEvent TraceProducerKind ProducerReport TraceSnapshotData)
open Transition (Machine)

namespace Collector

/-- The emissions that have drawn a ticket in a generation. -/
def ticketsIn (s : Collector) (g : Nat) : Nat := s.tickets.countP fun t => t.1 = g

end Collector

/-- What one part of a snapshot says about its buffer, and that it says it for good. -/
structure PartExact (s : Collector) (g : Nat) (p : Part) (b : TraceBuffer) : Prop where
  generation : b.generation = g
  report : ∃ slot, s.slots[b.owner]? = some slot ∧ p.report = Collector.report slot b
  recorded : p.events.length = min (s.ticketsOf p.buffer) b.capacity
  accounted : p.events.length + p.dropped = s.ticketsOf p.buffer
  sequence : ∀ k < p.events.length, ∃ r, p.events[k]? = some (some r) ∧
    r.event.localSequence = UInt64.ofNat k ∧ r.event.producerId = p.report.producerId ∧
    r.generation = g
  unchanged : b.slots = p.events ++ List.replicate (b.capacity - p.events.length) none ∧
    b.dropped = p.dropped
  settled : ∀ e ∈ s.emissions, e.pc.window ≠ some (g, p.buffer)

/-- **Exact capture.**  A snapshot has one part for each buffer of its generation; the part
holds the events with sequence numbers from 0 on, all of them written and of that generation,
and together with the losses, which are those it reports, they are the emissions that drew a
ticket.  A capture that is not closed is the current one, so `stop` returns such a snapshot, and
an empty one is returned for a generation without events only. -/
structure CaptureExact (s : Collector) : Prop where
  parts : ∀ n ∈ s.snapshots, ∀ p ∈ n.parts,
    ∃ b, s.buffers[p.buffer]? = some b ∧ PartExact s n.generation p b
  distinct : ∀ n ∈ s.snapshots, (n.parts.map (·.buffer)).Nodup
  complete : ∀ n ∈ s.snapshots, ∀ (b : Nat) (B : TraceBuffer), s.buffers[b]? = some B →
    B.generation = n.generation → b ∈ n.parts.map (·.buffer)
  total : ∀ n ∈ s.snapshots, (n.parts.map (·.events.length)).sum + (n.parts.map (·.dropped)).sum =
    s.ticketsIn n.generation
  reported : ∀ n ∈ s.snapshots, ∀ p ∈ n.parts, p.report.droppedEvents.toNat = p.dropped
  current : ∀ capture ∈ s.captures, capture.closed = false →
    capture.generation.isSome ∧ capture.generation = s.current
  withheld : ∀ g ∈ s.withheld, s.ticketsIn g = 0

/-! ## What the functions under the mutex leave alone -/

section
variable {s s' : Collector}

theorem Collector.endCapture_same (s : Collector) (c : Nat) (discard : Bool) :
    (s.endCapture c discard).emissions = s.emissions ∧
    (s.endCapture c discard).buffers = s.buffers ∧
    (s.endCapture c discard).slots = s.slots ∧
    (s.endCapture c discard).nextProducerId = s.nextProducerId ∧
    (s.endCapture c discard).tickets = s.tickets := by
  unfold endCapture
  split
  · exact ⟨rfl, rfl, rfl, rfl, rfl⟩
  split
  · exact ⟨rfl, rfl, rfl, rfl, rfl⟩
  split
  · exact ⟨rfl, rfl, rfl, rfl, rfl⟩
  split
  · exact ⟨rfl, rfl, rfl, rfl, rfl⟩
  · split <;> exact ⟨rfl, rfl, rfl, rfl, rfl⟩

/-- A modification that keeps what is looked at. -/
theorem map_modify_same {α β : Type*} (f : α → α) {g : α → β} (h : ∀ a, g (f a) = g a)
    (l : List α) (i : Nat) : (l.modify i f).map g = l.map g := by
  refine List.ext_getElem? fun j => ?_
  rw [List.getElem?_map, List.getElem?_map, List.getElem?_modify]
  cases l[j]? with
  | none => rfl
  | some a =>
    by_cases hj : i = j
    · simp [hj, h]
    · simp [hj]

/-- The loop of `stop_capture` goes on, or is over. -/
theorem Collector.readStep_control {c g k : Nat} {parts : List Part} {stage : ReadStage}
    (hs : s.readStep c g k parts stage = some s') :
    ∃ control, s' = { s with control := control } ∧
      ((∃ k' parts' stage', control = .reading c g k' parts' stage') ∨
        ∃ parts', control = .clearing c g (some parts')) := by
  cases stage with
  | loadEntry =>
    dsimp only [readStep] at hs
    split at hs
    · cases hs
      exact ⟨_, rfl, .inr ⟨_, rfl⟩⟩
    · split at hs
      · cases hs
        exact ⟨_, rfl, .inl ⟨_, _, _, rfl⟩⟩
      · split at hs <;> cases hs <;> exact ⟨_, rfl, .inl ⟨_, _, _, rfl⟩⟩
  | readTicket b =>
    obtain ⟨B, -, rfl⟩ := Option.map_eq_some_iff.mp hs
    exact ⟨_, rfl, .inl ⟨_, _, _, rfl⟩⟩
  | readDropped b committed =>
    dsimp only [readStep] at hs
    split at hs <;> cases hs
    exact ⟨_, rfl, .inl ⟨_, _, _, rfl⟩⟩
  | copy part committed =>
    dsimp only [readStep] at hs
    split at hs
    · obtain ⟨B, -, rfl⟩ := Option.map_eq_some_iff.mp hs
      exact ⟨_, rfl, .inl ⟨_, _, _, rfl⟩⟩
    · cases hs
      exact ⟨_, rfl, .inl ⟨_, _, _, rfl⟩⟩

/-- The function under the mutex changes the entries of the slots only. -/
theorem Collector.controlStep_same (hs : s.controlStep = some s') :
    s'.emissions = s.emissions ∧ s'.buffers = s.buffers ∧
    s'.slots.map (·.producerId) = s.slots.map (·.producerId) ∧
    s'.nextProducerId = s.nextProducerId ∧ s'.tickets = s.tickets := by
  unfold controlStep at hs
  split at hs
  case h_1 => cases hs
  case h_2 g k entry prepared _ =>
    cases hs
    refine ⟨rfl, rfl, ?_, rfl, rfl⟩
    exact map_modify_same (fun slot : TraceSlot => { slot with entry := some entry })
      (fun _ => rfl) s.slots k
  case h_3 | h_4 =>
    cases hs
    exact ⟨rfl, rfl, rfl, rfl, rfl⟩
  case h_5 =>
    split at hs
    · cases hs
      exact ⟨rfl, rfl, rfl, rfl, rfl⟩
    · split at hs <;> cases hs <;> exact ⟨rfl, rfl, rfl, rfl, rfl⟩
  case h_6 =>
    obtain ⟨control, rfl, -⟩ := readStep_control hs
    exact ⟨rfl, rfl, rfl, rfl, rfl⟩
  case h_7 =>
    cases hs
    exact ⟨rfl, rfl, rfl, rfl, rfl⟩

/-- The failed allocation leaves everything else as it was. -/
theorem Collector.stopFails_eq (hs : s.stopFails = some s') :
    s' = { s with control := .idle } ∧
      ∃ c g k parts stage, s.control = .reading c g k parts stage := by
  unfold stopFails at hs
  split at hs <;> cases hs
  rename_i hallocates
  refine ⟨rfl, ?_⟩
  cases hctl : s.control with
  | reading c g k parts stage => exact ⟨c, g, k, parts, stage, rfl⟩
  | _ => simp [hctl, Control.allocates] at hallocates

end

/-! ## The functions under the mutex -/

section
variable {s s' : Collector}

theorem Inv.lt_of_ticket (h : Inv s) {t : Nat × Nat} (ht : t ∈ s.tickets) :
    t.2 < s.buffers.length := by
  obtain ⟨B, hB, -⟩ := h.tickets t ht
  exact (List.getElem?_eq_some_iff.mp hB).1

/-- Nobody has touched a buffer that does not exist yet. -/
theorem Inv.untouched (h : Inv s) {b : Nat} (hb : s.buffers.length ≤ b) :
    s.ticketsOf b = 0 ∧ s.emissions.countP (fun e => e.pc.dropping b) = 0 := by
  constructor
  · refine List.countP_eq_zero.mpr fun t ht => ?_
    have := h.lt_of_ticket ht
    simp only [decide_eq_true_eq]
    omega
  · refine List.countP_eq_zero.mpr fun e he hd => ?_
    cases hpc : e.pc <;> rw [hpc] at hd <;> simp only [EmitPc.dropping, Bool.false_eq_true] at hd
    rename_i g b'
    obtain rfl : b' = b := by simpa using hd
    obtain ⟨B, hB, -⟩ := (h.emissions e he).found g b' (by rw [hpc]; rfl)
    have := (List.getElem?_eq_some_iff.mp hB).1
    omega

/-- A new buffer of a generation and a slot that exist. -/
theorem Inv.newBuffer (h : Inv s) {b capacity g k : Nat} (hb : s.buffers.length ≤ b)
    (hem : s'.emissions = s.emissions) (htk : s'.tickets = s.tickets)
    (hg : g < s'.generations.length) (hk : ∃ slot, s'.slots[k]? = some slot) :
    BufferOk s' b (.new capacity g k) where
  size := List.length_replicate
  known := hg
  owner := hk
  count := by
    have := (h.untouched hb).1
    rw [Collector.ticketsOf, ← htk] at this
    exact this.symm
  losses := by
    have := (h.untouched hb).2
    rw [← hem] at this
    simp [TraceBuffer.new, TraceBuffer.committed, this]
  written t ht := by simp [TraceBuffer.new, TraceBuffer.committed] at ht
  fresh t _ ht := by
    have ht : t < capacity := ht
    simp [TraceBuffer.new, ht]

/-- **One step under the mutex.**  No emission moves; there may be new buffers `new`, and new
generations. -/
theorem Inv.underMutex (h : Inv s) (new : List TraceBuffer)
    (hem : s'.emissions = s.emissions) (htk : s'.tickets = s.tickets)
    (hslots : SlotsKept s s') (hbuf : s'.buffers = s.buffers ++ new)
    (hnew : ∀ B ∈ new, ∃ capacity g k, B = .new capacity g k ∧ g < s'.generations.length ∧
      ∃ slot, s'.slots[k]? = some slot)
    (hsize : s.generations.length ≤ s'.generations.length)
    (hgate : ∀ (g : Nat) (G' : TraceGeneration), s'.generations[g]? = some G' →
      (∃ G, s.generations[g]? = some G ∧ G'.inflight = G.inflight) ∨
        s.generations.length ≤ g ∧ G'.inflight = 0)
    (hwindow : ∀ e ∈ s.emissions, ∀ g b, e.pc.window = some (g, b) →
      s'.active g = true ∨ s'.control.quiescing? = some g)
    (hactive : ∀ g, s'.active g = true → s'.current = some g ∨ s'.control.storing? = some g)
    (hknown : ∀ g, s'.current = some g → g < s'.generations.length)
    (hcontrol : ControlOk s' s'.control) (hentries : SlotsOk s')
    (hsnap : ∀ n ∈ s'.snapshots, SnapshotOk s' n) : Inv s' where
  gate g G' hG' := by
    rw [hem]
    rcases hgate g G' hG' with ⟨G, hG, heq⟩ | ⟨hg, h0⟩
    · exact heq.trans (h.gate g G hG)
    · rw [h0, eq_comm, List.countP_eq_zero]
      intro e he hin
      have hin : e.pc.inside = some g := by simpa using hin
      have hlt := (h.emissions e he).known g (EmitPc.inside_known hin)
      omega
  window := hem ▸ hwindow
  emissions := by
    rw [hem]
    refine fun e he => (h.emissions e he).keep hsize fun b B hB => ⟨B, ?_, rfl, rfl, Nat.le_refl _⟩
    rw [hbuf, List.getElem?_append_left (List.getElem?_eq_some_iff.mp hB).1]
    exact hB
  active := hactive
  known := hknown
  control := hcontrol
  buffers b B hB := by
    rw [hbuf] at hB
    by_cases hb : b < s.buffers.length
    · rw [List.getElem?_append_left hb] at hB
      exact (h.buffers b B hB).keep hslots hsize (by rw [Collector.ticketsOf, htk]; rfl)
        (by rw [hem]) fun e he _ => by rw [hem]; exact he
    · rw [List.getElem?_append_right (Nat.le_of_not_lt hb)] at hB
      obtain ⟨capacity, g, k, rfl, hg, hk⟩ := hnew B (List.mem_of_getElem? hB)
      exact h.newBuffer (Nat.le_of_not_lt hb) hem htk hg hk
  tickets t ht := by
    rw [htk] at ht
    obtain ⟨B, hB, hg⟩ := h.tickets t ht
    refine ⟨B, ?_, hg⟩
    rw [hbuf, List.getElem?_append_left (h.lt_of_ticket ht)]
    exact hB
  slots := hentries
  snapshots := hsnap

theorem Control.prepared_of_storing? {c : Control} (h : c.storing? = none) : c.prepared = [] := by
  cases c with
  | storing g prepared => cases h
  | _ => rfl

/-- Only the place of the process under the mutex changes. -/
theorem Inv.setControl (h : Inv s) {c : Control} (hst : s.control.storing? = none)
    (hst' : c.storing? = none)
    (hq : ∀ g, s.control.quiescing? = some g → c.quiescing? = some g ∨
      ∀ e ∈ s.emissions, ∀ b, e.pc.window ≠ some (g, b))
    (hc : ControlOk { s with control := c } c) : Inv { s with control := c } := by
  refine h.underMutex [] rfl rfl (.of_eq rfl) (by simp) nofun (Nat.le_refl _)
    (fun g G' hG' => .inl ⟨G', hG', rfl⟩) ?_ ?_ h.known hc ?_ ?_
  · intro e he g b hw
    rcases h.window e he g b hw with hact | hquiet
    · exact .inl hact
    · rcases hq g hquiet with hq | hno
      · exact .inr hq
      · exact absurd hw (hno e he b)
  · intro g hg
    rcases h.active g hg with hcur | hstoring
    · exact .inl hcur
    · rw [hst] at hstoring
      cases hstoring
  · refine ⟨h.slots.entries, h.slots.unique, fun b B hB hlive => ?_⟩
    simp only [hst', reduceCtorEq, false_or, true_and] at hlive
    have := h.slots.bound b B hB (.inr ⟨hst, hlive⟩)
    rw [Control.prepared_of_storing? hst] at this
    simp only [List.not_mem_nil, or_false] at this
    exact .inl this
  · intro n hn
    have hok := h.snapshots n hn
    exact hok.keep (.of_eq rfl) (.of_eq rfl) (Nat.le_refl _) rfl hok.past

/-- The step that closes a capture, and with it, where it is the current one, its generation. -/
theorem Inv.closeCapture (h : Inv s) (hidle : s.control = .idle) {withheld : List Nat} (c : Nat) :
    Inv { s.closeCapture c with withheld := withheld } := by
  refine h.underMutex [] rfl rfl (.of_eq rfl) (by simp [Collector.closeCapture]) nofun
    (Nat.le_refl _) (fun g G' hG' => .inl ⟨G', hG', rfl⟩) h.window h.active h.known ?_
    ⟨h.slots.entries, h.slots.unique, h.slots.bound⟩
    fun n hn => (h.snapshots n hn).keep (.of_eq rfl) (.of_eq rfl) (Nat.le_refl _) rfl
      (h.snapshots n hn).past
  rw [show ({ s.closeCapture c with withheld := withheld } : Collector).control = .idle from hidle]
  trivial

theorem Inv.endCapture {c : Nat} {discard : Bool} (h : Inv s) (hidle : s.control = .idle) :
    Inv (s.endCapture c discard) := by
  unfold Collector.endCapture
  split
  · exact h
  rename_i capture _
  split
  · exact h
  split
  · exact h.closeCapture hidle c
  rename_i g hg
  split
  · rename_i hcur
    refine h.setControl (c := .deactivating c g discard) (by rw [hidle]; rfl) rfl
      (by rw [hidle]; nofun) ⟨hcur, ?_⟩
    cases capture
    simp_all
  · split
    · exact h.closeCapture hidle c
    · exact h.closeCapture hidle c

theorem Inv.quiescingStep {c g : Nat} {discard : Bool} (h : Inv s)
    (hctl : s.control = .quiescing c g discard) (hs : s.controlStep = some s') : Inv s' := by
  have hc := h.control
  rw [hctl] at hc
  simp only [Collector.controlStep, hctl] at hs
  split at hs
  · obtain rfl := Option.some.inj hs
    exact h
  · rename_i hzero
    have hnone : ∀ e ∈ s.emissions, ∀ b, e.pc.window ≠ some (g, b) := by
      intro e he b hw
      have hlt := h.known g hc.1.1
      have hgate := h.gate g _ (List.getElem?_eq_getElem hlt)
      have hpos : 0 < s.emissions.countP fun e => e.pc.inside = some g :=
        List.countP_pos_iff.mpr ⟨e, he, by simp [EmitPc.window_inside hw]⟩
      simp only [Collector.inflight, List.getElem?_eq_getElem hlt, Option.elim_some,
        Decidable.not_not] at hzero
      omega
    have hq : ∀ g', s.control.quiescing? = some g' → ∀ e ∈ s.emissions, ∀ b,
        e.pc.window ≠ some (g', b) := by
      intro g' hg'
      rw [hctl] at hg'
      obtain rfl := Option.some.inj hg'
      exact hnone
    split at hs <;> obtain rfl := Option.some.inj hs
    · exact h.setControl (by rw [hctl]; rfl) rfl (fun g' hg' => .inr (hq g' hg'))
        ⟨hc.1, hc.2, nofun⟩
    · exact h.setControl (by rw [hctl]; rfl) rfl (fun g' hg' => .inr (hq g' hg'))
        ⟨hc.1, hc.2, ⟨nofun, List.nodup_nil, fun b B _ _ hk => absurd hk (Nat.not_lt_zero _)⟩,
          trivial⟩

/-- The buffer of generation `g` in slot `k`, if there is one, is the one that its entry
names. -/
theorem Inv.entry_of_owner {g k : Nat} (h : Inv s) (hcur : s.current = some g)
    (hst : s.control.storing? = none) {b : Nat} {B : TraceBuffer} (hB : s.buffers[b]? = some B)
    (hg : B.generation = g) (hk : B.owner = k) :
    ∃ slot, s.slots[k]? = some slot ∧ slot.entry = some ⟨g, b⟩ := by
  have := h.slots.bound b B hB (.inr ⟨hst, hg.symm ▸ hcur⟩)
  rw [Control.prepared_of_storing? hst] at this
  simp only [List.not_mem_nil, or_false] at this
  rwa [hg, hk] at this

/-- One more slot has been looked at and has nothing of the generation. -/
theorem Taken.skip {g k : Nat} {parts : List Part} (ht : Taken s g k parts)
    (hnone : ∀ (b : Nat) (B : TraceBuffer), s.buffers[b]? = some B → B.generation = g →
      B.owner ≠ k) : Taken s g (k + 1) parts where
  each p hp := by
    obtain ⟨B, hB, hg, hk, hok⟩ := ht.each p hp
    exact ⟨B, hB, hg, Nat.lt_succ_of_lt hk, hok⟩
  distinct := ht.distinct
  complete b B hB hg hk := by
    have := hnone b B hB hg
    exact ht.complete b B hB hg (by omega)

/-- One more part. -/
theorem Taken.snoc {g k : Nat} {parts : List Part} {p : Part} {B : TraceBuffer}
    (ht : Taken s g k parts) (hB : s.buffers[p.buffer]? = some B) (hg : B.generation = g)
    (hk : B.owner = k) (hok : PartOk s p B)
    (honly : ∀ (b : Nat) (B' : TraceBuffer), s.buffers[b]? = some B' → B'.generation = g →
      B'.owner = k → b = p.buffer) : Taken s g (k + 1) (parts ++ [p]) where
  each q hq := by
    rcases List.mem_append.mp hq with hq | hq
    · obtain ⟨B', hB', hg', hk', hok'⟩ := ht.each q hq
      exact ⟨B', hB', hg', Nat.lt_succ_of_lt hk', hok'⟩
    · obtain rfl := List.mem_singleton.mp hq
      exact ⟨B, hB, hg, hk ▸ Nat.lt_succ_self _, hok⟩
  distinct := by
    rw [List.map_append, List.nodup_append]
    refine ⟨ht.distinct, List.nodup_singleton _, ?_⟩
    intro b hb b' hb' heq
    obtain ⟨q, hq, rfl⟩ := List.mem_map.mp hb
    obtain ⟨B', hB', -, hk', -⟩ := ht.each q hq
    rw [heq, List.mem_singleton.mp hb', hB] at hB'
    obtain rfl := Option.some.inj hB'
    omega
  complete b B' hB' hg' hk' := by
    rw [List.map_append, List.mem_append]
    by_cases hlast : B'.owner = k
    · exact .inr (by simp [honly b B' hB' hg' hlast])
    · exact .inl (ht.complete b B' hB' hg' (by omega))

theorem Inv.readingStep {c g k : Nat} {parts : List Part} {stage : ReadStage} (h : Inv s)
    (hctl : s.control = .reading c g k parts stage)
    (hs : s.readStep c g k parts stage = some s') : Inv s' := by
  have hc := h.control
  rw [hctl] at hc
  obtain ⟨hopen, hinactive, htaken, hstage⟩ := hc
  have hst : s.control.storing? = none := by rw [hctl]; rfl
  have howner := fun b B hB hg hk =>
    h.entry_of_owner (g := g) (k := k) hopen.1 hst (b := b) (B := B) hB hg hk
  have hset : ∀ c', c'.storing? = none → ControlOk { s with control := c' } c' →
      Inv { s with control := c' } := fun c' hst' hc' =>
    h.setControl hst hst' (by rw [hctl]; nofun) hc'
  have hkeep : ∀ {c' : Control} {j : Nat} {ps : List Part}, Taken s g j ps →
      Taken { s with control := c' } g j ps := fun ht => ht.keep (.of_eq rfl) (.of_eq rfl)
  -- the next slot, with what has been taken so far
  have hnext : ∀ ps, Taken s g (k + 1) ps →
      Inv { s with control := .reading c g (k + 1) ps .loadEntry } := fun ps ht =>
    hset _ rfl ⟨hopen, hinactive, hkeep ht, trivial⟩
  cases stage with
  | loadEntry =>
    simp only [Collector.readStep] at hs
    split at hs
    · rename_i hnone
      obtain rfl := Option.some.inj hs
      refine hset _ rfl ⟨hopen, hinactive, ?_⟩
      intro taken htk
      obtain rfl := Option.some.inj htk
      have hlen : s.slots.length ≤ k := List.getElem?_eq_none_iff.mp hnone
      refine hkeep ⟨fun p hp => ?_, htaken.distinct, fun b B hB hg hk => ?_⟩
      · obtain ⟨B, hB, hg, -, hok⟩ := htaken.each p hp
        obtain ⟨slot, hslot⟩ := (h.buffers _ B hB).owner
        exact ⟨B, hB, hg, (List.getElem?_eq_some_iff.mp hslot).1, hok⟩
      · exact htaken.complete b B hB hg (Nat.lt_of_lt_of_le hk hlen)
    · rename_i slot hslot
      have hskip : slot.entry.all (fun entry => entry.generation ≠ g) →
          Inv { s with control := .reading c g (k + 1) parts .loadEntry } := by
        intro hall
        refine hnext _ (htaken.skip fun b B hB hg hk => ?_)
        obtain ⟨slot', hslot', hentry⟩ := howner b B hB hg hk
        obtain rfl := Option.some.inj (hslot.symm.trans hslot')
        simp [hentry] at hall
      split at hs
      · rename_i hnone
        obtain rfl := Option.some.inj hs
        exact hskip (by simp [hnone])
      · rename_i entry hentry
        split at hs <;> obtain rfl := Option.some.inj hs
        · rename_i hgen
          obtain ⟨B, hB, hg, hk⟩ := h.slots.entries k slot entry hslot hentry
          exact hset _ rfl ⟨hopen, hinactive, hkeep htaken, B, hB, hg.trans hgen, hk⟩
        · rename_i hgen
          exact hskip (by simp [hentry, hgen])
  | readTicket b =>
    obtain ⟨B, hB, hg, hk⟩ := hstage
    simp only [Collector.readStep, hB, Option.map_some, Option.some.injEq] at hs
    subst hs
    exact hset _ rfl ⟨hopen, hinactive, hkeep htaken, B, hB, hg, hk, rfl⟩
  | readDropped b committed =>
    obtain ⟨B, hB, hg, hk, hcommitted⟩ := hstage
    obtain ⟨slot, hslot, -⟩ := howner b B hB hg hk
    simp only [Collector.readStep, hB, hslot, Option.some.injEq] at hs
    subst hs
    exact hset _ rfl ⟨hopen, hinactive, hkeep htaken, B, hB, hg, hk, hcommitted,
      ⟨slot, hk.symm ▸ hslot, rfl⟩, rfl, Nat.zero_le _, rfl⟩
  | copy p committed =>
    obtain ⟨B, hB, hg, hk, hcommitted, hreport, hdropped, hle, hevents⟩ := hstage
    have hsize := (h.buffers _ B hB).size
    simp only [Collector.readStep, hB, Option.map_some] at hs
    split at hs <;> obtain rfl := Option.some.inj hs
    · rename_i hlt
      refine hset _ rfl ⟨hopen, hinactive, hkeep htaken, B, hB, hg, hk, hcommitted, hreport,
        hdropped, ?_, ?_⟩
      · rw [List.length_append, List.length_singleton]
        exact hlt
      · have hlen : p.events.length < B.slots.length := by
          rw [hcommitted] at hlt
          simp only [TraceBuffer.committed] at hlt
          omega
        simp only [List.length_append, List.length_singleton]
        rw [List.take_succ_eq_append_getElem hlen, ← hevents, List.getElem?_eq_getElem hlen]
        rfl
    · rename_i hge
      refine hnext _ (htaken.snoc hB hg hk ⟨hreport, hdropped, ?_⟩ ?_)
      · have : p.events.length = B.committed := by omega
        rw [← this]
        exact hevents
      · intro b B' hB' hg' hk'
        exact h.slots.unique b p.buffer B' B hB' hB (hg'.trans hg.symm) (hk'.trans hk.symm)

theorem Inv.clearingStep {c g : Nat} {parts : Option (List Part)} (h : Inv s)
    (hctl : s.control = .clearing c g parts) (hs : s.controlStep = some s') : Inv s' := by
  have hc := h.control
  rw [hctl] at hc
  obtain ⟨hopen, hinactive, htaken⟩ := hc
  simp only [Collector.controlStep, hctl, Option.some.injEq] at hs
  subst hs
  have hno : ∀ g', s.active g' ≠ true := by
    intro g' hg'
    rcases h.active g' hg' with hcur | hst
    · rw [hopen.1] at hcur
      obtain rfl := Option.some.inj hcur
      rw [hinactive] at hg'
      cases hg'
    · rw [hctl] at hst
      cases hst
  refine h.underMutex [] rfl rfl (.of_eq rfl)
    (by simp [Collector.closeCapture]) nofun (Nat.le_refl _)
    (fun g G' hG' => .inl ⟨G', hG', rfl⟩) ?_ (fun g' hg' => absurd hg' (hno g')) nofun trivial
    ?_ ?_
  · intro e he g' b hw
    rcases h.window e he g' b hw with hact | hq
    · exact .inl hact
    · rw [hctl] at hq
      cases hq
  · exact ⟨h.slots.entries, h.slots.unique, fun b B _ hlive => by simp [Control.storing?] at hlive⟩
  · intro n hn
    rcases List.mem_append.mp hn with hn | hn
    · have hok := h.snapshots n hn
      exact hok.keep (.of_eq rfl) (.of_eq rfl) (Nat.le_refl _) rfl nofun
    · obtain ⟨taken, htk, rfl⟩ := List.mem_map.mp hn
      have ht := htaken taken (Option.mem_toList.mp htk)
      refine ⟨h.known g hopen.1, hinactive, nofun, s.slots.length,
        ht.keep (.of_eq rfl) (.of_eq rfl), ?_⟩
      intro b B hB _
      obtain ⟨slot, hslot⟩ := (h.buffers b B hB).owner
      exact (List.getElem?_eq_some_iff.mp hslot).1

theorem Inv.deactivatingStep {c g : Nat} {discard : Bool} (h : Inv s)
    (hctl : s.control = .deactivating c g discard) (hs : s.controlStep = some s') : Inv s' := by
  have hc := h.control
  rw [hctl] at hc
  simp only [Collector.controlStep, hctl, Option.some.injEq] at hs
  have hactive : ∀ g', s'.active g' = (s.active g' && g' != g) := by
    intro g'
    rw [← hs]
    simp only [Collector.active, Collector.modifyGeneration, List.getElem?_modify]
    by_cases hg : g = g'
    · subst hg
      cases s.generations[g]? <;> simp
    · cases s.generations[g']? <;> simp [hg, Ne.symm hg]
  have hctl' : s'.control = .quiescing c g discard := by rw [← hs]
  have hkept : s'.slots = s.slots ∧ s'.buffers = s.buffers ∧ s'.current = s.current ∧
      s'.captures = s.captures ∧ s'.snapshots = s.snapshots := by
    rw [← hs]
    exact ⟨rfl, rfl, rfl, rfl, rfl⟩
  obtain ⟨hsl, hbf, hcur, hcap, hsn⟩ := hkept
  have hsize : s'.generations.length = s.generations.length := by
    rw [← hs]
    simp [Collector.modifyGeneration]
  refine h.underMutex [] (by rw [← hs]; rfl) (by rw [← hs]; rfl) (.of_eq hsl)
    (by simp [hbf]) (fun B hB => by cases hB) hsize.ge ?_ ?_ ?_ ?_ ?_ ?_ ?_
  · intro g' G' hG'
    rw [← hs] at hG'
    simp only [Collector.modifyGeneration, List.getElem?_modify] at hG'
    obtain ⟨G, hG, rfl⟩ := Option.map_eq_some_iff.mp hG'
    refine .inl ⟨G, hG, ?_⟩
    split <;> rfl
  · intro e he g' b hw
    rcases h.window e he g' b hw with hact | hq
    · by_cases hg : g' = g
      · exact .inr (by rw [hctl', hg]; rfl)
      · exact .inl (by rw [hactive, hact]; simp [hg])
    · rw [hctl] at hq
      cases hq
  · intro g' hg'
    rw [hactive] at hg'
    rcases h.active g' (by simp_all) with hcur' | hst
    · exact .inl (hcur.trans hcur')
    · rw [hctl] at hst
      cases hst
  · rw [hcur, hsize]
    exact h.known
  · rw [hctl']
    exact ⟨⟨hcur.trans hc.1, hcap ▸ hc.2⟩, by rw [hactive]; simp⟩
  · refine ⟨?_, ?_, fun b B hB hlive => ?_⟩
    · intro k slot entry hk hentry
      obtain ⟨B, hB, hrest⟩ := h.slots.entries k slot entry (hsl ▸ hk) hentry
      exact ⟨B, hbf.symm ▸ hB, hrest⟩
    · rw [hbf]
      exact h.slots.unique
    · rw [hctl', hcur] at hlive
      simp only [Control.storing?, reduceCtorEq, false_or, true_and] at hlive
      rw [hbf] at hB
      exact .inl (hsl ▸ h.entry_of_owner hlive (by rw [hctl]; rfl) hB rfl rfl)
  · intro n hn
    rw [hsn] at hn
    have hok := h.snapshots n hn
    exact hok.keep (.of_eq hsl) (.of_eq hbf) hsize.ge (by rw [hactive, hok.inactive]; rfl)
      (hcur ▸ hok.past)

theorem Inv.storingStep {g : Nat} {prepared : List (Nat × TraceBufferEntry)} (h : Inv s)
    (hctl : s.control = .storing g prepared) (hs : s.controlStep = some s') : Inv s' := by
  have hc := h.control
  rw [hctl] at hc
  obtain ⟨hidle, hactive, hprepared⟩ := hc
  -- nobody reads while a start stores its entries, so every window is an active one
  have hwindow : ∀ e ∈ s.emissions, ∀ g' b, e.pc.window = some (g', b) → s.active g' = true := by
    intro e he g' b hw
    rcases h.window e he g' b hw with hact | hq
    · exact hact
    · rw [hctl] at hq
      cases hq
  -- `recording_locked` was false, so only the generation being stored is active
  have honly : ∀ g', s.active g' = true → g' = g := by
    intro g' hg'
    rcases h.active g' hg' with hc | hst
    · rw [Collector.recordingLocked, hc, Option.elim_some, hg'] at hidle
      cases hidle
    · rw [hctl] at hst
      exact (Option.some.inj hst).symm
  -- a generation with a snapshot is inactive, so this one has none
  have hsnap : ∀ n ∈ s.snapshots, n.generation ≠ g := by
    rintro n hn rfl
    rw [(h.snapshots n hn).inactive] at hactive
    cases hactive
  cases prepared with
  | nil =>
    simp only [Collector.controlStep, hctl, Option.some.injEq] at hs
    subst hs
    -- all entries are stored: the generation becomes the current one
    refine h.underMutex [] rfl rfl (.of_eq rfl) (by simp)
      (fun _ hmem => absurd hmem List.not_mem_nil) (Nat.le_refl _)
      (fun g G' hG' => .inl ⟨G', hG', rfl⟩) (fun e he g' b hw => .inl (hwindow e he g' b hw)) ?_
      ?_ trivial ?_ ?_
    · intro g' hg'
      rw [honly g' hg']
      exact .inl rfl
    · intro g' hg'
      obtain rfl := Option.some.inj hg'
      exact Collector.lt_of_active hactive
    · refine ⟨h.slots.entries, h.slots.unique, fun b B hB hlive => ?_⟩
      have := h.slots.bound b B hB (.inl (by simpa [hctl, Control.storing?] using hlive))
      rw [hctl] at this
      simpa [Control.prepared] using this
    · intro n hn
      refine (h.snapshots n hn).keep (.of_eq rfl) (.of_eq rfl) (Nat.le_refl _) rfl ?_
      exact fun heq => hsnap n hn (Option.some.inj heq).symm
  | cons q prepared =>
    obtain ⟨k, entry⟩ := q
    simp only [Collector.controlStep, hctl, Option.some.injEq] at hs
    subst hs
    -- one slot gets its entry and keeps its producer
    have hslots : SlotsKept s { s with
        slots := s.slots.modify k fun slot => { slot with entry := some entry }
        control := .storing g prepared } := by
      intro j slot hj
      simp only [List.getElem?_modify, hj, Option.map_eq_map, Option.map_some]
      refine ⟨_, rfl, ?_, ?_⟩ <;> split <;> rfl
    obtain ⟨hgen, B₀, hB₀, hg₀, hk₀⟩ := hprepared (k, entry) List.mem_cons_self
    refine h.underMutex [] rfl rfl hslots (by simp)
      (fun _ hmem => absurd hmem List.not_mem_nil) (Nat.le_refl _)
      (fun g G' hG' => .inl ⟨G', hG', rfl⟩) (fun e he g' b hw => .inl (hwindow e he g' b hw)) ?_
      h.known ?_ ?_ ?_
    · intro g' hg'
      rw [honly g' hg']
      exact .inr rfl
    · refine ⟨hidle, hactive, fun q hq => ?_⟩
      exact hprepared q (List.mem_cons_of_mem _ hq)
    · refine ⟨?_, h.slots.unique, ?_⟩
      · intro j slot entry' hj hentry
        simp only [List.getElem?_modify] at hj
        obtain ⟨old, hold, rfl⟩ := Option.map_eq_some_iff.mp hj
        by_cases hkj : k = j
        · subst hkj
          simp only [if_true, Option.some.injEq] at hentry
          subst hentry
          exact ⟨B₀, hB₀, hg₀, hk₀⟩
        · simp only [hkj, if_false] at hentry
          exact h.slots.entries j old entry' hold hentry
      · intro b B hB hlive
        simp only [Control.storing?, reduceCtorEq, false_and, or_false, Option.some.injEq] at hlive
        have hbound := h.slots.bound b B hB (.inl (by rw [hctl, hlive]; rfl))
        obtain ⟨slot, hslot⟩ := (h.buffers b B hB).owner
        -- a buffer of this generation is bound to its slot now or still prepared
        have hentry : ∀ entry', B.owner = k → entry = entry' →
            ∃ slot, (s.slots.modify k fun slot => { slot with entry := some entry })[B.owner]? =
              some slot ∧ slot.entry = some entry' := by
          rintro entry' rfl rfl
          exact ⟨_, by rw [List.getElem?_modify, hslot]; rfl, by simp⟩
        by_cases hk : B.owner = k
        · refine .inl (hentry _ hk ?_)
          have hb : b = entry.buffer := h.slots.unique b entry.buffer B B₀ hB hB₀
            (by rw [hg₀, ← hlive]; exact hgen.symm) (hk.trans hk₀.symm)
          rw [hb, ← hlive]
          exact congrArg (TraceBufferEntry.mk · entry.buffer) hgen
        · rcases hbound with ⟨slot', hslot', he'⟩ | hmem
          · refine .inl ⟨slot', ?_, he'⟩
            rw [List.getElem?_modify, hslot']
            simp [Ne.symm hk]
          · rw [hctl] at hmem
            rcases List.mem_cons.mp hmem with heq | hmem
            · exact absurd (Prod.mk.inj heq).1 hk
            · exact .inr hmem
    · intro n hn
      exact (h.snapshots n hn).keep hslots (.of_eq rfl) (Nat.le_refl _) rfl (h.snapshots n hn).past

theorem Inv.controlStep (h : Inv s) (hs : s.controlStep = some s') : Inv s' := by
  cases hctl : s.control with
  | idle =>
    simp only [Collector.controlStep, hctl] at hs
    cases hs
  | storing g prepared => exact h.storingStep hctl hs
  | deactivating c g discard => exact h.deactivatingStep hctl hs
  | quiescing c g discard => exact h.quiescingStep hctl hs
  | reading c g k parts stage =>
    refine h.readingStep hctl ?_
    simpa only [Collector.controlStep, hctl] using hs
  | clearing c g parts => exact h.clearingStep hctl hs

theorem Collector.active_append (g : Nat) (G : TraceGeneration) (h : g < s.generations.length) :
    ({ s with generations := s.generations ++ [G] } : Collector).active g = s.active g := by
  simp only [active, List.getElem?_append_left h]

theorem Inv.prepare {options : TraceOptions} {now : Nat} (h : Inv s) (hidle : s.control = .idle)
    (hstart : s.recordingLocked = false) : Inv (s.prepare options now) := by
  have hnone : ∀ g, s.active g ≠ true := by
    intro g hg
    rcases h.active g hg with hc | hst
    · rw [Collector.recordingLocked, hc, Option.elim_some, hg] at hstart
      cases hstart
    · rw [hidle] at hst
      cases hst
  have hslots : SlotsKept s (s.prepare options now) := .of_eq rfl
  have hmem : ∀ {j : Nat} {B : TraceBuffer}, (s.slots.mapIdx fun k slot =>
      TraceBuffer.new (capacityForKind options slot.kind) s.generations.length k)[j]? = some B →
      ∃ slot, s.slots[j]? = some slot ∧
        B = .new (capacityForKind options slot.kind) s.generations.length j := by
    intro j B hB
    rw [List.getElem?_mapIdx] at hB
    obtain ⟨slot, hslot, rfl⟩ := Option.map_eq_some_iff.mp hB
    exact ⟨slot, hslot, rfl⟩
  -- a buffer after the step is an old one, or the new one of its slot
  have hcases : ∀ {b : Nat} {B : TraceBuffer}, (s.prepare options now).buffers[b]? = some B →
      s.buffers[b]? = some B ∧ B.generation < s.generations.length ∨
      B.generation = s.generations.length ∧ b = s.buffers.length + B.owner ∧
        ∃ slot, s.slots[B.owner]? = some slot := by
    intro b B hB
    simp only [Collector.prepare, List.getElem?_append] at hB
    split at hB
    · exact .inl ⟨hB, (h.buffers b B hB).known⟩
    · rename_i hb
      obtain ⟨slot, hslot, rfl⟩ := hmem hB
      refine .inr ⟨rfl, ?_, ⟨slot, hslot⟩⟩
      simp only [TraceBuffer.new]
      omega
  have hleft : ∀ {b : Nat} {B : TraceBuffer}, s.buffers[b]? = some B →
      (s.prepare options now).buffers[b]? = some B := by
    intro b B hB
    simp only [Collector.prepare]
    rw [List.getElem?_append_left (List.getElem?_eq_some_iff.mp hB).1]
    exact hB
  refine h.underMutex (s.slots.mapIdx fun k slot =>
      TraceBuffer.new (capacityForKind options slot.kind) s.generations.length k)
    rfl rfl hslots rfl ?_ (by simp [Collector.prepare]) ?_ ?_ ?_ ?_ ?_
    ⟨?_, ?_, ?_⟩ ?_
  · intro B hB
    obtain ⟨j, hj⟩ := List.mem_iff_getElem?.mp hB
    obtain ⟨slot, hslot, rfl⟩ := hmem hj
    exact ⟨_, _, _, rfl, by simp [Collector.prepare], slot, hslot⟩
  · intro g G' hG'
    simp only [Collector.prepare, List.getElem?_append] at hG'
    split at hG'
    · exact .inl ⟨G', hG', rfl⟩
    · rename_i hg
      obtain rfl := List.mem_singleton.mp (List.mem_of_getElem? hG')
      exact .inr ⟨Nat.le_of_not_lt hg, rfl⟩
  · intro e he g b hw
    rcases h.window e he g b hw with hact | hq
    · exact absurd hact (hnone g)
    · rw [hidle] at hq
      cases hq
  · intro g hg
    by_cases hlt : g < s.generations.length
    · have : s.active g = true := (Collector.active_append g _ hlt).symm.trans hg
      exact absurd this (hnone g)
    · have := Collector.lt_of_active hg
      simp only [Collector.prepare, List.length_append, List.length_singleton] at this
      refine .inr (congrArg some ?_)
      omega
  · intro g hg
    have := h.known g hg
    simp only [Collector.prepare, List.length_append, List.length_singleton]
    omega
  · refine ⟨?_, ?_, ?_⟩
    · rw [Collector.recordingLocked]
      cases hcur : (s.prepare options now).current with
      | none => rfl
      | some g =>
        have hlt := h.known g hcur
        exact (Collector.active_append g _ hlt).trans (by simpa using hnone g)
    · simp [Collector.active, Collector.prepare]
    · intro q hq
      obtain ⟨j, hj⟩ := List.mem_iff_getElem?.mp hq
      rw [List.getElem?_mapIdx] at hj
      obtain ⟨slot, hslot, rfl⟩ := Option.map_eq_some_iff.mp hj
      refine ⟨rfl, .new (capacityForKind options slot.kind) s.generations.length j, ?_, rfl, rfl⟩
      simp [Collector.prepare, List.getElem?_append_right, hslot]
  · intro k slot entry hk hentry
    obtain ⟨B, hB, hrest⟩ := h.slots.entries k slot entry hk hentry
    exact ⟨B, hleft hB, hrest⟩
  · intro b b' B B' hB hB' hg ho
    rcases hcases hB with ⟨hB, hlt⟩ | ⟨hgen, rfl, -⟩ <;>
      rcases hcases hB' with ⟨hB', hlt'⟩ | ⟨hgen', rfl, -⟩
    · exact h.slots.unique b b' B B' hB hB' hg ho
    · omega
    · omega
    · rw [ho]
  · intro b B hB hlive
    have hgen : B.generation = s.generations.length := by
      rcases hlive with hl | ⟨hl, -⟩
      · exact (Option.some.inj hl).symm
      · cases hl
    rcases hcases hB with ⟨-, hlt⟩ | ⟨-, rfl, slot, hslot⟩
    · omega
    · refine .inr (List.mem_iff_getElem?.mpr ⟨B.owner, ?_⟩)
      simp [Collector.prepare, Control.prepared, hslot, hgen]
  · intro n hn
    have hok := h.snapshots n hn
    refine hok.keep hslots ?_ (by simp [Collector.prepare])
      (Collector.active_append _ _ hok.known) hok.past
    intro b B hg
    constructor
    · intro hB
      rcases hcases hB with ⟨hB, -⟩ | ⟨hgen, -⟩
      · exact hB
      · have := hok.known
        omega
    · exact hleft

theorem Inv.startCapture {options : TraceOptions} {now : Nat} {allocFails : Bool} (h : Inv s)
    (hidle : s.control = .idle) : Inv (s.startCapture options now allocFails) := by
  unfold Collector.startCapture
  split
  · exact h
  · rename_i hok
    split
    · exact h
    · refine h.prepare hidle ?_
      by_contra hrec
      have hrec : s.recordingLocked = true := by simpa using hrec
      simp only [Collector.checkStart, hrec, if_true] at hok
      cases hok

/-- The entry and the buffer of a new slot. -/
theorem Inv.newEntry_cases (h : Inv s) (kind : TraceProducerKind) :
    s.newEntry = none ∧ s.newBuffers kind = [] ∨
    ∃ g capacity, s.current = some g ∧ s.newEntry = some ⟨g, s.buffers.length⟩ ∧
      s.newBuffers kind = [.new capacity g s.slots.length] := by
  cases hrec : s.recordingLocked with
  | false =>
    have hentry : s.newEntry = none := by simp [Collector.newEntry, hrec]
    exact .inl ⟨hentry, by simp [Collector.newBuffers, hentry]⟩
  | true =>
    cases hcur : s.current with
    | none =>
      rw [Collector.recordingLocked, hcur] at hrec
      cases hrec
    | some g =>
      have hentry : s.newEntry = some ⟨g, s.buffers.length⟩ := by
        simp [Collector.newEntry, hrec, hcur]
      have hlt := h.known g hcur
      refine .inr ⟨g, capacityForKind s.generations[g].options kind, rfl, hentry, ?_⟩
      simp [Collector.newBuffers, hentry, List.getElem?_eq_getElem hlt]

/-- A new slot at the end, with its buffer. -/
theorem Inv.appendSlot {kind : TraceProducerKind} (h : Inv s) (hidle : s.control = .idle)
    (hslots : ∃ slot : TraceSlot, s'.slots = s.slots ++ [slot] ∧ slot.entry = s.newEntry)
    (hbuf : s'.buffers = s.buffers ++ s.newBuffers kind)
    (hgens : s'.generations = s.generations) (hcur : s'.current = s.current)
    (hctl : s'.control = s.control)
    (hem : s'.emissions = s.emissions) (htk : s'.tickets = s.tickets)
    (hsn : s'.snapshots = s.snapshots) : Inv s' := by
  obtain ⟨slot, hslots, hentry⟩ := hslots
  have hactive : ∀ g, s'.active g = s.active g := fun g => by
    simp only [Collector.active, hgens]
  have hold : ∀ {k : Nat} {slot : TraceSlot}, s.slots[k]? = some slot →
      s'.slots[k]? = some slot := by
    intro k slot hk
    rw [hslots, List.getElem?_append_left (List.getElem?_eq_some_iff.mp hk).1]
    exact hk
  have hlast : s'.slots[s.slots.length]? = some slot := by
    rw [hslots, List.getElem?_concat_length]
  have hleft : ∀ {b : Nat} {B : TraceBuffer}, s.buffers[b]? = some B →
      s'.buffers[b]? = some B := by
    intro b B hB
    rw [hbuf, List.getElem?_append_left (List.getElem?_eq_some_iff.mp hB).1]
    exact hB
  have howner : ∀ {b : Nat} {B : TraceBuffer}, s.buffers[b]? = some B →
      B.owner < s.slots.length := by
    intro b B hB
    obtain ⟨slot, hslot⟩ := (h.buffers b B hB).owner
    exact (List.getElem?_eq_some_iff.mp hslot).1
  -- a buffer after the step is an old one, or the one of the new slot
  have hcases : ∀ {b : Nat} {B : TraceBuffer}, s'.buffers[b]? = some B →
      s.buffers[b]? = some B ∨ b = s.buffers.length ∧ B.owner = s.slots.length ∧
        s.current = some B.generation ∧ slot.entry = some ⟨B.generation, b⟩ := by
    intro b B hB
    rw [hbuf, List.getElem?_append] at hB
    split at hB
    · exact .inl hB
    · rcases h.newEntry_cases kind with ⟨-, hnew⟩ | ⟨g, capacity, hcur, he, hnew⟩
      · rw [hnew] at hB
        cases hB
      · rw [hnew] at hB
        have hb := (List.getElem?_eq_some_iff.mp hB).1
        obtain rfl := List.mem_singleton.mp (List.mem_of_getElem? hB)
        have hb : b = s.buffers.length := by
          simp only [List.length_singleton] at hb
          omega
        exact .inr ⟨hb, rfl, hcur, by rw [hentry, he, hb]; rfl⟩
  have hkept : SlotsKept s s' := fun k slot hk => ⟨slot, hold hk, rfl, rfl⟩
  refine h.underMutex _ hem htk hkept hbuf ?_ (by rw [hgens])
    (fun g G' hG' => .inl ⟨G', hgens ▸ hG', rfl⟩) ?_ ?_ ?_ ?_ ⟨?_, ?_, ?_⟩ ?_
  · intro B hB
    rcases h.newEntry_cases kind with ⟨-, hnew⟩ | ⟨g, capacity, hcur, -, hnew⟩
    · rw [hnew] at hB
      cases hB
    · rw [hnew] at hB
      obtain rfl := List.mem_singleton.mp hB
      exact ⟨capacity, g, _, rfl, hgens ▸ h.known g hcur, slot, hlast⟩
  · intro e he g b hw
    rw [hactive, hctl]
    exact h.window e he g b hw
  · intro g hg
    rw [hactive] at hg
    rw [hcur, hctl]
    exact h.active g hg
  · rw [hcur, hgens]
    exact h.known
  · rw [hctl, hidle]
    trivial
  · intro k slot' entry hk he
    by_cases hlt : k < s.slots.length
    · rw [hslots, List.getElem?_append_left hlt] at hk
      obtain ⟨B, hB, hrest⟩ := h.slots.entries k slot' entry hk he
      exact ⟨B, hleft hB, hrest⟩
    · have hk' := (List.getElem?_eq_some_iff.mp hk).1
      have hk' : k = s.slots.length := by
        rw [hslots, List.length_append, List.length_singleton] at hk'
        omega
      rw [hk', hlast] at hk
      obtain rfl := Option.some.inj hk
      rcases h.newEntry_cases kind with ⟨hnone, -⟩ | ⟨g, capacity, -, hsome, hnew⟩
      · rw [hentry, hnone] at he
        cases he
      · rw [hentry, hsome] at he
        obtain rfl := Option.some.inj he
        refine ⟨.new capacity g s.slots.length, ?_, rfl, hk'.symm⟩
        simp [hbuf, hnew]
  · intro b b' B B' hB hB' hg ho
    rcases hcases hB with hB | ⟨rfl, hlast, -⟩ <;> rcases hcases hB' with hB' | ⟨rfl, hlast', -⟩
    · exact h.slots.unique b b' B B' hB hB' hg ho
    · have := howner hB
      omega
    · have := howner hB'
      omega
    · rfl
  · intro b B hB hlive
    rw [hcur, hctl] at hlive
    rw [hctl]
    rcases hcases hB with hB | ⟨-, ho, -, he⟩
    · rcases h.slots.bound b B hB hlive with ⟨slot', hslot', he'⟩ | hmem
      · exact .inl ⟨slot', hold hslot', he'⟩
      · exact .inr hmem
    · exact .inl ⟨slot, ho ▸ hlast, he⟩
  · intro n hn
    rw [hsn] at hn
    have hok := h.snapshots n hn
    refine hok.keep hkept ?_ (by rw [hgens]) (hactive _) (hcur ▸ hok.past)
    intro b B hg
    constructor
    · intro hB
      rcases hcases hB with hB | ⟨-, -, hc, -⟩
      · exact hB
      · exact absurd (hg ▸ hc) hok.past
    · exact hleft

theorem Inv.openSlotLocked {kind : TraceProducerKind} {runtimeId : RuntimeId}
    {workerIndex : UInt32} {allocFails : Bool} (h : Inv s) (hidle : s.control = .idle) :
    Inv (s.openSlotLocked kind runtimeId workerIndex allocFails) := by
  unfold Collector.openSlotLocked
  split
  · exact h
  split
  · refine h.underMutex [] rfl rfl (.of_eq rfl) (by simp) nofun (Nat.le_refl _)
      (fun g G' hG' => .inl ⟨G', hG', rfl⟩) h.window h.active h.known ?_
      ⟨h.slots.entries, h.slots.unique, h.slots.bound⟩ ?_
    · rw [show ({ s with nextProducerId := s.nextProducerId + 1 } : Collector).control = .idle
        from hidle]
      trivial
    · exact fun n hn => (h.snapshots n hn).keep (.of_eq rfl) (.of_eq rfl) (Nat.le_refl _) rfl
        (h.snapshots n hn).past
  · refine h.appendSlot hidle ?_ rfl rfl rfl rfl rfl rfl rfl
    exact ⟨_, rfl, rfl⟩

theorem Inv.emit {slot : Nat} {category : TraceCategory} {event : TraceEvent} (h : Inv s) :
    Inv { s with
      emissions := s.emissions ++ [{ slot := slot, category := category, event := event }] } := by
  have hmem : ∀ {e : Emission}, e ∈ s.emissions ++
      [({ slot := slot, category := category, event := event } : Emission)] →
      e ∈ s.emissions ∨ e.pc = .loadCurrent := by
    intro e he
    rcases List.mem_append.mp he with he | he
    · exact .inl he
    · exact .inr (by rw [List.mem_singleton.mp he])
  have hcontrol := h.control
  refine
    { gate := ?_, window := ?_, emissions := ?_, active := h.active, known := h.known,
      control := ?_, buffers := ?_, tickets := h.tickets,
      slots := ⟨h.slots.entries, h.slots.unique, h.slots.bound⟩, snapshots := ?_ }
  · intro g G hG
    rw [List.countP_append, ← h.gate g G hG]
    simp [EmitPc.inside]
  · intro e he g b hw
    rcases hmem he with he | hpc
    · exact h.window e he g b hw
    · rw [hpc] at hw
      cases hw
  · intro e he
    rcases hmem he with he | hpc
    · exact (h.emissions e he).keep (Nat.le_refl _) fun b B hB => ⟨B, hB, rfl, rfl, Nat.le_refl _⟩
    · refine ⟨?_, ?_, ?_⟩ <;> rw [hpc] <;> intros <;> contradiction
  · cases hctl : s.control <;> rw [hctl] at hcontrol
    case reading c g k parts stage =>
      exact ⟨hcontrol.1, hcontrol.2.1, hcontrol.2.2.1.keep (.of_eq rfl) (.of_eq rfl),
        hcontrol.2.2.2.keep (.of_eq rfl) (.of_eq rfl)⟩
    case clearing c g parts =>
      exact ⟨hcontrol.1, hcontrol.2.1, fun taken ht =>
        (hcontrol.2.2 taken ht).keep (.of_eq rfl) (.of_eq rfl)⟩
    all_goals exact hcontrol
  · intro b B hB
    refine (h.buffers b B hB).keep (.of_eq rfl) (Nat.le_refl _) rfl ?_ ?_
    · simp [List.countP_append, EmitPc.dropping]
    · exact fun e he _ => List.mem_append_left _ he
  · exact fun n hn => (h.snapshots n hn).keep (.of_eq rfl) (.of_eq rfl) (Nat.le_refl _) rfl
      (h.snapshots n hn).past

theorem Inv.step (h : Inv s) {a : Label} (hs : s.next a = some s') : Inv s' := by
  have under : ∀ {t : Collector}, (s.control = .idle → Inv t) →
      (if s.control = .idle then some t else none) = some s' → Inv s' := by
    intro t ht hs
    split at hs
    · rename_i hidle
      obtain rfl := Option.some.inj hs
      exact ht hidle
    · cases hs
  cases a with
  | openSlot kind runtimeId workerIndex allocFails => exact under h.openSlotLocked hs
  | startCapture options now allocFails => exact under h.startCapture hs
  | stopCapture c => exact under h.endCapture hs
  | abortCapture c => exact under h.endCapture hs
  | control => exact h.controlStep hs
  | stopFails =>
    obtain ⟨rfl, c, g, k, parts, stage, hctl⟩ := Collector.stopFails_eq hs
    exact h.setControl (by rw [hctl]; rfl) rfl (by rw [hctl]; nofun) trivial
  | emit slot category event =>
    simp only [Collector.next] at hs
    split at hs
    · obtain rfl := Option.some.inj hs
      exact h.emit
    · cases hs
  | emission i now =>
    obtain ⟨e, hi, hs⟩ := Option.bind_eq_some_iff.mp hs
    exact h.emission hi hs

theorem inv_new : Inv {} where
  gate := nofun
  window := nofun
  emissions := nofun
  active := nofun
  known := nofun
  control := trivial
  buffers := nofun
  tickets := nofun
  slots := ⟨nofun, nofun, nofun⟩
  snapshots := nofun

theorem inv_of_reachable (h : Collector.machine.Reachable s) : Inv s := by
  refine h.invariant Inv ?_ fun t a t' ht _ hstep => ht.step hstep
  rintro t rfl
  exact inv_new

/-! ## One capture at a time -/

/-- No capture is started where the current generation does not record, which it does not while
a capture whose `stop` has failed is open. -/
def Collector.StartsAlone (s : Collector) : Label → Prop
  | .startCapture _ _ _ => s.current.isSome → s.recordingLocked
  | _ => True

/-- Fewer than 2^64 events are emitted: no counter of tickets, of losses or of the emissions
inside the gate wraps around. -/
def Collector.Countable (s : Collector) : Label → Prop
  | .emit _ _ _ => s.emissions.length + 1 < 2 ^ 64
  | _ => True

def Collector.InOrder (s : Collector) (a : Label) : Prop := s.StartsAlone a ∧ s.Countable a

instance (s : Collector) (a : Label) : Decidable (s.InOrder a) := by
  cases a <;> unfold Collector.InOrder Collector.StartsAlone Collector.Countable <;> infer_instance

/-- An open capture is that of the current generation. -/
structure Exclusive (s : Collector) : Prop where
  captures : ∀ (c : Nat) (capture : TraceCapture), s.captures[c]? = some capture →
    capture.closed = false → capture.generation.isSome ∧ capture.generation = s.current
  once : ∀ (c c' : Nat) (a a' : TraceCapture), s.captures[c]? = some a →
    s.captures[c']? = some a' → a.closed = false → a'.closed = false → c = c'
  storing : s.control.storing?.isSome → s.current = none
  withheld : s.withheld = []

theorem Exclusive.same (h : Exclusive s) (hs : SameCaptures s s') : Exclusive s' where
  captures := by
    rw [hs.captures, hs.current]
    exact h.captures
  once := by
    rw [hs.captures]
    exact h.once
  storing := by
    rw [hs.control, hs.current]
    exact h.storing
  withheld := hs.withheld.trans h.withheld

/-- Only the place of the process under the mutex changes. -/
theorem Exclusive.setControl (h : Exclusive s) {c : Control} (hst : c.storing? = none) :
    Exclusive { s with control := c } where
  captures := h.captures
  once := h.once
  storing hsome := by
    rw [hst] at hsome
    cases hsome
  withheld := h.withheld

theorem Exclusive.endCapture (h : Exclusive s) (c : Nat) (discard : Bool) :
    Exclusive (s.endCapture c discard) := by
  unfold Collector.endCapture
  split
  · exact h
  rename_i capture hcap
  split
  · exact h
  rename_i hopen
  obtain ⟨hsome, hcur⟩ := h.captures c capture hcap (by simpa using hopen)
  obtain ⟨g, hg⟩ := Option.isSome_iff_exists.mp hsome
  rw [hg] at hcur
  simp only [hg]
  rw [if_pos hcur.symm]
  exact h.setControl rfl

theorem Exclusive.startCapture {options : TraceOptions} {now : Nat} {allocFails : Bool}
    (h : Exclusive s) (hok : s.current.isSome → s.recordingLocked) :
    Exclusive (s.startCapture options now allocFails) := by
  unfold Collector.startCapture
  split
  · exact h
  rename_i hchecked
  split
  · exact h
  refine ⟨h.captures, h.once, fun _ => ?_, h.withheld⟩
  change s.current = none
  by_contra hsome
  have hrec := hok (Option.isSome_iff_ne_none.mpr hsome)
  simp only [Collector.checkStart, hrec, if_true] at hchecked
  cases hchecked

theorem Exclusive.controlStep (h : Exclusive s) (hi : Inv s) (hs : s.controlStep = some s') :
    Exclusive s' := by
  cases hctl : s.control with
  | idle =>
    simp only [Collector.controlStep, hctl] at hs
    cases hs
  | storing g prepared =>
    have hnone := h.storing (by rw [hctl]; rfl)
    cases prepared with
    | cons q prepared =>
      simp only [Collector.controlStep, hctl] at hs
      cases hs
      exact ⟨h.captures, h.once, fun _ => hnone, h.withheld⟩
    | nil =>
      simp only [Collector.controlStep, hctl] at hs
      cases hs
      -- with no generation current, every capture so far is closed
      have hlast : ∀ (c : Nat) (a : TraceCapture),
          (s.captures ++ [({ generation := some g } : TraceCapture)])[c]? = some a →
          a.closed = false → c = s.captures.length ∧ a.generation = some g := by
        intro c a ha hopen
        rw [List.getElem?_append] at ha
        split at ha
        · obtain ⟨hsome, heq⟩ := h.captures c a ha hopen
          rw [heq, hnone] at hsome
          cases hsome
        · have hlen := (List.getElem?_eq_some_iff.mp ha).1
          obtain rfl := List.mem_singleton.mp (List.mem_of_getElem? ha)
          simp only [List.length_singleton] at hlen
          exact ⟨by omega, rfl⟩
      refine ⟨fun c a ha hopen => ?_, fun c c' a a' ha ha' hopen hopen' => ?_, nofun, h.withheld⟩
      · rw [(hlast c a ha hopen).2]
        exact ⟨rfl, rfl⟩
      · rw [(hlast c a ha hopen).1, (hlast c' a' ha' hopen').1]
  | deactivating c g discard =>
    simp only [Collector.controlStep, hctl] at hs
    cases hs
    exact ⟨h.captures, h.once, nofun, h.withheld⟩
  | quiescing c g discard =>
    simp only [Collector.controlStep, hctl] at hs
    split at hs
    · cases hs
      exact h
    · split at hs <;> cases hs <;> exact h.setControl rfl
  | reading c g k parts stage =>
    simp only [Collector.controlStep, hctl] at hs
    obtain ⟨control, rfl, ⟨_, _, _, rfl⟩ | ⟨_, rfl⟩⟩ := Collector.readStep_control hs <;>
      exact h.setControl rfl
  | clearing c g parts =>
    have hc := hi.control
    rw [hctl] at hc
    simp only [Collector.controlStep, hctl] at hs
    cases hs
    -- the capture that is being closed was the only open one
    have hclosed : ∀ (c' : Nat) (capture : TraceCapture),
        (s.closeCapture c).captures[c']? = some capture → capture.closed = true := by
      intro c' capture hcap
      simp only [Collector.closeCapture, List.getElem?_modify] at hcap
      obtain ⟨old, hold, rfl⟩ := Option.map_eq_some_iff.mp hcap
      by_cases hcc : c = c'
      · simp [hcc]
      · simp only [hcc, if_false]
        by_contra hno
        exact hcc (h.once c c' _ old hc.1.2 hold rfl (by simpa using hno))
    refine ⟨fun c' capture hcap hopen => ?_, fun c' _ a _ ha _ hopen _ => ?_, nofun, h.withheld⟩
    · rw [hclosed c' capture hcap] at hopen
      cases hopen
    · rw [hclosed c' a ha] at hopen
      cases hopen

/-- A step of one that opens a producer or emits begins and ends no capture. -/
theorem sameCaptures_next {a : Label} (hs : s.next a = some s')
    (ha : (∃ kind runtimeId workerIndex allocFails,
      a = .openSlot kind runtimeId workerIndex allocFails) ∨
      (∃ slot category event, a = .emit slot category event) ∨ ∃ i now, a = .emission i now) :
    SameCaptures s s' := by
  rcases ha with ⟨kind, runtimeId, workerIndex, allocFails, rfl⟩ |
    ⟨slot, category, event, rfl⟩ | ⟨i, now, rfl⟩
  · simp only [Collector.next] at hs
    split at hs <;> cases hs
    unfold Collector.openSlotLocked
    split
    · exact ⟨rfl, rfl, rfl, rfl, rfl, rfl, fun _ => rfl⟩
    · split <;> exact ⟨rfl, rfl, rfl, rfl, rfl, rfl, fun _ => rfl⟩
  · simp only [Collector.next] at hs
    split at hs <;> cases hs
    exact ⟨rfl, rfl, rfl, rfl, rfl, rfl, fun _ => rfl⟩
  · obtain ⟨e, -, hs⟩ := Option.bind_eq_some_iff.mp hs
    exact (emitEffect_of_step hs).captures

theorem Exclusive.step (h : Exclusive s) (hi : Inv s) {a : Label} (hok : s.StartsAlone a)
    (hs : s.next a = some s') : Exclusive s' := by
  cases a with
  | openSlot _ _ _ _ => exact h.same (sameCaptures_next hs (.inl ⟨_, _, _, _, rfl⟩))
  | emit _ _ _ => exact h.same (sameCaptures_next hs (.inr (.inl ⟨_, _, _, rfl⟩)))
  | emission _ _ => exact h.same (sameCaptures_next hs (.inr (.inr ⟨_, _, rfl⟩)))
  | startCapture options now allocFails =>
    simp only [Collector.next] at hs
    split at hs <;> cases hs
    exact h.startCapture hok
  | stopCapture c | abortCapture c =>
    simp only [Collector.next] at hs
    split at hs <;> cases hs
    exact h.endCapture c _
  | control => exact h.controlStep hi hs
  | stopFails =>
    obtain ⟨rfl, -⟩ := Collector.stopFails_eq hs
    exact h.setControl rfl

theorem exclusive_of_reachable (h : Collector.machine.ReachableUnder Collector.InOrder s) :
    Exclusive s := by
  refine (h.invariant (fun t => Inv t ∧ Exclusive t) ?_ ?_).2
  · rintro t rfl
    exact ⟨inv_new, nofun, nofun, nofun, rfl⟩
  · exact fun t a t' ht hok hs => ⟨ht.1.step hs, ht.2.step ht.1 hok.1 hs⟩

/-- An emission draws one ticket at most, and there are fewer than 2^64. -/
structure Bounded (s : Collector) : Prop where
  tickets : s.tickets.length ≤ s.emissions.countP (·.pc.past)
  emissions : s.emissions.length < 2 ^ 64

theorem Bounded.lt (h : Bounded s) : s.tickets.length < 2 ^ 64 :=
  Nat.lt_of_le_of_lt (Nat.le_trans h.tickets List.countP_le_length) h.emissions

theorem Bounded.same (h : Bounded s) (hem : s'.emissions = s.emissions)
    (htk : s'.tickets = s.tickets) : Bounded s' :=
  ⟨by rw [hem, htk]; exact h.tickets, by rw [hem]; exact h.emissions⟩

theorem Bounded.step (h : Bounded s) {a : Label} (hok : s.Countable a)
    (hs : s.next a = some s') : Bounded s' := by
  cases a with
  | emit slot category event =>
    simp only [Collector.next] at hs
    split at hs <;> cases hs
    refine ⟨?_, by rw [List.length_append]; exact hok⟩
    rw [List.countP_append]
    exact Nat.le_add_right_of_le h.tickets
  | emission i now =>
    obtain ⟨e, hi, hs⟩ := Option.bind_eq_some_iff.mp hs
    obtain ⟨pc, hemissions, htickets⟩ := (emitEffect_of_step hs).emissions
    have hset := Threads.countP_set (·.pc.past) hi { e with pc := pc }
    have hle := h.tickets
    refine ⟨?_, by rw [hemissions, List.length_set]; exact h.emissions⟩
    rw [hemissions]
    dsimp only at hset
    omega
  | openSlot kind runtimeId workerIndex allocFails =>
    simp only [Collector.next] at hs
    split at hs <;> cases hs
    unfold Collector.openSlotLocked
    split
    · exact h
    · split <;> exact h.same rfl rfl
  | startCapture options now allocFails =>
    simp only [Collector.next] at hs
    split at hs <;> cases hs
    unfold Collector.startCapture
    split
    · exact h
    · split
      · exact h
      · exact h.same rfl rfl
  | stopCapture c | abortCapture c =>
    simp only [Collector.next] at hs
    split at hs <;> cases hs
    obtain ⟨hem, -, -, -, htk⟩ := s.endCapture_same c _
    exact h.same hem htk
  | control =>
    obtain ⟨hem, -, -, -, htk⟩ := Collector.controlStep_same hs
    exact h.same hem htk
  | stopFails =>
    obtain ⟨rfl, -⟩ := Collector.stopFails_eq hs
    exact h.same rfl rfl

theorem bounded_of_reachable (h : Collector.machine.ReachableUnder Collector.InOrder s) :
    Bounded s := by
  refine h.invariant Bounded ?_ fun t a t' ht hok hs => ht.step hok.2 hs
  rintro t rfl
  exact ⟨Nat.le_refl 0, by decide⟩

/-! ## What a snapshot says -/

/-- What a snapshot's buffer has once its generation is over. -/
theorem SnapshotOk.partExact {n : Snapshot} (h : Inv s) (hn : SnapshotOk s n) {p : Part}
    (hp : p ∈ n.parts) :
    ∃ b, s.buffers[p.buffer]? = some b ∧ PartExact s n.generation p b := by
  obtain ⟨k, htaken, -⟩ := hn.taken
  obtain ⟨B, hB, hg, -, hpart⟩ := htaken.each p hp
  have hok := h.buffers _ B hB
  have hq : s.control.quiescing? ≠ some n.generation := fun hq => hn.past (h.quiescing_current hq)
  have hsettled : ∀ e ∈ s.emissions, e.pc.window ≠ some (n.generation, p.buffer) :=
    fun e he => h.settled hn.inactive hq he _
  have hdrop : s.emissions.countP (fun e => e.pc.dropping p.buffer) = 0 := by
    refine List.countP_eq_zero.mpr fun e he hd => ?_
    cases hpc : e.pc <;> rw [hpc] at hd <;> simp only [EmitPc.dropping, Bool.false_eq_true] at hd
    rename_i g b'
    obtain rfl : b' = p.buffer := by simpa using hd
    obtain ⟨B', hB', hg', -⟩ := (h.emissions e he).found g p.buffer (by rw [hpc]; rfl)
    obtain rfl := Option.some.inj (hB.symm.trans hB')
    exact hsettled e he (by rw [hpc, ← hg, hg']; rfl)
  have hlosses := hok.losses
  have hcount := hok.count
  have hsize := hok.size
  have hle : B.committed ≤ B.slots.length := by
    simp only [TraceBuffer.committed]
    omega
  have hlen : p.events.length = B.committed := by
    rw [hpart.events, List.length_take]
    omega
  refine ⟨B, hB, hg, hpart.report, ?_, ?_, ?_, ⟨?_, hpart.dropped.symm⟩, hsettled⟩
  · rw [hlen, ← hcount]
    rfl
  · rw [hlen, hpart.dropped]
    omega
  · intro t ht
    rw [hlen] at ht
    rcases hok.written t ht with ⟨r, hr, hrok⟩ | ⟨e, he, hpc⟩
    · obtain ⟨slot, hslot, hid⟩ := hrok.producer
      obtain ⟨slot', hslot', hreport⟩ := hpart.report
      obtain rfl := Option.some.inj (hslot.symm.trans hslot')
      refine ⟨r, ?_, hrok.sequence, ?_, hrok.generation.trans hg⟩
      · rw [hpart.events, List.getElem?_take_of_lt ht]
        exact hr
      · rw [hid, hreport]
        rfl
    · exact absurd (by rw [hpc, hg]; rfl) (hsettled e he)
  · rw [hlen, hpart.events]
    refine List.ext_getElem? fun t => ?_
    rcases Nat.lt_or_ge t B.committed with ht | ht
    · rw [List.getElem?_append_left (by rw [List.length_take]; omega),
        List.getElem?_take_of_lt ht]
    · rw [List.getElem?_append_right (by rw [List.length_take]; omega), List.length_take,
        List.getElem?_replicate]
      by_cases hcap : t < B.capacity
      · rw [hok.fresh t ht hcap, if_pos (by omega)]
      · rw [List.getElem?_eq_none (by omega), if_neg (by omega)]

theorem sum_indicator_eq_count (cs : List Nat) (b : Nat) :
    (cs.map fun c => if b = c then 1 else 0).sum = cs.count b := by
  induction cs with
  | nil => rfl
  | cons c cs ih =>
    rw [List.map_cons, List.sum_cons, ih, List.count_cons, Nat.add_comm]
    simp only [beq_iff_eq, @eq_comm _ c b]

/-- Counting by classes that are distinct and exhaust what is counted. -/
theorem countP_eq_sum_of_classes {α : Type*} {p : α × Nat → Bool} {cs : List Nat}
    (hcs : cs.Nodup) {ts : List (α × Nat)} (hts : ∀ t ∈ ts, p t = true ↔ t.2 ∈ cs) :
    ts.countP p = (cs.map fun c => ts.countP fun t => t.2 = c).sum := by
  induction ts with
  | nil => simp
  | cons t ts ih =>
    have ih := ih fun u hu => hts u (List.mem_cons_of_mem _ hu)
    have hone : (if p t = true then 1 else 0) = (cs.map fun c => if t.2 = c then 1 else 0).sum := by
      rw [sum_indicator_eq_count, hcs.count]
      simp only [hts t List.mem_cons_self]
    simp only [List.countP_cons, List.sum_map_add, decide_eq_true_eq, ← ih, hone]

/-- **Captures are exact** in every state that is reached without a start behind a failed
stop. -/
theorem captureExact_of_reachable (h : Collector.machine.ReachableUnder Collector.InOrder s) :
    CaptureExact s := by
  have hinv := inv_of_reachable h.reachable
  have hexclusive := exclusive_of_reachable h
  refine ⟨fun n hn p hp => (hinv.snapshots n hn).partExact hinv hp, ?_, ?_, ?_, ?_, ?_, ?_⟩
  · intro n hn
    obtain ⟨k, htaken, -⟩ := (hinv.snapshots n hn).taken
    exact htaken.distinct
  · intro n hn b B hB hg
    obtain ⟨k, htaken, hall⟩ := (hinv.snapshots n hn).taken
    exact htaken.complete b B hB hg (hall b B hB hg)
  · intro n hn
    obtain ⟨k, htaken, hall⟩ := (hinv.snapshots n hn).taken
    have hclasses : s.ticketsIn n.generation =
        ((n.parts.map (·.buffer)).map fun b => s.ticketsOf b).sum := by
      refine countP_eq_sum_of_classes htaken.distinct fun t ht => ?_
      obtain ⟨B, hB, hg⟩ := hinv.tickets t ht
      rw [decide_eq_true_eq]
      constructor
      · intro heq
        exact htaken.complete t.2 B hB (hg.trans heq) (hall t.2 B hB (hg.trans heq))
      · intro hmem
        obtain ⟨p, hp, heq⟩ := List.mem_map.mp hmem
        obtain ⟨B', hB', hg', -⟩ := htaken.each p hp
        rw [heq, hB] at hB'
        obtain rfl := Option.some.inj hB'
        exact hg.symm.trans hg'
    rw [hclasses, ← List.sum_map_add, List.map_map]
    refine congrArg List.sum (List.map_congr_left fun p hp => ?_)
    obtain ⟨b, -, hexact⟩ := (hinv.snapshots n hn).partExact hinv hp
    exact hexact.accounted
  · intro n hn p hp
    obtain ⟨b, -, hexact⟩ := (hinv.snapshots n hn).partExact hinv hp
    obtain ⟨slot, -, hreport⟩ := hexact.report
    have hlt := (bounded_of_reachable h).lt
    have hle : s.ticketsOf p.buffer ≤ s.tickets.length := List.countP_le_length
    have haccounted := hexact.accounted
    rw [hreport, ← hexact.unchanged.2]
    refine UInt64.toNat_ofNat_of_lt' ?_
    rw [hexact.unchanged.2]
    exact Nat.lt_of_le_of_lt (by omega) hlt
  · intro capture hc hopen
    obtain ⟨c, hc⟩ := List.mem_iff_getElem?.mp hc
    exact hexclusive.captures c capture hc hopen
  · intro g hg
    rw [hexclusive.withheld] at hg
    cases hg

end

/-- Two emissions race for the one place of a worker's buffer, a producer is opened while the
generation records, and a third emission enters the gate before `stop_capture` closes it. -/
def racingStop : List Label :=
  ([.openSlot .worker {} 0 false, .startCapture ⟨1, 1, 1, 0x3F7⟩ 0 false, .control, .control,
    .openSlot .reaper {} 0 false, .emit 0 0x1 {}, .emit 0 0x1 {}, .emit 1 0x1 {}] : List Label) ++
    (List.replicate 6 (.emission 0 0) : List Label) ++
    (List.replicate 6 (.emission 1 0) : List Label) ++
    (List.replicate 3 (.emission 2 0) : List Label) ++
    ([.stopCapture 0, .control, .control] : List Label) ++
    (List.replicate 3 (.emission 2 0) : List Label) ++
    (List.replicate 2 (.emission 0 0) : List Label) ++
    (List.replicate 2 (.emission 1 0) : List Label) ++ (List.replicate 12 .control : List Label)

theorem captureExact_racingStop : ∃ s, Collector.machine.run {} racingStop = some s ∧
    CaptureExact s ∧ s.ticketsIn 0 = 2 ∧
    s.snapshots.map (fun n => n.parts.map fun p => (p.events.length, p.dropped)) =
      [[(1, 1), (0, 0)]] := by
  obtain ⟨s, hs⟩ := Option.isSome_iff_exists.mp
    (show (Collector.machine.run {} racingStop).isSome by decide)
  have hend : (Collector.machine.run {} racingStop).map (fun t => (t.ticketsIn 0,
      t.snapshots.map fun n => n.parts.map fun p => (p.events.length, p.dropped))) =
      some (2, [[(1, 1), (0, 0)]]) := by decide
  rw [hs] at hend
  obtain ⟨htickets, hparts⟩ := Prod.mk.inj (Option.some.inj hend)
  have hnew : Collector.machine.ReachableUnder Collector.InOrder {} := .initial rfl
  exact ⟨s, hs, captureExact_of_reachable (hnew.run (by decide) hs), htickets, hparts⟩

/-- `stop_capture` cannot allocate its snapshot; the next `start_capture` is let through, and the
second `stop` of the first capture comes too late. -/
def startBehindFailedStop : List Label :=
  ([.openSlot .worker {} 0 false, .startCapture ⟨1, 1, 1, 0x3F7⟩ 0 false, .control, .control,
    .emit 0 0x1 {}] : List Label) ++
    (List.replicate 8 (.emission 0 0) : List Label) ++
    ([.stopCapture 0, .control, .control, .stopFails, .startCapture ⟨1, 1, 1, 0x3F7⟩ 0 false,
      .control, .control, .stopCapture 0] : List Label)

/-- The event has been stored, and the snapshot that is returned is empty. -/
theorem startBehindFailedStop_withholds : ∃ s,
    Collector.machine.run {} startBehindFailedStop = some s ∧ s.withheld = [0] ∧
      s.ticketsIn 0 = 1 ∧ ¬ CaptureExact s := by
  obtain ⟨s, hs⟩ := Option.isSome_iff_exists.mp
    (show (Collector.machine.run {} startBehindFailedStop).isSome by decide)
  have hend : (Collector.machine.run {} startBehindFailedStop).map (fun t =>
      (t.withheld, t.ticketsIn 0)) = some ([0], 1) := by decide
  rw [hs] at hend
  obtain ⟨hwithheld, htickets⟩ := Prod.mk.inj (Option.some.inj hend)
  refine ⟨s, hs, hwithheld, htickets, fun hexact => ?_⟩
  have hnone := hexact.withheld 0 (by rw [hwithheld]; exact List.mem_singleton_self 0)
  rw [htickets] at hnone
  cases hnone

end AstraScheduler.TraceCollector
