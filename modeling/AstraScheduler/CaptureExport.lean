import AstraScheduler.TraceCapture
import AstraScheduler.TraceSegments
import AstraScheduler.WaitEvents

/-! # Exporting what has been captured

From `emit_wait_event` through the collector to `write_chrome_trace`.  `trace_emit_desc` is
called by `emit_wait_event` only, so the events of a capture are those of
`RuntimeDiagnostics::emit_wait_event`, stamped when they are stored.  The writer rejects none of
them, whatever the races between the emissions and `stop`.

Producer ids and sequence numbers are given out once, so no two events of a snapshot compare
equal: `trace_ordered_events` has one result for them, and the text does not depend on the order
in which `stop_capture` has collected the buffers. -/

namespace AstraScheduler
namespace CaptureExport

open Trace
open TraceCollector
open Transition (Machine)
open WaitEvents (Fits RuntimeDiagnostics graphRunValid toNat_ofNat traceEmitDesc)

/-! ## What the writer accepts -/

/-- An event that passes the checks of the writer once it is stamped. -/
structure Accepted (category : TraceCategory) (ev : TraceEvent) : Prop where
  kind : ∃ k : TraceEventKind, ev.kind = k.raw ∧ category = categoryForKind k
  bearing : ev.taskId ≠ 0 ∨ ev.graphRunId ≠ 0 ∨ ev.segmentSequence ≠ 0 → ev.runtimeId ≠ 0
  target : ev.targetTaskId ≠ 0 ∨ ev.targetRuntimeId ≠ 0 →
    ev.targetRuntimeId ≠ 0 ∧ ev.targetTaskId ≠ 0
  node : ev.nodeId ≠ 0 → ev.graphRunId ≠ 0
  segment : ev.segmentSequence ≠ 0 → ev.taskId ≠ 0

theorem categoryForKind_ne_none (k : TraceEventKind) : categoryForKind k ≠ .none := by
  cases k <;> decide

theorem validateEvent_stamp {e : Emission} (h : Accepted e.category e.event) (s : Collector)
    (g t now : Nat) : validateEvent (s.stamp e g t now) = .ok () := by
  obtain ⟨k, hkind, hcategory⟩ := h.kind
  -- the stamp leaves the fields that these checks read as they are
  have hbearing : ¬(((s.stamp e g t now).taskId ≠ 0 ∨ (s.stamp e g t now).graphRunId ≠ 0 ∨
      (s.stamp e g t now).segmentSequence ≠ 0) ∧ (s.stamp e g t now).runtimeId = 0) :=
    fun hbad => h.bearing hbad.1 hbad.2
  have htarget : ¬(((s.stamp e g t now).targetTaskId ≠ 0 ∨
      (s.stamp e g t now).targetRuntimeId ≠ 0) ∧ ((s.stamp e g t now).targetRuntimeId = 0 ∨
        (s.stamp e g t now).targetTaskId = 0)) := by
    rintro ⟨hany, hzero⟩
    obtain ⟨hruntime, htask⟩ := h.target hany
    exact hzero.elim hruntime htask
  have hnode : ¬((s.stamp e g t now).nodeId ≠ 0 ∧ (s.stamp e g t now).graphRunId = 0) :=
    fun hbad => h.node hbad.1 hbad.2
  have hsegment : ¬((s.stamp e g t now).segmentSequence ≠ 0 ∧ (s.stamp e g t now).taskId = 0) :=
    fun hbad => h.segment hbad.1 hbad.2
  have hk : TraceEventKind.ofRaw? (s.stamp e g t now).kind = some k := by
    change TraceEventKind.ofRaw? e.event.kind = some k
    rw [hkind]
    exact TraceEventKind.ofRaw?_raw k
  have hversion : (s.stamp e g t now).schemaVersion = 1 := rfl
  have hstamped : (s.stamp e g t now).category = (categoryForKind k &&& 0xFFFF).toUInt16 :=
    congrArg (fun c => (c &&& 0xFFFF).toUInt16) hcategory
  unfold validateEvent
  simp only [hk, hversion, hstamped, categoryForKind_ne_none, ne_eq, not_true, or_self, if_false]
  rw [if_neg hbearing, if_neg htarget, if_neg hnode, if_neg hsegment]
  rfl

theorem ofNat_ne_zero {n : Nat} (hn : n ≠ 0) (hfits : n < 2 ^ 64) : UInt64.ofNat n ≠ 0 := by
  intro hzero
  have hnat := congrArg UInt64.toNat hzero
  rw [toNat_ofNat hfits] at hnat
  exact hn hnat

/-- **What `emit_wait_event` describes is accepted.** -/
theorem accepted_waitDesc {d : RuntimeDiagnostics} (hd : d.runtimeId.value ≠ 0)
    (hfits : d.runtimeId.value < 2 ^ 64) {target : TaskId} (ht : Fits target) (slot : Nat)
    (kind : TraceEventKind) (source : TaskId) (graphTarget : ExecutionIdentity.GraphRunId) :
    Accepted (traceEmitDesc slot (d.waitDesc kind source target graphTarget)).category
      (traceEmitDesc slot (d.waitDesc kind source target graphTarget)).event where
  kind := ⟨kind, rfl, rfl⟩
  bearing _ := ofNat_ne_zero hd hfits
  target hany := by
    simp only [traceEmitDesc, RuntimeDiagnostics.waitDesc] at hany ⊢
    by_cases hv : target.valid
    · rw [if_pos hv, if_pos hv]
      simp only [TaskId.valid, Bool.and_eq_true, bne_iff_ne] at hv
      exact ⟨ofNat_ne_zero hv.1 ht.runtime, ofNat_ne_zero hv.2 ht.sequence⟩
    · rw [if_neg hv, if_neg hv] at hany
      exact absurd hany (by decide)
  node hnode := absurd rfl hnode
  segment hsegment := absurd rfl hsegment

theorem validate_ok {events : List TraceEvent} (h : ∀ ev ∈ events, validateEvent ev = .ok ()) :
    validate events = .ok () := by
  induction events with
  | nil => rfl
  | cons ev events ih =>
    have hrest := ih fun ev' hev => h ev' (List.mem_cons_of_mem ev hev)
    unfold validate
    rw [h ev List.mem_cons_self, hrest]
    rfl

/-! ## What a collector stores -/

/-- Emissions are those of `emit_wait_event`, of a runtime and for targets with real ids. -/
def waitEvents (_ : Collector) : Label → Prop
  | .emit slot category event =>
    ∃ (d : RuntimeDiagnostics) (kind : TraceEventKind) (source target : TaskId)
      (graphTarget : ExecutionIdentity.GraphRunId),
      d.runtimeId.value ≠ 0 ∧ d.runtimeId.value < 2 ^ 64 ∧ Fits target ∧
      traceEmitDesc slot (d.waitDesc kind source target graphTarget) =
        { slot := slot, category := category, event := event }
  | _ => True

variable {s s' : Collector}

/-- What is under way is accepted, and so is what has been stored. -/
structure Sound (s : Collector) : Prop where
  emissions : ∀ e ∈ s.emissions, Accepted e.category e.event
  stored : ∀ B ∈ s.buffers, ∀ r, some r ∈ B.slots → validateEvent r.event = .ok ()

theorem Sound.same (h : Sound s) (hemissions : s'.emissions = s.emissions)
    (hbuffers : s'.buffers = s.buffers) : Sound s' :=
  ⟨by rw [hemissions]; exact h.emissions, by rw [hbuffers]; exact h.stored⟩

/-- New buffers are empty. -/
theorem Sound.append (h : Sound s) {new : List TraceBuffer}
    (hnew : ∀ B ∈ new, B.slots = List.replicate B.capacity none)
    (hemissions : s'.emissions = s.emissions) (hbuffers : s'.buffers = s.buffers ++ new) :
    Sound s' := by
  refine ⟨by rw [hemissions]; exact h.emissions, ?_⟩
  rw [hbuffers]
  intro B hB r hr
  rcases List.mem_append.mp hB with hB | hB
  · exact h.stored B hB r hr
  · rw [hnew B hB] at hr
    cases (List.mem_replicate.mp hr).2

theorem Sound.emission (h : Sound s) {i now : Nat} {e : Emission}
    (hi : s.emissions[i]? = some e) (heffect : EmitEffect s s' i e now) : Sound s' := by
  have he := h.emissions e (List.mem_of_getElem? hi)
  obtain ⟨pc, hemissions, -⟩ := heffect.emissions
  refine ⟨fun x hx => ?_, fun x hx r hr => ?_⟩
  · rw [hemissions] at hx
    rcases List.mem_or_eq_of_mem_set hx with hx | rfl
    · exact h.emissions x hx
    · exact he
  · obtain hsame | ⟨b, B, B', hB, hset, hslots⟩ := heffect.buffers
    · rw [hsame] at hx
      exact h.stored x hx r hr
    · rw [hset] at hx
      rcases List.mem_or_eq_of_mem_set hx with hx | rfl
      · exact h.stored x hx r hr
      · have hold := h.stored B (List.mem_of_getElem? hB)
        obtain hslots | ⟨g, t, hslots⟩ := hslots
        · exact hold r (hslots ▸ hr)
        · rw [hslots] at hr
          rcases List.mem_or_eq_of_mem_set hr with hr | hr
          · exact hold r hr
          · cases hr
            exact validateEvent_stamp he s g t now

theorem newBuffers_empty (s : Collector) (kind : TraceProducerKind) :
    ∀ B ∈ s.newBuffers kind, B.slots = List.replicate B.capacity none := by
  intro B hB
  unfold Collector.newBuffers at hB
  split at hB
  · cases hB
  · obtain rfl := List.mem_singleton.mp hB
    rfl

theorem Sound.step (h : Sound s) {a : Label} (hok : waitEvents s a) (hs : s.next a = some s') :
    Sound s' := by
  unfold Collector.next at hs
  cases a with
  | openSlot kind runtimeId workerIndex allocFails =>
    dsimp only at hs
    split at hs <;> cases hs
    unfold Collector.openSlotLocked
    split
    · exact h
    · split
      · exact h.same rfl rfl
      · exact h.append (newBuffers_empty s kind) rfl rfl
  | startCapture options now allocFails =>
    dsimp only at hs
    split at hs <;> cases hs
    unfold Collector.startCapture
    split
    · exact h
    · split
      · exact h
      · refine h.append (fun B hB => ?_) rfl rfl
        obtain ⟨k, hk, rfl⟩ := List.mem_mapIdx.mp hB
        rfl
  | stopCapture c | abortCapture c =>
    dsimp only at hs
    split at hs <;> cases hs
    obtain ⟨hemissions, hbuffers, -⟩ := s.endCapture_same c _
    exact h.same hemissions hbuffers
  | control =>
    obtain ⟨hemissions, hbuffers, -⟩ := Collector.controlStep_same hs
    exact h.same hemissions hbuffers
  | stopFails =>
    obtain ⟨rfl, -⟩ := Collector.stopFails_eq hs
    exact h.same rfl rfl
  | emit slot category event =>
    obtain ⟨d, kind, source, target, graphTarget, hd, hfits, ht, hdesc⟩ := hok
    dsimp only at hs
    split at hs <;> cases hs
    refine ⟨fun e he => ?_, h.stored⟩
    rcases List.mem_append.mp he with he | he
    · exact h.emissions e he
    · obtain rfl := List.mem_singleton.mp he
      rw [← hdesc]
      exact accepted_waitDesc hd hfits ht slot kind source graphTarget
  | emission i now =>
    obtain ⟨e, hi, hs⟩ := Option.bind_eq_some_iff.mp hs
    exact h.emission hi (emitEffect_of_step hs)

theorem sound_of_reachable (h : Collector.machine.ReachableUnder waitEvents s) : Sound s := by
  refine h.invariant Sound ?_ fun s a s' hi hok hs => hi.step hok hs
  rintro s rfl
  exact ⟨nofun, nofun⟩

/-! ## Ids and sequence numbers are given out once -/

/-- `k` producer ids have been drawn; those of the slots are among them, in the order of the
slots. -/
structure Numbered (s : Collector) (k : Nat) : Prop where
  next : s.nextProducerId = UInt64.ofNat (k + 1)
  ids : ∃ ids : List Nat, s.slots.map (·.producerId) = ids.map UInt64.ofNat ∧
    ids.Pairwise (· < ·) ∧ ∀ id ∈ ids, id ≤ k

theorem numbered_new : Numbered {} 0 := ⟨rfl, [], rfl, List.Pairwise.nil, nofun⟩

theorem Numbered.same {k : Nat} (h : Numbered s k) (hnext : s'.nextProducerId = s.nextProducerId)
    (hslots : s'.slots.map (·.producerId) = s.slots.map (·.producerId)) : Numbered s' k :=
  ⟨hnext.trans h.next, hslots ▸ h.ids⟩

theorem Numbered.openSlot {k : Nat} (h : Numbered s k) (kind : TraceProducerKind)
    (runtimeId : RuntimeId) (workerIndex : UInt32) (allocFails : Bool) :
    Numbered (s.openSlotLocked kind runtimeId workerIndex allocFails) k ∨
      Numbered (s.openSlotLocked kind runtimeId workerIndex allocFails) (k + 1) := by
  have hnext : s.nextProducerId + 1 = UInt64.ofNat (k + 1 + 1) := by
    rw [h.next, UInt64.ofNat_add (k + 1) 1]
    rfl
  obtain ⟨ids, hids, hsorted, hle⟩ := h.ids
  unfold Collector.openSlotLocked
  split
  · exact Or.inl h
  · refine Or.inr ?_
    split
    · exact ⟨hnext, ids, hids, hsorted, fun id hid => Nat.le_succ_of_le (hle id hid)⟩
    · refine ⟨hnext, ids ++ [k + 1], ?_, ?_, ?_⟩
      · simp [hids, h.next]
      · refine List.pairwise_append.mpr ⟨hsorted, List.pairwise_singleton .., ?_⟩
        intro id hid new hnew
        have hnew := List.mem_singleton.mp hnew
        have hold := hle id hid
        omega
      · intro id hid
        rcases List.mem_append.mp hid with hid | hid
        · exact Nat.le_succ_of_le (hle id hid)
        · exact Nat.le_of_eq (List.mem_singleton.mp hid)

/-- A step draws at most one id and one ticket. -/
theorem Numbered.step {k : Nat} (h : Numbered s k) {a : Label} (hs : s.next a = some s') :
    (Numbered s' k ∨ Numbered s' (k + 1)) ∧ s'.tickets.length ≤ s.tickets.length + 1 := by
  unfold Collector.next at hs
  cases a with
  | openSlot kind runtimeId workerIndex allocFails =>
    dsimp only at hs
    split at hs <;> cases hs
    refine ⟨h.openSlot kind runtimeId workerIndex allocFails, ?_⟩
    unfold Collector.openSlotLocked
    split
    · exact Nat.le_succ _
    · split <;> exact Nat.le_succ _
  | startCapture options now allocFails =>
    dsimp only at hs
    split at hs <;> cases hs
    unfold Collector.startCapture
    split
    · exact ⟨Or.inl h, Nat.le_succ _⟩
    · split
      · exact ⟨Or.inl h, Nat.le_succ _⟩
      · exact ⟨Or.inl (h.same rfl rfl), Nat.le_succ _⟩
  | stopCapture c | abortCapture c =>
    dsimp only at hs
    split at hs <;> cases hs
    obtain ⟨-, -, hslots, hnext, htickets⟩ := s.endCapture_same c _
    exact ⟨Or.inl (h.same hnext (by rw [hslots])), by rw [htickets]; exact Nat.le_succ _⟩
  | control =>
    obtain ⟨-, -, hslots, hnext, htickets⟩ := Collector.controlStep_same hs
    exact ⟨Or.inl (h.same hnext hslots), by rw [htickets]; exact Nat.le_succ _⟩
  | stopFails =>
    obtain ⟨rfl, -⟩ := Collector.stopFails_eq hs
    exact ⟨Or.inl (h.same rfl rfl), Nat.le_succ _⟩
  | emit slot category event =>
    dsimp only at hs
    split at hs <;> cases hs
    exact ⟨Or.inl (h.same rfl rfl), Nat.le_succ _⟩
  | emission i now =>
    obtain ⟨e, hi, hs⟩ := Option.bind_eq_some_iff.mp hs
    have heffect := emitEffect_of_step hs
    obtain ⟨hnext, hslots⟩ := heffect.producers
    obtain ⟨pc, -, htickets⟩ := heffect.emissions
    refine ⟨Or.inl (h.same hnext (by rw [hslots])), ?_⟩
    split at htickets <;> split at htickets <;> omega

theorem numbered_run {as : List Label} (hr : Collector.machine.run {} as = some s) :
    (∃ k ≤ as.length, Numbered s k) ∧ s.tickets.length ≤ as.length := by
  have hrun : ∀ (as : List Label) (s₀ : Collector) (k : Nat), Numbered s₀ k →
      Collector.machine.run s₀ as = some s →
      (∃ k' ≤ k + as.length, Numbered s k') ∧
        s.tickets.length ≤ s₀.tickets.length + as.length := by
    intro as
    induction as with
    | nil =>
      intro s₀ k h hr
      cases hr
      exact ⟨⟨k, Nat.le_refl _, h⟩, Nat.le_refl _⟩
    | cons a as ih =>
      intro s₀ k h hr
      obtain ⟨s₁, hs, hr⟩ := Option.bind_eq_some_iff.mp hr
      obtain ⟨hk, htickets⟩ := h.step hs
      simp only [List.length_cons]
      obtain hk | hk := hk
      · obtain ⟨⟨k', hle, hk'⟩, hlength⟩ := ih s₁ k hk hr
        exact ⟨⟨k', by omega, hk'⟩, by omega⟩
      · obtain ⟨⟨k', hle, hk'⟩, hlength⟩ := ih s₁ (k + 1) hk hr
        exact ⟨⟨k', by omega, hk'⟩, by omega⟩
  obtain ⟨⟨k, hle, hk⟩, hlength⟩ := hrun as {} 0 numbered_new hr
  exact ⟨⟨k, by omega, hk⟩, by simpa using hlength⟩

theorem Numbered.nodup {k : Nat} (h : Numbered s k) (hk : k < 2 ^ 64) :
    (s.slots.map (·.producerId)).Nodup := by
  obtain ⟨ids, hids, hsorted, hle⟩ := h.ids
  rw [hids]
  refine List.Nodup.map_on (fun id hid id' hid' heq => ?_) (hsorted.imp Nat.ne_of_lt)
  have hnat := congrArg UInt64.toNat heq
  have hlt := hle id hid
  have hlt' := hle id' hid'
  rwa [toNat_ofNat (by omega), toNat_ofNat (by omega)] at hnat

/-! ## One order -/

instance before_total : Std.Total fun a b : TraceEvent => eventBefore b a = false :=
  ⟨fun a b => by
    simp only [Bool.eq_false_iff, ne_eq, eventBefore_iff]
    omega⟩

instance before_trans : IsTrans TraceEvent fun a b => eventBefore b a = false :=
  ⟨fun a b c => by
    simp only [Bool.eq_false_iff, ne_eq, eventBefore_iff]
    omega⟩

/-- Events that compare equal have the same producer and sequence number. -/
theorem key_of_not_before {a b : TraceEvent} (h : eventBefore a b = false)
    (h' : eventBefore b a = false) :
    a.producerId = b.producerId ∧ a.localSequence = b.localSequence := by
  simp only [Bool.eq_false_iff, ne_eq, eventBefore_iff] at h h'
  exact ⟨UInt64.toNat_inj.mp (by omega), UInt64.toNat_inj.mp (by omega)⟩

/-- The producer and the sequence number of an event. -/
def eventKey (ev : TraceEvent) : UInt64 × UInt64 := (ev.producerId, ev.localSequence)

/-- Where no two events have the same producer and sequence number, sorting has one result. -/
theorem ordered_unique {data data' : TraceSnapshotData} (hperm : data'.events.Perm data.events)
    (hkeys : (data.events.map eventKey).Nodup) :
    traceOrderedEvents (some data') = traceOrderedEvents (some data) := by
  have hsorted := traceOrderedEvents_perm (some data)
  have hsorted' := traceOrderedEvents_perm (some data')
  refine List.Perm.eq_of_pairwise (fun a b ha hb hab hba => ?_)
    (List.pairwise_insertionSort (fun a b => eventBefore b a = false) _)
    (List.pairwise_insertionSort (fun a b => eventBefore b a = false) _)
    ((hsorted'.trans hperm).trans hsorted.symm)
  obtain ⟨hproducer, hsequence⟩ := key_of_not_before hba hab
  exact List.inj_on_of_nodup_map hkeys (hperm.subset (hsorted'.subset ha)) (hsorted.subset hb)
    (Prod.ext hproducer hsequence)

/-! ## Snapshots -/

variable {n : Snapshot}

/-- An event of a snapshot has a place in the buffer of a part. -/
theorem mem_events (h : Inv s) (hn : SnapshotOk s n) {ev : TraceEvent}
    (hev : ev ∈ n.data.events) :
    ∃ p ∈ n.parts, ∃ k r, p.events[k]? = some (some r) ∧ ev = r.event ∧
      ev.localSequence = UInt64.ofNat k ∧ ev.producerId = p.report.producerId := by
  obtain ⟨p, hp, hev⟩ := List.mem_flatMap.mp hev
  obtain ⟨o, ho, rfl⟩ := List.mem_map.mp hev
  obtain ⟨k, hk⟩ := List.mem_iff_getElem?.mp ho
  obtain ⟨b, -, hexact⟩ := hn.partExact h hp
  obtain ⟨r, hr, hsequence, hproducer, -⟩ :=
    hexact.sequence k (List.getElem?_eq_some_iff.mp hk).1
  obtain rfl : o = some r := Option.some.inj (hk.symm.trans hr)
  exact ⟨p, hp, k, r, hr, rfl, hsequence, hproducer⟩

/-- The parts of a snapshot have producers of their own. -/
theorem part_eq_of_producer (h : Inv s) (hn : SnapshotOk s n)
    (hnodup : (s.slots.map (·.producerId)).Nodup) {p p' : Part} (hp : p ∈ n.parts)
    (hp' : p' ∈ n.parts) (heq : p.report.producerId = p'.report.producerId) : p = p' := by
  obtain ⟨b, hb, hexact⟩ := hn.partExact h hp
  obtain ⟨b', hb', hexact'⟩ := hn.partExact h hp'
  obtain ⟨slot, hslot, hreport⟩ := hexact.report
  obtain ⟨slot', hslot', hreport'⟩ := hexact'.report
  have howner : b.owner = b'.owner := by
    refine (List.getElem?_inj ?_ hnodup).mp ?_
    · rw [List.length_map]
      exact (List.getElem?_eq_some_iff.mp hslot).1
    · rw [List.getElem?_map, List.getElem?_map, hslot, hslot']
      rw [hreport, hreport'] at heq
      exact congrArg some heq
  have hbuffer : p.buffer = p'.buffer :=
    h.slots.unique _ _ b b' hb hb' (hexact.generation.trans hexact'.generation.symm) howner
  obtain ⟨k, htaken, -⟩ := hn.taken
  exact List.inj_on_of_nodup_map htaken.distinct hp hp' hbuffer

/-- The events of a part are numbered from 0 on. -/
theorem data_keys (h : Inv s) (hn : SnapshotOk s n) :
    n.data.events.map eventKey = n.parts.flatMap fun p =>
      (List.range p.events.length).map fun k => (p.report.producerId, UInt64.ofNat k) := by
  unfold Snapshot.data
  simp only [List.map_flatMap, List.map_map]
  refine List.flatMap_congr fun p hp => ?_
  obtain ⟨b, -, hexact⟩ := hn.partExact h hp
  refine List.ext_getElem? fun k => ?_
  by_cases hk : k < p.events.length
  · obtain ⟨r, hr, hsequence, hproducer, -⟩ := hexact.sequence k hk
    rw [List.getElem?_map, List.getElem?_map, hr, List.getElem?_range hk]
    exact congrArg some (Prod.ext hproducer hsequence)
  · simp [hk]

/-- The keys of a snapshot are pairwise different: parts differ in the producer, and the events
of one part in the sequence number. -/
theorem keys_nodup (h : Inv s) (hn : SnapshotOk s n)
    (hnodup : (s.slots.map (·.producerId)).Nodup) (hfits : s.tickets.length < 2 ^ 64) :
    (n.data.events.map eventKey).Nodup := by
  obtain ⟨k, htaken, -⟩ := hn.taken
  rw [data_keys h hn]
  refine List.nodup_flatMap.mpr ⟨fun p hp => ?_, ?_⟩
  · obtain ⟨B, -, hexact⟩ := hn.partExact h hp
    have hlength : p.events.length ≤ s.tickets.length := by
      have hrecorded := hexact.recorded
      have hle : s.ticketsOf p.buffer ≤ s.tickets.length := List.countP_le_length
      omega
    refine List.Nodup.map_on (fun i hi j hj heq => ?_) List.nodup_range
    have hi := List.mem_range.mp hi
    have hj := List.mem_range.mp hj
    have hnat := congrArg UInt64.toNat (congrArg Prod.snd heq)
    rwa [toNat_ofNat (by omega), toNat_ofNat (by omega)] at hnat
  · refine (List.Nodup.of_map _ htaken.distinct).imp_of_mem fun {p p'} hp hp' hne => ?_
    intro key hkey hkey'
    obtain ⟨_, -, rfl⟩ := List.mem_map.mp hkey
    obtain ⟨_, -, heq⟩ := List.mem_map.mp hkey'
    exact hne (part_eq_of_producer h hn hnodup hp hp' (congrArg Prod.fst heq).symm)

/-- **The text of an export does not depend on the order of the buffers**: the keys of the
events are pairwise different, so that however the events are put together, they are sorted in
one way, and `write_chrome_trace` writes the same and returns the same. -/
theorem export_canonical {as : List Label} (hr : Collector.machine.run {} as = some s)
    (hlength : as.length < 2 ^ 64) (hn : n ∈ s.snapshots) {events : List TraceEvent}
    (hperm : events.Perm n.data.events) (out : OStream) (prettyPrint : Bool) :
    (n.data.events.map eventKey).Nodup ∧
      traceOrderedEvents (some { n.data with events := events }) =
        traceOrderedEvents (some n.data) ∧
      writeChromeTrace (some { n.data with events := events }) out prettyPrint =
        writeChromeTrace (some n.data) out prettyPrint := by
  have hinv := inv_of_reachable (Machine.reachable_of_run rfl hr)
  obtain ⟨⟨k, hk, hnumbered⟩, htickets⟩ := numbered_run hr
  have hkeys := keys_nodup hinv (hinv.snapshots n hn) (hnumbered.nodup (by omega)) (by omega)
  have hordered : traceOrderedEvents (some { n.data with events := events }) =
      traceOrderedEvents (some n.data) := ordered_unique hperm hkeys
  refine ⟨hkeys, hordered, ?_⟩
  unfold writeChromeTrace
  simp only [hordered]
  rfl

theorem stored_valid (h : Inv s) (hsound : Sound s) (hn : SnapshotOk s n) {ev : TraceEvent}
    (hev : ev ∈ n.data.events) : validateEvent ev = .ok () := by
  obtain ⟨p, hp, k, r, hr, rfl, -⟩ := mem_events h hn hev
  obtain ⟨b, hb, hexact⟩ := hn.partExact h hp
  refine hsound.stored b (List.mem_of_getElem? hb) r ?_
  rw [hexact.unchanged.1]
  exact List.mem_append_left _ (List.mem_of_getElem? hr)

/-- The losses of a snapshot as its reports have them. -/
theorem dropSum_data (h : Inv s) (hn : SnapshotOk s n) :
    dropSum n.data.producers % 2 ^ 64 = (n.parts.map (·.dropped)).sum % 2 ^ 64 := by
  have hreports (p : Part) (hp : p ∈ n.parts) :
      p.report.droppedEvents.toNat = p.dropped % 2 ^ 64 := by
    obtain ⟨b, -, hexact⟩ := hn.partExact h hp
    obtain ⟨slot, -, hreport⟩ := hexact.report
    rw [hreport, ← hexact.unchanged.2]
    exact UInt64.toNat_ofNat'
  unfold dropSum Snapshot.data
  rw [List.map_map, List.sum_nat_mod (n.parts.map (·.dropped)), List.map_map]
  refine congrArg (· % 2 ^ 64) (congrArg List.sum (List.map_congr_left fun p hp => ?_))
  exact hreports p hp

/-- **What is captured can be exported**: the writer rejects no event that `emit_wait_event` has
stored, and what it reports as recorded and as dropped are together the emissions that have drawn
a ticket of the snapshot's buffers. -/
theorem capture_exports (h : Collector.machine.ReachableUnder waitEvents s)
    (hn : n ∈ s.snapshots) (out : OStream) (hgood : out.good) (prettyPrint : Bool) :
    ∃ result out', writeChromeTrace (some n.data) out prettyPrint = .ok (result, out') ∧
      result.recordedEvents = UInt64.ofNat (n.parts.map (·.events.length)).sum ∧
      result.recordedEvents + result.droppedEvents =
        UInt64.ofNat (n.parts.map fun p => s.ticketsOf p.buffer).sum := by
  have hinv := inv_of_reachable h.reachable
  have hok := hinv.snapshots n hn
  have hordered := traceOrderedEvents_perm (some n.data)
  have hvalid : validate (traceOrderedEvents (some n.data)) = .ok () := validate_ok
    fun ev hev => stored_valid hinv (sound_of_reachable h) hok (hordered.subset hev)
  have hrecorded : (traceOrderedEvents (some n.data)).length =
      (n.parts.map (·.events.length)).sum := by
    refine hordered.length_eq.trans ?_
    simp [TraceSnapshot.events, Snapshot.data, List.length_flatMap]
  refine ⟨(chromeTraceText n.data (traceOrderedEvents (some n.data)) prettyPrint).2,
    { out with written := out.written ++
      (chromeTraceText n.data (traceOrderedEvents (some n.data)) prettyPrint).1 }, ?_, ?_, ?_⟩
  · unfold writeChromeTrace
    simp only [hvalid, hgood, if_true]
    rfl
  · exact congrArg UInt64.ofNat hrecorded
  · have haccounted : (n.parts.map (·.events.length)).sum + (n.parts.map (·.dropped)).sum =
        (n.parts.map fun p => s.ticketsOf p.buffer).sum := by
      rw [← List.sum_map_add]
      refine congrArg List.sum (List.map_congr_left fun p hp => ?_)
      obtain ⟨b, -, hexact⟩ := hok.partExact hinv hp
      exact hexact.accounted
    have hdropped := droppedTotal_toNat n.data.producers
    rw [dropSum_data hinv hok] at hdropped
    refine UInt64.toNat_inj.mp ?_
    change (UInt64.ofNat (traceOrderedEvents (some n.data)).length +
      droppedTotal n.data.producers).toNat = _
    rw [hrecorded, UInt64.toNat_add, hdropped, UInt64.toNat_ofNat', UInt64.toNat_ofNat',
      ← haccounted]
    omega

/-- A task of runtime 1 waits for another. -/
def waitBegin (slot : Nat) : Emission :=
  traceEmitDesc slot
    (RuntimeDiagnostics.waitDesc { runtimeId := ⟨1⟩ } .waitBegin ⟨⟨1⟩, 1⟩ ⟨⟨1⟩, 2⟩ {})

/-- Two workers begin a wait at the same time while a capture records. -/
def captureOfWaits : List Label :=
  ([.openSlot .worker ⟨1⟩ 0 false, .openSlot .worker ⟨1⟩ 1 false,
    .startCapture ⟨2, 1, 1, 0x3F7⟩ 0 false, .control, .control, .control,
    .emit 0 (waitBegin 0).category (waitBegin 0).event,
    .emit 1 (waitBegin 1).category (waitBegin 1).event] : List Label) ++
    (List.replicate 8 (.emission 0 5) : List Label) ++
    (List.replicate 8 (.emission 1 5) : List Label) ++
    (.stopCapture 0 :: List.replicate 14 .control : List Label)

theorem everyStep_of_labels {as : List Label} (h : ∀ a ∈ as, ∀ s, waitEvents s a)
    (s : Collector) : Collector.machine.EveryStep waitEvents s as := by
  induction as generalizing s with
  | nil => trivial
  | cons a as ih =>
    exact ⟨h a List.mem_cons_self s, fun s' _ =>
      ih (fun b hb => h b (List.mem_cons_of_mem a hb)) s'⟩

theorem waitEvents_captureOfWaits : ∀ a ∈ captureOfWaits, ∀ s, waitEvents s a := by
  intro a ha s
  have hemit (slot : Nat) :
      waitEvents s (.emit slot (waitBegin slot).category (waitBegin slot).event) :=
    ⟨{ runtimeId := ⟨1⟩ }, .waitBegin, ⟨⟨1⟩, 1⟩, ⟨⟨1⟩, 2⟩, {}, by decide, by decide,
      ⟨by decide, by decide⟩, rfl⟩
  simp only [captureOfWaits, List.mem_append, List.mem_cons, List.mem_replicate,
    List.not_mem_nil, or_false] at ha
  rcases ha with (((rfl | rfl | rfl | rfl | rfl | rfl | rfl | rfl) | ⟨-, rfl⟩) | ⟨-, rfl⟩) | rfl |
    ⟨-, rfl⟩
  all_goals first | exact hemit _ | trivial

theorem capture_exports_captureOfWaits :
    ∃ s n result out, Collector.machine.run {} captureOfWaits = some s ∧ n ∈ s.snapshots ∧
      writeChromeTrace (some n.data) {} false = .ok (result, out) ∧ result.recordedEvents = 2 := by
  obtain ⟨s, hs⟩ := Option.isSome_iff_exists.mp
    (show (Collector.machine.run {} captureOfWaits).isSome by decide)
  have hend : (Collector.machine.run {} captureOfWaits).bind (fun s =>
      s.snapshots[0]?.map fun n : Snapshot => (n.parts.map (·.events.length)).sum) =
        some 2 := by decide
  rw [hs, Option.bind_some] at hend
  obtain ⟨n, hn, htwo⟩ := Option.map_eq_some_iff.mp hend
  have hmem := List.mem_of_getElem? hn
  have hnew : Collector.machine.ReachableUnder waitEvents {} := .initial rfl
  have hreach := hnew.run (everyStep_of_labels waitEvents_captureOfWaits {}) hs
  obtain ⟨result, out, hwrite, hrecorded, -⟩ := capture_exports hreach hmem {} rfl false
  rw [htwo] at hrecorded
  exact ⟨s, n, result, out, hs, hmem, hwrite, hrecorded⟩

theorem export_canonical_captureOfWaits :
    ∃ s n, Collector.machine.run {} captureOfWaits = some s ∧ n ∈ s.snapshots ∧
      n.data.events.length = 2 ∧
      traceOrderedEvents (some { n.data with events := n.data.events.reverse }) =
        traceOrderedEvents (some n.data) ∧
      writeChromeTrace (some { n.data with events := n.data.events.reverse }) {} true =
        writeChromeTrace (some n.data) {} true := by
  obtain ⟨s, hs⟩ := Option.isSome_iff_exists.mp
    (show (Collector.machine.run {} captureOfWaits).isSome by decide)
  have hend : (Collector.machine.run {} captureOfWaits).bind (fun s =>
      s.snapshots[0]?.map fun n : Snapshot => n.data.events.length) = some 2 := by decide
  rw [hs, Option.bind_some] at hend
  obtain ⟨n, hn, htwo⟩ := Option.map_eq_some_iff.mp hend
  have hmem := List.mem_of_getElem? hn
  exact ⟨s, n, hs, hmem, htwo,
    (export_canonical hs (by decide) hmem (List.reverse_perm _) {} true).2⟩

end CaptureExport
end AstraScheduler
