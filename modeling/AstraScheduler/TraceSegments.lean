import AstraScheduler.TraceDecode

/-! # Which segments an export shows

The writer pairs each segment end with a start of the same producer, runtime and task.  The
map that it keeps for this holds the starts that are open: the latest start of a key, unless an
end of the key has come since.  In the order of `trace_ordered_events` no start is later than
what follows it, so an end takes the open start of its key, and shows a gap only if there is
none. -/

namespace AstraScheduler.Trace

/-! ## The order of the events -/

/-- The comparison by numbers: time, producer, sequence. -/
theorem eventBefore_iff (a b : TraceEvent) : eventBefore a b = true ↔
    a.timestampNs.toNat < b.timestampNs.toNat ∨
      a.timestampNs.toNat = b.timestampNs.toNat ∧
        (a.producerId.toNat < b.producerId.toNat ∨
          a.producerId.toNat = b.producerId.toNat ∧
            a.localSequence.toNat < b.localSequence.toNat) := by
  unfold eventBefore
  simp only [ne_eq, ← UInt64.toNat_inj, ite_not, UInt64.lt_iff_toNat_lt]
  split_ifs <;> simp only [decide_eq_true_eq] <;> omega

theorem ordered_by_time (snapshot : TraceSnapshot) :
    (traceOrderedEvents snapshot).Pairwise fun a b =>
      a.timestampNs.toNat ≤ b.timestampNs.toNat := by
  have htotal : Std.Total fun a b : TraceEvent => eventBefore b a = false := by
    refine ⟨fun a b => ?_⟩
    simp only [Bool.eq_false_iff, ne_eq, eventBefore_iff]
    omega
  have htrans : IsTrans TraceEvent fun a b => eventBefore b a = false := by
    refine ⟨fun a b c => ?_⟩
    simp only [Bool.eq_false_iff, ne_eq, eventBefore_iff]
    omega
  refine (List.pairwise_insertionSort _ _).imp ?_
  intro a b h
  simp only [Bool.eq_false_iff, ne_eq, eventBefore_iff] at h
  omega

/-! ## Open starts -/

/-- The event at position `i` starts a segment of this key. -/
def StartsAt (events : List TraceEvent) (key : SegmentKey) (i : Nat) : Prop :=
  ∃ ev, events[i]? = some ev ∧ isSegmentStartKind ev.kind ∧ ev.segmentKey = key

/-- The event at position `i` ends a segment of this key. -/
def EndsAt (events : List TraceEvent) (key : SegmentKey) (i : Nat) : Prop :=
  ∃ ev, events[i]? = some ev ∧ isSegmentEndKind ev.kind ∧ ev.segmentKey = key

/-- The latest start of a key in front of position `j`. -/
structure LatestStart (events : List TraceEvent) (key : SegmentKey) (i j : Nat) : Prop where
  before : i < j
  starts : StartsAt events key i
  latest : ∀ k, i < k → k < j → ¬ StartsAt events key k

/-- No segment of the key has ended since. -/
structure OpenStart (events : List TraceEvent) (key : SegmentKey) (i j : Nat) : Prop
    extends LatestStart events key i j where
  unused : ∀ k, i < k → k < j → ¬ EndsAt events key k

variable {events : List TraceEvent} {key : SegmentKey} {i j : Nat}

theorem LatestStart.unique {i' : Nat} (h : LatestStart events key i j)
    (h' : LatestStart events key i' j) : i = i' := by
  rcases Nat.lt_trichotomy i i' with hlt | heq | hgt
  · exact absurd h'.starts (h.latest i' hlt h'.before)
  · exact heq
  · exact absurd h.starts (h'.latest i hgt h.before)

/-- The start that is open one event later. -/
theorem openStart_succ : OpenStart events key i (j + 1) ↔
    i = j ∧ StartsAt events key j ∨
      OpenStart events key i j ∧ ¬ StartsAt events key j ∧ ¬ EndsAt events key j := by
  constructor
  · intro h
    have hle := Nat.le_of_lt_succ h.before
    rcases Nat.lt_or_eq_of_le hle with hlt | rfl
    · refine .inr ⟨⟨⟨hlt, h.starts, fun k hik hkj => h.latest k hik (by omega)⟩,
        fun k hik hkj => h.unused k hik (by omega)⟩, ?_, ?_⟩
      · exact h.latest j hlt (by omega)
      · exact h.unused j hlt (by omega)
    · exact .inl ⟨rfl, h.starts⟩
  · rintro (⟨rfl, hstarts⟩ | ⟨h, hnostart, hnoend⟩)
    · exact ⟨⟨by omega, hstarts, fun k hik hkj => by omega⟩, fun k hik hkj => by omega⟩
    · refine ⟨⟨by have := h.before; omega, h.starts, fun k hik hkj => ?_⟩, fun k hik hkj => ?_⟩
      · rcases Nat.lt_or_eq_of_le (Nat.le_of_lt_succ hkj) with hlt | rfl
        · exact h.latest k hik hlt
        · exact hnostart
      · rcases Nat.lt_or_eq_of_le (Nat.le_of_lt_succ hkj) with hlt | rfl
        · exact h.unused k hik hlt
        · exact hnoend

/-! ## The map of the writer -/

/-- The map `segment_start` behind some events. -/
def startsBehind (events : List TraceEvent) : SegmentStarts :=
  events.foldl (fun starts ev => (phaseOf starts ev).2) fun _ => none

theorem not_start_of_end {kind : UInt16} (hend : isSegmentEndKind kind) :
    isSegmentStartKind kind = false := by
  simp only [isSegmentEndKind, Bool.or_eq_true, beq_iff_eq] at hend
  rcases hend with rfl | rfl <;> decide

def Phase.isDuration : Phase → Bool
  | .duration _ => true
  | .gap | .flowStart | .flowFinish | .instant => false

def Phase.isGap (phase : Phase) : Bool := phase = .gap

/-- A segment end takes the open start of its key. -/
theorem phaseOf_end {starts : SegmentStarts} {ev : TraceEvent} (hend : isSegmentEndKind ev.kind)
    (hle : ∀ t, starts ev.segmentKey = some t → t ≤ ev.timestampNs) :
    phaseOf starts ev =
      ((match starts ev.segmentKey with
        | some start => .duration start
        | none => .gap), Function.update starts ev.segmentKey none) := by
  unfold phaseOf
  simp only [not_start_of_end hend, hend, if_true, Bool.false_eq_true, if_false]
  cases hopen : starts ev.segmentKey with
  | none =>
    have hsame : Function.update starts ev.segmentKey none = starts := by
      rw [← hopen, Function.update_eq_self]
    rw [hsame]
  | some start => exact if_pos (hle start hopen)

/-- Any other event is no duration and no gap; a start is recorded. -/
theorem phaseOf_other (starts : SegmentStarts) {ev : TraceEvent}
    (hend : isSegmentEndKind ev.kind = false) :
    (phaseOf starts ev).1.isDuration = false ∧ (phaseOf starts ev).1.isGap = false ∧
      (phaseOf starts ev).2 =
        if isSegmentStartKind ev.kind then
          Function.update starts ev.segmentKey (some ev.timestampNs)
        else starts := by
  unfold phaseOf
  simp only [hend, Bool.false_eq_true, if_false]
  split
  · exact ⟨rfl, rfl, rfl⟩
  · split <;> exact ⟨rfl, rfl, rfl⟩

/-- What an event does to the entry of a key. -/
theorem phaseOf_map {starts : SegmentStarts} {ev : TraceEvent}
    (hle : ∀ t, starts ev.segmentKey = some t → t ≤ ev.timestampNs) (key : SegmentKey) :
    (phaseOf starts ev).2 key =
      if ev.segmentKey = key then
        if isSegmentEndKind ev.kind then none
        else if isSegmentStartKind ev.kind then some ev.timestampNs
        else starts key
      else starts key := by
  by_cases hend : isSegmentEndKind ev.kind
  · rw [phaseOf_end hend hle, if_pos hend]
    dsimp only
    rw [Function.update_apply]
    exact ite_congr (propext eq_comm) (fun _ => rfl) fun _ => rfl
  · rw [(phaseOf_other starts (eq_false_of_ne_true hend)).2.2, if_neg hend]
    by_cases hstart : isSegmentStartKind ev.kind
    · rw [if_pos hstart, if_pos hstart, Function.update_apply]
      exact ite_congr (propext eq_comm) (fun _ => rfl) fun _ => rfl
    · rw [if_neg hstart, if_neg hstart, ite_self]

/-- The time recorded at a position. -/
def timeAt (events : List TraceEvent) (i : Nat) : Option UInt64 :=
  (events[i]?).map (·.timestampNs)

theorem timeAt_le {events : List TraceEvent}
    (hordered : events.Pairwise fun a b => a.timestampNs.toNat ≤ b.timestampNs.toNat)
    {i j : Nat} (hij : i < j) {t u : UInt64} (ht : timeAt events i = some t)
    (hu : timeAt events j = some u) : t ≤ u := by
  obtain ⟨a, ha, rfl⟩ := Option.map_eq_some_iff.mp ht
  obtain ⟨b, hb, rfl⟩ := Option.map_eq_some_iff.mp hu
  obtain ⟨hi, rfl⟩ := List.getElem?_eq_some_iff.mp ha
  obtain ⟨hj, rfl⟩ := List.getElem?_eq_some_iff.mp hb
  exact UInt64.le_iff_toNat_le.mpr (List.pairwise_iff_getElem.mp hordered i j hi hj hij)

theorem startsBehind_succ {ev : TraceEvent} (hget : events[j]? = some ev) :
    startsBehind (events.take (j + 1)) = (phaseOf (startsBehind (events.take j)) ev).2 := by
  rw [startsBehind, List.take_add_one, hget]
  exact List.foldl_concat ..

/-- **What the map holds** in front of position `j`: the open starts. -/
theorem startsBehind_iff
    (hordered : events.Pairwise fun a b => a.timestampNs.toNat ≤ b.timestampNs.toNat)
    (hj : j ≤ events.length) (key : SegmentKey) (t : UInt64) :
    startsBehind (events.take j) key = some t ↔
      ∃ i, OpenStart events key i j ∧ timeAt events i = some t := by
  induction j generalizing key t with
  | zero =>
    refine iff_of_false (fun h => by cases h) ?_
    rintro ⟨i, hopen, -⟩
    exact absurd hopen.before (Nat.not_lt_zero i)
  | succ j ih =>
    have ih := ih (Nat.le_of_succ_le hj)
    have hget : events[j]? = some events[j] := List.getElem?_eq_getElem hj
    have htime : timeAt events j = some events[j].timestampNs := by
      rw [timeAt, hget]
      rfl
    have hle : ∀ u, startsBehind (events.take j) events[j].segmentKey = some u →
        u ≤ events[j].timestampNs := by
      intro u hu
      obtain ⟨i, hopen, hi⟩ := (ih _ _).mp hu
      exact timeAt_le hordered hopen.before hi htime
    have hstarts : StartsAt events key j ↔
        isSegmentStartKind events[j].kind ∧ events[j].segmentKey = key := by
      simp [StartsAt, hget]
    have hends : EndsAt events key j ↔
        isSegmentEndKind events[j].kind ∧ events[j].segmentKey = key := by
      simp [EndsAt, hget]
    simp only [startsBehind_succ hget, phaseOf_map hle, openStart_succ, hstarts, hends]
    by_cases hkey : events[j].segmentKey = key
    case pos =>
      by_cases hend : isSegmentEndKind events[j].kind
      · -- the end closes the segment: nothing of this key is open
        simp [hkey, hend, not_start_of_end hend]
      · by_cases hstart : isSegmentStartKind events[j].kind
        · simp [hkey, hend, hstart, htime]
        · simp [hkey, hend, hstart, ih]
    case neg => simp [hkey, ih]

/-! ## What is shown -/

theorem shownEvents_getElem? (starts : SegmentStarts) (events : List TraceEvent) (j : Nat) :
    (shownEvents starts events)[j]? = (events[j]?).map fun ev =>
      ((phaseOf ((events.take j).foldl (fun starts ev => (phaseOf starts ev).2) starts) ev).1,
        ev) := by
  induction events generalizing starts j with
  | nil => rfl
  | cons ev events ih =>
    cases j with
    | zero => rfl
    | succ j =>
      rw [shownEvents, List.getElem?_cons_succ, ih]
      rfl

/-- An exported event is a duration if it ends a segment whose start is open, and shows the
time of that start. -/
theorem shown_duration_iff
    (hordered : events.Pairwise fun a b => a.timestampNs.toNat ≤ b.timestampNs.toNat)
    {start : UInt64} {ev : TraceEvent} :
    (shownEvents (fun _ => none) events)[j]? = some (.duration start, ev) ↔
      events[j]? = some ev ∧ isSegmentEndKind ev.kind ∧
        ∃ i, OpenStart events ev.segmentKey i j ∧ timeAt events i = some start := by
  rw [shownEvents_getElem?]
  cases hget : events[j]? with
  | none => simp
  | some ev' =>
    obtain ⟨hj, hev⟩ := List.getElem?_eq_some_iff.mp hget
    have hmap := startsBehind_iff hordered (Nat.le_of_lt hj)
    have hle : ∀ t, startsBehind (events.take j) ev'.segmentKey = some t → t ≤ ev'.timestampNs := by
      intro t ht
      obtain ⟨i, hopen, hi⟩ := (hmap _ _).mp ht
      exact timeAt_le hordered hopen.before hi (by rw [timeAt, hget]; rfl)
    rw [Option.map_some, Option.some.injEq, Prod.mk.injEq, Option.some.injEq]
    change (phaseOf (startsBehind (events.take j)) ev').1 = _ ∧ _ ↔ _
    by_cases hend : isSegmentEndKind ev'.kind
    · rw [phaseOf_end hend hle]
      constructor
      · rintro ⟨hphase, rfl⟩
        refine ⟨rfl, hend, (hmap _ _).mp ?_⟩
        cases hopen : startsBehind (events.take j) ev'.segmentKey with
        | none => simp [hopen] at hphase
        | some t => simpa [hopen] using hphase
      · rintro ⟨rfl, -, hopen⟩
        rw [(hmap _ _).mpr hopen]
        exact ⟨rfl, rfl⟩
    · have hno := (phaseOf_other (startsBehind (events.take j)) (eq_false_of_ne_true hend)).1
      refine iff_of_false ?_ ?_
      · rintro ⟨hphase, -⟩
        rw [hphase] at hno
        cases hno
      · rintro ⟨rfl, hyes, -⟩
        exact hend hyes

/-- Every segment end is a duration or a gap, and nothing else is. -/
theorem phaseOf_count (starts : SegmentStarts) (ev : TraceEvent) :
    (if (phaseOf starts ev).1.isDuration then 1 else 0) +
        (if (phaseOf starts ev).1.isGap then 1 else 0) =
      if isSegmentEndKind ev.kind then 1 else 0 := by
  by_cases hend : isSegmentEndKind ev.kind
  · unfold phaseOf
    generalize (if isSegmentStartKind ev.kind then _ else starts) = recorded
    simp only [hend, if_true]
    split
    · split <;> rfl
    · rfl
  · obtain ⟨hduration, hgap, -⟩ := phaseOf_other starts (eq_false_of_ne_true hend)
    rw [hduration, hgap, eq_false_of_ne_true hend]
    rfl

theorem shownEvents_count (starts : SegmentStarts) (events : List TraceEvent) :
    (shownEvents starts events).countP (·.1.isDuration) +
      (shownEvents starts events).countP (·.1.isGap) =
      events.countP (isSegmentEndKind ·.kind) := by
  induction events generalizing starts with
  | nil => rfl
  | cons ev events ih =>
    have hone := phaseOf_count starts ev
    have hrest := ih (phaseOf starts ev).2
    rw [shownEvents, List.countP_cons, List.countP_cons, List.countP_cons]
    dsimp only at hone hrest ⊢
    omega

/-- The writer counts the gaps, in a 64-bit number. -/
theorem exportEvents_schemaGaps (sep json : List Char) (events : List TraceEvent) :
    (exportEvents sep json events).schemaGaps =
      UInt64.ofNat ((shownEvents (fun _ => none) events).countP (·.1.isGap)) := by
  have hfold : ∀ (st : ExportState) (events : List TraceEvent),
      (events.foldl (exportEvent sep) st).schemaGaps = st.schemaGaps +
        UInt64.ofNat ((shownEvents st.segmentStart events).countP (·.1.isGap)) := by
    intro st events
    induction events generalizing st with
    | nil => simp [shownEvents]
    | cons ev events ih =>
      rw [List.foldl_cons, ih, shownEvents, List.countP_cons]
      by_cases hgap : (phaseOf st.segmentStart ev).1 = .gap
      · simp [exportEvent, hgap, Phase.isGap, UInt64.ofNat_add, UInt64.add_comm, UInt64.add_assoc]
      · simp [exportEvent, hgap, Phase.isGap]
  rw [exportEvents, hfold]
  exact UInt64.zero_add _

/-- The start of a segment end is found if it is open there. -/
def EveryEndFound (events : List TraceEvent) : Prop :=
  ∀ j ev, events[j]? = some ev → isSegmentEndKind ev.kind →
    ∃ i, OpenStart events ev.segmentKey i j

/-- Gaps are the ends that find no start. -/
theorem no_gap_iff
    (hordered : events.Pairwise fun a b => a.timestampNs.toNat ≤ b.timestampNs.toNat) :
    (shownEvents (fun _ => none) events).countP (·.1.isGap) = 0 ↔ EveryEndFound events := by
  have hphase : ∀ (j : Nat) (ev : TraceEvent), events[j]? = some ev → ∃ phase : Phase,
      (shownEvents (fun _ => none) events)[j]? = some (phase, ev) ∧
        ((if phase.isDuration then 1 else 0) + (if phase.isGap then 1 else 0) =
          if isSegmentEndKind ev.kind then 1 else 0) := by
    intro j ev hget
    rw [shownEvents_getElem?, hget]
    exact ⟨_, rfl, phaseOf_count _ ev⟩
  rw [List.countP_eq_zero]
  constructor
  · intro hnone j ev hget hend
    obtain ⟨phase, hshown, hcount⟩ := hphase j ev hget
    have hnogap := hnone _ (List.mem_of_getElem? hshown)
    rw [if_neg hnogap, if_pos hend] at hcount
    cases phase with
    | duration start =>
      obtain ⟨-, -, i, hopen, -⟩ := (shown_duration_iff hordered).mp hshown
      exact ⟨i, hopen⟩
    | gap | flowStart | flowFinish | instant => cases hcount
  · rintro hfound ⟨phase, ev⟩ hshown hgap
    obtain ⟨j, hj⟩ := List.mem_iff_getElem?.mp hshown
    have hget : events[j]? = some ev := by
      rw [← shownEvents_snd (fun _ => none) events, List.getElem?_map, hj]
      rfl
    obtain ⟨phase', hphase', hcount⟩ := hphase j ev hget
    rw [hj] at hphase'
    cases hphase'
    obtain rfl : phase = .gap := of_decide_eq_true hgap
    have hend : isSegmentEndKind ev.kind := by
      by_contra hend
      rw [if_neg hend] at hcount
      cases hcount
    -- an open start would have made it a duration
    obtain ⟨i, hopen⟩ := hfound j ev hget hend
    obtain ⟨first, hfirst, -⟩ := hopen.starts
    have htime : timeAt events i = some first.timestampNs := by
      rw [timeAt, hfirst]
      rfl
    have hduration := (shown_duration_iff hordered).mpr ⟨hget, hend, i, hopen, htime⟩
    rw [hj] at hduration
    cases hduration

/-- What is open at a later position of the key started behind a segment that was shown. -/
theorem start_behind_end
    (hordered : events.Pairwise fun a b => a.timestampNs.toNat ≤ b.timestampNs.toNat)
    {start : UInt64} {ev : TraceEvent}
    (h : (shownEvents (fun _ => none) events)[j]? = some (.duration start, ev))
    {i' j' : Nat} (hjj : j < j') (hopen' : OpenStart events ev.segmentKey i' j') : j < i' := by
  obtain ⟨hget, hend, -⟩ := (shown_duration_iff hordered).mp h
  obtain ⟨first, hfirst, hstart, -⟩ := hopen'.starts
  rcases Nat.lt_trichotomy j i' with hlt | rfl | hgt
  · exact hlt
  · rw [hget] at hfirst
    cases hfirst
    rw [not_start_of_end hend] at hstart
    cases hstart
  · exact absurd ⟨ev, hget, hend, rfl⟩ (hopen'.unused j hgt hjj)

/-! ## The totals -/

/-- The dropped events of all producers. -/
def dropSum (producers : List ProducerReport) : Nat :=
  (producers.map fun report => report.droppedEvents.toNat).sum

/-- `dropped_total` is a 64-bit sum. -/
theorem droppedTotal_toNat (producers : List ProducerReport) :
    (droppedTotal producers).toNat = dropSum producers % 2 ^ 64 := by
  have hfold : ∀ total : UInt64,
      (producers.foldl (fun total report => total + report.droppedEvents) total).toNat =
        (total.toNat + dropSum producers) % 2 ^ 64 := by
    unfold dropSum
    induction producers with
    | nil => simp
    | cons report producers ih =>
      intro total
      rw [List.foldl_cons, ih, UInt64.toNat_add, List.map_cons, List.sum_cons]
      omega
  rw [droppedTotal, hfold]
  simp

theorem droppedTotal_eq_zero (producers : List ProducerReport) :
    droppedTotal producers = 0 ↔ 2 ^ 64 ∣ dropSum producers := by
  rw [← UInt64.toNat_inj, droppedTotal_toNat]
  exact Nat.dvd_iff_mod_eq_zero.symm

theorem dropSum_eq_zero (producers : List ProducerReport) :
    dropSum producers = 0 ↔ ∀ report ∈ producers, report.droppedEvents = 0 := by
  unfold dropSum
  rw [List.sum_eq_zero_iff_forall_eq_nat]
  simp [← UInt64.toNat_inj]

/-! ## The export of a snapshot -/

/-- What the segments of an export are good for. -/
structure SegmentsExact (data : TraceSnapshotData) (result : ChromeTraceExportResult) : Prop where
  /-- A duration ends a segment and shows the time of the latest start of its key. -/
  paired : ∀ (j : Nat) (start : UInt64) (ev : TraceEvent),
    (exportedEvents (some data))[j]? = some (.duration start, ev) →
    isSegmentEndKind ev.kind ∧ ∃ i,
      LatestStart (traceOrderedEvents (some data)) ev.segmentKey i j ∧
        timeAt (traceOrderedEvents (some data)) i = some start ∧ start ≤ ev.timestampNs
  /-- No start belongs to two durations. -/
  usedOnce : ∀ (i j j' : Nat) (start start' : UInt64) (ev ev' : TraceEvent),
    (exportedEvents (some data))[j]? = some (.duration start, ev) →
    (exportedEvents (some data))[j']? = some (.duration start', ev') →
    LatestStart (traceOrderedEvents (some data)) ev.segmentKey i j →
    LatestStart (traceOrderedEvents (some data)) ev'.segmentKey i j' → j = j'
  /-- Of two durations of one key the later one starts when the earlier one is over. -/
  disjoint : ∀ (j j' : Nat) (start start' : UInt64) (ev ev' : TraceEvent), j < j' →
    (exportedEvents (some data))[j]? = some (.duration start, ev) →
    (exportedEvents (some data))[j']? = some (.duration start', ev') →
    ev.segmentKey = ev'.segmentKey → ev.timestampNs ≤ start'
  counted : (exportedEvents (some data)).countP (·.1.isDuration) + result.schemaGaps.toNat =
    (traceOrderedEvents (some data)).countP (isSegmentEndKind ·.kind)
  complete : result.traceComplete ↔ (∀ report ∈ data.producers, report.droppedEvents = 0) ∧
    EveryEndFound (traceOrderedEvents (some data))

/-- The producers' drop counts do not add up to a positive multiple of `2 ^ 64`, or a segment
end has no open start. -/
def TotalTells (data : TraceSnapshotData) : Prop :=
  (2 ^ 64 ∣ dropSum data.producers → dropSum data.producers = 0) ∨
    ¬ EveryEndFound (traceOrderedEvents (some data))

section Export

variable {data : TraceSnapshotData} {start start' : UInt64} {ev ev' : TraceEvent} {i j j' : Nat}

/-- A duration of an export, with its open start. -/
theorem exported_duration (h : (exportedEvents (some data))[j]? = some (.duration start, ev)) :
    isSegmentEndKind ev.kind ∧ ∃ i,
      OpenStart (traceOrderedEvents (some data)) ev.segmentKey i j ∧
        timeAt (traceOrderedEvents (some data)) i = some start :=
  ((shown_duration_iff (ordered_by_time (some data))).mp h).2

theorem exported_usedOnce (h : (exportedEvents (some data))[j]? = some (.duration start, ev))
    (h' : (exportedEvents (some data))[j']? = some (.duration start', ev'))
    (hfrom : LatestStart (traceOrderedEvents (some data)) ev.segmentKey i j)
    (hfrom' : LatestStart (traceOrderedEvents (some data)) ev'.segmentKey i j') : ¬ j < j' := by
  intro hlt
  obtain ⟨-, i', hopen, -⟩ := exported_duration h'
  have hsame : i' = i := hopen.toLatestStart.unique hfrom'
  subst hsame
  -- the two durations have the key of their common start
  obtain ⟨first, hfirst, -, hkey⟩ := hfrom.starts
  obtain ⟨first', hfirst', -, hkey'⟩ := hfrom'.starts
  rw [hfirst] at hfirst'
  cases hfirst'
  rw [← hkey', hkey] at hopen
  have hbehind := start_behind_end (ordered_by_time (some data)) h hlt hopen
  exact absurd hfrom.before (Nat.not_lt_of_gt hbehind)

theorem exported_disjoint (hlt : j < j')
    (h : (exportedEvents (some data))[j]? = some (.duration start, ev))
    (h' : (exportedEvents (some data))[j']? = some (.duration start', ev'))
    (hkey : ev.segmentKey = ev'.segmentKey) : ev.timestampNs ≤ start' := by
  have hordered := ordered_by_time (some data)
  obtain ⟨hget, -⟩ := (shown_duration_iff hordered).mp h
  obtain ⟨-, i', hopen, htime⟩ := exported_duration h'
  rw [← hkey] at hopen
  have hbehind := start_behind_end hordered h hlt hopen
  exact timeAt_le hordered hbehind (by rw [timeAt, hget]; rfl) htime

end Export

/-- The durations of an export are never fabricated, whatever the producers have dropped.
That a trace is called complete means that nothing was dropped and no start is missing,
unless the sum of the losses wraps around to zero. -/
theorem segmentsExact_iff {data : TraceSnapshotData} {out out' : OStream} {prettyPrint : Bool}
    {result : ChromeTraceExportResult}
    (h : writeChromeTrace (some data) out prettyPrint = .ok (result, out'))
    (hsize : data.events.length < 2 ^ 64) : SegmentsExact data result ↔ TotalTells data := by
  have hordered := ordered_by_time (some data)
  obtain ⟨-, hresult, -⟩ := writeChromeTrace_some h
  have hcount := shownEvents_count (fun _ => none) (traceOrderedEvents (some data))
  have hschema : result.schemaGaps.toNat =
      (exportedEvents (some data)).countP (·.1.isGap) := by
    rw [hresult]
    change (exportEvents _ _ _).schemaGaps.toNat = _
    rw [exportEvents_schemaGaps, UInt64.toNat_ofNat']
    apply Nat.mod_eq_of_lt
    have hle := List.countP_le_length (p := (isSegmentEndKind ·.kind))
      (l := traceOrderedEvents (some data))
    rw [(traceOrderedEvents_perm (some data)).length_eq] at hle
    change _ ≤ data.events.length at hle
    omega
  have hgaps : result.schemaGaps = 0 ↔ EveryEndFound (traceOrderedEvents (some data)) := by
    rw [← no_gap_iff hordered, ← UInt64.toNat_inj, hschema]
    rfl
  have hcomplete : result.traceComplete ↔
      2 ^ 64 ∣ dropSum data.producers ∧ EveryEndFound (traceOrderedEvents (some data)) := by
    have hflag : result.traceComplete =
        (droppedTotal data.producers == 0 && result.schemaGaps == 0) := by
      rw [hresult]
      rfl
    rw [hflag, Bool.and_eq_true, beq_iff_eq, beq_iff_eq, droppedTotal_eq_zero, hgaps]
  constructor
  · intro hexact
    by_cases hfound : EveryEndFound (traceOrderedEvents (some data))
    · refine .inl fun hdvd => (dropSum_eq_zero _).mpr ?_
      exact (hexact.complete.mp (hcomplete.mpr ⟨hdvd, hfound⟩)).1
    · exact .inr hfound
  · intro htells
    constructor
    case paired =>
      intro j start ev hshown
      obtain ⟨hend, i, hopen, htime⟩ := exported_duration hshown
      exact ⟨hend, i, hopen.toLatestStart, htime,
        shownEvents_start (List.mem_of_getElem? hshown) start rfl⟩
    case usedOnce =>
      intro i j j' start start' ev ev' hj hj' hfrom hfrom'
      rcases Nat.lt_trichotomy j j' with hlt | heq | hgt
      · exact absurd hlt (exported_usedOnce hj hj' hfrom hfrom')
      · exact heq
      · exact absurd hgt (exported_usedOnce hj' hj hfrom' hfrom)
    case disjoint =>
      intro j j' start start' ev ev' hlt hj hj' hkey
      exact exported_disjoint hlt hj hj' hkey
    case counted =>
      rw [hschema]
      exact hcount
    case complete =>
      rw [hcomplete, ← dropSum_eq_zero]
      constructor
      · rintro ⟨hdvd, hfound⟩
        exact ⟨htells.resolve_right (not_not_intro hfound) hdvd, hfound⟩
      · rintro ⟨hzero, hfound⟩
        exact ⟨hzero ▸ Nat.dvd_zero _, hfound⟩

/-- The lone segment is shown, and its trace is complete. -/
theorem segmentsExact_loneSegment :
    ∃ result out, writeChromeTrace (some loneSegment) {} false = .ok (result, out) ∧
      SegmentsExact loneSegment result ∧ result.traceComplete := by
  refine ⟨_, _, rfl, ?_, by decide⟩
  exact (@segmentsExact_iff loneSegment {} _ false _ rfl (by decide)).mpr (.inl (by decide))

/-- Two producers that have lost `2 ^ 63` events each, and none that was recorded. -/
def lossesWrap : TraceSnapshotData where
  producers := [{ producerId := 1, droppedEvents := 0x8000000000000000 },
    { producerId := 2, droppedEvents := 0x8000000000000000 }]

/-- Its export is called complete. -/
theorem lossesWrap_complete :
    ∃ result out, writeChromeTrace (some lossesWrap) {} false = .ok (result, out) ∧
      result.traceComplete ∧ ¬ SegmentsExact lossesWrap result := by
  refine ⟨_, _, rfl, by decide, ?_⟩
  intro hexact
  have hnone := (hexact.complete.mp (by decide)).1 _ List.mem_cons_self
  exact absurd hnone (by decide)

end AstraScheduler.Trace
