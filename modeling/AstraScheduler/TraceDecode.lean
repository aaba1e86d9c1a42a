import AstraScheduler.JsonParser
import AstraScheduler.TraceObjects
import Mathlib.Algebra.Ring.Nat

/-! # Reading exported events back

A decoder of the objects that `write_chrome_trace` writes: it parses the text, finds the
members by their names, and takes an absent one for 0.  A validated event is what the decoder
makes of its text, in whatever phase it is shown (`decodeEvent_eventText`): the times are
the digits without the point, the start of a duration plus its length is the recorded time,
and the flow id is the runtime and the task, sixteen hexadecimal digits each. -/

namespace AstraScheduler.Trace
open JsonGrammar

/-! ## The decoder -/

abbrev Members := List (List Char × Value)

def natOf : Option Value → Nat
  | some (.number digits) => Nat.ofDigitChars 10 digits 0
  | _ => 0

/-- Microseconds with three decimals are nanoseconds but for the point. -/
def nsOf : Option Value → Nat
  | some (.number digits) => Nat.ofDigitChars 10 (digits.filter (· ≠ '.')) 0
  | _ => 0

def stringOf : Option Value → List Char
  | some (.string chars) => chars
  | _ => []

def membersOf : Option Value → Members
  | some (.object members) => members
  | _ => []

def member (ms : Members) (name : String) : Option Value := ms.lookup name.toList

def decodeKind (name : List Char) : Option TraceEventKind :=
  TraceEventKind.all.find? fun k => k.name.toList = name

def TraceCategory.all : List TraceCategory :=
  [.taskLifecycle, .queueScheduling, .stealSuccess, .stealAttempt, .waitAwait, .coroutine,
    .graph, .timer, .deadline, .runtimeLifecycle, .verbose]

def decodeCategory (name : List Char) : Option TraceCategory :=
  TraceCategory.all.find? fun c => (traceCategoryName c).map String.toList = some name

def decodeMembers (ms : Members) : Option TraceEvent := do
  let kind ← decodeKind (stringOf (member ms "name"))
  let category ← decodeCategory (stringOf (member ms "cat"))
  let args := membersOf (member ms "args")
  some
    { category := category.toUInt16
      kind := kind.raw
      timestampNs := UInt64.ofNat (nsOf (member ms "ts") + nsOf (member ms "dur"))
      producerId := UInt64.ofNat (natOf (member args "producer"))
      localSequence := UInt64.ofNat (natOf (member args "sequence"))
      runtimeId := UInt64.ofNat (natOf (member args "runtime"))
      taskId := UInt64.ofNat (natOf (member args "task"))
      targetRuntimeId := UInt64.ofNat (natOf (member args "target_runtime"))
      targetTaskId := UInt64.ofNat (natOf (member args "target_task"))
      graphRunId := UInt64.ofNat (natOf (member args "graph_run"))
      nodeId := UInt32.ofNat (natOf (member args "node"))
      workerId := UInt32.ofNat (natOf (member args "worker"))
      segmentSequence := UInt32.ofNat (natOf (member args "segment")) }

/-- The event an object was written for. -/
def decodeEvent (object : List Char) : Option TraceEvent :=
  decodeMembers (membersOf (parse object))

def hexValue (c : Char) : Nat := if c.isDigit then c.toNat - 48 else c.toNat - 87

def ofHexChars (digits : List Char) (init : Nat) : Nat :=
  digits.foldl (fun n c => 16 * n + hexValue c) init

/-- Runtime and task of a flow id. -/
def decodeFlow : List Char → Option (UInt64 × UInt64)
  | '0' :: 'x' :: digits =>
    some (UInt64.ofNat (ofHexChars (digits.take 16) 0),
      UInt64.ofNat (ofHexChars (digits.drop 16) 0))
  | _ => none

/-- Runtime and task, by the flow id of an object. -/
def decodeFlowId (object : List Char) : Option (UInt64 × UInt64) :=
  decodeFlow (stringOf (member (membersOf (parse object)) "id"))

/-! ## Digits -/

theorem natOf_stdToString (n : Nat) : natOf (some (.number (stdToString n))) = n :=
  Nat.ofDigitChars_ten_toDigits

/-- Three digits, whatever the fraction: the zeros in front fill it up. -/
theorem length_fractionText {fraction : UInt64} (h : fraction < 1000) :
    (fractionText fraction).length = 3 := by
  have hlen := fun k hk => Nat.length_toDigits_le_iff (n := fraction.toNat) (k := k)
    (b := 10) (by decide) hk
  have hone := hlen 1 (by decide)
  have htwo := hlen 2 (by decide)
  have hthree := hlen 3 (by decide)
  have hpos : 0 < (Nat.toDigits 10 fraction.toNat).length := Nat.length_toDigits_pos
  rw [UInt64.lt_iff_toNat_lt] at h
  have h100 : (fraction < 100) ↔ fraction.toNat < 100 := UInt64.lt_iff_toNat_lt
  have h10 : (fraction < 10) ↔ fraction.toNat < 10 := UInt64.lt_iff_toNat_lt
  have hbound : fraction.toNat < 1000 := h
  unfold fractionText stdToString
  simp only [h100, h10, List.length_append]
  split <;> split <;> simp <;> omega

theorem ofDigitChars_fractionText (fraction : UInt64) :
    Nat.ofDigitChars 10 (fractionText fraction) 0 = fraction.toNat := by
  have hzero : ∀ (p : Prop) [Decidable p],
      Nat.ofDigitChars 10 (if p then ['0'] else []) 0 = 0 := by
    intro p _
    split <;> rfl
  unfold fractionText
  rw [Nat.ofDigitChars_append, Nat.ofDigitChars_append, hzero, hzero]
  exact Nat.ofDigitChars_ten_toDigits

theorem filter_digits {ds : List Char} (h : Digits ds) : ds.filter (· ≠ '.') = ds := by
  rw [List.filter_eq_self]
  intro c hc
  have hdigit := h c hc
  by_contra hpoint
  simp only [ne_eq, decide_not, Bool.not_eq_eq_eq_not, Bool.not_true, Bool.not_eq_false,
    decide_eq_true_eq] at hpoint
  subst hpoint
  cases hdigit

/-- The time is read back exactly. -/
theorem nsOf_appendNsAsUs (ns : UInt64) : nsOf (some (.number (appendNsAsUs ns))) = ns.toNat := by
  have hfraction : ns % 1000 < 1000 := UInt64.mod_lt _ (by decide)
  have hwhole : Nat.ofDigitChars 10 (stdToString (ns / 1000).toNat) 0 = ns.toNat / 1000 := by
    have hdiv : (ns / 1000).toNat = ns.toNat / 1000 := UInt64.toNat_div ..
    rw [hdiv]
    exact Nat.ofDigitChars_ten_toDigits
  rw [appendNsAsUs_eq]
  change Nat.ofDigitChars 10 (List.filter (· ≠ '.') _) 0 = _
  rw [List.filter_append, List.filter_cons_of_neg (by decide),
    filter_digits (digits_stdToString _), filter_digits (digits_fractionText _),
    Nat.ofDigitChars_append, Nat.ofDigitChars_eq_ofDigitChars_zero, length_fractionText hfraction,
    hwhole, ofDigitChars_fractionText, UInt64.toNat_mod]
  exact Nat.div_add_mod ns.toNat 1000

theorem hexValue_hexDigit (value : UInt64) : hexValue (hexDigit value) = value.toNat % 16 := by
  have hdigits : ∀ n < 16, hexValue (Nat.digitChar n) = n := by decide
  have hand : (value &&& 0xF).toNat = value.toNat % 2 ^ 4 := Nat.and_two_pow_sub_one_eq_mod _ 4
  unfold hexDigit
  rw [hand]
  exact hdigits _ (Nat.mod_lt _ (by decide))

theorem length_hexLoop (i : Nat) (value : UInt64) (buf : List Char) :
    (hexLoop i value buf).length = i + buf.length := by
  induction i generalizing value buf with
  | zero => simp [hexLoop]
  | succ i ih =>
    rw [hexLoop, ih, List.length_cons]
    omega

/-- The loop has written the last digits of the value in front of the buffer. -/
theorem ofHexChars_hexLoop (i : Nat) (value : UInt64) (buf : List Char) :
    ofHexChars (hexLoop i value buf) 0 = ofHexChars buf (value.toNat % 16 ^ i) := by
  induction i generalizing value buf with
  | zero => simp [hexLoop, Nat.mod_one]
  | succ i ih =>
    have hshift : (value >>> 4).toNat = value.toNat / 16 := by
      rw [UInt64.toNat_shiftRight]
      exact Nat.shiftRight_eq_div_pow _ 4
    have hdigits : value.toNat % 16 ^ (i + 1) =
        16 * (value.toNat / 16 % 16 ^ i) + value.toNat % 16 := by
      rw [Nat.pow_succ, Nat.mul_comm, Nat.mod_mul]
      omega
    rw [hexLoop, ih, hshift, hdigits]
    change ofHexChars buf (16 * _ + hexValue (hexDigit value)) = _
    rw [hexValue_hexDigit]

theorem ofHexChars_appendHex64 (value : UInt64) :
    ofHexChars (appendHex64 value) 0 = value.toNat := by
  have hlt := value.toNat_lt
  unfold appendHex64
  rw [ofHexChars_hexLoop]
  exact Nat.mod_eq_of_lt (by omega)

/-- Sixteen digits each, so the runtime ends where the task begins. -/
theorem decodeFlow_flowDigits (ev : TraceEvent) :
    decodeFlow ("0x".toList ++ flowDigits ev) = some (ev.runtimeId, ev.taskId) := by
  have hx : "0x".toList = ['0', 'x'] := by decide
  have hlength : (appendHex64 ev.runtimeId).length = 16 := length_hexLoop 16 _ []
  rw [hx]
  change some (UInt64.ofNat (ofHexChars ((flowDigits ev).take 16) 0),
    UInt64.ofNat (ofHexChars ((flowDigits ev).drop 16) 0)) = _
  unfold flowDigits
  rw [← hlength, List.take_left, List.drop_left, ofHexChars_appendHex64, ofHexChars_appendHex64,
    UInt64.ofNat_toNat, UInt64.ofNat_toNat]

/-! ## Members -/

theorem member_append (ms ms' : Members) (name : String) :
    member (ms ++ ms') name = (member ms name).or (member ms' name) :=
  List.lookup_append

theorem member_single (key name : String) (v : Value) :
    member [(key.toList, v)] name = if name = key then some v else none := by
  unfold member
  by_cases h : name = key
  · rw [if_pos h, h, List.lookup_cons_self]
  · have hkeys : (name.toList == key.toList) = false :=
      beq_eq_false_iff_ne.mpr fun hlists => h (String.toList_injective hlists)
    rw [if_neg h, List.lookup_cons, hkeys]
    rfl

theorem member_number (key name : String) (value : Nat) :
    member [numberMember key value] name =
      if name = key then some (.number (stdToString value)) else none :=
  member_single key name _

/-- A member that is absent where its field is 0. -/
theorem member_optional (key name : String) (value : Nat) :
    member (optionalMember key value) name =
      if name = key ∧ value ≠ 0 then some (.number (stdToString value)) else none := by
  unfold optionalMember
  by_cases hvalue : value ≠ 0
  · rw [if_pos hvalue, member_number]
    simp [hvalue]
  · rw [if_neg hvalue, if_neg fun h => hvalue h.2]
    rfl

theorem member_if {p : Prop} [Decidable p] (ms : Members) (name : String) :
    member (if p then ms else []) name = if p then member ms name else none := by
  split <;> rfl

/-- An absent member is read as 0. -/
theorem natOf_optional {p : Prop} [Decidable p] {n : Nat} (h : ¬ p → n = 0) :
    natOf (if p then some (.number (stdToString n)) else none) = n := by
  split
  · exact natOf_stdToString n
  · rename_i hp
    exact (h hp).symm

structure ArgsOf (args : Members) (ev : TraceEvent) : Prop where
  producer : natOf (member args "producer") = ev.producerId.toNat
  sequence : natOf (member args "sequence") = ev.localSequence.toNat
  runtime : natOf (member args "runtime") = ev.runtimeId.toNat
  worker : natOf (member args "worker") = ev.workerId.toNat
  task : natOf (member args "task") = ev.taskId.toNat
  targetRuntime : natOf (member args "target_runtime") = ev.targetRuntimeId.toNat
  targetTask : natOf (member args "target_task") = ev.targetTaskId.toNat
  graphRun : natOf (member args "graph_run") = ev.graphRunId.toNat
  node : natOf (member args "node") = ev.nodeId.toNat
  segment : natOf (member args "segment") = ev.segmentSequence.toNat

/-- Every argument is found behind those in front of it, or is absent and 0. -/
theorem argsOf_argsMembers {ev : TraceEvent}
    (h : ev.targetRuntimeId = 0 → ev.targetTaskId = 0) : ArgsOf (argsMembers ev) ev := by
  have hzero : ∀ n : Nat, ¬ n ≠ 0 → n = 0 := by
    intro n hn
    omega
  constructor
  all_goals
    simp only [argsMembers, member_append, member_number, member_optional, member_if,
      String.reduceEq, reduceIte, false_and, true_and, ite_self, Option.none_or, Option.or_none]
  case producer => exact natOf_stdToString _
  case sequence => exact natOf_stdToString _
  case runtime => exact natOf_stdToString _
  case targetRuntime =>
    apply natOf_optional
    intro hruntime
    rw [not_not.mp hruntime]
    rfl
  case targetTask =>
    apply natOf_optional
    intro hruntime
    rw [h (not_not.mp hruntime)]
    rfl
  all_goals exact natOf_optional (hzero _)

/-! ## Names -/

/-- A plain character is its own escape. -/
theorem flatMap_escapeChar {l : List Char} (h : l.all isPlain = true) :
    l.flatMap escapeChar = l := by
  induction l with
  | nil => rfl
  | cons c l ih =>
    obtain ⟨hc, hl⟩ := Bool.and_eq_true_iff.mp h
    have hplain := isPlain_iff.mp hc
    have hself : escapeChar c = [c] := by
      unfold escapeChar
      rw [if_neg hplain.1.1, if_neg hplain.1.2, if_neg, if_neg, if_neg, if_neg (by omega)]
      all_goals
        rintro rfl
        exact absurd hplain.2 (by decide)
    rw [List.flatMap_cons, ih hl, hself]
    rfl

theorem nameBody_of_plain {name : String} (h : name.toList.all isPlain = true) :
    nameBody (some name) = name.toList :=
  flatMap_escapeChar h

theorem plain_name (k : TraceEventKind) : k.name.toList.all isPlain = true := by
  cases k
  all_goals
    unfold TraceEventKind.name
    dsimp only
    rw [String.toList_ofList]
    rfl

/-- No name of a kind needs an escape, and no two kinds share one. -/
theorem decodeKind_nameBody (k : TraceEventKind) :
    decodeKind (nameBody (some k.name)) = some k := by
  rw [nameBody_of_plain (plain_name k)]
  -- the names are compared as strings, the characters of a literal being slow to come by
  unfold decodeKind
  simp only [String.toList_inj]
  cases k <;> rfl

theorem plain_categoryName (k : TraceEventKind) : ∃ name,
    traceCategoryName (categoryForKind k) = some name ∧ name.toList.all isPlain = true := by
  cases k
  all_goals
    refine ⟨_, rfl, ?_⟩
    rw [String.toList_ofList]
    rfl

/-- The same of the categories that kinds belong to. -/
theorem decodeCategory_nameBody (k : TraceEventKind) :
    decodeCategory (nameBody (traceCategoryName (categoryForKind k))) =
      some (categoryForKind k) := by
  obtain ⟨name, hname, hplain⟩ := plain_categoryName k
  have hstrings : ∀ c, (traceCategoryName c).map String.toList = some name.toList ↔
      traceCategoryName c = traceCategoryName (categoryForKind k) := by
    intro c
    rw [hname, ← Option.map_some, Option.map_inj_right fun _ _ => String.toList_injective]
  rw [hname, nameBody_of_plain hplain]
  unfold decodeCategory
  simp only [hstrings]
  cases k <;> rfl

/-! ## One event -/

/-- A validated wait edge names both of its targets or none. -/
theorem validateEvent_target {ev : TraceEvent} (h : validateEvent ev = .ok ()) :
    ev.targetRuntimeId = 0 → ev.targetTaskId = 0 := by
  intro hruntime
  by_contra htask
  obtain ⟨k, hkind, hcategory⟩ := validateEvent_kind h
  have hedge : (ev.targetTaskId ≠ 0 ∨ ev.targetRuntimeId ≠ 0) ∧
      (ev.targetRuntimeId = 0 ∨ ev.targetTaskId = 0) := ⟨.inl htask, .inl hruntime⟩
  have hschema := validateEvent_schema h
  unfold validateEvent at h
  rw [if_neg (not_not.mpr hschema), hkind] at h
  dsimp only at h
  by_cases hunknown : categoryForKind k = .none ∨
      ev.category ≠ (categoryForKind k &&& 0xFFFF).toUInt16
  · rw [if_pos hunknown] at h
    cases h
  rw [if_neg hunknown] at h
  by_cases htasked : (ev.taskId ≠ 0 ∨ ev.graphRunId ≠ 0 ∨ ev.segmentSequence ≠ 0) ∧
      ev.runtimeId = 0
  · rw [if_pos htasked] at h
    cases h
  rw [if_neg htasked, if_pos hedge] at h
  cases h

/-- The category of a known kind, through the mask and the cast of the source. -/
theorem category_of_kind (k : TraceEventKind) :
    (categoryForKind k &&& 0xFFFF).toUInt16.toUInt64 &&& 0xFFFF = categoryForKind k ∧
      (categoryForKind k).toUInt16 = (categoryForKind k &&& 0xFFFF).toUInt16 := by
  cases k <;> exact ⟨rfl, rfl⟩

/-- The members of a phase carry no other name. -/
theorem member_phaseMembers {name : String} (hph : name ≠ "ph") (hts : name ≠ "ts")
    (hdur : name ≠ "dur") (hid : name ≠ "id") (phase : Phase) (ev : TraceEvent) :
    member (phaseMembers phase ev) name = none := by
  induction phase <;>
    simp only [phaseMembers, phaseMember, timeMember, flowMember, member_append, member_single,
      hph, hts, hdur, hid, if_false, Option.or_none]

/-- The start of a duration and its length, or the time alone. -/
theorem nsOf_phaseMembers {phase : Phase} {ev : TraceEvent}
    (h : ∀ start, phase = .duration start → start ≤ ev.timestampNs) :
    nsOf (member (phaseMembers phase ev) "ts") + nsOf (member (phaseMembers phase ev) "dur") =
      ev.timestampNs.toNat := by
  induction phase with
  | duration start =>
    have hle := h start rfl
    have hsub : (ev.timestampNs - start).toNat = ev.timestampNs.toNat - start.toNat :=
      UInt64.toNat_sub_of_le _ _ hle
    have hnat : start.toNat ≤ ev.timestampNs.toNat := hle
    simp only [phaseMembers, phaseMember, timeMember, member_append, member_single,
      String.reduceEq, reduceIte, Option.none_or, Option.or_none]
    rw [nsOf_appendNsAsUs, nsOf_appendNsAsUs, hsub]
    omega
  | _ =>
    simp only [phaseMembers, phaseMember, timeMember, flowMember, member_append, member_single,
      String.reduceEq, reduceIte, Option.none_or, Option.or_none]
    rw [nsOf_appendNsAsUs]
    rfl

def Phase.isFlow (phase : Phase) : Bool := phase = .flowStart || phase = .flowFinish

theorem decodeFlow_phaseMembers (phase : Phase) (ev : TraceEvent) :
    decodeFlow (stringOf (member (phaseMembers phase ev) "id")) =
      if phase.isFlow then some (ev.runtimeId, ev.taskId) else none := by
  induction phase with
  | flowStart | flowFinish =>
    simp only [phaseMembers, phaseMember, timeMember, flowMember, member_append, member_single,
      String.reduceEq, reduceIte, Option.none_or, Option.or_none]
    exact decodeFlow_flowDigits ev
  | _ =>
    simp only [phaseMembers, phaseMember, timeMember, member_append, member_single,
      String.reduceEq, reduceIte, Option.or_none]
    rfl

theorem parse_eventText {ev : TraceEvent} (h : validateEvent ev = .ok ()) (phase : Phase) :
    parse (eventText phase ev) = some (eventValue phase ev) := by
  obtain ⟨hkind, hcategory⟩ := validateEvent_names h
  have hvalue := isValue_eventText hkind hcategory phase
  exact parse_of_isDocument
    ⟨[], _, [], Blank.nil, hvalue, Blank.nil, (List.append_nil _).symm⟩

/-- The flow id of an event's object is its runtime and its task; an object without flow has
none. -/
theorem decodeFlowId_eventText {ev : TraceEvent} (h : validateEvent ev = .ok ()) (phase : Phase) :
    decodeFlowId (eventText phase ev) =
      if phase.isFlow then some (ev.runtimeId, ev.taskId) else none := by
  unfold decodeFlowId
  rw [parse_eventText h, ← decodeFlow_phaseMembers]
  change decodeFlow (stringOf (member (eventMembers phase ev) "id")) = _
  simp only [eventMembers, member_append, member_single, member_number, String.reduceEq,
    reduceIte, Option.none_or, Option.or_none]

/-- The members that the decoder looks up, each behind those in front of it. -/
theorem member_eventMembers (phase : Phase) (ev : TraceEvent) :
    member (eventMembers phase ev) "name" =
        some (.string (nameBody (traceEventKindName ev.kind))) ∧
      member (eventMembers phase ev) "cat" =
        some (.string (nameBody (traceCategoryName (ev.category.toUInt64 &&& 0xFFFF)))) ∧
      member (eventMembers phase ev) "ts" = member (phaseMembers phase ev) "ts" ∧
      member (eventMembers phase ev) "dur" = member (phaseMembers phase ev) "dur" ∧
      member (eventMembers phase ev) "args" = some (.object (argsMembers ev)) := by
  have hargs : member (phaseMembers phase ev) "args" = none :=
    member_phaseMembers (by decide) (by decide) (by decide) (by decide) phase ev
  simp only [eventMembers, member_append, member_single, member_number, String.reduceEq,
    reduceIte, Option.none_or, Option.or_none, Option.some_or, hargs, and_self]

/-- A validated event is read back from its object, whatever its phase. -/
theorem decodeEvent_eventText {ev : TraceEvent} (h : validateEvent ev = .ok ()) {phase : Phase}
    (hphase : ∀ start, phase = .duration start → start ≤ ev.timestampNs) :
    decodeEvent (eventText phase ev) = some ev := by
  obtain ⟨k, hkind, hcategory⟩ := validateEvent_kind h
  obtain ⟨hmask, hcast⟩ := category_of_kind k
  obtain ⟨hname, hcat, hts, hdur, hargs⟩ := member_eventMembers phase ev
  have hread := argsOf_argsMembers (validateEvent_target h)
  have hkindName : decodeKind (nameBody (traceEventKindName ev.kind)) = some k := by
    rw [traceEventKindName, hkind]
    exact decodeKind_nameBody k
  have hcategoryName : decodeCategory
      (nameBody (traceCategoryName (ev.category.toUInt64 &&& 0xFFFF))) =
        some (categoryForKind k) := by
    rw [hcategory, hmask]
    exact decodeCategory_nameBody k
  unfold decodeEvent
  rw [parse_eventText h]
  change decodeMembers (eventMembers phase ev) = some ev
  unfold decodeMembers
  rw [hname, hcat, hts, hdur, hargs]
  simp only [stringOf, membersOf, hkindName, hcategoryName, Option.bind_eq_bind, Option.bind_some,
    nsOf_phaseMembers hphase, hread.producer, hread.sequence, hread.runtime, hread.worker,
    hread.task, hread.targetRuntime, hread.targetTask, hread.graphRun, hread.node, hread.segment,
    UInt64.ofNat_toNat, UInt32.ofNat_toNat, hcast, ← hcategory, TraceEventKind.raw_of_ofRaw? hkind,
    ← validateEvent_schema h]

/-! ## The objects of a snapshot -/

/-- The events as the loop over them shows them. -/
def shownEvents : SegmentStarts → List TraceEvent → List (Phase × TraceEvent)
  | _, [] => []
  | starts, ev :: events =>
    ((phaseOf starts ev).1, ev) :: shownEvents (phaseOf starts ev).2 events

def objectText (shown : Phase × TraceEvent) : List Char := eventText shown.1 shown.2

theorem shownEvents_snd (starts : SegmentStarts) (events : List TraceEvent) :
    (shownEvents starts events).map Prod.snd = events := by
  induction events generalizing starts with
  | nil => rfl
  | cons ev events ih => rw [shownEvents, List.map_cons, ih]

/-- A duration never begins behind its end: the source compares before it subtracts. -/
theorem phaseOf_start {starts : SegmentStarts} {ev : TraceEvent} {start : UInt64}
    (h : (phaseOf starts ev).1 = .duration start) : start ≤ ev.timestampNs := by
  unfold phaseOf at h
  generalize (if isSegmentStartKind ev.kind then _ else starts) = recorded at h
  dsimp only at h
  split at h
  case isTrue =>
    cases hrecorded : recorded ev.segmentKey with
    | none => simp [hrecorded] at h
    | some first =>
      rw [hrecorded] at h
      dsimp only at h
      split at h
      case isTrue hle =>
        cases h
        exact hle
      case isFalse => cases h
  case isFalse =>
    split at h
    · cases h
    · split at h <;> cases h

theorem shownEvents_start {starts : SegmentStarts} {events : List TraceEvent}
    {shown : Phase × TraceEvent} (h : shown ∈ shownEvents starts events) :
    ∀ start, shown.1 = .duration start → start ≤ shown.2.timestampNs := by
  induction events generalizing starts with
  | nil => cases h
  | cons ev events ih =>
    rcases List.mem_cons.mp h with rfl | h
    · exact fun start hstart => phaseOf_start hstart
    · exact ih h

/-- Behind the first object every other one stands behind a separator. -/
theorem foldl_exportEvent (sep : List Char) (events : List TraceEvent) (st : ExportState)
    (h : st.first = false) : (events.foldl (exportEvent sep) st).json =
      st.json ++ ((shownEvents st.segmentStart events).map objectText).flatMap (sep ++ ·) := by
  induction events generalizing st with
  | nil => simp [shownEvents]
  | cons ev events ih =>
    rw [List.foldl_cons, ih _ rfl, shownEvents, List.map_cons, List.flatMap_cons]
    simp [exportEvent, h, objectText]

theorem intercalate_cons (sep object : List Char) (objects : List (List Char)) :
    sep.intercalate (object :: objects) = object ++ objects.flatMap (sep ++ ·) := by
  induction objects generalizing object with
  | nil => simp
  | cons other objects ih =>
    rw [List.intercalate_cons_cons, ih, List.flatMap_cons]
    simp

/-- The objects stand between the start of the text and the metadata, one separator between
two of them. -/
theorem exportEvents_json (sep json : List Char) (events : List TraceEvent) :
    (exportEvents sep json events).json =
      json ++ sep.intercalate ((shownEvents (fun _ => none) events).map objectText) := by
  unfold exportEvents
  cases events with
  | nil => simp [shownEvents, List.intercalate]
  | cons ev events =>
    rw [List.foldl_cons, foldl_exportEvent _ _ _ rfl, shownEvents, List.map_cons, intercalate_cons]
    simp [exportEvent, objectText]

theorem validate_mem {events : List TraceEvent} (h : validate events = .ok ()) :
    ∀ ev ∈ events, validateEvent ev = .ok () := by
  induction events with
  | nil =>
    intro ev hev
    cases hev
  | cons first events ih =>
    unfold validate at h
    cases hfirst : validateEvent first with
    | error e =>
      rw [hfirst] at h
      cases h
    | ok u =>
      rw [hfirst] at h
      exact List.forall_mem_cons.mpr ⟨hfirst, ih h⟩

/-- The events of a snapshot, as its export shows them. -/
def exportedEvents (snapshot : TraceSnapshot) : List (Phase × TraceEvent) :=
  shownEvents (fun _ => none) (traceOrderedEvents snapshot)

/-- Up to the first object. -/
def exportStart (prettyPrint : Bool) : List Char :=
  "\x7b\"traceEvents\":[".toList ++ (if prettyPrint then ['\n'] else [])

theorem chromeTraceText_objects (data : TraceSnapshotData) (prettyPrint : Bool) :
    ∃ metadata, (chromeTraceText data (traceOrderedEvents (some data)) prettyPrint).1 =
      exportStart prettyPrint ++
        (separator prettyPrint).intercalate ((exportedEvents (some data)).map objectText) ++
        metadata := by
  have hjson := exportEvents_json (separator prettyPrint) (exportStart prettyPrint)
    (traceOrderedEvents (some data))
  unfold chromeTraceText exportedEvents
  dsimp only
  change ∃ metadata, (exportEvents _ (exportStart prettyPrint) _).json ++ _ ++ _ ++ _ ++ _ = _
  rw [hjson, List.append_assoc, List.append_assoc, List.append_assoc]
  exact ⟨_, rfl⟩

theorem exportedEvents_valid {snapshot : TraceSnapshot}
    (h : validate (traceOrderedEvents snapshot) = .ok ()) {shown : Phase × TraceEvent}
    (hshown : shown ∈ exportedEvents snapshot) : validateEvent shown.2 = .ok () := by
  apply validate_mem h
  rw [← shownEvents_snd (fun _ => none) (traceOrderedEvents snapshot)]
  exact List.mem_map_of_mem hshown

theorem decodeEvent_objectText {snapshot : TraceSnapshot}
    (h : validate (traceOrderedEvents snapshot) = .ok ()) {shown : Phase × TraceEvent}
    (hshown : shown ∈ exportedEvents snapshot) :
    decodeEvent (objectText shown) = some shown.2 :=
  decodeEvent_eventText (exportedEvents_valid h hshown) (shownEvents_start hshown)

/-- The export of a validated snapshot is the objects of its events, each a JSON object from
which the event is read back in full; its flow id, where it has one, is the runtime and the
task.  Two events, of one snapshot or of two, have the same object only if they are equal. -/
theorem exportedEvents_decode {data : TraceSnapshotData}
    (h : validate (traceOrderedEvents (some data)) = .ok ()) (prettyPrint : Bool) :
    (exportedEvents (some data)).map Prod.snd = traceOrderedEvents (some data) ∧
      (∃ metadata, (chromeTraceText data (traceOrderedEvents (some data)) prettyPrint).1 =
        exportStart prettyPrint ++
          (separator prettyPrint).intercalate ((exportedEvents (some data)).map objectText) ++
          metadata) ∧
      (∀ shown ∈ exportedEvents (some data),
        (∃ ms, IsValue (.object ms) (objectText shown)) ∧
          decodeEvent (objectText shown) = some shown.2 ∧
          decodeFlowId (objectText shown) =
            if shown.1.isFlow then some (shown.2.runtimeId, shown.2.taskId) else none) ∧
      ∀ data', validate (traceOrderedEvents (some data')) = .ok () →
        ∀ shown ∈ exportedEvents (some data), ∀ shown' ∈ exportedEvents (some data'),
          objectText shown = objectText shown' → shown.2 = shown'.2 := by
  refine ⟨shownEvents_snd _ _, chromeTraceText_objects data prettyPrint, ?_, ?_⟩
  · intro shown hshown
    have hvalid := exportedEvents_valid h hshown
    obtain ⟨hkind, hcategory⟩ := validateEvent_names hvalid
    exact ⟨⟨_, isValue_eventText hkind hcategory shown.1⟩, decodeEvent_objectText h hshown,
      decodeFlowId_eventText hvalid shown.1⟩
  · intro data' h' shown hshown shown' hshown' htext
    have hread := decodeEvent_objectText h hshown
    rw [htext, decodeEvent_objectText h' hshown'] at hread
    exact (Option.some.inj hread).symm

/-- A capture of one segment: it starts, and it ends half a microsecond later. -/
def loneSegment : TraceSnapshotData where
  events :=
    [{ category := 1, kind := TraceEventKind.taskFirstStart.raw, timestampNs := 1250,
       localSequence := 1, runtimeId := 1, taskId := 7, workerId := 2, segmentSequence := 1 },
     { category := 1, kind := TraceEventKind.taskSegmentEnd.raw, timestampNs := 1750,
       localSequence := 2, runtimeId := 1, taskId := 7, workerId := 2, segmentSequence := 1 }]
  producers := [{ capacity := 4 }]

theorem exportedEvents_loneSegment :
    (exportedEvents (some loneSegment)).map Prod.fst = [.instant, .duration 1250] ∧
      ∀ shown ∈ exportedEvents (some loneSegment), decodeEvent (objectText shown) = some shown.2 :=
  ⟨by decide, fun shown hshown =>
    ((@exportedEvents_decode loneSegment rfl false).2.2.1 shown hshown).2.1⟩

end AstraScheduler.Trace
