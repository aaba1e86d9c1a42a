import AstraScheduler.TraceExport

/-! # The JSON object of a trace event

`eventText` of `TraceExport` is the text of one value, `eventValue`: an object with the
members that the phase and the set fields call for.  Every piece of the writer adds a comma
and one or two members to a text that already is a list of members, so the object is built
up by `IsMembers.append` along the text (`isValue_eventText`). -/

namespace AstraScheduler.Trace
open JsonGrammar

/-! ## Numbers -/

/-- `std::to_string` writes no leading zero. -/
theorem intPart_stdToString (n : Nat) : IntPart (stdToString n) := by
  induction n using Nat.strong_induction_on with
  | _ n ih =>
    unfold stdToString at ih ⊢
    by_cases hn : n < 10
    · have hsmall : ∀ n < 10, n.digitChar.isDigit = true ∧ (n ≠ 0 → n.digitChar ≠ '0') := by
        decide
      rw [Nat.toDigits_of_lt_base hn]
      by_cases h0 : n = 0
      · subst h0
        exact .zero
      · exact .digits (hsmall n hn).1 ((hsmall n hn).2 h0) (fun c hc => by cases hc)
    · rw [Nat.toDigits_of_base_le (by decide) (by omega)]
      have hlast : ∀ c ∈ [(n % 10).digitChar], c.isDigit = true := by
        have hdigit : ∀ d < 10, (Nat.digitChar d).isDigit = true := by decide
        intro c hc
        rw [List.mem_singleton.mp hc]
        exact hdigit _ (Nat.mod_lt _ (by decide))
      have hfront := ih (n / 10) (by omega)
      have hpos : 0 < n / 10 := by omega
      generalize hfirst : Nat.toDigits 10 (n / 10) = first at hfront
      cases hfront with
      | zero =>
        have hback := Nat.ofDigitChars_ten_toDigits (n := n / 10)
        rw [hfirst] at hback
        have hzero : Nat.ofDigitChars 10 ['0'] 0 = 0 := rfl
        omega
      | digits hd h0 hds =>
        rw [List.cons_append]
        exact .digits hd h0 (List.forall_mem_append.mpr ⟨hds, hlast⟩)

theorem digits_stdToString (n : Nat) : Digits (stdToString n) :=
  fun _ hc => Nat.isDigit_of_mem_toDigits (by decide) (by decide) hc

theorem isNumber_stdToString (n : Nat) : IsNumber (stdToString n) := by
  have h := IsNumber.mk (.inl rfl) (intPart_stdToString n) .none .none
  rwa [List.nil_append, List.append_nil, List.append_nil] at h

/-- The digits behind the point of `append_ns_as_us`. -/
def fractionText (fraction : UInt64) : List Char :=
  (if fraction < 100 then ['0'] else []) ++ (if fraction < 10 then ['0'] else []) ++
    stdToString fraction.toNat

theorem appendNsAsUs_eq (ns : UInt64) :
    appendNsAsUs ns = stdToString (ns / 1000).toNat ++ '.' :: fractionText (ns % 1000) := rfl

theorem digits_fractionText (fraction : UInt64) : Digits (fractionText fraction) := by
  have hzero : ∀ (p : Prop) [Decidable p], ∀ c ∈ (if p then ['0'] else []), c.isDigit = true := by
    intro p _ c hc
    split at hc
    · rw [List.mem_singleton.mp hc]
      rfl
    · cases hc
  exact List.forall_mem_append.mpr
    ⟨List.forall_mem_append.mpr ⟨hzero _, hzero _⟩, digits_stdToString _⟩

theorem fractionText_ne_nil (fraction : UInt64) : fractionText fraction ≠ [] := by
  have hne : stdToString fraction.toNat ≠ [] := Nat.toDigits_ne_nil
  simp [fractionText, hne]

theorem isNumber_appendNsAsUs (ns : UInt64) : IsNumber (appendNsAsUs ns) := by
  have h := IsNumber.mk (.inl rfl) (intPart_stdToString (ns / 1000).toNat)
    (.digits (fractionText_ne_nil (ns % 1000)) (digits_fractionText _)) .none
  rwa [List.nil_append, List.append_nil] at h

/-- Digits in the hexadecimal buffer stay hexadecimal digits. -/
theorem hexDigits_hexLoop (i : Nat) (value : UInt64) {buf : List Char}
    (h : ∀ c ∈ buf, HexDigit c) : ∀ c ∈ hexLoop i value buf, HexDigit c := by
  induction i generalizing value buf with
  | zero => exact h
  | succ i ih => exact ih _ (List.forall_mem_cons.mpr ⟨hexDigit_isHex value, h⟩)

theorem hexDigits_appendHex64 (value : UInt64) : ∀ c ∈ appendHex64 value, HexDigit c :=
  hexDigits_hexLoop _ _ fun c hc => by cases hc

theorem body_of_hexDigits {s : List Char} (h : ∀ c ∈ s, HexDigit c) : StringBody s := by
  apply StringBody.of_plain
  rw [List.all_eq_true]
  intro c hc
  refine isPlain_iff.mpr ⟨⟨?_, ?_⟩, ?_⟩
  · rintro rfl
    exact absurd (h _ hc) (by decide)
  · rintro rfl
    exact absurd (h _ hc) (by decide)
  · rcases h c hc with hdigit | ⟨hlow, -⟩ | ⟨hlow, -⟩
    · have hlow : 48 ≤ c.toNat := (Char.isDigit_iff_toNat.mp hdigit).1
      omega
    · have hlow : 97 ≤ c.toNat := hlow
      omega
    · have hlow : 65 ≤ c.toNat := hlow
      omega

/-! ## Members -/

def numberMember (name : String) (value : Nat) : List Char × Value :=
  (name.toList, .number (stdToString value))

/-- The member of `optionalField`. -/
def optionalMember (name : String) (value : Nat) : List (List Char × Value) :=
  if value ≠ 0 then [numberMember name value] else []

/-- The members of `args`. -/
def argsMembers (ev : TraceEvent) : List (List Char × Value) :=
  [numberMember "producer" ev.producerId.toNat] ++
    [numberMember "sequence" ev.localSequence.toNat] ++
    [numberMember "runtime" ev.runtimeId.toNat] ++
    optionalMember "worker" ev.workerId.toNat ++
    optionalMember "task" ev.taskId.toNat ++
    (if ev.targetRuntimeId ≠ 0 then
      [numberMember "target_runtime" ev.targetRuntimeId.toNat] ++
        [numberMember "target_task" ev.targetTaskId.toNat]
    else []) ++
    optionalMember "graph_run" ev.graphRunId.toNat ++
    optionalMember "node" ev.nodeId.toNat ++
    optionalMember "segment" ev.segmentSequence.toNat

/-- The characters between the quotes of a table's name. -/
def nameBody (name : Option String) : List Char := (name.getD "").toList.flatMap escapeChar

def timeMember (name : String) (ns : UInt64) : List Char × Value :=
  (name.toList, .number (appendNsAsUs ns))

/-- The digits of the flow id, behind its `0x`. -/
def flowDigits (ev : TraceEvent) : List Char := appendHex64 ev.runtimeId ++ appendHex64 ev.taskId

def flowMember (ev : TraceEvent) : List Char × Value :=
  ("id".toList, .string ("0x".toList ++ flowDigits ev))

def phaseMember (letter : String) : List Char × Value := ("ph".toList, .string letter.toList)

/-- The members that `phaseText` writes. -/
def phaseMembers (phase : Phase) (ev : TraceEvent) : List (List Char × Value) :=
  match phase with
  | .duration start =>
    [phaseMember "X"] ++ [timeMember "ts" start] ++ [timeMember "dur" (ev.timestampNs - start)]
  | .gap => [phaseMember "i"] ++ [timeMember "ts" ev.timestampNs]
  | .flowStart => [phaseMember "s"] ++ [timeMember "ts" ev.timestampNs] ++ [flowMember ev]
  | .flowFinish => [phaseMember "f"] ++ [timeMember "ts" ev.timestampNs] ++ [flowMember ev]
  | .instant => [phaseMember "i"] ++ [timeMember "ts" ev.timestampNs]

def eventMembers (phase : Phase) (ev : TraceEvent) : List (List Char × Value) :=
  [("name".toList, Value.string (nameBody (traceEventKindName ev.kind)))] ++
    [("cat".toList,
      Value.string (nameBody (traceCategoryName (ev.category.toUInt64 &&& 0xFFFF))))] ++
    phaseMembers phase ev ++
    [numberMember "pid" 1] ++
    [numberMember "tid" ev.producerId.toNat] ++
    [("args".toList, Value.object (argsMembers ev))]

/-- The value whose text is `eventText`. -/
def eventValue (phase : Phase) (ev : TraceEvent) : Value := .object (eventMembers phase ev)

/-- The text in front of a member's value: a comma, the name between quotes, a colon. -/
def Leads (lead name : String) : Prop :=
  lead.toList = ",\"".toList ++ name.toList ++ "\":".toList ∧ name.toList.all isPlain = true

/-- Characters instead of the strings, as the characters of a literal are slow to come by. -/
theorem Leads.of_chars {lead name : List Char} (hlead : lead = ',' :: '"' :: name ++ ['"', ':'])
    (hname : name.all isPlain = true) : Leads (String.ofList lead) (String.ofList name) := by
  unfold Leads
  rw [String.toList_ofList, String.toList_ofList, String.toList_ofList, String.toList_ofList]
  exact ⟨hlead, hname⟩

theorem Leads.first {lead name : List Char} (hlead : lead = '"' :: name ++ ['"', ':'])
    (hname : name.all isPlain = true) :
    Leads ("," ++ String.ofList lead) (String.ofList name) := by
  have hcomma : String.ofList [','] ++ String.ofList lead = String.ofList (',' :: lead) :=
    String.ofList_append.symm
  change Leads (String.ofList [','] ++ String.ofList lead) (String.ofList name)
  rw [hcomma]
  exact .of_chars (congrArg _ hlead) hname

/-- The first member, without the comma. -/
theorem isMembers_single (lead name : String) {v : Value} {t : List Char}
    (hlead : Leads ("," ++ lead) name) (hv : IsValue v t) :
    IsMembers [(name.toList, v)] (lead.toList ++ t) := by
  have hquoted : lead.toList = '"' :: name.toList ++ "\":".toList := by
    simpa using hlead.1
  have h := IsMembers.single (IsMember.plain (StringBody.of_plain hlead.2) hv)
  rw [hquoted]
  simpa using h

/-- One more member, with the comma in front of it. -/
theorem isMembers_snoc {ms : List (List Char × Value)} {v : Value} {t u : List Char}
    (hms : IsMembers ms t) (lead name : String) (hlead : Leads lead name) (hv : IsValue v u) :
    IsMembers (ms ++ [(name.toList, v)]) (t ++ lead.toList ++ u) := by
  have h := hms.append (.single (IsMember.plain (StringBody.of_plain hlead.2) hv))
  rw [hlead.1]
  simpa using h

/-- Members that are written only on a condition. -/
theorem isMembers_if {p : Prop} [Decidable p] {ms ms' : List (List Char × Value)}
    {t u : List Char} (hms : IsMembers ms t) (h : IsMembers (ms ++ ms') (t ++ u)) :
    IsMembers (ms ++ if p then ms' else []) (t ++ if p then u else []) := by
  split
  · exact h
  · rwa [List.append_nil, List.append_nil]

/-- A member that is written only if its field is set. -/
theorem isMembers_optional {ms : List (List Char × Value)} {t : List Char} (hms : IsMembers ms t)
    (lead name : String) (hlead : Leads lead name) (value : Nat) :
    IsMembers (ms ++ optionalMember name value) (t ++ optionalField lead value) := by
  apply isMembers_if hms
  rw [← List.append_assoc]
  exact isMembers_snoc hms lead name hlead (.number (isNumber_stdToString value))

/-- The target pair, written together. -/
theorem isMembers_target {ms : List (List Char × Value)} {t : List Char} (hms : IsMembers ms t)
    (ev : TraceEvent) : IsMembers
      (ms ++ if ev.targetRuntimeId ≠ 0 then
        [numberMember "target_runtime" ev.targetRuntimeId.toNat] ++
          [numberMember "target_task" ev.targetTaskId.toNat]
      else [])
      (t ++ if ev.targetRuntimeId ≠ 0 then
        ",\"target_runtime\":".toList ++ stdToString ev.targetRuntimeId.toNat ++
          ",\"target_task\":".toList ++ stdToString ev.targetTaskId.toNat
      else []) := by
  apply isMembers_if hms
  have hruntime := isMembers_snoc hms ",\"target_runtime\":" "target_runtime" (.of_chars rfl rfl)
    (.number (isNumber_stdToString ev.targetRuntimeId.toNat))
  have hpair := isMembers_snoc hruntime ",\"target_task\":" "target_task" (.of_chars rfl rfl)
    (.number (isNumber_stdToString ev.targetTaskId.toNat))
  simpa only [numberMember, List.append_assoc] using hpair

theorem isMembers_argsText (ev : TraceEvent) : IsMembers (argsMembers ev) (argsText ev) := by
  have hnumber : ∀ n, IsValue (.number (stdToString n)) (stdToString n) :=
    fun n => .number (isNumber_stdToString n)
  have hproducer := isMembers_single "\"producer\":" "producer" (.first rfl rfl)
    (hnumber ev.producerId.toNat)
  have hsequence := isMembers_snoc hproducer ",\"sequence\":" "sequence" (.of_chars rfl rfl)
    (hnumber ev.localSequence.toNat)
  have hruntime := isMembers_snoc hsequence ",\"runtime\":" "runtime" (.of_chars rfl rfl)
    (hnumber ev.runtimeId.toNat)
  have hworker := isMembers_optional hruntime ",\"worker\":" "worker" (.of_chars rfl rfl)
    ev.workerId.toNat
  have htask := isMembers_optional hworker ",\"task\":" "task" (.of_chars rfl rfl) ev.taskId.toNat
  have hpeer := isMembers_target htask ev
  have hgraph := isMembers_optional hpeer ",\"graph_run\":" "graph_run" (.of_chars rfl rfl)
    ev.graphRunId.toNat
  have hnode := isMembers_optional hgraph ",\"node\":" "node" (.of_chars rfl rfl) ev.nodeId.toNat
  exact isMembers_optional hnode ",\"segment\":" "segment" (.of_chars rfl rfl)
    ev.segmentSequence.toNat

/-! ## The object -/

theorem isValue_time (ns : UInt64) :
    IsValue (.number (appendNsAsUs ns)) (appendNsAsUs ns) :=
  .number (isNumber_appendNsAsUs ns)

/-- The text that closes the letter of a phase and names the time stamp. -/
def Closes (lead letter : String) : Prop :=
  lead.toList = letter.toList ++ "\",\"ts\":".toList ∧ letter.toList.all isPlain = true

theorem Closes.of_chars {lead letter : List Char}
    (hlead : lead = letter ++ ['"', ',', '"', 't', 's', '"', ':'])
    (hletter : letter.all isPlain = true) : Closes (String.ofList lead) (String.ofList letter) := by
  unfold Closes
  rw [String.toList_ofList, String.toList_ofList, String.toList_ofList]
  exact ⟨hlead, hletter⟩

/-- The phase's letter and the first time stamp. -/
theorem isMembers_phase (letter lead : String) {ms : List (List Char × Value)} {t : List Char}
    (hms : IsMembers ms t) (hlead : Closes lead letter) (ns : UInt64) :
    IsMembers (ms ++ [phaseMember letter] ++ [timeMember "ts" ns])
      (t ++ ",\"ph\":\"".toList ++ (lead.toList ++ appendNsAsUs ns)) := by
  have hph := isMembers_snoc hms ",\"ph\":" "ph" (.of_chars rfl rfl)
    (.string (StringBody.of_plain hlead.2))
  have hts := isMembers_snoc hph ",\"ts\":" "ts" (.of_chars rfl rfl) (isValue_time ns)
  have hopen : ",\"ph\":\"".toList = ",\"ph\":".toList ++ ['"'] := by
    rw [String.toList_ofList, String.toList_ofList]
    rfl
  have hclose : "\",\"ts\":".toList = '"' :: ",\"ts\":".toList := by
    rw [String.toList_ofList, String.toList_ofList]
  rw [hlead.1, hopen, hclose]
  simpa only [phaseMember, timeMember, List.append_assoc, List.cons_append, List.nil_append]
    using hts

/-- The flow id behind it. -/
theorem isMembers_flow {ms : List (List Char × Value)} {t : List Char} (hms : IsMembers ms t)
    (ev : TraceEvent) : IsMembers (ms ++ [flowMember ev]) (t ++ flowIdText ev) := by
  have hdigits : StringBody (flowDigits ev) := body_of_hexDigits
    (List.forall_mem_append.mpr ⟨hexDigits_appendHex64 _, hexDigits_appendHex64 _⟩)
  have hbody : StringBody ("0x".toList ++ flowDigits ev) := by
    rw [String.toList_ofList, List.cons_append, List.cons_append, List.nil_append]
    exact .plain (by decide) (by decide) (by decide)
      (.plain (by decide) (by decide) (by decide) hdigits)
  have hid := isMembers_snoc hms ",\"id\":" "id" (.of_chars rfl rfl) (.string hbody)
  have hopen : ",\"id\":\"0x".toList = ",\"id\":".toList ++ '"' :: "0x".toList := by
    rw [String.toList_ofList, String.toList_ofList, String.toList_ofList]
    rfl
  unfold flowIdText
  rw [hopen]
  simpa only [flowMember, flowDigits, List.append_assoc, List.cons_append, List.nil_append]
    using hid

theorem isMembers_phaseText {ms : List (List Char × Value)} {t : List Char}
    (hms : IsMembers ms t) (phase : Phase) (ev : TraceEvent) :
    IsMembers (ms ++ phaseMembers phase ev) (t ++ ",\"ph\":\"".toList ++ phaseText phase ev) := by
  unfold phaseMembers phaseText
  induction phase with
  | duration start =>
    have hts := isMembers_phase "X" "X\",\"ts\":" hms (.of_chars rfl rfl)
      start
    have hdur := isMembers_snoc hts ",\"dur\":" "dur" (.of_chars rfl rfl)
      (isValue_time (ev.timestampNs - start))
    simpa only [timeMember, List.append_assoc] using hdur
  | gap =>
    have hts := isMembers_phase "i" "i\",\"ts\":" hms (.of_chars rfl rfl)
      ev.timestampNs
    simpa only [List.append_assoc] using hts
  | flowStart =>
    have hts := isMembers_phase "s" "s\",\"ts\":" hms (.of_chars rfl rfl)
      ev.timestampNs
    have hid := isMembers_flow hts ev
    simpa only [List.append_assoc] using hid
  | flowFinish =>
    have hts := isMembers_phase "f" "f\",\"ts\":" hms (.of_chars rfl rfl)
      ev.timestampNs
    have hid := isMembers_flow hts ev
    simpa only [List.append_assoc] using hid
  | instant =>
    have hts := isMembers_phase "i" "i\",\"ts\":" hms (.of_chars rfl rfl)
      ev.timestampNs
    simpa only [List.append_assoc] using hts

theorem isValue_name {name : Option String} (h : name.isSome) :
    IsValue (.string (nameBody name)) (appendJsonName name) := by
  obtain ⟨text, rfl⟩ := Option.isSome_iff_exists.mp h
  exact .string (escape_body text.toList)

/-- The text of an event whose names exist is a JSON object, with the members of
`eventMembers`. -/
theorem isValue_eventText {ev : TraceEvent} (hkind : (traceEventKindName ev.kind).isSome)
    (hcategory : (traceCategoryName (ev.category.toUInt64 &&& 0xFFFF)).isSome) (phase : Phase) :
    IsValue (eventValue phase ev) (eventText phase ev) := by
  have hname := isMembers_single "\"name\":" "name" (.first rfl rfl) (isValue_name hkind)
  have hcat := isMembers_snoc hname ",\"cat\":" "cat" (.of_chars rfl rfl) (isValue_name hcategory)
  have hphase := isMembers_phaseText hcat phase ev
  have hpid := isMembers_snoc hphase ",\"pid\":" "pid" (.of_chars rfl rfl)
    (.number (isNumber_stdToString 1))
  have htid := isMembers_snoc hpid ",\"tid\":" "tid" (.of_chars rfl rfl)
    (.number (isNumber_stdToString ev.producerId.toNat))
  have hargs := isMembers_snoc htid ",\"args\":" "args" (.of_chars rfl rfl)
    (.object (isMembers_argsText ev))
  have hstart : "\x7b\"name\":".toList = '{' :: "\"name\":".toList := by
    rw [String.toList_ofList, String.toList_ofList]
  have hprocess : ",\"pid\":1,\"tid\":".toList =
      ",\"pid\":".toList ++ (stdToString 1 ++ ",\"tid\":".toList) := by
    rw [String.toList_ofList, String.toList_ofList, String.toList_ofList]
    rfl
  have hopen : ",\"args\":\x7b".toList = ",\"args\":".toList ++ ['{'] := by
    rw [String.toList_ofList, String.toList_ofList]
    rfl
  have hclose : "\x7d\x7d".toList = ['}'] ++ ['}'] := by
    rw [String.toList_ofList]
    rfl
  have hobject := IsValue.object hargs
  unfold eventText
  rw [hstart, hprocess, hopen, hclose]
  simpa only [eventValue, eventMembers, numberMember, List.append_assoc, List.cons_append,
    List.nil_append] using hobject

end AstraScheduler.Trace
