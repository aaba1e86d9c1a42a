import AstraScheduler.MetricsRecords
import Mathlib.Data.List.Infix

/-! # What the books owe to a task

A task stands at one stage of its life, and every stage comes to a fixed amount of each
counter and gauge.  A record takes a task from what one stage comes to, to what the next
does, and at no point of it has the task contributed less than nothing to any word. -/

namespace AstraScheduler
namespace RuntimeMetrics

open Postings

/-- How a task that has started ends. -/
inductive Completion where
  | succeeded
  | failed
  | cancelledCooperative
  deriving DecidableEq, Repr

def Completion.counter : Completion → Counter
  | .succeeded => .succeeded
  | .failed => .failed
  | .cancelledCooperative => .cancelledCooperative

/-- What the control block says once the task has ended. -/
def Completion.state : Completion → TaskState
  | .succeeded => .succeeded
  | .failed => .failed
  | .cancelledCooperative => .cancelled

/-- The stages; `published` says that the invoker has gone through `ReadyQueues::publish`. -/
inductive Stage where
  | ready (published : Bool)
  | running
  | suspended
  | completed (completion : Completion)
  | cancelledBeforeStart (published : Bool)
  deriving DecidableEq, Repr

/-- A task in the books: its stage, and what the deadline counters depend on. -/
structure Standing where
  stage : Stage
  hasDeadline : Bool
  disposition : DeadlineDisposition := .none
  deriving DecidableEq, Repr

/-- The task has had its first start. -/
def Stage.started : Stage → Bool
  | .running | .suspended | .completed _ => true
  | .ready _ | .cancelledBeforeStart _ => false

/-- The invoker has been published: none starts before. -/
def Stage.isPublished : Stage → Bool
  | .ready published | .cancelledBeforeStart published => published
  | .running | .suspended | .completed _ => true

/-- What the control block says at a stage. -/
def Stage.state : Stage → TaskState
  | .ready _ => .ready
  | .running => .running
  | .suspended => .suspended
  | .completed completion => completion.state
  | .cancelledBeforeStart _ => .cancelled

/-- The stages of a terminal task. -/
def Stage.terminal : Stage → Bool
  | .completed _ | .cancelledBeforeStart _ => true
  | .ready _ | .running | .suspended => false

theorem Stage.terminal_state (stage : Stage) : stage.state.terminal = stage.terminal := by
  cases stage with
  | completed completion => cases completion <;> rfl
  | _ => rfl

namespace Standing

/-- What a task at this stage comes to; the counters without conservation law are left out. -/
def due (t : Standing) : Counter ⊕ Gauge → Int
  | .inl .acceptedTaskIdentities => 1
  | .inl .firstStarts => t.stage.started.toInt
  | .inl .succeeded => (t.stage == .completed .succeeded).toInt
  | .inl .failed => (t.stage == .completed .failed).toInt
  | .inl .cancelledCooperative => (t.stage == .completed .cancelledCooperative).toInt
  | .inl .cancelledBeforeStart => (t.stage.terminal && !t.stage.started).toInt
  | .inl .deadlineAdmitted => (t.hasDeadline && t.stage.isPublished).toInt
  | .inl .deadlineMet => (t.hasDeadline && t.stage.started && t.disposition == .met).toInt
  | .inl .deadlineMissed => (t.hasDeadline && t.stage.started && t.disposition == .missed).toInt
  | .inl .deadlineCancelledBeforeStart =>
    (t.hasDeadline && t.stage.terminal && !t.stage.started).toInt
  | .inr .readyTasks => (!t.stage.started && !t.stage.terminal).toInt
  | .inr .runningTasks => (t.stage == .running).toInt
  | .inr .suspendedTasks => (t.stage == .suspended).toInt
  | .inl .resumeSegments | .inl .coroutineSuspends | .inl .graphRunsAccepted
  | .inl .graphNodesTerminal | .inr .activeGraphRuns => 0

/-- The items with a conservation law: a task may suspend and resume any number of times. -/
def tracked : Counter ⊕ Gauge → Bool
  | .inl .resumeSegments | .inl .coroutineSuspends | .inl .graphRunsAccepted
  | .inl .graphNodesTerminal => false
  | _ => true

/-- The records that bring a task to its stage. -/
def records (t : Standing) : List (List Update) :=
  match t.stage with
  | .ready false => [recordAcquired 1]
  | .ready true => [recordPublished t.hasDeadline]
  | .running =>
    [recordFirstStart (if t.hasDeadline then some t.disposition else none),
      recordResumed ++ recordResumeSegment]
  | .suspended => [recordSuspended]
  | .completed completion => [recordOutcome completion.counter]
  | .cancelledBeforeStart _ => [recordCancelledBeforeStart t.hasDeadline]

/-- The account of a task while `left` is still to be recorded. -/
def account (t : Standing) (left : List Update) : Account (Counter ⊕ Gauge) where
  due := t.due
  left := left.map Update.posting

/-- What the account has posted while `left` is still to be recorded. -/
def posted (t : Standing) (left : List Update) (k : Counter ⊕ Gauge) : Int :=
  (t.account left).posted k

/-- A task contributes less than nothing to no word while it is being recorded. -/
theorem posted_nonneg (t : Standing) {r left : List Update} (hr : r ∈ t.records)
    (hleft : left <:+ r) (k : Counter ⊕ Gauge) (hk : tracked k) : 0 ≤ t.posted left k := by
  have hall : (∀ c, tracked (.inl c) → ∀ r ∈ t.records, ∀ left ∈ r.tails,
      0 ≤ t.posted left (.inl c)) ∧
        ∀ g, ∀ r ∈ t.records, ∀ left ∈ r.tails, 0 ≤ t.posted left (.inr g) := by
    clear hr hleft
    rcases t with ⟨stage, hasDeadline, disposition⟩
    cases stage with
    | ready published | cancelledBeforeStart published =>
      cases published <;> cases hasDeadline <;> cases disposition <;> decide
    | running | suspended =>
      cases hasDeadline <;> cases disposition <;> decide
    | completed completion =>
      cases completion <;> cases hasDeadline <;> cases disposition <;> decide
  rcases k with c | g
  · exact hall.1 c hk r hr left ((List.mem_tails _ _).mpr hleft)
  · exact hall.2 g r hr left ((List.mem_tails _ _).mpr hleft)

/-- A task raises a gauge only after it is counted as accepted. -/
theorem posted_gauge_le (t : Standing) {r left : List Update} (hr : r ∈ t.records)
    (hleft : left <:+ r) (g : Gauge) :
    t.posted left (.inr g) ≤ t.posted left (.inl .acceptedTaskIdentities) := by
  have hall : ∀ g, ∀ r ∈ t.records, ∀ left ∈ r.tails,
      t.posted left (.inr g) ≤ t.posted left (.inl .acceptedTaskIdentities) := by
    clear hr hleft
    rcases t with ⟨stage, hasDeadline, disposition⟩
    cases stage with
    | ready published | cancelledBeforeStart published =>
      cases published <;> cases hasDeadline <;> cases disposition <;> decide
    | running | suspended =>
      cases hasDeadline <;> cases disposition <;> decide
    | completed completion =>
      cases completion <;> cases hasDeadline <;> cases disposition <;> decide
  exact hall g r hr left ((List.mem_tails _ _).mpr hleft)

/-! ## From one stage to the next -/

/-- A record takes a task from one standing to the next. -/
inductive Moves : Standing → List Update → Standing → Prop
  | publish (d : Bool) (p : DeadlineDisposition) :
    Moves ⟨.ready false, d, p⟩ (recordPublished d) ⟨.ready true, d, p⟩
  | start (d : Bool) (p p' : DeadlineDisposition) :
    Moves ⟨.ready true, d, p⟩ (recordFirstStart (if d then some p' else none)) ⟨.running, d, p'⟩
  | suspend (d : Bool) (p : DeadlineDisposition) :
    Moves ⟨.running, d, p⟩ recordSuspended ⟨.suspended, d, p⟩
  | resume (d : Bool) (p : DeadlineDisposition) :
    Moves ⟨.suspended, d, p⟩ (recordResumed ++ recordResumeSegment) ⟨.running, d, p⟩
  | complete (c : Completion) (d : Bool) (p : DeadlineDisposition) :
    Moves ⟨.running, d, p⟩ (recordOutcome c.counter) ⟨.completed c, d, p⟩
  | cancel (published d : Bool) (p : DeadlineDisposition) :
    Moves ⟨.ready published, d, p⟩ (recordCancelledBeforeStart d)
      ⟨.cancelledBeforeStart published, d, p⟩

theorem Moves.mem_records {t t' : Standing} {r : List Update} (h : Moves t r t') :
    r ∈ t'.records := by
  cases h <;> simp [records]

/-- When a record begins, nothing has been posted that was not before. -/
theorem Moves.posted {t t' : Standing} {r : List Update} (h : Moves t r t')
    (k : Counter ⊕ Gauge) (hk : tracked k) : t'.posted r k = t.posted [] k := by
  have hall : (∀ c, tracked (.inl c) → t'.posted r (.inl c) = t.posted [] (.inl c)) ∧
      ∀ g, t'.posted r (.inr g) = t.posted [] (.inr g) := by
    clear hk
    cases h with
    | publish d p | suspend d p | resume d p => cases d <;> cases p <;> decide
    | start d p p' => cases d <;> cases p <;> cases p' <;> decide
    | complete c d p => cases c <;> cases d <;> cases p <;> decide
    | cancel published d p => cases published <;> cases d <;> cases p <;> decide
  rcases k with c | g
  · exact hall.1 c hk
  · exact hall.2 g

/-- A task that is being admitted has posted nothing. -/
theorem posted_admitted (d : Bool) (k : Counter ⊕ Gauge) (hk : tracked k) :
    (⟨.ready false, d, .none⟩ : Standing).posted (recordAcquired 1) k = 0 := by
  have hall : (∀ c, tracked (.inl c) →
      (⟨.ready false, d, .none⟩ : Standing).posted (recordAcquired 1) (.inl c) = 0) ∧
        ∀ g, (⟨.ready false, d, .none⟩ : Standing).posted (recordAcquired 1) (.inr g) = 0 := by
    clear hk
    cases d <;> decide
  rcases k with c | g
  · exact hall.1 c hk
  · exact hall.2 g

end Standing

/-! ## The conservation laws -/

/-- The laws that hold of metrics at rest. -/
inductive Law where
  | accepted
  | firstStarts
  | deadlines
  | readyTasks
  | runningTasks
  | suspendedTasks
  deriving DecidableEq, Repr

instance : Fintype Law where
  elems := ⟨↑[Law.accepted, .firstStarts, .deadlines, .readyTasks, .runningTasks,
    .suspendedTasks], by decide⟩
  complete law := by cases law <;> decide

/-- By how much the books miss a law. -/
def Law.gap (b : Counter ⊕ Gauge → Int) : Law → Int
  | .accepted => b (.inl .acceptedTaskIdentities) -
      (b (.inl .succeeded) + b (.inl .failed) + b (.inl .cancelledBeforeStart) +
        b (.inl .cancelledCooperative))
  | .firstStarts => b (.inl .firstStarts) -
      (b (.inl .succeeded) + b (.inl .failed) + b (.inl .cancelledCooperative))
  | .deadlines => b (.inl .deadlineAdmitted) -
      (b (.inl .deadlineMet) + b (.inl .deadlineMissed) +
        b (.inl .deadlineCancelledBeforeStart))
  | .readyTasks => b (.inr .readyTasks)
  | .runningTasks => b (.inr .runningTasks)
  | .suspendedTasks => b (.inr .suspendedTasks)

/-- The books of many accounts miss a law by what the accounts miss it together. -/
theorem Law.gap_sum {ι : Type*} (accounts : Finset ι) (posted : ι → Counter ⊕ Gauge → Int)
    {b : Counter ⊕ Gauge → Int}
    (h : ∀ k, Standing.tracked k → b k = ∑ i ∈ accounts, posted i k) (law : Law) :
    law.gap b = ∑ i ∈ accounts, law.gap (posted i) := by
  cases law with
  | accepted =>
    simp only [Law.gap, Finset.sum_sub_distrib, Finset.sum_add_distrib,
      h (.inl .acceptedTaskIdentities) rfl, h (.inl .succeeded) rfl, h (.inl .failed) rfl,
      h (.inl .cancelledBeforeStart) rfl, h (.inl .cancelledCooperative) rfl]
  | firstStarts =>
    simp only [Law.gap, Finset.sum_sub_distrib, Finset.sum_add_distrib,
      h (.inl .firstStarts) rfl, h (.inl .succeeded) rfl, h (.inl .failed) rfl,
      h (.inl .cancelledCooperative) rfl]
  | deadlines =>
    simp only [Law.gap, Finset.sum_sub_distrib, Finset.sum_add_distrib,
      h (.inl .deadlineAdmitted) rfl, h (.inl .deadlineMet) rfl, h (.inl .deadlineMissed) rfl,
      h (.inl .deadlineCancelledBeforeStart) rfl]
  | readyTasks => exact h (.inr .readyTasks) rfl
  | runningTasks => exact h (.inr .runningTasks) rfl
  | suspendedTasks => exact h (.inr .suspendedTasks) rfl

/-- The counters and gauges of a snapshot obey the laws. -/
structure Snapshot.Conserved (s : Snapshot) : Prop where
  accepted : s.counters .acceptedTaskIdentities = s.counters .succeeded + s.counters .failed +
    s.counters .cancelledBeforeStart + s.counters .cancelledCooperative
  firstStarts : s.counters .firstStarts =
    s.counters .succeeded + s.counters .failed + s.counters .cancelledCooperative
  deadlines : s.counters .deadlineAdmitted = s.counters .deadlineMet + s.counters .deadlineMissed +
    s.counters .deadlineCancelledBeforeStart
  readyTasks : s.gauges .readyTasks = 0
  runningTasks : s.gauges .runningTasks = 0
  suspendedTasks : s.gauges .suspendedTasks = 0

/-- Metrics that are off have nothing to conserve. -/
theorem conserved_of_off {m : RuntimeMetrics} (h : m.level = .off) : m.snapshot.Conserved := by
  rw [snapshot, if_pos h]
  exact ⟨rfl, rfl, rfl, rfl, rfl, rfl⟩

theorem conserved_iff {m : RuntimeMetrics} (h : m.Exact) (hlevel : m.level ≠ .off) :
    m.snapshot.Conserved ↔ ∀ law : Law, law.gap m.books = 0 := by
  have hgauges : m.snapshot.gauges = m.gauges := by rw [snapshot, if_neg hlevel]
  constructor
  · rintro ⟨h1, h2, h3, h4, h5, h6⟩
    simp only [h.counters hlevel, hgauges] at h1 h2 h3 h4 h5 h6
    intro law
    cases law <;> simp only [Law.gap, books] <;> omega
  · intro hlaw
    refine ⟨?_, ?_, ?_, ?_, ?_, ?_⟩ <;> simp only [h.counters hlevel, hgauges]
    · have hgap := hlaw .accepted
      simp only [Law.gap, books] at hgap
      omega
    · have hgap := hlaw .firstStarts
      simp only [Law.gap, books] at hgap
      omega
    · have hgap := hlaw .deadlines
      simp only [Law.gap, books] at hgap
      omega
    · exact Int.ofNat_inj.mp (hlaw .readyTasks)
    · exact Int.ofNat_inj.mp (hlaw .runningTasks)
    · exact Int.ofNat_inj.mp (hlaw .suspendedTasks)

namespace Standing

/-- The standing of a task that has gone through `publish`, and that was judged if it started. -/
structure Regular (t : Standing) : Prop where
  published : t.stage.isPublished
  judged : t.stage.started → t.hasDeadline → t.disposition ≠ .none

/-- A terminal task misses no law by less than nothing, and only what is still to be recorded
makes it miss one. -/
theorem gap_terminal (t : Standing) (hterm : t.stage.terminal) (ht : t.Regular)
    {r left : List Update} (hr : r ∈ t.records) (hleft : left <:+ r) :
    (∀ law : Law, 0 ≤ law.gap (t.posted left)) ∧
      ((∀ law : Law, law.gap (t.posted left) = 0) ↔ left = []) := by
  have hall : ∀ r ∈ t.records, ∀ left ∈ r.tails, (∀ law : Law, 0 ≤ law.gap (t.posted left)) ∧
      ((∀ law : Law, law.gap (t.posted left) = 0) ↔ left = []) := by
    clear hr hleft
    rcases t with ⟨stage, hasDeadline, disposition⟩
    obtain ⟨hpublished, hjudged⟩ := ht
    cases stage with
    | ready published | running | suspended => cases hterm
    | cancelledBeforeStart published =>
      obtain rfl : published = true := hpublished
      cases hasDeadline <;> cases disposition <;> decide
    | completed completion =>
      cases hasDeadline with
      | false => cases completion <;> cases disposition <;> decide
      | true =>
        have hne : disposition ≠ .none := hjudged rfl rfl
        cases disposition with
        | none => exact absurd rfl hne
        | met | missed => cases completion <;> decide
  exact hall r hr left ((List.mem_tails _ _).mpr hleft)

end Standing
end RuntimeMetrics
end AstraScheduler
