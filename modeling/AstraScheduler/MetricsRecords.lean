import AstraScheduler.AdmissionRollback
import AstraScheduler.Postings
import AstraScheduler.Status
import Mathlib.Data.Fintype.Defs

/-! # The metrics of a runtime and what is recorded in them

Every counter has a word for each worker and one for all other threads, and the gauges are
shared.  A `record_metrics_*` function makes its updates one after the other, so that the
updates of other threads may come in between; a snapshot adds up the words. -/

namespace AstraScheduler

/-- `DeadlineDisposition` (task_options.hpp). -/
inductive DeadlineDisposition where
  | none
  | met
  | missed
  deriving DecidableEq, Repr

namespace RuntimeMetrics

open Postings

/-- The counters of a `WorkerShard` that follow a task from its admission to its outcome. -/
inductive Counter where
  | acceptedTaskIdentities
  | firstStarts
  | resumeSegments
  | succeeded
  | failed
  | cancelledBeforeStart
  | cancelledCooperative
  | coroutineSuspends
  | graphRunsAccepted
  | graphNodesTerminal
  | deadlineAdmitted
  | deadlineMet
  | deadlineMissed
  | deadlineCancelledBeforeStart
  deriving DecidableEq, Repr

instance : Fintype Counter where
  elems := ⟨↑[Counter.acceptedTaskIdentities, .firstStarts, .resumeSegments, .succeeded, .failed,
    .cancelledBeforeStart, .cancelledCooperative, .coroutineSuspends, .graphRunsAccepted,
    .graphNodesTerminal, .deadlineAdmitted, .deadlineMet, .deadlineMissed,
    .deadlineCancelledBeforeStart], by decide⟩
  complete c := by cases c <;> decide

/-- The gauges of the task states, and of the graph runs. -/
inductive Gauge where
  | readyTasks
  | runningTasks
  | suspendedTasks
  | activeGraphRuns
  deriving DecidableEq, Repr

instance : Fintype Gauge where
  elems := ⟨↑[Gauge.readyTasks, .runningTasks, .suspendedTasks, .activeGraphRuns], by decide⟩
  complete g := by cases g <;> decide

/-- One atomic read-modify-write. -/
inductive Update where
  /-- `saturating_inc`. -/
  | inc (counter : Counter)
  /-- `saturating_add`. -/
  | add (counter : Counter) (count : Nat)
  /-- `fetch_add`. -/
  | raise (gauge : Gauge) (count : Nat)
  /-- `saturating_dec`. -/
  | lower (gauge : Gauge)
  deriving DecidableEq, Repr

/-! ## What is recorded -/

def recordFirstStart (disposition : Option DeadlineDisposition) : List Update :=
  [Update.inc .firstStarts, Update.lower .readyTasks, Update.raise .runningTasks 1] ++
    match disposition with
    | some .met => [Update.inc .deadlineMet]
    | some .missed => [Update.inc .deadlineMissed]
    | some .none | none => []

/-- `record_metrics_succeeded`, `record_metrics_failed` and
`record_metrics_cancelled_cooperative`. -/
def recordOutcome (counter : Counter) : List Update := [.inc counter, .lower .runningTasks]

def recordCancelledBeforeStart (hasDeadline : Bool) : List Update :=
  [Update.inc .cancelledBeforeStart, Update.lower .readyTasks] ++
    if hasDeadline then [Update.inc .deadlineCancelledBeforeStart] else []

def recordSuspended : List Update :=
  [.inc .coroutineSuspends, .lower .runningTasks, .raise .suspendedTasks 1]

def recordResumed : List Update := [.lower .suspendedTasks, .raise .readyTasks 1]

def recordResumeSegment : List Update :=
  [.inc .resumeSegments, .lower .readyTasks, .raise .runningTasks 1]

/-- What `AdmissionController::acquire` records when it succeeds. -/
def recordAcquired (count : Nat) : List Update :=
  [.add .acceptedTaskIdentities count, .raise .readyTasks count]

/-- What `ReadyQueues::publish` records of an invoker that is no resume segment. -/
def recordPublished (hasDeadline : Bool) : List Update :=
  if hasDeadline then [.inc .deadlineAdmitted] else []

def recordGraphStarted : List Update := [.inc .graphRunsAccepted, .raise .activeGraphRuns 1]

def recordGraphNodeTerminal : List Update := [.inc .graphNodesTerminal]

def recordGraphRunCompleted : List Update := [.lower .activeGraphRuns]

end RuntimeMetrics

/-! ## The words -/

open RuntimeMetrics (Counter Gauge Update counterMax)

/-- The counters and gauges of a `RuntimeMetrics`. -/
structure RuntimeMetrics where
  level : MetricsLevel
  controlShard : Counter → Nat
  workerShards : List (Counter → Nat)
  gauges : Gauge → Nat

namespace RuntimeMetrics

open Postings
open AdmissionRollback (fetchAdd)

/-- `RuntimeMetrics::init`. -/
def init (level : MetricsLevel) (workerCount : Nat) : RuntimeMetrics where
  level := level
  controlShard _ := 0
  workerShards := if level = .off then [] else List.replicate workerCount fun _ => 0
  gauges _ := 0

/-- A record function does nothing when the metrics are off. -/
def record (level : MetricsLevel) (updates : List Update) : List Update :=
  if level = .off then [] else updates

variable (m : RuntimeMetrics)

/-- A change of `shard_for_current`: the shard of a worker of this runtime, or the control
shard for any other thread. -/
def modifyShard (worker : Option Nat) (f : (Counter → Nat) → Counter → Nat) : RuntimeMetrics :=
  match worker with
  | some i =>
    if i < m.workerShards.length then { m with workerShards := m.workerShards.modify i f }
    else { m with controlShard := f m.controlShard }
  | none => { m with controlShard := f m.controlShard }

/-- One update, by a worker of this runtime or by another thread. -/
def apply (worker : Option Nat) : Update → RuntimeMetrics
  | .inc c => m.modifyShard worker fun shard => Function.update shard c (saturatingInc (shard c))
  | .add c count =>
    m.modifyShard worker fun shard => Function.update shard c (saturatingAdd (shard c) count)
  | .raise g count => { m with gauges := Function.update m.gauges g (fetchAdd (m.gauges g) count) }
  | .lower g => { m with gauges := Function.update m.gauges g (saturatingDec (m.gauges g)) }

/-! ## Snapshots -/

/-- `add_to`. -/
def addTo (dst : Nat × Bool) (src : Nat) : Nat × Bool :=
  if src = counterMax ∨ counterMax - dst.1 < src then (counterMax, true)
  else (dst.1 + src, dst.2)

/-- The control shard and the worker shards, in the order in which they are added up. -/
def shards : List (Counter → Nat) := m.controlShard :: m.workerShards

/-- One counter in all shards, and whether it has saturated. -/
def accumulate (c : Counter) : Nat × Bool :=
  (m.shards.map (· c)).foldl addTo (0, false)

/-- `RuntimeMetricsSnapshot`. -/
structure Snapshot where
  counters : Counter → Nat
  gauges : Gauge → Nat
  saturated : Bool

/-- `metrics_snapshot`, of metrics that nobody is updating. -/
def snapshot : Snapshot :=
  if m.level = .off then ⟨fun _ => 0, fun _ => 0, false⟩
  else ⟨fun c => (m.accumulate c).1, m.gauges, decide (∃ c, (m.accumulate c).2)⟩

/-! ## Updates that lose nothing -/

/-- What the words of a counter add up to. -/
def total (c : Counter) : Nat := (m.shards.map (· c)).sum

/-- No word of a counter has reached its largest value, and neither has a sum. -/
def Exact : Prop :=
  ∀ c, (∀ shard ∈ m.shards, shard c ≠ counterMax) ∧ m.total c ≤ counterMax

theorem foldl_addTo_flag (l : List Nat) (dst : Nat × Bool) (hdst : dst.1 ≤ counterMax) :
    (l.foldl addTo dst).2 = false ↔
      dst.2 = false ∧ (∀ x ∈ l, x ≠ counterMax) ∧ dst.1 + l.sum ≤ counterMax := by
  induction l generalizing dst with
  | nil => simpa using fun _ => hdst
  | cons x l ih =>
    rw [List.foldl_cons]
    by_cases hsat : x = counterMax ∨ counterMax - dst.1 < x
    · rw [addTo, if_pos hsat, ih (counterMax, true) (Nat.le_refl _)]
      simp only [List.forall_mem_cons, List.sum_cons]
      refine iff_of_false (fun h => Bool.noConfusion h.1) fun ⟨_, ⟨hx, _⟩, hle⟩ => ?_
      rcases hsat with heq | hlt
      · exact hx heq
      · omega
    · obtain ⟨hx, hle⟩ := not_or.mp hsat
      rw [addTo, if_neg hsat, ih (dst.1 + x, dst.2) (by show dst.1 + x ≤ counterMax; omega)]
      simp only [List.forall_mem_cons, List.sum_cons, Nat.add_assoc]
      exact ⟨fun ⟨hflag, hall, hsum⟩ => ⟨hflag, ⟨hx, hall⟩, hsum⟩,
        fun ⟨hflag, ⟨_, hall⟩, hsum⟩ => ⟨hflag, hall, hsum⟩⟩

theorem foldl_addTo_of_flag (l : List Nat) (dst : Nat × Bool)
    (h : (l.foldl addTo dst).2 = false) : (l.foldl addTo dst).1 = dst.1 + l.sum := by
  induction l generalizing dst with
  | nil => rfl
  | cons x l ih =>
    rw [List.foldl_cons] at h ⊢
    by_cases hsat : x = counterMax ∨ counterMax - dst.1 < x
    · rw [addTo, if_pos hsat] at h
      have hflag := (foldl_addTo_flag l (counterMax, true) (Nat.le_refl _)).mp h
      cases hflag.1
    · rw [ih _ h, addTo, if_neg hsat, List.sum_cons, Nat.add_assoc]

variable {m}

/-- The flag of a snapshot tells whether the words are exact. -/
theorem saturated_eq_false_iff (hlevel : m.level ≠ .off) :
    m.snapshot.saturated = false ↔ m.Exact := by
  rw [snapshot, if_neg hlevel]
  simp only [decide_eq_false_iff_not, not_exists, Bool.not_eq_true]
  refine forall_congr' fun c => ?_
  rw [accumulate, foldl_addTo_flag _ _ (Nat.zero_le _)]
  simp [total]

theorem Exact.counters (h : m.Exact) (hlevel : m.level ≠ .off) (c : Counter) :
    m.snapshot.counters c = m.total c := by
  have hflag := (saturated_eq_false_iff hlevel).mpr h
  rw [snapshot, if_neg hlevel] at hflag ⊢
  have hc : (m.accumulate c).2 = false := by
    have hno := of_decide_eq_false hflag
    simpa using not_exists.mp hno c
  show (m.accumulate c).1 = m.total c
  rw [accumulate, foldl_addTo_of_flag _ _ hc, Nat.zero_add, total]

/-- One shard changes. -/
theorem modifyShard_shards (m : RuntimeMetrics) (worker : Option Nat)
    (f : (Counter → Nat) → Counter → Nat) : ∃ l shard l',
      m.shards = l ++ shard :: l' ∧ (m.modifyShard worker f).shards = l ++ f shard :: l' := by
  have hcontrol : ∃ l shard l', m.shards = l ++ shard :: l' ∧
      ({ m with controlShard := f m.controlShard } : RuntimeMetrics).shards = l ++ f shard :: l' :=
    ⟨[], m.controlShard, m.workerShards, rfl, rfl⟩
  cases worker with
  | none => exact hcontrol
  | some i =>
    simp only [modifyShard]
    split
    · rename_i hlt
      obtain ⟨l, shard, l', heq, -, hmodify⟩ := List.exists_of_modify f hlt
      exact ⟨m.controlShard :: l, shard, l', by rw [shards, heq]; rfl, by rw [shards, hmodify]; rfl⟩
    · exact hcontrol

@[simp] theorem modifyShard_gauges (worker : Option Nat) (f : (Counter → Nat) → Counter → Nat) :
    (m.modifyShard worker f).gauges = m.gauges := by
  unfold modifyShard
  split
  · split <;> rfl
  · rfl

@[simp] theorem apply_level (m : RuntimeMetrics) (worker : Option Nat) (u : Update) :
    (m.apply worker u).level = m.level := by
  cases u with
  | inc c | add c count =>
    simp only [apply, modifyShard]
    split
    · split <;> rfl
    · rfl
  | raise g count | lower g => rfl

/-- A word that has not saturated has taken the whole amount. -/
theorem add_of_exact {cur val cur' : Nat}
    (h : cur' = saturatingAdd cur val ∨ val = 1 ∧ cur' = saturatingInc cur)
    (hne : cur' ≠ counterMax) (hle : cur' ≤ counterMax) : cur' = cur + val := by
  rcases h with rfl | ⟨rfl, rfl⟩
  · unfold saturatingAdd at *
    split
    · omega
    · rename_i hval
      rw [if_neg hval] at hne
      split
      · rename_i hlt
        exact absurd (if_pos hlt) hne
      · rfl
  · unfold saturatingInc at *
    split
    · rfl
    · rename_i hlt
      rw [if_neg hlt] at hne hle
      omega

/-- What an update adds to an item, unless a word saturates or wraps around. -/
def Update.posting : Update → Posting (Counter ⊕ Gauge)
  | .inc c => ⟨.inl c, 1⟩
  | .add c count => ⟨.inl c, count⟩
  | .raise g count => ⟨.inr g, count⟩
  | .lower g => ⟨.inr g, -1⟩

/-- What the metrics hold of an item. -/
def books (m : RuntimeMetrics) : Counter ⊕ Gauge → Int
  | .inl c => m.total c
  | .inr g => m.gauges g

/-- A counter of one shard is raised: nothing else changes, and nothing was lost before. -/
theorem Exact.of_modify {worker : Option Nat} {c : Counter} {g : Nat → Nat} {val : Nat}
    (hg : ∀ cur, g cur ≠ counterMax → g cur ≤ counterMax → g cur = cur + val)
    (h : (m.modifyShard worker fun shard => Function.update shard c (g (shard c))).Exact) :
    m.Exact ∧ ∀ c', (m.modifyShard worker fun shard =>
      Function.update shard c (g (shard c))).total c' = m.total c' + if c = c' then val else 0 := by
  obtain ⟨l, shard, l', heq, heq'⟩ := m.modifyShard_shards worker fun shard =>
    Function.update shard c (g (shard c))
  have hword : g (shard c) = shard c + val := by
    obtain ⟨hne, hle⟩ := h c
    rw [total, heq'] at hle
    rw [heq'] at hne
    simp only [List.map_append, List.map_cons, List.sum_append, List.sum_cons,
      Function.update_self] at hle
    have hmax := hne _ (List.mem_append_right _ (List.mem_cons_self ..))
    rw [Function.update_self] at hmax
    exact hg _ hmax (by omega)
  have htotal : ∀ c', (m.modifyShard worker fun shard =>
      Function.update shard c (g (shard c))).total c' = m.total c' + if c = c' then val else 0 := by
    intro c'
    rw [total, total, heq, heq']
    simp only [List.map_append, List.map_cons, List.sum_append, List.sum_cons]
    by_cases hc : c = c'
    · subst hc
      rw [Function.update_self, hword, if_pos rfl]
      omega
    · rw [Function.update_of_ne (Ne.symm hc), if_neg hc]
      omega
  refine ⟨fun c' => ?_, htotal⟩
  obtain ⟨hne, hle⟩ := h c'
  rw [htotal] at hle
  refine ⟨fun x hx => ?_, by omega⟩
  rw [heq'] at hne
  rw [heq] at hx
  rcases List.mem_append.mp hx with hx | hx
  · exact hne x (List.mem_append_left _ hx)
  rcases List.mem_cons.mp hx with rfl | hx
  · have hmax := hne _ (List.mem_append_right _ (List.mem_cons_self ..))
    by_cases hc : c = c'
    · subst hc
      have hmem : x c ≤ m.total c := by
        rw [total, heq]
        simp only [List.map_append, List.map_cons, List.sum_append, List.sum_cons]
        omega
      rw [Function.update_self, hword] at hmax
      rw [if_pos rfl] at hle
      omega
    · rwa [Function.update_of_ne (Ne.symm hc)] at hmax
  · exact hne x (List.mem_append_right _ (List.mem_cons_of_mem _ hx))

/-- Nothing was lost before an update if nothing is after it. -/
theorem Exact.before {worker : Option Nat} {u : Update} (h : (m.apply worker u).Exact) :
    m.Exact := by
  cases u with
  | inc c =>
    exact (Exact.of_modify (fun cur hne hle => add_of_exact (.inr ⟨rfl, rfl⟩) hne hle) h).1
  | add c count =>
    exact (Exact.of_modify (fun cur hne hle => add_of_exact (.inl rfl) hne hle) h).1
  | raise g count | lower g => exact h

/-- **What an update does to the books** when no counter is saturated afterwards, no gauge
wraps around and none is lowered below zero. -/
theorem Exact.books_apply {worker : Option Nat} {u : Update} (h : (m.apply worker u).Exact)
    (hraise : ∀ g count, u = .raise g count → m.gauges g + count < 2 ^ 64)
    (hlower : ∀ g, u = .lower g → 0 < m.gauges g) (k : Counter ⊕ Gauge) :
    (m.apply worker u).books k = m.books k + outstanding [u.posting] k := by
  have hcounter : ∀ (c : Counter) (val : Nat), u.posting = ⟨.inl c, val⟩ →
      (∀ c', (m.apply worker u).total c' = m.total c' + if c = c' then val else 0) →
        (m.apply worker u).gauges = m.gauges →
          (m.apply worker u).books k = m.books k + outstanding [u.posting] k := by
    intro c val hu htotal hgauges
    rw [hu]
    rcases k with c' | g'
    · simp only [books, htotal, outstanding, Sum.inl.injEq]
      split <;> omega
    · simp [books, hgauges, outstanding]
  have hgauge : ∀ (g : Gauge) (val : Int), u.posting = ⟨.inr g, val⟩ →
      (m.apply worker u).total = m.total →
        (∀ g', ((m.apply worker u).gauges g' : Int) = m.gauges g' + if g = g' then val else 0) →
          (m.apply worker u).books k = m.books k + outstanding [u.posting] k := by
    intro g val hu htotal hgauges
    rw [hu]
    rcases k with c' | g'
    · simp [books, htotal, outstanding]
    · simp only [books, hgauges, outstanding, Sum.inr.injEq]
      omega
  cases u with
  | inc c =>
    exact hcounter c 1 rfl
      (Exact.of_modify (fun cur hne hle => add_of_exact (.inr ⟨rfl, rfl⟩) hne hle) h).2
      (modifyShard_gauges ..)
  | add c count =>
    exact hcounter c count rfl
      (Exact.of_modify (fun cur hne hle => add_of_exact (.inl rfl) hne hle) h).2
      (modifyShard_gauges ..)
  | raise g count =>
    refine hgauge g count rfl rfl fun g' => ?_
    have hlt := hraise g count rfl
    by_cases hg : g = g'
    · subst hg
      simp only [apply, Function.update_self, fetchAdd, Nat.mod_eq_of_lt hlt, if_true]
      omega
    · simp [apply, Function.update_of_ne (Ne.symm hg), hg]
  | lower g =>
    refine hgauge g (-1) rfl rfl fun g' => ?_
    have hpos := hlower g rfl
    by_cases hg : g = g'
    · subst hg
      simp only [apply, Function.update_self, saturatingDec_eq, if_true]
      omega
    · simp [apply, Function.update_of_ne (Ne.symm hg), hg]

/-- Fresh metrics hold nothing. -/
theorem init_books (level : MetricsLevel) (workerCount : Nat) (k : Counter ⊕ Gauge) :
    (init level workerCount).books k = 0 := by
  rcases k with c | g
  · simp only [books, total, shards, init, List.map_cons, List.sum_cons]
    split <;> simp
  · rfl

/-- **One update, posted by one account.**  The items `K` stay in balance: a gauge that is
lowered is positive since no account has posted less than nothing, and one that is raised is
no larger than a counter that has not saturated. -/
theorem Exact.balanced_apply {ι : Type*} [DecidableEq ι] {accounts : Finset ι}
    {account account' : ι → Account (Counter ⊕ Gauge)} {K : Counter ⊕ Gauge → Prop}
    {bound : Gauge → Counter} {worker : Option Nat} {u : Update} {i : ι}
    (h : (m.apply worker u).Exact) (hi : i ∈ accounts)
    (hbooks : ∀ k, K k → Balanced accounts account m.books k)
    (hpost : ∀ k, K k → (account' i).posted k = (account i).posted k + outstanding [u.posting] k)
    (hothers : ∀ j ∈ accounts, j ≠ i → ∀ k, (account' j).posted k = (account j).posted k)
    (hnonneg : ∀ j ∈ accounts, ∀ k, K k → 0 ≤ (account j).posted k)
    (hnonneg' : ∀ k, K k → 0 ≤ (account' i).posted k)
    (hbound : ∀ j ∈ accounts, ∀ g,
      (account' j).posted (.inr g) ≤ (account' j).posted (.inl (bound g)))
    (hK : ∀ g, K (.inr g) ∧ K (.inl (bound g))) (k : Counter ⊕ Gauge) (hk : K k) :
    Balanced accounts account' (m.apply worker u).books k := by
  -- the books with the update taken down exactly
  have hbalanced : ∀ k, K k → Balanced accounts account'
      (fun k => m.books k + outstanding [u.posting] k) k := fun k hk =>
    (hbooks k hk).of_post hi rfl (hpost k hk) fun j hj hji => hothers j hj hji k
  have hraise : ∀ g count, u = .raise g count → m.gauges g + count < 2 ^ 64 := by
    rintro g count rfl
    have hle : ∑ j ∈ accounts, (account' j).posted (.inr g) ≤
        ∑ j ∈ accounts, (account' j).posted (.inl (bound g)) :=
      Finset.sum_le_sum fun j hj => hbound j hj g
    have hg := hbalanced (.inr g) (hK g).1
    have hc := hbalanced (.inl (bound g)) (hK g).2
    rw [Postings.Balanced] at hg hc
    rw [← hg, ← hc] at hle
    have hmax := (h.before (bound g)).2
    simp only [books, Update.posting, outstanding, if_true, counterMax] at hle hmax
    simp at hle
    omega
  have hlower : ∀ g, u = .lower g → 0 < m.gauges g := by
    rintro g rfl
    have hbefore := (hbooks (.inr g) (hK g).1).posted_le
      (fun j hj => hnonneg j hj (.inr g) (hK g).1) hi
    have hafter := hnonneg' (.inr g) (hK g).1
    rw [hpost _ (hK g).1] at hafter
    simp only [books, Update.posting, outstanding, if_true] at hbefore hafter
    omega
  exact (hbalanced k hk).of_eq (h.books_apply hraise hlower k) fun _ _ => rfl

end RuntimeMetrics
end AstraScheduler
