import AstraScheduler.FlaggedMerge
import AstraScheduler.MetricsRecords
import AstraScheduler.Transition
import Mathlib.Algebra.BigOperators.Group.Finset.Piecewise

/-! # What a merged snapshot tells

All the counters and histograms of the shards, `fill_counters_and_histograms` of
`src/runtime/runtime_metrics.cpp` that merges them, and its flag.  A word of a shard stays at
its largest value, and the merge raises the flag for every word that it finds there; so as
long as the flag is down, nothing has been lost in a shard or in the merge. -/

namespace AstraScheduler
namespace MetricsMerge
open RuntimeMetrics (counterMax saturatingInc saturatingAdd bucketForNs Histogram addTo)
open FlaggedMerge (Addition Unflagged mergeKeys)

/-- The counters of a `WorkerShard`, in the order in which they are merged. -/
inductive ShardCounter where
  | submissionAttempts
  | acceptedTaskIdentities
  | rejectedLifecycle
  | rejectedCapacity
  | blockingSubmitWaits
  | blockingSubmitWakeups
  | firstStarts
  | resumeSegments
  | succeeded
  | failed
  | cancelledBeforeStart
  | cancelledCooperative
  | unobservedFailures
  | globalClaims
  | localClaims
  | stealAttempts
  | stealSuccesses
  | stealFailures
  | workerParks
  | workerWakes
  | explicitYields
  | coroutineSuspends
  | timerRegistrations
  | timerFires
  | timerCancellations
  | graphAdmissionAttempts
  | graphRunsAccepted
  | graphRunsRejected
  | graphNodesTerminal
  | deadlineAdmitted
  | deadlineMet
  | deadlineMissed
  | deadlineCancelledBeforeStart
  | taskWaitCalls
  | graphWaitCalls
  | waitForTimeouts
  | sameRuntimeHelpingWaits
  | crossRuntimeHelpingWaits
  | coroutineAwaitRegistrations
  | directSelfWaitRejections
  | helpingDepthRejections
  deriving DecidableEq, Repr

/-- The histograms of a `WorkerShard`, in the order in which they are merged. -/
inductive ShardHistogram where
  | readyQueueWait
  | executionSegment
  | taskWallTime
  | blockingAdmissionWait
  | timerWakeLateness
  | deadlineStartLateness
  | workerParkDuration
  | runtimeJoinLatency
  | threadWaitDuration
  | helpingWaitDuration
  | coroutineAwaitDuration
  deriving DecidableEq, Repr

def ShardCounter.all : List ShardCounter :=
  [.submissionAttempts, .acceptedTaskIdentities, .rejectedLifecycle, .rejectedCapacity,
    .blockingSubmitWaits, .blockingSubmitWakeups, .firstStarts, .resumeSegments, .succeeded,
    .failed, .cancelledBeforeStart, .cancelledCooperative, .unobservedFailures, .globalClaims,
    .localClaims, .stealAttempts, .stealSuccesses, .stealFailures, .workerParks, .workerWakes,
    .explicitYields, .coroutineSuspends, .timerRegistrations, .timerFires, .timerCancellations,
    .graphAdmissionAttempts, .graphRunsAccepted, .graphRunsRejected, .graphNodesTerminal,
    .deadlineAdmitted, .deadlineMet, .deadlineMissed, .deadlineCancelledBeforeStart,
    .taskWaitCalls, .graphWaitCalls, .waitForTimeouts, .sameRuntimeHelpingWaits,
    .crossRuntimeHelpingWaits, .coroutineAwaitRegistrations, .directSelfWaitRejections,
    .helpingDepthRejections]

def ShardHistogram.all : List ShardHistogram :=
  [.readyQueueWait, .executionSegment, .taskWallTime, .blockingAdmissionWait, .timerWakeLateness,
    .deadlineStartLateness, .workerParkDuration, .runtimeJoinLatency, .threadWaitDuration,
    .helpingWaitDuration, .coroutineAwaitDuration]

theorem ShardCounter.mem_all (c : ShardCounter) : c ∈ all := by cases c <;> decide

theorem ShardHistogram.mem_all (h : ShardHistogram) : h ∈ all := by cases h <;> decide

/-- `Log2Histogram::kBucketCount`. -/
def kBucketCount : Nat := 64

structure WorkerShard where
  counters : ShardCounter → Nat := fun _ => 0
  histograms : ShardHistogram → Histogram := fun _ => {}

/-- The shards of a `RuntimeMetrics`. -/
structure ShardedMetrics where
  level : MetricsLevel
  controlShard : Option WorkerShard
  workerShards : List WorkerShard

/-- `RuntimeMetrics::init`. -/
def init (level : MetricsLevel) (workerCount : Nat) : ShardedMetrics where
  level := level
  controlShard := if level = .off then none else some {}
  workerShards := if level = .off then [] else List.replicate workerCount {}

/-! ## Recording -/

/-- An update of the shard of a worker of this runtime, or of that of all other threads. -/
inductive Update where
  /-- `saturating_inc`. -/
  | inc (counter : ShardCounter)
  /-- `saturating_add`. -/
  | add (counter : ShardCounter) (count : UInt64)
  /-- `ShardedHistogram::record`. -/
  | record (histogram : ShardHistogram) (ns : UInt64)
  deriving DecidableEq, Repr

def WorkerShard.update (shard : WorkerShard) : Update → WorkerShard
  | .inc c =>
    { shard with
      counters := Function.update shard.counters c (saturatingInc (shard.counters c)) }
  | .add c count =>
    { shard with
      counters := Function.update shard.counters c (saturatingAdd (shard.counters c) count.toNat) }
  | .record h ns =>
    { shard with
      histograms := Function.update shard.histograms h ((shard.histograms h).record ns.toNat) }

/-- Where a thread finds its shard: `none` is the control shard. -/
def ShardedMetrics.shardForCurrent (m : ShardedMetrics) (worker : Option Nat) : Option Nat :=
  worker.filter (· < m.workerShards.length)

/-- One update by a worker of this runtime, or by another thread. -/
def ShardedMetrics.apply (m : ShardedMetrics) (worker : Option Nat) (u : Update) :
    ShardedMetrics :=
  match m.shardForCurrent worker with
  | some i => { m with workerShards := m.workerShards.modify i (·.update u) }
  | none => { m with controlShard := m.controlShard.map (·.update u) }

/-! ## Merging -/

/-- What is merged of a `RuntimeMetricsSnapshot`. -/
structure Snapshot where
  counters : ShardCounter → Nat := fun _ => 0
  histograms : ShardHistogram → Histogram := fun _ => {}
  saturated : Bool := false

/-- The lambda `accumulate_shard`. -/
def accumulateShard : Addition (ShardCounter → Nat) := mergeKeys addTo ShardCounter.all

/-- The lambda `accumulate_hist`. -/
def accumulateHist : Addition Histogram := fun dst src =>
  let count := addTo (dst.1.count, dst.2) src.count
  let sumNs := addTo (dst.1.sumNs, count.2) src.sumNs
  let buckets := mergeKeys addTo (List.range kBucketCount) (dst.1.buckets, sumNs.2) src.buckets
  ({ count := count.1
     sumNs := sumNs.1
     maxNs := if dst.1.maxNs < src.maxNs then src.maxNs else dst.1.maxNs
     buckets := buckets.1 }, buckets.2)

/-- The lambda `accumulate_histograms`. -/
def accumulateHistograms : Addition (ShardHistogram → Histogram) :=
  mergeKeys accumulateHist ShardHistogram.all

/-- The control shard and the worker shards, in the order in which they are merged. -/
def ShardedMetrics.shards (m : ShardedMetrics) : List WorkerShard :=
  m.controlShard.toList ++ m.workerShards

/-- `fill_counters_and_histograms`, into a fresh snapshot. -/
def ShardedMetrics.fillCountersAndHistograms (m : ShardedMetrics) : Snapshot :=
  let counters := (m.shards.map (·.counters)).foldl accumulateShard (fun _ => 0, false)
  if m.level ≠ .detailed then { counters := counters.1, saturated := counters.2 }
  else
    let histograms := (m.shards.map (·.histograms)).foldl accumulateHistograms
      (fun _ => {}, counters.2)
    { counters := counters.1, histograms := histograms.1, saturated := histograms.2 }

/-- `Scheduler::metrics_snapshot`. -/
def ShardedMetrics.metricsSnapshot (m : ShardedMetrics) : Snapshot :=
  if m.level = .off then {} else m.fillCountersAndHistograms

/-! ## What an update adds to a word -/

/-- The 64-bit words that are added up: the counters, and those of the histograms but for
the maximum. -/
inductive Word where
  | counter (c : ShardCounter)
  | count (h : ShardHistogram)
  | sumNs (h : ShardHistogram)
  | bucket (h : ShardHistogram) (k : Fin kBucketCount)

def read (counters : ShardCounter → Nat) (histograms : ShardHistogram → Histogram) : Word → Nat
  | .counter c => counters c
  | .count h => (histograms h).count
  | .sumNs h => (histograms h).sumNs
  | .bucket h k => (histograms h).buckets k

def WorkerShard.word (shard : WorkerShard) : Word → Nat := read shard.counters shard.histograms

def Update.amount : Update → Word → Nat
  | .inc c, .counter d => if c = d then 1 else 0
  | .add c count, .counter d => if c = d then count.toNat else 0
  | .record h _, .count i => if h = i then 1 else 0
  | .record h ns, .sumNs i => if h = i then ns.toNat else 0
  | .record h ns, .bucket i k => if h = i ∧ bucketForNs ns.toNat = k then 1 else 0
  | _, _ => 0

theorem saturatingInc_eq {cur : Nat} (h : cur ≤ counterMax) :
    saturatingInc cur = min (cur + 1) counterMax := by
  unfold saturatingInc
  split <;> omega

theorem saturatingAdd_eq {cur val : Nat} (h : cur ≤ counterMax) :
    saturatingAdd cur val = min (cur + val) counterMax := by
  unfold saturatingAdd
  split
  · omega
  · split <;> omega

/-- An update adds to every word what belongs there, as far as the word can hold it. -/
theorem WorkerShard.update_word (shard : WorkerShard) (u : Update) {w : Word}
    (h : shard.word w ≤ counterMax) :
    (shard.update u).word w = min (shard.word w + u.amount w) counterMax := by
  have hsame : ∀ {v}, v = shard.word w → v = min (shard.word w + 0) counterMax := by
    intro v hv
    omega
  cases u with
  | inc c =>
    cases w with
    | counter d =>
      by_cases hd : c = d
      · subst hd
        simpa [update, word, read, Update.amount] using saturatingInc_eq h
      · refine (hsame ?_).trans (by rw [Update.amount, if_neg hd])
        exact Function.update_of_ne (Ne.symm hd) _ _
    | count i | sumNs i | bucket i k => exact hsame rfl
  | add c count =>
    cases w with
    | counter d =>
      by_cases hd : c = d
      · subst hd
        simpa [update, word, read, Update.amount] using saturatingAdd_eq h
      · refine (hsame ?_).trans (by rw [Update.amount, if_neg hd])
        exact Function.update_of_ne (Ne.symm hd) _ _
    | count i | sumNs i | bucket i k => exact hsame rfl
  | record i ns =>
    have hother : ∀ {j}, i ≠ j → (shard.update (.record i ns)).histograms j =
        shard.histograms j := fun hj => Function.update_of_ne (Ne.symm hj) _ _
    have hself : (shard.update (.record i ns)).histograms i =
        (shard.histograms i).record ns.toNat := Function.update_self ..
    cases w with
    | counter d => exact hsame rfl
    | count j =>
      by_cases hj : i = j
      · subst hj
        simp only [word, read, hself, Update.amount, if_pos]
        exact saturatingInc_eq h
      · refine (hsame ?_).trans (by rw [Update.amount, if_neg hj])
        simp only [word, read, hother hj]
    | sumNs j =>
      by_cases hj : i = j
      · subst hj
        simp only [word, read, hself, Update.amount, if_pos]
        exact saturatingAdd_eq h
      · refine (hsame ?_).trans (by rw [Update.amount, if_neg hj])
        simp only [word, read, hother hj]
    | bucket j k =>
      by_cases hj : i = j ∧ bucketForNs ns.toNat = k
      · obtain ⟨rfl, hk⟩ := hj
        simp only [word, read, hself, Update.amount, hk, and_self, if_pos, Histogram.record,
          Function.update_self]
        exact saturatingInc_eq h
      · refine (hsame ?_).trans (by rw [Update.amount, if_neg hj])
        by_cases hij : i = j
        · subst hij
          have hk : (k : Nat) ≠ bucketForNs ns.toNat := fun heq => hj ⟨rfl, heq.symm⟩
          simp only [word, read, hself, Histogram.record, Function.update_of_ne hk]
        · simp only [word, read, hother hij]

/-! ## Any number of updates -/

structure Op where
  worker : Option Nat
  update : Update
  deriving DecidableEq, Repr

/-- The updates of all threads, in the order in which they take effect. -/
def machine : Transition.Machine ShardedMetrics Op where
  init m := ∃ workerCount, m = init .detailed workerCount
  next m op := some (m.apply op.worker op.update)

/-- The shard an update goes to. -/
def ShardedMetrics.touched (m : ShardedMetrics) (worker : Option Nat) : WorkerShard :=
  match m.shardForCurrent worker with
  | some i => m.workerShards.getD i {}
  | none => m.controlShard.getD {}

/-- No addition of the update is clamped. -/
def Fits (m : ShardedMetrics) (op : Op) : Prop :=
  ∀ w, (m.touched op.worker).word w + op.update.amount w ≤ counterMax

/-- No addition of the merge is clamped: what a word of a shard is added to is what the
shards in front of it hold. -/
def MergeFits (m : ShardedMetrics) : Prop :=
  ∀ w front shard back, m.shards = front ++ shard :: back →
    (front.map (·.word w)).sum + shard.word w ≤ counterMax

variable {m m' : ShardedMetrics} {w : Word}

/-- One shard changes. -/
theorem apply_shards (h : m.controlShard.isSome) (worker : Option Nat) (u : Update) :
    ∃ front back, m.shards = front ++ m.touched worker :: back ∧
      (m.apply worker u).shards = front ++ (m.touched worker).update u :: back := by
  obtain ⟨control, hcontrol⟩ := Option.isSome_iff_exists.mp h
  unfold ShardedMetrics.shards ShardedMetrics.touched ShardedMetrics.apply
  rw [hcontrol]
  cases hi : m.shardForCurrent worker with
  | none => exact ⟨[], m.workerShards, rfl, rfl⟩
  | some i =>
    have hlt : i < m.workerShards.length := by
      have hfound := (Option.filter_eq_some_iff.mp hi).2
      exact of_decide_eq_true hfound
    obtain ⟨front, shard, back, heq, hlength, hmodify⟩ := List.exists_of_modify (·.update u) hlt
    have hget : m.workerShards.getD i {} = shard := by
      rw [List.getD_eq_getElem?_getD, heq, ← hlength, List.getElem?_append_right (Nat.le_refl _)]
      simp
    refine ⟨control :: front, back, ?_, ?_⟩
    · change control :: m.workerShards = control :: front ++ m.workerShards.getD i {} :: back
      rw [hget, heq]
      rfl
    · change _ :: m.workerShards.modify i (·.update u) =
        control :: front ++ (m.workerShards.getD i {}).update u :: back
      rw [hget, hmodify]
      rfl

theorem apply_control (h : m.controlShard.isSome) (worker : Option Nat) (u : Update) :
    (m.apply worker u).controlShard.isSome := by
  unfold ShardedMetrics.apply
  split
  · exact h
  · rwa [Option.isSome_map]

theorem apply_level (worker : Option Nat) (u : Update) :
    (m.apply worker u).level = m.level := by
  unfold ShardedMetrics.apply
  split <;> rfl

/-- Metrics that record, in which every word is a 64-bit number. -/
structure Inv (m : ShardedMetrics) : Prop where
  level : m.level = .detailed
  control : m.controlShard.isSome
  le : ∀ shard ∈ m.shards, ∀ w, shard.word w ≤ counterMax

theorem Inv.touched (h : Inv m) (worker : Option Nat) : m.touched worker ∈ m.shards := by
  obtain ⟨front, back, heq, -⟩ := apply_shards h.control worker (.inc .submissionAttempts)
  rw [heq]
  exact List.mem_append_right _ List.mem_cons_self

theorem Inv.apply (h : Inv m) (worker : Option Nat) (u : Update) : Inv (m.apply worker u) where
  level := (apply_level worker u).trans h.level
  control := apply_control h.control worker u
  le := by
    intro shard hshard w
    obtain ⟨front, back, heq, heq'⟩ := apply_shards h.control worker u
    have hle := fun shard hs => h.le shard (heq ▸ hs) w
    rw [heq', List.mem_append, List.mem_cons] at hshard
    rcases hshard with hin | rfl | hin
    · exact hle _ (List.mem_append_left _ hin)
    · rw [WorkerShard.update_word _ _ (h.le _ (h.touched worker) w)]
      exact Nat.min_le_right ..
    · exact hle _ (List.mem_append_right _ (List.mem_cons_of_mem _ hin))

/-- What the shards hold of a word. -/
def total (m : ShardedMetrics) (w : Word) : Nat := (m.shards.map (·.word w)).sum

/-- An update after which no shard has reached the largest value was not clamped. -/
theorem Inv.exact_apply (h : Inv m) {worker : Option Nat} {u : Update}
    (hbelow : ∀ shard ∈ (m.apply worker u).shards, shard.word w ≠ counterMax) :
    (∀ shard ∈ m.shards, shard.word w ≠ counterMax) ∧
      (m.touched worker).word w + u.amount w ≤ counterMax ∧
      total (m.apply worker u) w = total m w + u.amount w := by
  obtain ⟨front, back, heq, heq'⟩ := apply_shards h.control worker u
  have hword := WorkerShard.update_word (m.touched worker) u (h.le _ (h.touched worker) w)
  rw [heq'] at hbelow
  have hnew := hbelow _ (List.mem_append_right _ List.mem_cons_self)
  have hfit : (m.touched worker).word w + u.amount w < counterMax := by omega
  refine ⟨?_, Nat.le_of_lt hfit, ?_⟩
  · intro shard hshard
    rw [heq, List.mem_append, List.mem_cons] at hshard
    rcases hshard with hin | rfl | hin
    · exact hbelow _ (List.mem_append_left _ hin)
    · omega
    · exact hbelow _ (List.mem_append_right _ (List.mem_cons_of_mem _ hin))
  · unfold total
    rw [heq, heq']
    simp only [List.map_append, List.map_cons, List.sum_append, List.sum_cons, hword]
    omega

/-- **A run that leaves every word below the largest value** clamped nothing, and every word
has taken all that was added to it. -/
theorem Inv.exact_run (h : Inv m) {ops : List Op} (hr : machine.run m ops = some m')
    (hbelow : ∀ w, ∀ shard ∈ m'.shards, shard.word w ≠ counterMax) :
    machine.EveryStep Fits m ops ∧
      (∀ w, ∀ shard ∈ m.shards, shard.word w ≠ counterMax) ∧
      ∀ w, total m' w = total m w + (ops.map (·.update.amount w)).sum := by
  induction ops generalizing m with
  | nil =>
    cases hr
    exact ⟨trivial, hbelow, fun _ => rfl⟩
  | cons op ops ih =>
    obtain ⟨t, ht, hr⟩ := Option.bind_eq_some_iff.mp hr
    cases ht
    obtain ⟨hsteps, hnext, htotal⟩ := ih (h.apply op.worker op.update) hr
    have hone := fun w => h.exact_apply (hnext w)
    refine ⟨⟨fun w => (hone w).2.1, ?_⟩, fun w => (hone w).1, ?_⟩
    · rintro _ ⟨⟩
      exact hsteps
    · intro w
      rw [htotal, (hone w).2.2, List.map_cons, List.sum_cons, Nat.add_assoc]

/-! ## What the flag tells of the merge -/

theorem unflagged_addTo : Unflagged addTo (FlaggedMerge.Exact counterMax) := by
  intro dst src hflag
  unfold addTo at hflag ⊢
  split at hflag
  · cases hflag
  · rename_i hfits
    obtain ⟨hmax, hle⟩ := not_or.mp hfits
    rw [if_neg hfits]
    exact ⟨hflag, hmax, rfl, fun hdst => by omega⟩

/-- A histogram that is merged without a flag. -/
structure HistogramSum (a b c : Histogram) : Prop where
  count : FlaggedMerge.Exact counterMax a.count b.count c.count
  sumNs : FlaggedMerge.Exact counterMax a.sumNs b.sumNs c.sumNs
  maxNs : c.maxNs = max a.maxNs b.maxNs
  buckets : ∀ k ∈ List.range kBucketCount,
    FlaggedMerge.Exact counterMax (a.buckets k) (b.buckets k) (c.buckets k)

theorem unflagged_accumulateHist : Unflagged accumulateHist HistogramSum := by
  intro dst src hflag
  obtain ⟨hsum, hbuckets⟩ := unflagged_addTo.mergeKeys List.nodup_range _ _ hflag
  obtain ⟨hcount, hsumNs⟩ := unflagged_addTo _ _ hsum
  obtain ⟨hdst, hcounts⟩ := unflagged_addTo _ _ hcount
  refine ⟨hdst, hcounts, hsumNs, ?_, hbuckets⟩
  change (if dst.1.maxNs < src.maxNs then src.maxNs else dst.1.maxNs) = _
  split <;> omega

theorem ShardCounter.nodup_all : ShardCounter.all.Nodup := by decide

theorem ShardHistogram.nodup_all : ShardHistogram.all.Nodup := by decide

/-- What holds of the words of a merged snapshot without the flag. -/
structure Merged (m : ShardedMetrics) (s : Snapshot) : Prop where
  below : ∀ w, ∀ shard ∈ m.shards, shard.word w ≠ counterMax
  word : ∀ w, read s.counters s.histograms w = total m w
  le : ∀ w, total m w ≤ counterMax
  maxNs : ∀ h, (s.histograms h).maxNs =
    (m.shards.map fun shard => (shard.histograms h).maxNs).foldl max 0

/-- A word of the snapshot, merged without the flag from a part of each shard. -/
theorem foldl_word {V : Type} {add : Addition V} {R : V → V → V → Prop} (h : Unflagged add R)
    (part : V → Nat) (hR : ∀ {a b c}, R a b c →
      FlaggedMerge.Exact counterMax (part a) (part b) (part c))
    {value : WorkerShard → V} (hword : ∀ shard, part (value shard) = shard.word w)
    {dst : V × Bool} (hdst : part dst.1 = 0)
    (hflag : ((m.shards.map value).foldl add dst).2 = false) :
    (∀ shard ∈ m.shards, shard.word w ≠ counterMax) ∧
      part ((m.shards.map value).foldl add dst).1 = total m w ∧ total m w ≤ counterMax := by
  obtain ⟨hne, hsum, hle⟩ := h.foldl_sum part hR _ _ (hdst ▸ Nat.zero_le counterMax) hflag
  have hparts : (m.shards.map value).map part = m.shards.map (·.word w) := by
    rw [List.map_map]
    exact List.map_congr_left fun shard _ => hword shard
  rw [hparts, hdst, Nat.zero_add] at hsum
  refine ⟨fun shard hshard => ?_, hsum, ?_⟩
  · rw [← hword]
    exact hne _ (List.mem_map_of_mem hshard)
  · rw [total, ← hsum]
    exact hle

theorem merged_of_unflagged (hlevel : m.level = .detailed)
    (hflag : m.metricsSnapshot.saturated = false) : Merged m m.metricsSnapshot := by
  have hsnapshot : m.metricsSnapshot = m.fillCountersAndHistograms := by
    rw [ShardedMetrics.metricsSnapshot, if_neg (by rw [hlevel]; decide)]
  have hfill : m.fillCountersAndHistograms =
      let counters := (m.shards.map (·.counters)).foldl accumulateShard (fun _ => 0, false)
      let histograms := (m.shards.map (·.histograms)).foldl accumulateHistograms
        (fun _ => {}, counters.2)
      { counters := counters.1, histograms := histograms.1, saturated := histograms.2 } := by
    unfold ShardedMetrics.fillCountersAndHistograms
    exact if_neg (not_not.mpr hlevel)
  rw [hsnapshot, hfill] at hflag ⊢
  have hcounters := unflagged_addTo.mergeKeys ShardCounter.nodup_all
  have hhistograms := unflagged_accumulateHist.mergeKeys ShardHistogram.nodup_all
  have hdown := hhistograms.foldl_flag _ _ hflag
  have hword : ∀ w, (∀ shard ∈ m.shards, shard.word w ≠ counterMax) ∧
      read ((m.shards.map (·.counters)).foldl accumulateShard (fun _ => 0, false)).1
          ((m.shards.map (·.histograms)).foldl accumulateHistograms (fun _ => {},
            ((m.shards.map (·.counters)).foldl accumulateShard (fun _ => 0, false)).2)).1 w =
        total m w ∧ total m w ≤ counterMax := by
    intro w
    cases w with
    | counter c =>
      exact foldl_word hcounters (· c) (fun h => h c (ShardCounter.mem_all c))
        (fun _ => rfl) rfl hdown
    | count i =>
      exact foldl_word hhistograms (fun v => (v i).count)
        (fun h => (h i (ShardHistogram.mem_all i)).count) (fun _ => rfl) rfl hflag
    | sumNs i =>
      exact foldl_word hhistograms (fun v => (v i).sumNs)
        (fun h => (h i (ShardHistogram.mem_all i)).sumNs) (fun _ => rfl) rfl hflag
    | bucket i k =>
      exact foldl_word hhistograms (fun v => (v i).buckets k)
        (fun h => (h i (ShardHistogram.mem_all i)).buckets k (List.mem_range.mpr k.isLt))
        (fun _ => rfl) rfl hflag
  refine ⟨fun w => (hword w).1, fun w => (hword w).2.1, fun w => (hword w).2.2, fun i => ?_⟩
  have hmax := hhistograms.foldl_max (fun v => (v i).maxNs)
    (fun h => (h i (ShardHistogram.mem_all i)).maxNs) _ _ hflag
  rwa [List.map_map] at hmax

theorem Merged.mergeFits {s : Snapshot} (h : Merged m s) : MergeFits m := by
  intro w front shard back heq
  have hle := h.le w
  rw [total, heq, List.map_append, List.map_cons, List.sum_append, List.sum_cons] at hle
  omega

/-! ## Exactness -/

/-- The latencies an update records in a histogram. -/
def Update.recorded : Update → ShardHistogram → List Nat
  | .record i ns, h => if i = h then [ns.toNat] else []
  | .inc _, _ | .add _ _, _ => []

def recorded (ops : List Op) (h : ShardHistogram) : List Nat :=
  ops.flatMap (·.update.recorded h)

/-- How often a counter has been incremented. -/
def increments (ops : List Op) (c : ShardCounter) : Nat :=
  (ops.map (·.update.amount (.counter c))).sum

/-- A snapshot that tells what has been recorded. -/
structure Exact (ops : List Op) (s : Snapshot) : Prop where
  counters : ∀ c, s.counters c = increments ops c
  count : ∀ h, (s.histograms h).count = (recorded ops h).length
  bucketSum : ∀ h,
    ((List.range kBucketCount).map (s.histograms h).buckets).sum = (s.histograms h).count
  sumNs : ∀ h, (s.histograms h).sumNs = (recorded ops h).sum
  maxNs : ∀ h, (s.histograms h).maxNs = (recorded ops h).foldl max 0
  buckets : ∀ h, ∀ k < kBucketCount,
    (s.histograms h).buckets k = (recorded ops h).countP fun ns => Nat.log2 ns = k

theorem bucketForNs_eq {ns : Nat} (h : ns < 2 ^ 64) : bucketForNs ns = Nat.log2 ns := by
  unfold bucketForNs
  split
  · rename_i hle
    have hsmall : ns = 0 ∨ ns = 1 := by omega
    rcases hsmall with rfl | rfl <;> decide
  · rename_i hlt
    have hlog := (Nat.log2_lt (show ns ≠ 0 by omega)).mpr h
    omega

theorem recorded_lt {ops : List Op} {h : ShardHistogram} : ∀ ns ∈ recorded ops h, ns < 2 ^ 64 := by
  intro ns hns
  obtain ⟨⟨worker, u⟩, -, hu⟩ := List.mem_flatMap.mp hns
  cases u with
  | inc c | add c count => cases hu
  | record i ns' =>
    simp only [Update.recorded] at hu
    split at hu
    · rw [List.mem_singleton.mp hu]
      exact ns'.toNat_lt
    · cases hu

theorem foldl_max_le (xs : List Nat) (a n : Nat) :
    xs.foldl max a ≤ n ↔ a ≤ n ∧ ∀ x ∈ xs, x ≤ n := by
  induction xs generalizing a with
  | nil => simp
  | cons x xs ih =>
    rw [List.foldl_cons, ih, Nat.max_le, List.forall_mem_cons, and_assoc]

/-- An update and the largest value recorded: it is recorded in one shard. -/
theorem Inv.maxNs_apply (h : Inv m) (worker : Option Nat) (u : Update) (i : ShardHistogram)
    (n : Nat) :
    (∀ shard ∈ (m.apply worker u).shards, (shard.histograms i).maxNs ≤ n) ↔
      (∀ shard ∈ m.shards, (shard.histograms i).maxNs ≤ n) ∧ ∀ ns ∈ u.recorded i, ns ≤ n := by
  obtain ⟨front, back, heq, heq'⟩ := apply_shards h.control worker u
  have hone : (((m.touched worker).update u).histograms i).maxNs ≤ n ↔
      ((m.touched worker).histograms i).maxNs ≤ n ∧ ∀ ns ∈ u.recorded i, ns ≤ n := by
    cases u with
    | inc c | add c count => simp [WorkerShard.update, Update.recorded]
    | record j ns =>
      by_cases hj : j = i
      · subst hj
        simp [WorkerShard.update, Update.recorded, Histogram.record]
      · simp [WorkerShard.update, Update.recorded, hj, Function.update_of_ne (Ne.symm hj)]
  rw [heq, heq']
  simp only [List.forall_mem_append, List.forall_mem_cons, hone]
  tauto

theorem Inv.maxNs_run (h : Inv m) {ops : List Op} (hr : machine.run m ops = some m')
    (i : ShardHistogram) (n : Nat) :
    (∀ shard ∈ m'.shards, (shard.histograms i).maxNs ≤ n) ↔
      (∀ shard ∈ m.shards, (shard.histograms i).maxNs ≤ n) ∧ ∀ ns ∈ recorded ops i, ns ≤ n := by
  induction ops generalizing m with
  | nil =>
    cases hr
    simp [recorded]
  | cons op ops ih =>
    obtain ⟨t, ht, hr⟩ := Option.bind_eq_some_iff.mp hr
    cases ht
    rw [ih (h.apply op.worker op.update) hr, h.maxNs_apply]
    simp only [recorded, List.flatMap_cons, List.forall_mem_append, and_assoc]

theorem Update.amount_count (u : Update) (i : ShardHistogram) :
    u.amount (.count i) = (u.recorded i).length := by
  cases u with
  | inc c | add c count => rfl
  | record j ns =>
    simp only [amount, recorded]
    split <;> rfl

theorem Update.amount_sumNs (u : Update) (i : ShardHistogram) :
    u.amount (.sumNs i) = (u.recorded i).sum := by
  cases u with
  | inc c | add c count => rfl
  | record j ns =>
    simp only [amount, recorded]
    split <;> rfl

theorem Update.amount_bucket (u : Update) (i : ShardHistogram) (k : Fin kBucketCount) :
    u.amount (.bucket i k) = (u.recorded i).countP fun ns => Nat.log2 ns = k := by
  cases u with
  | inc c | add c count => rfl
  | record j ns =>
    have hlog := bucketForNs_eq ns.toNat_lt
    by_cases hj : j = i
    · simp [amount, recorded, hj, hlog, List.countP_cons]
    · simp [amount, recorded, hj]

/-- What is added to the words of a histogram in a run. -/
theorem sum_amounts (ops : List Op) (i : ShardHistogram) :
    (ops.map (·.update.amount (.count i))).sum = (recorded ops i).length ∧
      (ops.map (·.update.amount (.sumNs i))).sum = (recorded ops i).sum ∧
      ∀ k : Fin kBucketCount, (ops.map (·.update.amount (.bucket i k))).sum =
        (recorded ops i).countP fun ns => Nat.log2 ns = k := by
  induction ops with
  | nil => exact ⟨rfl, rfl, fun _ => rfl⟩
  | cons op ops ih =>
    obtain ⟨hcount, hsum, hbucket⟩ := ih
    have hcons : recorded (op :: ops) i = op.update.recorded i ++ recorded ops i :=
      List.flatMap_cons
    refine ⟨?_, ?_, fun k => ?_⟩
    · rw [hcons, List.map_cons, List.sum_cons, hcount, Update.amount_count, List.length_append]
    · rw [hcons, List.map_cons, List.sum_cons, hsum, Update.amount_sumNs, List.sum_append]
    · rw [hcons, List.map_cons, List.sum_cons, hbucket, Update.amount_bucket, List.countP_append]

/-- Every latency is in one bucket. -/
theorem sum_buckets {latencies : List Nat} (h : ∀ ns ∈ latencies, ns < 2 ^ 64) :
    ((List.range kBucketCount).map fun k => latencies.countP fun ns => Nat.log2 ns = k).sum =
      latencies.length := by
  induction latencies with
  | nil => simp
  | cons ns latencies ih =>
    obtain ⟨hns, hrest⟩ := List.forall_mem_cons.mp h
    have hlog : Nat.log2 ns < kBucketCount := by
      rw [← bucketForNs_eq hns]
      unfold bucketForNs kBucketCount
      split <;> omega
    have hone :
        ((List.range kBucketCount).map fun k => if Nat.log2 ns = k then 1 else 0).sum = 1 := by
      change ∑ k ∈ Finset.range kBucketCount, (if Nat.log2 ns = k then 1 else 0) = 1
      rw [Finset.sum_ite_eq, if_pos (Finset.mem_range.mpr hlog)]
    simp only [List.countP_cons, decide_eq_true_eq, List.sum_map_add, ih hrest, hone,
      List.length_cons]

theorem Inv.initial {workerCount : Nat} : Inv (init .detailed workerCount) ∧
    (∀ w, total (init .detailed workerCount) w = 0) ∧
    ∀ shard ∈ (init .detailed workerCount).shards, ∀ i, (shard.histograms i).maxNs = 0 := by
  have hshards : ∀ shard ∈ (init .detailed workerCount).shards, shard = {} := by
    intro shard hshard
    rcases List.mem_cons.mp hshard with rfl | hin
    · rfl
    · exact List.eq_of_mem_replicate hin
  have hzero : ∀ w, WorkerShard.word {} w = 0 := by
    intro w
    cases w <;> rfl
  refine ⟨⟨rfl, rfl, ?_⟩, ?_, ?_⟩
  · intro shard hshard w
    rw [hshards shard hshard, hzero]
    exact Nat.zero_le _
  · intro w
    refine List.sum_eq_zero fun x hx => ?_
    obtain ⟨shard, hshard, rfl⟩ := List.mem_map.mp hx
    rw [hshards shard hshard, hzero]
  · intro shard hshard i
    rw [hshards shard hshard]

/-- **A merged snapshot is exact unless it says otherwise**, and it does say so whenever an
addition has been clamped, in a shard or in the merge. -/
theorem metricsSnapshot_exact {workerCount : Nat} {ops : List Op} {m : ShardedMetrics}
    (hr : machine.run (init .detailed workerCount) ops = some m) :
    (m.metricsSnapshot.saturated = false → Exact ops m.metricsSnapshot) ∧
      (¬ (machine.EveryStep Fits (init .detailed workerCount) ops ∧ MergeFits m) →
        m.metricsSnapshot.saturated = true) := by
  obtain ⟨hstart, hempty, hnone⟩ := @Inv.initial workerCount
  have hlevel : m.level = .detailed :=
    (Transition.Machine.run_keeps (m := machine) (P := Inv)
      (fun s op s' hs hnext => by cases hnext; exact hs.apply op.worker op.update) hstart hr).level
  refine ⟨fun hflag => ?_, fun hclamped => ?_⟩
  · have hmerged := merged_of_unflagged hlevel hflag
    obtain ⟨-, -, htotal⟩ := hstart.exact_run hr hmerged.below
    have hword : ∀ w, read m.metricsSnapshot.counters m.metricsSnapshot.histograms w =
        (ops.map (·.update.amount w)).sum := by
      intro w
      rw [hmerged.word, htotal, hempty, Nat.zero_add]
    have hbucket : ∀ h, ∀ k < kBucketCount, (m.metricsSnapshot.histograms h).buckets k =
        (recorded ops h).countP fun ns => Nat.log2 ns = k := by
      intro h k hk
      exact (hword (.bucket h ⟨k, hk⟩)).trans ((sum_amounts ops h).2.2 ⟨k, hk⟩)
    have hcount : ∀ h, (m.metricsSnapshot.histograms h).count = (recorded ops h).length := by
      intro h
      exact (hword (.count h)).trans (sum_amounts ops h).1
    refine ⟨fun c => hword (.counter c), hcount, fun h => ?_, fun h => ?_, fun h => ?_, hbucket⟩
    · rw [hcount, ← sum_buckets recorded_lt]
      exact congrArg List.sum (List.map_congr_left fun k hk => hbucket h k (List.mem_range.mp hk))
    · exact (hword (.sumNs h)).trans (sum_amounts ops h).2.1
    · rw [hmerged.maxNs]
      refine eq_of_forall_ge_iff fun n => ?_
      rw [foldl_max_le, foldl_max_le, List.forall_mem_map, hstart.maxNs_run hr h n]
      have hzero : ∀ shard ∈ (init .detailed workerCount).shards,
          (shard.histograms h).maxNs ≤ n := by
        intro shard hshard
        rw [hnone shard hshard h]
        exact Nat.zero_le _
      exact and_congr_right fun _ => and_iff_right hzero
  · by_contra hdown
    have hmerged := merged_of_unflagged hlevel (eq_false_of_ne_true hdown)
    exact hclamped ⟨(hstart.exact_run hr hmerged.below).1, hmerged.mergeFits⟩

/-- Two workers and another thread. -/
def threeShards : List Op :=
  [⟨none, .inc .submissionAttempts⟩, ⟨none, .add .acceptedTaskIdentities 3⟩,
    ⟨some 0, .record .executionSegment 0⟩, ⟨some 1, .record .executionSegment 1⟩,
    ⟨some 1, .record .executionSegment 1500⟩, ⟨some 1, .inc .localClaims⟩,
    ⟨some 0, .inc .localClaims⟩]

theorem metricsSnapshot_threeShards :
    ∃ m, machine.run (init .detailed 2) threeShards = some m ∧ Exact threeShards m.metricsSnapshot ∧
      (m.metricsSnapshot.histograms .executionSegment).sumNs = 1501 := by
  have hr : machine.run (init .detailed 2) threeShards = some
      (threeShards.foldl (fun m op => m.apply op.worker op.update) (init .detailed 2)) := rfl
  exact ⟨_, hr, (metricsSnapshot_exact hr).1 (by decide +kernel), by decide +kernel⟩

end MetricsMerge
end AstraScheduler
