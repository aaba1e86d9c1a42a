import AstraScheduler.MetricsMerge
import AstraScheduler.RetryLoops

/-! # Metrics under concurrent updates

A shard is written by any number of threads at once: its words are atomic, and
`saturating_inc`, `saturating_add` and the maximum of `ShardedHistogram::record` are
compare-exchange loops.  A record changes four words, one loop after the other, and a
snapshot loads every word of every shard, one after the other, while all this goes on.

Two things are left of the sequential picture.  When no update is under way, the shards are
what the updates make of them one at a time, in any order.  And a snapshot taken in between,
if it is not saturated, has in every word something between what the word was when the
snapshot began and what it was at the end. -/

namespace AstraScheduler
namespace ConcurrentMetrics
open RuntimeMetrics (counterMax saturatingInc saturatingAdd bucketForNs Histogram)
open MetricsMerge (ShardCounter ShardHistogram WorkerShard ShardedMetrics Snapshot Update Op Word
  kBucketCount)
open RetryLoops (Memory effect runAll)
open Transition (Machine)

deriving instance DecidableEq for MetricsMerge.Word

/-- An atomic word of a shard. -/
inductive Cell where
  | word (w : Word)
  | maxNs (h : ShardHistogram)
  deriving DecidableEq

/-- A word of the control shard (`none`) or of the shard of a worker. -/
abbrev Key := Option Nat × Cell

/-- A loop on a word. -/
inductive CellOp where
  | inc
  | add (val : UInt64)
  | raise (ns : UInt64)
  deriving DecidableEq, Repr

/-- What a loop puts in the place of what it has loaded; `none` when it is over without. -/
def exchange : CellOp → Nat → Option Nat
  | .inc, cur => if cur < counterMax then some (cur + 1) else none
  | .add val, cur =>
    if cur = counterMax then none
    else some (if counterMax - cur < val.toNat then counterMax else cur + val.toNat)
  | .raise ns, cur => if cur < ns.toNat then some ns.toNat else none

/-- `saturating_add`, which does nothing at all if there is nothing to add. -/
def addCalls (key : Key) (val : UInt64) : List (Key × CellOp) :=
  if val = 0 then [] else [(key, .add val)]

theorem bucketForNs_lt (ns : Nat) : bucketForNs ns < kBucketCount := by
  unfold bucketForNs kBucketCount
  split <;> omega

/-- The loops of an update; those of `ShardedHistogram::record` in its order. -/
def calls (shard : Option Nat) : Update → List (Key × CellOp)
  | .inc c => [((shard, .word (.counter c)), .inc)]
  | .add c count => addCalls (shard, .word (.counter c)) count
  | .record h ns =>
    ((shard, Cell.word (.count h)), CellOp.inc) :: addCalls (shard, .word (.sumNs h)) ns ++
      [((shard, Cell.maxNs h), CellOp.raise ns),
        ((shard, Cell.word (.bucket h ⟨bucketForNs ns.toNat, bucketForNs_lt _⟩)), CellOp.inc)]

/-! ## The shards as words -/

def shardOf (value : Key → Nat) (shard : Option Nat) : WorkerShard where
  counters c := value (shard, .word (.counter c))
  histograms h :=
    { count := value (shard, .word (.count h))
      sumNs := value (shard, .word (.sumNs h))
      maxNs := value (shard, .maxNs h)
      buckets := fun k => if hk : k < kBucketCount then value (shard, .word (.bucket h ⟨k, hk⟩))
        else 0 }

/-- The control shard and the shards of the workers. -/
def shardKeys (workerCount : Nat) : List (Option Nat) := none :: (List.range workerCount).map some

/-- The metrics of a runtime that records everything, with these words in its shards. -/
def assemble (workerCount : Nat) (value : Key → Nat) : ShardedMetrics where
  level := .detailed
  controlShard := some (shardOf value none)
  workerShards := (List.range workerCount).map fun i => shardOf value (some i)

/-- The shard of a thread: `shard_for_current`. -/
def shardForCurrent (workerCount : Nat) (worker : Option Nat) : Option Nat :=
  worker.filter (· < workerCount)

/-- The loads of `fill_counters_and_histograms`: the counters of all shards, then their
histograms. -/
def loads (workerCount : Nat) : List Key :=
  ((shardKeys workerCount).flatMap fun i =>
      ShardCounter.all.map fun c => (i, Cell.word (.counter c))) ++
    (shardKeys workerCount).flatMap fun i => ShardHistogram.all.flatMap fun h =>
      (i, Cell.word (.count h)) :: (i, Cell.word (.sumNs h)) :: (i, Cell.maxNs h) ::
        (List.finRange kBucketCount).map fun k => (i, Cell.word (.bucket h k))

/-! ## Threads that update, and one that takes snapshots -/

structure Metrics where
  workerCount : Nat
  words : Memory Key Nat CellOp
  /-- The updates each thread was given. -/
  updates : List (List Op) := []
  /-- What the snapshot under way has loaded. -/
  loaded : List Nat := []

inductive Label where
  | begin (ops : List Op)
  | step (i : Nat) (spurious : Bool)
  /-- `metrics_snapshot` begins. -/
  | capture
  | load

namespace Metrics

def programOf (s : Metrics) (ops : List Op) : List (Key × CellOp) :=
  ops.flatMap fun op => calls (shardForCurrent s.workerCount op.worker) op.update

def next (s : Metrics) : Label → Option Metrics
  | .begin ops => (s.words.next exchange (.begin (s.programOf ops))).map fun words =>
    { s with words := words, updates := s.updates ++ [ops] }
  | .step i spurious => (s.words.next exchange (.step i spurious)).map fun words =>
    { s with words := words }
  | .capture => some { s with loaded := [] }
  | .load => (loads s.workerCount)[s.loaded.length]?.map fun k =>
    { s with loaded := s.loaded ++ [s.words.value k] }

def machine : Machine Metrics Label where
  init s := ∃ workerCount, s = ⟨workerCount, { value := fun _ => 0 }, [], []⟩
  next := next

/-- What the last loads have found in a word. -/
def found (s : Metrics) (k : Key) : Nat := s.loaded.getD ((loads s.workerCount).idxOf k) 0

/-- The result of `metrics_snapshot`. -/
def snapshot (s : Metrics) : Snapshot := (assemble s.workerCount s.found).metricsSnapshot

def Captured (s : Metrics) : Prop := s.loaded.length = (loads s.workerCount).length

end Metrics

/-! ## One loop -/

theorem effect_inc (cur : Nat) : effect exchange .inc cur = saturatingInc cur := by
  simp only [effect, exchange, saturatingInc]
  split <;> rfl

theorem effect_add (val : UInt64) (cur : Nat) :
    effect exchange (.add val) cur = if cur = counterMax then cur
      else if counterMax - cur < val.toNat then counterMax else cur + val.toNat := by
  simp only [effect, exchange]
  split <;> rfl

theorem effect_add_eq {val : UInt64} (h : val.toNat ≠ 0) (cur : Nat) :
    effect exchange (.add val) cur = saturatingAdd cur val.toNat := by
  rw [effect_add, saturatingAdd, if_neg h]
  split
  · rw [if_pos (by omega)]
    exact ‹_›
  · rfl

theorem effect_raise (ns : UInt64) (cur : Nat) :
    effect exchange (.raise ns) cur = max cur ns.toNat := by
  simp only [effect, exchange]
  split
  · exact (Nat.max_eq_right (Nat.le_of_lt ‹_›)).symm
  · exact (Nat.max_eq_left (Nat.le_of_not_lt ‹_›)).symm

/-- No loop lowers a word, and words stay 64-bit numbers. -/
theorem le_effect (op : CellOp) {cur : Nat} (h : cur ≤ counterMax) :
    cur ≤ effect exchange op cur ∧ effect exchange op cur ≤ counterMax := by
  cases op with
  | inc =>
    rw [effect_inc, saturatingInc]
    split <;> omega
  | add val =>
    rw [effect_add]
    split <;> try split
    all_goals omega
  | raise ns =>
    rw [effect_raise]
    have hns : ns.toNat < counterMax + 1 := ns.toNat_lt
    omega

/-- Two loops on one word commute, unless one adds and the other raises. -/
theorem effect_comm {a b : CellOp} (h : (∃ ns, a = .raise ns) ↔ ∃ ns, b = .raise ns) (v : Nat) :
    effect exchange b (effect exchange a v) = effect exchange a (effect exchange b v) := by
  cases a with
  | inc =>
    cases b with
    | inc => rfl
    | add val =>
      simp only [effect_inc, effect_add, saturatingInc]
      grind
    | raise ns => simp at h
  | add val =>
    cases b with
    | inc =>
      simp only [effect_inc, effect_add, saturatingInc]
      grind
    | add val' =>
      simp only [effect_add]
      grind
    | raise ns => simp at h
  | raise ns =>
    cases b with
    | inc => simp at h
    | add val => simp at h
    | raise ns' =>
      simp only [effect_raise]
      omega

/-! ## One update -/

theorem runAll_addCalls (key : Key) (val : UInt64) (value : Key → Nat) :
    runAll exchange (addCalls key val) value =
      Function.update value key (saturatingAdd (value key) val.toNat) := by
  unfold addCalls
  split
  · rename_i hval
    subst hval
    exact (Function.update_eq_self key value).symm
  · rename_i hval
    have hne : val.toNat ≠ 0 := fun h => hval (UInt64.toNat_inj.mp h)
    exact congrArg (Function.update value key) (effect_add_eq hne _)

theorem mem_calls {shard : Option Nat} {u : Update} : ∀ c ∈ calls shard u, c.1.1 = shard := by
  intro c hc
  cases u with
  | inc d => simp_all [calls]
  | add d count =>
    simp only [calls, addCalls] at hc
    split at hc <;> simp_all
  | record h ns =>
    simp only [calls, addCalls] at hc
    split at hc <;> simp at hc <;> grind

/-- The other shards stay as they are. -/
theorem shardOf_frame {i j : Option Nat} (h : j ≠ i) (u : Update) (value : Key → Nat) :
    shardOf (runAll exchange (calls i u) value) j = shardOf value j := by
  have hframe : ∀ cell, runAll exchange (calls i u) value (j, cell) = value (j, cell) := by
    intro cell
    refine RetryLoops.runAll_frame exchange (fun c hc hk => h ?_) value
    rw [← mem_calls c hc, hk]
  simp only [shardOf, hframe]

theorem shardOf_counter (i : Option Nat) (c : ShardCounter) (n : Nat) (value : Key → Nat) :
    shardOf (Function.update value (i, .word (.counter c)) n) i =
      { shardOf value i with counters := Function.update (shardOf value i).counters c n } := by
  simp only [shardOf, WorkerShard.mk.injEq]
  refine ⟨?_, by simp⟩
  funext d
  by_cases hd : d = c
  · subst hd
    simp
  · simp [hd]

/-- What `ShardedHistogram::record` leaves of a word. -/
theorem runAll_record (i : Option Nat) (h : ShardHistogram) (ns : UInt64) (value : Key → Nat) :
    runAll exchange (calls i (.record h ns)) value = fun k =>
      if k = (i, .word (.count h)) then saturatingInc (value k)
      else if k = (i, .word (.sumNs h)) then saturatingAdd (value k) ns.toNat
      else if k = (i, .maxNs h) then max (value k) ns.toNat
      else if k = (i, .word (.bucket h ⟨_, bucketForNs_lt ns.toNat⟩)) then saturatingInc (value k)
      else value k := by
  have hsplit : calls i (.record h ns) = [((i, Cell.word (.count h)), CellOp.inc)] ++
      (addCalls (i, .word (.sumNs h)) ns ++ [((i, Cell.maxNs h), CellOp.raise ns),
        ((i, Cell.word (.bucket h ⟨_, bucketForNs_lt ns.toNat⟩)), CellOp.inc)]) := rfl
  rw [hsplit, RetryLoops.runAll_append, RetryLoops.runAll_append, runAll_addCalls]
  funext k
  simp only [runAll, List.foldl_cons, List.foldl_nil, effect_inc, effect_raise,
    Function.update_apply]
  by_cases hcount : k = (i, .word (.count h))
  · simp [hcount]
  by_cases hsum : k = (i, .word (.sumNs h))
  · simp [hsum]
  by_cases hmax : k = (i, .maxNs h)
  · simp [hmax]
  by_cases hbucket : k = (i, .word (.bucket h ⟨_, bucketForNs_lt ns.toNat⟩))
  · simp [hbucket]
  · simp only [hcount, hsum, hmax, hbucket, if_false]

/-- The loops of an update, one after the other, are the update. -/
theorem shardOf_update (i : Option Nat) (u : Update) (value : Key → Nat) :
    shardOf (runAll exchange (calls i u) value) i = (shardOf value i).update u := by
  cases u with
  | inc c =>
    have hvalue : runAll exchange (calls i (.inc c)) value = Function.update value
        (i, .word (.counter c)) (saturatingInc (value (i, .word (.counter c)))) :=
      congrArg (Function.update value _) (effect_inc _)
    rw [hvalue, shardOf_counter]
    rfl
  | add c count =>
    have hvalue : runAll exchange (calls i (.add c count)) value = Function.update value
        (i, .word (.counter c)) (saturatingAdd (value (i, .word (.counter c))) count.toNat) :=
      runAll_addCalls _ _ _
    rw [hvalue, shardOf_counter]
    rfl
  | record h ns =>
    rw [runAll_record]
    simp only [shardOf, WorkerShard.update, WorkerShard.mk.injEq]
    refine ⟨by simp, ?_⟩
    funext h'
    by_cases hh : h' = h
    · subst hh
      simp only [Function.update_self, Histogram.record, Histogram.mk.injEq]
      refine ⟨by simp, by simp, by simp, ?_⟩
      funext k
      by_cases hk : k = bucketForNs ns.toNat
      · subst hk
        simp [bucketForNs_lt]
      · simp [hk]
    · simp [hh]

theorem assemble_update (workerCount : Nat) (worker : Option Nat) (u : Update)
    (value : Key → Nat) :
    assemble workerCount (runAll exchange (calls (shardForCurrent workerCount worker) u) value) =
      (assemble workerCount value).apply worker u := by
  have hshard : (assemble workerCount value).shardForCurrent worker =
      shardForCurrent workerCount worker := by
    simp [ShardedMetrics.shardForCurrent, assemble, shardForCurrent]
  unfold ShardedMetrics.apply
  rw [hshard]
  cases hi : shardForCurrent workerCount worker with
  | none =>
    simp only [assemble, shardOf_update, Option.map_some]
    congr 1
    exact List.map_congr_left fun j _ => shardOf_frame (by simp) u value
  | some i =>
    have hother : shardOf (runAll exchange (calls (some i) u) value) none = shardOf value none :=
      shardOf_frame (by simp) u value
    simp only [assemble, hother]
    congr 1
    refine List.ext_getElem? fun j => ?_
    rw [List.getElem?_modify, List.getElem?_map, List.getElem?_map]
    by_cases hj : i = j
    · subst hj
      cases hget : (List.range workerCount)[i]? with
      | none => rfl
      | some l =>
        obtain rfl : i = l := by
          have := List.getElem?_eq_some_iff.mp hget
          simpa using this.2
        simp [shardOf_update]
    · cases hget : (List.range workerCount)[j]? with
      | none => rfl
      | some l =>
        obtain rfl : j = l := by
          have := List.getElem?_eq_some_iff.mp hget
          simpa using this.2
        have hne : some j ≠ some i := fun h => hj (Option.some.inj h).symm
        simp [hj, shardOf_frame hne]

theorem assemble_zero (workerCount : Nat) :
    assemble workerCount (fun _ => 0) = MetricsMerge.init .detailed workerCount := by
  have hshard : ∀ i, shardOf (fun _ => 0) i = {} := by
    intro i
    simp only [shardOf, WorkerShard.mk.injEq, true_and]
    funext h
    simp
  simp [assemble, MetricsMerge.init, hshard, List.map_const']

/-- The updates one after the other, on the words and on the metrics. -/
theorem run_assemble (workerCount : Nat) (ops : List Op) (value : Key → Nat) :
    MetricsMerge.machine.run (assemble workerCount value) ops =
      some (assemble workerCount (runAll exchange
        (ops.flatMap fun op => calls (shardForCurrent workerCount op.worker) op.update) value)) := by
  induction ops generalizing value with
  | nil => rfl
  | cons op ops ih =>
    rw [List.flatMap_cons, RetryLoops.runAll_append, ← ih, assemble_update]
    rfl

/-- The maximum of a histogram is the only word that is raised. -/
theorem raise_iff {i : Option Nat} {u : Update} {c : Key × CellOp} (hc : c ∈ calls i u) :
    (∃ ns, c.2 = .raise ns) ↔ ∃ h, c.1.2 = .maxNs h := by
  cases u with
  | inc d =>
    obtain rfl := List.mem_singleton.mp hc
    simp
  | add d count =>
    simp only [calls, addCalls] at hc
    split at hc
    · cases hc
    · obtain rfl := List.mem_singleton.mp hc
      simp
  | record h ns =>
    simp only [calls, addCalls] at hc
    split at hc <;> simp at hc <;> grind

/-! ## Every run -/

variable {s s' : Metrics}

structure Metrics.Sound (s : Metrics) : Prop where
  words : RetryLoops.Linearized exchange (fun _ => 0) s.words
  programs : s.words.threads.map (·.program) = s.updates.map s.programOf
  le : ∀ k, s.words.value k ≤ counterMax

/-- What a step makes of the words. -/
theorem next_words {a : Label} (h : s.next a = some s') :
    s'.workerCount = s.workerCount ∧
      (s'.words = s.words ∨ ∃ b, s.words.next exchange b = some s'.words) := by
  cases a with
  | begin ops =>
    cases h
    exact ⟨rfl, .inr ⟨.begin _, rfl⟩⟩
  | step i spurious =>
    obtain ⟨words, hw, rfl⟩ := Option.map_eq_some_iff.mp h
    exact ⟨rfl, .inr ⟨_, hw⟩⟩
  | capture =>
    cases h
    exact ⟨rfl, .inl rfl⟩
  | load =>
    obtain ⟨k, -, rfl⟩ := Option.map_eq_some_iff.mp h
    exact ⟨rfl, .inl rfl⟩

/-- Words only grow, up to the largest value. -/
theorem Metrics.Sound.value_le (hs : s.Sound) {a : Label} (h : s.next a = some s') (k : Key) :
    s.words.value k ≤ s'.words.value k ∧ s'.words.value k ≤ counterMax := by
  obtain ⟨-, hsame | ⟨b, hb⟩⟩ := next_words h
  · rw [hsame]
    exact ⟨le_refl _, hs.le k⟩
  · rcases hs.words.value_next hb k with heq | ⟨op, heq⟩
    · rw [heq]
      exact ⟨le_refl _, hs.le k⟩
    · rw [heq]
      exact le_effect op (hs.le k)

theorem Metrics.Sound.next (hs : s.Sound) {a : Label} (h : s.next a = some s') : s'.Sound := by
  refine ⟨?_, ?_, fun k => (hs.value_le h k).2⟩
  · obtain ⟨-, hsame | ⟨b, hb⟩⟩ := next_words h
    · rw [hsame]
      exact hs.words
    · exact hs.words.next hb
  · cases a with
    | begin ops =>
      cases h
      simp only [List.map_append, List.map_cons, List.map_nil]
      exact congrArg (· ++ [s.programOf ops]) hs.programs
    | step i spurious =>
      obtain ⟨words, hw, rfl⟩ := Option.map_eq_some_iff.mp h
      exact (RetryLoops.programs_next hw).trans hs.programs
    | capture =>
      cases h
      exact hs.programs
    | load =>
      obtain ⟨k, -, rfl⟩ := Option.map_eq_some_iff.mp h
      exact hs.programs

theorem sound_of_reachable (h : Metrics.machine.Reachable s) : s.Sound := by
  refine h.invariant Metrics.Sound ?_ fun s a s' hs _ hn => hs.next hn
  rintro _ ⟨workerCount, rfl⟩
  exact ⟨RetryLoops.linearized_of_reachable (.initial rfl), rfl, fun _ => Nat.zero_le _⟩

/-- **Concurrent updates are the updates one at a time.**  When none is under way, the shards
are what a sequential run of all the updates makes of fresh ones, in whichever order. -/
theorem quiescent_run (h : Metrics.machine.Reachable s) (hq : s.words.Quiescent) {ops : List Op}
    (hops : s.updates.flatten.Perm ops) :
    MetricsMerge.machine.run (MetricsMerge.init .detailed s.workerCount) ops =
      some (assemble s.workerCount s.words.value) := by
  have hs := sound_of_reachable h
  have hprograms : s.words.threads.flatMap (·.program) = s.programOf s.updates.flatten := by
    rw [List.flatMap_def, hs.programs, ← List.flatMap_def]
    generalize s.updates = updates
    induction updates with
    | nil => rfl
    | cons ops updates ih =>
      rw [List.flatMap_cons, ih, List.flatten_cons]
      exact List.flatMap_append.symm
  have hcalls : (s.words.threads.flatMap (·.program)).Perm (s.programOf ops) := by
    rw [hprograms]
    exact hops.flatMap_right _
  rw [← assemble_zero, run_assemble]
  refine congrArg (fun value => some (assemble s.workerCount value)) ?_
  refine (hs.words.value_eq_runAll hq hcalls fun a ha b hb hkey v => ?_).symm
  obtain ⟨o, -, ha⟩ := List.mem_flatMap.mp ha
  obtain ⟨o', -, hb⟩ := List.mem_flatMap.mp hb
  refine effect_comm ?_ v
  rw [raise_iff ha, raise_iff hb, hkey]

/-- Two threads record in one histogram; the loops of both are interleaved, and an exchange
fails twice. -/
def twoRecords : List Label :=
  [.begin [⟨none, .record .executionSegment 5⟩], .begin [⟨some 7, .record .executionSegment 9⟩],
    .step 0 false, .step 1 false, .step 1 true, .step 1 false, .step 0 false, .step 0 false,
    .step 0 false, .step 1 false, .step 0 false, .step 1 false, .step 1 false, .step 0 false,
    .step 1 false, .step 1 false, .step 0 false, .step 0 false, .step 0 false, .step 1 false,
    .step 1 false]

theorem quiescent_run_twoRecords :
    ∃ s, Metrics.machine.run ⟨2, { value := fun _ => 0 }, [], []⟩ twoRecords = some s ∧
      s.words.value (none, .word (.sumNs .executionSegment)) = 14 ∧
      MetricsMerge.machine.run (MetricsMerge.init .detailed 2)
        [⟨some 7, .record .executionSegment 9⟩, ⟨none, .record .executionSegment 5⟩] =
        some (assemble 2 s.words.value) := by
  obtain ⟨s, hs⟩ := Option.isSome_iff_exists.mp
    (show (Metrics.machine.run ⟨2, { value := fun _ => 0 }, [], []⟩ twoRecords).isSome by decide)
  have hend : (Metrics.machine.run ⟨2, { value := fun _ => 0 }, [], []⟩ twoRecords).map
      (fun t => (t.workerCount, t.words.threads.map (·.todo.length), t.updates,
        t.words.value (none, .word (.sumNs .executionSegment)))) =
      some (2, [0, 0], [[⟨none, .record .executionSegment 5⟩],
        [⟨some 7, .record .executionSegment 9⟩]], 14) := by decide +kernel
  rw [hs] at hend
  obtain ⟨hcount, hrest⟩ := Prod.mk.inj (Option.some.inj hend)
  obtain ⟨htodo, hrest⟩ := Prod.mk.inj hrest
  obtain ⟨hupdates, hsum⟩ := Prod.mk.inj hrest
  have hquiet : s.words.Quiescent := by
    intro t ht
    have hmem : t.todo.length ∈ s.words.threads.map (·.todo.length) := List.mem_map_of_mem ht
    rw [htodo] at hmem
    exact List.length_eq_zero_iff.mp (by simpa using hmem)
  refine ⟨s, hs, hsum, ?_⟩
  rw [← hcount]
  refine quiescent_run (Transition.Machine.reachable_of_run ⟨2, rfl⟩ hs) hquiet ?_
  rw [hupdates]
  exact .swap ..

/-! ## Snapshots -/

theorem assemble_shards (workerCount : Nat) (value : Key → Nat) :
    (assemble workerCount value).shards = (shardKeys workerCount).map (shardOf value) := by
  simp [ShardedMetrics.shards, assemble, shardKeys]

theorem total_assemble (workerCount : Nat) (value : Key → Nat) (w : Word) :
    MetricsMerge.total (assemble workerCount value) w =
      ((shardKeys workerCount).map fun i => value (i, .word w)).sum := by
  have hword : ∀ i, (shardOf value i).word w = value (i, .word w) := by
    intro i
    cases w with
    | counter c | count h | sumNs h => rfl
    | bucket h k => simp [WorkerShard.word, MetricsMerge.read, shardOf]
  rw [MetricsMerge.total, assemble_shards, List.map_map]
  exact congrArg List.sum (List.map_congr_left fun i _ => hword i)

/-- The largest value recorded in any shard. -/
def largest (m : ShardedMetrics) (h : ShardHistogram) : Nat :=
  (m.shards.map fun shard => (shard.histograms h).maxNs).foldl max 0

theorem largest_le_iff (workerCount : Nat) (value : Key → Nat) (h : ShardHistogram) (n : Nat) :
    largest (assemble workerCount value) h ≤ n ↔
      ∀ i ∈ shardKeys workerCount, value (i, .maxNs h) ≤ n := by
  rw [largest, assemble_shards, MetricsMerge.foldl_max_le]
  simp [shardOf]

/-- Every word of every shard is loaded. -/
theorem mem_loads {workerCount : Nat} {i : Option Nat} (hi : i ∈ shardKeys workerCount)
    (cell : Cell) : (i, cell) ∈ loads workerCount := by
  have hhistogram : ∀ (h : ShardHistogram) {l : List Key} {k : Key},
      k ∈ (i, Cell.word (.count h)) :: (i, .word (.sumNs h)) :: (i, .maxNs h) ::
        (List.finRange kBucketCount).map (fun b => (i, .word (.bucket h b))) →
      k ∈ loads workerCount := by
    intro h l k hk
    refine List.mem_append_right _ (List.mem_flatMap.mpr ⟨i, hi, ?_⟩)
    exact List.mem_flatMap.mpr ⟨h, h.mem_all, hk⟩
  cases cell with
  | word w =>
    cases w with
    | counter c =>
      refine List.mem_append_left _ (List.mem_flatMap.mpr ⟨i, hi, ?_⟩)
      exact List.mem_map_of_mem c.mem_all
    | count h => exact hhistogram h (l := []) (by simp)
    | sumNs h => exact hhistogram h (l := []) (by simp)
    | bucket h k => exact hhistogram h (l := []) (by simp)
  | maxNs h => exact hhistogram h (l := []) (by simp)

/-- What a snapshot has loaded since `s` is between the words then and the words now. -/
structure Within (s s' : Metrics) : Prop where
  sound : s'.Sound
  workerCount : s'.workerCount = s.workerCount
  le : ∀ k, s.words.value k ≤ s'.words.value k
  loaded : ∀ (j : Nat) (k : Key) (v : Nat), (loads s.workerCount)[j]? = some k →
    s'.loaded[j]? = some v → s.words.value k ≤ v ∧ v ≤ s'.words.value k

theorem Within.next {t t' : Metrics} (h : Within s t) {a : Label} (ha : a ≠ .capture)
    (hn : t.next a = some t') : Within s t' := by
  have hgrow := fun k => (h.sound.value_le hn k).1
  refine ⟨h.sound.next hn, (next_words hn).1.trans h.workerCount,
    fun k => (h.le k).trans (hgrow k), fun j k v hk hv => ?_⟩
  have hold : ∀ v, t.loaded[j]? = some v → s.words.value k ≤ v ∧ v ≤ t'.words.value k := by
    intro v hv
    obtain ⟨hlow, hhigh⟩ := h.loaded j k v hk hv
    exact ⟨hlow, hhigh.trans (hgrow k)⟩
  cases a with
  | begin ops =>
    cases hn
    exact hold v hv
  | step i spurious =>
    obtain ⟨words, hw, rfl⟩ := Option.map_eq_some_iff.mp hn
    exact hold v hv
  | capture => exact absurd rfl ha
  | load =>
    obtain ⟨key, hkey, rfl⟩ := Option.map_eq_some_iff.mp hn
    rcases Nat.lt_trichotomy j t.loaded.length with hj | rfl | hj
    · exact hold v (by simpa [List.getElem?_append_left hj] using hv)
    · -- the word that is loaded now
      rw [h.workerCount, hk] at hkey
      obtain rfl := Option.some.inj hkey
      obtain rfl : t.words.value k = v := by simpa using hv
      exact ⟨h.le k, le_refl _⟩
    · rw [List.getElem?_eq_none (by simp; omega)] at hv
      cases hv

theorem Within.run {t t' : Metrics} {labels : List Label} (h : Within s t)
    (hone : Label.capture ∉ labels) (hr : Metrics.machine.run t labels = some t') :
    Within s t' := by
  induction labels generalizing t with
  | nil =>
    cases hr
    exact h
  | cons a labels ih =>
    obtain ⟨u, hu, hr⟩ := Option.bind_eq_some_iff.mp hr
    obtain ⟨ha, hone⟩ := List.ne_and_not_mem_of_not_mem_cons hone
    exact ih (h.next ha.symm hu) hone hr

theorem Within.found (h : Within s s') (hdone : s'.Captured) {k : Key}
    (hk : k ∈ loads s.workerCount) :
    s.words.value k ≤ s'.found k ∧ s'.found k ≤ s'.words.value k := by
  have hidx := List.idxOf_lt_length_of_mem hk
  have hlt : (loads s.workerCount).idxOf k < s'.loaded.length := by
    rwa [hdone, h.workerCount]
  have hkey : (loads s.workerCount)[(loads s.workerCount).idxOf k]? = some k := by
    rw [List.getElem?_eq_getElem hidx, List.getElem_idxOf]
  have hbounds := h.loaded _ k _ hkey (List.getElem?_eq_getElem hlt)
  unfold Metrics.found
  rw [h.workerCount, List.getD_eq_getElem?_getD, List.getElem?_eq_getElem hlt]
  exact hbounds

/-- **A snapshot under way is fuzzy, but no more than that.**  While other threads go on
updating, every word of an unsaturated snapshot is between what the shards held when it began
and what they hold when its last word is loaded. -/
theorem snapshot_between (h : Metrics.machine.Reachable s) {labels : List Label}
    (hone : Label.capture ∉ labels)
    (hr : Metrics.machine.run s (.capture :: labels) = some s') (hdone : s'.Captured)
    (hflag : s'.snapshot.saturated = false) :
    (∀ w, MetricsMerge.total (assemble s.workerCount s.words.value) w ≤
        MetricsMerge.read s'.snapshot.counters s'.snapshot.histograms w ∧
      MetricsMerge.read s'.snapshot.counters s'.snapshot.histograms w ≤
        MetricsMerge.total (assemble s.workerCount s'.words.value) w) ∧
    ∀ i, largest (assemble s.workerCount s.words.value) i ≤ (s'.snapshot.histograms i).maxNs ∧
      (s'.snapshot.histograms i).maxNs ≤ largest (assemble s.workerCount s'.words.value) i := by
  have hs := sound_of_reachable h
  obtain ⟨t, ht, hr⟩ := Option.bind_eq_some_iff.mp hr
  cases ht
  have hbegin : Within s { s with loaded := [] } :=
    ⟨⟨hs.words, hs.programs, hs.le⟩, rfl, fun _ => le_refl _, fun j k v _ hv => by cases hv⟩
  have hwithin := hbegin.run hone hr
  have hfound : ∀ i ∈ shardKeys s.workerCount, ∀ cell, s.words.value (i, cell) ≤
      s'.found (i, cell) ∧ s'.found (i, cell) ≤ s'.words.value (i, cell) :=
    fun i hi cell => hwithin.found hdone (mem_loads hi cell)
  have hmerged := MetricsMerge.merged_of_unflagged rfl hflag
  refine ⟨fun w => ?_, fun i => ?_⟩
  · rw [Metrics.snapshot, hmerged.word, hwithin.workerCount, total_assemble, total_assemble,
      total_assemble]
    exact ⟨List.sum_le_sum fun i hi => (hfound i hi _).1,
      List.sum_le_sum fun i hi => (hfound i hi _).2⟩
  · have hmax : (s'.snapshot.histograms i).maxNs = largest (assemble s.workerCount s'.found) i := by
      rw [Metrics.snapshot, hmerged.maxNs, hwithin.workerCount]
      rfl
    rw [hmax]
    constructor
    · refine (largest_le_iff ..).mpr fun j hj => (hfound j hj _).1.trans ?_
      exact (largest_le_iff s.workerCount s'.found i _).mp (le_refl _) j hj
    · refine (largest_le_iff ..).mpr fun j hj => (hfound j hj _).2.trans ?_
      exact (largest_le_iff s.workerCount s'.words.value i _).mp (le_refl _) j hj

/-- Loads without a step of another thread in between. -/
theorem run_loads {j n : Nat} (hj : s.loaded = ((loads s.workerCount).take j).map s.words.value)
    (hn : j + n ≤ (loads s.workerCount).length) :
    Metrics.machine.run s (List.replicate n .load) =
      some { s with loaded := ((loads s.workerCount).take (j + n)).map s.words.value } := by
  induction n generalizing s j with
  | zero =>
    rw [Nat.add_zero, ← hj]
    rfl
  | succ n ih =>
    have hlength : s.loaded.length = j := by
      rw [hj, List.length_map, List.length_take]
      omega
    have hget : j < (loads s.workerCount).length := by omega
    have hstep : s.next .load = some { s with
        loaded := ((loads s.workerCount).take (j + 1)).map s.words.value } := by
      simp only [Metrics.next, hlength, List.getElem?_eq_getElem hget, Option.map_some]
      rw [List.take_succ_eq_append_getElem hget, List.map_append, ← hj]
      rfl
    rw [List.replicate_succ]
    refine (Option.bind_eq_some_iff.mpr ⟨_, hstep, ih rfl (by simp only; omega)⟩).trans ?_
    simp only
    rw [Nat.add_right_comm, Nat.add_assoc]

/-- A snapshot without a step of another thread in between is one of the words as they are. -/
theorem snapshot_eq (hloaded : s.loaded = (loads s.workerCount).map s.words.value) :
    s.snapshot = (assemble s.workerCount s.words.value).metricsSnapshot := by
  have hfound : ∀ k ∈ loads s.workerCount, s.found k = s.words.value k := by
    intro k hk
    have hidx := List.idxOf_lt_length_of_mem hk
    rw [Metrics.found, hloaded, List.getD_eq_getElem?_getD, List.getElem?_map,
      List.getElem?_eq_getElem hidx, List.getElem_idxOf]
    rfl
  have hshard : ∀ i ∈ shardKeys s.workerCount, shardOf s.found i = shardOf s.words.value i := by
    intro i hi
    simp only [shardOf, hfound _ (mem_loads hi _)]
  rw [Metrics.snapshot]
  congr 1
  simp only [assemble, hshard none (by simp [shardKeys])]
  congr 1
  refine List.map_congr_left fun i hi => hshard (some i) ?_
  exact List.mem_cons_of_mem _ (List.mem_map_of_mem hi)

/-- Whoever has loaded nothing yet can load everything, and nothing in between. -/
theorem exists_run_loads (hloaded : s.loaded = []) :
    ∃ labels, Label.capture ∉ labels ∧ Metrics.machine.run s labels =
      some { s with loaded := (loads s.workerCount).map s.words.value } := by
  refine ⟨List.replicate (loads s.workerCount).length .load, fun h => ?_, ?_⟩
  · cases List.eq_of_mem_replicate h
  · have hrun := run_loads (s := s) (j := 0) (n := (loads s.workerCount).length)
      (by rw [hloaded]; rfl) (by omega)
    rwa [Nat.zero_add, List.take_length] at hrun

/-- The metrics without workers, after one claim has been counted. -/
def oneClaim : ShardedMetrics :=
  assemble 0 (Function.update (fun _ => 0) (none, .word (.counter .localClaims)) 1)

/-- An increment that takes effect after the snapshot has begun and before its first load. -/
theorem snapshot_between_increment :
    ∃ s labels s', Metrics.machine.run s (.capture :: labels) = some s' ∧
      MetricsMerge.total (assemble 0 s.words.value) (.counter .localClaims) = 0 ∧
      s'.snapshot.counters .localClaims = 1 ∧
      s'.snapshot.counters .localClaims ≤
        MetricsMerge.total (assemble 0 s'.words.value) (.counter .localClaims) := by
  obtain ⟨s, hs⟩ : ∃ s, Metrics.machine.run ⟨0, { value := fun _ => 0 }, [], []⟩
      [.begin [⟨none, .inc .localClaims⟩]] = some s := ⟨_, rfl⟩
  obtain ⟨t, ht⟩ : ∃ t, Metrics.machine.run s [.capture, .step 0 false, .step 0 false] = some t := by
    cases hs
    exact ⟨_, rfl⟩
  have hcount : s.workerCount = 0 := by
    cases hs
    rfl
  have hstart : s.words.value (none, .word (.counter .localClaims)) = 0 := by
    cases hs
    rfl
  obtain ⟨htcount, hloaded, hvalue⟩ : t.workerCount = 0 ∧ t.loaded = [] ∧ t.words.value =
      Function.update (fun _ => 0) (none, .word (.counter .localClaims)) 1 := by
    cases hs
    cases ht
    exact ⟨rfl, rfl, rfl⟩
  obtain ⟨labels, hone, hlabels⟩ := exists_run_loads hloaded
  obtain ⟨s', hs'⟩ : ∃ s', s' = { t with loaded := (loads t.workerCount).map t.words.value } :=
    ⟨_, rfl⟩
  rw [← hs'] at hlabels
  have hsnapshot : s'.snapshot = oneClaim.metricsSnapshot := by
    rw [snapshot_eq (by rw [hs']), hs', htcount, hvalue, oneClaim]
  have hrun : Metrics.machine.run s
      (.capture :: ([Label.step 0 false, Label.step 0 false] ++ labels)) = some s' := by
    rw [← List.cons_append, Transition.Machine.run_append, ht]
    exact hlabels
  have hdone : s'.Captured := by rw [Metrics.Captured, hs', List.length_map]
  have hwithin := (snapshot_between (Transition.Machine.reachable_of_run ⟨0, rfl⟩ hs)
    (by simpa using hone) hrun hdone (by rw [hsnapshot]; decide +kernel)).1 (.counter .localClaims)
  rw [hcount] at hwithin
  refine ⟨s, _, s', hrun, ?_, ?_, hwithin.2⟩
  · rw [total_assemble]
    simp [shardKeys, hstart]
  · rw [hsnapshot]
    decide +kernel

end ConcurrentMetrics
end AstraScheduler
