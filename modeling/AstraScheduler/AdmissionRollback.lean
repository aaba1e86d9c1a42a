import AstraScheduler.AdmissionController
import AstraScheduler.RuntimeMetrics

/-! # Submissions that throw after they are admitted

`acquire` counts the external slots and raises the gauge of ready tasks, and a graph run
raises the gauge of active runs.  What fails between that and the first publication is undone
by `publish_submission` for a submission and by `GraphAdmissionLease` for a graph run.  The
lease is given up before the first root is posted, and a submission gives back its slot but
leaves the gauge. -/

namespace AstraScheduler
namespace AdmissionRollback

open RuntimeMetrics

/-- The admission counter and the metrics that admission touches. -/
structure RuntimeCounters where
  admission : AdmissionController
  level : MetricsLevel := .basic
  readyTasks : Nat := 0
  activeGraphRuns : Nat := 0
  submissionAttempts : Nat := 0
  acceptedTaskIdentities : Nat := 0
  rejectedLifecycle : Nat := 0
  rejectedCapacity : Nat := 0
  graphAdmissionAttempts : Nat := 0
  graphRunsAccepted : Nat := 0
  graphRunsRejected : Nat := 0
  deriving DecidableEq, Repr

/-- `fetch_add` on a 64-bit word. -/
def fetchAdd (word count : Nat) : Nat := (word + count) % 2 ^ 64

namespace RuntimeCounters
variable (s : RuntimeCounters)

/-- What happens unless the metrics are off. -/
def metered (update : RuntimeCounters → RuntimeCounters) : RuntimeCounters :=
  if s.level = .off then s else update s

/-- `AdmissionController::acquire`; `none` while it waits for a slot. -/
def acquire (status : SchedulerStatus) (count : Nat) (block isInternal : Bool) :
    Option (AdmissionDecision × RuntimeCounters) :=
  (s.admission.acquire status count block isInternal).map fun (decision, admission) =>
    let s := { s with admission := admission }
    (decision, s.metered fun s =>
      match decision with
      | .success =>
        { s with
          acceptedTaskIdentities := saturatingAdd s.acceptedTaskIdentities count
          readyTasks := fetchAdd s.readyTasks count }
      | .stopping | .stopped => { s with rejectedLifecycle := saturatingInc s.rejectedLifecycle }
      | .capacityExhausted => { s with rejectedCapacity := saturatingInc s.rejectedCapacity })

/-- `release_external_slots`. -/
def releaseExternalSlots (count : Nat) : RuntimeCounters :=
  { s with admission := s.admission.release count }

def recordSubmissionAttempt : RuntimeCounters :=
  s.metered fun s => { s with submissionAttempts := saturatingInc s.submissionAttempts }

def recordGraphAdmissionAttempt : RuntimeCounters :=
  s.metered fun s => { s with graphAdmissionAttempts := saturatingInc s.graphAdmissionAttempts }

def recordGraphRejected : RuntimeCounters :=
  s.metered fun s => { s with graphRunsRejected := saturatingInc s.graphRunsRejected }

def recordGraphStarted : RuntimeCounters :=
  s.metered fun s =>
    { s with
      graphRunsAccepted := saturatingInc s.graphRunsAccepted
      activeGraphRuns := fetchAdd s.activeGraphRuns 1 }

def rollbackGraphStarted (taskCount : Nat) : RuntimeCounters :=
  s.metered fun s =>
    { s with
      readyTasks := s.readyTasks - min s.readyTasks taskCount
      activeGraphRuns := saturatingDec s.activeGraphRuns }

/-- `GraphAdmissionLease::rollback`. -/
def leaseRollback (slotCount : Nat) (isInternal : Bool) : RuntimeCounters :=
  let s := s.rollbackGraphStarted slotCount
  if isInternal then s else s.releaseExternalSlots slotCount

end RuntimeCounters

/-! ## The two calls -/

/-- The statements of `publish_submission` that may throw. -/
inductive SubmitStep where
  | allocateTaskId
  | makeCell
  | makeInvoker
  | postTaskInvoker
  deriving DecidableEq, Repr

/-- The statements of `GraphExecution::run` that may throw once the run is admitted. -/
inductive RunStep where
  | makeState
  | materialize
  | reserveRoots
  /-- `post_node` of the first root, which may throw before it publishes. -/
  | postFirstRoot
  deriving DecidableEq, Repr

inductive Result (Step : Type) where
  | rejected (decision : AdmissionDecision)
  /-- The exception of a step after `acquire`. -/
  | threw (step : Step)
  | returned
  deriving DecidableEq, Repr

/-- `submit` or `spawn`, from `prepare_submission` on; `fails` says which statement throws.
`none` while `acquire` waits. -/
def submit (s : RuntimeCounters) (status : SchedulerStatus) (block isInternal : Bool)
    (fails : SubmitStep → Bool) : Option (Result SubmitStep × RuntimeCounters) :=
  (s.recordSubmissionAttempt.acquire status 1 block isInternal).map fun (decision, s) =>
    if decision ≠ .success then (.rejected decision, s)
    else
      match [SubmitStep.allocateTaskId, .makeCell, .makeInvoker, .postTaskInvoker].find? fails with
      | none => (.returned, s)
      | some step => (.threw step, if isInternal then s else s.releaseExternalSlots 1)

/-- `GraphExecution::run` of a graph with `nodeCount` nodes, from its first record on. -/
def run (s : RuntimeCounters) (status : SchedulerStatus) (nodeCount : Nat) (block isInternal : Bool)
    (fails : RunStep → Bool) : Option (Result RunStep × RuntimeCounters) :=
  (s.recordGraphAdmissionAttempt.acquire status nodeCount block isInternal).map fun (decision, s) =>
    if decision ≠ .success then (.rejected decision, s.recordGraphRejected)
    else
      let s := s.recordGraphStarted
      if fails .makeState then (.threw .makeState, s.leaseRollback nodeCount isInternal)
      else if nodeCount = 0 then (.returned, s.leaseRollback nodeCount isInternal)
      else if fails .materialize then (.threw .materialize, s.leaseRollback nodeCount isInternal)
      else if fails .reserveRoots then (.threw .reserveRoots, s.leaseRollback nodeCount isInternal)
      -- the lease is committed
      else if fails .postFirstRoot then (.threw .postFirstRoot, s)
      else (.returned, s)

/-! ## What a call leaves -/

/-- The pending counter and the two gauges are as before. -/
structure NoTrace (s s' : RuntimeCounters) : Prop where
  pending : s'.admission.pending = s.admission.pending
  readyTasks : s'.readyTasks = s.readyTasks
  activeGraphRuns : s'.activeGraphRuns = s.activeGraphRuns

instance (s s' : RuntimeCounters) : Decidable (NoTrace s s') :=
  decidable_of_iff (s'.admission.pending = s.admission.pending ∧ s'.readyTasks = s.readyTasks ∧
    s'.activeGraphRuns = s.activeGraphRuns)
    ⟨fun ⟨h, h', h''⟩ => ⟨h, h', h''⟩, fun h => ⟨h.pending, h.readyTasks, h.activeGraphRuns⟩⟩

/-- The counters are 64-bit words. -/
structure Words (s : RuntimeCounters) : Prop where
  pending : s.admission.pending < 2 ^ 64
  readyTasks : s.readyTasks < 2 ^ 64
  activeGraphRuns : s.activeGraphRuns < 2 ^ 64

/-- The slots of an external call are counted without wrapping around. -/
def slotsFit (s : RuntimeCounters) (count : Nat) (isInternal : Bool) : Prop :=
  isInternal ∨ s.admission.pending + count < 2 ^ 64

variable {s s' : RuntimeCounters} {status : SchedulerStatus} {count : Nat}
  {block isInternal : Bool}

/-! ## Admission -/

/-- The units that `acquire` counts are in the counter afterwards, up to its word. -/
theorem acquire_pending {a a' : AdmissionController} (hpending : a.pending < 2 ^ 64)
    (h : a.acquire status count block isInternal = some (.success, a')) :
    a'.pending = if isInternal then a.pending else fetchAdd a.pending count := by
  have hsame : isInternal = true ∨ count = 0 →
      a.pending = if isInternal then a.pending else fetchAdd a.pending count := by
    intro hnone
    split
    · rfl
    · rename_i hext
      obtain rfl := hnone.resolve_left hext
      exact (Nat.mod_eq_of_lt hpending).symm
  unfold AdmissionController.acquire at h
  split at h
  · rename_i hzero
    split at h
    · cases h
    · split at h
      · cases h
      · cases h
        exact hsame (.inr hzero)
  split at h
  · cases h
  · split at h
    · rename_i hint
      cases h
      exact hsame (.inl hint.1)
    · cases h
  · split at h
    · rename_i hint
      cases h
      exact hsame (.inl hint)
    · rename_i hext
      split at h
      · cases h
      split at h
      · cases h
        rw [if_neg hext]
        rfl
      · split at h <;> cases h

/-- What a successful `acquire` does to the counter and the gauges. -/
theorem RuntimeCounters.acquire_success (hpending : s.admission.pending < 2 ^ 64)
    (h : s.acquire status count block isInternal = some (.success, s')) :
    s'.level = s.level ∧
      s'.admission.pending =
        (if isInternal then s.admission.pending else fetchAdd s.admission.pending count) ∧
      s'.readyTasks = (if s.level = .off then s.readyTasks else fetchAdd s.readyTasks count) ∧
      s'.activeGraphRuns = s.activeGraphRuns := by
  obtain ⟨⟨decision, admission⟩, hacquire, hs⟩ := Option.map_eq_some_iff.mp h
  obtain ⟨rfl, rfl⟩ := Prod.mk.inj hs
  have hcounted := acquire_pending hpending hacquire
  simp only [metered]
  split
  · exact ⟨rfl, hcounted, rfl, rfl⟩
  · exact ⟨rfl, hcounted, rfl, rfl⟩

/-- `release` gives back what was counted, unless the word wrapped around. -/
theorem release_fetchAdd_eq_iff {a : AdmissionController} {p : Nat} (hp : p < 2 ^ 64)
    (ha : a.pending = fetchAdd p count) (hcount : count < 2 ^ 64) :
    (a.release count).pending = p ↔ p + count < 2 ^ 64 := by
  unfold fetchAdd at ha
  unfold AdmissionController.release
  split
  · omega
  · simp only
    split <;> omega

/-- The gauge of ready tasks after the rollback of a run. -/
theorem fetchAdd_sub_min_eq_iff {word : Nat} (hword : word < 2 ^ 64) (hcount : count < 2 ^ 64) :
    fetchAdd word count - min (fetchAdd word count) count = word ↔ word + count < 2 ^ 64 := by
  unfold fetchAdd
  omega

theorem fetchAdd_ne {word : Nat} (hcount : count < 2 ^ 64) (hpos : count ≠ 0) :
    fetchAdd word count ≠ word := by
  unfold fetchAdd
  omega

/-! ## The two calls -/

/-- A submission that throws gives back its slot and leaves the gauge raised. -/
theorem submit_threw (hw : Words s) {fails : SubmitStep → Bool} {step : SubmitStep}
    (h : submit s status block isInternal fails = some (.threw step, s')) :
    NoTrace s s' ↔ s.level = .off ∧ slotsFit s 1 isInternal := by
  obtain ⟨⟨decision, t⟩, hacquire, hs⟩ := Option.map_eq_some_iff.mp h
  have hlevel : s.recordSubmissionAttempt.level = s.level ∧
      s.recordSubmissionAttempt.admission = s.admission ∧
      s.recordSubmissionAttempt.readyTasks = s.readyTasks ∧
      s.recordSubmissionAttempt.activeGraphRuns = s.activeGraphRuns := by
    unfold RuntimeCounters.recordSubmissionAttempt RuntimeCounters.metered
    split <;> exact ⟨rfl, rfl, rfl, rfl⟩
  obtain ⟨hlevel, hadmission, hready, hactive⟩ := hlevel
  simp only at hs
  split at hs
  · cases hs
  rename_i hdecision
  obtain rfl := not_not.mp hdecision
  obtain ⟨-, hpending', hready', hactive'⟩ :=
    RuntimeCounters.acquire_success (hadmission ▸ hw.pending) hacquire
  rw [hadmission] at hpending'
  rw [hlevel, hready] at hready'
  rw [hactive] at hactive'
  split at hs
  · cases hs
  obtain ⟨-, rfl⟩ := Prod.mk.inj hs
  unfold slotsFit
  by_cases hint : isInternal = true
  · simp only [hint, if_true, true_or, and_true] at hpending' ⊢
    constructor
    · intro htrace
      by_contra hon
      rw [if_neg hon] at hready'
      exact fetchAdd_ne (by omega) Nat.one_ne_zero
        (hready'.symm.trans htrace.readyTasks)
    · intro hoff
      rw [if_pos hoff] at hready'
      exact ⟨hpending', hready', hactive'⟩
  · simp only [hint, if_false, Bool.false_eq_true, false_or] at hpending' ⊢
    have hrelease := release_fetchAdd_eq_iff hw.pending hpending' (by omega : (1 : Nat) < 2 ^ 64)
    constructor
    · intro htrace
      refine ⟨?_, hrelease.mp htrace.pending⟩
      by_contra hon
      rw [if_neg hon] at hready'
      exact fetchAdd_ne (by omega) Nat.one_ne_zero
        (hready'.symm.trans htrace.readyTasks)
    · rintro ⟨hoff, hfit⟩
      rw [if_pos hoff] at hready'
      exact ⟨hrelease.mpr hfit, hready', hactive'⟩

/-- The lease gives back everything, up to the words. -/
theorem leaseRollback_noTrace_iff {t : RuntimeCounters} (hw : Words s) (hcount : count < 2 ^ 64)
    (hlevel : t.level = s.level)
    (hpending : t.admission.pending =
      (if isInternal then s.admission.pending else fetchAdd s.admission.pending count))
    (hready : t.readyTasks = (if s.level = .off then s.readyTasks else fetchAdd s.readyTasks count))
    (hactive : t.activeGraphRuns =
      (if s.level = .off then s.activeGraphRuns else fetchAdd s.activeGraphRuns 1)) :
    NoTrace s (t.leaseRollback count isInternal) ↔
      (s.level = .off ∨ s.readyTasks + count < 2 ^ 64 ∧ s.activeGraphRuns + 1 < 2 ^ 64) ∧
        slotsFit s count isInternal := by
  have hslots : (t.leaseRollback count isInternal).admission.pending = s.admission.pending ↔
      slotsFit s count isInternal := by
    have hkeep : (t.rollbackGraphStarted count).admission = t.admission := by
      unfold RuntimeCounters.rollbackGraphStarted RuntimeCounters.metered
      split <;> rfl
    unfold RuntimeCounters.leaseRollback slotsFit
    by_cases hint : isInternal = true
    · simp only [hint, if_true, true_or, iff_true] at hpending ⊢
      rw [hkeep, hpending]
    · simp only [hint, if_false, Bool.false_eq_true, false_or] at hpending ⊢
      simp only [RuntimeCounters.releaseExternalSlots, hkeep]
      exact release_fetchAdd_eq_iff hw.pending hpending hcount
  have hgauges : ((t.leaseRollback count isInternal).readyTasks = s.readyTasks ∧
      (t.leaseRollback count isInternal).activeGraphRuns = s.activeGraphRuns) ↔
      (s.level = .off ∨ s.readyTasks + count < 2 ^ 64 ∧ s.activeGraphRuns + 1 < 2 ^ 64) := by
    have hkeep : (t.leaseRollback count isInternal).readyTasks =
          (t.rollbackGraphStarted count).readyTasks ∧
        (t.leaseRollback count isInternal).activeGraphRuns =
          (t.rollbackGraphStarted count).activeGraphRuns := by
      simp only [RuntimeCounters.leaseRollback]
      split <;> exact ⟨rfl, rfl⟩
    rw [hkeep.1, hkeep.2]
    simp only [RuntimeCounters.rollbackGraphStarted, RuntimeCounters.metered, hlevel]
    by_cases hoff : s.level = .off
    · rw [if_pos hoff] at hready hactive
      simp only [hoff, if_true, hready, hactive, and_self, true_or]
    · rw [if_neg hoff] at hready hactive
      simp only [hoff, if_false, hready, hactive, false_or, saturatingDec_eq]
      rw [fetchAdd_sub_min_eq_iff hw.readyTasks hcount]
      refine and_congr_right fun _ => ?_
      have := hw.activeGraphRuns
      unfold fetchAdd
      omega
  exact ⟨fun h => ⟨hgauges.mp ⟨h.readyTasks, h.activeGraphRuns⟩, hslots.mp h.pending⟩,
    fun ⟨h, h'⟩ => ⟨hslots.mpr h', (hgauges.mpr h).1, (hgauges.mpr h).2⟩⟩

/-- A run that throws leaves no trace while it holds the lease; afterwards it leaves all of
it. -/
theorem run_threw (hw : Words s) (hcount : count < 2 ^ 64) {fails : RunStep → Bool}
    {step : RunStep} (h : run s status count block isInternal fails = some (.threw step, s')) :
    NoTrace s s' ↔
      if step = .postFirstRoot then s.level = .off ∧ isInternal
      else (s.level = .off ∨ s.readyTasks + count < 2 ^ 64 ∧ s.activeGraphRuns + 1 < 2 ^ 64) ∧
        slotsFit s count isInternal := by
  obtain ⟨⟨decision, t⟩, hacquire, hs⟩ := Option.map_eq_some_iff.mp h
  have hattempt : s.recordGraphAdmissionAttempt.level = s.level ∧
      s.recordGraphAdmissionAttempt.admission = s.admission ∧
      s.recordGraphAdmissionAttempt.readyTasks = s.readyTasks ∧
      s.recordGraphAdmissionAttempt.activeGraphRuns = s.activeGraphRuns := by
    unfold RuntimeCounters.recordGraphAdmissionAttempt RuntimeCounters.metered
    split <;> exact ⟨rfl, rfl, rfl, rfl⟩
  obtain ⟨hlevel, hadmission, hready, hactive⟩ := hattempt
  simp only at hs
  split at hs
  · cases hs
  rename_i hdecision
  obtain rfl := not_not.mp hdecision
  obtain ⟨hlevel', hpending', hready', hactive'⟩ :=
    RuntimeCounters.acquire_success (hadmission ▸ hw.pending) hacquire
  rw [hlevel] at hlevel'
  rw [hadmission] at hpending'
  rw [hlevel, hready] at hready'
  rw [hactive] at hactive'
  have hstarted : t.recordGraphStarted.level = s.level ∧
      t.recordGraphStarted.admission = t.admission ∧
      t.recordGraphStarted.readyTasks = t.readyTasks ∧
      t.recordGraphStarted.activeGraphRuns =
        (if s.level = .off then s.activeGraphRuns else fetchAdd s.activeGraphRuns 1) := by
    unfold RuntimeCounters.recordGraphStarted RuntimeCounters.metered
    rw [hlevel']
    split
    · exact ⟨hlevel', rfl, rfl, hactive'⟩
    · exact ⟨hlevel', rfl, rfl, congrArg (fetchAdd · 1) hactive'⟩
  obtain ⟨hlevel'', hadmission'', hready'', hactive''⟩ := hstarted
  have hpending'' := (congrArg AdmissionController.pending hadmission'').trans hpending'
  have hlease := leaseRollback_noTrace_iff hw hcount hlevel'' hpending''
    (hready''.trans hready') hactive''
  split at hs
  · obtain ⟨hstep, rfl⟩ := Prod.mk.inj hs
    obtain rfl := Result.threw.inj hstep
    rwa [if_neg (by decide)]
  split at hs
  · cases hs
  rename_i hpos
  split at hs
  · obtain ⟨hstep, rfl⟩ := Prod.mk.inj hs
    obtain rfl := Result.threw.inj hstep
    rwa [if_neg (by decide)]
  split at hs
  · obtain ⟨hstep, rfl⟩ := Prod.mk.inj hs
    obtain rfl := Result.threw.inj hstep
    rwa [if_neg (by decide)]
  split at hs
  · obtain ⟨hstep, rfl⟩ := Prod.mk.inj hs
    obtain rfl := Result.threw.inj hstep
    rw [if_pos rfl]
    constructor
    · intro htrace
      constructor
      · by_contra hon
        rw [if_neg hon] at hready'
        exact fetchAdd_ne hcount hpos
          ((hready''.trans hready').symm.trans htrace.readyTasks)
      · by_contra hext
        rw [if_neg hext] at hpending''
        exact fetchAdd_ne hcount hpos (hpending''.symm.trans htrace.pending)
    · rintro ⟨hoff, hint⟩
      rw [if_pos hint] at hpending''
      rw [if_pos hoff] at hready' hactive''
      exact ⟨hpending'', hready''.trans hready', hactive''⟩
  · cases hs

/-- When a call that throws after its admission leaves no trace. -/
theorem threw_noTrace_iff (hw : Words s) (status : SchedulerStatus) (block isInternal : Bool) :
    (∀ fails step s', submit s status block isInternal fails = some (.threw step, s') →
      (NoTrace s s' ↔ s.level = .off ∧ slotsFit s 1 isInternal)) ∧
    ∀ nodeCount < 2 ^ 64, ∀ fails step s',
      run s status nodeCount block isInternal fails = some (.threw step, s') →
        (NoTrace s s' ↔
          if step = .postFirstRoot then s.level = .off ∧ isInternal
          else (s.level = .off ∨
              s.readyTasks + nodeCount < 2 ^ 64 ∧ s.activeGraphRuns + 1 < 2 ^ 64) ∧
            slotsFit s nodeCount isInternal) :=
  ⟨fun _ _ _ h => submit_threw hw h, fun _ hcount _ _ _ h => run_threw hw hcount h⟩

/-- An idle runtime with four external slots. -/
def idle : RuntimeCounters := { admission := { capacity := 4 } }

/-- A graph of three nodes whose materialization throws leaves no trace. -/
theorem materialize_threw :
    NoTrace idle { idle with
      acceptedTaskIdentities := 3, graphAdmissionAttempts := 1, graphRunsAccepted := 1 } :=
  ((threw_noTrace_iff ⟨by decide, by decide, by decide⟩ {} false false).2 3 (by decide)
    (· = .materialize) .materialize _ (by decide)).mpr
      ⟨.inr ⟨by decide, by decide⟩, .inr (by decide)⟩

/-- The copy of a callable throws in `submit`; the first root of a graph cannot be posted. -/
theorem makeInvoker_threw_leaves_ready :
    (∃ s', submit idle {} true false (· = .makeInvoker) = some (.threw .makeInvoker, s') ∧
      s'.readyTasks = 1 ∧ ¬ NoTrace idle s') ∧
    ∃ s', run idle {} 3 true false (· = .postFirstRoot) = some (.threw .postFirstRoot, s') ∧
      s'.admission.pending = 3 ∧ s'.readyTasks = 3 ∧ s'.activeGraphRuns = 1 ∧
        ¬ NoTrace idle s' :=
  ⟨⟨_, rfl, by decide⟩, _, rfl, by decide⟩

end AdmissionRollback
end AstraScheduler
