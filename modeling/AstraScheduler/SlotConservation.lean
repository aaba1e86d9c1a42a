import AstraScheduler.ExternalSlots
import AstraScheduler.QueueSweep

/-! # Every slot is accounted for

The pending counter stands for four kinds of work: submissions that are admitted and not
published, external tasks in the global queues, external tasks taken out of them by a
claim or a sweep that has not released yet, and the unposted nodes of external graph runs.
A step that takes a unit out of one kind puts it into another, releases it in the same
critical section, or leaves it owing to the step that follows it (`Owing`).

The flag `is_external` is what a release goes by, so the invariant also follows the tasks:
a local task has the flag false, and so has a resume that a sweep has collected. -/

namespace AstraScheduler
namespace ExternalSlots

open LinkedReadyQueues QueuePlace
open Transition (Machine)

/-! ## Calls in progress -/

section Calls
variable {α : Type*} {calls : List α} {j : Nat} {a : α}

theorem eraseIdx_perm (h : calls[j]? = some a) : (a :: calls.eraseIdx j).Perm calls := by
  obtain ⟨hj, rfl⟩ := List.getElem?_eq_some_iff.mp h
  exact List.getElem_cons_eraseIdx_perm hj

theorem set_perm (h : calls[j]? = some a) (b : α) :
    (calls.set j b).Perm (b :: calls.eraseIdx j) :=
  List.set_perm_cons_eraseIdx (List.getElem?_eq_some_iff.mp h).1 b

theorem sum_set (f : α → Nat) (h : calls[j]? = some a) (b : α) :
    ((calls.set j b).map f).sum + f a = (calls.map f).sum + f b := by
  have hnew := ((set_perm h b).map f).sum_nat
  have hold := ((eraseIdx_perm h).map f).sum_nat
  rw [List.map_cons, List.sum_cons] at hnew hold
  omega

theorem sum_eraseIdx (f : α → Nat) (h : calls[j]? = some a) :
    ((calls.eraseIdx j).map f).sum + f a = (calls.map f).sum := by
  have hold := ((eraseIdx_perm h).map f).sum_nat
  rw [List.map_cons, List.sum_cons] at hold
  omega

theorem countP_eraseIdx (p : α → Bool) (h : calls[j]? = some a) :
    (calls.eraseIdx j).countP p + (if p a then 1 else 0) = calls.countP p := by
  rw [← (eraseIdx_perm h).countP_eq, List.countP_cons]

end Calls

/-! ## Where the tasks are -/

variable {I : Type}

/-- The resumes that sweeps have collected and not yet published again. -/
def collected (sweeps : List (SweepCall I)) : List (QueuedTask I) := sweeps.flatMap (·.resumes)

structure Custody (rq : LinkedReadyQueues I) (owned : List I) (sweeps : List (SweepCall I)) :
    Prop where
  wellLinked : WellLinked rq
  owned : ∀ t ∈ rq.queued ++ collected sweeps, t.invoker ∈ owned
  distinct : ((rq.queued ++ collected sweeps).map (·.invoker)).Nodup
  inLocal : ∀ t ∈ rq.queuedLocal, t.isExternal = false
  inSweeps : ∀ t ∈ collected sweeps, t.isExternal = false
  bands : ∀ call ∈ sweeps, ∀ b ∈ call.bands, b.1 < rq.workerCount

variable {rq rq' : LinkedReadyQueues I} {owned : List I} {sweeps sweeps' : List (SweepCall I)}
  {j : Nat} {call : SweepCall I}

theorem collected_set (h : sweeps[j]? = some call) (call' : SweepCall I) :
    (collected (sweeps.set j call')).Perm (call'.resumes ++ collected (sweeps.eraseIdx j)) :=
  (set_perm h call').flatMap_right _

theorem collected_eraseIdx (h : sweeps[j]? = some call) :
    (call.resumes ++ collected (sweeps.eraseIdx j)).Perm (collected sweeps) :=
  (eraseIdx_perm h).flatMap_right _

namespace Custody

/-- What moves tasks, or takes some away, keeps them in custody. -/
theorem of_perm (h : Custody rq owned sweeps) (gone : List (QueuedTask I))
    (hwell : WellLinked rq')
    (hperm : (rq'.queued ++ collected sweeps' ++ gone).Perm (rq.queued ++ collected sweeps))
    (hlocal : ∀ t ∈ rq'.queuedLocal, t.isExternal = false)
    (hsweeps : ∀ t ∈ collected sweeps', t.isExternal = false)
    (hbands : ∀ call ∈ sweeps', ∀ b ∈ call.bands, b.1 < rq'.workerCount) :
    Custody rq' owned sweeps' where
  wellLinked := hwell
  owned := fun t ht => h.owned t (hperm.subset (List.mem_append_left _ ht))
  distinct := by
    have hnd := (hperm.map (·.invoker)).nodup_iff.mpr h.distinct
    rw [List.map_append] at hnd
    exact (List.nodup_append.mp hnd).1
  inLocal := hlocal
  inSweeps := hsweeps
  bands := hbands

/-- A call of the sweep that keeps its resumes. -/
theorem setSweep (h : Custody rq owned sweeps) (hcall : sweeps[j]? = some call)
    {call' : SweepCall I} (hresumes : call'.resumes = call.resumes)
    (hbands : call'.bands = call.bands) : Custody rq owned (sweeps.set j call') := by
  have hsame : (collected (sweeps.set j call')).Perm (collected sweeps) := by
    refine (collected_set hcall call').trans ?_
    rw [hresumes]
    exact collected_eraseIdx hcall
  refine h.of_perm [] h.wellLinked (by simpa using hsame.append_left _) h.inLocal
    (fun t ht => h.inSweeps t (hsame.subset ht)) fun c hc b hb => ?_
  rcases List.mem_or_eq_of_mem_set hc with hc | rfl
  · exact h.bands c hc b hb
  · exact h.bands call (List.mem_of_getElem? hcall) b (hbands ▸ hb)

section Operations
variable [DecidableEq I] [TaskInvokerBase I] {task : I} {w : Nat} {band : Priority}

omit [DecidableEq I] [TaskInvokerBase I] in
theorem init (backend : LocalDequeBackend) (workerCount : Nat) :
    Custody (I := I) { localBackend := backend, workerCount := workerCount } [] [] := by
  obtain ⟨hwell, hglobal, hlocal⟩ := wellLinked_init (I := I) backend workerCount
  constructor <;> simp [collected, queued, hglobal, hlocal, hwell]

theorem publish (h : Custody rq owned sweeps) (hnew : task ∉ owned) {isExternal : Bool}
    {useLocalQueue : Bool} (huse : useLocalQueue → isExternal = false) (workerIndex : Nat) :
    Custody (rq.publish task isExternal useLocalQueue workerIndex) (owned ++ [task]) sweeps ∧
      (rq.publish task isExternal useLocalQueue workerIndex).queuedGlobal.countP (·.isExternal) =
        rq.queuedGlobal.countP (·.isExternal) + if isExternal then 1 else 0 := by
  have hfresh : ∀ u ∈ rq.queued ++ collected sweeps, u.invoker ≠ task := by
    rintro u hu rfl
    exact hnew (h.owned u hu)
  obtain ⟨hwell, hcount, hadded⟩ := publish_publishes h.wellLinked
    (fun u hu => hfresh u (List.mem_append_left _ hu)) isExternal useLocalQueue workerIndex
  generalize rq.publish task isExternal useLocalQueue workerIndex = rq' at hwell hcount hadded ⊢
  have hqueued : ∃ t : QueuedTask I, t.invoker = task ∧
      (rq'.queued ++ collected sweeps).Perm (rq.queued ++ collected sweeps ++ [t]) := by
    rcases hadded with ⟨hglobal, hlocal⟩ | ⟨-, hglobal, hlocal⟩
    · refine ⟨⟨task, isExternal⟩, rfl, ?_⟩
      rw [queued, queued, hlocal]
      refine ((hglobal.append_right _).append_right _).trans ?_
      classical
      refine List.perm_iff_count.mpr fun a => ?_
      simp only [List.count_append]
      omega
    · refine ⟨⟨task, false⟩, rfl, ?_⟩
      rw [queued, queued, hglobal]
      refine ((hlocal.append_left _).append_right _).trans ?_
      classical
      refine List.perm_iff_count.mpr fun a => ?_
      simp only [List.count_append]
      omega
  obtain ⟨t, rfl, hperm⟩ := hqueued
  refine ⟨⟨hwell, fun u hu => ?_, ?_, fun u hu => ?_, h.inSweeps, ?_⟩, ?_⟩
  · rcases List.mem_append.mp (hperm.subset hu) with hu | hu
    · exact List.mem_append_left _ (h.owned u hu)
    · rw [List.mem_singleton.mp hu]
      simp
  · refine (hperm.map _).nodup_iff.mpr ?_
    rw [List.map_append, List.map_singleton, List.nodup_append]
    refine ⟨h.distinct, List.nodup_singleton _, ?_⟩
    rintro i hi k hk
    obtain ⟨u, hu, rfl⟩ := List.mem_map.mp hi
    rw [List.mem_singleton.mp hk]
    exact hfresh u hu
  · rcases hadded with ⟨-, hlocal⟩ | ⟨-, -, hlocal⟩
    · exact h.inLocal u (hlocal ▸ hu)
    · rcases List.mem_append.mp (hlocal.subset hu) with hu | hu
      · exact h.inLocal u hu
      · rw [List.mem_singleton.mp hu]
  · rw [hcount]
    exact h.bands
  · rcases hadded with ⟨hglobal, -⟩ | ⟨hlocal, hglobal, -⟩
    · rw [hglobal.countP_eq, List.countP_append, List.countP_singleton]
    · rw [hglobal, huse hlocal]
      rfl

omit [TaskInvokerBase I] in
theorem claimGlobal (h : Custody rq owned sweeps) {index : Nat} {bursts bursts' : Priority → Nat}
    {c : Claimed I} (hc : rq.claimGlobal index bursts = some (c, bursts')) :
    Custody c.queues owned sweeps ∧
      c.queues.queuedGlobal.countP (·.isExternal) + (if c.out.isExternal then 1 else 0) =
        rq.queuedGlobal.countP (·.isExternal) := by
  obtain ⟨hwell, hcount, hglobal, hlocal⟩ := claimGlobal_queued h.wellLinked hc
  refine ⟨h.of_perm [c.out] hwell ?_ ?_ h.inSweeps ?_, ?_⟩
  · rw [queued, queued, hlocal]
    refine List.Perm.trans ?_ ((hglobal.append_right rq.queuedLocal).append_right _)
    classical
    refine List.perm_iff_count.mpr fun a => ?_
    simp only [List.count_append]
    omega
  · rw [hlocal]
    exact h.inLocal
  · rw [hcount]
    exact h.bands
  · rw [← hglobal.countP_eq, List.countP_append, List.countP_singleton]

omit [TaskInvokerBase I] in
theorem claimFrom (h : Custody rq owned sweeps) {index : Nat} {owner : Bool}
    {contended : Priority → Bool} {c : Claimed I}
    (hc : rq.claimFrom w index owner contended = some c) :
    Custody c.queues owned sweeps ∧ c.queues.queuedGlobal = rq.queuedGlobal := by
  obtain ⟨hwell, hcount, hglobal, hlocal⟩ := claimFrom_queued h.wellLinked hc
  refine ⟨h.of_perm [c.out] hwell ?_ (fun t ht => ?_) h.inSweeps ?_, hglobal⟩
  · rw [queued, queued, hglobal]
    refine List.Perm.trans ?_ ((hlocal.append_left rq.queuedGlobal).append_right _)
    classical
    refine List.perm_iff_count.mpr fun a => ?_
    simp only [List.count_append]
    omega
  · exact h.inLocal t (hlocal.subset (List.mem_append_left _ ht))
  · rw [hcount]
    exact h.bands

omit [DecidableEq I] [TaskInvokerBase I] in
/-- Queues that hold the same tasks in the same containers. -/
theorem congr (h : Custody rq owned sweeps) (hcount : rq'.workerCount = rq.workerCount)
    (hsame : WellLinked rq' ∧ rq'.queuedGlobal = rq.queuedGlobal ∧
      rq'.queuedLocal = rq.queuedLocal) : Custody rq' owned sweeps := by
  obtain ⟨hwell, hglobal, hlocal⟩ := hsame
  refine h.of_perm [] hwell ?_ (hlocal ▸ h.inLocal) h.inSweeps (hcount ▸ h.bands)
  rw [queued, queued, hglobal, hlocal, List.append_nil]

/-- The tasks of the global queues that are cancelled are the units it has to release. -/
theorem sweepGlobal (h : Custody rq owned sweeps) :
    Custody rq.sweepGlobal.queues owned
        (sweeps ++ [⟨rq.sweepGlobal.released, localBands rq.workerCount, []⟩]) ∧
      rq.sweepGlobal.queues.queuedGlobal.countP (·.isExternal) + rq.sweepGlobal.released =
        rq.queuedGlobal.countP (·.isExternal) := by
  have hs := sweepGlobal_sweeping h.wellLinked
  have hcollected : ∀ call, call.resumes = [] → collected (sweeps ++ [call]) = collected sweeps := by
    intro call hcall
    simp [collected, hcall]
  generalize rq.sweepGlobal = swept at hs ⊢
  refine ⟨h.of_perm
    (swept.cancelledGlobal ++ (swept.resumes ++ swept.cancelledLocal)) hs.wellLinked
    ?_ (fun t ht => ?_) ?_ fun call hcall b hb => ?_, ?_⟩
  · rw [hcollected _ rfl, queued, queued]
    refine List.Perm.trans ?_ ((hs.inGlobal.append hs.inLocal).append_right _)
    classical
    refine List.perm_iff_count.mpr fun a => ?_
    simp only [List.count_append]
    omega
  · exact h.inLocal t (hs.inLocal.subset (List.mem_append_left _ ht))
  · rw [hcollected _ rfl]
    exact h.inSweeps
  · rw [hs.workerCount]
    rcases List.mem_append.mp hcall with hcall | hcall
    · exact h.bands call hcall b hb
    · obtain rfl := List.mem_singleton.mp hcall
      obtain ⟨w, hw, hb⟩ := List.mem_flatMap.mp hb
      obtain ⟨band, -, rfl⟩ := List.mem_map.mp hb
      exact List.mem_range.mp hw
  · rw [hs.released, ← hs.inGlobal.countP_eq, List.countP_append]

theorem sweepLocalBand (h : Custody rq owned sweeps) (hcall : sweeps[j]? = some call)
    {bands : List (Nat × Priority)} (hbands : call.bands = (w, band) :: bands) :
    let swept := LinkedReadyQueues.sweepLocalBand w { queues := rq, resumes := call.resumes } band
    Custody swept.queues owned
        (sweeps.set j { call with bands := bands, resumes := swept.resumes }) ∧
      swept.queues.queuedGlobal = rq.queuedGlobal := by
  have hw : w < rq.workerCount :=
    h.bands call (List.mem_of_getElem? hcall) (w, band) (by simp [hbands])
  obtain ⟨rq', rs, cs, hswept, ho, hperm, -, -⟩ :=
    sweepLocalBand_at (s := { queues := rq, resumes := call.resumes }) h.wellLinked w band
  rw [hswept]
  have hmem := localBand_mem band hw
  have hadd : (rq'.tasksAt (.localBand w band) ++ (rs ++ cs)).Perm
      (rq.tasksAt (.localBand w band) ++ []) := by simpa using hperm
  obtain ⟨hglobal, hlocal⟩ := ho.queuedLocal hmem hadd
  rw [List.append_nil] at hlocal
  have hset := collected_set hcall { call with bands := bands, resumes := call.resumes ++ rs }
  have herase := collected_eraseIdx hcall
  refine ⟨h.of_perm cs (ho.wellLinked_of_sub h.wellLinked
    (List.mem_append_right _ hmem) hperm) ?_ (fun t ht => ?_) (fun t ht => ?_)
    fun c hc b hb => ?_, hglobal⟩
  · rw [queued, queued, hglobal]
    classical
    refine List.perm_iff_count.mpr fun a => ?_
    have hlocal := hlocal.count_eq a
    have hset := hset.count_eq a
    have herase := herase.count_eq a
    simp only [List.count_append] at hlocal hset herase ⊢
    omega
  · exact h.inLocal t (hlocal.subset (List.mem_append_left _ ht))
  · have hin := hset.subset ht
    simp only [List.mem_append, or_assoc] at hin
    rcases hin with hin | hin | hin
    · exact h.inSweeps t (herase.subset (List.mem_append_left _ hin))
    · exact h.inLocal t (hlocal.subset (by simp [hin]))
    · exact h.inSweeps t (herase.subset (List.mem_append_right _ hin))
  · rw [ho.workerCount]
    rcases List.mem_or_eq_of_mem_set hc with hc | rfl
    · exact h.bands c hc b hb
    · exact h.bands call (List.mem_of_getElem? hcall) b (hbands ▸ List.mem_cons_of_mem _ hb)

theorem republish (h : Custody rq owned sweeps) (hcall : sweeps[j]? = some call) :
    Custody (rq.republish call.resumes) owned (sweeps.eraseIdx j) ∧
      (rq.republish call.resumes).queuedGlobal.countP (·.isExternal) =
        rq.queuedGlobal.countP (·.isExternal) := by
  have herase := collected_eraseIdx hcall
  have hnd : ((rq.queued ++ call.resumes).map (·.invoker)).Nodup := by
    have hall := ((herase.append_left rq.queued).map (·.invoker)).nodup_iff.mpr h.distinct
    rw [← List.append_assoc, List.map_append] at hall
    exact (List.nodup_append.mp hall).1
  obtain ⟨hwell, hcount, hglobal, hlocal⟩ := republish_queued h.wellLinked hnd
  generalize rq.republish call.resumes = rq' at hwell hcount hglobal hlocal ⊢
  have hflag : ∀ t ∈ call.resumes, t.isExternal = false :=
    fun t ht => h.inSweeps t (herase.subset (List.mem_append_left _ ht))
  refine ⟨h.of_perm [] hwell ?_ (hlocal ▸ h.inLocal)
    (fun t ht => h.inSweeps t (herase.subset (List.mem_append_right _ ht)))
    fun c hc b hb => ?_, ?_⟩
  · rw [queued, queued, hlocal]
    classical
    refine List.perm_iff_count.mpr fun a => ?_
    have hglobal := hglobal.count_eq a
    have herase := herase.count_eq a
    simp only [List.count_append, List.count_nil] at hglobal herase ⊢
    omega
  · rw [hcount]
    exact h.bands c (List.mem_of_mem_eraseIdx hc) b hb
  · rw [hglobal.countP_eq, List.countP_append, Nat.add_eq_left, List.countP_eq_zero]
    simpa using hflag

end Operations

end Custody

/-! ## What the counter stands for -/

variable [DecidableEq I] [TaskInvokerBase I]

namespace SlotState
variable (s : SlotState I)

def admittedUnpublished : Nat := s.submissions.countP (·.isNone)

def queuedExternal : Nat := s.queues.queuedGlobal.countP (·.isExternal)

def takenUnreleased : Nat :=
  s.claimed.countP (·.isExternal) + (s.sweeps.map (·.owed)).sum

def unpostedNodes : Nat := (s.graphs.map (·.units)).sum

def outstanding : Nat :=
  s.admittedUnpublished + s.queuedExternal + s.takenUnreleased + s.unpostedNodes

/-- A step of a submission or of a graph run from inside of the runtime, or the
bookkeeping after the claim of an internal task. -/
def internalStep : Label I → Bool
  | .submit caller _ | .runGraph caller .. => caller.isSome
  | .publishSubmission j _ | .rollbackSubmission j => s.submissions[j]?.any (·.isSome)
  | .rollbackGraph j | .commitGraph j | .countDown j _ | .postRoot j .. | .postDecided j ..
  | .cancelDecided j _ => s.graphs[j]?.any (·.isInternal)
  | .postInternal .. => true
  | .releaseAfterClaim j => s.claimed[j]?.any (!·.isExternal)
  | _ => false

end SlotState

/-- The counter keeps to the capacity and to the four kinds of work; no release finds less
pending than it releases; internal work is free, and a graph run pays for all of its nodes
or for none. -/
structure SlotsConserved (capacity : Nat) (s : SlotState I) : Prop where
  bounded : s.admission.pending ≤ capacity
  exact : s.admission.pending = s.admittedUnpublished + s.queuedExternal + s.takenUnreleased +
    s.unpostedNodes
  neverClamped : s.clamped = false
  internalFree : ∀ a s', s.next a = some s' → s.internalStep a →
    s'.admission.pending = s.admission.pending
  graphAllOrNone : ∀ caller block nodeCount indegree s',
    s.next (.runGraph caller block nodeCount indegree) = some s' →
      s'.graphs = s.graphs ∧ s'.admission = s.admission ∨
      s'.graphs = s.graphs ++ [GraphSlots.admitted nodeCount caller.isSome indegree] ∧
        s'.admission.pending =
          s.admission.pending + AdmissionController.counted nodeCount caller.isSome

/-! ## Units that are owed -/

/-- A state whose counter stands for `owed` units more than are outstanding. -/
structure Owing (capacity owed : Nat) (s : SlotState I) : Prop where
  custody : Custody s.queues s.owned s.sweeps
  sized : s.admission.capacity = capacity
  bounded : s.admission.pending ≤ capacity
  exact : s.admission.pending = s.outstanding + owed
  unclamped : s.clamped = false
  counted : ∀ g ∈ s.graphs, g.Counted

namespace Owing
variable {capacity owed : Nat} {s s' : SlotState I} {g g' : GraphSlots} {caller : Option Nat}
  {task : I} {isInternal isExternal : Bool}

theorem init (h : (machine capacity).init s) : Owing capacity 0 s := by
  obtain ⟨backpressure, backend, workerCount, rfl⟩ := h
  obtain ⟨-, hglobal, -⟩ := wellLinked_init (I := I) backend workerCount
  refine ⟨.init backend workerCount, rfl, Nat.zero_le _, ?_, rfl, by simp⟩
  simp [SlotState.outstanding, SlotState.admittedUnpublished, SlotState.queuedExternal,
    SlotState.takenUnreleased, SlotState.unpostedNodes, hglobal]

omit [DecidableEq I] [TaskInvokerBase I] in
/-- What is owed is there to be released. -/
theorem release (h : Owing capacity owed s) : Owing capacity 0 (s.release owed) := by
  have hle : owed ≤ s.admission.pending := by
    rw [h.exact]
    exact Nat.le_add_left ..
  obtain ⟨hpending, hcapacity, hclamps⟩ := AdmissionController.release_pending hle
  refine ⟨h.custody, hcapacity.trans h.sized, ?_, ?_, ?_, h.counted⟩
  · have := h.bounded
    simp only [SlotState.release, hpending]
    omega
  · change (s.admission.release owed).pending = s.outstanding + 0
    rw [hpending, h.exact]
    exact Nat.add_sub_cancel ..
  · simp only [SlotState.release, h.unclamped, hclamps, Bool.or_self]

omit [DecidableEq I] [TaskInvokerBase I] in
theorem releaseExternal (h : Owing capacity (if isInternal then 0 else owed) s) :
    Owing capacity 0 (s.releaseExternal owed isInternal) := by
  cases isInternal with
  | true => exact h
  | false => exact h.release

/-- An invoker that is posted as external work takes over the unit that is owed. -/
theorem post (h : Owing capacity (if isExternal then 1 else 0) s)
    (hs : s.post caller task isExternal = some s') : Owing capacity 0 s' := by
  unfold SlotState.post at hs
  split at hs
  case isTrue => cases hs
  case isFalse hnew =>
    obtain rfl := Option.some.inj hs
    have huse : (!isExternal && caller.isSome) = true → isExternal = false := by simp_all
    obtain ⟨hcustody, hqueued⟩ := h.custody.publish hnew huse (caller.getD 0)
    refine ⟨hcustody, h.sized, h.bounded, ?_, h.unclamped, h.counted⟩
    have hexact := h.exact
    simp only [SlotState.outstanding, SlotState.admittedUnpublished, SlotState.queuedExternal,
      SlotState.takenUnreleased, SlotState.unpostedNodes, hqueued] at hexact ⊢
    omega

omit [DecidableEq I] [TaskInvokerBase I] in
theorem eraseSubmission (h : Owing capacity 0 s) {j : Nat}
    (hj : s.submissions[j]? = some caller) :
    Owing capacity (if caller.isNone then 1 else 0)
      { s with submissions := s.submissions.eraseIdx j } := by
  refine ⟨h.custody, h.sized, h.bounded, ?_, h.unclamped, h.counted⟩
  have hexact := h.exact
  have hcount := countP_eraseIdx (·.isNone) hj
  simp only [SlotState.outstanding, SlotState.admittedUnpublished, SlotState.queuedExternal,
    SlotState.takenUnreleased, SlotState.unpostedNodes] at hexact ⊢
  omega

omit [DecidableEq I] [TaskInvokerBase I] in
theorem eraseClaimed (h : Owing capacity 0 s) {j : Nat} {t : QueuedTask I}
    (hj : s.claimed[j]? = some t) :
    Owing capacity (if t.isExternal then 1 else 0)
      { s with claimed := s.claimed.eraseIdx j } := by
  refine ⟨h.custody, h.sized, h.bounded, ?_, h.unclamped, h.counted⟩
  have hexact := h.exact
  have hcount := countP_eraseIdx (·.isExternal) hj
  simp only [SlotState.outstanding, SlotState.admittedUnpublished, SlotState.queuedExternal,
    SlotState.takenUnreleased, SlotState.unpostedNodes] at hexact ⊢
  omega

omit [DecidableEq I] [TaskInvokerBase I] in
theorem eraseGraph (h : Owing capacity 0 s) {j : Nat} (hj : s.graphs[j]? = some g) :
    Owing capacity g.units { s with graphs := s.graphs.eraseIdx j } := by
  refine ⟨h.custody, h.sized, h.bounded, ?_, h.unclamped,
    fun g hg => h.counted g (List.mem_of_mem_eraseIdx hg)⟩
  have hexact := h.exact
  have hsum := sum_eraseIdx (·.units) hj
  simp only [SlotState.outstanding, SlotState.admittedUnpublished, SlotState.queuedExternal,
    SlotState.takenUnreleased, SlotState.unpostedNodes] at hexact ⊢
  omega

omit [DecidableEq I] [TaskInvokerBase I] in
theorem setGraph (h : Owing capacity 0 s) {j : Nat} (hj : s.graphs[j]? = some g)
    (owed : Nat) (hcounted : g'.Counted) (hunits : g.units = g'.units + owed) :
    Owing capacity owed (s.setGraph j g') := by
  refine ⟨h.custody, h.sized, h.bounded, ?_, h.unclamped, fun g'' hg => ?_⟩
  · have hexact := h.exact
    have hsum := sum_set (·.units) hj g'
    simp only [SlotState.outstanding, SlotState.admittedUnpublished, SlotState.queuedExternal,
      SlotState.takenUnreleased, SlotState.unpostedNodes, SlotState.setGraph] at hexact ⊢
    omega
  · rcases List.mem_or_eq_of_mem_set hg with hg | rfl
    · exact h.counted g'' hg
    · exact hcounted

theorem postNode (h : Owing capacity 0 s) {j : Nat} (hj : s.graphs[j]? = some g)
    (hg : GraphSlots.Settles g g') (hs : s.postNode j caller task g' = some s') :
    Owing capacity 0 s' := by
  unfold SlotState.postNode at hs
  split at hs
  case isTrue => cases hs
  case isFalse =>
    refine (h.setGraph hj (if !g'.isInternal then 1 else 0) hg.counted ?_).post hs
    rw [hg.units, hg.isInternal]
    cases g.isInternal <;> rfl

/-! ## One step -/

omit [DecidableEq I] [TaskInvokerBase I] in
/-- `acquire` for work that is not yet admitted. -/
theorem acquire (h : Owing capacity 0 s) (hcap : capacity < 2 ^ 63) {count : Nat} {block : Bool}
    {decision : AdmissionDecision} {admission : AdmissionController}
    (ha : s.admission.acquire s.status count block isInternal = some (decision, admission)) :
    if decision = .success then
      admission.capacity = capacity ∧ admission.pending ≤ capacity ∧
        admission.pending = s.admission.pending + AdmissionController.counted count isInternal
    else admission = s.admission := by
  have hle := h.bounded
  rw [← h.sized] at hle hcap
  obtain ⟨hcapacity, hbounded, hcases⟩ := AdmissionController.acquire_cases hle hcap ha
  split at hcases
  case isTrue hd =>
    rw [if_pos hd]
    exact ⟨hcapacity.trans h.sized, h.sized ▸ hbounded, hcases⟩
  case isFalse hd =>
    rw [if_neg hd]
    exact hcases

theorem submit (h : Owing capacity 0 s) (hcap : capacity < 2 ^ 63) {block : Bool}
    (hs : s.next (.submit caller block) = some s') : Owing capacity 0 s' := by
  obtain ⟨⟨decision, admission⟩, ha, rfl⟩ := Option.map_eq_some_iff.mp hs
  have hacquire := h.acquire hcap ha
  split at hacquire
  case isTrue hd =>
    obtain ⟨hsized, hbounded, hpending⟩ := hacquire
    simp only [if_pos hd]
    refine ⟨h.custody, hsized, hbounded, ?_, h.unclamped, h.counted⟩
    have hexact := h.exact
    have hcounted : AdmissionController.counted 1 caller.isSome =
        if caller.isNone then 1 else 0 := by
      cases caller <;> rfl
    simp only [SlotState.outstanding, SlotState.admittedUnpublished, SlotState.queuedExternal,
      SlotState.takenUnreleased, SlotState.unpostedNodes, List.countP_append,
      List.countP_singleton] at hexact ⊢
    omega
  case isFalse hd =>
    obtain rfl := hacquire
    simp only [if_neg hd]
    exact ⟨h.custody, h.sized, h.bounded, h.exact, h.unclamped, h.counted⟩

theorem runGraph (h : Owing capacity 0 s) (hcap : capacity < 2 ^ 63) {block : Bool}
    {nodeCount : Nat} {indegree : Nat → Nat}
    (hs : s.next (.runGraph caller block nodeCount indegree) = some s') :
    Owing capacity 0 s' := by
  obtain ⟨⟨decision, admission⟩, ha, rfl⟩ := Option.map_eq_some_iff.mp hs
  have hacquire := h.acquire hcap ha
  split at hacquire
  case isTrue hd =>
    obtain ⟨hsized, hbounded, hpending⟩ := hacquire
    simp only [if_pos hd]
    refine ⟨h.custody, hsized, hbounded, ?_, h.unclamped, fun g hg => ?_⟩
    · have hexact := h.exact
      have hunits : (GraphSlots.admitted nodeCount caller.isSome indegree).units =
          AdmissionController.counted nodeCount caller.isSome := GraphSlots.units_admitted
      simp only [SlotState.outstanding, SlotState.admittedUnpublished, SlotState.queuedExternal,
        SlotState.takenUnreleased, SlotState.unpostedNodes, List.map_append, List.map_singleton,
        List.sum_append, List.sum_singleton, hunits] at hexact ⊢
      omega
    · rcases List.mem_append.mp hg with hg | hg
      · exact h.counted g hg
      · obtain rfl := List.mem_singleton.mp hg
        exact .admitted
  case isFalse hd =>
    obtain rfl := hacquire
    simp only [if_neg hd]
    exact ⟨h.custody, h.sized, h.bounded, h.exact, h.unclamped, h.counted⟩

omit [DecidableEq I] [TaskInvokerBase I] in
/-- A step of the queues that keeps the external tasks in the global queues. -/
theorem queues (h : Owing capacity 0 s) {rq : LinkedReadyQueues I}
    (hcustody : Custody rq s.owned s.sweeps)
    (hglobal : rq.queuedGlobal = s.queues.queuedGlobal) :
    Owing capacity 0 { s with queues := rq } := by
  refine ⟨hcustody, h.sized, h.bounded, ?_, h.unclamped, h.counted⟩
  have hexact := h.exact
  simp only [SlotState.outstanding, SlotState.admittedUnpublished, SlotState.queuedExternal,
    SlotState.takenUnreleased, SlotState.unpostedNodes, hglobal] at hexact ⊢
  exact hexact

theorem sweepGlobal (h : Owing capacity 0 s) (hs : s.next .sweepGlobal = some s') :
    Owing capacity 0 s' := by
  obtain ⟨hcustody, hqueued⟩ := h.custody.sweepGlobal
  simp only [SlotState.next] at hs
  generalize s.queues.sweepGlobal = swept at hs hcustody hqueued
  obtain rfl := Option.some.inj hs
  refine ⟨hcustody, h.sized, h.bounded, ?_, h.unclamped, h.counted⟩
  have hexact := h.exact
  simp only [SlotState.outstanding, SlotState.admittedUnpublished, SlotState.queuedExternal,
    SlotState.takenUnreleased, SlotState.unpostedNodes, List.map_append, List.map_singleton,
    List.sum_append, List.sum_singleton] at hexact ⊢
  omega

theorem sweepRelease (h : Owing capacity 0 s) {j : Nat}
    (hs : s.next (.sweepRelease j) = some s') : Owing capacity 0 s' := by
  obtain ⟨call, hj, hs⟩ := Option.bind_eq_some_iff.mp hs
  split at hs
  case isTrue => cases hs
  case isFalse howed =>
    obtain rfl := Option.some.inj hs
    refine release ⟨h.custody.setSweep hj rfl rfl, h.sized, h.bounded, ?_, h.unclamped, h.counted⟩
    have hexact := h.exact
    have hsum := sum_set (·.owed) hj { call with owed := call.owed - 1 }
    simp only [SlotState.outstanding, SlotState.admittedUnpublished, SlotState.queuedExternal,
      SlotState.takenUnreleased, SlotState.unpostedNodes] at hexact hsum ⊢
    omega

theorem sweepLocal (h : Owing capacity 0 s) {j : Nat}
    (hs : s.next (.sweepLocal j) = some s') : Owing capacity 0 s' := by
  obtain ⟨call, hj, hs⟩ := Option.bind_eq_some_iff.mp hs
  split at hs
  case h_1 => cases hs
  case h_2 w band bands hbands =>
    split at hs
    case isTrue => cases hs
    case isFalse =>
      obtain rfl := Option.some.inj hs
      obtain ⟨hcustody, hglobal⟩ := h.custody.sweepLocalBand hj hbands
      refine ⟨hcustody, h.sized, h.bounded, ?_, h.unclamped, h.counted⟩
      have hexact := h.exact
      have hsum := sum_set (·.owed) hj { call with
        bands := bands
        resumes := (LinkedReadyQueues.sweepLocalBand w
          { queues := s.queues, resumes := call.resumes } band).resumes }
      simp only [SlotState.outstanding, SlotState.admittedUnpublished, SlotState.queuedExternal,
        SlotState.takenUnreleased, SlotState.unpostedNodes, hglobal] at hexact hsum ⊢
      omega

theorem sweepEnd (h : Owing capacity 0 s) {j : Nat} (hs : s.next (.sweepEnd j) = some s') :
    Owing capacity 0 s' := by
  obtain ⟨call, hj, hs⟩ := Option.bind_eq_some_iff.mp hs
  split at hs
  case isTrue => cases hs
  case isFalse hdone =>
    obtain rfl := Option.some.inj hs
    obtain ⟨hcustody, hqueued⟩ := h.custody.republish hj
    rw [not_or, not_ne_iff] at hdone
    refine ⟨hcustody, h.sized, h.bounded, ?_, h.unclamped, h.counted⟩
    have hexact := h.exact
    have hsum := sum_eraseIdx (·.owed) hj
    simp only [SlotState.outstanding, SlotState.admittedUnpublished, SlotState.queuedExternal,
      SlotState.takenUnreleased, SlotState.unpostedNodes] at hexact ⊢
    omega

theorem step (h : Owing capacity 0 s) (hcap : capacity < 2 ^ 63) {a : Label I}
    (hs : s.next a = some s') : Owing capacity 0 s' := by
  cases a with
  | setStatus status =>
    obtain rfl := Option.some.inj hs
    exact ⟨h.custody, h.sized, h.bounded, h.exact, h.unclamped, h.counted⟩
  | submit caller block => exact h.submit hcap hs
  | publishSubmission j task =>
    obtain ⟨caller, hj, hs⟩ := Option.bind_eq_some_iff.mp hs
    split at hs
    case isTrue => cases hs
    case isFalse => exact (h.eraseSubmission hj).post hs
  | rollbackSubmission j =>
    obtain ⟨caller, hj, rfl⟩ := Option.map_eq_some_iff.mp hs
    -- an external caller has taken a slot, which goes back
    refine releaseExternal ?_
    have hcaller : (if caller.isSome then 0 else 1) = if caller.isNone then 1 else 0 := by
      cases caller <;> rfl
    rw [hcaller]
    exact h.eraseSubmission hj
  | runGraph caller block nodeCount indegree => exact h.runGraph hcap hs
  | rollbackGraph j =>
    obtain ⟨g, hj, hs⟩ := Option.bind_eq_some_iff.mp hs
    split at hs
    case isFalse => cases hs
    case isTrue hleased =>
      obtain rfl := Option.some.inj hs
      have howing := h.eraseGraph hj
      -- before the commit no node is posted, so the graph still owes all its units
      rw [(h.counted g (List.mem_of_getElem? hj)).units_of_leased hleased] at howing
      exact howing.releaseExternal
  | commitGraph j =>
    obtain ⟨g, hj, hs⟩ := Option.bind_eq_some_iff.mp hs
    split at hs
    case isFalse => cases hs
    case isTrue hleased =>
      obtain rfl := Option.some.inj hs
      exact h.setGraph hj 0 ((h.counted g (List.mem_of_getElem? hj)).commit hleased) rfl
  | countDown j m =>
    obtain ⟨g, hj, hs⟩ := Option.bind_eq_some_iff.mp hs
    split at hs
    case isTrue => cases hs
    case isFalse hopen =>
      obtain rfl := Option.some.inj hs
      rw [not_or, not_le, Bool.not_eq_true] at hopen
      exact h.setGraph hj 0
        ((h.counted g (List.mem_of_getElem? hj)).countDown hopen.1 m hopen.2) rfl
  | postRoot j caller task =>
    obtain ⟨g, hj, hs⟩ := Option.bind_eq_some_iff.mp hs
    obtain ⟨g', hg, hs⟩ := Option.bind_eq_some_iff.mp hs
    exact h.postNode hj ((h.counted g (List.mem_of_getElem? hj)).postRoot hg) hs
  | postDecided j m caller task =>
    obtain ⟨g, hj, hs⟩ := Option.bind_eq_some_iff.mp hs
    obtain ⟨g', hg, hs⟩ := Option.bind_eq_some_iff.mp hs
    exact h.postNode hj ((h.counted g (List.mem_of_getElem? hj)).postDecided hg) hs
  | cancelDecided j m =>
    obtain ⟨g, hj, hs⟩ := Option.bind_eq_some_iff.mp hs
    obtain ⟨g', hg, rfl⟩ := Option.map_eq_some_iff.mp hs
    have hsettles := (h.counted g (List.mem_of_getElem? hj)).cancelDecided hg
    -- a cancelled node gives its unit back without having been queued
    refine releaseExternal (h.setGraph hj _ hsettles.counted ?_)
    rw [hsettles.units, hsettles.isInternal]
  | postInternal caller task =>
    have howing : Owing capacity (if false then 1 else 0) s := h
    exact howing.post hs
  | claimGlobal index bursts =>
    obtain ⟨⟨c, bursts'⟩, hc, rfl⟩ := Option.map_eq_some_iff.mp hs
    -- an external node goes from the queue to those claimed and not yet released
    obtain ⟨hcustody, hqueued⟩ := h.custody.claimGlobal hc
    refine ⟨hcustody, h.sized, h.bounded, ?_, h.unclamped, h.counted⟩
    have hexact := h.exact
    simp only [SlotState.outstanding, SlotState.admittedUnpublished, SlotState.queuedExternal,
      SlotState.takenUnreleased, SlotState.unpostedNodes, List.countP_append,
      List.countP_singleton] at hexact ⊢
    omega
  | releaseAfterClaim j =>
    obtain ⟨t, hj, rfl⟩ := Option.map_eq_some_iff.mp hs
    refine releaseExternal ?_
    have hexternal : (if !t.isExternal then 0 else 1) = if t.isExternal then 1 else 0 := by
      cases t.isExternal <;> rfl
    rw [hexternal]
    exact h.eraseClaimed hj
  | claimLocal w index =>
    obtain ⟨c, hc, rfl⟩ := Option.map_eq_some_iff.mp hs
    obtain ⟨hcustody, hglobal⟩ := h.custody.claimFrom hc
    exact h.queues hcustody hglobal
  | steal w index contended =>
    obtain ⟨c, hc, rfl⟩ := Option.map_eq_some_iff.mp hs
    obtain ⟨hcustody, hglobal⟩ := h.custody.claimFrom hc
    exact h.queues hcustody hglobal
  | completeClaim =>
    obtain rfl := Option.some.inj hs
    have hsame := wellLinked_congr h.custody.wellLinked s.queues.completeClaim rfl rfl rfl
      fun _ => rfl
    exact h.queues (h.custody.congr rfl hsame) hsame.2.1
  | ringRoom w band room =>
    obtain rfl := Option.some.inj hs
    have hsame := wellLinked_congr h.custody.wellLinked (s.queues.ringRoom w band room) rfl rfl rfl
      (tasksAt_ringRoom s.queues w band room)
    exact h.queues (h.custody.congr rfl hsame) hsame.2.1
  | sweepGlobal => exact h.sweepGlobal hs
  | sweepRelease j => exact h.sweepRelease hs
  | sweepLocal j => exact h.sweepLocal hs
  | sweepEnd j => exact h.sweepEnd hs

end Owing

/-! ## Runs -/

variable {capacity : Nat} {s s' : SlotState I} {a : Label I}

theorem admission_post {caller : Option Nat} {task : I} {isExternal : Bool}
    (hs : s.post caller task isExternal = some s') : s'.admission = s.admission := by
  unfold SlotState.post at hs
  split at hs
  · cases hs
  · obtain rfl := Option.some.inj hs
    rfl

theorem admission_postNode {j : Nat} {caller : Option Nat} {task : I} {g : GraphSlots}
    (hs : s.postNode j caller task g = some s') : s'.admission = s.admission := by
  unfold SlotState.postNode at hs
  split at hs
  · cases hs
  · exact admission_post (s := s.setGraph j g) hs

namespace Owing

/-- A graph run is admitted with all of its slots, or leaves no trace. -/
theorem runGraph_cases (h : Owing capacity 0 s) (hcap : capacity < 2 ^ 63) {caller : Option Nat}
    {block : Bool} {nodeCount : Nat} {indegree : Nat → Nat}
    (hs : s.next (.runGraph caller block nodeCount indegree) = some s') :
    s'.graphs = s.graphs ∧ s'.admission = s.admission ∨
      s'.graphs = s.graphs ++ [GraphSlots.admitted nodeCount caller.isSome indegree] ∧
        s'.admission.pending =
          s.admission.pending + AdmissionController.counted nodeCount caller.isSome := by
  obtain ⟨⟨decision, admission⟩, ha, rfl⟩ := Option.map_eq_some_iff.mp hs
  have hacquire := h.acquire hcap ha
  split at hacquire
  case isTrue hd =>
    simp only [if_pos hd, true_and]
    exact .inr hacquire.2.2
  case isFalse hd =>
    simp only [if_neg hd, true_and]
    exact .inl hacquire

theorem submit_cases (h : Owing capacity 0 s) (hcap : capacity < 2 ^ 63) {caller : Option Nat}
    {block : Bool} (hs : s.next (.submit caller block) = some s') :
    s'.admission = s.admission ∨ s'.admission.pending =
      s.admission.pending + AdmissionController.counted 1 caller.isSome := by
  obtain ⟨⟨decision, admission⟩, ha, rfl⟩ := Option.map_eq_some_iff.mp hs
  have hacquire := h.acquire hcap ha
  split at hacquire
  case isTrue hd =>
    simp only [if_pos hd]
    exact .inr hacquire.2.2
  case isFalse hd =>
    simp only [if_neg hd]
    exact .inl hacquire

theorem internalFree (h : Owing capacity 0 s) (hcap : capacity < 2 ^ 63)
    (hs : s.next a = some s') (ha : s.internalStep a) :
    s'.admission.pending = s.admission.pending := by
  cases a with
  | submit caller block =>
    rcases h.submit_cases hcap hs with hsame | hpending
    · rw [hsame]
    · rw [hpending, show caller.isSome = true from ha]
      rfl
  | runGraph caller block nodeCount indegree =>
    rcases h.runGraph_cases hcap hs with ⟨-, hsame⟩ | ⟨-, hpending⟩
    · rw [hsame]
    · rw [hpending, show caller.isSome = true from ha]
      rfl
  | publishSubmission j task =>
    obtain ⟨caller, hj, hs⟩ := Option.bind_eq_some_iff.mp hs
    split at hs
    case isTrue => cases hs
    case isFalse => rw [admission_post hs]
  | rollbackSubmission j =>
    obtain ⟨caller, hj, rfl⟩ := Option.map_eq_some_iff.mp hs
    simp only [SlotState.internalStep, hj, Option.any_some] at ha
    simp only [SlotState.releaseExternal, ha, if_true]
  | rollbackGraph j =>
    obtain ⟨g, hj, hs⟩ := Option.bind_eq_some_iff.mp hs
    simp only [SlotState.internalStep, hj, Option.any_some] at ha
    split at hs
    case isFalse => cases hs
    case isTrue =>
      obtain rfl := Option.some.inj hs
      simp only [SlotState.releaseExternal, ha, if_true]
  | commitGraph j =>
    obtain ⟨g, hj, hs⟩ := Option.bind_eq_some_iff.mp hs
    split at hs
    case isFalse => cases hs
    case isTrue =>
      obtain rfl := Option.some.inj hs
      rfl
  | countDown j m =>
    obtain ⟨g, hj, hs⟩ := Option.bind_eq_some_iff.mp hs
    split at hs
    case isTrue => cases hs
    case isFalse =>
      obtain rfl := Option.some.inj hs
      rfl
  | postRoot j caller task =>
    obtain ⟨g, -, hs⟩ := Option.bind_eq_some_iff.mp hs
    obtain ⟨g', -, hs⟩ := Option.bind_eq_some_iff.mp hs
    rw [admission_postNode hs]
  | postDecided j m caller task =>
    obtain ⟨g, -, hs⟩ := Option.bind_eq_some_iff.mp hs
    obtain ⟨g', -, hs⟩ := Option.bind_eq_some_iff.mp hs
    rw [admission_postNode hs]
  | cancelDecided j m =>
    obtain ⟨g, hj, hs⟩ := Option.bind_eq_some_iff.mp hs
    obtain ⟨g', hg, rfl⟩ := Option.map_eq_some_iff.mp hs
    have hsettles := (h.counted g (List.mem_of_getElem? hj)).cancelDecided hg
    simp only [SlotState.internalStep, hj, Option.any_some] at ha
    simp only [SlotState.releaseExternal, hsettles.isInternal, ha, if_true]
    rfl
  | postInternal caller task => rw [admission_post hs]
  | releaseAfterClaim j =>
    obtain ⟨t, hj, rfl⟩ := Option.map_eq_some_iff.mp hs
    simp only [SlotState.internalStep, hj, Option.any_some] at ha
    simp only [SlotState.releaseExternal, ha, if_true]
  | setStatus | claimGlobal | claimLocal | steal | completeClaim | ringRoom | sweepGlobal
  | sweepRelease | sweepLocal | sweepEnd => cases ha

theorem conserved (h : Owing capacity 0 s) (hcap : capacity < 2 ^ 63) :
    SlotsConserved capacity s where
  bounded := h.bounded
  exact := h.exact
  neverClamped := h.unclamped
  internalFree := fun _ _ hs ha => h.internalFree hcap hs ha
  graphAllOrNone := fun _ _ _ _ _ hs => h.runGraph_cases hcap hs

end Owing

/-- In every state of every run, the counter of pending work stands for work that is
still to be released. -/
theorem slotsConserved_of_reachable (hcap : capacity < 2 ^ 63)
    (h : (machine capacity).Reachable s) : SlotsConserved capacity s :=
  (h.invariant (Owing capacity 0) (fun _ hs => Owing.init hs)
    fun _ _ _ hs _ hnext => hs.step hcap hnext).conserved hcap

/-- Two slots.  A submission from outside is published and claimed while another one is
rolled back; a graph run of three nodes finds no room, one of two nodes does: its root is
posted and discarded by a sweep, and its second node is cancelled. -/
def allFiveReleases : List (Label Invoker) :=
  [.submit none true, .submit none false, .publishSubmission 0 ⟨1, false, .normal, some 70⟩,
    .submit none false, .rollbackSubmission 0, .submit (some 0) false, .runGraph none false 3 id,
    .claimGlobal 0 fun _ => 0, .publishSubmission 0 ⟨2, false, .high, none⟩,
    .releaseAfterClaim 0, .runGraph none true 2 id, .commitGraph 0,
    .postRoot 0 none ⟨3, false, .normal, none⟩, .sweepGlobal, .countDown 0 1, .sweepRelease 0,
    .cancelDecided 0 1]

theorem slotsConserved_allFiveReleases :
    2 < 2 ^ 63 ∧ ∃ s : SlotState Invoker,
      (machine 2).run
        { admission := { capacity := 2 }
          queues := { localBackend := .locked, workerCount := 1 } } allFiveReleases = some s ∧
      s.admission.pending = 0 ∧ s.queues.queuedLocal.length = 1 ∧ SlotsConserved 2 s := by
  refine ⟨by decide, ?_⟩
  obtain ⟨s, hs⟩ := Option.isSome_iff_exists.mp
    (show ((machine 2).run
      { admission := { capacity := 2 }
        queues := { localBackend := .locked, workerCount := 1 } } allFiveReleases).isSome by decide)
  have hend : ((machine 2).run
      { admission := { capacity := 2 }
        queues := { localBackend := .locked, workerCount := 1 } } allFiveReleases).map
        (fun s => (s.admission.pending, s.queues.queuedLocal.length)) = some (0, 1) := by decide
  rw [hs] at hend
  obtain ⟨hpending, hlocal⟩ := Prod.mk.inj (Option.some.inj hend)
  exact ⟨s, hs, hpending, hlocal, slotsConserved_of_reachable (by decide)
    (Machine.reachable_of_run ⟨.reject, .locked, 1, rfl⟩ hs)⟩

end ExternalSlots
end AstraScheduler
