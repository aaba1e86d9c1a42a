import AstraScheduler.QueueSweep
import AstraScheduler.Transition

/-! # No invoker is lost or duplicated in the ready queues

A run of the queues is any sequence of their operations with any arguments, kept with a
record of what was published, what each successful claim returned and what was handed to
`cancel_pre_start`.  Every invoker is published once: it is an object its publisher owns.
A ring may run out of room for growth at any time and get it back.

Where an invoker is now is read off the containers themselves, the FIFOs node by node
along their raw links. -/

namespace AstraScheduler
namespace QueueConservation

open LinkedReadyQueues
open Transition (Machine)

variable {I : Type} [DecidableEq I] [TaskInvokerBase I]

inductive ClaimSource where
  | ownQueue
  | globalQueues
  | steal
  deriving DecidableEq, Repr

/-- A successful claim and the task it returned. -/
structure Returned (I : Type) where
  source : ClaimSource
  out : QueuedTask I
  deriving DecidableEq, Repr

structure QueueRun (I : Type) where
  queues : LinkedReadyQueues I
  /-- The arguments of the calls of `publish`. -/
  published : List (QueuedTask I) := []
  returned : List (Returned I) := []
  cancelled : List I := []
  /-- The resumes a sweep has moved from a local to a global queue. -/
  moved : List I := []

inductive QueueOp (I : Type) where
  | publish (task : I) (isExternal useLocalQueue : Bool) (workerIndex : Nat)
  | claimLocal (workerIndex calendarIndex : Nat)
  | claimGlobal (calendarIndex : Nat) (deadlineBursts : Priority → Nat)
  | steal (victimIndex calendarIndex : Nat) (contended : Priority → Bool)
  | completeClaim
  | cancelUnstarted
  /-- The room for growth of a ring changes. -/
  | ringRoom (workerIndex : Nat) (band : Priority) (room : Option Nat)

namespace QueueRun

def publishedInvokers (r : QueueRun I) : List I := r.published.map (·.invoker)

def returnedInvokers (r : QueueRun I) : List I := r.returned.map (·.out.invoker)

def queuedInvokers (r : QueueRun I) : List I := r.queues.queued.map (·.invoker)

/-- An unsuccessful claim changes nothing. -/
def claim (r : QueueRun I) (source : ClaimSource) : Option (Claimed I) → QueueRun I
  | none => r
  | some c => { r with queues := c.queues, returned := r.returned ++ [⟨source, c.out⟩] }

def cancelUnstarted (r : QueueRun I) : QueueRun I :=
  let s := r.queues.cancelUnstarted
  { r with
    queues := s.queues
    cancelled := r.cancelled ++ (s.cancelledGlobal ++ s.cancelledLocal).map (·.invoker)
    moved := r.moved ++ s.resumes.map (·.invoker) }

def next (r : QueueRun I) : QueueOp I → Option (QueueRun I)
  | .publish task isExternal useLocalQueue workerIndex =>
    if task ∈ r.publishedInvokers then none
    else some { r with
      queues := r.queues.publish task isExternal useLocalQueue workerIndex
      published := r.published ++ [⟨task, isExternal⟩] }
  | .claimLocal w index => some (r.claim .ownQueue (r.queues.claimLocal w index))
  | .claimGlobal index bursts =>
    some (r.claim .globalQueues ((r.queues.claimGlobal index bursts).map (·.1)))
  | .steal w index contended => some (r.claim .steal (r.queues.steal w index contended))
  | .completeClaim => some { r with queues := r.queues.completeClaim }
  | .cancelUnstarted => some r.cancelUnstarted
  | .ringRoom w band room => some { r with queues := ringRoom r.queues w band room }

end QueueRun

/-- The runs of the queues of any number of workers, on either backend. -/
def machine : Machine (QueueRun I) (QueueOp I) where
  init r := ∃ backend workerCount,
    r = { queues := { localBackend := backend, workerCount := workerCount } }
  next := QueueRun.next

/-! ## What a run conserves -/

/-- Each published invoker is still queued, or returned by one claim, or cancelled once;
no resume is cancelled; claims return the flag of the publication or, from a local queue
and for a resume moved out of one, `false`. -/
structure Conserved (r : QueueRun I) : Prop where
  oneSituation : ∀ i ∈ r.publishedInvokers,
    r.queuedInvokers.count i + r.returnedInvokers.count i + r.cancelled.count i = 1
  nothingElse : ∀ i ∉ r.publishedInvokers,
    i ∉ r.queuedInvokers ∧ i ∉ r.returnedInvokers ∧ i ∉ r.cancelled
  resumesKept : ∀ i ∈ r.cancelled, TaskInvokerBase.isResumeSegment i = false
  movedResumes : ∀ i ∈ r.moved, TaskInvokerBase.isResumeSegment i
  globalFlag : ∀ c ∈ r.returned, c.source = .globalQueues →
    ∀ t ∈ r.published, t.invoker = c.out.invoker →
      c.out.isExternal = (t.isExternal && !decide (t.invoker ∈ r.moved))
  localFlag : ∀ c ∈ r.returned, c.source ≠ .globalQueues → c.out.isExternal = false

/-- `t` carries the flag it has to carry in a global queue. -/
def Stands (r : QueueRun I) (t : QueuedTask I) : Prop :=
  ∃ u ∈ r.published, u.invoker = t.invoker ∧
    t.isExternal = (u.isExternal && !decide (u.invoker ∈ r.moved))

structure Accounted (r : QueueRun I) : Prop where
  wellLinked : WellLinked r.queues
  distinct : r.publishedInvokers.Nodup
  places : (r.queuedInvokers ++ r.returnedInvokers ++ r.cancelled).Perm r.publishedInvokers
  resumesKept : ∀ i ∈ r.cancelled, TaskInvokerBase.isResumeSegment i = false
  movedResumes : ∀ i ∈ r.moved, TaskInvokerBase.isResumeSegment i
  movedPublished : ∀ i ∈ r.moved, i ∈ r.publishedInvokers
  inGlobal : ∀ t ∈ r.queues.queuedGlobal, Stands r t
  inLocal : ∀ t ∈ r.queues.queuedLocal, t.isExternal = false
  returnedGlobal : ∀ c ∈ r.returned, c.source = .globalQueues → Stands r c.out
  returnedLocal : ∀ c ∈ r.returned, c.source ≠ .globalQueues → c.out.isExternal = false

variable {r r' : QueueRun I}

theorem Accounted.conserved (h : Accounted r) : Conserved r where
  oneSituation := by
    intro i hi
    have hcount := h.places.count_eq i
    rw [List.count_append, List.count_append, h.distinct.count, if_pos hi] at hcount
    exact hcount
  nothingElse := by
    intro i hi
    have hout : i ∉ r.queuedInvokers ++ r.returnedInvokers ++ r.cancelled :=
      fun hm => hi (h.places.subset hm)
    simpa [and_assoc] using hout
  resumesKept := h.resumesKept
  movedResumes := h.movedResumes
  globalFlag := by
    intro c hc hsource t ht heq
    obtain ⟨u, hu, hinv, hflag⟩ := h.returnedGlobal c hc hsource
    obtain rfl : u = t := List.inj_on_of_nodup_map h.distinct hu ht (hinv.trans heq.symm)
    exact hflag
  localFlag := h.returnedLocal

namespace Accounted

theorem init (h : machine.init r) : Accounted r := by
  obtain ⟨backend, n, rfl⟩ := h
  obtain ⟨hwell, hglobal, hlocal⟩ := wellLinked_init (I := I) backend n
  constructor <;> simp [QueueRun.queuedInvokers, QueueRun.returnedInvokers,
    QueueRun.publishedInvokers, queued, hglobal, hlocal, hwell]

theorem queued_published (h : Accounted r) {t : QueuedTask I} (ht : t ∈ r.queues.queued) :
    t.invoker ∈ r.publishedInvokers := by
  have hin : t.invoker ∈ r.queuedInvokers := List.mem_map_of_mem ht
  exact h.places.subset (by simp [hin])

/-- What leaves the queues has not left them before. -/
theorem queued_fresh (h : Accounted r) {t : QueuedTask I} (ht : t ∈ r.queues.queued) :
    t.invoker ∉ r.returnedInvokers ∧ t.invoker ∉ r.cancelled := by
  have hnd := h.places.nodup_iff.mpr h.distinct
  have hin : t.invoker ∈ r.queuedInvokers := List.mem_map_of_mem ht
  rw [List.append_assoc, List.nodup_append] at hnd
  have hout : t.invoker ∉ r.returnedInvokers ++ r.cancelled :=
    fun hm => hnd.2.2 _ hin _ hm rfl
  simpa using hout

/-! ## One operation -/

theorem publish (h : Accounted r) {task : I} (hnew : task ∉ r.publishedInvokers)
    (isExternal useLocalQueue : Bool) (workerIndex : Nat) :
    Accounted { r with
      queues := r.queues.publish task isExternal useLocalQueue workerIndex
      published := r.published ++ [⟨task, isExternal⟩] } := by
  have hfresh : ∀ u ∈ r.queues.queued, u.invoker ≠ task := by
    rintro u hu rfl
    exact hnew (h.queued_published hu)
  obtain ⟨hwell, -, hadded⟩ :=
    publish_publishes h.wellLinked hfresh isExternal useLocalQueue workerIndex
  have hmoved : task ∉ r.moved := fun hm => hnew (h.movedPublished _ hm)
  have hold : ∀ t, Stands r t → Stands { r with
      queues := r.queues.publish task isExternal useLocalQueue workerIndex
      published := r.published ++ [⟨task, isExternal⟩] } t := by
    rintro t ⟨u, hu, heq⟩
    exact ⟨u, List.mem_append_left _ hu, heq⟩
  have hqueued : ((r.queues.publish task isExternal useLocalQueue workerIndex).queued.map
      (·.invoker)).Perm (r.queuedInvokers ++ [task]) := by
    rw [QueueRun.queuedInvokers, queued, queued, List.map_append, List.map_append]
    rcases hadded with ⟨hglobal, hlocal⟩ | ⟨-, hglobal, hlocal⟩
    · rw [hlocal]
      have hmap := hglobal.map (·.invoker)
      rw [List.map_append] at hmap
      refine (hmap.append_right _).trans ?_
      rw [List.append_assoc, List.append_assoc]
      exact List.perm_append_comm.append_left _
    · rw [hglobal, List.append_assoc]
      have hmap := hlocal.map (·.invoker)
      rw [List.map_append] at hmap
      exact hmap.append_left _
  refine ⟨hwell, ?_, ?_, h.resumesKept, h.movedResumes, fun i hi => ?_, fun t ht => ?_,
    fun t ht => ?_, fun c hc hsource => hold _ (h.returnedGlobal c hc hsource), h.returnedLocal⟩
  · rw [QueueRun.publishedInvokers, List.map_append, List.map_singleton, List.nodup_append]
    refine ⟨h.distinct, List.nodup_singleton _, ?_⟩
    rintro i hi j hj rfl
    obtain rfl : i = task := List.mem_singleton.mp hj
    exact hnew hi
  · rw [QueueRun.publishedInvokers, List.map_append, List.map_singleton]
    refine ((hqueued.append_right _).append_right _).trans ?_
    refine List.Perm.trans ?_ (h.places.append_right [task])
    refine List.perm_iff_count.mpr fun a => ?_
    simp only [QueueRun.returnedInvokers, List.count_append]
    omega
  · rw [QueueRun.publishedInvokers, List.map_append]
    exact List.mem_append_left _ (h.movedPublished i hi)
  · rcases hadded with ⟨hglobal, -⟩ | ⟨-, hglobal, -⟩
    · rcases List.mem_append.mp (hglobal.subset ht) with ht | ht
      · exact hold t (h.inGlobal t ht)
      · obtain rfl : t = ⟨task, isExternal⟩ := List.mem_singleton.mp ht
        exact ⟨⟨task, isExternal⟩, by simp, rfl, by simp [hmoved]⟩
    · exact hold t (h.inGlobal t (hglobal ▸ ht))
  · rcases hadded with ⟨-, hlocal⟩ | ⟨-, -, hlocal⟩
    · exact h.inLocal t (hlocal ▸ ht)
    · rcases List.mem_append.mp (hlocal.subset ht) with ht | ht
      · exact h.inLocal t ht
      · rw [List.mem_singleton.mp ht]

/-- A claim that takes its task out of the global queues when `source` says so, and out
of a local queue otherwise. -/
theorem claim (h : Accounted r) {source : ClaimSource} {c : Claimed I}
    (hwell : WellLinked c.queues)
    (hqueued : (c.queues.queued ++ [c.out]).Perm r.queues.queued)
    (hglobal : c.queues.queuedGlobal ⊆ r.queues.queuedGlobal)
    (hlocal : c.queues.queuedLocal ⊆ r.queues.queuedLocal)
    (hout : if source = .globalQueues then c.out ∈ r.queues.queuedGlobal
      else c.out ∈ r.queues.queuedLocal) :
    Accounted (r.claim source (some c)) := by
  have hmap := hqueued.map (·.invoker)
  rw [List.map_append, List.map_singleton] at hmap
  refine ⟨hwell, h.distinct, ?_, h.resumesKept, h.movedResumes, h.movedPublished,
    fun t ht => h.inGlobal t (hglobal ht), fun t ht => h.inLocal t (hlocal ht), ?_, ?_⟩
  · refine List.Perm.trans ?_ h.places
    refine List.perm_iff_count.mpr fun a => ?_
    have hcount := hmap.count_eq a
    simp only [QueueRun.claim, QueueRun.queuedInvokers, QueueRun.returnedInvokers,
      List.map_append, List.map_singleton, List.count_append] at hcount ⊢
    omega
  · intro d hd hsource
    rcases List.mem_append.mp hd with hd | hd
    · exact h.returnedGlobal d hd hsource
    · obtain rfl : d = ⟨source, c.out⟩ := List.mem_singleton.mp hd
      obtain rfl : source = .globalQueues := hsource
      exact h.inGlobal _ (by simpa using hout)
  · intro d hd hsource
    rcases List.mem_append.mp hd with hd | hd
    · exact h.returnedLocal d hd hsource
    · obtain rfl : d = ⟨source, c.out⟩ := List.mem_singleton.mp hd
      rw [if_neg hsource] at hout
      exact h.inLocal _ hout

theorem claimGlobal (h : Accounted r) (index : Nat) (bursts : Priority → Nat) :
    Accounted (r.claim .globalQueues ((r.queues.claimGlobal index bursts).map (·.1))) := by
  cases hc : r.queues.claimGlobal index bursts with
  | none => exact h
  | some c =>
    obtain ⟨hwell, -, hglobal, hlocal⟩ := claimGlobal_queued h.wellLinked hc
    refine h.claim hwell ?_ (fun t ht => hglobal.subset (List.mem_append_left _ ht))
      (hlocal ▸ List.Subset.refl _) (by simpa using hglobal.subset (by simp))
    rw [queued, queued, hlocal, List.append_assoc]
    refine (List.perm_append_comm.append_left _).trans ?_
    rw [← List.append_assoc]
    exact hglobal.append_right _

theorem claimFrom (h : Accounted r) {source : ClaimSource} (hsource : source ≠ .globalQueues)
    (w index : Nat) (owner : Bool) (contended : Priority → Bool) :
    Accounted (r.claim source (r.queues.claimFrom w index owner contended)) := by
  cases hc : r.queues.claimFrom w index owner contended with
  | none => exact h
  | some c =>
    obtain ⟨hwell, -, hglobal, hlocal⟩ := claimFrom_queued h.wellLinked hc
    refine h.claim hwell ?_ (hglobal ▸ List.Subset.refl _)
      (fun t ht => hlocal.subset (List.mem_append_left _ ht))
      (by simpa [hsource] using hlocal.subset (by simp))
    rw [queued, queued, hglobal, List.append_assoc]
    exact hlocal.append_left _

theorem cancelUnstarted (h : Accounted r) : Accounted r.cancelUnstarted := by
  obtain ⟨kept, hs⟩ := cancelUnstarted_swept h.wellLinked
  have hlocal : ∀ t ∈ r.queues.cancelUnstarted.resumes, t ∈ r.queues.queuedLocal :=
    fun t ht => hs.inLocal.subset (by simp [ht])
  have hmoved : ∀ i, i ∈ r.cancelUnstarted.moved ↔
      i ∈ r.moved ∨ ∃ t ∈ r.queues.cancelUnstarted.resumes, t.invoker = i := by
    intro i
    simp [QueueRun.cancelUnstarted]
  have hstay : ∀ t, (∀ u ∈ r.queues.cancelUnstarted.resumes, u.invoker ≠ t.invoker) →
      Stands r t → Stands r.cancelUnstarted t := by
    rintro t hne ⟨u, hu, heq, hflag⟩
    refine ⟨u, hu, heq, ?_⟩
    have hiff : u.invoker ∈ r.cancelUnstarted.moved ↔ u.invoker ∈ r.moved := by
      rw [hmoved, heq]
      exact or_iff_left fun ⟨v, hv, hvt⟩ => hne v hv hvt
    rw [hflag, decide_eq_decide.mpr hiff]
  have happart : ∀ t ∈ r.queues.queuedGlobal, ∀ u ∈ r.queues.cancelUnstarted.resumes,
      u.invoker ≠ t.invoker := by
    intro t ht u hu heq
    have hnd := h.wellLinked.nodup
    rw [queued, List.map_append, List.nodup_append] at hnd
    exact hnd.2.2 _ (List.mem_map_of_mem ht) _ (List.mem_map_of_mem (hlocal u hu)) heq.symm
  have hqueued : (r.queues.cancelUnstarted.queues.queued ++
      (r.queues.cancelUnstarted.cancelledGlobal ++
        r.queues.cancelUnstarted.cancelledLocal)).Perm r.queues.queued := by
    refine List.Perm.trans ?_ (hs.before.append hs.inLocal)
    rw [queued, List.append_assoc]
    refine (hs.after.append_right _).trans (List.perm_iff_count.mpr fun a => ?_)
    simp only [List.count_append]
    omega
  refine ⟨hs.wellLinked, h.distinct, ?_, fun i hi => ?_, fun i hi => ?_, fun i hi => ?_,
    fun t ht => ?_, fun t ht => ?_, fun c hc hsource => ?_, h.returnedLocal⟩
  · refine List.Perm.trans ?_ h.places
    have hmap := hqueued.map (·.invoker)
    rw [List.map_append] at hmap
    refine List.perm_iff_count.mpr fun a => ?_
    have hcount := hmap.count_eq a
    simp only [QueueRun.cancelUnstarted, QueueRun.queuedInvokers, QueueRun.returnedInvokers,
      List.count_append] at hcount ⊢
    omega
  · rcases List.mem_append.mp hi with hi | hi
    · exact h.resumesKept i hi
    · obtain ⟨t, ht, rfl⟩ := List.mem_map.mp hi
      rcases List.mem_append.mp ht with ht | ht
      · exact hs.cancelledGlobal t ht
      · exact hs.cancelledLocal t ht
  · rcases (hmoved i).mp hi with hi | ⟨t, ht, rfl⟩
    · exact h.movedResumes i hi
    · exact hs.resumes t ht
  · rcases (hmoved i).mp hi with hi | ⟨t, ht, rfl⟩
    · exact h.movedPublished i hi
    · exact h.queued_published (List.mem_append_right _ (hlocal t ht))
  · rcases List.mem_append.mp (hs.after.subset ht) with ht | ht
    · have hold : t ∈ r.queues.queuedGlobal := hs.before.subset (List.mem_append_left _ ht)
      exact hstay t (happart t hold) (h.inGlobal t hold)
    · have hpub : t.invoker ∈ r.publishedInvokers :=
        h.queued_published (List.mem_append_right _ (hlocal t ht))
      obtain ⟨u, hu, heq⟩ := List.mem_map.mp hpub
      refine ⟨u, hu, heq, ?_⟩
      have hm : u.invoker ∈ r.cancelUnstarted.moved := (hmoved _).mpr (.inr ⟨t, ht, heq.symm⟩)
      rw [h.inLocal t (hlocal t ht), decide_eq_true hm]
      simp
  · exact h.inLocal t (hs.inLocal.subset (List.mem_append_left _ ht))
  · refine hstay _ (fun u hu heq => ?_) (h.returnedGlobal c hc hsource)
    have hin : u ∈ r.queues.queued := List.mem_append_right _ (hlocal u hu)
    refine (h.queued_fresh hin).1 ?_
    rw [heq]
    exact List.mem_map_of_mem hc

theorem withQueues (h : Accounted r) {rq : LinkedReadyQueues I} (hwell : WellLinked rq)
    (hglobal : rq.queuedGlobal = r.queues.queuedGlobal)
    (hlocal : rq.queuedLocal = r.queues.queuedLocal) : Accounted { r with queues := rq } := by
  have hqueued : rq.queued = r.queues.queued := by rw [queued, queued, hglobal, hlocal]
  refine ⟨hwell, h.distinct, ?_, h.resumesKept, h.movedResumes, h.movedPublished, ?_, ?_,
    h.returnedGlobal, h.returnedLocal⟩
  · have hplaces := h.places
    rwa [QueueRun.queuedInvokers, ← hqueued] at hplaces
  · exact fun t ht => h.inGlobal t (hglobal ▸ ht)
  · exact fun t ht => h.inLocal t (hlocal ▸ ht)

theorem step (h : Accounted r) {op : QueueOp I} (hs : machine.next r op = some r') :
    Accounted r' := by
  simp only [machine] at hs
  cases op with
  | publish task isExternal useLocalQueue workerIndex =>
    simp only [QueueRun.next, Option.ite_none_left_eq_some, Option.some.injEq] at hs
    obtain ⟨hnew, rfl⟩ := hs
    exact h.publish hnew ..
  | claimLocal w index =>
    obtain rfl := Option.some.inj hs
    exact h.claimFrom (by decide) ..
  | claimGlobal index bursts =>
    obtain rfl := Option.some.inj hs
    exact h.claimGlobal ..
  | steal w index contended =>
    obtain rfl := Option.some.inj hs
    exact h.claimFrom (by decide) ..
  | completeClaim =>
    obtain rfl := Option.some.inj hs
    obtain ⟨hwell, hglobal, hlocal⟩ :=
      wellLinked_congr h.wellLinked r.queues.completeClaim rfl rfl rfl fun _ => rfl
    exact h.withQueues hwell hglobal hlocal
  | cancelUnstarted =>
    obtain rfl := Option.some.inj hs
    exact h.cancelUnstarted
  | ringRoom w band room =>
    obtain rfl := Option.some.inj hs
    obtain ⟨hwell, hglobal, hlocal⟩ :=
      wellLinked_congr h.wellLinked (ringRoom r.queues w band room) rfl rfl rfl
      (tasksAt_ringRoom r.queues w band room)
    exact h.withQueues hwell hglobal hlocal

end Accounted

/-- In every state of every run of the queues, each published invoker is in one place. -/
theorem conserved_of_reachable (h : machine.Reachable r) : Conserved r :=
  (h.invariant Accounted (fun _ hr => Accounted.init hr)
    fun _ _ _ hr _ hs => hr.step hs).conserved

/-- One worker with lock-free queues: a push into a full ring falls back to the global
FIFO, a task with a deadline and a local resume are published; after two global claims
the sweep cancels the local task and moves the resume, which is claimed last. -/
def fallbackAndSweep : List (QueueOp Invoker) :=
  [.ringRoom 0 .normal (some 1), .publish ⟨1, false, .normal, none⟩ true true 0,
    .publish ⟨2, false, .normal, none⟩ true true 0,
    .publish ⟨3, false, .normal, some 70⟩ true false 0,
    .publish ⟨4, true, .high, some 60⟩ true true 0,
    .claimGlobal 0 fun _ => 0, .claimGlobal 3 fun _ => 8, .cancelUnstarted,
    .claimGlobal 0 fun _ => 0]

theorem conserved_fallbackAndSweep :
    ∃ r : QueueRun Invoker,
      machine.run { queues := { localBackend := .chaseLevLockFree, workerCount := 1 } }
        fallbackAndSweep = some r ∧
      r.returned.map (fun c => (c.out.invoker.object, c.out.isExternal)) =
        [(3, true), (2, true), (4, false)] ∧
      r.cancelled.map (·.object) = [1] ∧ Conserved r := by
  obtain ⟨r, hr⟩ := Option.isSome_iff_exists.mp
    (show (machine.run { queues := { localBackend := .chaseLevLockFree, workerCount := 1 } }
      fallbackAndSweep).isSome by decide)
  have hend : (machine.run { queues := { localBackend := .chaseLevLockFree, workerCount := 1 } }
      fallbackAndSweep).map (fun r => (r.returned.map fun c => (c.out.invoker.object,
        c.out.isExternal), r.cancelled.map (·.object))) =
      some ([(3, true), (2, true), (4, false)], [1]) := by decide
  rw [hr] at hend
  obtain ⟨hreturned, hcancelled⟩ := Prod.mk.inj (Option.some.inj hend)
  exact ⟨r, hr, hreturned, hcancelled,
    conserved_of_reachable (Machine.reachable_of_run ⟨.chaseLevLockFree, 1, rfl⟩ hr)⟩

end QueueConservation
end AstraScheduler
