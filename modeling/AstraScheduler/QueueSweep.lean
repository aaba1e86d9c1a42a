import AstraScheduler.QueueContents

/-! # The sweep of the ready queues, and what a run of operations leaves where

`cancel_unstarted` goes through the containers one by one.  `Sweeping` is what holds in
between: every task that was queued when the sweep began is still queued, or has been
cancelled and is no resume, or is a resume of a local queue that waits to be published
again.  `publish` and the claims add and remove one task; with the sweep these are all
the operations, and each keeps the links in order. -/

namespace AstraScheduler
open LinkedFifo (Fifo Holds)
open QueuePlace

namespace LinkedReadyQueues
variable {I : Type}
variable {rq rq' : LinkedReadyQueues I} {k : QueuePlace} {xs ys : List (QueuedTask I)}

/-! ## From one container to all of them -/

theorem OnlyAt.queuedGlobal (ho : OnlyAt rq rq' k) (hk : k ∈ globalPlaces)
    (h : (rq'.tasksAt k ++ ys).Perm (rq.tasksAt k ++ xs)) :
    (rq'.queuedGlobal ++ ys).Perm (rq.queuedGlobal ++ xs) ∧ rq'.queuedLocal = rq.queuedLocal := by
  refine ⟨flatMap_perm_of_one hk nodup_globalPlaces h ho.other, ?_⟩
  rw [LinkedReadyQueues.queuedLocal, LinkedReadyQueues.queuedLocal, ho.workerCount]
  refine List.flatMap_congr fun l hl => ho.other l ?_
  rintro rfl
  obtain ⟨w, p, rfl, -⟩ := mem_localPlaces hl
  exact localBand_notMem_global hk

theorem OnlyAt.queuedLocal (ho : OnlyAt rq rq' k) (hk : k ∈ localPlaces rq.workerCount)
    (h : (rq'.tasksAt k ++ ys).Perm (rq.tasksAt k ++ xs)) :
    rq'.queuedGlobal = rq.queuedGlobal ∧ (rq'.queuedLocal ++ ys).Perm (rq.queuedLocal ++ xs) := by
  refine ⟨List.flatMap_congr fun l hl => ho.other l ?_, ?_⟩
  · rintro rfl
    obtain ⟨w, p, rfl, -⟩ := mem_localPlaces hk
    exact localBand_notMem_global hl
  · rw [LinkedReadyQueues.queuedLocal, LinkedReadyQueues.queuedLocal, ho.workerCount]
    exact flatMap_perm_of_one hk (nodup_localPlaces _) h ho.other

theorem OnlyAt.wellLinked (ho : OnlyAt rq rq' k) (h : WellLinked rq) (hk : k ∈ rq.places)
    (hperm : (rq'.tasksAt k ++ ys).Perm (rq.tasksAt k ++ xs))
    (hnd : ((rq.queued ++ xs).map (·.invoker)).Nodup) : WellLinked rq' := by
  refine ⟨ho.fifos, ?_, fun w p hw => ?_⟩
  · have hall : (rq'.queued ++ ys).Perm (rq.queued ++ xs) := by
      rw [queued_eq, queued_eq, places, ho.workerCount]
      exact flatMap_perm_of_one hk (nodup_places rq) hperm ho.other
    have hnd' := (hall.map (·.invoker)).nodup_iff.mpr hnd
    rw [List.map_append] at hnd'
    exact (List.nodup_append.mp hnd').1
  · rw [ho.workerCount] at hw
    rw [ho.other, h.outside w p hw]
    rintro rfl
    rcases List.mem_append.mp hk with hk | hk
    · exact localBand_notMem_global hk
    · obtain ⟨_, _, heq, hlt⟩ := mem_localPlaces hk
      obtain ⟨rfl, rfl⟩ := QueuePlace.localBand.inj heq
      omega

theorem nodup_push {t : QueuedTask I} (h : WellLinked rq)
    (ht : ∀ u ∈ rq.queued, u.invoker ≠ t.invoker) :
    ((rq.queued ++ [t]).map (·.invoker)).Nodup := by
  rw [List.map_append, List.nodup_append]
  refine ⟨h.nodup, List.nodup_singleton _, ?_⟩
  rintro i hi j hj
  obtain ⟨u, hu, rfl⟩ := List.mem_map.mp hi
  obtain rfl : j = t.invoker := by simpa using hj
  exact ht u hu

/-- What takes tasks out of one container keeps the links in order. -/
theorem OnlyAt.wellLinked_of_sub (ho : OnlyAt rq rq' k) (h : WellLinked rq) (hk : k ∈ rq.places)
    (hperm : (rq'.tasksAt k ++ ys).Perm (rq.tasksAt k)) : WellLinked rq' := by
  have hperm' : (rq'.tasksAt k ++ ys).Perm (rq.tasksAt k ++ []) := by simpa using hperm
  exact ho.wellLinked h hk hperm' (by simpa using h.nodup)

/-! ## The loop over a FIFO -/

section Sweep
variable [DecidableEq I] [TaskInvokerBase I]
variable {q retained : Fifo I} {qs rs : List I}

/-- The rounds of the loop: the nodes of `q` are taken in order, the resumes among them
end up behind those retained before, and nothing but their links is written. -/
theorem drainFifo_spec (links : ReadyLinks I) (cancelled : List (QueuedTask I))
    (hq : Holds links.readyNext q qs) (hr : Holds links.readyNext retained rs)
    (hnd : (qs ++ rs).Nodup) :
    ∃ links' retained',
      drainFifo qs.length links q retained cancelled =
        (links', retained', cancelled ++
          (qs.filter (!TaskInvokerBase.isResumeSegment ·)).map links.task) ∧
      Holds links'.readyNext retained' (rs ++ qs.filter TaskInvokerBase.isResumeSegment) ∧
      (∀ i, i ∉ qs → i ∉ rs → links'.readyNext i = links.readyNext i) ∧
      ∀ i, (i ∈ qs → TaskInvokerBase.isResumeSegment i) →
        links'.readyIsExternal i = links.readyIsExternal i := by
  induction qs generalizing links q retained rs cancelled with
  | nil => exact ⟨links, retained, by simp [drainFifo], by simpa using hr, by simp, by simp⟩
  | cons raw qs ih =>
    rw [List.cons_append, List.nodup_cons] at hnd
    have hraw : raw ∉ qs ∧ raw ∉ rs := by simpa using hnd.1
    obtain ⟨hqs, hrs, hdis⟩ := List.nodup_append.mp hnd.2
    obtain ⟨q', hpop, hq'⟩ := hq.popFront_cons (List.nodup_cons.mpr ⟨hraw.1, hqs⟩)
    have hr' : Holds (Function.update links.readyNext raw none) retained rs :=
      hr.congr fun a ha => Function.update_of_ne (ne_of_mem_of_not_mem ha hraw.2) ..
    simp only [List.length_cons, drainFifo, IntrusiveFifo.popFront, hpop, Option.map_some]
    cases hresume : TaskInvokerBase.isResumeSegment raw with
    | true =>
      have hres : isResume (links.task raw) = true := hresume
      simp only [hres, if_true]
      simp only [IntrusiveFifo.pushBack, ReadyLinks.task]
      have hpush := hr'.pushBack hrs hraw.2
      have hnext : ∀ a, a ≠ raw → a ∉ rs →
          (LinkedFifo.pushBack (Function.update links.readyNext raw none) retained raw).1 a =
            links.readyNext a := fun a ha hars =>
        (hr'.pushBack_next ha hars).trans (Function.update_of_ne ha ..)
      have hq2 : Holds _ q' qs := hq'.congr fun a ha =>
        hr'.pushBack_next (ne_of_mem_of_not_mem ha hraw.1) fun hm => hdis a ha a hm rfl
      have hflag : Function.update (Function.update links.readyIsExternal raw false) raw
          (links.readyIsExternal raw) = links.readyIsExternal := by simp
      have hnd2 : (qs ++ (rs ++ [raw])).Nodup := by
        rw [← List.append_assoc]
        exact (List.perm_append_singleton raw (qs ++ rs)).nodup_iff.mpr
          (List.nodup_cons.mpr hnd)
      rw [hflag]
      obtain ⟨links', retained', hdrain, hhold, hother, hext⟩ :=
        ih ⟨_, links.readyIsExternal⟩ cancelled hq2 hpush hnd2
      refine ⟨links', retained', ?_, ?_, fun i hi hirs => ?_, fun i hi => ?_⟩
      · rw [hdrain, List.filter_cons_of_neg (by simp [hresume])]
        rfl
      · rwa [List.filter_cons_of_pos hresume, List.append_cons]
      · rw [hother i (fun hm => hi (List.mem_cons_of_mem _ hm)) ?_]
        · exact hnext i (fun heq => hi (by simp [heq])) hirs
        · simpa [hirs] using fun heq => hi (by simp [heq])
      · exact hext i fun hm => hi (List.mem_cons_of_mem _ hm)
    | false =>
      have hres : isResume (links.task raw) = false := hresume
      simp only [hres, Bool.false_eq_true, if_false]
      obtain ⟨links', retained', hdrain, hhold, hother, hext⟩ :=
        ih ⟨Function.update links.readyNext raw none,
          Function.update links.readyIsExternal raw false⟩ (cancelled ++ [links.task raw])
          hq' hr' hnd.2
      have hflag : ∀ i, i ≠ raw →
          Function.update links.readyIsExternal raw false i = links.readyIsExternal i :=
        fun i hi => Function.update_of_ne hi ..
      refine ⟨links', retained', ?_, ?_, fun i hi hirs => ?_, fun i hi => ?_⟩
      · rw [hdrain, List.filter_cons_of_pos (by simp [hresume]), List.map_cons,
          List.append_assoc, List.singleton_append]
        refine congrArg (fun ts => (links', retained', cancelled ++ _ :: ts)) ?_
        exact tasks_congr fun i hi =>
          hflag i (ne_of_mem_of_not_mem (List.mem_of_mem_filter hi) hraw.1)
      · rwa [List.filter_cons_of_neg (by simp [hresume])]
      · rw [hother i (fun hm => hi (List.mem_cons_of_mem _ hm)) hirs]
        exact Function.update_of_ne (fun heq => hi (by simp [heq])) ..
      · have hne : i ≠ raw := by
          rintro rfl
          simp [hresume] at hi
        rw [hext i fun hm => hi (List.mem_cons_of_mem _ hm)]
        exact hflag i hne

/-! ## One container of the sweep -/

variable {s : Sweep I} {band : Priority} {w : Nat}

omit [DecidableEq I] in
theorem filter_resumes_perm (tasks : List (QueuedTask I)) :
    (tasks.filter isResume ++ tasks.filter (!isResume ·)).Perm tasks :=
  List.filter_append_perm ..

omit [DecidableEq I] in
theorem sweepEdf_at (h : WellLinked s.queues) (band : Priority) :
    ∃ rq' cs, sweepEdf s band = Sweep.cancelGlobal { s with queues := rq' } cs ∧
      OnlyAt s.queues rq' (.edf band) ∧
      (rq'.tasksAt (.edf band) ++ cs).Perm (s.queues.tasksAt (.edf band)) ∧
      ∀ t ∈ cs, isResume t = false := by
  refine ⟨_, _, rfl, onlyAt_setEdf h .., ?_, ?_⟩
  · have hheap := BinaryHeap.makeHeap_perm EdfEntry.before
      ((s.queues.globalEdfHeaps band).filter fun entry => isResume entry.task)
    simp only [tasksAt, Function.update_self]
    rw [← List.map_append]
    exact ((hheap.append_right _).trans (List.filter_append_perm ..)).map _
  · intro t ht
    obtain ⟨entry, hentry, rfl⟩ := List.mem_map.mp ht
    simpa using (List.mem_filter.mp hentry).2

theorem sweepFifo_at (h : WellLinked s.queues) (band : Priority) :
    ∃ rq' cs, sweepFifo s band = Sweep.cancelGlobal { s with queues := rq' } cs ∧
      OnlyAt s.queues rq' (.fifo band) ∧
      (rq'.tasksAt (.fifo band) ++ cs).Perm (s.queues.tasksAt (.fifo band)) ∧
      ∀ t ∈ cs, isResume t = false := by
  have hhold := h.fifos band
  have hnd := h.nodup_nodes band
  generalize hraws : LinkedFifo.nodes s.queues.links.readyNext
    (s.queues.globalFifoQueues band) = raws at hhold hnd
  obtain ⟨links', retained', hdrain, hkept, hnext, hext⟩ :=
    drainFifo_spec s.queues.links [] hhold LinkedFifo.holds_empty (by simpa using hnd)
  have hin : ∀ i ∈ raws, s.queues.links.task i ∈ s.queues.tasksAt (.fifo band) :=
    fun i hi => mem_fifo (hraws ▸ hi)
  have hother : ∀ l, l ≠ .fifo band → ∀ u ∈ s.queues.tasksAt l,
      links'.readyNext u.invoker = s.queues.links.readyNext u.invoker ∧
        links'.readyIsExternal u.invoker = s.queues.links.readyIsExternal u.invoker := by
    intro l hl u hu
    have hout : u.invoker ∉ raws := fun hm => h.apart hl hu (hin _ hm) rfl
    exact ⟨hnext _ hout (by simp), hext _ fun hm => absurd hm hout⟩
  rw [List.nil_append] at hkept
  let rq' : LinkedReadyQueues I := { s.queues with
    links := links'
    globalFifoQueues := Function.update s.queues.globalFifoQueues band retained' }
  have hself : LinkedFifo.nodes rq'.links.readyNext (rq'.globalFifoQueues band) =
      raws.filter TaskInvokerBase.isResumeSegment := by
    simp only [rq', Function.update_self]
    exact hkept.nodes_eq
  have hfifo : ∀ p, p ≠ band → _ := fun p hp =>
    fifo_congr h rq' p (Function.update_of_ne hp ..)
      (fun u hu => (hother (.fifo p) (by simpa using hp) u hu).1)
      (fun u hu => (hother (.fifo p) (by simpa using hp) u hu).2)
  refine ⟨rq', (raws.filter (!TaskInvokerBase.isResumeSegment ·)).map s.queues.links.task, ?_,
    ⟨rfl, rfl, fun p => ?_, fun l hl => ?_⟩, ?_, ?_⟩
  · rw [sweepFifo, hhold.count, hdrain]
    rfl
  · by_cases hp : p = band
    · subst hp
      rw [hself]
      simpa only [rq', Function.update_self] using hkept
    · exact (hfifo p hp).1
  · cases l with
    | edf p => rfl
    | fifo p => exact (hfifo p (by simpa using hl)).2
    | localBand v p => exact localBand_congr rfl rfl fun u hu => (hother _ hl u hu).2
  · have hkeep : (raws.filter TaskInvokerBase.isResumeSegment).map links'.task =
        (raws.filter TaskInvokerBase.isResumeSegment).map s.queues.links.task :=
      tasks_congr fun i hi => hext i fun _ => (List.mem_filter.mp hi).2
    rw [tasksAt, tasksAt, hself, hraws, hkeep, ← List.map_append]
    exact (List.filter_append_perm ..).map _
  · intro t ht
    obtain ⟨i, hi, rfl⟩ := List.mem_map.mp ht
    simpa [isResume, ReadyLinks.task] using (List.mem_filter.mp hi).2

omit [TaskInvokerBase I] in
/-- Writing to some invokers leaves the others alone. -/
theorem foldl_write_other {tasks : List (QueuedTask I)} {i : I} (links : ReadyLinks I)
    (hi : ∀ t ∈ tasks, t.invoker ≠ i) :
    (tasks.foldl (fun links t => links.write t.invoker none false) links).readyNext i =
        links.readyNext i ∧
      (tasks.foldl (fun links t => links.write t.invoker none false) links).readyIsExternal i =
        links.readyIsExternal i := by
  induction tasks generalizing links with
  | nil => exact ⟨rfl, rfl⟩
  | cons t ts ih =>
    have hne : i ≠ t.invoker := fun heq => hi t (by simp) heq.symm
    have hrest := ih (links.write t.invoker none false) fun u hu => hi u (List.mem_cons_of_mem _ hu)
    exact ⟨hrest.1.trans (Function.update_of_ne hne ..),
      hrest.2.trans (Function.update_of_ne hne ..)⟩

theorem sweepLocalBand_at (h : WellLinked s.queues) (w : Nat) (band : Priority) :
    ∃ rq' rs cs, sweepLocalBand w s band = { s with
        queues := rq'
        resumes := s.resumes ++ rs
        cancelledLocal := s.cancelledLocal ++ cs } ∧
      OnlyAt s.queues rq' (.localBand w band) ∧
      (rq'.tasksAt (.localBand w band) ++ (rs ++ cs)).Perm
        (s.queues.tasksAt (.localBand w band)) ∧
      (∀ t ∈ rs, isResume t) ∧ ∀ t ∈ cs, isResume t = false := by
  unfold sweepLocalBand
  split
  case h_1 hbackend =>
    refine ⟨_, _, _, rfl, ?_, ?_, ?_, ?_⟩
    · refine onlyAt_setLocal h _ w _ band (fun p hp => ⟨?_, ?_⟩) fun l hl u hu => ?_
      · rfl
      · exact Function.update_of_ne hp ..
      · refine foldl_write_other _ fun t ht heq => h.apart hl hu (u := t) ?_ heq.symm
        simpa only [tasksAt, hbackend] using ht
    · simpa [tasksAt, setLocal, hbackend] using
        filter_resumes_perm (s.queues.tasksAt (.localBand w band))
    · exact fun t ht => (List.mem_filter.mp ht).2
    · exact fun t ht => by simpa using (List.mem_filter.mp ht).2
  case h_2 hbackend =>
    refine ⟨_, [], _, by rw [List.append_nil], ?_, ?_, by simp, ?_⟩
    · refine onlyAt_setLocal h s.queues.links w _ band (fun p hp => ⟨?_, ?_⟩)
        fun _ _ _ _ => ⟨rfl, rfl⟩
      · exact Function.update_of_ne hp ..
      · rfl
    · simpa [tasksAt, setLocal, hbackend] using
        filter_resumes_perm (s.queues.tasksAt (.localBand w band))
    · exact fun t ht => by simpa using (List.mem_filter.mp ht).2

/-! ## The whole sweep -/

/-- What holds between two containers of a sweep that began at `rq`. -/
structure Sweeping (rq : LinkedReadyQueues I) (s : Sweep I) : Prop where
  wellLinked : WellLinked s.queues
  workerCount : s.queues.workerCount = rq.workerCount
  inGlobal : (s.queues.queuedGlobal ++ s.cancelledGlobal).Perm rq.queuedGlobal
  inLocal : (s.queues.queuedLocal ++ (s.resumes ++ s.cancelledLocal)).Perm rq.queuedLocal
  resumes : ∀ t ∈ s.resumes, isResume t
  cancelledGlobal : ∀ t ∈ s.cancelledGlobal, isResume t = false
  cancelledLocal : ∀ t ∈ s.cancelledLocal, isResume t = false
  released : s.released = s.cancelledGlobal.countP (·.isExternal)

namespace Sweeping
variable {rs cs : List (QueuedTask I)}

omit [DecidableEq I] in
theorem start (h : WellLinked rq) : Sweeping rq { queues := rq } := by
  constructor <;> simp [h]

omit [DecidableEq I] in
theorem cancelGlobal (hs : Sweeping rq s) (ho : OnlyAt s.queues rq' k) (hk : k ∈ globalPlaces)
    (hperm : (rq'.tasksAt k ++ cs).Perm (s.queues.tasksAt k)) (hcs : ∀ t ∈ cs, isResume t = false) :
    Sweeping rq (Sweep.cancelGlobal { s with queues := rq' } cs) := by
  have hadd : (rq'.tasksAt k ++ cs).Perm (s.queues.tasksAt k ++ []) := by simpa using hperm
  obtain ⟨hglobal, hlocal⟩ := ho.queuedGlobal hk hadd
  rw [List.append_nil] at hglobal
  refine ⟨ho.wellLinked_of_sub hs.wellLinked (List.mem_append_left _ hk) hperm,
    ho.workerCount.trans hs.workerCount, ?_, ?_, hs.resumes, ?_, hs.cancelledLocal, ?_⟩
  · calc (rq'.queuedGlobal ++ (s.cancelledGlobal ++ cs)).Perm
          (rq'.queuedGlobal ++ cs ++ s.cancelledGlobal) := by
          rw [List.append_assoc]
          exact List.perm_append_comm.append_left _
      _ |>.Perm (s.queues.queuedGlobal ++ s.cancelledGlobal) := hglobal.append_right _
      _ |>.Perm rq.queuedGlobal := hs.inGlobal
  · simpa only [Sweep.cancelGlobal, hlocal] using hs.inLocal
  · intro t ht
    rcases List.mem_append.mp ht with ht | ht
    · exact hs.cancelledGlobal t ht
    · exact hcs t ht
  · simp only [Sweep.cancelGlobal, hs.released, List.countP_append]

omit [DecidableEq I] in
theorem collectLocal (hs : Sweeping rq s) (ho : OnlyAt s.queues rq' k)
    (hk : k ∈ localPlaces s.queues.workerCount)
    (hperm : (rq'.tasksAt k ++ (rs ++ cs)).Perm (s.queues.tasksAt k))
    (hrs : ∀ t ∈ rs, isResume t) (hcs : ∀ t ∈ cs, isResume t = false) :
    Sweeping rq { s with
      queues := rq'
      resumes := s.resumes ++ rs
      cancelledLocal := s.cancelledLocal ++ cs } := by
  have hadd : (rq'.tasksAt k ++ (rs ++ cs)).Perm (s.queues.tasksAt k ++ []) := by
    simpa using hperm
  obtain ⟨hglobal, hlocal⟩ := ho.queuedLocal hk hadd
  rw [List.append_nil] at hlocal
  refine ⟨ho.wellLinked_of_sub hs.wellLinked (List.mem_append_right _ hk) hperm,
    ho.workerCount.trans hs.workerCount, ?_, ?_, ?_, hs.cancelledGlobal, ?_, hs.released⟩
  · simpa only [hglobal] using hs.inGlobal
  · calc (rq'.queuedLocal ++ (s.resumes ++ rs ++ (s.cancelledLocal ++ cs))).Perm
          (rq'.queuedLocal ++ (rs ++ cs) ++ (s.resumes ++ s.cancelledLocal)) := by
          classical
          refine List.perm_iff_count.mpr fun a => ?_
          simp only [List.count_append]
          omega
      _ |>.Perm (s.queues.queuedLocal ++ (s.resumes ++ s.cancelledLocal)) :=
          hlocal.append_right _
      _ |>.Perm rq.queuedLocal := hs.inLocal
  · intro t ht
    rcases List.mem_append.mp ht with ht | ht
    · exact hs.resumes t ht
    · exact hrs t ht
  · intro t ht
    rcases List.mem_append.mp ht with ht | ht
    · exact hs.cancelledLocal t ht
    · exact hcs t ht

omit [DecidableEq I] in
theorem edf (hs : Sweeping rq s) (band : Priority) : Sweeping rq (sweepEdf s band) := by
  obtain ⟨rq', cs, heq, ho, hperm, hcs⟩ := sweepEdf_at hs.wellLinked band
  rw [heq]
  exact hs.cancelGlobal ho (edf_mem band) hperm hcs

theorem fifo (hs : Sweeping rq s) (band : Priority) : Sweeping rq (sweepFifo s band) := by
  obtain ⟨rq', cs, heq, ho, hperm, hcs⟩ := sweepFifo_at hs.wellLinked band
  rw [heq]
  exact hs.cancelGlobal ho (fifo_mem band) hperm hcs

theorem localBand (hs : Sweeping rq s) (hw : w < rq.workerCount) (band : Priority) :
    Sweeping rq (sweepLocalBand w s band) := by
  obtain ⟨rq', rs, cs, heq, ho, hperm, hrs, hcs⟩ := sweepLocalBand_at hs.wellLinked w band
  rw [heq]
  exact hs.collectLocal ho (localBand_mem band (hs.workerCount.symm ▸ hw)) hperm hrs hcs

end Sweeping

theorem sweepGlobal_sweeping (h : WellLinked rq) : Sweeping rq rq.sweepGlobal := by
  refine List.foldlRecOn _ _ ?_ fun s hs band _ => hs.fifo band
  exact List.foldlRecOn _ _ (.start h) fun s hs band _ => hs.edf band

theorem Sweeping.sweepLocal (hs : Sweeping rq s) (hw : w < rq.workerCount) :
    Sweeping rq (sweepLocal s w) :=
  List.foldlRecOn _ _ hs fun _ hs band _ => hs.localBand hw band

theorem sweep_sweeping (h : WellLinked rq) : Sweeping rq rq.sweep :=
  List.foldlRecOn _ _ (sweepGlobal_sweeping h) fun _ hs _ hw => hs.sweepLocal (List.mem_range.mp hw)

/-! ## What each operation does to the queued tasks -/

variable {t : QueuedTask I} {task : I} {isExternal useLocalQueue : Bool}

omit [TaskInvokerBase I] in
theorem pushFifo_queued (h : WellLinked rq) (ht : ∀ u ∈ rq.queued, u.invoker ≠ t.invoker)
    (band : Priority) :
    WellLinked (rq.pushFifo t band) ∧
      (rq.pushFifo t band).queuedGlobal.Perm (rq.queuedGlobal ++ [t]) ∧
      (rq.pushFifo t band).queuedLocal = rq.queuedLocal := by
  obtain ⟨htasks, ho⟩ := pushFifo_at h ht band
  have hperm : ((rq.pushFifo t band).tasksAt (.fifo band) ++ []).Perm
      (rq.tasksAt (.fifo band) ++ [t]) := by rw [htasks, List.append_nil]
  obtain ⟨hglobal, hlocal⟩ := ho.queuedGlobal (fifo_mem band) hperm
  rw [List.append_nil] at hglobal
  exact ⟨ho.wellLinked h (List.mem_append_left _ (fifo_mem band)) hperm (nodup_push h ht),
    hglobal, hlocal⟩

/-- One task more, in the global or in the local queues. -/
structure Publishes (rq rq' : LinkedReadyQueues I) (task : I) (isExternal : Bool)
    (useLocalQueue : Bool) : Prop where
  wellLinked : WellLinked rq'
  workerCount : rq'.workerCount = rq.workerCount
  added :
    (rq'.queuedGlobal.Perm (rq.queuedGlobal ++ [⟨task, isExternal⟩]) ∧
      rq'.queuedLocal = rq.queuedLocal) ∨
    (useLocalQueue ∧ rq'.queuedGlobal = rq.queuedGlobal ∧
      rq'.queuedLocal.Perm (rq.queuedLocal ++ [⟨task, false⟩]))

omit [TaskInvokerBase I] in
/-- A ring that cannot grow leaves every task where it was. -/
theorem pushLocal_failed_queued (h : WellLinked rq)
    (ht : ∀ u ∈ rq.queued, u.invoker ≠ t.invoker) {p : Priority}
    (hp : rq.pushLocal w t p = (rq', false)) :
    WellLinked rq' ∧ rq'.workerCount = rq.workerCount ∧
      rq'.queuedGlobal = rq.queuedGlobal ∧ rq'.queuedLocal = rq.queuedLocal := by
  obtain ⟨hcount, -, htasks, hfifos⟩ := pushLocal_failed h ht hp
  have hglobal : rq'.queuedGlobal = rq.queuedGlobal := List.flatMap_congr fun l _ => htasks l
  have hlocal : rq'.queuedLocal = rq.queuedLocal := by
    rw [queuedLocal, queuedLocal, hcount]
    exact List.flatMap_congr fun l _ => htasks l
  refine ⟨⟨hfifos, ?_, fun v p hv => ?_⟩, hcount, hglobal, hlocal⟩
  · rw [queued, hglobal, hlocal]
    exact h.nodup
  · rw [htasks]
    exact h.outside v p (hcount ▸ hv)

theorem publish_publishes (h : WellLinked rq) (ht : ∀ u ∈ rq.queued, u.invoker ≠ task)
    (isExternal useLocalQueue : Bool) (workerIndex : Nat) :
    Publishes rq (rq.publish task isExternal useLocalQueue workerIndex) task isExternal
      useLocalQueue := by
  have hfifo : Publishes rq (rq.pushFifo ⟨task, isExternal⟩ (TaskInvokerBase.priority task)) task
      isExternal useLocalQueue := by
    obtain ⟨hwell, hglobal, hlocal⟩ := pushFifo_queued (t := ⟨task, isExternal⟩) h ht
      (TaskInvokerBase.priority task)
    exact ⟨hwell, rfl, .inl ⟨hglobal, hlocal⟩⟩
  unfold publish
  split
  case h_1 deadline hdeadline hresume =>
    obtain ⟨hperm, ho⟩ := pushEdf_at h ⟨task, isExternal⟩ (TaskInvokerBase.priority task) deadline
    have hin := edf_mem (TaskInvokerBase.priority task)
    rw [← List.append_nil (tasksAt ..)] at hperm
    obtain ⟨hglobal, hlocal⟩ := ho.queuedGlobal hin hperm
    rw [List.append_nil] at hglobal
    exact ⟨ho.wellLinked h (List.mem_append_left _ hin) hperm (nodup_push h ht), rfl,
      .inl ⟨hglobal, hlocal⟩⟩
  case h_2 =>
    split
    case isFalse => exact hfifo
    case isTrue huse =>
      rcases hpush : rq.pushLocal workerIndex ⟨task, false⟩ (TaskInvokerBase.priority task)
        with ⟨pushed, _ | _⟩
      case true =>
        simp only [hpush]
        obtain ⟨htasks, ho⟩ := pushLocal_at (t := ⟨task, false⟩) h ht hpush
        have hin := localBand_mem (TaskInvokerBase.priority task) huse.2
        have hperm : (pushed.tasksAt (.localBand workerIndex (TaskInvokerBase.priority task)) ++
            []).Perm (rq.tasksAt (.localBand workerIndex (TaskInvokerBase.priority task)) ++
              [(⟨task, false⟩ : QueuedTask I)]) := by rw [htasks, List.append_nil]
        obtain ⟨hglobal, hlocal⟩ := ho.queuedLocal hin hperm
        rw [List.append_nil] at hlocal
        exact ⟨ho.wellLinked h (List.mem_append_right _ hin) hperm
          (nodup_push (t := ⟨task, false⟩) h ht), ho.workerCount,
          .inr ⟨huse.1, hglobal, hlocal⟩⟩
      case false =>
        simp only [hpush]
        obtain ⟨hwell, hcount, hglobal, hlocal⟩ :=
          pushLocal_failed_queued (t := ⟨task, false⟩) h ht hpush
        have hq : pushed.queued = rq.queued := by rw [queued, queued, hglobal, hlocal]
        obtain ⟨hwell', hglobal', hlocal'⟩ := pushFifo_queued (t := ⟨task, isExternal⟩) hwell
          (by rwa [hq]) (TaskInvokerBase.priority task)
        rw [hglobal] at hglobal'
        exact ⟨hwell', hcount, .inl ⟨hglobal', hlocal'.trans hlocal⟩⟩

omit [TaskInvokerBase I] in
theorem claimGlobal_queued (h : WellLinked rq) {index : Nat} {bursts bursts' : Priority → Nat}
    {c : Claimed I} (hc : rq.claimGlobal index bursts = some (c, bursts')) :
    WellLinked c.queues ∧ c.queues.workerCount = rq.workerCount ∧
      (c.queues.queuedGlobal ++ [c.out]).Perm rq.queuedGlobal ∧
      c.queues.queuedLocal = rq.queuedLocal := by
  obtain ⟨k, hk, hperm, ho⟩ := claimGlobal_at h hc
  have hadd : (c.queues.tasksAt k ++ [c.out]).Perm (rq.tasksAt k ++ []) := by simpa using hperm
  obtain ⟨hglobal, hlocal⟩ := ho.queuedGlobal hk hadd
  rw [List.append_nil] at hglobal
  exact ⟨ho.wellLinked_of_sub h (List.mem_append_left _ hk) hperm, ho.workerCount, hglobal, hlocal⟩

omit [TaskInvokerBase I] in
theorem claimFrom_queued (h : WellLinked rq) {index : Nat} {owner : Bool}
    {contended : Priority → Bool} {c : Claimed I}
    (hc : rq.claimFrom w index owner contended = some c) :
    WellLinked c.queues ∧ c.queues.workerCount = rq.workerCount ∧
      c.queues.queuedGlobal = rq.queuedGlobal ∧
      (c.queues.queuedLocal ++ [c.out]).Perm rq.queuedLocal := by
  obtain ⟨k, hk, hperm, ho⟩ := claimFrom_at h hc
  have hadd : (c.queues.tasksAt k ++ [c.out]).Perm (rq.tasksAt k ++ []) := by simpa using hperm
  obtain ⟨hglobal, hlocal⟩ := ho.queuedLocal hk hadd
  rw [List.append_nil] at hlocal
  exact ⟨ho.wellLinked_of_sub h (List.mem_append_right _ hk) hperm, ho.workerCount, hglobal, hlocal⟩

theorem republish_queued {rs : List (QueuedTask I)} (h : WellLinked rq)
    (hnd : ((rq.queued ++ rs).map (·.invoker)).Nodup) :
    WellLinked (rq.republish rs) ∧ (rq.republish rs).workerCount = rq.workerCount ∧
      (rq.republish rs).queuedGlobal.Perm (rq.queuedGlobal ++ rs) ∧
      (rq.republish rs).queuedLocal = rq.queuedLocal := by
  induction rs generalizing rq with
  | nil => exact ⟨h, rfl, by simp [republish], rfl⟩
  | cons t rs ih =>
    have ht : ∀ u ∈ rq.queued, u.invoker ≠ t.invoker := by
      intro u hu
      rw [List.map_append, List.nodup_append] at hnd
      exact hnd.2.2 u.invoker (List.mem_map_of_mem hu) t.invoker (by simp)
    obtain ⟨hwell, hglobal, hlocal⟩ :=
      pushFifo_queued h ht (TaskInvokerBase.priority t.invoker)
    have hall : ((rq.pushFifo t (TaskInvokerBase.priority t.invoker)).queued ++ rs).Perm
        (rq.queued ++ t :: rs) := by
      rw [queued, queued, hlocal]
      refine ((hglobal.append_right _).append_right _).trans ?_
      simp only [List.append_assoc, List.singleton_append]
      exact List.Perm.append_left _ List.perm_middle.symm
    obtain ⟨hwell', hcount, hglobal', hlocal'⟩ := ih hwell ((hall.map _).nodup_iff.mpr hnd)
    refine ⟨hwell', hcount, ?_, hlocal'.trans hlocal⟩
    refine hglobal'.trans ((hglobal.append_right _).trans ?_)
    rw [List.append_assoc]
    rfl

/-- What a whole sweep does.  `kept` are the tasks it leaves in the global queues. -/
structure Swept (rq : LinkedReadyQueues I) (s : Sweep I) (kept : List (QueuedTask I)) : Prop where
  wellLinked : WellLinked s.queues
  workerCount : s.queues.workerCount = rq.workerCount
  before : (kept ++ s.cancelledGlobal).Perm rq.queuedGlobal
  after : s.queues.queuedGlobal.Perm (kept ++ s.resumes)
  inLocal : (s.queues.queuedLocal ++ (s.resumes ++ s.cancelledLocal)).Perm rq.queuedLocal
  resumes : ∀ t ∈ s.resumes, isResume t
  cancelledGlobal : ∀ t ∈ s.cancelledGlobal, isResume t = false
  cancelledLocal : ∀ t ∈ s.cancelledLocal, isResume t = false
  released : s.released = s.cancelledGlobal.countP (·.isExternal)

theorem cancelUnstarted_swept (h : WellLinked rq) : ∃ kept, Swept rq rq.cancelUnstarted kept := by
  have hs := sweep_sweeping h
  have hnd : ((rq.sweep.queues.queued ++ rq.sweep.resumes).map (·.invoker)).Nodup := by
    have hall : (rq.sweep.queues.queued ++ rq.sweep.resumes ++
        (rq.sweep.cancelledGlobal ++ rq.sweep.cancelledLocal)).Perm rq.queued := by
      refine List.Perm.trans ?_ (hs.inGlobal.append hs.inLocal)
      classical
      refine List.perm_iff_count.mpr fun a => ?_
      simp only [queued, List.count_append]
      omega
    have hmap := (hall.map (·.invoker)).nodup_iff.mpr h.nodup
    rw [List.map_append] at hmap
    exact (List.nodup_append.mp hmap).1
  obtain ⟨hwell, hcount, hglobal, hlocal⟩ := republish_queued hs.wellLinked hnd
  refine ⟨rq.sweep.queues.queuedGlobal, hwell, hcount.trans hs.workerCount, hs.inGlobal, hglobal,
    ?_, hs.resumes, hs.cancelledGlobal, hs.cancelledLocal, hs.released⟩
  simp only [cancelUnstarted, hlocal]
  exact hs.inLocal

end Sweep
end LinkedReadyQueues
end AstraScheduler
