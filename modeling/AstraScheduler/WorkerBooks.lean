import AstraScheduler.WorkerPool

/-! # The books of the workers

What the workers of a runtime hold and what they have yet to count goes with what the queues
have handed out.  One structure says what a step has to balance (`Act`), one lemma that a
balanced step keeps the books (`Sound.act`), and each step of a loop or of a helping wait is
shown to be balanced.  From the books come the two results: where each invoker is, and what the
counters show. -/

namespace AstraScheduler
namespace WorkerPool

open LinkedReadyQueues QueueConservation
open MetricsMerge (ShardCounter)
open Threads (Each)
open Transition (Machine)
open WorkerLoop (LocalVariables LoopEvent LoopPc Shared WorkerRun)

section
variable {I : Type}

/-! ## What has to balance -/

def Helping.probes (h : Helping I) : Nat :=
  match h.pc with
  | .stealing (_ :: _) => 1
  | _ => 0

/-- The thefts that are being tried. -/
def Worker.probes (w : Worker I) : Nat := (w.helps.map Helping.probes).sum + probesAt w.loop

namespace Pool
variable (s : Pool I)

/-- How often an update is still to be made. -/
def due (e : Entry) : Nat := (s.workers.map fun w => w.owes.count e).sum

/-- What a counter shows once all updates are made. -/
def total (c : ShardCounter) : Nat := s.counts c + s.due (.counter c)

def ended : List I := s.executed ++ s.cancelled

end Pool

section
variable [DecidableEq I] [TaskInvokerBase I]

structure WorkerOk (o : Options) (w : Worker I) : Prop where
  claimed : w.owes.count .claimed ≤ w.hands.length
  outstanding : Outstanding w.owes w.probes (waitsAt w.loop) (parkedAt w.loop)
  task : w.loop = .executing → ∃ task cancels,
    w.task = some (task, cancels) ∧ (cancels = true → isResume task = false)
  depth : w.helps.length ≤ o.maxHelpingDepth

/-- The counters, at a level that records them. -/
structure Counted (o : Options) (s : Pool I) : Prop where
  claims : ∀ source, s.total (claimCounter source) =
    s.run.returned.countP (·.source = source)
  thefts : s.total .stealAttempts = s.total .stealSuccesses + s.total .stealFailures +
    (s.workers.map Worker.probes).sum
  parks : s.total .workerParks = s.total .workerWakes +
    (s.workers.map fun w => waitsAt w.loop).sum
  durations : o.metricsLevel = .detailed →
    s.parkDurations + s.due .parkDuration = s.total .workerWakes

structure Sound (o : Options) (s : Pool I) : Prop where
  accounted : Accounted s.run
  books : Custody.Balanced Worker.invokers s.workers s.ended s.run.returnedInvokers
  claimed : s.run.queues.claimedCount + s.due .claimed = (s.workers.map (·.hands.length)).sum
  parked : s.parkedWorkers + s.due .parked =
    (s.workers.map fun w => parkedAt w.loop).sum + s.due .unparked
  resumes : ∀ x ∈ s.cancelled, TaskInvokerBase.isResumeSegment x = false
  workers : Each (fun _ w => WorkerOk o w) s.workers
  counted : o.metricsLevel ≠ .off → Counted o s

/-- A worker that has nothing to count takes a step, after which it has `es` to count. -/
structure Act (o : Options) (s t : Pool I) (i : Nat) (w u : Worker I) (es : List Entry) :
    Prop where
  worker : s.workers[i]? = some w
  paid : w.owes = []
  workers : t.workers = s.workers.set i u
  owes : u.owes = es.filter o.recorded
  counts : t.counts = s.counts
  recorded : t.parkDurations = s.parkDurations
  gauge : t.parkedWorkers = s.parkedWorkers
  accounted : Accounted t.run
  books : ∀ x, u.invokers.count x + t.ended.count x + s.run.returnedInvokers.count x =
    w.invokers.count x + s.ended.count x + t.run.returnedInvokers.count x
  claimed : t.run.queues.claimedCount = s.run.queues.claimedCount ∧
      u.hands.length = w.hands.length + es.count .claimed ∨
    t.run.queues.claimedCount = s.run.queues.claimedCount - 1 ∧
      w.hands.length = u.hands.length + 1 ∧ es.count .claimed = 0
  returned : ∀ source, t.run.returned.countP (·.source = source) =
    s.run.returned.countP (·.source = source) + es.count (.counter (claimCounter source))
  thefts : es.count (.counter .stealAttempts) + w.probes =
    es.count (.counter .stealSuccesses) + es.count (.counter .stealFailures) + u.probes
  parks : es.count (.counter .workerParks) + waitsAt w.loop =
    es.count (.counter .workerWakes) + waitsAt u.loop
  durations : es.count .parkDuration = es.count (.counter .workerWakes)
  parked : es.count .parked + parkedAt w.loop = es.count .unparked + parkedAt u.loop
  outstanding : Outstanding es u.probes (waitsAt u.loop) (parkedAt u.loop)
  resumes : ∀ x ∈ t.cancelled, x ∈ s.cancelled ∨ TaskInvokerBase.isResumeSegment x = false
  task : u.loop = .executing → ∃ task cancels,
    u.task = some (task, cancels) ∧ (cancels = true → isResume task = false)
  depth : u.helps.length ≤ o.maxHelpingDepth

variable {o : Options} {s t : Pool I} {i : Nat} {w u : Worker I} {es : List Entry} {e : Entry}

theorem count_recorded (h : o.recorded e = true) : (es.filter o.recorded).count e = es.count e :=
  List.count_filter h

omit [DecidableEq I] [TaskInvokerBase I] in
theorem due_set (hw : s.workers[i]? = some w) (ht : t.workers = s.workers.set i u) :
    t.due e + w.owes.count e = s.due e + u.owes.count e := by
  rw [Pool.due, ht]
  exact Threads.sum_set (fun w => w.owes.count e) hw u

omit [DecidableEq I] in
/-- A bound on what each worker has left to make is one for all of them. -/
theorem due_le (hworkers : Each (fun _ w => WorkerOk o w) s.workers) {f : Worker I → Nat}
    (hf : ∀ w, WorkerOk o w → w.owes.count e ≤ f w) : s.due e ≤ (s.workers.map f).sum :=
  List.sum_le_sum fun w hw => by
    obtain ⟨j, hj⟩ := List.mem_iff_getElem?.mp hw
    exact hf w (hworkers j w hj)

omit [DecidableEq I] [TaskInvokerBase I] in
theorem loopHand_of_free (h : holds w.loop = false) : w.loopHand = [] := by
  unfold Worker.loopHand
  split
  · rename_i hloop
    rw [hloop] at h
    cases h
  · rename_i hloop
    rw [hloop] at h
    cases h
  · rfl

omit [DecidableEq I] [TaskInvokerBase I] in
theorem finished_of_ne (h : w.loop ≠ .executing) (cancelled : Bool) :
    w.finished cancelled = [] := by
  unfold Worker.finished
  split
  · rename_i hloop _
    exact absurd hloop h
  · rfl

theorem count_claimEntries (a b : ClaimSource) :
    (claimEntries a).count (.counter (claimCounter b)) = if a = b then 1 else 0 := by
  cases a <;> cases b <;> rfl

omit [DecidableEq I] [TaskInvokerBase I] in
/-- What is counted besides the claims. -/
theorem count_unclaimed (a b : LoopPc I)
    (he : e = .claimed ∨ ∃ source, e = .counter (claimCounter source)) :
    (missedTheft a b ++ entered b).count e = 0 := by
  have hmissed : missedTheft a b = [] ∨ missedTheft a b = [.counter .stealFailures] := by
    unfold missedTheft
    split
    · exact .inr rfl
    · exact .inl rfl
  have hentered : e ∉ entered b := by
    unfold entered probe
    rcases he with rfl | ⟨source, rfl⟩
    · split <;> try split
      all_goals simp
    · cases source <;> split <;> try split
      all_goals simp [claimCounter]
  have hfailures : e ≠ .counter .stealFailures := by
    rcases he with rfl | ⟨source, rfl⟩
    · nofun
    · cases source <;> nofun
  rw [List.count_append, List.count_eq_zero.mpr hentered]
  rcases hmissed with hmissed | hmissed <;> rw [hmissed]
  · rfl
  · rw [List.count_singleton, if_neg (by simpa using hfailures.symm)]

omit [TaskInvokerBase I] in
theorem claimedCount_pushLocal (rq : LinkedReadyQueues I) (i : Nat) (task : QueuedTask I)
    (band : Priority) : (rq.pushLocal i task band).1.claimedCount = rq.claimedCount := by
  unfold pushLocal
  split
  · rfl
  · dsimp only
    split <;> rfl

theorem claimedCount_publish (rq : LinkedReadyQueues I) (task : I)
    (isExternal useLocalQueue : Bool) (i : Nat) :
    (rq.publish task isExternal useLocalQueue i).claimedCount = rq.claimedCount := by
  unfold publish
  dsimp only
  split
  · rfl
  · split
    · have hpushed := claimedCount_pushLocal rq i ⟨task, false⟩ (TaskInvokerBase.priority task)
      split
      · rename_i h
        rwa [h] at hpushed
      · rename_i h
        rwa [h] at hpushed
    · rfl

theorem claimedCount_cancelUnstarted (rq : LinkedReadyQueues I) :
    rq.cancelUnstarted.queues.claimedCount = rq.claimedCount := by
  have hband : ∀ (s : Sweep I) (i : Nat) (band : Priority),
      (sweepLocalBand i s band).queues.claimedCount = s.queues.claimedCount := by
    intro s i band
    unfold sweepLocalBand
    split <;> rfl
  have hfold : ∀ {α : Type} (f : Sweep I → α → Sweep I) (s : Sweep I) (as : List α),
      (∀ s a, (f s a).queues.claimedCount = s.queues.claimedCount) →
      (as.foldl f s).queues.claimedCount = s.queues.claimedCount :=
    fun f s as hf => List.foldlRecOn
      (motive := fun u : Sweep I => u.queues.claimedCount = s.queues.claimedCount) as f rfl
      fun u hu a _ => (hf u a).trans hu
  have hglobal : rq.sweepGlobal.queues.claimedCount = rq.claimedCount := by
    unfold sweepGlobal
    rw [hfold sweepFifo _ _ fun _ _ => rfl, hfold sweepEdf _ _ fun _ _ => rfl]
  have hsweep : rq.sweep.queues.claimedCount = rq.claimedCount := by
    unfold sweep
    rw [hfold sweepLocal _ _ fun s i => hfold (sweepLocalBand i) s _ fun s => hband s i, hglobal]
  exact List.foldlRecOn
    (motive := fun q : LinkedReadyQueues I => q.claimedCount = rq.claimedCount) _ _ hsweep
    fun _ hq _ _ => hq

namespace Sound

theorem act (h : Sound o s) (es : List Entry) (ha : Act o s t i w u es) : Sound o t := by
  have hdue : ∀ e, o.recorded e = true → t.due e = s.due e + es.count e := by
    intro e he
    have hset := due_set (e := e) ha.worker ha.workers
    rw [ha.paid, ha.owes, count_recorded he] at hset
    exact hset
  have hsum : ∀ f : Worker I → Nat, (t.workers.map f).sum + f w = (s.workers.map f).sum + f u := by
    intro f
    rw [ha.workers]
    exact Threads.sum_set f ha.worker u
  have hok : WorkerOk o u := by
    refine ⟨?_, ?_, ha.task, ha.depth⟩
    · rw [ha.owes, count_recorded rfl]
      rcases ha.claimed with ⟨-, hhands⟩ | ⟨-, -, hnone⟩ <;> omega
    · rw [ha.owes]
      exact ha.outstanding.sublist List.filter_sublist
  have hworkers : Each (fun _ w => WorkerOk o w) t.workers := by
    rw [ha.workers]
    exact h.workers.set hok fun _ _ _ _ hj => hj
  refine ⟨ha.accounted, ?_, ?_, ?_, fun x hx => ?_, hworkers, fun hlevel => ?_⟩
  · rw [ha.workers]
    exact h.books.acquire ha.worker ha.books
  · have hhands := hsum (·.hands.length)
    have hclaimed := h.claimed
    rw [hdue .claimed rfl]
    rcases ha.claimed with ⟨hcount, hown⟩ | ⟨hcount, hown, hnone⟩
    · omega
    · -- the workers hold at least as much as they have yet to count
      have hle : t.due .claimed ≤ (t.workers.map (·.hands.length)).sum :=
        due_le hworkers fun _ hok => hok.claimed
      rw [hdue .claimed rfl] at hle
      omega
  · have hparked := hsum fun w => parkedAt w.loop
    have := h.parked
    have := ha.parked
    rw [ha.gauge, hdue .parked rfl, hdue .unparked rfl]
    omega
  · exact (ha.resumes x hx).elim (h.resumes x) id
  · have hcounter : ∀ c, t.total c = s.total c + es.count (.counter c) := by
      intro c
      rw [Pool.total, ha.counts, hdue (.counter c) (by simpa [Options.recorded] using hlevel),
        ← Nat.add_assoc]
      rfl
    have hold := h.counted hlevel
    refine ⟨fun source => ?_, ?_, ?_, fun hdetailed => ?_⟩
    · rw [hcounter, hold.claims, ha.returned]
    · have := hsum Worker.probes
      have := hold.thefts
      have := ha.thefts
      rw [hcounter, hcounter, hcounter]
      omega
    · have := hsum fun w => waitsAt w.loop
      have := hold.parks
      have := ha.parks
      rw [hcounter, hcounter]
      omega
    · have := hold.durations hdetailed
      rw [hcounter, ha.recorded, hdue .parkDuration (by simpa [Options.recorded] using hdetailed),
        ha.durations]
      omega

/-- `claimed_count_` is no part of the books of the queues. -/
theorem accounted_recount {r : QueueRun I} (h : Accounted r) (count : Nat) :
    Accounted (recount r count) := by
  obtain ⟨hwell, hglobal, hlocal⟩ := wellLinked_congr h.wellLinked
    { r.queues with claimedCount := count } rfl rfl rfl fun _ => rfl
  exact h.withQueues hwell hglobal hlocal

/-- A step of the loop counts what it leads to; what remains to be seen is what it does to the
queues and to the hands of the worker. -/
theorem ofLoop (h : Sound o s) (hw : s.workers[i]? = some w) (hpaid : w.owes = [])
    (hhelps : w.helps = []) {after : WorkerRun I} {run : QueueRun I} {executed cancelled : List I}
    (heven : Even w.loop after.pc (owed w.loop after))
    (hu : u = { w with
      loop := after.pc
      vars := after.vars
      task := begun after.record
      owes := (owed w.loop after).filter o.recorded })
    (haccounted : Accounted run)
    (hbooks : ∀ x, (u.loopHand.map (·.invoker)).count x + (executed ++ cancelled).count x +
        s.run.returnedInvokers.count x =
      (w.loopHand.map (·.invoker)).count x + s.ended.count x + run.returnedInvokers.count x)
    (hclaimed : run.queues.claimedCount = s.run.queues.claimedCount ∧
        u.loopHand.length = w.loopHand.length + (owed w.loop after).count .claimed ∨
      run.queues.claimedCount = s.run.queues.claimedCount - 1 ∧
        w.loopHand.length = u.loopHand.length + 1 ∧ (owed w.loop after).count .claimed = 0)
    (hreturned : ∀ source, run.returned.countP (·.source = source) =
      s.run.returned.countP (·.source = source) +
        (owed w.loop after).count (.counter (claimCounter source)))
    (hresumes : ∀ x ∈ cancelled, x ∈ s.cancelled ∨ TaskInvokerBase.isResumeSegment x = false)
    (htask : after.pc = .executing → ∃ task cancels,
      begun after.record = some (task, cancels) ∧ (cancels = true → isResume task = false)) :
    Sound o { s with
      run := run
      executed := executed
      cancelled := cancelled
      workers := s.workers.set i u } := by
  have hhands : ∀ v : Worker I, v.helps = [] → v.hands = v.loopHand := by
    intro v hv
    rw [Worker.hands, hv]
    rfl
  have hprobes : ∀ v : Worker I, v.helps = [] → v.probes = probesAt v.loop := by
    intro v hv
    rw [Worker.probes, hv, List.map_nil, List.sum_nil, Nat.zero_add]
  have huh : u.helps = [] := by rw [hu, ← hhelps]
  have hul : u.loop = after.pc := by rw [hu]
  exact h.act (w := w) (u := u) (owed w.loop after) {
    worker := hw
    paid := hpaid
    workers := rfl
    owes := by rw [hu]
    counts := rfl
    recorded := rfl
    gauge := rfl
    accounted := haccounted
    books := by
      rw [Worker.invokers, Worker.invokers, hhands u huh, hhands w hhelps]
      exact hbooks
    claimed := by
      rw [hhands u huh, hhands w hhelps]
      exact hclaimed
    returned := hreturned
    thefts := by
      rw [hprobes u huh, hprobes w hhelps, hul]
      exact heven.thefts
    parks := by
      rw [hul]
      exact heven.parks
    durations := heven.durations
    parked := by
      rw [hul]
      exact heven.parked
    outstanding := by
      rw [hprobes u huh, hul]
      exact heven.outstanding
    resumes := hresumes
    task := by
      rw [hul]
      intro hpc
      rw [hu]
      exact htask hpc
    depth := by
      rw [huh]
      exact Nat.zero_le _ }

theorem loopStep (h : Sound o s) (hw : s.workers[i]? = some w) (hpaid : w.owes = [])
    (hhelps : w.helps = []) {contended : Priority → Bool} {timedOut : Bool}
    (hs : s.loopStep o i contended timedOut w = some t) : Sound o t := by
  obtain ⟨after, hafter, rfl⟩ := Option.map_eq_some_iff.mp hs
  obtain ⟨heffect, heven⟩ := steps_of_step h.accounted rfl hafter
  have hfree : holds w.loop = false → w.loop ≠ .executing := by
    rintro hw hloop
    rw [hloop] at hw
    cases hw
  cases heffect with
  | claimed source c hplace hpc hrecord hrun haccounted =>
    -- a claim moves the invoker from the queues into the hand, and owes its counters
    have howed : owed w.loop after = claimEntries source := owed_claimed hpc hrecord
    have hany : after.record.any LoopEvent.isClaim = true := by
      rw [hrecord]
      rfl
    simp only [hany, if_true, hrun, finished_of_ne (hfree hplace), List.append_nil]
    refine h.ofLoop hw hpaid hhelps heven rfl ?_ (fun x => ?_) (.inl ⟨rfl, ?_⟩) (fun a => ?_)
      (fun x hx => .inl hx) ?_
    · exact accounted_recount (hrun ▸ haccounted) _
    · rw [loopHand_of_free hplace]
      simp only [Worker.loopHand, hpc, Pool.ended, recount, QueueRun.claim,
        QueueRun.returnedInvokers, List.map_append, List.count_append, List.map_cons, List.map_nil,
        List.count_nil]
      omega
    · rw [loopHand_of_free hplace, howed]
      simp only [Worker.loopHand, hpc]
      rfl
    · rw [howed, count_claimEntries]
      simp only [recount, QueueRun.claim, List.countP_append, List.countP_singleton,
        decide_eq_true_eq]
    · intro hexecuting
      cases hpc.symm.trans hexecuting
  | moved hplace hpc hrecord hrun =>
    -- nothing in hand before or after: at most a missed theft or a park to count
    have hnone : after.record.flatMap eventEntries = [] := by
      rcases hrecord with hrecord | ⟨queues, hrecord⟩ <;> rw [hrecord] <;> rfl
    have hany : after.record.any LoopEvent.isClaim = false := by
      rcases hrecord with hrecord | ⟨queues, hrecord⟩ <;> rw [hrecord] <;> rfl
    have howed : owed w.loop after = missedTheft w.loop after.pc ++ entered after.pc := by
      rw [owed, hnone, List.nil_append]
    simp only [hany, Bool.false_eq_true, if_false, hrun, finished_of_ne (hfree hplace),
      List.append_nil]
    refine h.ofLoop hw hpaid hhelps heven rfl h.accounted (fun x => ?_) (.inl ⟨rfl, ?_⟩)
      (fun source => ?_) (fun x hx => .inl hx) ?_
    · rw [loopHand_of_free hplace, loopHand_of_free (by exact hpc)]
      rfl
    · rw [loopHand_of_free hplace, loopHand_of_free (by exact hpc), howed,
        count_unclaimed _ _ (.inl rfl)]
      rfl
    · rw [howed, count_unclaimed _ _ (.inr ⟨source, rfl⟩), Nat.add_zero]
    · intro hexecuting
      rw [hexecuting] at hpc
      cases hpc
  | started task cancels hplace hpc hrecord hcancels hrun =>
    have hnone : after.record.flatMap eventEntries = [] := by
      rw [hrecord]
      cases cancels <;> rfl
    have hany : after.record.any LoopEvent.isClaim = false := by
      rw [hrecord]
      cases cancels <;> rfl
    have hbegun : begun after.record = some (task, cancels) := by
      rw [hrecord]
      cases cancels <;> rfl
    have howed : owed w.loop after = [] := by
      rw [owed, hnone, hpc, missedTheft_eq_nil fun _ _ h => by cases h]
      rfl
    have hloop : w.loop = .found task := hplace
    have hne : w.loop ≠ .executing := by
      rw [hloop]
      intro hexecuting
      cases hexecuting
    simp only [hany, Bool.false_eq_true, if_false, hrun, finished_of_ne hne, List.append_nil]
    refine h.ofLoop hw hpaid hhelps heven rfl h.accounted (fun x => ?_) (.inl ⟨rfl, ?_⟩)
      (fun source => ?_) (fun x hx => .inl hx) fun _ => ⟨task, cancels, hbegun, hcancels⟩
    · simp only [Worker.loopHand, hloop, hpc, hbegun]
      rfl
    · rw [howed]
      simp only [Worker.loopHand, hloop, hpc, hbegun]
      rfl
    · rw [howed]
      rfl
  | completed hplace hpc hrecord hrun =>
    have hloop : w.loop = .executing := hplace
    -- the invoker in hand is the one that was begun, and leaves with `complete_claim`
    obtain ⟨task, cancels, htask, hcancels⟩ := (h.workers i w hw).task hloop
    have hany : after.record.any LoopEvent.isClaim = false := by
      rw [hrecord]
      rfl
    have howed : owed w.loop after = [] := by
      rw [owed, hrecord, hpc, missedTheft_eq_nil fun _ _ h => by cases h]
      rfl
    have hfinished : ∀ c, w.finished c = if cancels = c then [task.invoker] else [] := by
      intro c
      simp only [Worker.finished, hloop, htask]
    simp only [hany, Bool.false_eq_true, if_false, hrun, hfinished]
    refine h.ofLoop hw hpaid hhelps heven rfl ?_ (fun x => ?_) (.inr ⟨rfl, ?_, ?_⟩)
      (fun source => ?_) (fun x hx => ?_) ?_
    · exact h.accounted.step
        (show QueueConservation.machine.next s.run .completeClaim = some _ from rfl)
    · simp only [Worker.loopHand, hloop, hpc, htask, Pool.ended, List.count_append]
      cases cancels <;> simp [QueueRun.returnedInvokers] <;> omega
    · simp only [Worker.loopHand, hloop, hpc, htask]
      rfl
    · rw [howed]
      rfl
    · rw [howed]
      rfl
    · rcases List.mem_append.mp hx with hx | hx
      · exact .inl hx
      · cases cancels with
        | false => cases hx
        | true =>
          obtain rfl := List.mem_singleton.mp hx
          exact .inr (hcancels rfl)
    · intro hexecuting
      cases hpc.symm.trans hexecuting

/-- A step of a helping loop: the loop below it does not move, and nothing is counted but claims
and thefts. -/
theorem ofHelp (h : Sound o s) (executed : List I) (hw : s.workers[i]? = some w)
    (hpaid : w.owes = [])
    {help : Helping I} {rest : List (Helping I)} (hhelps : w.helps = help :: rest)
    {pc : HelpPc I} {vars : HelpVariables} {run : QueueRun I}
    (haccounted : Accounted run)
    (hbooks : ∀ x, (({ help with pc := pc } : Helping I).hand.map (·.invoker)).count x +
        executed.count x + s.run.returnedInvokers.count x =
      (help.hand.map (·.invoker)).count x + s.executed.count x + run.returnedInvokers.count x)
    (hclaimed : run.queues.claimedCount = s.run.queues.claimedCount ∧
        ({ help with pc := pc } : Helping I).hand.length = help.hand.length + es.count .claimed ∨
      run.queues.claimedCount = s.run.queues.claimedCount - 1 ∧
        help.hand.length = ({ help with pc := pc } : Helping I).hand.length + 1 ∧
        es.count .claimed = 0)
    (hreturned : ∀ source, run.returned.countP (·.source = source) =
      s.run.returned.countP (·.source = source) + es.count (.counter (claimCounter source)))
    (hthefts : es.count (.counter .stealAttempts) + help.probes =
      es.count (.counter .stealSuccesses) + es.count (.counter .stealFailures) +
        ({ help with pc := pc } : Helping I).probes)
    (htried : es.count (.counter .stealAttempts) ≤ ({ help with pc := pc } : Helping I).probes)
    (hpark : ∀ e ∈ es, e.ofPark = false) :
    Sound o { s.advance o i w help rest pc vars es with run := run, executed := executed } := by
  have hok := h.workers i w hw
  have hnone : ∀ e, e.ofPark = true → es.count e = 0 := by
    intro e he
    refine List.count_eq_zero.mpr fun hmem => ?_
    rw [hpark e hmem] at he
    cases he
  refine h.act (w := w) es {
    worker := hw
    paid := hpaid
    workers := rfl
    owes := rfl
    counts := rfl
    recorded := rfl
    gauge := rfl
    accounted := haccounted
    books := fun x => ?_
    claimed := ?_
    returned := hreturned
    thefts := ?_
    parks := ?_
    durations := ?_
    parked := ?_
    outstanding := ⟨?_, ?_, ?_⟩
    resumes := fun x hx => .inl hx
    task := hok.task
    depth := ?_ }
  · have hx := hbooks x
    simp only [Worker.invokers, Worker.hands, hhelps, List.flatMap_cons, List.map_append,
      List.count_append, Pool.ended, Pool.advance]
    simp only [Worker.loopHand]
    omega
  · simp only [Worker.hands, hhelps, List.flatMap_cons, List.length_append, Worker.loopHand]
    rcases hclaimed with ⟨hcount, hown⟩ | ⟨hcount, hown, hzero⟩
    · exact .inl ⟨hcount, by omega⟩
    · exact .inr ⟨hcount, by omega, hzero⟩
  · simp only [Worker.probes, hhelps, List.map_cons, List.sum_cons]
    omega
  · rw [hnone _ rfl, hnone _ rfl]
  · rw [hnone _ rfl, hnone _ rfl]
  · rw [hnone _ rfl, hnone _ rfl]
  · exact htried.trans ((Nat.le_add_right ..).trans (Nat.le_add_right ..))
  · rw [hnone _ rfl]
    exact Nat.zero_le _
  · rw [hnone _ rfl]
    exact Nat.zero_le _
  · have := hok.depth
    rw [hhelps] at this
    exact this

/-- A helping loop has claimed a task. -/
theorem helpFound (h : Sound o s) (hw : s.workers[i]? = some w) (hpaid : w.owes = [])
    {help : Helping I} {rest : List (Helping I)} (hhelps : w.helps = help :: rest)
    (hfree : help.hand = []) {source : ClaimSource} {c : Claimed I} {vars : HelpVariables}
    (haccounted : Accounted (s.run.claim source (some c)))
    (hprobes : help.probes = (claimEntries source).count (.counter .stealSuccesses)) :
    Sound o (s.found o i w help rest source c vars) := by
  refine h.ofHelp s.executed hw hpaid hhelps (accounted_recount haccounted _)
    (fun x => ?_) (.inl ⟨rfl, ?_⟩) (fun a => ?_) ?_ ?_ ?_
  · rw [hfree]
    simp only [Helping.hand, recount, QueueRun.claim, QueueRun.returnedInvokers, List.map_append,
      List.count_append, List.map_cons, List.map_nil, List.count_nil]
    omega
  · rw [hfree]
    rfl
  · rw [count_claimEntries]
    simp only [recount, QueueRun.claim, List.countP_append, List.countP_singleton,
      decide_eq_true_eq]
  · rw [hprobes]
    cases source <;> rfl
  · cases source <;> exact Nat.zero_le _
  · intro e he
    cases source <;> simp only [claimEntries, claimCounter, List.mem_cons, List.not_mem_nil,
      or_false] at he <;> rcases he with rfl | rfl <;> rfl

/-- A helping loop moves on with what it holds, after it has counted at most thefts. -/
theorem helpMoved (h : Sound o s) (hw : s.workers[i]? = some w) (hpaid : w.owes = [])
    {help : Helping I} {rest : List (Helping I)} (hhelps : w.helps = help :: rest)
    {pc : HelpPc I} {vars : HelpVariables} {es : List Entry}
    (hhand : ({ help with pc := pc } : Helping I).hand = help.hand)
    (hes : ∀ e ∈ es, e = .counter .stealAttempts ∨ e = .counter .stealFailures)
    (hthefts : es.count (.counter .stealAttempts) + help.probes =
      es.count (.counter .stealFailures) + ({ help with pc := pc } : Helping I).probes)
    (htried : es.count (.counter .stealAttempts) ≤ ({ help with pc := pc } : Helping I).probes) :
    Sound o (s.advance o i w help rest pc vars es) := by
  have hnone : ∀ e, e ≠ .counter .stealAttempts → e ≠ .counter .stealFailures →
      es.count e = 0 :=
    fun e ha hf => List.count_eq_zero.mpr fun hmem => (hes e hmem).elim ha hf
  refine h.ofHelp s.executed hw hpaid hhelps h.accounted (fun x => ?_)
    (.inl ⟨rfl, ?_⟩) (fun source => ?_) ?_ htried fun e he => ?_
  · rw [hhand]
  · rw [hhand, hnone .claimed nofun nofun, Nat.add_zero]
  · rw [hnone, Nat.add_zero]
    · cases source <;> nofun
    · cases source <;> nofun
  · rw [hnone (.counter .stealSuccesses) nofun nofun, hthefts, Nat.zero_add]
  · rcases hes e he with rfl | rfl <;> rfl

omit [DecidableEq I] [TaskInvokerBase I] in
theorem count_probe (victims : List Nat) (help : Helping I) :
    (probe victims).count (.counter .stealAttempts) =
      ({ help with pc := .stealing victims } : Helping I).probes := by
  cases victims <;> rfl

theorem mem_probe {victims : List Nat} (he : e ∈ probe victims) : e = .counter .stealAttempts := by
  unfold probe at he
  split at he
  · cases he
  · exact List.mem_singleton.mp he

theorem helpStep (h : Sound o s) (hw : s.workers[i]? = some w) (hpaid : w.owes = [])
    {help : Helping I} {rest : List (Helping I)} (hhelps : w.helps = help :: rest)
    {contended : Priority → Bool} (hs : s.helpStep o i contended w help rest = some t) :
    Sound o t := by
  have hmoved : ∀ {pc : HelpPc I} {vars : HelpVariables},
      ({ help with pc := pc } : Helping I).hand = help.hand →
      help.probes = ({ help with pc := pc } : Helping I).probes →
      Sound o (s.advance o i w help rest pc vars []) := by
    intro pc vars hhand hprobes
    refine h.helpMoved hw hpaid hhelps hhand nofun ?_ (Nat.zero_le _)
    rw [hprobes]
    rfl
  unfold Pool.helpStep at hs
  have hplace : ∀ pc, help.pc = pc → help.hand = ({ help with pc := pc } : Helping I).hand ∧
      help.probes = ({ help with pc := pc } : Helping I).probes := by
    rintro pc rfl
    exact ⟨rfl, rfl⟩
  cases hpc : help.pc with
  | top | blocked =>
    obtain ⟨hhand, hprobes⟩ := hplace _ hpc
    simp only [hpc] at hs
    cases hs
    exact hmoved hhand.symm hprobes
  | found task =>
    obtain ⟨hhand, hprobes⟩ := hplace _ hpc
    simp only [hpc] at hs
    cases hs
    exact hmoved hhand.symm hprobes
  | claimLocal =>
    obtain ⟨hhand, hprobes⟩ := hplace _ hpc
    simp only [hpc] at hs
    split at hs
    · rename_i c hc
      cases hs
      exact h.helpFound hw hpaid hhelps hhand (accounted_claimLocal h.accounted hc) hprobes
    · cases hs
      exact hmoved hhand.symm hprobes
  | claimGlobal =>
    obtain ⟨hhand, hprobes⟩ := hplace _ hpc
    simp only [hpc] at hs
    split at hs
    · -- stopped, or in immediate mode: only thefts are left
      cases hs
      exact hmoved hhand.symm hprobes
    · split at hs
      · rename_i c bursts hc
        cases hs
        exact h.helpFound hw hpaid hhelps hhand (accounted_claimGlobal h.accounted hc) hprobes
      · cases hs
        exact hmoved hhand.symm hprobes
  | sampling =>
    obtain ⟨hhand, hprobes⟩ := hplace _ hpc
    simp only [hpc, Option.map_eq_some_iff] at hs
    obtain ⟨⟨victims, random⟩, -, rfl⟩ := hs
    -- the sample owes a probe if it has a victim, and no failure yet
    refine h.helpMoved hw hpaid hhelps hhand.symm (fun e he => .inl (mem_probe he)) ?_
      (count_probe victims help).le
    have hfailures : (probe victims).count (.counter .stealFailures) = 0 :=
      List.count_eq_zero.mpr fun hmem => by cases mem_probe hmem
    rw [hfailures, hprobes, count_probe victims help, Nat.zero_add]
    rfl
  | stealing victims =>
    cases victims with
    | nil =>
      obtain ⟨hhand, hprobes⟩ := hplace _ hpc
      simp only [hpc] at hs
      cases hs
      exact hmoved hhand.symm hprobes
    | cons victim victims =>
      obtain ⟨hhand, hprobes⟩ := hplace _ hpc
      simp only [hpc] at hs
      split at hs
      · rename_i c hc
        cases hs
        exact h.helpFound hw hpaid hhelps hhand (accounted_steal h.accounted hc) hprobes
      · cases hs
        -- a failed theft owes its counter, and the next victim a probe
        refine h.helpMoved hw hpaid hhelps hhand.symm (fun e he => ?_) ?_
          (count_probe victims help).le
        · rcases List.mem_cons.mp he with rfl | he
          · exact .inr rfl
          · exact .inl (mem_probe he)
        · have hfailures : (probe victims).count (.counter .stealFailures) = 0 :=
            List.count_eq_zero.mpr fun hmem => by cases mem_probe hmem
          rw [hprobes, List.count_cons, List.count_cons, hfailures, count_probe victims help]
          exact Nat.add_comm ..
  | executing task =>
    obtain ⟨hhand, hprobes⟩ := hplace _ hpc
    simp only [hpc] at hs
    cases hs
    have hcompleted : QueueConservation.machine.next s.run .completeClaim =
      some { s.run with queues := s.run.queues.completeClaim } := rfl
    -- `complete_claim`: the invoker leaves the hand for the executed ones
    refine h.ofHelp _ hw hpaid hhelps (h.accounted.step hcompleted)
      (fun x => ?_) (.inr ⟨rfl, ?_, rfl⟩) (fun _ => rfl) ?_ (Nat.zero_le _) nofun
    · rw [hhand, List.count_append]
      simp only [Helping.hand, List.map_nil, List.map_cons, List.count_nil,
        QueueRun.returnedInvokers]
      omega
    · rw [hhand]
      rfl
    · rw [hprobes]
      rfl

/-- The code of an invoker begins a wait, or comes back from one: the worker holds what it held. -/
theorem rest (h : Sound o s) (hw : s.workers[i]? = some w) (hpaid : w.owes = [])
    {helps : List (Helping I)}
    (hhands : helps.flatMap Helping.hand = w.helps.flatMap Helping.hand)
    (hprobes : (helps.map Helping.probes).sum = (w.helps.map Helping.probes).sum)
    (hdepth : helps.length ≤ o.maxHelpingDepth) :
    Sound o { s with workers := s.workers.set i { w with helps := helps } } := by
  have hown : ({ w with helps := helps } : Worker I).hands = w.hands := by
    rw [Worker.hands, Worker.hands, hhands]
    rfl
  refine h.act (w := w) [] {
    worker := hw
    paid := hpaid
    workers := rfl
    owes := hpaid
    counts := rfl
    recorded := rfl
    gauge := rfl
    accounted := h.accounted
    books := fun x => ?_
    claimed := .inl ⟨rfl, ?_⟩
    returned := fun _ => rfl
    thefts := ?_
    parks := rfl
    durations := rfl
    parked := rfl
    outstanding := .nil
    resumes := fun x hx => .inl hx
    task := (h.workers i w hw).task
    depth := hdepth }
  · rw [Worker.invokers, Worker.invokers, hown]
    rfl
  · rw [hown]
    rfl
  · rw [Worker.probes, Worker.probes, hprobes]
    rfl

theorem wait (h : Sound o s) (hw : s.workers[i]? = some w) {kind : WaitKind}
    (hs : s.wait o i kind w = some t) : Sound o t := by
  unfold Pool.wait at hs
  split at hs
  · rename_i hcode
    split at hs
    · cases hs
      exact h
    · rename_i hdepth
      cases hs
      exact h.rest hw hcode.2 rfl (Nat.zero_add _) (Nat.lt_of_not_le hdepth)
  · cases hs

theorem leave (h : Sound o s) (hw : s.workers[i]? = some w) (hs : s.leave i w = some t) :
    Sound o t := by
  unfold Pool.leave at hs
  split at hs
  · rename_i kind rest hhelps hpaid
    cases hs
    refine h.rest hw hpaid ?_ ?_ ?_
    · rw [hhelps]
      rfl
    · rw [hhelps]
      exact (Nat.zero_add _).symm
    · have := (h.workers i w hw).depth
      rw [hhelps] at this
      exact Nat.le_of_succ_le this
  · cases hs

/-- One update is made: what it adds is what was left. -/
theorem count (h : Sound o s) (hw : s.workers[i]? = some w) (hs : s.count i w = some t) :
    Sound o t := by
  unfold Pool.count at hs
  split at hs
  · cases hs
  rename_i e owes howes
  have ht := Option.some.inj hs
  have htw : t.workers = s.workers.set i { w with owes := owes } := ht ▸ rfl
  have htrun : t.run = (s.pay e).run := ht ▸ rfl
  have hended : t.executed = s.executed ∧ t.cancelled = s.cancelled := by
    rw [← ht]
    cases e <;> exact ⟨rfl, rfl⟩
  have hcounts : ∀ c, t.counts c = s.counts c + (if e = .counter c then 1 else 0) := by
    intro c
    rw [← ht]
    cases e with
    | claimed | parkDuration | parked | unparked => rfl
    | counter d =>
      by_cases hcd : d = c
      · subst hcd
        rw [if_pos rfl]
        exact Function.update_self ..
      · rw [if_neg fun heq => hcd (Entry.counter.inj heq)]
        exact Function.update_of_ne (Ne.symm hcd) ..
  have hrecorded : t.parkDurations = s.parkDurations + (if e = .parkDuration then 1 else 0) := by
    rw [← ht]
    cases e <;> rfl
  have hqueues : Accounted t.run ∧ t.run.returned = s.run.returned ∧
      t.run.queues.claimedCount =
        s.run.queues.claimedCount + (if e = .claimed then 1 else 0) := by
    rw [htrun]
    cases e with
    | claimed => exact ⟨accounted_recount h.accounted _, rfl, rfl⟩
    | counter | parkDuration | parked | unparked => exact ⟨h.accounted, rfl, rfl⟩
  obtain ⟨haccounted, hreturned, hclaimed⟩ := hqueues
  have hdue : ∀ a, t.due a + (if e = a then 1 else 0) = s.due a := by
    intro a
    have hset := due_set (e := a) hw htw
    rw [howes, List.count_cons] at hset
    simp only [beq_iff_eq] at hset
    omega
  have hgauge : t.parkedWorkers + (if e = .unparked then 1 else 0) =
      s.parkedWorkers + (if e = .parked then 1 else 0) := by
    rw [← ht]
    cases e with
    | claimed | counter | parkDuration | parked => rfl
    | unparked =>
      -- the workers that are inside have been counted, or will be
      have hle : s.due .parked ≤ (s.workers.map fun w => parkedAt w.loop).sum :=
        due_le h.workers fun _ hok => hok.outstanding.parked
      have hpositive := hdue .unparked
      rw [if_pos rfl] at hpositive
      have := h.parked
      exact Nat.sub_add_cancel (by omega)
  have hsum : ∀ f : Worker I → Nat, f { w with owes := owes } = f w →
      (t.workers.map f).sum = (s.workers.map f).sum := by
    intro f hf
    have := Threads.sum_set f hw { w with owes := owes }
    rw [htw]
    omega
  have hworkers : Each (fun _ w => WorkerOk o w) t.workers := by
    have hok := h.workers i w hw
    have hless : List.Sublist owes w.owes := by
      rw [howes]
      exact List.sublist_cons_self ..
    rw [htw]
    exact h.workers.set
      ⟨(hless.count_le _).trans hok.claimed, hok.outstanding.sublist hless, hok.task, hok.depth⟩
      fun _ _ _ _ hj => hj
  refine ⟨haccounted, ?_, ?_, ?_, fun x hx => ?_, hworkers, fun hlevel => ?_⟩
  · rw [htw, Pool.ended, hended.1, hended.2, QueueRun.returnedInvokers, hreturned]
    exact h.books.acquire hw fun _ => rfl
  · have := hdue .claimed
    have := h.claimed
    rw [hsum (·.hands.length) rfl, hclaimed]
    omega
  · have := hdue .parked
    have := hdue .unparked
    have := h.parked
    rw [hsum (fun w => parkedAt w.loop) rfl]
    omega
  · rw [hended.2] at hx
    exact h.resumes x hx
  · have hcounter : ∀ c, t.total c = s.total c := by
      intro c
      have := hdue (.counter c)
      rw [Pool.total, Pool.total, hcounts]
      omega
    have hold := h.counted hlevel
    refine ⟨fun source => ?_, ?_, ?_, fun hdetailed => ?_⟩
    · rw [hcounter, hreturned]
      exact hold.claims source
    · rw [hcounter, hcounter, hcounter, hsum Worker.probes rfl]
      exact hold.thefts
    · rw [hcounter, hcounter, hsum (fun w => waitsAt w.loop) rfl]
      exact hold.parks
    · have := hdue .parkDuration
      have := hold.durations hdetailed
      rw [hcounter, hrecorded]
      omega

/-- What is left of the queues to others leaves the claims as they are. -/
theorem unclaimed_of_next {r r' : QueueRun I} {op : QueueOp I} (hop : ofWorkers op = false)
    (hs : r.next op = some r') :
    r'.returned = r.returned ∧ r'.queues.claimedCount = r.queues.claimedCount := by
  cases op with
  | publish task isExternal useLocalQueue worker =>
    simp only [QueueRun.next] at hs
    split at hs <;> cases hs
    exact ⟨rfl, claimedCount_publish ..⟩
  | cancelUnstarted =>
    cases hs
    exact ⟨rfl, claimedCount_cancelUnstarted _⟩
  | ringRoom worker band room =>
    cases hs
    exact ⟨rfl, rfl⟩
  | claimLocal | claimGlobal | steal | completeClaim => cases hop

/-- Others publish or sweep. -/
theorem outside (h : Sound o s) {op : QueueOp I} (hop : ofWorkers op = false) {run : QueueRun I}
    (hs : s.run.next op = some run) : Sound o { s with run := run } := by
  obtain ⟨hreturned, hcount⟩ := unclaimed_of_next hop hs
  refine ⟨h.accounted.step hs, ?_, ?_, h.parked, h.resumes, h.workers, fun hlevel => ?_⟩
  · rw [QueueRun.returnedInvokers, hreturned]
    exact h.books
  · rw [hcount]
    exact h.claimed
  · have hold := h.counted hlevel
    refine ⟨fun source => ?_, hold.thefts, hold.parks, hold.durations⟩
    rw [hreturned]
    exact hold.claims source

theorem step (h : Sound o s) {label : Label I} (hs : next o s label = some t) : Sound o t := by
  cases label with
  | worker i contended timedOut =>
    obtain ⟨w, hw, hs⟩ := Option.bind_eq_some_iff.mp hs
    unfold Pool.workerStep at hs
    split at hs
    · rename_i hpaid
      cases hhelps : w.helps with
      | nil =>
        rw [hhelps] at hs
        exact h.loopStep hw hpaid hhelps hs
      | cons help rest =>
        rw [hhelps] at hs
        exact h.helpStep hw hpaid hhelps hs
    · cases hs
  | count i =>
    obtain ⟨w, hw, hs⟩ := Option.bind_eq_some_iff.mp hs
    exact h.count hw hs
  | wait i kind =>
    obtain ⟨w, hw, hs⟩ := Option.bind_eq_some_iff.mp hs
    exact h.wait hw hs
  | leave i =>
    obtain ⟨w, hw, hs⟩ := Option.bind_eq_some_iff.mp hs
    exact h.leave hw hs
  | queues op =>
    simp only [next] at hs
    split at hs
    · cases hs
    · rename_i hop
      obtain ⟨run, hrun, rfl⟩ := Option.map_eq_some_iff.mp hs
      exact h.outside (by simpa using hop) hrun
  | share shared =>
    cases hs
    exact ⟨h.accounted, h.books, h.claimed, h.parked, h.resumes, h.workers, fun hlevel =>
      have hold := h.counted hlevel
      ⟨hold.claims, hold.thefts, hold.parks, hold.durations⟩⟩

/-- In front of the startup barrier the workers hold nothing and have counted nothing. -/
theorem initial (o : Options) (runtimeId : UInt64) (backend : LocalDequeBackend) :
    Sound o (started o runtimeId backend : Pool I) := by
  have hidle : ∀ w ∈ (started o runtimeId backend : Pool I).workers,
      w.loop = .startup ∧ w.helps = [] ∧ w.owes = [] := by
    intro w hw
    obtain ⟨j, -, rfl⟩ := List.mem_map.mp hw
    exact ⟨rfl, rfl, rfl⟩
  have hzero : ∀ f : Worker I → Nat,
      (∀ w : Worker I, w.loop = .startup → w.helps = [] → w.owes = [] → f w = 0) →
      ((started o runtimeId backend : Pool I).workers.map f).sum = 0 := by
    intro f hf
    refine List.sum_eq_zero fun n hn => ?_
    obtain ⟨w, hw, rfl⟩ := List.mem_map.mp hn
    obtain ⟨hloop, hhelps, howes⟩ := hidle w hw
    exact hf w hloop hhelps howes
  have hhands : ∀ w : Worker I, w.loop = .startup → w.helps = [] → w.hands = [] := by
    intro w hloop hhelps
    rw [Worker.hands, hhelps, Worker.loopHand, hloop]
    rfl
  have hdue : ∀ e, (started o runtimeId backend : Pool I).due e = 0 :=
    fun e => hzero _ fun w _ _ howes => by
      rw [howes]
      rfl
  have htotal : ∀ c, (started o runtimeId backend : Pool I).total c = 0 :=
    fun c => (Nat.zero_add _).trans (hdue (.counter c))
  refine ⟨.init ⟨backend, o.workerCount, rfl⟩, fun x => ?_, ?_, ?_,
    fun x hx => absurd hx List.not_mem_nil, fun j w hj => ?_,
    fun _ => ⟨fun source => ?_, ?_, ?_, fun _ => ?_⟩⟩
  · refine hzero _ fun w hloop hhelps _ => ?_
    rw [Worker.invokers, hhands w hloop hhelps]
    rfl
  · rw [hdue, hzero (·.hands.length) fun w hloop hhelps _ => by rw [hhands w hloop hhelps]; rfl]
    rfl
  · rw [hdue, hdue, hzero (fun w => parkedAt w.loop) fun w hloop _ _ => by rw [hloop]; rfl]
    rfl
  · obtain ⟨hloop, hhelps, howes⟩ := hidle w (List.mem_of_getElem? hj)
    refine ⟨?_, ?_, fun hexecuting => ?_, ?_⟩
    · rw [howes]
      exact Nat.zero_le _
    · rw [howes]
      exact .nil
    · cases hloop.symm.trans hexecuting
    · rw [hhelps]
      exact Nat.zero_le _
  · exact htotal _
  · rw [htotal, htotal, htotal, hzero Worker.probes fun w hloop hhelps _ => by
      rw [Worker.probes, hloop, hhelps]; rfl]
  · rw [htotal, htotal, hzero (fun w => waitsAt w.loop) fun w hloop _ _ => by rw [hloop]; rfl]
  · rw [hdue, htotal]
    rfl

end Sound

theorem sound_of_reachable {runtimeId : UInt64} (h : (machine o runtimeId).Reachable s) :
    Sound o s :=
  h.invariant (Sound o) (fun s hs => by
    obtain ⟨backend, rfl⟩ := hs
    exact .initial o runtimeId backend) fun _ _ _ hsound _ hs => hsound.step hs

/-! ## Where the invokers are -/

def Pool.inHand (s : Pool I) : List I := s.workers.flatMap Worker.invokers

end

/-! ## What the counters show -/

section
variable [DecidableEq I] [TaskInvokerBase I] {o : Options} {s : Pool I}

structure CountersKept (o : Options) (s : Pool I) : Prop where
  claims : ∀ source, s.total (claimCounter source) = s.run.returned.countP (·.source = source)
  thefts : s.total .stealAttempts = s.total .stealSuccesses + s.total .stealFailures +
    (s.workers.map Worker.probes).sum
  parks : s.total .workerParks = s.total .workerWakes +
    (s.workers.map fun w => waitsAt w.loop).sum
  durations : o.metricsLevel = .detailed →
    s.parkDurations + s.due .parkDuration = s.total .workerWakes
  /-- No outcome is counted before its attempt, and no wake before its park. -/
  outcomes : s.counts .stealSuccesses + s.counts .stealFailures ≤ s.counts .stealAttempts
  wakes : s.counts .workerWakes ≤ s.counts .workerParks

/-- **The workers' counters**, where the level has them counted; `parked_workers` is kept at
every level. -/
theorem counters_kept {runtimeId : UInt64} (h : (machine o runtimeId).Reachable s) :
    (o.metricsLevel ≠ .off → CountersKept o s) ∧
      s.parkedWorkers + s.due .parked =
        (s.workers.map fun w => parkedAt w.loop).sum + s.due .unparked := by
  have hsound := sound_of_reachable h
  refine ⟨fun hlevel => ?_, hsound.parked⟩
  obtain ⟨hclaims, hthefts, hparks, hdurations⟩ := hsound.counted hlevel
  have hattempts : s.due (.counter .stealAttempts) ≤ (s.workers.map Worker.probes).sum :=
    due_le hsound.workers fun _ hok => hok.outstanding.thefts
  have hwaits : s.due (.counter .workerParks) ≤ (s.workers.map fun w => waitsAt w.loop).sum :=
    due_le hsound.workers fun _ hok => hok.outstanding.parks
  refine ⟨hclaims, hthefts, hparks, hdurations, ?_, ?_⟩
  · simp only [Pool.total] at hthefts
    omega
  · simp only [Pool.total] at hparks
    omega

end

def pair : Options where
  workerCount := 2
  localBurstLimit := 1
  localBurstLimit_pos := WorkerLoop.loneWorker.localBurstLimit_pos
  stealProbeLimit := 8
  maxHelpingDepth := 1
  metricsLevel := .detailed

/-- Worker 0 executes a task that waits, and while it waits another one that would like to wait
too; worker 1 claims a third task. -/
def helping : List (Label Invoker) :=
  let worker (i : Nat) := .worker i (fun _ => false) false
  [.share { startupDone := true }, .queues (.publish ⟨1, false, .normal, none⟩ false true 0),
    .queues (.publish ⟨2, false, .high, none⟩ false true 0),
    .queues (.publish ⟨3, false, .normal, none⟩ true false 0),
    worker 0, worker 0, .count 0, .count 0, worker 0, .wait 0 .task, worker 0, worker 0, .count 0,
    .count 0, worker 0, .wait 0 .graphRun, worker 1, worker 1, worker 1, .count 1]

/-- Afterwards worker 1 cancels its task in an immediate shutdown, tries to steal in vain and
parks; worker 0 comes back from its wait. -/
def parking : List (Label Invoker) :=
  let worker (i : Nat) := .worker i (fun _ => false) false
  [.count 1,
    .share { startupDone := true, stopRequested := true, status := { shutdownMode := .immediate } },
    worker 1, worker 1, worker 1, worker 1, worker 1, .count 1, worker 1, .count 1, worker 1,
    .count 1, worker 1, worker 1, .count 1, worker 0, .leave 0, worker 0]

theorem counters_kept_parking :
    ∃ s : Pool Invoker,
      (machine pair 1).run (started pair 1 .locked) (helping ++ parking) = some s ∧
      [ShardCounter.localClaims, .globalClaims, .stealAttempts, .stealFailures,
        .workerParks].map s.counts = [2, 1, 1, 1, 1] ∧
      s.parkedWorkers = 1 ∧ CountersKept pair s := by
  obtain ⟨s, hs⟩ := Option.isSome_iff_exists.mp
    (show ((machine pair 1).run (started pair 1 .locked) (helping ++ parking)).isSome by decide)
  have hend : ((machine pair 1).run (started pair 1 .locked) (helping ++ parking)).map (fun s =>
      ([ShardCounter.localClaims, .globalClaims, .stealAttempts, .stealFailures,
        .workerParks].map s.counts, s.parkedWorkers)) = some ([2, 1, 1, 1, 1], 1) := by decide
  rw [hs] at hend
  obtain ⟨hcounts, hparked⟩ := Prod.mk.inj (Option.some.inj hend)
  exact ⟨s, hs, hcounts, hparked,
    (counters_kept (Machine.reachable_of_run ⟨.locked, rfl⟩ hs)).1 (by decide)⟩

end
end WorkerPool
end AstraScheduler
