import AstraScheduler.DrainExit

/-! # What the last worker leaves behind

Once the last worker has left, only threads outside the pool move.  So a fact about a
runtime without workers has to hold when the last of them leaves, by its last read, and
to survive what the others can still do (`holds_afterExit`).

The exit check counts queued invokers, claims and timers.  A coroutine that awaits a task
or a graph run is in none of them, and neither is a submission between its admission and
its publication: both are left behind by a worker that reads on too early
(`startedWorkDone_of_reachable`, `publishedWorkDone_of_reachable`). -/

namespace AstraScheduler
namespace Drain

open Transition (Machine)
open Transition.Machine (ReachableUnder)
open HelpingWait (Segment)

variable {n : Nat} {own : Impl} {s s' : Runtime n}

/-! ## Every state -/

/-- Everything is in order, and every task in its place. -/
structure Accounted (own : Impl) (s : Runtime n) : Prop where
  sound : Sound s
  orderly : Orderly s
  placed : ∀ t, Placed own s t

theorem accounted_started (own : Impl) (n : Nat) : Accounted own (started own n) where
  sound := sound_started own n
  orderly := orderly_started own n
  placed := fun _ => {
    ready := by simp [started]
    running := by simp [started]
    suspended := by simp [started]
    accepted := by simp [started] }

theorem Accounted.step (h : Accounted own s) {a : Label n} (hok : KeepsSlot s a)
    (hs : step own s a = some s') : Accounted own s' where
  sound := h.sound.step hs
  orderly := h.orderly.step h.sound hs
  placed := by
    cases a with
    | outside e => exact placed_outsideStep h.placed hok hs
    | worker w e => exact placed_workerStep h.sound h.placed hok hs

theorem accounted_of_reachable (h : (machine own n).ReachableUnder KeepsSlot s) :
    Accounted own s := by
  refine h.invariant (Accounted own) ?_ fun s a s' hinv hok hs => hinv.step hok hs
  rintro s ⟨_, rfl⟩
  exact accounted_started own n

/-! ## The last worker -/

/-- Worker `w` is about to leave, and every other worker has left. -/
def LastLeave (s : Runtime n) (w : Fin n) : Prop :=
  Leaves s (s.workers w).loc ∧ ∀ v, v ≠ w → (s.workers v).loc = .exited

instance decidableLeaves (s : Runtime n) : ∀ loc, Decidable (Leaves s loc)
  | .locked => decidable_of_iff (s.stopRequested ∧ s.status.state = .stopped)
      ⟨fun h => .stopped h.1 h.2, fun h => match h with | .stopped h1 h2 => ⟨h1, h2⟩⟩
  | .noWork true => decidable_of_iff (s.claimedCount = 0)
      ⟨.immediate, fun h => match h with | .immediate h => h⟩
  | .noTimers => decidable_of_iff (s.claimedCount = 0)
      ⟨.graceful, fun h => match h with | .graceful h => h⟩
  | .loop | .claimed _ | .checking _ | .noWork false | .exited => .isFalse nofun

instance (s : Runtime n) (w : Fin n) : Decidable (LastLeave s w) :=
  inferInstanceAs (Decidable (_ ∧ _))

theorem LastLeave.out {w : Fin n} (h : LastLeave s w) (v : Fin n) : (s.workers v).loc.out := by
  by_cases hv : v = w
  · rw [hv]
    exact h.1.out.1
  · rw [h.2 v hv]
    rfl

/-- The last worker to leave does so by its exit check. -/
theorem lastLeave_of_step (h : Accounted own s) {a : Label n} (hs : step own s a = some s')
    (hbefore : ¬ s.AllExited) (hafter : s'.AllExited) :
    ∃ w, a = .worker w .check ∧ LastLeave s w ∧ s' = leave s w := by
  cases a with
  | outside e =>
    have hworkers := (outside_outsideStep h.orderly.mode hs).workers
    exact absurd (fun w => by rw [← hworkers]; exact hafter w) hbefore
  | worker w e =>
    have hself : (s'.workers w).loc = .exited := hafter w
    by_cases hlock : e = .lock
    · subst hlock
      simp only [Drain.step, workerStep, Option.ite_none_right_eq_some, Option.some.injEq] at hs
      obtain ⟨_, rfl⟩ := hs
      have hloc : ((s.setWorker w { s.workers w with loc := .locked }).workers w).loc = .exited :=
        hself
      simp at hloc
    · by_cases hcheck : e = .check
      · subst hcheck
        rcases check_cases hs with ⟨loc, hadv, rfl⟩ | ⟨_, _, rfl⟩ | ⟨hleaves, rfl⟩
        · rw [workers_setWorker_same] at hself
          exact absurd hself hadv.out.2.2.2
        · have hloc : ((s.setWorker w { s.workers w with loc := .loop }).workers w).loc = .exited :=
            hself
          simp at hloc
        · refine ⟨w, rfl, ⟨hleaves, fun v hv => ?_⟩, rfl⟩
          rw [← hafter v]
          exact (congrArg Worker.loc (workers_setWorker_of_ne hv)).symm
      · have hin := inside_workerStep h.orderly.mode (h.sound.workers w) hs hlock hcheck
        have hout := hin.after
        simp [hself, WorkerLoc.out] at hout

/-- A worker that has left takes no step. -/
theorem exited_not_step (h : Accounted own s) {w : Fin n} (hloc : (s.workers w).loc = .exited)
    (e : WorkerStep n) : workerStep own s w e ≠ some s' := by
  intro hs
  by_cases hlock : e = .lock
  · subst hlock
    simp [workerStep, Worker.topLevel, hloc] at hs
  · by_cases hcheck : e = .check
    · subst hcheck
      simp [workerStep, check, hloc] at hs
    · have hin := (inside_workerStep h.orderly.mode (h.sound.workers w) hs hlock hcheck).before
      simp [hloc, WorkerLoc.out] at hin

/-- **The exit rule**: what holds when the last worker leaves, and is kept by the steps
of the threads outside from then on, holds whenever no worker is left. -/
theorem holds_afterExit {ok : Runtime n → Label n → Prop} (P : Runtime n → Prop)
    (hkeeps : ∀ s a, ok s a → KeepsSlot s a)
    (hleave : ∀ s w, Accounted own s → LastLeave s w → ok s (.worker w .check) → P (leave s w))
    (houtside : ∀ s e s', Accounted own s → s.AllExited → P s → ok s (.outside e) →
      outsideStep own s e = some s' → P s')
    (h : (machine own n).ReachableUnder ok s) : s.AllExited → P s := by
  refine And.right (h.invariant (fun s => Accounted own s ∧ (s.AllExited → P s)) ?_ ?_)
  · rintro s ⟨hn, rfl⟩
    refine ⟨accounted_started own n, fun hall => ?_⟩
    have hexited := hall ⟨0, hn⟩
    simp [started] at hexited
  · rintro s a s' ⟨hacc, hP⟩ hok hs
    refine ⟨hacc.step (hkeeps s a hok) hs, fun hafter => ?_⟩
    by_cases hbefore : s.AllExited
    · cases a with
      | outside e => exact houtside s e s' hacc hbefore (hP hbefore) hok hs
      | worker w e => exact absurd hs (exited_not_step hacc (hbefore w) e)
    · obtain ⟨w, rfl, hlast, rfl⟩ := lastLeave_of_step hacc hs hbefore hafter
      exact hleave s w hacc hlast hok

/-! ## What a runtime without workers holds -/

theorem running_of_out {x : Worker} (h : WorkerOk x) (hout : x.loc.out) : x.running = [] := by
  simp [Worker.running, h.out hout]

theorem not_carries_of_out {x : Worker} (h : WorkerOk x) (hout : x.loc.out) (g : Segment) :
    ¬ Carries own x g := by
  have hframes := h.out hout
  rintro (hc | hc | ⟨_, hc⟩)
  · exact WorkerLoc.ne_claimed hout g hc
  · rw [Holds, (h.empty hframes).1] at hc
    cases hc.1
  · rw [(h.not_busy (.inl hframes)).1] at hc
    cases hc

/-- Without workers a segment is in the global queues or with a thread outside. -/
theorem Present.of_out {g : Segment} (h : Present own s g) (hsound : Sound s)
    (hout : ∀ v, (s.workers v).loc.out) (hlocals : ∀ v, s.locals v = []) :
    g ∈ s.global ∨ g.resume = false ∧ g.task ∈ s.inFlight ∨ g.resume = true ∧ g.task ∈ s.hands := by
  rcases h with hg | ⟨v, hg⟩ | ⟨v, hc⟩ | hin
  · exact .inl hg
  · simp [hlocals v] at hg
  · exact absurd hc (not_carries_of_out (hsound.workers v) (hout v) g)
  · exact .inr hin

theorem leave_allExited {w : Fin n} (hlast : LastLeave s w) : (leave s w).AllExited := by
  intro v
  by_cases hv : v = w
  · subst hv
    exact congrArg Worker.loc workers_setWorker_same
  · exact (congrArg Worker.loc (workers_setWorker_of_ne hv)).trans (hlast.2 v hv)

/-- The last worker leaves nothing in the local queues, and no timer in Graceful mode. -/
theorem Accounted.lastLeave (h : Accounted own s) {w : Fin n} (hlast : LastLeave s w) :
    (∀ v, s.locals v = []) ∧ (s.status.shutdownMode ≠ .immediate → s.timers = []) :=
  (h.orderly.leave hlast.1).drained (leave_allExited hlast)

/-- Nobody has joined the workers before the last of them leaves. -/
theorem Accounted.not_joined (h : Accounted own s) {w : Fin n} (hlast : LastLeave s w) :
    s.joined = none := by
  cases hj : s.joined with
  | none => rfl
  | some mode => exact absurd ((h.orderly.joined mode hj).1 w) hlast.1.out.2

/-- Nobody leaves before the shutdown is requested. -/
theorem Accounted.left (h : Accounted own s) {w : Fin n} (hlast : LastLeave s w) :
    s.status.state ≠ .running := by
  have hstop : s.stopRequested :=
    (h.orderly.leave hlast.1).past w (by rw [leave_allExited hlast w]; rfl)
  rcases h.orderly.left hstop with hleft | ⟨v, hv⟩
  · exact hleft
  · -- a handoff is made by task code, and no worker runs any
    have hloc := ((h.sound.workers v).busy (.inr hv)).1
    have hout := hlast.out v
    simp [hloc, WorkerLoc.out] at hout

/-- Threads outside start no task and suspend none. -/
theorem tasks_outsideStep {e : OutsideStep} (hs : outsideStep own s e = some s') (t : TaskId) :
    s'.tasks t = s.tasks t ∨ (e = .acquire t ∧ s'.tasks t = some .ready) ∨
      s'.tasks t = some .cancelled := by
  cases e with
  | acquire u =>
    simp only [outsideStep, Option.ite_none_right_eq_some, Option.some.injEq] at hs
    obtain ⟨_, rfl⟩ := hs
    by_cases ht : t = u
    · subst ht
      exact .inr (.inl ⟨rfl, by simp [Runtime.setTask]⟩)
    · exact .inl (by simp [Runtime.setTask, ht])
  | cancel u =>
    simp only [outsideStep, Option.some.injEq] at hs
    subst hs
    simp only [requestCancel]
    split
    · by_cases ht : t = u
      · exact .inr (.inr (by simp [ht]))
      · exact .inl (by simp [ht])
    · exact .inl rfl
  | sweepQueues | finalize =>
    simp only [outsideStep, Option.ite_none_right_eq_some, Option.some.injEq] at hs
    obtain ⟨_, rfl⟩ := hs
    simp only [sweepQueues]
    split
    · exact .inr (.inr rfl)
    · exact .inl rfl
  | resolve id =>
    simp only [outsideStep, Option.some.injEq] at hs
    subst hs
    exact .inl rfl
  | trigger id =>
    simp only [outsideStep, Option.ite_none_right_eq_some] at hs
    obtain ⟨_, hs⟩ := hs
    split at hs <;> obtain rfl := Option.some.inj hs <;> exact .inl rfl
  | request mode =>
    simp only [outsideStep, Option.ite_none_left_eq_some, Option.some.injEq] at hs
    obtain ⟨_, rfl⟩ := hs
    unfold requestShutdownMode
    split <;> exact .inl rfl
  | publishStopped =>
    simp only [outsideStep] at hs
    split at hs
    · obtain rfl := Option.some.inj hs
      exact .inl rfl
    · cases hs
  | publish u | post u | drop u | cancelTimers | stop | joinWorkers =>
    simp only [outsideStep, Option.ite_none_right_eq_some, Option.some.injEq] at hs
    obtain ⟨_, rfl⟩ := hs
    exact .inl rfl

/-! ## Started work -/

/-- Unless the shutdown was made Immediate, no started task is incomplete once the last
worker has left or Stopped is published. -/
def StartedWorkDone (s : Runtime n) : Prop :=
  s.AllExited ∨ s.status.state = .stopped → s.status.shutdownMode ≠ .immediate →
    ∀ t, s.tasks t ≠ some .running ∧ s.tasks t ≠ some .suspended

/-- When the last worker leaves, what is suspended sleeps in the timer queue: nothing
awaits a task or a graph run, and no thread outside is about to resume anything. -/
def AwaitsTimersOnly (s : Runtime n) (a : Label n) : Prop :=
  KeepsSlot s a ∧ ∀ w, a = .worker w .check → LastLeave s w →
    s.status.shutdownMode ≠ .immediate →
      (∀ await ∈ s.awaits, await.id ∈ s.timers) ∧ s.hands = [] ∧ ∀ g ∈ s.global, g.resume = false

instance (s : Runtime n) (a : Label n) : Decidable (AwaitsTimersOnly s a) :=
  inferInstanceAs (Decidable (_ ∧ _))

/-- Where nothing is registered and no resume is about, nothing is left started. -/
theorem started_lastLeave (h : Accounted own s) {w : Fin n} (hlast : LastLeave s w)
    (hawaits : s.awaits = []) (hhands : s.hands = []) (hglobal : ∀ g ∈ s.global, g.resume = false)
    (t : TaskId) :
    s.tasks t ≠ some .running ∧ s.tasks t ≠ some .suspended := by
  constructor
  · intro hrun
    obtain ⟨v, hv⟩ := (h.placed t).running hrun
    simp [running_of_out (h.sound.workers v) (hlast.out v)] at hv
  · intro hsus
    rcases (h.placed t).suspended hsus with ⟨await, hmem, _⟩ | hp
    · simp [hawaits] at hmem
    · rcases hp.of_out h.sound hlast.out (h.lastLeave hlast).1 with hg | ⟨hfirst, _⟩ | ⟨_, hh⟩
      · exact absurd (hglobal _ hg) (by simp)
      · cases hfirst
      · simp [hhands] at hh

/-- No thread has seen the shutdown made Immediate, or it has read the mode before. -/
def NotEscalated (s : Runtime n) : Prop :=
  s.status.shutdownMode ≠ .immediate ∨ ∃ mode, s.joined = some mode ∧ mode ≠ .immediate

theorem NotEscalated.before (h : NotEscalated s') (ho : Outside s s') : NotEscalated s := by
  rcases h with hmode | ⟨mode, hj, hm⟩
  · exact ho.mode hmode
  · rcases (ho.joined mode hj).1 with hold | ⟨_, rfl⟩
    · exact .inr ⟨mode, hold, hm⟩
    · exact .inl hm

/-- **Graceful shutdown drains started work** whenever the work that is suspended when the
last worker leaves is work the exit check looks for. -/
theorem startedWorkDone_of_reachable
    (h : (machine own n).ReachableUnder AwaitsTimersOnly s) : StartedWorkDone s := by
  intro hdone hmode
  have hacc := accounted_of_reachable (h.mono fun _ _ hok => hok.1)
  have hall : s.AllExited := hdone.elim id hacc.orderly.stopped
  refine holds_afterExit
    (fun s => NotEscalated s → ∀ t, s.tasks t ≠ some .running ∧ s.tasks t ≠ some .suspended)
    (fun _ _ hok => hok.1) ?_ ?_ h hall (.inl hmode)
  · intro s w hacc hlast hok hesc t
    have hmode : s.status.shutdownMode ≠ .immediate := by
      rcases hesc with hmode | ⟨mode, hj, _⟩
      · exact hmode
      · exact absurd ((hacc.not_joined hlast).symm.trans hj) (by simp)
    obtain ⟨hawaits, hhands, hglobal⟩ := hok.2 w rfl hlast hmode
    have htimers := (hacc.lastLeave hlast).2 hmode
    have hnone : s.awaits = [] := List.eq_nil_iff_forall_not_mem.mpr fun await hmem => by
      have htimer := hawaits await hmem
      simp [htimers] at htimer
    exact started_lastLeave hacc hlast hnone hhands hglobal t
  · intro s e s' hacc _ hP _ hs hesc t
    have hbefore := hP (hesc.before (outside_outsideStep hacc.orderly.mode hs)) t
    rcases tasks_outsideStep hs t with heq | ⟨_, heq⟩ | heq
    · rw [heq]
      exact hbefore
    · simp [heq]
    · simp [heq]

section Runs

/-- A runtime with one worker. -/
abbrev oneWorker : Impl := ⟨1, ⟨1⟩, 1⟩

/-- The task of the runs below. -/
abbrev onlyTask : TaskId := ⟨⟨1⟩, 1⟩

/-- A coroutine is spawned from outside and reaches its first suspension. -/
def spawnUpTo (suspension : WorkerStep 1) : List (Label 1) :=
  [.outside (.acquire onlyTask), .outside (.publish onlyTask),
    .worker 0 (.claim .global ⟨onlyTask, false⟩), .worker 0 (.dispatch false),
    .worker 0 suspension, .worker 0 (.segmentReturn false)]

/-- A worker finds nothing to do and reads on to the end. -/
def exitCheck : List (Label 1) :=
  [.worker 0 .lock, .worker 0 .check, .worker 0 .check, .worker 0 .check, .worker 0 .check]

/-- The coroutine sleeps, a graceful shutdown begins, the worker looks and goes back; the
timer comes due, the coroutine ends and the worker leaves. -/
def sleepThenShutdown : List (Label 1) :=
  spawnUpTo (.sleep false) ++
    ([.outside (.request .graceful), .outside .stop, .worker 0 .lock, .worker 0 .check,
      .worker 0 .check, .worker 0 .check, .worker 0 (.dueTimer 0), .worker 0 (.trigger true),
      .worker 0 (.claim (.local 0) ⟨onlyTask, true⟩), .worker 0 (.dispatch true),
      .worker 0 (.finish .succeeded), .worker 0 (.segmentReturn true)] : List (Label 1)) ++
    exitCheck

theorem startedWorkDone_sleepThenShutdown :
    ∃ s, (machine oneWorker 1).run (started oneWorker 1) sleepThenShutdown = some s ∧
      s.AllExited ∧ s.status.shutdownMode = .graceful ∧ StartedWorkDone s := by
  obtain ⟨s, hs⟩ := Option.isSome_iff_exists.mp
    (show ((machine oneWorker 1).run (started oneWorker 1) sleepThenShutdown).isSome by decide)
  have hend : ((machine oneWorker 1).run (started oneWorker 1) sleepThenShutdown).map
      (fun s => decide (s.AllExited ∧ s.status.shutdownMode = .graceful)) = some true := by decide
  simp only [hs, Option.map_some, Option.some.injEq, decide_eq_true_eq] at hend
  have hinit : (machine oneWorker 1).ReachableUnder AwaitsTimersOnly (started oneWorker 1) :=
    .initial ⟨by decide, rfl⟩
  exact ⟨s, hs, hend.1, hend.2, startedWorkDone_of_reachable (hinit.run (by decide) hs)⟩

/-- The coroutine awaits a task of another runtime when the shutdown begins. -/
def awaitElsewhereThenShutdown : List (Label 1) :=
  spawnUpTo (.await (.task ⟨⟨2⟩, 1⟩) false) ++
    ([.outside (.request .graceful), .outside .stop] : List (Label 1)) ++ exitCheck ++
    ([.outside .joinWorkers, .outside .publishStopped] : List (Label 1))

/-- The only worker leaves and Stopped is published over a suspended coroutine. -/
theorem awaitElsewhere_leaves_started_work :
    ∃ s, (machine oneWorker 1).Reachable s ∧ s.status = ⟨.stopped, .graceful⟩ ∧
      s.tasks onlyTask = some .suspended ∧ ¬ StartedWorkDone s := by
  obtain ⟨s, hs⟩ := Option.isSome_iff_exists.mp (show ((machine oneWorker 1).run
    (started oneWorker 1) awaitElsewhereThenShutdown).isSome by decide)
  have hend : ((machine oneWorker 1).run (started oneWorker 1) awaitElsewhereThenShutdown).map
      (fun s => decide (s.status = ⟨.stopped, .graceful⟩ ∧ s.tasks onlyTask = some .suspended)) =
        some true := by decide
  simp only [hs, Option.map_some, Option.some.injEq, decide_eq_true_eq] at hend
  refine ⟨s, Transition.Machine.reachable_of_run ⟨by decide, rfl⟩ hs, hend.1, hend.2, ?_⟩
  intro hdone
  exact (hdone (.inr (by rw [hend.1])) (by simp [hend.1]) onlyTask).2 hend.2

end Runs

end Drain
end AstraScheduler
