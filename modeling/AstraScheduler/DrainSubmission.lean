import AstraScheduler.DrainClosure

/-! # Submissions against the last exit check

A submission from outside is admitted under one lock, published under another, and between
the two nothing says that it is on its way.  If the last worker reads the queues in
between, the segment is published into queues nobody looks at any more. -/

namespace AstraScheduler
namespace Drain

open Transition (Machine)
open Transition.Machine (ReachableUnder)
open HelpingWait (Segment)

variable {n : Nat} {own : Impl} {s s' : Runtime n}

/-- The segment is in a ready queue. -/
def Queued (s : Runtime n) (g : Segment) : Prop := g ∈ s.global ∨ ∃ v, g ∈ s.locals v

/-- No published task is left behind by the workers. -/
structure NothingStranded (own : Impl) (s : Runtime n) : Prop where
  /-- Whatever was admitted and published is complete in a stopped runtime. -/
  terminal : s.status.state = .stopped → ∀ t state, s.tasks t = some state → t ∉ s.inFlight →
    state.terminal
  /-- No queue receives a segment once every worker has left. -/
  closed : s.AllExited → ∀ a s', step own s a = some s' → ∀ g, Queued s' g → Queued s g

/-- When the last worker leaves, nothing is admitted and unpublished, no first segment or
resume has been queued behind its look at the queues, and no coroutine waits for anything
but a timer of a runtime in Graceful mode. -/
def PublishedInTime (s : Runtime n) (a : Label n) : Prop :=
  KeepsSlot s a ∧ ∀ w, a = .worker w .check → LastLeave s w →
    s.inFlight = [] ∧ s.hands = [] ∧
      (∀ await ∈ s.awaits, await.id ∈ s.timers ∧ s.status.shutdownMode ≠ .immediate) ∧
      ∀ g ∈ s.global, g.resume = false ∧ s.tasks g.task ≠ some .ready

instance (s : Runtime n) (a : Label n) : Decidable (PublishedInTime s a) :=
  inferInstanceAs (Decidable (_ ∧ _))

/-- The runtime is over: nobody can bring it anything, and every task is complete. -/
structure Finished (s : Runtime n) : Prop where
  left : s.status.state ≠ .running
  inFlight : s.inFlight = []
  hands : s.hands = []
  awaits : s.awaits = []
  terminal : ∀ t state, s.tasks t = some state → state.terminal

theorem finished_lastLeave (h : Accounted own s) {w : Fin n} (hlast : LastLeave s w)
    (hok : PublishedInTime s (.worker w .check)) : Finished (leave s w) := by
  obtain ⟨hinFlight, hhands, hawaits, hglobal⟩ := hok.2 w rfl hlast
  obtain ⟨hlocals, htimers⟩ := h.lastLeave hlast
  have hnone : s.awaits = [] := List.eq_nil_iff_forall_not_mem.mpr fun await hmem => by
    obtain ⟨htimer, hmode⟩ := hawaits await hmem
    simp [htimers hmode] at htimer
  refine { left := h.left hlast, inFlight := hinFlight, hands := hhands, awaits := hnone,
           terminal := ?_ }
  intro t state ht
  have htask : s.tasks t = some state := ht
  have hstarted := started_lastLeave h hlast hnone hhands (fun g hg => (hglobal g hg).1) t
  cases state with
  | waiting => exact absurd htask (h.placed t).accepted
  | ready =>
    rcases ((h.placed t).ready htask).of_out h.sound hlast.out hlocals with hg | ⟨_, hg⟩ | ⟨hg, _⟩
    · exact absurd htask (hglobal _ hg).2
    · simp [hinFlight] at hg
    · cases hg
  | running => exact absurd htask hstarted.1
  | suspended => exact absurd htask hstarted.2
  | succeeded | failed | cancelled => rfl

theorem queued_sweepQueues {g : Segment} (h : Queued (sweepQueues s) g) : Queued s g := by
  rcases h with hg | ⟨v, hg⟩
  · rcases List.mem_append.mp (List.mem_filter.mp hg).1 with hg | hg
    · exact .inl hg
    · obtain ⟨v, _, hv⟩ := List.mem_flatMap.mp hg
      exact .inr ⟨v, hv⟩
  · cases hg

/-- Nobody outside is admitted any more. -/
theorem Finished.not_acquire (h : Finished s) (t : TaskId) :
    Drain.outsideStep own s (.acquire t) ≠ some s' := by
  have hno : admits s.status false = false := by
    unfold admits
    cases hst : s.status.state with
    | running => exact absurd hst h.left
    | stopping => rfl
    | stopped => rfl
  simp [Drain.outsideStep, hno]

/-- A step outside of a finished runtime leaves it finished and queues nothing. -/
theorem Finished.outsideStep (h : Finished s) (hmode : ModeOk s) {e : OutsideStep}
    (hs : outsideStep own s e = some s') : Finished s' ∧ ∀ g, Queued s' g → Queued s g := by
  have hleft : s'.status.state ≠ .running := by
    rcases (forward_outsideStep hmode hs).status with heq | hne
    · rw [heq]
      exact h.left
    · exact hne
  have hterminal : ∀ t state, s'.tasks t = some state → state.terminal := by
    intro t state ht
    rcases tasks_outsideStep hs t with heq | ⟨rfl, _⟩ | heq
    · exact h.terminal t state (heq ▸ ht)
    · exact absurd hs (h.not_acquire t)
    · obtain rfl := Option.some.inj (heq.symm.trans ht)
      rfl
  -- what is left to look at are the queues and what the threads outside have in hand
  suffices hrest : (s'.inFlight = [] ∧ s'.hands = [] ∧ s'.awaits = []) ∧
      ∀ g, Queued s' g → Queued s g by
    obtain ⟨⟨hin, hhands, hawaits⟩, hqueued⟩ := hrest
    exact ⟨⟨hleft, hin, hhands, hawaits, hterminal⟩, hqueued⟩
  have hsame : (s.inFlight = [] ∧ s.hands = [] ∧ s.awaits = []) := ⟨h.inFlight, h.hands, h.awaits⟩
  cases e with
  | acquire t => exact absurd hs (h.not_acquire t)
  | publish t => simp [Drain.outsideStep, h.inFlight] at hs
  | post t => simp [Drain.outsideStep, h.hands] at hs
  | drop t => simp [Drain.outsideStep, h.hands] at hs
  | cancel t | resolve t =>
    simp only [Drain.outsideStep, Option.some.injEq] at hs
    subst hs
    exact ⟨hsame, fun _ => id⟩
  | trigger await =>
    simp only [Drain.outsideStep, Option.ite_none_right_eq_some] at hs
    obtain ⟨_, hs⟩ := hs
    split at hs
    · obtain rfl := Option.some.inj hs
      exact ⟨hsame, fun _ => id⟩
    · rename_i a hfind
      have hmem := List.mem_of_find?_eq_some hfind
      simp [h.awaits] at hmem
  | request mode =>
    simp only [Drain.outsideStep, Option.ite_none_left_eq_some, Option.some.injEq] at hs
    obtain ⟨_, rfl⟩ := hs
    unfold requestShutdownMode
    split
    · exact ⟨hsame, fun _ => id⟩
    · exact ⟨hsame, fun _ => id⟩
  | sweepQueues | finalize =>
    simp only [Drain.outsideStep, Option.ite_none_right_eq_some, Option.some.injEq] at hs
    obtain ⟨_, rfl⟩ := hs
    exact ⟨hsame, fun _ hg => queued_sweepQueues hg⟩
  | cancelTimers | stop | joinWorkers =>
    simp only [Drain.outsideStep, Option.ite_none_right_eq_some, Option.some.injEq] at hs
    obtain ⟨_, rfl⟩ := hs
    exact ⟨hsame, fun _ => id⟩
  | publishStopped =>
    simp only [Drain.outsideStep] at hs
    split at hs
    · obtain rfl := Option.some.inj hs
      exact ⟨hsame, fun _ => id⟩
    · cases hs

/-- **No admitted submission is stranded** as long as none is still on its way when the last
worker leaves. -/
theorem nothingStranded_of_reachable
    (h : (machine own n).ReachableUnder PublishedInTime s) : NothingStranded own s := by
  have hacc := accounted_of_reachable (h.mono fun _ _ hok => hok.1)
  have hfinished : s.AllExited → Finished s := by
    refine holds_afterExit Finished (fun _ _ hok => hok.1) ?_ ?_ h
    · exact fun s w hacc hlast hok => finished_lastLeave hacc hlast hok
    · exact fun s e s' hacc _ hf _ hs => (hf.outsideStep hacc.orderly.mode hs).1
  refine { terminal := ?_, closed := ?_ }
  · intro hstopped t state ht _
    exact (hfinished (hacc.orderly.stopped hstopped)).terminal t state ht
  · intro hall a s' hs g hg
    cases a with
    | outside e => exact ((hfinished hall).outsideStep hacc.orderly.mode hs).2 g hg
    | worker w e => exact absurd hs (exited_not_step hacc (hall w) e)

section Runs

/-- A task is submitted from outside and runs; the runtime is shut down. -/
def submitThenShutdown : List (Label 1) :=
  spawnUpTo (.finish .succeeded) ++
    ([.outside (.request .graceful), .outside .stop] : List (Label 1)) ++ exitCheck ++
    ([.outside .joinWorkers, .outside .publishStopped] : List (Label 1))

theorem nothingStranded_submitThenShutdown :
    ∃ s, (machine oneWorker 1).run (started oneWorker 1) submitThenShutdown = some s ∧
      s.status.state = .stopped ∧ NothingStranded oneWorker s := by
  obtain ⟨s, hs⟩ := Option.isSome_iff_exists.mp
    (show ((machine oneWorker 1).run (started oneWorker 1) submitThenShutdown).isSome by decide)
  have hend : ((machine oneWorker 1).run (started oneWorker 1) submitThenShutdown).map
      (fun s => s.status.state) = some .stopped := by decide
  rw [hs] at hend
  have hinit : (machine oneWorker 1).ReachableUnder PublishedInTime (started oneWorker 1) :=
    .initial ⟨by decide, rfl⟩
  exact ⟨s, hs, Option.some.inj hend, nothingStranded_of_reachable (hinit.run (by decide) hs)⟩

/-- The submission is admitted before the shutdown and published after the last exit. -/
def shutdownWhileSubmitting : List (Label 1) :=
  ([.outside (.acquire onlyTask), .outside (.request .graceful),
    .outside .stop] : List (Label 1)) ++ exitCheck ++
    ([.outside .joinWorkers, .outside .publishStopped,
      .outside (.publish onlyTask)] : List (Label 1))

/-- A published task stays Ready for ever in a stopped runtime. -/
theorem shutdownWhileSubmitting_strands_task :
    ∃ s, (machine oneWorker 1).Reachable s ∧ s.status.state = .stopped ∧
      s.tasks onlyTask = some .ready ∧ Queued s ⟨onlyTask, false⟩ ∧
      ¬ NothingStranded oneWorker s := by
  obtain ⟨s, hs⟩ := Option.isSome_iff_exists.mp (show ((machine oneWorker 1).run
    (started oneWorker 1) shutdownWhileSubmitting).isSome by decide)
  have hend : ((machine oneWorker 1).run (started oneWorker 1) shutdownWhileSubmitting).map
      (fun s => decide (s.status.state = .stopped ∧ s.tasks onlyTask = some .ready ∧
        s.inFlight = [] ∧ ⟨onlyTask, false⟩ ∈ s.global)) = some true := by decide
  simp only [hs, Option.map_some, Option.some.injEq, decide_eq_true_eq] at hend
  obtain ⟨hstopped, hready, hinFlight, hglobal⟩ := hend
  refine ⟨s, Transition.Machine.reachable_of_run ⟨by decide, rfl⟩ hs, hstopped, hready,
    .inl hglobal, ?_⟩
  intro hdone
  have hterm := hdone.terminal hstopped onlyTask .ready hready (by simp [hinFlight])
  cases hterm

end Runs

end Drain
end AstraScheduler
