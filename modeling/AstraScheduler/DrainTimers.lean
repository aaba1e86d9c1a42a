import AstraScheduler.DrainClosure

/-! # Sleeping coroutines in an Immediate shutdown

The Immediate exit check looks for queued resumes and for claims, and not at the timers:
`cancel_all_timers` is to have resumed every sleeper.  But a coroutine that was running
when the timers were cancelled may go to sleep afterwards, and the thread that cancels them
may still be about to resume a sleeper when the last worker leaves. -/

namespace AstraScheduler
namespace Drain

open Transition (Machine)
open Transition.Machine (ReachableUnder)
open HelpingWait (Segment exitFrame)

variable {n : Nat} {own : Impl} {s s' : Runtime n}

/-! ## Every sleep is with somebody -/

/-- The timer queue or a thread has the await. -/
def Pending (s : Runtime n) (id : Nat) : Prop :=
  id ∈ s.timers ∨ id ∈ s.outsideTriggers ∨ ∃ w, id ∈ (s.workers w).triggers

/-- Awaits have identities of their own, and a sleep is pending until it is resolved. -/
structure Handshakes (s : Runtime n) : Prop where
  below : ∀ await ∈ s.awaits, await.id < s.nextAwait
  distinct : (s.awaits.map Await.id).Nodup
  timed : ∀ await ∈ s.awaits, await.target = .timer → Pending s await.id

theorem Handshakes.keep (h : Handshakes s) (hawaits : s'.awaits.Sublist s.awaits)
    (hnext : s'.nextAwait = s.nextAwait)
    (hpending : ∀ await ∈ s'.awaits, Pending s await.id → Pending s' await.id) :
    Handshakes s' where
  below := fun await hmem => hnext ▸ h.below await (hawaits.subset hmem)
  distinct := h.distinct.sublist (hawaits.map _)
  timed := fun await hmem htimer => hpending await hmem (h.timed await (hawaits.subset hmem) htimer)

/-- What the handshakes are made of. -/
def Runtime.handshakes (s : Runtime n) :
    List Await × Nat × List Nat × List Nat × (Fin n → List Nat) :=
  (s.awaits, s.nextAwait, s.timers, s.outsideTriggers, fun w => (s.workers w).triggers)

theorem Handshakes.same (h : Handshakes s) (heq : s'.handshakes = s.handshakes) :
    Handshakes s' := by
  simp only [Runtime.handshakes, Prod.mk.injEq] at heq
  obtain ⟨hawaits, hnext, htimers, houtside, htriggers⟩ := heq
  refine h.keep (hawaits ▸ List.Sublist.refl _) hnext fun await _ hp => ?_
  rcases hp with hp | hp | ⟨w, hp⟩
  · exact .inl (htimers ▸ hp)
  · exact .inr (.inl (houtside ▸ hp))
  · refine .inr (.inr ⟨w, ?_⟩)
    rw [show (s'.workers w).triggers = (s.workers w).triggers from congrFun htriggers w]
    exact hp

section Pieces
variable {w : Fin n}

theorem handshakes_setWorker {x : Worker} (hx : x.triggers = (s.workers w).triggers) :
    (s.setWorker w x).handshakes = s.handshakes := by
  have htriggers : (fun v => ((s.setWorker w x).workers v).triggers) =
      fun v => (s.workers v).triggers := by
    funext v
    by_cases hv : v = w
    · subst hv
      rw [workers_setWorker_same, hx]
    · rw [workers_setWorker_of_ne hv]
  simp only [Runtime.handshakes, htriggers]
  rfl

theorem handshakes_enqueue (room : Bool) (gs : List Segment) :
    (s.enqueue w room gs).handshakes = s.handshakes := by
  simp [Runtime.handshakes]

theorem handshakes_post (room : Bool) (impl : Impl) (segment : Segment) :
    (post own s w room impl segment).handshakes = s.handshakes := by
  simp only [post]
  rw [handshakes_enqueue]
  exact handshakes_setWorker rfl

/-- The worker takes up other callbacks than it had. -/
theorem Handshakes.setTriggers (h : Handshakes s) {x : Worker}
    (hx : ∀ await ∈ s.awaits, await.id ∈ (s.workers w).triggers → await.id ∈ x.triggers) :
    Handshakes (s.setWorker w x) := by
  refine h.keep (List.Sublist.refl _) rfl fun await hmem hp => ?_
  rcases hp with hp | hp | ⟨v, hp⟩
  · exact .inl hp
  · exact .inr (.inl hp)
  · by_cases hv : v = w
    · subst hv
      exact .inr (.inr ⟨v, by rw [workers_setWorker_same]; exact hx await hmem hp⟩)
    · exact .inr (.inr ⟨v, by rw [workers_setWorker_of_ne hv]; exact hp⟩)

/-- An await that is found by its identity is the only one with it. -/
theorem Handshakes.ne_of_mem_erase (h : Handshakes s) {id : Nat} {a b : Await}
    (hfind : s.awaits.find? (fun a => a.id = id) = some a) (hb : b ∈ s.awaits.erase a) :
    b.id ≠ id := by
  have hid : a.id = id := by simpa using List.find?_some hfind
  have hmem := List.mem_of_find?_eq_some hfind
  have hperm := (List.perm_cons_erase hmem).map Await.id
  have hnodup := hperm.nodup_iff.mp h.distinct
  rw [List.map_cons, List.nodup_cons] at hnodup
  rintro rfl
  exact hnodup.1 (hid ▸ List.mem_map_of_mem hb)

end Pieces

section Steps
variable {w : Fin n}

theorem Handshakes.trigger (h : Handshakes s) {x : Worker} {id : Nat}
    (htr : (s.workers w).triggers = id :: x.triggers) (room : Bool) :
    Handshakes (triggerOn own (s.setWorker w x) w room id) := by
  have hrest : ∀ await ∈ s.awaits, await.id ≠ id →
      await.id ∈ (s.workers w).triggers → await.id ∈ x.triggers := by
    intro await _ hne hmem
    rw [htr] at hmem
    exact List.mem_of_ne_of_mem hne hmem
  unfold triggerOn
  cases hfind : (s.setWorker w x).awaits.find? fun a => a.id = id with
  | none =>
    refine h.setTriggers fun await hmem => hrest await hmem ?_
    simpa using List.find?_eq_none.mp hfind await hmem
  | some a =>
    refine Handshakes.same ?_ (handshakes_post room own ⟨a.waiter, true⟩)
    refine h.keep List.erase_sublist rfl fun await hmem hp => ?_
    have hne := h.ne_of_mem_erase hfind hmem
    rcases hp with hp | hp | ⟨v, hp⟩
    · exact .inl hp
    · exact .inr (.inl hp)
    · refine .inr (.inr ⟨v, ?_⟩)
      by_cases hv : v = w
      · subst hv
        show await.id ∈ ((s.setWorker v x).workers v).triggers
        rw [workers_setWorker_same]
        exact hrest await (List.mem_of_mem_erase hmem) hne hp
      · show await.id ∈ ((s.setWorker w x).workers v).triggers
        rw [workers_setWorker_of_ne hv]
        exact hp

/-- A worker takes a timer out of the queue. -/
theorem Handshakes.takeTimer (h : Handshakes s) {x : Worker} {id : Nat} (hid : id ∈ x.triggers)
    (hx : ∀ i ∈ (s.workers w).triggers, i ∈ x.triggers) :
    Handshakes { s.setWorker w x with timers := s.timers.erase id } := by
  have hset : Handshakes (s.setWorker w x) := h.setTriggers fun await _ => hx await.id
  refine hset.keep (List.Sublist.refl _) rfl fun await _ hp => ?_
  rcases hp with hp | hp | hp
  · by_cases heq : await.id = id
    · refine .inr (.inr ⟨w, ?_⟩)
      show await.id ∈ ((s.setWorker w x).workers w).triggers
      rw [workers_setWorker_same, heq]
      exact hid
    · exact .inl ((List.mem_erase_of_ne heq).mpr hp)
  · exact .inr (.inl hp)
  · exact .inr (.inr hp)

theorem Handshakes.suspendOn (h : Handshakes s) (resolved : Bool) (target : AwaitTarget) :
    Handshakes (suspendOn own s w resolved target) := by
  have hset : Handshakes ((s.suspend (s.workers w).task).setWorker w
      { s.workers w with unwinding := true }) :=
    h.same (handshakes_setWorker (s := s.suspend (s.workers w).task) rfl)
  unfold Drain.suspendOn
  cases resolved with
  | true => exact hset.same (handshakes_post false own _)
  | false =>
    refine { below := ?_, distinct := ?_, timed := ?_ }
    · intro await hmem
      show await.id < s.nextAwait + 1
      rcases List.mem_append.mp hmem with hold | hnew
      · have := h.below await hold
        omega
      · rw [List.mem_singleton.mp hnew]
        exact Nat.lt_succ_self _
    · show ((s.awaits ++ [(⟨s.nextAwait, (s.workers w).task, target⟩ : Await)]).map Await.id).Nodup
      rw [List.map_append, List.nodup_append]
      refine ⟨h.distinct, by simp, fun id hid id' hid' heq => ?_⟩
      obtain ⟨await, hmem, rfl⟩ := List.mem_map.mp hid
      have hlt := h.below await hmem
      simp only [List.map_cons, List.map_nil, List.mem_singleton] at hid'
      omega
    · intro await hmem htimer
      rcases List.mem_append.mp hmem with hold | hnew
      · rcases hset.timed await hold htimer with hp | hp | hp
        · refine .inl ?_
          show await.id ∈ if target = .timer then s.timers ++ [s.nextAwait] else s.timers
          split
          · exact List.mem_append_left _ hp
          · exact hp
        · exact .inr (.inl hp)
        · exact .inr (.inr hp)
      · obtain rfl := List.mem_singleton.mp hnew
        have ht : target = .timer := htimer
        exact .inl (by simp [ht])

theorem Handshakes.workerStep (h : Handshakes s) (hw : WorkerOk (s.workers w))
    {e : WorkerStep n} (hs : workerStep own s w e = some s') : Handshakes s' := by
  -- code that runs has no trigger pending, so none is lost
  have hcode : ∀ {x : Worker}, (s.workers w).coding → Handshakes (s.setWorker w x) := by
    intro x hcoding
    refine h.setTriggers fun await _ hmem => ?_
    simp [(Worker.coding_iff.mp hcoding).2.1] at hmem
  cases workerStep_cases hs with
  | @claim source segment _ hidle htriggers hclaim =>
    have hset := h.same (handshakes_setWorker (s := s) (w := w)
      (x := { s.workers w with loc := .claimed segment }) rfl)
    cases source with
    | global =>
      simp only [claim, Option.ite_none_right_eq_some, Option.some.injEq] at hclaim
      obtain ⟨_, rfl⟩ := hclaim
      exact hset.same rfl
    | «local» v =>
      simp only [claim, Option.ite_none_right_eq_some, Option.some.injEq] at hclaim
      obtain ⟨_, rfl⟩ := hclaim
      exact hset.same rfl
  | dispatch gated hloc =>
    -- nor has a worker with an invoker in its hands
    have hnone := (hw.parked (.inl (by simp [hloc]))).2
    simp only [dispatch]
    split_ifs
    · exact (h.setTriggers (x := { s.workers w with loc := .loop, triggers := _ })
        (by simp [hnone])).same rfl
    · exact (h.same (handshakes_setWorker
        (x := { s.workers w with loc := .loop }) rfl)).same rfl
    · refine h.same ((handshakes_setWorker ?_).trans ?_)
      · unfold Runtime.resume
        split <;> rfl
      · unfold Runtime.resume
        split <;> rfl
  | dueTimer htop hid =>
    -- the timer leaves the queue for the triggers of the worker
    exact h.takeTimer (x := { s.workers w with triggers := _ }) (by simp)
      fun i hi => List.mem_append_left _ hi
  | trigger room hloc htr => exact h.trigger htr room
  | beginWait hf hcoding hself => exact h.same (handshakes_setWorker rfl)
  | endWait hf hhelp => exact h.same (handshakes_setWorker rfl)
  | @submit t hcoding hfresh =>
    exact h.same (handshakes_setWorker (s := s.setTask t .ready) rfl)
  | publish room hsub =>
    exact h.same ((handshakes_enqueue room _).trans (handshakes_setWorker rfl))
  | await target resolved hcoding => exact h.suspendOn resolved _
  | sleep resolved hcoding => exact h.suspendOn resolved _
  | yield hcoding => exact h.suspendOn true _
  | finish hcoding hterm =>
    exact (hcode (x := { s.workers w with triggers := _, unwinding := true }) hcoding).same rfl
  | resolve id hcoding =>
    exact h.takeTimer (x := { s.workers w with triggers := _ }) (by simp)
      (by simp [(Worker.coding_iff.mp hcoding).2.1])
  | cancel t hcoding =>
    exact (hcode (x := { s.workers w with triggers := _ }) hcoding).same rfl
  | postElsewhere impl hloc hvalid => exact h.same (handshakes_post false impl _)
  | @segmentReturn room frame frames hf hloc hunw htr =>
    have hset : Handshakes ((s.setWorker w { s.workers w with
        ctx := (exitFrame own (s.workers w).ctx frame).1
        frames := frames
        unwinding := false }).enqueue w room (exitFrame own (s.workers w).ctx frame).2) :=
      h.same ((handshakes_enqueue room _).trans (handshakes_setWorker rfl))
    exact hset.same rfl
  | handoff hcoding =>
    exact (h.same (handshakes_setWorker (x := { s.workers w with handoff := true }) rfl)).same rfl
  | handoffRequest hhand =>
    have hset := h.same (handshakes_setWorker (s := s) (w := w)
      (x := { s.workers w with handoff := false }) rfl)
    unfold requestShutdownMode
    split
    · exact hset
    · exact hset.same rfl
  | lock htop htr hmutex =>
    exact (h.same (handshakes_setWorker (x := { s.workers w with loc := .locked }) rfl)).same rfl
  | check hcheck =>
    rcases check_cases hcheck with ⟨loc, _, rfl⟩ | ⟨_, _, rfl⟩ | ⟨_, rfl⟩
    · exact h.same (handshakes_setWorker rfl)
    · exact (h.same (handshakes_setWorker (x := { s.workers w with loc := .loop }) rfl)).same rfl
    · exact (h.same (handshakes_setWorker (x := { s.workers w with loc := .exited }) rfl)).same rfl

end Steps

theorem Handshakes.outsideStep (h : Handshakes s) {e : OutsideStep}
    (hs : outsideStep own s e = some s') : Handshakes s' := by
  cases e with
  | acquire t | publish t | post t | drop t | stop | joinWorkers =>
    simp only [Drain.outsideStep, Option.ite_none_right_eq_some, Option.some.injEq] at hs
    obtain ⟨_, rfl⟩ := hs
    exact h.same rfl
  | cancel t =>
    simp only [Drain.outsideStep, Option.some.injEq] at hs
    subst hs
    refine h.keep (List.Sublist.refl _) rfl fun await _ hp => ?_
    exact hp.imp id (Or.imp (List.mem_append_left _) id)
  | resolve id =>
    simp only [Drain.outsideStep, Option.some.injEq] at hs
    subst hs
    refine h.keep (List.Sublist.refl _) rfl fun await _ hp => ?_
    rcases hp with hp | hp | hp
    · by_cases heq : await.id = id
      · exact .inr (.inl (heq ▸ List.mem_cons_self))
      · exact .inl ((List.mem_erase_of_ne heq).mpr hp)
    · exact .inr (.inl (List.mem_cons_of_mem _ hp))
    · exact .inr (.inr hp)
  | trigger id =>
    simp only [Drain.outsideStep, Option.ite_none_right_eq_some] at hs
    obtain ⟨_, hs⟩ := hs
    cases hfind : s.awaits.find? fun a => a.id = id with
    | none =>
      simp only [hfind, Option.some.injEq] at hs
      subst hs
      refine h.keep (List.Sublist.refl _) rfl fun await hmem hp => ?_
      have hne : await.id ≠ id := by simpa using List.find?_eq_none.mp hfind await hmem
      exact hp.imp (fun hp => hp) (Or.imp (List.mem_erase_of_ne hne).mpr fun hp => hp)
    | some a =>
      simp only [hfind, Option.some.injEq] at hs
      subst hs
      refine h.keep List.erase_sublist rfl fun await hmem hp => ?_
      have hne := h.ne_of_mem_erase hfind hmem
      exact hp.imp (fun hp => hp) (Or.imp (List.mem_erase_of_ne hne).mpr fun hp => hp)
  | request mode =>
    simp only [Drain.outsideStep, Option.ite_none_left_eq_some, Option.some.injEq] at hs
    obtain ⟨_, rfl⟩ := hs
    unfold requestShutdownMode
    split
    · exact h
    · exact h.same rfl
  | sweepQueues | finalize =>
    simp only [Drain.outsideStep, Option.ite_none_right_eq_some, Option.some.injEq] at hs
    obtain ⟨_, rfl⟩ := hs
    refine h.keep (List.Sublist.refl _) rfl fun await _ hp => ?_
    exact hp.imp id (Or.imp (List.mem_append_left _) id)
  | cancelTimers =>
    simp only [Drain.outsideStep, Option.ite_none_right_eq_some, Option.some.injEq] at hs
    obtain ⟨_, rfl⟩ := hs
    -- the timers go to the thread that cancels them
    refine h.keep (List.Sublist.refl _) rfl fun await _ hp => ?_
    rcases hp with hp | hp | hp
    · exact .inr (.inl (List.mem_append_right _ hp))
    · exact .inr (.inl (List.mem_append_left _ hp))
    · exact .inr (.inr hp)
  | publishStopped =>
    simp only [Drain.outsideStep] at hs
    split at hs
    · obtain rfl := Option.some.inj hs
      exact h.same rfl
    · cases hs

theorem handshakes_of_reachable (h : (machine own n).Reachable s) : Handshakes s := by
  refine And.right (h.invariant (fun s => Sound s ∧ Handshakes s) ?_ ?_)
  · rintro s ⟨_, rfl⟩
    exact ⟨sound_started own n,
      { below := by simp [started], distinct := by simp [started], timed := by simp [started] }⟩
  · rintro s a s' ⟨hsound, hh⟩ _ hs
    refine ⟨hsound.step hs, ?_⟩
    cases a with
    | outside e => exact hh.outsideStep hs
    | worker w e => exact hh.workerStep (hsound.workers w) hs

/-! ## Immediate shutdown -/

/-- Once the last worker has left in Immediate mode, no timer is armed, no resume is queued,
deferred or on its way, and no suspended coroutine is asleep. -/
def SleepersResumed (own : Impl) (s : Runtime n) : Prop :=
  s.AllExited → s.status.shutdownMode = .immediate →
    s.timers = [] ∧ (∀ t, ¬ Present own s ⟨t, true⟩) ∧
      ∀ t, s.tasks t = some .suspended → ∃ await ∈ s.awaits, await.waiter = t ∧ await.target ≠ .timer

/-- No thread outside is about to resume anybody. -/
def Settled (s : Runtime n) : Prop :=
  s.hands = [] ∧ ∀ await ∈ s.awaits, await.id ∉ s.outsideTriggers

instance (s : Runtime n) : Decidable (Settled s) := inferInstanceAs (Decidable (_ ∧ _))

/-- Every worker has left, or has looked at the queues and not gone back. -/
def LookedLast (s : Runtime n) : Prop :=
  ∀ w, (s.workers w).loc.queuesRead ∨ (s.workers w).loc = .exited

instance (s : Runtime n) : Decidable (LookedLast s) := inferInstanceAs (Decidable (∀ _, _))

/-- A step outside resolves a registered await, or completes what it waits for. -/
def Label.resolves (s : Runtime n) : Label n → Await → Bool
  | .outside (.resolve id), await => await.id = id
  | .outside (.cancel t), await =>
    s.tasks t = some .ready ∧ await.target = .completion (.task t)
  | .outside .sweepQueues, await | .outside .finalize, await =>
    s.queuedFirst.any fun t => s.tasks t = some .ready ∧ await.target = .completion (.task t)
  | _, _ => false

/-- No sleep is armed behind `cancel_all_timers`, and no resume published behind the last
worker's look at the queues.  In Immediate mode the last worker leaves after the timers are
cancelled and the threads outside are done; they are done too when a runtime without workers
is made Immediate, and afterwards nothing awaited completes. -/
def CancelledInTime (s : Runtime n) (a : Label n) : Prop :=
  KeepsSlot s a ∧
    (∀ w, a = .worker w (.sleep false) → s.sweep ≠ .done) ∧
    (∀ t ∈ s.hands, a = .outside (.post t) → ¬ LookedLast s) ∧
    (∀ w, a = .worker w .check → LastLeave s w → s.status.shutdownMode = .immediate →
      s.sweep = .done ∧ Settled s) ∧
    (a = .outside (.request .immediate) → s.AllExited → s.status.state ≠ .stopped → Settled s) ∧
    (s.AllExited → s.status.shutdownMode = .immediate →
      ∀ await ∈ s.awaits, a.resolves s await = false)

instance (s : Runtime n) (a : Label n) : Decidable (CancelledInTime s a) :=
  inferInstanceAs (Decidable (_ ∧ _))

/-! ### The timer queue after the sweep -/

section Worker
variable {w : Fin n} {e : WorkerStep n}

/-- Workers leave the sweep to others, and only a sleep arms a timer. -/
theorem sweep_workerStep (hs : workerStep own s w e = some s') :
    s'.sweep = s.sweep ∧ (e ≠ .sleep false → s.timers = [] → s'.timers = []) := by
  have herase : ∀ id, s.timers = [] → s.timers.erase id = [] := fun id h => by rw [h]; rfl
  cases workerStep_cases hs with
  | @claim source segment _ hidle htriggers hclaim =>
    cases source with
    | global =>
      simp only [claim, Option.ite_none_right_eq_some, Option.some.injEq] at hclaim
      obtain ⟨_, rfl⟩ := hclaim
      exact ⟨rfl, fun _ => id⟩
    | «local» v =>
      simp only [claim, Option.ite_none_right_eq_some, Option.some.injEq] at hclaim
      obtain ⟨_, rfl⟩ := hclaim
      exact ⟨rfl, fun _ => id⟩
  | dispatch gated hloc =>
    simp only [dispatch]
    split_ifs
    · exact ⟨rfl, fun _ => id⟩
    · exact ⟨rfl, fun _ => id⟩
    · unfold Runtime.resume
      split <;> exact ⟨rfl, fun _ => id⟩
  | @dueTimer id htop hid => exact ⟨rfl, fun _ => herase id⟩
  | trigger room hloc htr =>
    unfold triggerOn
    split
    · exact ⟨rfl, fun _ => id⟩
    · simp only [post, timers_enqueue, sweep_enqueue]
      exact ⟨rfl, fun _ => id⟩
  | publish room hsub =>
    simp only [timers_enqueue, sweep_enqueue]
    exact ⟨rfl, fun _ => id⟩
  | await target resolved hcoding =>
    unfold suspendOn
    split
    · simp only [post, timers_enqueue, sweep_enqueue]
      exact ⟨rfl, fun _ => id⟩
    · exact ⟨rfl, fun _ => id⟩
  | sleep resolved hcoding =>
    cases resolved with
    | true =>
      simp only [suspendOn, post]
      exact ⟨rfl, fun _ => id⟩
    | false => exact ⟨rfl, fun hno => absurd rfl hno⟩
  | yield hcoding =>
    simp only [suspendOn, post]
    exact ⟨rfl, fun _ => id⟩
  | @resolve id hcoding => exact ⟨rfl, fun _ => herase id⟩
  | postElsewhere impl hloc hvalid =>
    simp only [post, timers_enqueue, sweep_enqueue]
    exact ⟨rfl, fun _ => id⟩
  | segmentReturn hf hloc hunw htr =>
    simp only [Runtime.completeClaim, timers_enqueue, sweep_enqueue]
    exact ⟨rfl, fun _ => id⟩
  | handoffRequest hhand =>
    unfold requestShutdownMode
    split <;> exact ⟨rfl, fun _ => id⟩
  | check hcheck =>
    rcases check_cases hcheck with ⟨loc, _, rfl⟩ | ⟨_, _, rfl⟩ | ⟨_, rfl⟩ <;>
      exact ⟨rfl, fun _ => id⟩
  | _ => exact ⟨rfl, fun _ => id⟩

end Worker

/-- Only `cancel_all_timers` ends the sweep, and it leaves no timer. -/
theorem sweep_outsideStep {e : OutsideStep} (hs : outsideStep own s e = some s')
    (hdone : s'.sweep = .done) : s.sweep = .done ∨ s'.timers = [] := by
  cases e with
  | acquire t | publish t | post t | drop t | stop | joinWorkers | finalize =>
    simp only [outsideStep, Option.ite_none_right_eq_some, Option.some.injEq] at hs
    obtain ⟨_, rfl⟩ := hs
    exact .inl hdone
  | cancel t | resolve t =>
    simp only [outsideStep, Option.some.injEq] at hs
    subst hs
    exact .inl hdone
  | trigger id =>
    simp only [outsideStep, Option.ite_none_right_eq_some] at hs
    obtain ⟨_, hs⟩ := hs
    split at hs <;> obtain rfl := Option.some.inj hs <;> exact .inl hdone
  | request mode =>
    simp only [outsideStep, Option.ite_none_left_eq_some, Option.some.injEq] at hs
    obtain ⟨_, rfl⟩ := hs
    unfold requestShutdownMode at hdone
    split at hdone
    · exact .inl hdone
    · by_cases hmode : mode = .immediate
      · simp [hmode] at hdone
      · simp only [hmode, if_false] at hdone
        exact .inl hdone
  | sweepQueues =>
    simp only [outsideStep, Option.ite_none_right_eq_some, Option.some.injEq] at hs
    obtain ⟨_, rfl⟩ := hs
    cases hdone
  | cancelTimers =>
    simp only [outsideStep, Option.ite_none_right_eq_some, Option.some.injEq] at hs
    obtain ⟨_, rfl⟩ := hs
    exact .inr rfl
  | publishStopped =>
    simp only [outsideStep] at hs
    split at hs
    · obtain rfl := Option.some.inj hs
      exact .inl hdone
    · cases hs

/-! ### The queues behind the last look -/

theorem Orderly.locals_of_lookedLast (h : Orderly s) (hlast : LookedLast s) :
    ∀ v, s.locals v = [] := by
  by_cases hall : s.AllExited
  · exact (h.drained hall).1
  · obtain ⟨w, hw⟩ := not_forall.mp hall
    have hread := (hlast w).resolve_right hw
    refine h.queues w hread fun v hv => ?_
    obtain ⟨hout, hne⟩ := WorkerLoc.out_of_queuesRead hread
    rcases h.alone hout hne hv with hin | hexited
    · rcases hlast v with hread' | hexited
      · simp [(WorkerLoc.out_of_queuesRead hread').1] at hin
      · exact hexited
    · exact hexited

/-- Sweeping leaves the resumes that were queued. -/
theorem resume_sweepQueues {g : Segment} (hlocals : ∀ v, s.locals v = [])
    (hg : g ∈ (sweepQueues s).global) : g ∈ s.global := by
  rcases List.mem_append.mp (List.mem_filter.mp hg).1 with hg | hg
  · exact hg
  · obtain ⟨v, _, hv⟩ := List.mem_flatMap.mp hg
    simp [hlocals v] at hv

/-- Where the local queues are empty, a resume that threads outside queue is one they post. -/
theorem resume_outsideStep {e : OutsideStep} (hlocals : ∀ v, s.locals v = [])
    (hpost : ∀ t, e ≠ .post t) (hs : outsideStep own s e = some s') {g : Segment}
    (hg : g ∈ s'.global) (hresume : g.resume = true) : g ∈ s.global := by
  cases e with
  | acquire t | drop t | stop | joinWorkers | cancelTimers =>
    simp only [outsideStep, Option.ite_none_right_eq_some, Option.some.injEq] at hs
    obtain ⟨_, rfl⟩ := hs
    exact hg
  | publish t =>
    simp only [outsideStep, Option.ite_none_right_eq_some, Option.some.injEq] at hs
    obtain ⟨_, rfl⟩ := hs
    rcases List.mem_append.mp hg with hold | hnew
    · exact hold
    · rw [List.mem_singleton.mp hnew] at hresume
      cases hresume
  | post t => exact absurd rfl (hpost t)
  | cancel t | resolve t =>
    simp only [outsideStep, Option.some.injEq] at hs
    subst hs
    exact hg
  | trigger id =>
    simp only [outsideStep, Option.ite_none_right_eq_some] at hs
    obtain ⟨_, hs⟩ := hs
    split at hs <;> obtain rfl := Option.some.inj hs <;> exact hg
  | request mode =>
    simp only [outsideStep, Option.ite_none_left_eq_some, Option.some.injEq] at hs
    obtain ⟨_, rfl⟩ := hs
    unfold requestShutdownMode at hg
    split at hg <;> exact hg
  | sweepQueues | finalize =>
    simp only [outsideStep, Option.ite_none_right_eq_some, Option.some.injEq] at hs
    obtain ⟨_, rfl⟩ := hs
    exact resume_sweepQueues hlocals hg
  | publishStopped =>
    simp only [outsideStep] at hs
    split at hs
    · obtain rfl := Option.some.inj hs
      exact hg
    · cases hs

/-- What is so in every state as long as the timers are cancelled in time. -/
structure Swept (s : Runtime n) : Prop where
  cancelled : s.sweep = .done → s.timers = []
  looked : LookedLast s → ∀ g ∈ s.global, g.resume = false

theorem not_lookedLast {w : Fin n} (h : (s.workers w).loc.out = false) : ¬ LookedLast s := by
  intro hlast
  rcases hlast w with hread | hexited
  · simp [(WorkerLoc.out_of_queuesRead hread).1] at h
  · simp [hexited, WorkerLoc.out] at h

theorem offersWork_resumes {immediate : Bool} (h : s.offersWork immediate = false) :
    ∀ g ∈ s.global, g.resume = false := by
  intro g hg
  simp only [Runtime.offersWork, Bool.or_eq_false_iff] at h
  have hglobal := h.1
  split at hglobal
  · simpa using List.any_eq_false.mp hglobal g hg
  · have hempty : s.global = [] := by simpa using hglobal
    simp [hempty] at hg

/-- The worker that is about to leave has looked at the queues. -/
theorem Orderly.queuesRead_of_leaves (h : Orderly s) {w : Fin n}
    (hleaves : Leaves s (s.workers w).loc) : (s.workers w).loc.queuesRead := by
  have hne := hleaves.out.2
  have hrunning : s.status.state ≠ .stopped := fun hst => hne (h.stopped hst w)
  generalize (s.workers w).loc = loc at hleaves
  cases hleaves with
  | stopped _ hst => exact absurd hst hrunning
  | immediate _ => rfl
  | graceful _ => rfl

/-- Worker `w` moves on in its exit check, and the queues stay as they are. -/
theorem Swept.moves (h : Swept s) {w : Fin n} {loc : WorkerLoc} (holder : Option (Fin n))
    (hlook : loc.queuesRead ∨ loc = .exited → (s.workers w).loc.queuesRead ∨
      ∀ g ∈ s.global, g.resume = false) :
    Swept { s.setWorker w { s.workers w with loc := loc } with lifecycleMutex := holder } where
  cancelled := h.cancelled
  looked hlast := by
    have hself := hlast w
    rw [show (({ s.setWorker w { s.workers w with loc := loc } with
      lifecycleMutex := holder } : Runtime n).workers w) = _ from workers_setWorker_same] at hself
    rcases hlook hself with hread | hnone
    · refine h.looked fun v => ?_
      by_cases hv : v = w
      · exact hv ▸ .inl hread
      · have hother := hlast v
        rwa [show (({ s.setWorker w { s.workers w with loc := loc } with
          lifecycleMutex := holder } : Runtime n).workers v) = _ from
            workers_setWorker_of_ne hv] at hother
    · exact hnone

theorem Swept.workerStep (h : Swept s) (hacc : Accounted own s) {w : Fin n} {e : WorkerStep n}
    (hsleep : e = .sleep false → s.sweep ≠ .done) (hs : workerStep own s w e = some s') :
    Swept s' := by
  by_cases hcheck : e = .check
  · subst hcheck
    rcases check_cases hs with ⟨loc, hadv, rfl⟩ | ⟨_, _, rfl⟩ | ⟨hleaves, rfl⟩
    · refine h.moves s.lifecycleMutex fun hlook => ?_
      generalize (s.workers w).loc = old at hadv
      cases hadv with
      | status _ _ => simp [WorkerLoc.queuesRead] at hlook
      | queues hnone => exact .inr (offersWork_resumes hnone)
      | timers _ => exact .inl rfl
    · exact h.moves none fun hlook => by simp [WorkerLoc.queuesRead] at hlook
    · exact h.moves none fun _ => .inl (hacc.orderly.queuesRead_of_leaves hleaves)
  obtain ⟨hsweep, htimers⟩ := sweep_workerStep hs
  refine ⟨fun hdone => ?_, ?_⟩
  · rw [hsweep] at hdone
    exact htimers (fun heq => hsleep heq hdone) (h.cancelled hdone)
  by_cases hlock : e = .lock
  · subst hlock
    simp only [Drain.workerStep, Option.ite_none_right_eq_some, Option.some.injEq] at hs
    obtain ⟨_, rfl⟩ := hs
    exact (h.moves (some w) fun hlook => by simp [WorkerLoc.queuesRead] at hlook).looked
  · have hin := inside_workerStep hacc.orderly.mode (hacc.sound.workers w) hs hlock hcheck
    exact fun hlast => absurd hlast (not_lookedLast hin.after)

theorem Swept.outsideStep (h : Swept s) (hacc : Accounted own s) {e : OutsideStep}
    (hpost : ∀ t ∈ s.hands, e = .post t → ¬ LookedLast s)
    (hs : outsideStep own s e = some s') : Swept s' := by
  have ho := outside_outsideStep hacc.orderly.mode hs
  refine ⟨fun hdone => ?_, fun hlast g hg => ?_⟩
  · rcases sweep_outsideStep hs hdone with hbefore | hnone
    · exact ho.timers (h.cancelled hbefore)
    · exact hnone
  · have hlast : LookedLast s := by
      rw [LookedLast, ho.workers] at hlast
      exact hlast
    refine Bool.eq_false_iff.mpr fun hresume => ?_
    refine absurd (h.looked hlast g (resume_outsideStep ?_ ?_ hs hg hresume)) (by simp [hresume])
    · exact hacc.orderly.locals_of_lookedLast hlast
    · rintro t rfl
      simp only [Drain.outsideStep, Option.ite_none_right_eq_some] at hs
      exact hpost t hs.1 rfl hlast

theorem swept_of_reachable (h : (machine own n).ReachableUnder CancelledInTime s) : Swept s := by
  refine And.right (h.invariant (fun s => Accounted own s ∧ Swept s) ?_ ?_)
  · rintro s ⟨_, rfl⟩
    exact ⟨accounted_started own n, ⟨fun _ => rfl, fun _ g hg => absurd hg List.not_mem_nil⟩⟩
  · rintro s a s' ⟨hacc, hswept⟩ ⟨hslot, hsleep, hpost, -⟩ hs
    refine ⟨hacc.step hslot hs, ?_⟩
    cases a with
    | outside e => exact hswept.outsideStep hacc (fun t ht heq => hpost t ht (heq ▸ rfl)) hs
    | worker w e => exact hswept.workerStep hacc (fun heq => hsleep w (heq ▸ rfl)) hs

/-! ### After the last worker -/

/-- The timer queue is empty, and no thread outside is about to resume anybody. -/
def Quiet (s : Runtime n) : Prop := s.timers = [] ∧ Settled s

/-- The callbacks of a task that is not awaited are nobody's. -/
theorem not_mem_awaitersOf {t : TaskId} (h : ∀ b ∈ s.awaits, b.target ≠ .completion (.task t))
    (id : Nat) : id ∉ s.awaitersOf t := by
  intro hid
  obtain ⟨b, hb, _⟩ := List.mem_map.mp hid
  obtain ⟨hmem, htarget⟩ := List.mem_filter.mp hb
  exact h b hmem (by simpa using htarget)

/-- A sweep of the queues completes nothing awaited. -/
theorem Settled.sweepQueues (h : Settled s)
    (hok : ∀ b ∈ s.awaits, (s.queuedFirst.any fun t =>
      s.tasks t = some .ready ∧ b.target = .completion (.task t)) = false) :
    Settled (sweepQueues s) := by
  refine ⟨h.1, fun b hb hmem => ?_⟩
  rcases List.mem_append.mp hmem with hold | hnew
  · exact h.2 b hb hold
  · obtain ⟨t, ht, hid⟩ := List.mem_flatMap.mp hnew
    obtain ⟨hqueued, hready⟩ := List.mem_filter.mp ht
    refine not_mem_awaitersOf (fun c hc htarget => ?_) b.id hid
    have hno := List.any_eq_false.mp (hok c hc) t hqueued
    simp [htarget] at hno hready
    exact hno hready

/-- From a quiet runtime the steps outside that complete nothing awaited lead to a quiet
one. -/
theorem Quiet.outsideStep (h : Quiet s) {e : OutsideStep}
    (hok : ∀ await ∈ s.awaits, Label.resolves (n := n) s (.outside e) await = false)
    (hs : outsideStep own s e = some s') : Quiet s' := by
  obtain ⟨htimers, hhands, houtside⟩ := h
  cases e with
  | acquire t | stop | joinWorkers | publish t =>
    simp only [Drain.outsideStep, Option.ite_none_right_eq_some, Option.some.injEq] at hs
    obtain ⟨_, rfl⟩ := hs
    exact ⟨htimers, hhands, houtside⟩
  | cancel t =>
    simp only [Drain.outsideStep, Option.some.injEq] at hs
    subst hs
    refine ⟨htimers, hhands, fun b hb hmem => ?_⟩
    rcases List.mem_append.mp hmem with hold | hnew
    · exact houtside b hb hold
    · simp only [requestCancel] at hnew
      split at hnew
      · rename_i hready
        refine not_mem_awaitersOf (fun c hc htarget => ?_) b.id hnew
        simpa [Label.resolves, hready, htarget] using hok c hc
      · simp at hnew
  | resolve id =>
    simp only [Drain.outsideStep, Option.some.injEq] at hs
    subst hs
    refine ⟨by simp [htimers], hhands, fun b hb hmem => ?_⟩
    rcases List.mem_cons.mp hmem with heq | hold
    · simpa [Label.resolves, heq] using hok b hb
    · exact houtside b hb hold
  | trigger id =>
    simp only [Drain.outsideStep, Option.ite_none_right_eq_some] at hs
    obtain ⟨hid, hs⟩ := hs
    cases hfind : s.awaits.find? fun a => a.id = id with
    | none =>
      simp only [hfind, Option.some.injEq] at hs
      subst hs
      exact ⟨htimers, hhands, fun b hb hmem => houtside b hb (List.mem_of_mem_erase hmem)⟩
    | some a =>
      -- a trigger in hand would be of an await that is registered
      have heq : a.id = id := by simpa using List.find?_some hfind
      exact absurd (heq ▸ hid) (houtside a (List.mem_of_find?_eq_some hfind))
  | post t => simp [Drain.outsideStep, hhands] at hs
  | drop t => simp [Drain.outsideStep, hhands] at hs
  | request mode =>
    simp only [Drain.outsideStep, Option.ite_none_left_eq_some, Option.some.injEq] at hs
    obtain ⟨_, rfl⟩ := hs
    unfold requestShutdownMode
    split <;> exact ⟨htimers, hhands, houtside⟩
  | sweepQueues | finalize =>
    simp only [Drain.outsideStep, Option.ite_none_right_eq_some, Option.some.injEq] at hs
    obtain ⟨_, rfl⟩ := hs
    exact ⟨htimers, Settled.sweepQueues ⟨hhands, houtside⟩ hok⟩
  | cancelTimers =>
    simp only [Drain.outsideStep, Option.ite_none_right_eq_some, Option.some.injEq] at hs
    obtain ⟨_, rfl⟩ := hs
    exact ⟨rfl, hhands, by simpa [htimers] using houtside⟩
  | publishStopped =>
    simp only [Drain.outsideStep] at hs
    split at hs
    · obtain rfl := Option.some.inj hs
      exact ⟨htimers, hhands, houtside⟩
    · cases hs

/-- The ways the mode becomes Immediate. -/
theorem immediate_cases {e : OutsideStep} (hs : outsideStep own s e = some s')
    (hmode : s'.status.shutdownMode = .immediate) :
    s.status.shutdownMode = .immediate ∨
      e = .request .immediate ∧ s.status.state ≠ .stopped ∨ s.joined = some .immediate := by
  cases e with
  | acquire t | publish t | post t | drop t | stop | joinWorkers | sweepQueues | finalize
  | cancelTimers =>
    simp only [outsideStep, Option.ite_none_right_eq_some, Option.some.injEq] at hs
    obtain ⟨_, rfl⟩ := hs
    exact .inl hmode
  | cancel t | resolve t =>
    simp only [outsideStep, Option.some.injEq] at hs
    subst hs
    exact .inl hmode
  | trigger id =>
    simp only [outsideStep, Option.ite_none_right_eq_some] at hs
    obtain ⟨_, hs⟩ := hs
    split at hs <;> obtain rfl := Option.some.inj hs <;> exact .inl hmode
  | request mode =>
    simp only [outsideStep, Option.ite_none_left_eq_some, Option.some.injEq] at hs
    obtain ⟨_, rfl⟩ := hs
    rcases requestShutdownMode_status (s := s) mode with heq | hex
    · exact .inl (heq ▸ hmode)
    · refine .inr (.inl ⟨?_, fun hst => ?_⟩)
      · rw [(exchanged_cases hex).2.1.symm.trans hmode]
      · simp [exchanged, hst] at hex
  | publishStopped =>
    simp only [outsideStep] at hs
    split at hs
    · rename_i mode hj
      obtain rfl := Option.some.inj hs
      exact .inr (.inr (hj.trans (congrArg some hmode)))
    · cases hs

/-- In a quiet runtime without workers nobody is asleep. -/
theorem Quiet.sleepersResumed (h : Quiet s) (hacc : Accounted own s) (hswept : Swept s)
    (hhand : Handshakes s) (hall : s.AllExited) : SleepersResumed own s := by
  obtain ⟨htimers, hhands, houtside⟩ := h
  have hglobal := hswept.looked fun w => .inr (hall w)
  have hout : ∀ v, (s.workers v).loc.out := fun v => by rw [hall v]; rfl
  have hresume : ∀ t, ¬ Present own s ⟨t, true⟩ := by
    intro t hp
    rcases hp.of_out hacc.sound hout (hacc.orderly.drained hall).1 with hg | ⟨hfirst, _⟩ | ⟨_, hh⟩
    · exact absurd (hglobal _ hg) (by simp)
    · cases hfirst
    · simp [hhands] at hh
  intro _ _
  refine ⟨htimers, hresume, fun t ht => ?_⟩
  rcases (hacc.placed t).suspended ht with ⟨await, hmem, hwaiter⟩ | hp
  · refine ⟨await, hmem, hwaiter, fun htimer => ?_⟩
    rcases hhand.timed await hmem htimer with hp | hp | ⟨v, hp⟩
    · simp [htimers] at hp
    · exact houtside await hmem hp
    · have hnone := ((hacc.sound.workers v).parked (.inl (by simp [hall v]))).2
      simp [hnone] at hp
  · exact absurd hp (hresume t)

/-- The runtime is quiet once the last worker has left in Immediate mode. -/
theorem quiet_of_reachable (h : (machine own n).ReachableUnder CancelledInTime s)
    (hall : s.AllExited) : s.status.shutdownMode = .immediate → Quiet s := by
  refine holds_afterExit (fun s => s.status.shutdownMode = .immediate → Quiet s)
    (fun _ _ hok => hok.2.1) ?_ ?_ (h.strengthen fun _ => swept_of_reachable) hall
  · intro s w _ hlast hok hmode
    obtain ⟨hdone, hsettled⟩ := hok.2.2.2.2.1 w rfl hlast hmode
    exact ⟨hok.1.cancelled hdone, hsettled⟩
  · intro s e s' hacc hall hP hok hs hmode
    by_cases hbefore : s.status.shutdownMode = .immediate
    · exact (hP hbefore).outsideStep (hok.2.2.2.2.2.2 hall hbefore) hs
    · rcases immediate_cases hs hmode with hold | ⟨rfl, hst⟩ | hj
      · exact absurd hold hbefore
      · -- what has made a Graceful exit has left no timer
        have hquiet : Quiet s :=
          ⟨(hacc.orderly.drained hall).2 hbefore, hok.2.2.2.2.2.1 rfl hall hst⟩
        exact hquiet.outsideStep (fun _ _ => rfl) hs
      · exact absurd ((hacc.orderly.joined _ hj).2.1 rfl) hbefore

/-- **Immediate shutdown resumes every sleeper** unless one goes to sleep after the timers
are cancelled, or the last worker leaves before that or while a resume is on its way. -/
theorem sleepersResumed_of_reachable
    (h : (machine own n).ReachableUnder CancelledInTime s) : SleepersResumed own s := by
  have hacc := accounted_of_reachable (h.mono fun _ _ hok => hok.1)
  intro hall hmode
  exact (quiet_of_reachable h hall hmode).sleepersResumed hacc (swept_of_reachable h)
    (handshakes_of_reachable h.reachable) hall hall hmode

section Runs

/-- A coroutine sleeps; the shutdown is Immediate, its thread cancels the timer and posts
the resume, and the worker runs the coroutine to its end before it leaves. -/
def cancelSleeper : List (Label 1) :=
  spawnUpTo (.sleep false) ++
    ([.outside (.request .immediate), .outside .sweepQueues, .outside .cancelTimers, .outside .stop,
      .outside (.trigger 0), .outside (.post onlyTask), .worker 0 (.claim .global ⟨onlyTask, true⟩),
      .worker 0 (.dispatch true), .worker 0 (.finish .cancelled), .worker 0 (.segmentReturn true),
      .worker 0 .lock, .worker 0 .check, .worker 0 .check, .worker 0 .check] : List (Label 1))

theorem sleepersResumed_cancelSleeper :
    ∃ s, (machine oneWorker 1).run (started oneWorker 1) cancelSleeper = some s ∧
      s.AllExited ∧ s.status.shutdownMode = .immediate ∧ SleepersResumed oneWorker s := by
  obtain ⟨s, hs⟩ := Option.isSome_iff_exists.mp
    (show ((machine oneWorker 1).run (started oneWorker 1) cancelSleeper).isSome by decide)
  have hend : ((machine oneWorker 1).run (started oneWorker 1) cancelSleeper).map
      (fun s => decide (s.AllExited ∧ s.status.shutdownMode = .immediate)) = some true := by decide
  simp only [hs, Option.map_some, Option.some.injEq, decide_eq_true_eq] at hend
  have hinit : (machine oneWorker 1).ReachableUnder CancelledInTime (started oneWorker 1) :=
    .initial ⟨by decide, rfl⟩
  exact ⟨s, hs, hend.1, hend.2, sleepersResumed_of_reachable (hinit.run (by decide) hs)⟩

/-- The coroutine is still running when the timers are cancelled, and then goes to sleep. -/
def sleepAfterSweep : List (Label 1) :=
  [.outside (.acquire onlyTask), .outside (.publish onlyTask),
    .worker 0 (.claim .global ⟨onlyTask, false⟩), .worker 0 (.dispatch false),
    .outside (.request .immediate), .outside .sweepQueues, .outside .cancelTimers, .outside .stop,
    .worker 0 (.sleep false), .worker 0 (.segmentReturn false),
    .worker 0 .lock, .worker 0 .check, .worker 0 .check, .worker 0 .check]

/-- The last worker leaves over an armed timer. -/
theorem sleepAfterSweep_strands_sleeper :
    ∃ s, (machine oneWorker 1).Reachable s ∧ s.AllExited ∧
      s.status.shutdownMode = .immediate ∧ s.timers = [0] ∧ s.tasks onlyTask = some .suspended ∧
      ¬ SleepersResumed oneWorker s := by
  obtain ⟨s, hs⟩ := Option.isSome_iff_exists.mp
    (show ((machine oneWorker 1).run (started oneWorker 1) sleepAfterSweep).isSome by decide)
  have hend : ((machine oneWorker 1).run (started oneWorker 1) sleepAfterSweep).map
      (fun s => decide (s.AllExited ∧ s.status.shutdownMode = .immediate ∧ s.timers = [0] ∧
        s.tasks onlyTask = some .suspended)) = some true := by decide
  simp only [hs, Option.map_some, Option.some.injEq, decide_eq_true_eq] at hend
  obtain ⟨hall, hmode, htimers, hsus⟩ := hend
  refine ⟨s, Transition.Machine.reachable_of_run ⟨by decide, rfl⟩ hs, hall, hmode, htimers,
    hsus, fun hdone => ?_⟩
  simpa [htimers] using (hdone hall hmode).1

end Runs

end Drain
end AstraScheduler
