import AstraScheduler.DrainAccount

/-! # The exit check under every interleaving

A worker leaves its loop after a row of reads, all of them under `lifecycle_mutex`.  What
it has read may be out of date when it leaves: threads outside the pool publish without
that mutex.  What only the workers write stays as it was read when the other workers have
left: their local queues and the timer queue. -/

namespace AstraScheduler
namespace Drain

open Transition (Machine)
open HelpingWait (Segment exitFrame)

variable {n : Nat} {own : Impl} {s s' : Runtime n}

/-! ## Shutdown goes forward -/

/-- What the exit check and the shutdown requests work on. -/
def Runtime.control (s : Runtime n) :
    SchedulerStatus × Bool × Option (Fin n) × Option ShutdownMode :=
  (s.status, s.stopRequested, s.lifecycleMutex, s.joined)

section Control
variable {w : Fin n}

@[simp] theorem control_setWorker (x : Worker) : (s.setWorker w x).control = s.control := rfl

@[simp] theorem control_enqueue (room : Bool) (gs : List Segment) :
    (s.enqueue w room gs).control = s.control := by
  unfold Runtime.enqueue
  split <;> rfl

theorem control_dispatch (segment : Segment) (gated : Bool) :
    (dispatch s w segment gated).control = s.control := by
  simp only [dispatch]
  split_ifs
  · rfl
  · rfl
  · unfold Runtime.resume
    split <;> rfl

theorem control_claim {source : Source n} {segment : Segment}
    (hs : claim s w source segment = some s') : s'.control = s.control := by
  cases source with
  | global =>
    simp only [claim, Option.ite_none_right_eq_some, Option.some.injEq] at hs
    obtain ⟨_, rfl⟩ := hs
    rfl
  | «local» v =>
    simp only [claim, Option.ite_none_right_eq_some, Option.some.injEq] at hs
    obtain ⟨_, rfl⟩ := hs
    rfl

end Control

/-- A step takes no request back, unless it stores a mode that was read before one. -/
structure Forward (s s' : Runtime n) : Prop where
  stopRequested : s.stopRequested → s'.stopRequested
  status : s'.status = s.status ∨ s'.status.state ≠ .running
  immediate : s.joined = none → s.status.shutdownMode = .immediate →
    s'.status.shutdownMode = .immediate
  stopped : s.joined = none → s'.status.state = .stopped → s.status.state = .stopped

theorem Forward.of_control (h : s'.control = s.control) : Forward s s' := by
  simp only [Runtime.control, Prod.mk.injEq] at h
  obtain ⟨hstatus, hstop, _⟩ := h
  exact {
    stopRequested := by rw [hstop]; exact id
    status := .inl hstatus
    immediate := by rw [hstatus]; exact fun _ => id
    stopped := by rw [hstatus]; exact fun _ => id }

theorem exchanged_cases {mode : ShutdownMode} {status status' : SchedulerStatus}
    (h : exchanged mode status = some status') :
    status'.state = .stopping ∧ status'.shutdownMode = mode ∧
      (status.shutdownMode = .immediate → status.state = .running) := by
  unfold exchanged at h
  split at h
  · rename_i hstate
    obtain rfl := Option.some.inj h
    exact ⟨rfl, rfl, fun _ => hstate⟩
  · split at h
    · rename_i hmode
      obtain rfl := Option.some.inj h
      exact ⟨rfl, hmode.1.symm, fun himm => absurd himm hmode.2⟩
    · cases h
  · cases h

section Request
variable (mode : ShutdownMode)

theorem stopRequested_requestShutdownMode :
    (requestShutdownMode s mode).stopRequested = s.stopRequested := by
  unfold requestShutdownMode
  split <;> rfl

theorem workers_requestShutdownMode : (requestShutdownMode s mode).workers = s.workers := by
  unfold requestShutdownMode
  split <;> rfl

theorem joined_requestShutdownMode : (requestShutdownMode s mode).joined = s.joined := by
  unfold requestShutdownMode
  split <;> rfl

theorem lifecycleMutex_requestShutdownMode :
    (requestShutdownMode s mode).lifecycleMutex = s.lifecycleMutex := by
  unfold requestShutdownMode
  split <;> rfl

end Request

theorem requestShutdownMode_status (mode : ShutdownMode) :
    (requestShutdownMode s mode).status = s.status ∨
      exchanged mode s.status = some (requestShutdownMode s mode).status := by
  unfold requestShutdownMode
  cases h : exchanged mode s.status with
  | none => exact .inl rfl
  | some status => exact .inr rfl

/-- After a request the runtime is not Running, whoever made the exchange. -/
theorem left_requestShutdownMode (mode : ShutdownMode) :
    (requestShutdownMode s mode).status.state ≠ .running := by
  rcases requestShutdownMode_status (s := s) mode with heq | hex
  · intro hrun
    rw [heq] at hrun
    have hex : exchanged mode s.status = some ⟨.stopping, mode⟩ := by simp [exchanged, hrun]
    have hnew : (requestShutdownMode s mode).status.state = .stopping := by
      simp [requestShutdownMode, hex]
    rw [heq, hrun] at hnew
    cases hnew
  · simp [(exchanged_cases hex).1]

/-- The mode is set by the request that ends Running. -/
def ModeOk (s : Runtime n) : Prop := s.status.state = .running → s.status.shutdownMode = .none

theorem ModeOk.forward (h : ModeOk s) (hf : Forward s s') : ModeOk s' := by
  intro hrun
  rcases hf.status with heq | hne
  · rw [heq] at hrun ⊢
    exact h hrun
  · exact absurd hrun hne

theorem forward_requestShutdownMode (h : ModeOk s) (mode : ShutdownMode) :
    Forward s (requestShutdownMode s mode) := by
  have hstop := stopRequested_requestShutdownMode (s := s) mode
  rcases requestShutdownMode_status (s := s) mode with heq | hex
  · exact {
      stopRequested := by rw [hstop]; exact id
      status := .inl heq
      immediate := by rw [heq]; exact fun _ => id
      stopped := by rw [heq]; exact fun _ => id }
  · obtain ⟨hstate, _, himm⟩ := exchanged_cases hex
    exact {
      stopRequested := by rw [hstop]; exact id
      status := .inr (by simp [hstate])
      immediate := fun _ hmode => absurd (h (himm hmode)) (by simp [hmode])
      stopped := by simp [hstate] }

theorem forward_outsideStep (h : ModeOk s) {e : OutsideStep} (hs : outsideStep own s e = some s') :
    Forward s s' := by
  cases e with
  | cancel t | resolve id =>
    simp only [outsideStep, Option.some.injEq] at hs
    subst hs
    exact .of_control rfl
  | trigger id =>
    simp only [outsideStep, Option.ite_none_right_eq_some] at hs
    obtain ⟨_, hs⟩ := hs
    split at hs <;> obtain rfl := Option.some.inj hs <;> exact .of_control rfl
  | request mode =>
    simp only [outsideStep, Option.ite_none_left_eq_some, Option.some.injEq] at hs
    obtain ⟨_, rfl⟩ := hs
    exact forward_requestShutdownMode h mode
  | finalize | stop =>
    simp only [outsideStep, Option.ite_none_right_eq_some, Option.some.injEq] at hs
    obtain ⟨_, rfl⟩ := hs
    exact { stopRequested := fun _ => rfl, status := .inl rfl, immediate := fun _ => id,
            stopped := fun _ => id }
  | publishStopped =>
    simp only [outsideStep] at hs
    split at hs
    · rename_i mode hjoined
      obtain rfl := Option.some.inj hs
      exact { stopRequested := id, status := .inr (by simp), immediate := by simp [hjoined],
              stopped := by simp [hjoined] }
    · cases hs
  | joinWorkers | acquire t | publish t | post t | drop t | sweepQueues | cancelTimers =>
    simp only [outsideStep, Option.ite_none_right_eq_some, Option.some.injEq] at hs
    obtain ⟨_, rfl⟩ := hs
    exact { stopRequested := id, status := .inl rfl, immediate := fun _ => id,
            stopped := fun _ => id }

/-! ## Steps inside the loop -/

/-- A step of worker `w` between its search and its exit check. -/
structure Inside (s s' : Runtime n) (w : Fin n) : Prop where
  before : (s.workers w).loc.out = false
  after : (s'.workers w).loc.out = false
  others : ∀ v, v ≠ w → s'.workers v = s.workers v
  mutex : s'.lifecycleMutex = s.lifecycleMutex
  joined : s'.joined = s.joined
  handoff : (s.workers w).handoff → (s'.workers w).handoff ∨ s'.status.state ≠ .running
  asked : s'.stopRequested → s.stopRequested ∨ (s'.workers w).handoff
  forward : Forward s s'

/-- Worker `w` stays where it is, and the requests stay what they are. -/
structure Stays (s s' : Runtime n) (w : Fin n) : Prop where
  control : s'.control = s.control
  others : ∀ v, v ≠ w → s'.workers v = s.workers v
  loc : (s'.workers w).loc = (s.workers w).loc
  handoff : (s'.workers w).handoff = (s.workers w).handoff

section Stays
variable {w : Fin n} {s'' : Runtime n}

theorem Stays.trans (h : Stays s s' w) (h' : Stays s' s'' w) : Stays s s'' w where
  control := h'.control.trans h.control
  others := fun v hv => (h'.others v hv).trans (h.others v hv)
  loc := h'.loc.trans h.loc
  handoff := h'.handoff.trans h.handoff

theorem Stays.of_update {x : Worker} (hcontrol : s'.control = s.control)
    (hworkers : s'.workers = Function.update s.workers w x) (hloc : x.loc = (s.workers w).loc)
    (hhandoff : x.handoff = (s.workers w).handoff) : Stays s s' w where
  control := hcontrol
  others := fun v hv => by rw [hworkers, Function.update_of_ne hv]
  loc := by rw [hworkers, Function.update_self, hloc]
  handoff := by rw [hworkers, Function.update_self, hhandoff]

theorem Stays.enqueue (h : Stays s s' w) (room : Bool) (gs : List Segment) :
    Stays s (s'.enqueue w room gs) w where
  control := (control_enqueue room gs).trans h.control
  others := by simpa using h.others
  loc := by simpa using h.loc
  handoff := by simpa using h.handoff

theorem Stays.post (h : Stays s s' w) (room : Bool) (impl : Impl) (segment : Segment) :
    Stays s (post own s' w room impl segment) w := by
  unfold Drain.post
  refine h.trans (Stays.enqueue ?_ room _)
  exact .of_update rfl rfl rfl rfl

theorem Stays.triggerOn (h : Stays s s' w) (room : Bool) (id : Nat) :
    Stays s (triggerOn own s' w room id) w := by
  unfold Drain.triggerOn
  split
  · exact h
  · refine Stays.post ?_ room own _
    exact { h with }

theorem Stays.suspendOn (resolved : Bool) (target : AwaitTarget) :
    Stays s (suspendOn own s w resolved target) w := by
  unfold Drain.suspendOn
  cases resolved with
  | true =>
    refine Stays.post ?_ false own _
    exact .of_update rfl rfl rfl rfl
  | false => exact .of_update rfl rfl rfl rfl

theorem Stays.inside (h : Stays s s' w) (hloc : (s.workers w).loc = .loop) : Inside s s' w where
  before := by simp [hloc, WorkerLoc.out]
  after := by simp [h.loc, hloc, WorkerLoc.out]
  others := h.others
  mutex := congrArg (fun c => c.2.2.1) h.control
  joined := congrArg (fun c => c.2.2.2) h.control
  handoff := fun hh => .inl (h.handoff.trans hh)
  asked := fun ha => .inl ((congrArg (fun c => c.2.1) h.control).symm.trans ha)
  forward := .of_control h.control

end Stays

theorem inside_workerStep {w : Fin n} (hmode : ModeOk s) (hw : WorkerOk (s.workers w))
    {e : WorkerStep n} (hs : workerStep own s w e = some s') (hlock : e ≠ .lock)
    (hcheck : e ≠ .check) : Inside s s' w := by
  cases workerStep_cases hs with
  | @claim source segment _ hidle htriggers hclaim =>
    have hloc : (s.workers w).loc = .loop := by
      simp only [Worker.topLevel, Worker.helping, decide_eq_true_eq] at hidle
      exact hidle.elim And.left And.left
    -- from whichever queue, only the claimant's hands change
    have hworkers : s'.workers =
        (s.setWorker w { s.workers w with loc := .claimed segment }).workers := by
      cases source with
      | global =>
        simp only [claim, Option.ite_none_right_eq_some, Option.some.injEq] at hclaim
        obtain ⟨_, rfl⟩ := hclaim
        rfl
      | «local» v =>
        simp only [claim, Option.ite_none_right_eq_some, Option.some.injEq] at hclaim
        obtain ⟨_, rfl⟩ := hclaim
        rfl
    have hcontrol := control_claim hclaim
    exact {
      before := by simp [hloc, WorkerLoc.out]
      after := by rw [hworkers, workers_setWorker_same]; rfl
      others := fun v hv => by rw [hworkers, workers_setWorker_of_ne hv]
      mutex := congrArg (fun c => c.2.2.1) hcontrol
      joined := congrArg (fun c => c.2.2.2) hcontrol
      handoff := fun hh => .inl (by rw [hworkers, workers_setWorker_same]; exact hh)
      asked := fun ha => .inl ((congrArg (fun c => c.2.1) hcontrol).symm.trans ha)
      forward := .of_control hcontrol }
  | @dispatch segment gated hloc =>
    have hcontrol := control_dispatch (s := s) (w := w) segment gated
    -- gated, cancelled or executed: back in the loop, with the same handoff
    obtain ⟨x, hx, hxloc, hxhand⟩ : ∃ x : Worker,
        (dispatch s w segment gated).workers = (s.setWorker w x).workers ∧ x.loc = .loop ∧
          x.handoff = (s.workers w).handoff := by
      simp only [dispatch]
      split_ifs
      · exact ⟨_, rfl, rfl, rfl⟩
      · exact ⟨_, rfl, rfl, rfl⟩
      · exact ⟨_, rfl, rfl, rfl⟩
    exact {
      before := by simp [hloc, WorkerLoc.out]
      after := by rw [hx, workers_setWorker_same, hxloc]; rfl
      others := fun v hv => by rw [hx, workers_setWorker_of_ne hv]
      mutex := congrArg (fun c => c.2.2.1) hcontrol
      joined := congrArg (fun c => c.2.2.2) hcontrol
      handoff := fun hh => .inl (by rw [hx, workers_setWorker_same, hxhand]; exact hh)
      asked := fun ha => .inl ((congrArg (fun c => c.2.1) hcontrol).symm.trans ha)
      forward := .of_control hcontrol }
  | dueTimer htop hid =>
    simp only [Worker.topLevel, decide_eq_true_eq] at htop
    exact Stays.inside (.of_update rfl rfl rfl rfl) htop.1
  | @trigger room id ids hloc htr =>
    refine (Stays.triggerOn ?_ room id).inside hloc
    exact .of_update rfl rfl rfl rfl
  | beginWait hf hcoding hself =>
    exact Stays.inside (.of_update rfl rfl rfl rfl) (Worker.coding_iff.mp hcoding).1
  | endWait hf hhelp =>
    simp only [Worker.helping, decide_eq_true_eq] at hhelp
    exact Stays.inside (.of_update rfl rfl rfl rfl) hhelp.1
  | submit hcoding hfresh =>
    exact Stays.inside (.of_update rfl rfl rfl rfl) (Worker.coding_iff.mp hcoding).1
  | publish room hsub =>
    refine (Stays.enqueue ?_ room _).inside (hw.busy (.inl (by simp [hsub]))).1
    exact .of_update rfl rfl rfl rfl
  | await target resolved hcoding =>
    exact (Stays.suspendOn resolved _).inside (Worker.coding_iff.mp hcoding).1
  | sleep resolved hcoding =>
    exact (Stays.suspendOn resolved _).inside (Worker.coding_iff.mp hcoding).1
  | yield hcoding => exact (Stays.suspendOn true _).inside (Worker.coding_iff.mp hcoding).1
  | finish hcoding hterm =>
    exact Stays.inside (.of_update rfl rfl rfl rfl) (Worker.coding_iff.mp hcoding).1
  | resolve id hcoding =>
    exact Stays.inside (.of_update rfl rfl rfl rfl) (Worker.coding_iff.mp hcoding).1
  | cancel t hcoding =>
    exact Stays.inside (.of_update rfl rfl rfl rfl) (Worker.coding_iff.mp hcoding).1
  | @postElsewhere impl segment hloc hvalid =>
    have hsame : Stays s s w := .of_update rfl (Function.update_eq_self w s.workers).symm rfl rfl
    exact (hsame.post false impl segment).inside hloc
  | @segmentReturn room frame frames hf hloc hunw htr =>
    have hset : Stays s ((s.setWorker w { s.workers w with
        ctx := (exitFrame own (s.workers w).ctx frame).1
        frames := frames
        unwinding := false }).enqueue w room (exitFrame own (s.workers w).ctx frame).2) w := by
      refine Stays.enqueue ?_ room _
      exact .of_update rfl rfl rfl rfl
    exact Stays.inside { hset with } hloc
  | handoff hcoding =>
    have hloc := (Worker.coding_iff.mp hcoding).1
    have hhand : ((s.setWorker w { s.workers w with handoff := true }).workers w).handoff := by
      rw [workers_setWorker_same]
    exact {
      before := by simp [hloc, WorkerLoc.out]
      after := by
        show ((s.setWorker w _).workers w).loc.out = false
        rw [workers_setWorker_same, hloc]
        rfl
      others := fun v hv => workers_setWorker_of_ne hv
      mutex := rfl
      joined := rfl
      handoff := fun _ => .inl hhand
      asked := fun _ => .inr hhand
      forward := { stopRequested := fun _ => rfl, status := .inl rfl, immediate := fun _ => id,
                   stopped := fun _ => id } }
  | handoffRequest hhand =>
    have hloc := (hw.busy (.inr hhand)).1
    -- the word is not touched before the handoff asks for Graceful
    have hset : ModeOk (s.setWorker w { s.workers w with handoff := false }) := hmode
    have hworkers : (requestShutdownMode (s.setWorker w { s.workers w with handoff := false })
        .graceful).workers = (s.setWorker w { s.workers w with handoff := false }).workers :=
      workers_requestShutdownMode .graceful
    have hforward := forward_requestShutdownMode hset .graceful
    have hstop := stopRequested_requestShutdownMode
      (s := s.setWorker w { s.workers w with handoff := false }) .graceful
    exact {
      before := by simp [hloc, WorkerLoc.out]
      after := by rw [hworkers, workers_setWorker_same, hloc]; rfl
      others := fun v hv => by rw [hworkers, workers_setWorker_of_ne hv]
      mutex := lifecycleMutex_requestShutdownMode .graceful
      joined := joined_requestShutdownMode .graceful
      handoff := fun _ => .inr (left_requestShutdownMode .graceful)
      asked := fun ha => .inl (hstop.symm.trans ha)
      forward := { hforward with } }
  | lock htop htr hmutex => exact absurd rfl hlock
  | check hs => exact absurd rfl hcheck

/-! ## Steps outside the pool -/

/-- A step of a thread outside the pool. -/
structure Outside (s s' : Runtime n) : Prop where
  workers : s'.workers = s.workers
  mutex : s'.lifecycleMutex = s.lifecycleMutex
  locals : ∀ v, s.locals v = [] → s'.locals v = []
  timers : s.timers = [] → s'.timers = []
  asked : s'.stopRequested → s.stopRequested ∨ s.status.state ≠ .running
  mode : s'.status.shutdownMode ≠ .immediate → s.status.shutdownMode ≠ .immediate ∨
    ∃ mode, s.joined = some mode ∧ mode ≠ .immediate
  joined : ∀ mode, s'.joined = some mode →
    (s.joined = some mode ∨ s.AllExited ∧ mode = s.status.shutdownMode) ∧
      (s.status.shutdownMode = .immediate → s'.status.shutdownMode = .immediate)
  forward : Forward s s'

/-- A step outside that leaves the status and the join alone. -/
theorem Outside.of_status (hworkers : s'.workers = s.workers)
    (hmutex : s'.lifecycleMutex = s.lifecycleMutex)
    (hlocals : ∀ v, s.locals v = [] → s'.locals v = []) (htimers : s.timers = [] → s'.timers = [])
    (hasked : s'.stopRequested → s.stopRequested ∨ s.status.state ≠ .running)
    (hstatus : s'.status = s.status) (hjoined : s'.joined = s.joined) (hforward : Forward s s') :
    Outside s s' where
  workers := hworkers
  mutex := hmutex
  locals := hlocals
  timers := htimers
  asked := hasked
  mode := by rw [hstatus]; exact .inl
  joined := by rw [hstatus, hjoined]; exact fun _ h => ⟨.inl h, id⟩
  forward := hforward

theorem outside_outsideStep (hmode : ModeOk s) {e : OutsideStep}
    (hs : outsideStep own s e = some s') : Outside s s' := by
  have hforward := forward_outsideStep hmode hs
  cases e with
  | cancel t =>
    simp only [outsideStep, Option.some.injEq] at hs
    subst hs
    exact .of_status rfl rfl (fun _ => id) id .inl rfl rfl hforward
  | resolve id =>
    simp only [outsideStep, Option.some.injEq] at hs
    subst hs
    exact .of_status rfl rfl (fun _ h => h) (fun h => by simp [h]) .inl rfl rfl hforward
  | trigger id =>
    simp only [outsideStep, Option.ite_none_right_eq_some] at hs
    obtain ⟨_, hs⟩ := hs
    split at hs <;> obtain rfl := Option.some.inj hs
    · exact .of_status rfl rfl (fun _ h => h) (fun h => h) .inl rfl rfl hforward
    · exact .of_status rfl rfl (fun _ h => h) (fun h => h) .inl rfl rfl hforward
  | request mode =>
    simp only [outsideStep, Option.ite_none_left_eq_some, Option.some.injEq] at hs
    obtain ⟨_, rfl⟩ := hs
    -- a request leaves the stop flag to `stop`, and never lowers the mode
    have hstop := stopRequested_requestShutdownMode (s := s) mode
    have himm : s.status.shutdownMode = .immediate →
        (requestShutdownMode s mode).status.shutdownMode = .immediate := by
      rcases requestShutdownMode_status (s := s) mode with heq | hex
      · rw [heq]
        exact id
      · exact fun hold => absurd (hmode ((exchanged_cases hex).2.2 hold)) (by simp [hold])
    refine { workers := workers_requestShutdownMode mode
             mutex := lifecycleMutex_requestShutdownMode mode
             locals := ?_, timers := ?_, asked := fun ha => .inl (hstop.symm.trans ha)
             mode := fun hne => .inl fun hold => hne (himm hold)
             joined := by
               rw [joined_requestShutdownMode]
               exact fun _ h => ⟨.inl h, himm⟩
             forward := hforward }
    · unfold requestShutdownMode
      split <;> exact fun _ => id
    · unfold requestShutdownMode
      split <;> exact id
  | sweepQueues =>
    simp only [outsideStep, Option.ite_none_right_eq_some, Option.some.injEq] at hs
    obtain ⟨_, rfl⟩ := hs
    exact .of_status rfl rfl (fun _ _ => rfl) id .inl rfl rfl hforward
  | finalize =>
    simp only [outsideStep, Option.ite_none_right_eq_some, Option.some.injEq] at hs
    obtain ⟨⟨hstate, _⟩, rfl⟩ := hs
    -- the sweep at the end runs in Immediate mode or once Stopped is stored
    refine .of_status rfl rfl (fun _ _ => rfl) id (fun _ => .inr fun hrun => ?_) rfl rfl hforward
    rcases hstate with himm | hstopped
    · simp [hmode hrun] at himm
    · simp [hrun] at hstopped
  | stop =>
    simp only [outsideStep, Option.ite_none_right_eq_some, Option.some.injEq] at hs
    obtain ⟨⟨hstate, _⟩, rfl⟩ := hs
    exact .of_status rfl rfl (fun _ => id) id (fun _ => .inr hstate) rfl rfl hforward
  | cancelTimers =>
    simp only [outsideStep, Option.ite_none_right_eq_some, Option.some.injEq] at hs
    obtain ⟨_, rfl⟩ := hs
    exact .of_status rfl rfl (fun _ => id) (fun _ => rfl) .inl rfl rfl hforward
  | acquire t | publish t | post t | drop t =>
    simp only [outsideStep, Option.ite_none_right_eq_some, Option.some.injEq] at hs
    obtain ⟨_, rfl⟩ := hs
    exact .of_status rfl rfl (fun _ => id) id .inl rfl rfl hforward
  | joinWorkers =>
    simp only [outsideStep, Option.ite_none_right_eq_some, Option.some.injEq] at hs
    -- the join returns when every worker has left
    obtain ⟨⟨_, _, hall⟩, rfl⟩ := hs
    exact { workers := rfl, mutex := rfl, locals := fun _ => id, timers := id, asked := .inl,
            mode := .inl, joined := fun mode h => ⟨.inr ⟨hall, (Option.some.inj h).symm⟩, id⟩,
            forward := hforward }
  | publishStopped =>
    simp only [outsideStep] at hs
    split at hs
    · rename_i mode hjoined
      obtain rfl := Option.some.inj hs
      exact { workers := rfl, mutex := rfl, locals := fun _ => id, timers := id, asked := .inl,
              mode := fun hne => .inr ⟨mode, hjoined, hne⟩, joined := by simp,
              forward := hforward }
    · cases hs

/-! ## The invariant -/

/-- Past the read of `stop_requested`. -/
def WorkerLoc.past : WorkerLoc → Bool
  | .checking _ | .noWork _ | .noTimers | .exited => true
  | .loop | .claimed _ | .locked => false

/-- Past the look at the queues. -/
def WorkerLoc.queuesRead : WorkerLoc → Bool
  | .noWork _ | .noTimers => true
  | .loop | .claimed _ | .locked | .checking _ | .exited => false

theorem WorkerLoc.out_of_past {loc : WorkerLoc} (h : loc.past) : loc.out := by
  cases loc with
  | checking _ | noWork _ | noTimers | exited => rfl
  | _ => cases h

theorem WorkerLoc.out_of_queuesRead {loc : WorkerLoc} (h : loc.queuesRead) :
    loc.out ∧ loc ≠ .exited := by
  cases loc with
  | noWork immediate => simp [WorkerLoc.out]
  | noTimers => simp [WorkerLoc.out]
  | _ => cases h

theorem WorkerLoc.out_of_immediate {loc : WorkerLoc} (h : loc = .checking true ∨ loc = .noWork true) :
    loc.out ∧ loc ≠ .exited := by
  rcases h with rfl | rfl <;> simp [WorkerLoc.out]

/-- What the others have left behind stays as the worker in the exit check has read it. -/
structure Orderly (s : Runtime n) : Prop where
  mode : ModeOk s
  mutex : ∀ w, (s.workers w).loc.out → (s.workers w).loc ≠ .exited → s.lifecycleMutex = some w
  stopped : s.status.state = .stopped → s.AllExited
  past : ∀ w, (s.workers w).loc.past → s.stopRequested
  /-- `execute_worker_orphan_handoff` stops the workers before it ends Running. -/
  left : s.stopRequested → s.status.state ≠ .running ∨ ∃ w, (s.workers w).handoff
  immediate : ∀ w, (s.workers w).loc = .checking true ∨ (s.workers w).loc = .noWork true →
    s.status.shutdownMode = .immediate
  queues : ∀ w, (s.workers w).loc.queuesRead → (∀ v, v ≠ w → (s.workers v).loc = .exited) →
    ∀ v, s.locals v = []
  timers : ∀ w, (s.workers w).loc = .noTimers → (∀ v, v ≠ w → (s.workers v).loc = .exited) →
    s.timers = []
  drained : s.AllExited →
    (∀ v, s.locals v = []) ∧ (s.status.shutdownMode ≠ .immediate → s.timers = [])
  joined : ∀ mode, s.joined = some mode → s.AllExited ∧
    (mode = .immediate → s.status.shutdownMode = .immediate) ∧ (mode ≠ .immediate → s.timers = [])

theorem Orderly.inside {w : Fin n} (h : Orderly s) (hi : Inside s s' w) : Orderly s' := by
  have hother : ∀ v, (s'.workers v).loc.out → s'.workers v = s.workers v := by
    intro v hv
    by_cases hvw : v = w
    · subst hvw
      simp [hi.after] at hv
    · exact hi.others v hvw
  have hnot : ¬ s.AllExited := fun hall => by simpa [hall w, WorkerLoc.out] using hi.before
  have hjoined : s.joined = none := by
    cases hj : s.joined with
    | none => rfl
    | some mode => exact absurd (h.joined mode hj).1 hnot
  -- whoever waits for `w` to exit waits for a worker in its loop
  have hlast : ∀ v, (s'.workers v).loc.out →
      ¬ ∀ u, u ≠ v → (s'.workers u).loc = .exited := by
    intro v hv hall
    by_cases hvw : w = v
    · subst hvw
      simp [hi.after] at hv
    · simpa [hall w hvw, WorkerLoc.out] using hi.after
  exact {
    mode := h.mode.forward hi.forward
    mutex := by
      intro v hout hne
      have heq := hother v hout
      rw [heq] at hout hne
      rw [hi.mutex]
      exact h.mutex v hout hne
    stopped := fun hst => absurd (h.stopped (hi.forward.stopped hjoined hst)) hnot
    past := by
      intro v hv
      rw [hother v (WorkerLoc.out_of_past hv)] at hv
      exact hi.forward.stopRequested (h.past v hv)
    left := by
      intro hask
      rcases hi.asked hask with hold | hhand
      · rcases h.left hold with hleft | ⟨v, hv⟩
        · rcases hi.forward.status with heq | hne
          · exact .inl (by rw [heq]; exact hleft)
          · exact .inl hne
        · by_cases hvw : v = w
          · subst hvw
            exact (hi.handoff hv).symm.imp id fun hh => ⟨v, hh⟩
          · exact .inr ⟨v, by rw [hi.others v hvw]; exact hv⟩
      · exact .inr ⟨w, hhand⟩
    immediate := by
      intro v hv
      rw [hother v (WorkerLoc.out_of_immediate hv).1] at hv
      exact hi.forward.immediate hjoined (h.immediate v hv)
    queues := fun v hv hall => absurd hall (hlast v (WorkerLoc.out_of_queuesRead hv).1)
    timers := fun v hv hall => absurd hall (hlast v (by simp [hv, WorkerLoc.out]))
    drained := fun hall => by simpa [hall w, WorkerLoc.out] using hi.after
    joined := by simp [hi.joined, hjoined] }

theorem Orderly.outside (h : Orderly s) (ho : Outside s s') : Orderly s' := by
  have hall : s'.AllExited ↔ s.AllExited := by simp [Runtime.AllExited, ho.workers]
  have hleft : s.status.state ≠ .running → s'.status.state ≠ .running := by
    intro hne
    rcases ho.forward.status with heq | hne'
    · rw [heq]
      exact hne
    · exact hne'
  exact {
    mode := h.mode.forward ho.forward
    mutex := by rw [ho.workers, ho.mutex]; exact h.mutex
    stopped := by
      intro hst
      cases hj : s.joined with
      | none => exact hall.mpr (h.stopped (ho.forward.stopped hj hst))
      | some mode => exact hall.mpr (h.joined mode hj).1
    past := by
      rw [ho.workers]
      exact fun w hw => ho.forward.stopRequested (h.past w hw)
    left := by
      rw [ho.workers]
      intro hask
      rcases ho.asked hask with hold | hne
      · exact (h.left hold).imp hleft id
      · exact .inl (hleft hne)
    immediate := by
      rw [ho.workers]
      intro w hw
      have hin := WorkerLoc.out_of_immediate hw
      cases hj : s.joined with
      | none => exact ho.forward.immediate hj (h.immediate w hw)
      | some mode => exact absurd ((h.joined mode hj).1 w) hin.2
    queues := by
      rw [ho.workers]
      exact fun w hw hothers v => ho.locals v (h.queues w hw hothers v)
    timers := by
      rw [ho.workers]
      exact fun w hw hothers => ho.timers (h.timers w hw hothers)
    drained := by
      rw [hall]
      intro hex
      obtain ⟨hlocals, htimers⟩ := h.drained hex
      refine ⟨fun v => ho.locals v (hlocals v), fun hne => ho.timers ?_⟩
      rcases ho.mode hne with hold | ⟨mode, hj, hm⟩
      · exact htimers hold
      · exact (h.joined mode hj).2.2 hm
    joined := by
      intro mode hj
      rw [hall]
      obtain ⟨hold, himm⟩ := ho.joined mode hj
      rcases hold with hold | ⟨hex, rfl⟩
      · obtain ⟨hex, hread, htimers⟩ := h.joined mode hold
        exact ⟨hex, fun hm => himm (hread hm), fun hm => ho.timers (htimers hm)⟩
      · exact ⟨hex, himm, fun hm => ho.timers ((h.drained hex).2 hm)⟩ }

/-- The worker that holds the mutex is the only one in an exit check. -/
theorem Orderly.alone (h : Orderly s) {w v : Fin n} (hout : (s.workers w).loc.out)
    (hne : (s.workers w).loc ≠ .exited) (hvw : v ≠ w) :
    (s.workers v).loc.out = false ∨ (s.workers v).loc = .exited := by
  by_contra hno
  obtain ⟨hvout, hvne⟩ := not_or.mp hno
  have hv := h.mutex v (by simpa using hvout) hvne
  exact hvw (Option.some.inj (hv.symm.trans (h.mutex w hout hne)))

/-- A worker moves along its exit check while every other worker is in its loop or has
left. -/
theorem Orderly.relocate (h : Orderly s) {w : Fin n} (loc : WorkerLoc) (holder : Option (Fin n))
    (hne : (s.workers w).loc ≠ .exited)
    (hothers : ∀ v, v ≠ w → (s.workers v).loc.out = false ∨ (s.workers v).loc = .exited)
    (hmutex : loc.out → loc ≠ .exited → holder = some w) (hpast : loc.past → s.stopRequested)
    (himm : loc = .checking true ∨ loc = .noWork true → s.status.shutdownMode = .immediate)
    (hqueues : loc.queuesRead ∨ loc = .exited → (∀ v, v ≠ w → (s.workers v).loc = .exited) →
      ∀ v, s.locals v = [])
    (htimers : loc = .noTimers ∨ loc = .exited ∧ s.status.shutdownMode ≠ .immediate →
      (∀ v, v ≠ w → (s.workers v).loc = .exited) → s.timers = []) :
    Orderly { s.setWorker w { s.workers w with loc := loc } with lifecycleMutex := holder } := by
  have hsame : ((s.setWorker w { s.workers w with loc := loc }).workers w).loc = loc := by
    rw [workers_setWorker_same]
  have hkeep : ∀ v, v ≠ w →
      (s.setWorker w { s.workers w with loc := loc }).workers v = s.workers v :=
    fun v hv => workers_setWorker_of_ne hv
  have hrest : (∀ v, v ≠ w →
      ((s.setWorker w { s.workers w with loc := loc }).workers v).loc = .exited) →
      ∀ v, v ≠ w → (s.workers v).loc = .exited :=
    fun hall v hv => by rw [← hkeep v hv]; exact hall v hv
  -- a worker past a read is `w`, or has left
  have hcases : ∀ v, ((s.setWorker w { s.workers w with loc := loc }).workers v).loc.out →
      ((s.setWorker w { s.workers w with loc := loc }).workers v).loc ≠ .exited → v = w := by
    intro v hout hv
    by_contra hvw
    rw [hkeep v hvw] at hout hv
    rcases hothers v hvw with hnot | hex
    · simp [hnot] at hout
    · exact hv hex
  exact {
    mode := h.mode
    mutex := by
      intro v hout hv
      obtain rfl := hcases v hout hv
      rw [hsame] at hout hv
      exact hmutex hout hv
    stopped := fun hst => absurd (h.stopped hst w) hne
    past := by
      intro v hv
      by_cases hvw : v = w
      · subst hvw
        rw [hsame] at hv
        exact hpast hv
      · rw [hkeep v hvw] at hv
        exact h.past v hv
    left := by
      intro hask
      refine (h.left hask).imp id ?_
      rintro ⟨v, hv⟩
      refine ⟨v, ?_⟩
      by_cases hvw : v = w
      · subst hvw
        rw [workers_setWorker_same]
        exact hv
      · rw [hkeep v hvw]
        exact hv
    immediate := by
      intro v hv
      have hread := WorkerLoc.out_of_immediate hv
      obtain rfl := hcases v hread.1 hread.2
      rw [hsame] at hv
      exact himm hv
    queues := by
      intro v hv hall
      have hread := WorkerLoc.out_of_queuesRead hv
      obtain rfl := hcases v hread.1 hread.2
      rw [hsame] at hv
      exact hqueues (.inl hv) (hrest hall)
    timers := by
      intro v hv hall
      obtain rfl := hcases v (hv ▸ rfl) (hv ▸ by simp)
      rw [hsame] at hv
      exact htimers (.inl hv) (hrest hall)
    drained := by
      intro hall
      have hex : loc = .exited := hsame.symm.trans (hall w)
      have hall' := hrest fun v _ => hall v
      exact ⟨hqueues (.inr hex) hall', fun hne => htimers (.inr ⟨hex, hne⟩) hall'⟩
    joined := fun mode hj => absurd ((h.joined mode hj).1 w) hne }

theorem offersWork_eq_false {immediate : Bool} (h : s.offersWork immediate = false) :
    ∀ v, s.locals v = [] := by
  intro v
  simp only [Runtime.offersWork, Bool.or_eq_false_iff, List.any_eq_false] at h
  simpa using h.2 v (List.mem_finRange v)

theorem Orderly.lock (h : Orderly s) {w : Fin n} (hloc : (s.workers w).loc = .loop)
    (hfree : s.lifecycleMutex = none) :
    Orderly { s.setWorker w { s.workers w with loc := .locked } with lifecycleMutex := some w } := by
  refine h.relocate .locked (some w) (by simp [hloc]) ?_ (fun _ _ => rfl) ?_ ?_ ?_ ?_
  · intro v _
    by_contra hno
    obtain ⟨hout, hne⟩ := not_or.mp hno
    have hv := h.mutex v (by simpa using hout) hne
    simp [hfree] at hv
  all_goals simp [WorkerLoc.past, WorkerLoc.queuesRead]

theorem Orderly.advance (h : Orderly s) {w : Fin n} {loc : WorkerLoc}
    (hadv : Advances s (s.workers w).loc loc) :
    Orderly (s.setWorker w { s.workers w with loc := loc }) := by
  obtain ⟨hout, _, hne, hne'⟩ := hadv.out
  have hmutex := h.mutex w hout hne
  have hkeep : s.setWorker w { s.workers w with loc := loc } =
      { s.setWorker w { s.workers w with loc := loc } with lifecycleMutex := some w } := by
    rw [← hmutex]
    rfl
  rw [hkeep]
  have hcheck := h.past w
  have himm := h.immediate w
  have hqueues := h.queues w
  refine h.relocate loc (some w) hne (fun v hv => h.alone hout hne hv) (fun _ _ => rfl) ?_ ?_ ?_ ?_
  · generalize (s.workers w).loc = old at hadv hcheck
    cases hadv with
    | status hstop _ => exact fun _ => hstop
    | queues _ => exact fun _ => hcheck rfl
    | timers _ => exact fun _ => hcheck rfl
  · generalize (s.workers w).loc = old at hadv himm
    cases hadv with
    | status _ _ => simp
    | queues _ => simpa using himm
    | timers _ => simp
  · generalize (s.workers w).loc = old at hadv hqueues
    cases hadv with
    | status _ _ => simp [WorkerLoc.queuesRead]
    | queues hnone => exact fun _ _ => offersWork_eq_false hnone
    | timers _ => exact fun _ => hqueues rfl
  · generalize (s.workers w).loc = old at hadv
    cases hadv with
    | status _ _ => simp
    | queues _ => simp
    | timers hnone => exact fun _ _ => hnone

theorem Orderly.back (h : Orderly s) {w : Fin n} (hout : (s.workers w).loc.out)
    (hne : (s.workers w).loc ≠ .exited) : Orderly (backToLoop s w) := by
  refine h.relocate .loop none hne (fun v hv => h.alone hout hne hv) ?_ ?_ ?_ ?_ ?_
  all_goals simp [WorkerLoc.out, WorkerLoc.past, WorkerLoc.queuesRead]

theorem Orderly.leave (h : Orderly s) {w : Fin n} (hleaves : Leaves s (s.workers w).loc) :
    Orderly (leave s w) := by
  obtain ⟨hout, hne⟩ := hleaves.out
  have hrunning : s.status.state ≠ .stopped := fun hst => hne (h.stopped hst w)
  have hpast := h.past w
  have himm := h.immediate w
  have hqueues := h.queues w
  have htimers := h.timers w
  generalize hloc : (s.workers w).loc = old at hleaves hpast himm hqueues htimers
  refine h.relocate .exited none hne (fun v hv => h.alone hout hne hv) (by simp) ?_ (by simp)
    ?_ ?_
  · cases hleaves with
    | stopped hstop _ => exact fun _ => hstop
    | immediate _ => exact fun _ => hpast rfl
    | graceful _ => exact fun _ => hpast rfl
  · cases hleaves with
    | stopped _ hst => exact absurd hst hrunning
    | immediate _ => exact fun _ => hqueues rfl
    | graceful _ => exact fun _ => hqueues rfl
  · cases hleaves with
    | stopped _ hst => exact absurd hst hrunning
    | immediate _ => simp [himm (.inr rfl)]
    | graceful _ => exact fun _ => htimers rfl

/-- The step lemma. -/
theorem Orderly.step (h : Orderly s) (hsound : Sound s) {a : Label n} (hs : step own s a = some s') :
    Orderly s' := by
  cases a with
  | outside e => exact h.outside (outside_outsideStep h.mode hs)
  | worker w e =>
    by_cases hlock : e = .lock
    · subst hlock
      simp only [Drain.step, workerStep, Option.ite_none_right_eq_some, Option.some.injEq] at hs
      obtain ⟨⟨htop, _, hfree⟩, rfl⟩ := hs
      simp only [Worker.topLevel, decide_eq_true_eq] at htop
      exact h.lock htop.1 hfree
    · by_cases hcheck : e = .check
      · subst hcheck
        rcases check_cases hs with ⟨loc, hadv, rfl⟩ | ⟨hout, hne, rfl⟩ | ⟨hleaves, rfl⟩
        · exact h.advance hadv
        · exact h.back hout hne
        · exact h.leave hleaves
      · exact h.inside (inside_workerStep h.mode (hsound.workers w) hs hlock hcheck)

theorem orderly_started (own : Impl) (n : Nat) : Orderly (started own n) where
  mode := fun _ => rfl
  mutex := by simp [started, WorkerLoc.out]
  stopped := by simp [started]
  past := by simp [started, WorkerLoc.past]
  left := by simp [started]
  immediate := by simp [started]
  queues := by simp [started, WorkerLoc.queuesRead]
  timers := by simp [started]
  drained := fun _ => ⟨fun _ => rfl, fun _ => rfl⟩
  joined := by simp [started]

end Drain
end AstraScheduler
