import AstraScheduler.Status
import AstraScheduler.Threads
import AstraScheduler.Transition

/-! # The shutdown gate

`shutdown_sync` and `reaper_cleanup_and_join` meet at the `ShutdownCompletion` of a runtime:
the first caller that finds `in_progress` clear leads, joins the workers with the gate
unlocked and publishes Stopped; the others wait for `stopped`.  Every read, write, lock and
release of either function is a step of its own. -/

namespace AstraScheduler.ShutdownGate
open Transition (Machine)
open Threads (Each)

/-- What a thread outside of the runtime's workers has called. -/
inductive CallKind where
  | shutdownSync (mode : ShutdownMode)
  | reaperCleanupAndJoin
  /-- `request_shutdown_mode` alone: a finalization callback, or a worker's handoff. -/
  | requestShutdownMode (mode : ShutdownMode)
  deriving DecidableEq, Repr

/-- The mode that a call requests. -/
def CallKind.mode : CallKind → ShutdownMode
  | .shutdownSync mode | .requestShutdownMode mode => mode
  | .reaperCleanupAndJoin => .graceful

/-- Where a call stands. -/
inductive Pc where
  /-- `shutdown_sync` is about to look at the status. -/
  | begin
  | requestLoad
  /-- In the loop of `request_shutdown_mode`, with the word it has loaded. -/
  | requestLoop (current : SchedulerStatus)
  /-- About to set `stop_requested` and to notify the workers. -/
  | stopRequest
  /-- Before `gate->mutex`. -/
  | lock
  /-- Holding it: before the reads of `gate->stopped`, of the status and of
  `in_progress`, and before the predicate of the wait. -/
  | testStopped
  | testStatus
  | testLeader
  | testWait
  /-- Blocked on `gate->cv`. -/
  | waiting
  /-- The leader is at worker thread `i`. -/
  | joining (i : Nat)
  | loadMode
  | storeStopped (mode : ShutdownMode)
  | storeGate
  /-- `admission.wake_all` and, in `shutdown_sync`, `unregister_runtime`. -/
  | afterPublish
  /-- Before the second lock, and holding it. -/
  | relock
  | clearProgress
  | returned
  deriving DecidableEq, Repr

structure Call where
  kind : CallKind
  pc : Pc
  deriving DecidableEq, Repr

/-- A runtime after its startup.  `workerThreads` says of each thread object whether it is
joinable.  The last three fields only record: who leads, which caller has joined which
worker, and who has published Stopped. -/
structure Runtime where
  workers : Nat
  status : SchedulerStatus := {}
  stopRequested : Bool := false
  exited : List Nat := []
  workerThreads : List Bool
  holder : Option Nat := none
  inProgress : Bool := false
  gateStopped : Bool := false
  calls : List Call := []
  leader : Option Nat := none
  joins : List (Nat × Nat) := []
  publications : List Nat := []
  deriving DecidableEq, Repr

inductive Label where
  | call (kind : CallKind)
  /-- The next step of a call; `spurious` makes a weak exchange fail. -/
  | step (i : Nat) (spurious : Bool)
  /-- A worker leaves its loop. -/
  | workerExit (k : Nat)
  deriving DecidableEq, Repr

/-- Where a call begins. -/
def CallKind.start : CallKind → Pc
  | .shutdownSync _ => .begin
  | .reaperCleanupAndJoin => .lock
  | .requestShutdownMode _ => .requestLoad

/-- Where a call goes after `request_shutdown_mode`. -/
def CallKind.afterRequest : CallKind → Pc
  | .shutdownSync _ | .reaperCleanupAndJoin => .stopRequest
  | .requestShutdownMode _ => .returned

namespace Runtime

def goto (r : Runtime) (i : Nat) (c : Call) (pc : Pc) : Runtime :=
  { r with calls := r.calls.set i { c with pc := pc } }

def release (r : Runtime) : Runtime := { r with holder := none }

/-- `compare_exchange_weak(current, value)` on the status word. -/
def exchange (r : Runtime) (i : Nat) (c : Call) (current value : SchedulerStatus)
    (spurious : Bool) : Runtime :=
  if r.status = current ∧ ¬ spurious then
    { r with status := value }.goto i c c.kind.afterRequest
  else r.goto i c (.requestLoop r.status)

/-- One turn of the loop in `request_shutdown_mode`. -/
def requestLoop (r : Runtime) (i : Nat) (c : Call) (current : SchedulerStatus)
    (spurious : Bool) : Runtime :=
  match current.state with
  | .running => r.exchange i c current ⟨.stopping, c.kind.mode⟩ spurious
  | .stopping =>
    if c.kind.mode = .immediate ∧ current.shutdownMode ≠ .immediate then
      r.exchange i c current ⟨.stopping, .immediate⟩ spurious
    else r.goto i c c.kind.afterRequest
  | .stopped => r.goto i c c.kind.afterRequest

/-- The loop over `worker_threads` at thread `k`. -/
def joinStep (r : Runtime) (i : Nat) (c : Call) (k : Nat) : Option Runtime :=
  match r.workerThreads[k]? with
  | none => some ({ r with workerThreads := [] }.goto i c .loadMode)
  | some false => some (r.goto i c (.joining (k + 1)))
  | some true =>
    if k ∈ r.exited then
      some ({ r with
        workerThreads := r.workerThreads.set k false
        joins := (i, k) :: r.joins }.goto i c (.joining (k + 1)))
    else none

def callStep (r : Runtime) (i : Nat) (c : Call) (spurious : Bool) : Option Runtime :=
  match c.pc with
  | .begin =>
    if r.status.state = .stopped then some (r.goto i c .returned)
    else some (r.goto i c .requestLoad)
  | .requestLoad => some (r.goto i c (.requestLoop r.status))
  | .requestLoop current => some (r.requestLoop i c current spurious)
  | .stopRequest => some ({ r with stopRequested := true }.goto i c .lock)
  | .lock =>
    if r.holder = none then some ({ r with holder := some i }.goto i c .testStopped) else none
  | .testStopped =>
    if r.gateStopped then some (r.release.goto i c .returned)
    else some (r.goto i c .testStatus)
  | .testStatus =>
    if r.status.state = .stopped then some (r.release.goto i c .returned)
    else some (r.goto i c .testLeader)
  | .testLeader =>
    if r.inProgress then some (r.goto i c .testWait)
    else
      some ({ r.release with inProgress := true, leader := some i }.goto i c (.joining 0))
  | .testWait =>
    if r.gateStopped then some (r.release.goto i c .returned)
    else some (r.release.goto i c .waiting)
  | .waiting =>
    -- notified, or awake for no reason: the predicate is tested again under the mutex
    if r.holder = none then some ({ r with holder := some i }.goto i c .testWait) else none
  | .joining k => r.joinStep i c k
  | .loadMode => some (r.goto i c (.storeStopped r.status.shutdownMode))
  | .storeStopped mode =>
    some ({ r with
      status := ⟨.stopped, mode⟩
      publications := i :: r.publications }.goto i c .storeGate)
  | .storeGate => some ({ r with gateStopped := true }.goto i c .afterPublish)
  | .afterPublish => some (r.goto i c .relock)
  | .relock =>
    if r.holder = none then some ({ r with holder := some i }.goto i c .clearProgress) else none
  | .clearProgress => some ({ r.release with inProgress := false }.goto i c .returned)
  | .returned => none

def next (r : Runtime) : Label → Option Runtime
  | .call kind => some { r with calls := r.calls ++ [⟨kind, kind.start⟩] }
  | .step i spurious => r.calls[i]?.bind fun c => r.callStep i c spurious
  | .workerExit k => some { r with exited := k :: r.exited }

/-- A runtime that has just started with some number of workers. -/
def started (workers : Nat) : Runtime where
  workers := workers
  workerThreads := List.replicate workers true

def machine : Machine Runtime Label where
  init r := ∃ workers, r = started workers
  next := next

/-- Every worker has been joined. -/
def AllJoined (r : Runtime) : Prop := ∀ k < r.workers, k ∈ r.joins.map (·.2)

end Runtime

/-- **One leader, and no early return.**  All joins are by one caller, each worker is joined
at most once, Stopped is published at most once and by the same caller; and when a call of
`shutdown_sync` or `reaper_cleanup_and_join` has returned, all workers are joined and Stopped
has been published. -/
structure OneLeader (r : Runtime) : Prop where
  joins : ∀ p ∈ r.joins, ∀ q ∈ r.joins, p.1 = q.1
  joinedOnce : (r.joins.map (·.2)).Nodup
  publishedOnce : r.publications.length ≤ 1
  publisher : ∀ i ∈ r.publications, ∀ p ∈ r.joins, p.1 = i
  returned : ∀ c ∈ r.calls, c.pc = .returned → (∀ mode, c.kind ≠ .requestShutdownMode mode) →
    r.AllJoined ∧ r.publications.length = 1 ∧ r.status.state = .stopped

/-! ## The invariant -/

/-- The places where a call holds `gate->mutex`. -/
def Pc.holding : Pc → Bool
  | .testStopped | .testStatus | .testLeader | .testWait | .clearProgress => true
  | _ => false

/-- The places of the leader. -/
def Pc.leading : Pc → Bool
  | .joining _ | .loadMode | .storeStopped _ | .storeGate | .afterPublish | .relock
  | .clearProgress => true
  | _ => false

/-- Past the test of `gate->stopped`, still under the same lock. -/
def Pc.tested : Pc → Bool
  | .testStatus | .testLeader => true
  | _ => false

/-- What has been done when a call stands where it stands. -/
def Call.Stage (r : Runtime) (c : Call) : Prop :=
  match c.pc with
  | .joining k => r.publications = [] ∧ ∀ j < k, j < r.workers → j ∈ r.joins.map (·.2)
  | .loadMode | .storeStopped _ => r.publications = [] ∧ r.AllJoined
  | .storeGate => r.publications ≠ []
  | .afterPublish | .relock | .clearProgress => r.gateStopped = true
  | .returned => (∀ mode, c.kind ≠ .requestShutdownMode mode) → r.publications ≠ []
  | _ => True

/-- What call `i` knows.  A caller that has seen `stopped` clear and still has the mutex
knows that a leader, if there is one, has not got it back: then `in_progress` is set. -/
structure CallOk (r : Runtime) (i : Nat) (c : Call) : Prop where
  holds : c.pc.holding → r.holder = some i
  leads : c.pc.leading → r.leader = some i
  tested : c.pc.tested → r.leader.isSome → r.inProgress = true
  stage : c.Stage r

/-- What holds of the shared state. -/
structure Shared (r : Runtime) : Prop where
  busy : r.leader.isSome → r.inProgress = true ∨ r.gateStopped = true
  joins : ∀ p ∈ r.joins, r.leader = some p.1
  joinedOnce : (r.joins.map (·.2)).Nodup
  publishers : ∀ i ∈ r.publications, r.leader = some i
  once : r.publications.length ≤ 1
  threads : ∀ k b, r.workerThreads[k]? = some b → (b = true ↔ k ∉ r.joins.map (·.2))
  size : r.workerThreads.length = r.workers ∨ r.AllJoined
  published : r.publications ≠ [] → r.AllJoined ∧ r.status.state = .stopped
  stopped : r.status.state = .stopped → r.publications ≠ []
  gate : r.gateStopped = true → r.publications ≠ []

structure Inv (r : Runtime) : Prop where
  shared : Shared r
  calls : Each (CallOk r) r.calls

variable {r r' : Runtime} {i j : Nat} {c d : Call} {pc : Pc}

/-- **The claim's state, from the invariant.** -/
theorem Inv.oneLeader (h : Inv r) : OneLeader r where
  joins p hp q hq := Option.some.inj ((h.shared.joins p hp).symm.trans (h.shared.joins q hq))
  joinedOnce := h.shared.joinedOnce
  publishedOnce := h.shared.once
  publisher i hi p hp :=
    Option.some.inj ((h.shared.joins p hp).symm.trans (h.shared.publishers i hi))
  returned c hc hpc hkind := by
    obtain ⟨i, hi⟩ := List.mem_iff_getElem?.mp hc
    have hstage := (h.calls i c hi).stage
    rw [Call.Stage, hpc] at hstage
    have hpublished := hstage hkind
    obtain ⟨hjoined, hstopped⟩ := h.shared.published hpublished
    have honce := h.shared.once
    have hpos := List.length_pos_iff.mpr hpublished
    exact ⟨hjoined, by omega, hstopped⟩

/-- **One step of call `i`.** -/
theorem Inv.goto (h : Inv r) (hcalls : r'.calls = r.calls) (hshared : Shared r')
    (hown : CallOk r' i { c with pc := pc })
    (hothers : ∀ j d, j ≠ i → CallOk r j d → CallOk r' j d) : Inv (r'.goto i c pc) := by
  constructor
  · exact ⟨hshared.busy, hshared.joins, hshared.joinedOnce, hshared.publishers, hshared.once,
      hshared.threads, hshared.size, hshared.published, hshared.stopped, hshared.gate⟩
  · have hset : Each (CallOk r') (r'.calls.set i { c with pc := pc }) := by
      rw [hcalls]
      exact h.calls.set hown fun j d hj _ hd => hothers j d hj hd
    exact hset.imp fun j d _ hd => ⟨hd.holds, hd.leads, hd.tested, hd.stage⟩

/-- A step that moves a call and nothing else. -/
theorem Inv.move (h : Inv r) (hown : CallOk r i { c with pc := pc }) : Inv (r.goto i c pc) :=
  h.goto rfl h.shared hown fun _ _ _ hd => hd

/-- The mutex is taken. -/
theorem Inv.acquire (h : Inv r) (hfree : r.holder = none)
    (hown : CallOk { r with holder := some i } i { c with pc := pc }) :
    Inv ({ r with holder := some i }.goto i c pc) := by
  have hs := h.shared
  refine h.goto rfl ⟨hs.busy, hs.joins, hs.joinedOnce, hs.publishers, hs.once, hs.threads,
    hs.size, hs.published, hs.stopped, hs.gate⟩ hown fun j d _ hd => ?_
  refine ⟨fun hholding => ?_, hd.leads, hd.tested, hd.stage⟩
  cases hfree.symm.trans (hd.holds hholding)

/-- The mutex is released by its holder. -/
theorem Inv.release (h : Inv r) (hheld : r.holder = some i)
    (hown : CallOk r.release i { c with pc := pc }) : Inv (r.release.goto i c pc) := by
  have hs := h.shared
  refine h.goto rfl ⟨hs.busy, hs.joins, hs.joinedOnce, hs.publishers, hs.once, hs.threads,
    hs.size, hs.published, hs.stopped, hs.gate⟩ hown fun j d hj hd => ?_
  refine ⟨fun hholding => ?_, hd.leads, hd.tested, hd.stage⟩
  exact absurd (Option.some.inj ((hd.holds hholding).symm.trans hheld)) hj

/-- Only the status word changes, and it does not become Stopped. -/
theorem Inv.setStatus (h : Inv r) {status : SchedulerStatus} (hold : r.status.state ≠ .stopped)
    (hnew : status.state ≠ .stopped)
    (hown : CallOk { r with status := status } i { c with pc := pc }) :
    Inv ({ r with status := status }.goto i c pc) := by
  have hs := h.shared
  have hnone : r.publications = [] := by
    by_contra hne
    exact hold (hs.published hne).2
  refine h.goto rfl ⟨hs.busy, hs.joins, hs.joinedOnce, hs.publishers, hs.once, hs.threads,
    hs.size, fun hne => absurd hnone hne, fun hst => absurd hst hnew, hs.gate⟩ hown ?_
  exact fun j d _ hd => ⟨hd.holds, hd.leads, hd.tested, hd.stage⟩

/-! ## The steps of `request_shutdown_mode` -/

/-- Places that hold nothing, lead nothing and promise nothing. -/
def Pc.free : Pc → Bool
  | .begin | .requestLoad | .requestLoop _ | .stopRequest | .lock | .waiting => true
  | _ => false

theorem CallOk.of_free (hfree : d.pc.free) : CallOk r i d := by
  obtain ⟨kind, pc⟩ := d
  cases pc with
  | begin | requestLoad | requestLoop current | stopRequest | lock | waiting =>
    exact ⟨nofun, nofun, nofun, trivial⟩
  | testStopped | testStatus | testLeader | testWait | joining k | loadMode | storeStopped mode
  | storeGate | afterPublish | relock | clearProgress | returned => cases hfree

/-- After a request: the rest of `shutdown_sync`, or the end of a call that only requests. -/
theorem CallOk.afterRequest : CallOk r i { c with pc := c.kind.afterRequest } := by
  obtain ⟨kind, pc⟩ := c
  cases kind with
  | shutdownSync mode | reaperCleanupAndJoin => exact .of_free rfl
  | requestShutdownMode mode => exact ⟨nofun, nofun, nofun, fun hnot => absurd rfl (hnot mode)⟩

theorem Inv.exchange (h : Inv r) {current value : SchedulerStatus} {spurious : Bool}
    (hcurrent : current.state ≠ .stopped) (hvalue : value.state ≠ .stopped) :
    Inv (r.exchange i c current value spurious) := by
  unfold Runtime.exchange
  by_cases hmatch : r.status = current ∧ ¬ spurious
  · rw [if_pos hmatch]
    exact h.setStatus (by rwa [hmatch.1]) hvalue .afterRequest
  · rw [if_neg hmatch]
    exact h.move (.of_free rfl)

theorem Inv.requestLoop (h : Inv r) {current : SchedulerStatus} {spurious : Bool} :
    Inv (r.requestLoop i c current spurious) := by
  unfold Runtime.requestLoop
  cases hstate : current.state with
  | running => exact h.exchange (by rw [hstate]; decide) SchedulerState.noConfusion
  | stopping =>
    dsimp only
    split
    · exact h.exchange (by rw [hstate]; decide) SchedulerState.noConfusion
    · exact h.move .afterRequest
  | stopped => exact h.move .afterRequest

/-! ## The steps at the gate -/

/-- A caller returns because the runtime is stopped already. -/
theorem CallOk.returned (hpublished : r.publications ≠ []) :
    CallOk r i { c with pc := .returned } :=
  ⟨nofun, nofun, nofun, fun _ => hpublished⟩

theorem Inv.testLeader (h : Inv r) (hc : r.calls[i]? = some c) (hpc : c.pc = .testLeader) :
    Inv ({ r.release with inProgress := true, leader := some i }.goto i c (.joining 0)) ∨
      r.inProgress = true := by
  have hs := h.shared
  have hok := h.calls i c hc
  have hheld : r.holder = some i := hok.holds (by rw [hpc]; rfl)
  by_cases hprogress : r.inProgress = true
  · exact Or.inr hprogress
  · left
    -- the mutex is ours, so nobody has led before
    have hnone : r.leader = none := by
      by_contra hsome
      exact hprogress (hok.tested (by rw [hpc]; rfl) (Option.isSome_iff_ne_none.mpr hsome))
    have hjoins : r.joins = [] := List.eq_nil_iff_forall_not_mem.mpr fun p hp => by
      cases hnone.symm.trans (hs.joins p hp)
    have hpublications : r.publications = [] := List.eq_nil_iff_forall_not_mem.mpr fun k hk => by
      cases hnone.symm.trans (hs.publishers k hk)
    refine h.goto rfl ?_ ?_ ?_
    · refine ⟨fun _ => Or.inl rfl, ?_, hs.joinedOnce, ?_, hs.once, hs.threads, hs.size,
        hs.published, hs.stopped, hs.gate⟩
      · intro p hp
        exact absurd (hjoins ▸ hp) List.not_mem_nil
      · intro k hk
        exact absurd (hpublications ▸ hk) List.not_mem_nil
    · exact ⟨nofun, fun _ => rfl, nofun, hpublications, nofun⟩
    · intro j d hj hd
      have hnot : ∀ hholding : d.pc.holding = true, False := fun hholding =>
        hj (Option.some.inj ((hd.holds hholding).symm.trans hheld))
      refine ⟨fun hholding => (hnot hholding).elim, fun hleading => ?_, fun _ _ => rfl, hd.stage⟩
      cases hnone.symm.trans (hd.leads hleading)

/-- What a call knows that is not the leader survives what the leader does. -/
theorem CallOk.follower {r r' : Runtime} {i j : Nat} {d : Call} (hd : CallOk r j d)
    (hleader : r.leader = some i) (hj : j ≠ i) (hholder : r'.holder = r.holder)
    (hleads : r'.leader = r.leader) (hprogress : r'.inProgress = r.inProgress)
    (hpublished : r.publications ≠ [] → r'.publications ≠ []) : CallOk r' j d := by
  refine ⟨fun h => hholder.trans (hd.holds h), fun h => hleads.trans (hd.leads h), ?_, ?_⟩
  · rw [hleads, hprogress]
    exact hd.tested
  · -- its stage is not one of the leader's
    have hidle : d.pc.leading ≠ true := fun hleading =>
      hj (Option.some.inj ((hd.leads hleading).symm.trans hleader))
    have hstage := hd.stage
    unfold Call.Stage at hstage ⊢
    split at hstage <;> simp_all [Pc.leading]

theorem Inv.joinStep (h : Inv r) (hc : r.calls[i]? = some c) {k : Nat} (hpc : c.pc = .joining k)
    (hs' : r.joinStep i c k = some r') : Inv r' := by
  have hs := h.shared
  have hok := h.calls i c hc
  have hleader : r.leader = some i := hok.leads (by rw [hpc]; rfl)
  obtain ⟨hunpublished, hdone⟩ : r.publications = [] ∧
      ∀ j < k, j < r.workers → j ∈ r.joins.map (·.2) := by
    have hstage := hok.stage
    rwa [Call.Stage, hpc] at hstage
  unfold Runtime.joinStep at hs'
  cases hthread : r.workerThreads[k]? with
  | none =>
    rw [hthread] at hs'
    obtain rfl := Option.some.inj hs'
    have hall : r.AllJoined := by
      rcases hs.size with hsize | hall
      · intro j hj
        refine hdone j ?_ hj
        have := List.getElem?_eq_none_iff.mp hthread
        omega
      · exact hall
    refine h.goto rfl ?_ ⟨nofun, fun _ => hleader, nofun, hunpublished, hall⟩ ?_
    · exact ⟨hs.busy, hs.joins, hs.joinedOnce, hs.publishers, hs.once, nofun, Or.inr hall,
        hs.published, hs.stopped, hs.gate⟩
    · exact fun j d _ hd => ⟨hd.holds, hd.leads, hd.tested, hd.stage⟩
  | some joinable =>
    have hthreads := hs.threads k joinable hthread
    rw [hthread] at hs'
    cases joinable with
    | false =>
      obtain rfl := Option.some.inj hs'
      have hjoined : k ∈ r.joins.map (·.2) := by
        by_contra hnot
        exact Bool.false_ne_true (hthreads.mpr hnot)
      refine h.move ⟨nofun, fun _ => hleader, nofun, hunpublished, fun j hj hlt => ?_⟩
      rcases Nat.lt_succ_iff_lt_or_eq.mp hj with hj | rfl
      · exact hdone j hj hlt
      · exact hjoined
    | true =>
      dsimp only at hs'
      split at hs' <;> cases hs'
      have hnew := hthreads.mp rfl
      refine h.goto rfl ?_ ⟨nofun, fun _ => hleader, nofun, hunpublished, fun j hj hlt => ?_⟩ ?_
      · refine ⟨hs.busy, ?_, List.nodup_cons.mpr ⟨hnew, hs.joinedOnce⟩, hs.publishers, hs.once,
          ?_, ?_, fun hne => absurd hunpublished hne, hs.stopped, hs.gate⟩
        · intro p hp
          rcases List.mem_cons.mp hp with rfl | hp
          · exact hleader
          · exact hs.joins p hp
        · intro l b hb
          by_cases hl : k = l
          · subst hl
            rw [List.getElem?_set_self (List.getElem?_eq_some_iff.mp hthread).1] at hb
            obtain rfl := Option.some.inj hb
            simp
          · rw [List.getElem?_set_ne hl] at hb
            rw [hs.threads l b hb, List.map_cons, List.mem_cons, not_or]
            exact ⟨fun hnot => ⟨fun he => hl he.symm, hnot⟩, fun hnot => hnot.2⟩
        · rcases hs.size with hsize | hall
          · left
            rw [List.length_set]
            exact hsize
          · exact Or.inr fun j hj => List.mem_cons_of_mem _ (hall j hj)
      · rcases Nat.lt_succ_iff_lt_or_eq.mp hj with hj | rfl
        · exact List.mem_cons_of_mem _ (hdone j hj hlt)
        · exact List.mem_cons_self
      · exact fun j d hj hd => hd.follower hleader hj rfl rfl rfl id

theorem Inv.storeStopped (h : Inv r) (hc : r.calls[i]? = some c) {mode : ShutdownMode}
    (hpc : c.pc = .storeStopped mode) :
    Inv ({ r with
      status := ⟨.stopped, mode⟩
      publications := i :: r.publications }.goto i c .storeGate) := by
  have hs := h.shared
  have hok := h.calls i c hc
  have hleader : r.leader = some i := hok.leads (by rw [hpc]; rfl)
  obtain ⟨hunpublished, hall⟩ : r.publications = [] ∧ r.AllJoined := by
    have hstage := hok.stage
    rwa [Call.Stage, hpc] at hstage
  refine h.goto rfl ?_ ⟨nofun, fun _ => hleader, nofun, List.cons_ne_nil _ _⟩ ?_
  · refine ⟨hs.busy, hs.joins, hs.joinedOnce, ?_, ?_, hs.threads, hs.size, fun _ => ⟨hall, rfl⟩,
      fun _ => List.cons_ne_nil _ _, fun _ => List.cons_ne_nil _ _⟩
    · intro j hj
      rw [hunpublished, List.mem_singleton] at hj
      rw [hj]
      exact hleader
    · rw [hunpublished]
      exact Nat.le_refl _
  · exact fun j d hj hd =>
      hd.follower hleader hj rfl rfl rfl fun _ => List.cons_ne_nil _ _

/-! ## Every step -/

theorem Inv.callStep (h : Inv r) (hc : r.calls[i]? = some c) {spurious : Bool}
    (hs' : r.callStep i c spurious = some r') : Inv r' := by
  have hs := h.shared
  have hok := h.calls i c hc
  have hstage := hok.stage
  unfold Runtime.callStep at hs'
  unfold Call.Stage at hstage
  cases hpc : c.pc with
  | begin =>
    simp only [hpc] at hs'
    split at hs' <;> cases hs'
    · exact h.move (.returned (hs.stopped ‹_›))
    · exact h.move (.of_free rfl)
  | requestLoad =>
    simp only [hpc] at hs'
    cases hs'
    exact h.move (.of_free rfl)
  | requestLoop current =>
    simp only [hpc] at hs'
    cases hs'
    exact h.requestLoop
  | stopRequest =>
    simp only [hpc] at hs'
    cases hs'
    refine h.goto rfl ?_ (.of_free rfl) fun j d _ hd => ⟨hd.holds, hd.leads, hd.tested, hd.stage⟩
    exact ⟨hs.busy, hs.joins, hs.joinedOnce, hs.publishers, hs.once, hs.threads, hs.size,
      hs.published, hs.stopped, hs.gate⟩
  | lock =>
    simp only [hpc] at hs'
    split at hs' <;> cases hs'
    exact h.acquire ‹_› ⟨fun _ => rfl, nofun, nofun, trivial⟩
  | testStopped =>
    have hheld : r.holder = some i := hok.holds (by rw [hpc]; rfl)
    simp only [hpc] at hs'
    split at hs' <;> cases hs'
    · exact h.release hheld (.returned (hs.gate ‹_›))
    · refine h.move ⟨fun _ => hheld, nofun, fun _ hleader => ?_, trivial⟩
      -- a leader that holds the mutex no longer has published, or is about to
      exact (hs.busy hleader).resolve_right ‹_›
  | testStatus =>
    have hheld : r.holder = some i := hok.holds (by rw [hpc]; rfl)
    simp only [hpc] at hs'
    split at hs' <;> cases hs'
    · exact h.release hheld (.returned (hs.stopped ‹_›))
    · exact h.move ⟨fun _ => hheld, nofun, fun _ => hok.tested (by rw [hpc]; rfl), trivial⟩
  | testLeader =>
    have hheld : r.holder = some i := hok.holds (by rw [hpc]; rfl)
    simp only [hpc] at hs'
    split at hs' <;> cases hs'
    · exact h.move ⟨fun _ => hheld, nofun, nofun, trivial⟩
    -- a call that finds no leader becomes the leader under the same lock
    · exact (h.testLeader hc hpc).resolve_right ‹_›
  | testWait =>
    have hheld : r.holder = some i := hok.holds (by rw [hpc]; rfl)
    simp only [hpc] at hs'
    split at hs' <;> cases hs'
    · exact h.release hheld (.returned (hs.gate ‹_›))
    · exact h.release hheld (.of_free rfl)
  | waiting =>
    simp only [hpc] at hs'
    split at hs' <;> cases hs'
    exact h.acquire ‹_› ⟨fun _ => rfl, nofun, nofun, trivial⟩
  | joining k =>
    simp only [hpc] at hs'
    exact h.joinStep hc hpc hs'
  | loadMode =>
    have hleader : r.leader = some i := hok.leads (by rw [hpc]; rfl)
    simp only [hpc] at hs' hstage
    cases hs'
    exact h.move ⟨nofun, fun _ => hleader, nofun, hstage⟩
  | storeStopped mode =>
    simp only [hpc] at hs'
    cases hs'
    exact h.storeStopped hc hpc
  | storeGate =>
    have hleader : r.leader = some i := hok.leads (by rw [hpc]; rfl)
    simp only [hpc] at hs' hstage
    cases hs'
    -- the gate is stored without the mutex: followers may read it at once
    refine h.goto rfl ?_ ⟨nofun, fun _ => hleader, nofun, rfl⟩ fun j d _ hd => ?_
    · exact ⟨fun _ => Or.inr rfl, hs.joins, hs.joinedOnce, hs.publishers, hs.once, hs.threads,
        hs.size, hs.published, hs.stopped, fun _ => hstage⟩
    · refine ⟨hd.holds, hd.leads, hd.tested, ?_⟩
      have hstage := hd.stage
      unfold Call.Stage at hstage ⊢
      split at hstage <;> simp_all
  | afterPublish =>
    have hleader : r.leader = some i := hok.leads (by rw [hpc]; rfl)
    simp only [hpc] at hs' hstage
    cases hs'
    exact h.move ⟨nofun, fun _ => hleader, nofun, hstage⟩
  | relock =>
    have hleader : r.leader = some i := hok.leads (by rw [hpc]; rfl)
    simp only [hpc] at hs' hstage
    split at hs' <;> cases hs'
    exact h.acquire ‹_› ⟨fun _ => rfl, fun _ => hleader, nofun, hstage⟩
  | clearProgress =>
    have hheld : r.holder = some i := hok.holds (by rw [hpc]; rfl)
    simp only [hpc] at hs' hstage
    cases hs'
    refine h.goto rfl ?_ (.returned (hs.gate hstage)) fun j d hj hd => ?_
    · exact ⟨fun _ => Or.inr hstage, hs.joins, hs.joinedOnce, hs.publishers, hs.once, hs.threads,
        hs.size, hs.published, hs.stopped, hs.gate⟩
    · have hnot : d.pc.holding ≠ true := fun hholding =>
        hj (Option.some.inj ((hd.holds hholding).symm.trans hheld))
      refine ⟨fun hholding => absurd hholding hnot, hd.leads, fun htested => absurd ?_ hnot,
        hd.stage⟩
      revert htested
      cases d.pc <;> simp [Pc.tested, Pc.holding]
  | returned =>
    simp only [hpc] at hs'
    cases hs'

theorem Inv.step (h : Inv r) {a : Label} (hs : r.next a = some r') : Inv r' := by
  unfold Runtime.next at hs
  cases a with
  | call kind =>
    cases hs
    have hnew : CallOk r r.calls.length ⟨kind, kind.start⟩ := by
      cases kind <;> exact .of_free rfl
    have hcalls := (h.calls.append hnew).imp fun i c _ hc =>
      (⟨hc.holds, hc.leads, hc.tested, hc.stage⟩ :
        CallOk { r with calls := r.calls ++ [⟨kind, kind.start⟩] } i c)
    have hs := h.shared
    exact ⟨⟨hs.busy, hs.joins, hs.joinedOnce, hs.publishers, hs.once, hs.threads, hs.size,
      hs.published, hs.stopped, hs.gate⟩, hcalls⟩
  | step i spurious =>
    obtain ⟨c, hc, hs⟩ := Option.bind_eq_some_iff.mp hs
    exact h.callStep hc hs
  | workerExit k =>
    cases hs
    have hs := h.shared
    exact ⟨⟨hs.busy, hs.joins, hs.joinedOnce, hs.publishers, hs.once, hs.threads, hs.size,
      hs.published, hs.stopped, hs.gate⟩,
      h.calls.imp fun i c _ hc => ⟨hc.holds, hc.leads, hc.tested, hc.stage⟩⟩

theorem inv_started (workers : Nat) : Inv (Runtime.started workers) := by
  refine ⟨⟨nofun, nofun, List.nodup_nil, nofun, Nat.zero_le _, ?_, Or.inl ?_, ?_, nofun, nofun⟩,
    Each.nil⟩
  · intro k b hb
    have htrue := List.eq_of_mem_replicate (List.mem_of_getElem? hb)
    exact ⟨fun _ => List.not_mem_nil, fun _ => htrue⟩
  · exact List.length_replicate
  · exact fun hne => absurd rfl hne

/-- What a step of call `i` leaves alone, and that it joins only a worker that has gone. -/
theorem Runtime.callStep_frame {spurious : Bool} (hs : r.callStep i c spurious = some r') :
    (∃ pc, r'.calls = r.calls.set i { c with pc := pc }) ∧ r'.workers = r.workers ∧
      r'.exited = r.exited ∧ ∀ k ∈ r'.joins.map (·.2), k ∈ r.joins.map (·.2) ∨ k ∈ r.exited := by
  have same : ∀ {t : Runtime} {pc : Pc}, t.goto i c pc = r' → t.calls = r.calls →
      t.workers = r.workers → t.exited = r.exited → t.joins = r.joins →
      (∃ pc, r'.calls = r.calls.set i { c with pc := pc }) ∧ r'.workers = r.workers ∧
        r'.exited = r.exited ∧
        ∀ k ∈ r'.joins.map (·.2), k ∈ r.joins.map (·.2) ∨ k ∈ r.exited := by
    rintro t pc rfl hc hw he hj
    refine ⟨⟨pc, by rw [← hc]; rfl⟩, hw, he, fun k hk => .inl ?_⟩
    rw [← hj]
    exact hk
  have move : ∀ {t : Runtime} {pc : Pc}, some (t.goto i c pc) = some r' → t.calls = r.calls →
      t.workers = r.workers → t.exited = r.exited → t.joins = r.joins → _ :=
    fun h => same (Option.some.inj h)
  unfold Runtime.callStep at hs
  cases hpc : c.pc <;> simp only [hpc] at hs
  case requestLoop current =>
    have hs := Option.some.inj hs
    unfold Runtime.requestLoop Runtime.exchange at hs
    repeat' split at hs
    all_goals exact same hs rfl rfl rfl rfl
  case joining k =>
    unfold Runtime.joinStep at hs
    split at hs
    · exact move hs rfl rfl rfl rfl
    · exact move hs rfl rfl rfl rfl
    · split at hs
      · rename_i hk
        obtain rfl := Option.some.inj hs
        refine ⟨⟨_, rfl⟩, rfl, rfl, fun j hj => ?_⟩
        rcases List.mem_cons.mp hj with rfl | hj
        · exact .inr hk
        · exact .inl hj
      · cases hs
  all_goals
    repeat' split at hs
    all_goals first
      | exact move hs rfl rfl rfl rfl
      | cases hs

/-- **The gate has one leader, and nobody returns early**, for any number of callers of
either function and of `request_shutdown_mode`, in any interleaving. -/
theorem oneLeader_of_reachable (h : Runtime.machine.Reachable r) : OneLeader r := by
  refine (h.invariant Inv ?_ fun r a r' hi _ hs => hi.step hs).oneLeader
  rintro r ⟨workers, rfl⟩
  exact inv_started workers

/-- Two workers; a Reaper cleanup leads, a `shutdown_sync` that arrives meanwhile waits, and
one that comes later returns at once. -/
def reaperLeads : List Label :=
  [.call .reaperCleanupAndJoin, .call (.shutdownSync .immediate), .step 0 false, .step 0 false,
    .step 0 false, .step 0 false, .step 1 false, .step 1 false, .step 1 true, .step 1 false,
    .step 1 false, .step 1 false, .step 1 false, .step 1 false, .step 1 false, .step 1 false,
    .workerExit 1, .workerExit 0, .step 0 false, .step 0 false, .step 0 false, .step 0 false,
    .step 0 false, .step 0 false, .call (.shutdownSync .graceful), .step 2 false,
    .step 1 false, .step 1 false, .step 0 false, .step 0 false, .step 0 false]

theorem oneLeader_reaperLeads :
    ∃ r, Runtime.machine.run (Runtime.started 2) reaperLeads = some r ∧ OneLeader r ∧
      r.publications = [0] ∧ ∀ c ∈ r.calls, c.pc = .returned := by
  obtain ⟨r, hr⟩ := Option.isSome_iff_exists.mp
    (show (Runtime.machine.run (Runtime.started 2) reaperLeads).isSome by decide)
  have hend : (Runtime.machine.run (Runtime.started 2) reaperLeads).map (fun t =>
      (t.publications, decide (∀ c ∈ t.calls, c.pc = .returned))) = some ([0], true) := by decide
  rw [hr] at hend
  have hpair := Prod.mk.inj (Option.some.inj hend)
  exact ⟨r, hr, oneLeader_of_reachable (Machine.reachable_of_run ⟨2, rfl⟩ hr), hpair.1,
    of_decide_eq_true hpair.2⟩

end AstraScheduler.ShutdownGate
