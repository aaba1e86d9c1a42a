import AstraScheduler.AdmissionController
import AstraScheduler.Threads
import AstraScheduler.Transition

/-! # Blocked submitters and their wakeups

`AdmissionController::acquire` waits on `slot_cv` with a predicate over the status word and
`pending_`.  A release changes `pending_` under the mutex and notifies after it; a shutdown
changes the status word without the mutex and then calls `wake_all`.  The wait is modelled as
the evaluation of its predicate under the mutex, followed by the step that releases the mutex
and blocks; only a notification wakes a blocked submitter. -/

namespace AstraScheduler.BlockedSubmitters
open Transition (Machine)
open Threads (Each)

/-- Where a call of `acquire` stands. -/
inductive Pc where
  | start
  /-- Holding the mutex, before the decision. -/
  | deciding
  /-- Holding the mutex, before the predicate of the wait. -/
  | evaluating
  /-- Holding the mutex, the predicate found false, about to release it and block. -/
  | blocking
  | blocked
  /-- Notified, before the mutex. -/
  | woken
  | returned (decision : AdmissionDecision)
  deriving DecidableEq, Repr

structure Submitter where
  count : Nat
  block : Bool := true
  isInternal : Bool := false
  pc : Pc := .start
  deriving DecidableEq, Repr

/-- The controller, the status word, and who has `mutex_`; the last two fields count the
threads that have still to notify, after a release and after a change of the status. -/
structure Runtime where
  admission : AdmissionController
  status : SchedulerStatus := {}
  holder : Option Nat := none
  submitters : List Submitter := []
  releaseNotifies : Nat := 0
  wakeAlls : Nat := 0
  deriving DecidableEq, Repr

inductive Label where
  | acquire (count : Nat) (block isInternal : Bool)
  /-- The next step of a submitter. -/
  | step (i : Nat)
  /-- The locked update of `release`. -/
  | release (count : Nat)
  /-- The `notify_all` of a release. -/
  | notifyAll
  /-- The status exchange of `request_shutdown_mode`, and the store of Stopped. -/
  | requestShutdownMode (mode : ShutdownMode)
  | storeStopped
  /-- The `wake_all` that follows either. -/
  | wakeAll
  deriving DecidableEq, Repr

/-- The predicate of the wait on `slot_cv`. -/
def predicate (a : AdmissionController) (st : SchedulerStatus) (count : Nat) : Bool :=
  decide (st.state ≠ .running) || decide ((a.pending + count) % 2 ^ 64 ≤ a.capacity)

namespace Runtime

def goto (r : Runtime) (i : Nat) (c : Submitter) (pc : Pc) : Runtime :=
  { r with submitters := r.submitters.set i { c with pc := pc } }

/-- A submitter decides; it keeps the mutex if it has to wait. -/
def decideStep (r : Runtime) (i : Nat) (c : Submitter) : Runtime :=
  match r.admission.acquire r.status c.count c.block c.isInternal with
  | some (decision, a) =>
    { r with admission := a, holder := none }.goto i c (.returned decision)
  | none => r.goto i c .evaluating

def submitterStep (r : Runtime) (i : Nat) (c : Submitter) : Option Runtime :=
  match c.pc with
  | .start =>
    if c.count = 0 then
      -- nothing to count: decided on the status alone, without the mutex
      (r.admission.acquire r.status c.count c.block c.isInternal).map fun out =>
        { r with admission := out.2 }.goto i c (.returned out.1)
    else if r.holder = none then some ({ r with holder := some i }.goto i c .deciding)
    else none
  | .deciding => some (r.decideStep i c)
  | .evaluating =>
    if predicate r.admission r.status c.count then some (r.goto i c .deciding)
    else some (r.goto i c .blocking)
  | .blocking => some ({ r with holder := none }.goto i c .blocked)
  | .blocked => none
  | .woken =>
    if r.holder = none then some ({ r with holder := some i }.goto i c .evaluating) else none
  | .returned _ => none

/-- `slot_cv_.notify_all()`. -/
def wake (r : Runtime) : Runtime :=
  { r with submitters := r.submitters.map fun c =>
      if c.pc = .blocked then { c with pc := .woken } else c }

/-- The exchange of `request_shutdown_mode`; `none` when there is nothing to change. -/
def requested (st : SchedulerStatus) (mode : ShutdownMode) : Option SchedulerStatus :=
  match st.state with
  | .running => some ⟨.stopping, mode⟩
  | .stopping =>
    if mode = .immediate ∧ st.shutdownMode ≠ .immediate then some ⟨.stopping, .immediate⟩
    else none
  | .stopped => none

def next (r : Runtime) : Label → Option Runtime
  | .acquire count block isInternal =>
    some { r with submitters := r.submitters ++ [{ count, block, isInternal }] }
  | .step i => r.submitters[i]?.bind (r.submitterStep i)
  | .release count =>
    if r.holder = none ∧ count ≠ 0 then
      some { r with
        admission := r.admission.release count
        releaseNotifies := r.releaseNotifies + 1 }
    else none
  | .notifyAll =>
    match r.releaseNotifies with
    | 0 => none
    | n + 1 => some { r.wake with releaseNotifies := n }
  | .requestShutdownMode mode =>
    (requested r.status mode).map fun st => { r with status := st, wakeAlls := r.wakeAlls + 1 }
  | .storeStopped =>
    some { r with status := ⟨.stopped, r.status.shutdownMode⟩, wakeAlls := r.wakeAlls + 1 }
  | .wakeAll =>
    match r.wakeAlls with
    | 0 => none
    | n + 1 => some { r.wake with wakeAlls := n }

/-- A running runtime with nothing pending. -/
def started (capacity : Nat) : Runtime where
  admission := { capacity := capacity, backpressure := .block }

def machine : Machine Runtime Label where
  init r := ∃ capacity, r = started capacity
  next := next

/-- No thread has a notification to execute. -/
def NothingOwed (r : Runtime) : Prop := r.releaseNotifies = 0 ∧ r.wakeAlls = 0

end Runtime

/-- **No wakeup is lost**: nobody is blocked over a true predicate when no notification is
still to come; in particular nobody is once the runtime is Stopped. -/
structure NoLostWakeup (r : Runtime) : Prop where
  covered : r.NothingOwed → ∀ c ∈ r.submitters, c.pc = .blocked →
    predicate r.admission r.status c.count = false
  stopped : r.NothingOwed → r.status.state = .stopped → ∀ c ∈ r.submitters, c.pc ≠ .blocked

/-- `wake_all` does not run while a submitter stands between its predicate and the block, and
the capacity is one below which `pending_ + count` cannot wrap around. -/
def WakesOutsideWindow (r : Runtime) (a : Label) : Prop :=
  r.admission.capacity < 2 ^ 63 ∧ (a = .wakeAll → ∀ c ∈ r.submitters, c.pc ≠ .blocking)

instance (r : Runtime) (a : Label) : Decidable (WakesOutsideWindow r a) :=
  inferInstanceAs (Decidable (_ ∧ _))

/-! ## The invariant -/

/-- The places where a submitter has the mutex. -/
def Pc.holding : Pc → Bool
  | .deciding | .evaluating | .blocking => true
  | _ => false

/-- The places of a submitter whose first decision was to wait. -/
def Pc.inWait : Pc → Bool
  | .evaluating | .blocking | .blocked | .woken => true
  | _ => false

/-- A true predicate in the window is the work of a shutdown, whose `wake_all` is to come;
a true predicate of a blocked submitter has some notification to come. -/
structure SubmitterOk (r : Runtime) (i : Nat) (c : Submitter) : Prop where
  holds : c.pc.holding → r.holder = some i
  fits : c.pc.inWait → c.count ≤ r.admission.capacity
  window : c.pc = .blocking → predicate r.admission r.status c.count → 0 < r.wakeAlls
  blocked : c.pc = .blocked → predicate r.admission r.status c.count →
    0 < r.releaseNotifies + r.wakeAlls

structure Inv (r : Runtime) : Prop where
  pending : r.admission.pending ≤ r.admission.capacity
  submitters : Each (SubmitterOk r) r.submitters

theorem Inv.noLostWakeup {r : Runtime} (h : Inv r) : NoLostWakeup r := by
  have hcovered : r.NothingOwed → ∀ c ∈ r.submitters, c.pc = .blocked →
      predicate r.admission r.status c.count = false := by
    rintro ⟨hrelease, hwake⟩ c hc hpc
    obtain ⟨i, hi⟩ := List.mem_iff_getElem?.mp hc
    by_contra htrue
    have := (h.submitters i c hi).blocked hpc (by simpa using htrue)
    omega
  refine ⟨hcovered, fun howed hstopped c hc hpc => ?_⟩
  have hfalse := hcovered howed c hc hpc
  simp [predicate, hstopped] at hfalse

variable {r r' : Runtime} {i : Nat} {c : Submitter} {pc : Pc}

/-! ## Predicates and the counter -/

/-- With more pending, a predicate does not become true. -/
theorem predicate_anti {a a' : AdmissionController} {st : SchedulerStatus} {count : Nat}
    (hcapacity : a'.capacity = a.capacity) (hsmall : a.capacity < 2 ^ 63)
    (hbound : a'.pending ≤ a.capacity) (hle : a.pending ≤ a'.pending) (hcount : count ≤ a.capacity)
    (h : predicate a' st count) : predicate a st count := by
  unfold predicate at h ⊢
  simp only [Bool.or_eq_true, decide_eq_true_eq] at h ⊢
  refine h.imp id fun hfits => ?_
  rw [Nat.mod_eq_of_lt (by omega)] at hfits ⊢
  omega

theorem acquire_grows {a a' : AdmissionController} {st : SchedulerStatus} {count : Nat}
    {block isInternal : Bool} {decision : AdmissionDecision} (hpending : a.pending ≤ a.capacity)
    (hsmall : a.capacity < 2 ^ 63)
    (h : a.acquire st count block isInternal = some (decision, a')) :
    a'.capacity = a.capacity ∧ a'.pending ≤ a.capacity ∧ a.pending ≤ a'.pending := by
  obtain ⟨hcapacity, hbound, hsame⟩ := AdmissionController.acquire_cases hpending hsmall h
  refine ⟨hcapacity, hbound, ?_⟩
  split at hsame
  · omega
  · rw [hsame]

/-- A caller that has to wait asks for no more than the capacity. -/
theorem acquire_waits {a : AdmissionController} {st : SchedulerStatus} {count : Nat}
    {block isInternal : Bool} (h : a.acquire st count block isInternal = none) :
    count ≤ a.capacity := by
  unfold AdmissionController.acquire at h
  by_contra hlarge
  split at h
  · split at h
    · cases h
    · split at h <;> cases h
  · split at h
    · cases h
    · split at h <;> cases h
    · split at h
      · cases h
      · rw [if_pos (by omega)] at h
        cases h

theorem release_capacity (a : AdmissionController) (count : Nat) :
    (a.release count).capacity = a.capacity ∧ (a.release count).pending ≤ a.pending := by
  unfold AdmissionController.release
  split
  · exact ⟨rfl, Nat.le_refl _⟩
  · refine ⟨rfl, ?_⟩
    dsimp only
    split <;> omega

/-! ## The steps -/

/-- The step of one submitter, in a new shared state. -/
theorem Inv.goto (h : Inv r) (hsubmitters : r'.submitters = r.submitters)
    (hpending : r'.admission.pending ≤ r'.admission.capacity)
    (hown : SubmitterOk r' i { c with pc := pc })
    (hothers : ∀ j d, j ≠ i → SubmitterOk r j d → SubmitterOk r' j d) :
    Inv (r'.goto i c pc) := by
  refine ⟨hpending, ?_⟩
  have hset : Each (SubmitterOk r') (r'.submitters.set i { c with pc := pc }) := by
    rw [hsubmitters]
    exact h.submitters.set hown fun j d hj _ hd => hothers j d hj hd
  exact hset.imp fun j d _ hd => ⟨hd.holds, hd.fits, hd.window, hd.blocked⟩

theorem Inv.move (h : Inv r) (hown : SubmitterOk r i { c with pc := pc }) :
    Inv (r.goto i c pc) :=
  h.goto rfl h.pending hown fun _ _ _ hd => hd

theorem Inv.acquireMutex (h : Inv r) (hfree : r.holder = none)
    (hown : SubmitterOk { r with holder := some i } i { c with pc := pc }) :
    Inv ({ r with holder := some i }.goto i c pc) := by
  refine h.goto rfl h.pending hown fun j d _ hd =>
    ⟨fun hholding => ?_, hd.fits, hd.window, hd.blocked⟩
  cases hfree.symm.trans (hd.holds hholding)

/-- A decision: the counter grows or stays, and the mutex is free. -/
theorem Inv.decided (h : Inv r) (hsmall : r.admission.capacity < 2 ^ 63)
    {a : AdmissionController} {decision : AdmissionDecision} {holder : Option Nat}
    (hacquire :
      r.admission.acquire r.status c.count c.block c.isInternal = some (decision, a))
    (hholder : ∀ j, j ≠ i → r.holder = some j → holder = some j) :
    Inv ({ r with admission := a, holder := holder }.goto i c (.returned decision)) := by
  obtain ⟨hcapacity, hbound, hgrows⟩ := acquire_grows h.pending hsmall hacquire
  refine h.goto rfl (by rw [hcapacity]; exact hbound) ⟨nofun, nofun, nofun, nofun⟩ fun j d hj hd => ?_
  have hpred : d.pc.inWait → predicate a r.status d.count →
      predicate r.admission r.status d.count := fun hwait =>
    predicate_anti hcapacity hsmall hbound hgrows (hd.fits hwait)
  refine ⟨fun hholding => hholder j hj (hd.holds hholding), ?_, ?_, ?_⟩
  · intro hwait
    dsimp only
    rw [hcapacity]
    exact hd.fits hwait
  · exact fun hpc htrue => hd.window hpc (hpred (by rw [hpc]; rfl) htrue)
  · exact fun hpc htrue => hd.blocked hpc (hpred (by rw [hpc]; rfl) htrue)

theorem Inv.submitterStep (h : Inv r) (hsmall : r.admission.capacity < 2 ^ 63)
    (hc : r.submitters[i]? = some c) (hs : r.submitterStep i c = some r') : Inv r' := by
  have hok := h.submitters i c hc
  unfold Runtime.submitterStep at hs
  cases hpc : c.pc with
  | start =>
    simp only [hpc] at hs
    split at hs
    · obtain ⟨out, hacquire, rfl⟩ := Option.map_eq_some_iff.mp hs
      exact h.decided hsmall hacquire fun j _ hj => hj
    · split at hs <;> cases hs
      exact h.acquireMutex ‹_› ⟨fun _ => rfl, nofun, nofun, nofun⟩
  | deciding =>
    have hheld : r.holder = some i := hok.holds (by rw [hpc]; rfl)
    simp only [hpc] at hs
    cases hs
    unfold Runtime.decideStep
    split
    · refine h.decided hsmall ‹_› fun j hj hj' => ?_
      exact absurd (Option.some.inj (hj'.symm.trans hheld)) hj
    · exact h.move ⟨fun _ => hheld, fun _ => acquire_waits ‹_›, nofun, nofun⟩
  | evaluating =>
    have hheld : r.holder = some i := hok.holds (by rw [hpc]; rfl)
    have hfits : c.count ≤ r.admission.capacity := hok.fits (by rw [hpc]; rfl)
    simp only [hpc] at hs
    split at hs <;> cases hs
    · exact h.move ⟨fun _ => hheld, nofun, nofun, nofun⟩
    · exact h.move ⟨fun _ => hheld, fun _ => hfits, fun _ htrue => absurd htrue ‹_›, nofun⟩
  | blocking =>
    have hheld : r.holder = some i := hok.holds (by rw [hpc]; rfl)
    have hfits : c.count ≤ r.admission.capacity := hok.fits (by rw [hpc]; rfl)
    simp only [hpc] at hs
    cases hs
    refine h.goto rfl h.pending ⟨nofun, fun _ => hfits, nofun, fun _ htrue => ?_⟩ fun j d hj hd => ?_
    · have := hok.window hpc htrue
      dsimp only
      omega
    · refine ⟨fun hholding => ?_, hd.fits, hd.window, hd.blocked⟩
      exact absurd (Option.some.inj ((hd.holds hholding).symm.trans hheld)) hj
  | woken =>
    have hfits : c.count ≤ r.admission.capacity := hok.fits (by rw [hpc]; rfl)
    simp only [hpc] at hs
    split at hs <;> cases hs
    exact h.acquireMutex ‹_› ⟨fun _ => rfl, fun _ => hfits, nofun, nofun⟩
  | blocked | returned decision =>
    simp only [hpc] at hs
    cases hs

/-- A notification wakes whoever is blocked; who stands in the window is not reached. -/
theorem Inv.wake (h : Inv r) {releaseNotifies wakeAlls : Nat}
    (hwindow : (∃ c ∈ r.submitters, c.pc = .blocking) → wakeAlls = r.wakeAlls) :
    Inv { r.wake with releaseNotifies := releaseNotifies, wakeAlls := wakeAlls } := by
  refine ⟨h.pending, ?_⟩
  intro i c hc
  simp only [Runtime.wake, List.getElem?_map, Option.map_eq_some_iff] at hc
  obtain ⟨d, hd, rfl⟩ := hc
  have hok := h.submitters i d hd
  by_cases hblocked : d.pc = .blocked
  · rw [if_pos hblocked]
    exact ⟨nofun, fun _ => hok.fits (by rw [hblocked]; rfl), nofun, nofun⟩
  · rw [if_neg hblocked]
    refine ⟨hok.holds, hok.fits, fun hpc htrue => ?_, fun hpc => absurd hpc hblocked⟩
    have howed := hok.window hpc htrue
    have hsame := hwindow ⟨d, List.mem_of_getElem? hd, hpc⟩
    dsimp only
    omega

/-- A change of the status owes a `wake_all` to everybody. -/
theorem Inv.setStatus (h : Inv r) (status : SchedulerStatus) :
    Inv { r with status := status, wakeAlls := r.wakeAlls + 1 } := by
  refine ⟨h.pending, h.submitters.imp fun i c _ hc => ⟨hc.holds, hc.fits, ?_, ?_⟩⟩
  · exact fun _ _ => Nat.succ_pos _
  · intro _ _
    dsimp only
    omega

theorem Inv.step (h : Inv r) {a : Label} (hok : WakesOutsideWindow r a)
    (hs : r.next a = some r') : Inv r' := by
  unfold Runtime.next at hs
  cases a with
  | acquire count block isInternal =>
    cases hs
    have hnew : SubmitterOk r r.submitters.length { count, block, isInternal } :=
      ⟨nofun, nofun, nofun, nofun⟩
    exact ⟨h.pending, (h.submitters.append hnew).imp fun i c _ hc =>
      ⟨hc.holds, hc.fits, hc.window, hc.blocked⟩⟩
  | step i =>
    obtain ⟨c, hc, hs⟩ := Option.bind_eq_some_iff.mp hs
    exact h.submitterStep hok.1 hc hs
  | release count =>
    dsimp only at hs
    split at hs <;> cases hs
    rename_i hfree
    obtain ⟨hcapacity, hless⟩ := release_capacity r.admission count
    refine ⟨?_, h.submitters.imp fun i c _ hc => ⟨hc.holds, ?_, ?_, ?_⟩⟩
    · dsimp only
      rw [hcapacity]
      exact Nat.le_trans hless h.pending
    · dsimp only
      rw [hcapacity]
      exact hc.fits
    · intro hpc
      cases hfree.1.symm.trans (hc.holds (by rw [hpc]; rfl))
    · intro _ _
      dsimp only
      omega
  | notifyAll =>
    dsimp only at hs
    split at hs <;> cases hs
    exact h.wake fun _ => rfl
  | requestShutdownMode mode =>
    obtain ⟨status, -, rfl⟩ := Option.map_eq_some_iff.mp hs
    exact h.setStatus status
  | storeStopped =>
    cases hs
    exact h.setStatus _
  | wakeAll =>
    dsimp only at hs
    split at hs <;> cases hs
    refine h.wake fun hwindow => ?_
    obtain ⟨c, hc, hpc⟩ := hwindow
    exact absurd hpc (hok.2 rfl c hc)

/-- **No submitter loses its wakeup, as long as no `wake_all` falls into the window of a
submitter.** -/
theorem noLostWakeup_of_wakesOutsideWindow
    (h : Runtime.machine.ReachableUnder WakesOutsideWindow r) : NoLostWakeup r := by
  refine (h.invariant Inv ?_ fun r a r' hi hok hs => hi.step hok hs).noLostWakeup
  rintro r ⟨capacity, rfl⟩
  exact ⟨Nat.zero_le _, Each.nil⟩

/-- Three submitters on two slots; a release lets the second in, a shutdown turns the third
away. -/
def releaseThenShutdown : List Label :=
  [.acquire 2 true false, .step 0, .step 0, .acquire 1 true false, .acquire 2 true false,
    .step 1, .step 1, .step 1, .step 1, .step 2, .step 2, .step 2, .step 2, .release 1,
    .notifyAll, .step 1, .step 1, .step 1, .step 2, .step 2, .step 2,
    .requestShutdownMode .graceful, .storeStopped, .wakeAll, .wakeAll, .step 2, .step 2, .step 2]

/-- The exchange and the `wake_all` of a shutdown between the predicate and the block. -/
def shutdownInWindow : List Label :=
  [.acquire 1 true false, .step 0, .step 0, .acquire 1 true false, .step 1, .step 1, .step 1,
    .requestShutdownMode .graceful, .wakeAll, .storeStopped, .wakeAll, .step 1]

theorem releaseThenShutdown_noLostWakeup :
    ∃ r, Runtime.machine.run (Runtime.started 2) releaseThenShutdown = some r ∧
      NoLostWakeup r ∧ r.submitters.map (·.pc) =
        [.returned .success, .returned .success, .returned .stopped] := by
  obtain ⟨r, hr⟩ := Option.isSome_iff_exists.mp
    (show (Runtime.machine.run (Runtime.started 2) releaseThenShutdown).isSome by decide)
  have hend : (Runtime.machine.run (Runtime.started 2) releaseThenShutdown).map (fun t =>
      t.submitters.map (·.pc)) =
        some [.returned .success, .returned .success, .returned .stopped] := by decide
  rw [hr] at hend
  have hreach : Runtime.machine.ReachableUnder WakesOutsideWindow r :=
    (Machine.ReachableUnder.initial (m := Runtime.machine) ⟨2, rfl⟩).run (by decide) hr
  exact ⟨r, hr, noLostWakeup_of_wakesOutsideWindow hreach, Option.some.inj hend⟩

/-- The submitter is blocked in a runtime that is Stopped, and nobody will notify it. -/
theorem shutdownInWindow_losesWakeup :
    ∃ r, Runtime.machine.run (Runtime.started 1) shutdownInWindow = some r ∧
      r.status.state = .stopped ∧ r.NothingOwed ∧ ¬ NoLostWakeup r := by
  obtain ⟨r, hr⟩ := Option.isSome_iff_exists.mp
    (show (Runtime.machine.run (Runtime.started 1) shutdownInWindow).isSome by decide)
  have hend : (Runtime.machine.run (Runtime.started 1) shutdownInWindow).map (fun t =>
      (t.status.state, t.releaseNotifies, t.wakeAlls, t.submitters.map (·.pc))) =
        some (.stopped, 0, 0, [.returned .success, .blocked]) := by decide
  rw [hr] at hend
  obtain ⟨hstopped, hrelease, hwake, hpcs⟩ := Option.some.inj hend |> fun h => by
    simpa only [Prod.mk.injEq] using h
  refine ⟨r, hr, hstopped, ⟨hrelease, hwake⟩, fun h => ?_⟩
  have hmem : Pc.blocked ∈ r.submitters.map (·.pc) := by
    rw [hpcs]
    decide
  obtain ⟨c, hc, hpc⟩ := List.mem_map.mp hmem
  exact h.stopped ⟨hrelease, hwake⟩ hstopped c hc hpc

end AstraScheduler.BlockedSubmitters
