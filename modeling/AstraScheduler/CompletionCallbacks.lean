import AstraScheduler.CallbackLedger
import AstraScheduler.Status
import AstraScheduler.Transition

/-! # Start, cancellation and completion of a submitted callable

One worker executes the gate of a submitted callable; any number of calls of
`request_cancel`, of `cancel_pre_start` and of `add_completion_callback` go on meanwhile.
Every one of them passes through the mutex of the control block once, and that critical
section is one step; the callbacks it took out are invoked afterwards, one step each, by
whoever took them.  What a callback does itself is more of the same steps.

The callable starts only if `try_start` wins against every cancellation
(`Phase`), the state word is written for the last time by the critical section that takes
the callbacks out, and from there on late callbacks invoke themselves. -/

namespace AstraScheduler
namespace CompletionCallbacks

open CallbackLedger (Deliveries)
open Transition (Machine)

/-- The `std::function` handed to `add_completion_callback`. -/
inductive Callback
  | empty
  | closure (id : Nat)
  deriving DecidableEq, Repr

/-! ## The control block -/

/-- What the critical sections of a `TaskControlBlock` read and write. -/
structure ControlBlock where
  state : TaskState := .ready
  stopRequested : Bool := false
  /-- `exception_`. -/
  exception : Option Nat := none
  /-- `completion_callbacks_`, and what has become of those taken out. -/
  callbacks : Deliveries Callback := {}
  deriving DecidableEq, Repr

namespace ControlBlock
variable (tcb : ControlBlock)

def isCompleted : Bool := tcb.state.terminal

/-- `add_completion_callback`. -/
def addCompletionCallback (cb : Callback) : ControlBlock :=
  if tcb.isCompleted then { tcb with callbacks := tcb.callbacks.handOver cb }
  else { tcb with callbacks := tcb.callbacks.leave cb }

/-- `request_cancel`: only a task that has not started is cancelled by it. -/
def requestCancel : ControlBlock :=
  if tcb.state = .ready then
    { tcb with
      stopRequested := true
      state := .cancelled
      callbacks := tcb.callbacks.takeOut }
  else { tcb with stopRequested := true }

/-- `try_start`. -/
def tryStart : ControlBlock × Bool :=
  if tcb.state = .ready then ({ tcb with state := .running }, true) else (tcb, false)

/-- `succeed`. -/
def succeed : ControlBlock :=
  { tcb with state := .succeeded, callbacks := tcb.callbacks.takeOut }

/-- `set_exception`. -/
def setException (ex : Nat) : ControlBlock :=
  { tcb with exception := some ex, state := .failed, callbacks := tcb.callbacks.takeOut }

/-- `set_cancelled`. -/
def setCancelled : ControlBlock :=
  { tcb with state := .cancelled, callbacks := tcb.callbacks.takeOut }

end ControlBlock

/-! ## The gate and the calls around it -/

/-- How the callable ends (`TaskInvokerModel::invoke_impl`). -/
inductive Outcome
  | value
  /-- It throws `task_cancelled`. -/
  | cancelled
  | exception (ex : Nat)
  deriving DecidableEq, Repr

/-- The end of `invoke_impl`. -/
def ControlBlock.finish (tcb : ControlBlock) : Outcome → ControlBlock
  | .value => tcb.succeed
  | .cancelled => tcb.setCancelled
  | .exception ex => tcb.setException ex

/-- Where the worker is in `SubmittedInvokerGate::execute`. -/
inductive Gate
  /-- Not entered: the gate waits in a queue, or the worker has just claimed it. -/
  | waiting
  /-- `try_start` returned true; the callable is not invoked yet. -/
  | started
  /-- `try_start` returned false; the inner invoker is not told yet. -/
  | refused
  | inCallable
  | returned
  deriving DecidableEq, Repr

structure Run where
  tcb : ControlBlock := {}
  gate : Gate := .waiting
  /-- What `try_start` returned, once it was called. -/
  tryStart : Option Bool := none
  /-- How often the callable has been invoked. -/
  runs : Nat := 0
  deriving DecidableEq, Repr

inductive Label
  /-- The worker enters `execute` and calls `try_start`. -/
  | tryStart
  /-- `inner_->execute()` invokes the callable. -/
  | invoke
  /-- The callable ends. -/
  | finish (outcome : Outcome)
  /-- After a failed start: `cancel_pre_start` and `abandon_unstarted` of the inner invoker,
  the second of which does nothing for a callable. -/
  | refuse
  /-- Any thread calls `request_cancel`. -/
  | requestCancel
  /-- A queue sweep or the Immediate branch of the worker loop calls `cancel_pre_start` of
  the gate, whose inner invoker calls `request_cancel`. -/
  | cancelPreStart
  /-- Any thread calls `add_completion_callback`. -/
  | addCompletionCallback (cb : Callback)
  /-- A call that holds callbacks invokes its next one, if that holds a closure. -/
  | deliver (call : Nat)
  deriving DecidableEq, Repr

def next (s : Run) : Label → Option Run
  | .tryStart =>
    match s.gate with
    | .waiting =>
      let (tcb, started) := s.tcb.tryStart
      some { s with
        tcb := tcb
        gate := if started then .started else .refused
        tryStart := some started }
    | _ => none
  | .invoke =>
    match s.gate with
    | .started => some { s with gate := .inCallable, runs := s.runs + 1 }
    | _ => none
  | .finish outcome =>
    match s.gate with
    | .inCallable => some { s with tcb := s.tcb.finish outcome, gate := .returned }
    | _ => none
  | .refuse =>
    match s.gate with
    | .refused => some { s with tcb := s.tcb.requestCancel, gate := .returned }
    | _ => none
  | .requestCancel | .cancelPreStart => some { s with tcb := s.tcb.requestCancel }
  | .addCompletionCallback cb => some { s with tcb := s.tcb.addCompletionCallback cb }
  | .deliver call =>
    (s.tcb.callbacks.deliver call).map fun d => { s with tcb := { s.tcb with callbacks := d } }

/-- A task that has just been accepted. -/
def machine : Machine Run Label where
  init s := s = {}
  next := next

/-! ## The invariant -/

/-- What the place in the gate says about the task. -/
def Phase (s : Run) : Prop :=
  match s.gate with
  | .waiting => s.tryStart = none ∧ s.runs = 0 ∧ (s.tcb.state = .ready ∨ s.tcb.state = .cancelled)
  | .started => s.tryStart = some true ∧ s.runs = 0 ∧ s.tcb.state = .running
  | .refused => s.tryStart = some false ∧ s.runs = 0 ∧ s.tcb.state = .cancelled
  | .inCallable => s.tryStart = some true ∧ s.runs = 1 ∧ s.tcb.state = .running
  | .returned =>
    (s.tryStart = some true ∧ s.runs = 1 ∧ s.tcb.isCompleted = true) ∨
      (s.tryStart = some false ∧ s.runs = 0 ∧ s.tcb.state = .cancelled)

structure Sound (s : Run) : Prop where
  phase : Phase s
  callbacks : CallbackLedger.Sound (s.tcb.isCompleted = true) s.tcb.callbacks

/-- A critical section that completes the task takes the callbacks along. -/
theorem sound_takeOut {tcb : ControlBlock}
    (h : CallbackLedger.Sound (tcb.isCompleted = true) tcb.callbacks) {state : TaskState}
    (hstate : state.terminal = true) {stop : Bool} {ex : Option Nat} :
    CallbackLedger.Sound
      (ControlBlock.isCompleted ⟨state, stop, ex, tcb.callbacks.takeOut⟩ = true)
      tcb.callbacks.takeOut :=
  h.takeOut.congr (iff_of_true hstate trivial)

namespace ControlBlock
variable {tcb : ControlBlock}

/-- `request_cancel` keeps the callbacks sound, whatever the state. -/
theorem requestCancel_callbacks
    (h : CallbackLedger.Sound (tcb.isCompleted = true) tcb.callbacks) :
    CallbackLedger.Sound (tcb.requestCancel.isCompleted = true) tcb.requestCancel.callbacks := by
  unfold requestCancel
  split
  · exact sound_takeOut h rfl
  · exact h

theorem finish_callbacks (h : CallbackLedger.Sound (tcb.isCompleted = true) tcb.callbacks)
    (outcome : Outcome) :
    CallbackLedger.Sound ((tcb.finish outcome).isCompleted = true)
      (tcb.finish outcome).callbacks := by
  induction outcome with
  | value => exact sound_takeOut h rfl
  | cancelled => exact sound_takeOut h rfl
  | exception ex => exact sound_takeOut h rfl

theorem addCompletionCallback_callbacks
    (h : CallbackLedger.Sound (tcb.isCompleted = true) tcb.callbacks) (cb : Callback) :
    CallbackLedger.Sound ((tcb.addCompletionCallback cb).isCompleted = true)
      (tcb.addCompletionCallback cb).callbacks := by
  unfold addCompletionCallback
  split
  case isTrue hc => exact h.handOver hc cb
  case isFalse hc => exact h.leave hc cb

theorem finish_isCompleted (tcb : ControlBlock) (outcome : Outcome) :
    (tcb.finish outcome).isCompleted = true := by
  induction outcome <;> rfl

@[simp] theorem addCompletionCallback_state (tcb : ControlBlock) (cb : Callback) :
    (tcb.addCompletionCallback cb).state = tcb.state := by
  unfold addCompletionCallback
  split <;> rfl

/-- Once it is not ready any more, cancelling leaves the state word alone. -/
theorem requestCancel_state (h : tcb.state ≠ .ready) : tcb.requestCancel.state = tcb.state := by
  rw [requestCancel, if_neg h]

theorem requestCancel_ready (h : tcb.state = .ready) : tcb.requestCancel.state = .cancelled := by
  rw [requestCancel, if_pos h]

end ControlBlock

/-- A cancellation from outside: it decides the task before the start and not at all
afterwards. -/
theorem Phase.requestCancel {s : Run} (h : Phase s) :
    Phase { s with tcb := s.tcb.requestCancel } := by
  rcases s with ⟨tcb, gate, started, runs⟩
  cases gate with
  | waiting =>
    obtain ⟨hstart, hruns, hready | hcancelled⟩ := h
    · exact ⟨hstart, hruns, .inr (ControlBlock.requestCancel_ready hready)⟩
    · refine ⟨hstart, hruns, .inr ?_⟩
      have hne : tcb.state ≠ .ready := by rw [hcancelled]; decide
      exact (ControlBlock.requestCancel_state hne).trans hcancelled
  | started =>
    obtain ⟨hstart, hruns, hstate⟩ := h
    have hne : tcb.state ≠ .ready := by rw [hstate]; decide
    exact ⟨hstart, hruns, (ControlBlock.requestCancel_state hne).trans hstate⟩
  | refused =>
    obtain ⟨hstart, hruns, hstate⟩ := h
    have hne : tcb.state ≠ .ready := by rw [hstate]; decide
    exact ⟨hstart, hruns, (ControlBlock.requestCancel_state hne).trans hstate⟩
  | inCallable =>
    obtain ⟨hstart, hruns, hstate⟩ := h
    have hne : tcb.state ≠ .ready := by rw [hstate]; decide
    exact ⟨hstart, hruns, (ControlBlock.requestCancel_state hne).trans hstate⟩
  | returned =>
    obtain ⟨hstart, hruns, hstate⟩ | ⟨hstart, hruns, hstate⟩ := h
    · have hne : tcb.state ≠ .ready := by
        rintro hready
        rw [ControlBlock.isCompleted, hready] at hstate
        cases hstate
      refine .inl ⟨hstart, hruns, ?_⟩
      rw [ControlBlock.isCompleted, ControlBlock.requestCancel_state hne]
      exact hstate
    · have hne : tcb.state ≠ .ready := by rw [hstate]; decide
      exact .inr ⟨hstart, hruns, (ControlBlock.requestCancel_state hne).trans hstate⟩

/-- A step that leaves gate, state word and runs alone keeps the phase. -/
theorem Phase.of_state {s : Run} (h : Phase s) {tcb : ControlBlock}
    (hstate : tcb.state = s.tcb.state) : Phase { s with tcb := tcb } := by
  rcases s with ⟨old, gate, started, runs⟩
  unfold Phase ControlBlock.isCompleted at h ⊢
  dsimp only at hstate h ⊢
  rwa [hstate]

/-- A start that is tried with the gate waiting. -/
theorem phase_tryStart {s : Run} (h : Phase s) (hgate : s.gate = .waiting) :
    Phase { s with
      tcb := s.tcb.tryStart.1
      gate := if s.tcb.tryStart.2 then .started else .refused
      tryStart := some s.tcb.tryStart.2 } := by
  unfold Phase at h
  rw [hgate] at h
  obtain ⟨-, hruns, hready | hcancelled⟩ := h
  · unfold ControlBlock.tryStart
    rw [if_pos hready]
    exact ⟨rfl, hruns, rfl⟩
  · have hne : s.tcb.state ≠ .ready := by rw [hcancelled]; decide
    unfold ControlBlock.tryStart
    rw [if_neg hne]
    exact ⟨rfl, hruns, hcancelled⟩

theorem tryStart_callbacks {tcb : ControlBlock}
    (h : CallbackLedger.Sound (tcb.isCompleted = true) tcb.callbacks) :
    CallbackLedger.Sound (tcb.tryStart.1.isCompleted = true) tcb.tryStart.1.callbacks := by
  unfold ControlBlock.tryStart
  split
  case isTrue hready =>
    refine h.congr ?_
    simp [ControlBlock.isCompleted, hready, TaskState.terminal]
  case isFalse => exact h

/-! Each of the worker's steps has one place in the gate from which it is taken. -/

section Next
variable {s s' : Run}

theorem next_tryStart (hs : machine.next s .tryStart = some s') :
    s.gate = .waiting ∧ s' = { s with
      tcb := s.tcb.tryStart.1
      gate := if s.tcb.tryStart.2 then .started else .refused
      tryStart := some s.tcb.tryStart.2 } := by
  cases hgate : s.gate <;> simp only [machine, next, hgate, reduceCtorEq, Option.some.injEq] at hs
  exact ⟨rfl, hs.symm⟩

theorem next_invoke (hs : machine.next s .invoke = some s') :
    s.gate = .started ∧ s' = { s with gate := .inCallable, runs := s.runs + 1 } := by
  cases hgate : s.gate <;> simp only [machine, next, hgate, reduceCtorEq, Option.some.injEq] at hs
  exact ⟨rfl, hs.symm⟩

theorem next_finish {outcome : Outcome} (hs : machine.next s (.finish outcome) = some s') :
    s.gate = .inCallable ∧ s' = { s with tcb := s.tcb.finish outcome, gate := .returned } := by
  cases hgate : s.gate <;> simp only [machine, next, hgate, reduceCtorEq, Option.some.injEq] at hs
  exact ⟨rfl, hs.symm⟩

theorem next_refuse (hs : machine.next s .refuse = some s') :
    s.gate = .refused ∧ s' = { s with tcb := s.tcb.requestCancel, gate := .returned } := by
  cases hgate : s.gate <;> simp only [machine, next, hgate, reduceCtorEq, Option.some.injEq] at hs
  exact ⟨rfl, hs.symm⟩

end Next

theorem Sound.step {s s' : Run} {a : Label} (h : Sound s) (hs : machine.next s a = some s') :
    Sound s' := by
  obtain ⟨hphase, hcallbacks⟩ := h
  cases a with
  | tryStart =>
    obtain ⟨hgate, rfl⟩ := next_tryStart hs
    exact ⟨phase_tryStart hphase hgate, tryStart_callbacks hcallbacks⟩
  | invoke =>
    obtain ⟨hgate, rfl⟩ := next_invoke hs
    rw [Phase, hgate] at hphase
    exact ⟨⟨hphase.1, congrArg (· + 1) hphase.2.1, hphase.2.2⟩, hcallbacks⟩
  | finish outcome =>
    obtain ⟨hgate, rfl⟩ := next_finish hs
    rw [Phase, hgate] at hphase
    refine ⟨.inl ⟨hphase.1, hphase.2.1, ?_⟩, ControlBlock.finish_callbacks hcallbacks outcome⟩
    exact ControlBlock.finish_isCompleted _ outcome
  | refuse =>
    obtain ⟨hgate, rfl⟩ := next_refuse hs
    rw [Phase, hgate] at hphase
    have hne : s.tcb.state ≠ .ready := by rw [hphase.2.2]; decide
    refine ⟨.inr ⟨hphase.1, hphase.2.1, ?_⟩, ControlBlock.requestCancel_callbacks hcallbacks⟩
    exact (ControlBlock.requestCancel_state hne).trans hphase.2.2
  | requestCancel =>
    cases hs
    exact ⟨hphase.requestCancel, ControlBlock.requestCancel_callbacks hcallbacks⟩
  | cancelPreStart =>
    cases hs
    exact ⟨hphase.requestCancel, ControlBlock.requestCancel_callbacks hcallbacks⟩
  | addCompletionCallback cb =>
    cases hs
    exact ⟨hphase.of_state (ControlBlock.addCompletionCallback_state _ cb),
      ControlBlock.addCompletionCallback_callbacks hcallbacks cb⟩
  | deliver call =>
    obtain ⟨d, hd, rfl⟩ := Option.map_eq_some_iff.mp hs
    exact ⟨hphase.of_state rfl, hcallbacks.deliver hd⟩

theorem sound_of_reachable {s : Run} (h : machine.Reachable s) : Sound s := by
  apply h.invariant Sound
  · rintro s rfl
    exact ⟨⟨rfl, rfl, .inl rfl⟩, CallbackLedger.Sound.empty⟩
  · intro s a s' hsound _ hs
    exact hsound.step hs

/-! ## What holds along every run -/

theorem not_ready_of_isCompleted {tcb : ControlBlock} (h : tcb.isCompleted = true) :
    tcb.state ≠ .ready := by
  intro hready
  rw [ControlBlock.isCompleted, hready] at h
  cases h

/-- The state word of a completed task is never written to another value. -/
theorem terminal_step {s s' : Run} {a : Label} (h : Sound s) (hc : s.tcb.isCompleted = true)
    (hs : machine.next s a = some s') : s'.tcb.state = s.tcb.state := by
  have hne := not_ready_of_isCompleted hc
  obtain ⟨hphase, -⟩ := h
  cases a with
  | tryStart =>
    obtain ⟨-, rfl⟩ := next_tryStart hs
    simp only [ControlBlock.tryStart, if_neg hne]
  | invoke =>
    obtain ⟨-, rfl⟩ := next_invoke hs
    rfl
  | finish outcome =>
    -- the callable only ends while the task is running
    obtain ⟨hgate, rfl⟩ := next_finish hs
    rw [Phase, hgate] at hphase
    rw [ControlBlock.isCompleted, hphase.2.2] at hc
    cases hc
  | refuse =>
    obtain ⟨-, rfl⟩ := next_refuse hs
    exact ControlBlock.requestCancel_state hne
  | requestCancel =>
    cases hs
    exact ControlBlock.requestCancel_state hne
  | cancelPreStart =>
    cases hs
    exact ControlBlock.requestCancel_state hne
  | addCompletionCallback cb =>
    cases hs
    exact ControlBlock.addCompletionCallback_state _ cb
  | deliver call =>
    obtain ⟨d, -, rfl⟩ := Option.map_eq_some_iff.mp hs
    rfl

theorem terminal_run {s s' : Run} {as : List Label} (h : Sound s)
    (hc : s.tcb.isCompleted = true) (hr : machine.run s as = some s') :
    s'.tcb.state = s.tcb.state := by
  have hkept : Sound s' ∧ s'.tcb.state = s.tcb.state := by
    refine Machine.run_keeps (P := fun t => Sound t ∧ t.tcb.state = s.tcb.state) ?_ ⟨h, rfl⟩ hr
    rintro t a t' ⟨ht, hstate⟩ hstep
    refine ⟨ht.step hstep, (terminal_step ht ?_ hstep).trans hstate⟩
    rw [ControlBlock.isCompleted, hstate]
    exact hc
  exact hkept.2

/-- Without a successful start the callable has not run. -/
theorem Phase.runs_zero {s : Run} (h : Phase s) (hstart : s.tryStart ≠ some true) :
    s.runs = 0 := by
  unfold Phase at h
  cases hgate : s.gate <;> rw [hgate] at h
  · exact h.2.1
  · exact absurd h.1 hstart
  · exact h.2.1
  · exact absurd h.1 hstart
  · obtain ⟨htrue, -⟩ | ⟨-, hruns, -⟩ := h
    · exact absurd htrue hstart
    · exact hruns

/-- A cancelled task is not started any more. -/
theorem refused_step {s s' : Run} {a : Label} (hstate : s.tcb.state = .cancelled)
    (hstart : s.tryStart ≠ some true) (hs : machine.next s a = some s') :
    s'.tryStart ≠ some true := by
  cases a with
  | tryStart =>
    obtain ⟨-, rfl⟩ := next_tryStart hs
    have hne : s.tcb.state ≠ .ready := by rw [hstate]; decide
    simp [ControlBlock.tryStart, hne]
  | invoke => obtain ⟨-, rfl⟩ := next_invoke hs; exact hstart
  | finish outcome => obtain ⟨-, rfl⟩ := next_finish hs; exact hstart
  | refuse => obtain ⟨-, rfl⟩ := next_refuse hs; exact hstart
  | requestCancel => cases hs; exact hstart
  | cancelPreStart => cases hs; exact hstart
  | addCompletionCallback cb => cases hs; exact hstart
  | deliver call => obtain ⟨d, -, rfl⟩ := Option.map_eq_some_iff.mp hs; exact hstart

theorem cancelled_run {s s' : Run} {as : List Label} (h : Sound s)
    (hstate : s.tcb.state = .cancelled) (hstart : s.tryStart = none)
    (hr : machine.run s as = some s') : s'.runs = 0 := by
  have hkept : Sound s' ∧ s'.tcb.state = .cancelled ∧ s'.tryStart ≠ some true := by
    refine Machine.run_keeps
      (P := fun t => Sound t ∧ t.tcb.state = .cancelled ∧ t.tryStart ≠ some true) ?_
      ⟨h, hstate, by rw [hstart]; decide⟩ hr
    rintro t a t' ⟨ht, hcancelled, hrefused⟩ hstep
    have hcompleted : t.tcb.isCompleted = true := by
      rw [ControlBlock.isCompleted, hcancelled]
      rfl
    exact ⟨ht.step hstep, (terminal_step ht hcompleted hstep).trans hcancelled,
      refused_step hcancelled hrefused hstep⟩
  exact hkept.1.phase.runs_zero hkept.2.2

/-- Deliveries are steps of the machine. -/
theorem run_deliverAll {s : Run} {calls : List Nat} {d : Deliveries Callback}
    (h : s.tcb.callbacks.deliverAll calls = some d) :
    machine.run s (calls.map .deliver) = some { s with tcb := { s.tcb with callbacks := d } } := by
  induction calls generalizing s with
  | nil =>
    obtain rfl : s.tcb.callbacks = d := Option.some.inj h
    rfl
  | cons call calls ih =>
    obtain ⟨e, he, hrest⟩ := Option.bind_eq_some_iff.mp h
    have hnext : machine.next s (.deliver call) =
        some { s with tcb := { s.tcb with callbacks := e } } := by
      simp only [machine, next, he, Option.map_some]
    rw [List.map_cons, Machine.run, hnext, Option.bind_some]
    exact ih (s := { s with tcb := { s.tcb with callbacks := e } }) hrest

/-! ## The result -/

/-- Starting, cancelling and completing agree about one outcome, and every callback is
delivered once. -/
structure DeliverySafety (s : Run) : Prop where
  atMostOnce : s.runs ≤ 1
  onlyStarted : s.runs = 1 → s.tryStart = some true
  /-- A started callable runs: the worker passes it on its way through the gate. -/
  startedRuns : s.tryStart = some true → s.gate ≠ .started → s.runs = 1
  /-- Cancelled before `try_start`, the callable never runs. -/
  cancelledFirst : s.tcb.state = .cancelled → s.tryStart = none →
    ∀ as s', machine.run s as = some s' → s'.runs = 0
  terminalStable : s.tcb.isCompleted = true →
    ∀ as s', machine.run s as = some s' → s'.tcb.state = s.tcb.state
  /-- A callback is invoked in terminal states only. -/
  deliveredTerminal : ∀ call s', machine.next s (.deliver call) = some s' →
    s.tcb.isCompleted = true
  /-- Every callback added has been invoked, is about to be, or waits for the completion. -/
  accounted : ∀ cb, s.tcb.callbacks.invoked.count cb + s.tcb.callbacks.pending.count cb +
    s.tcb.callbacks.waiting.count cb = s.tcb.callbacks.added.count cb
  nothingWaits : s.tcb.isCompleted = true → s.tcb.callbacks.waiting = []
  /-- When the calls in progress have delivered, each has been invoked once for each time
  it was added. -/
  exactlyOnce : s.tcb.isCompleted = true → s.tcb.callbacks.pending = [] →
    ∀ cb, s.tcb.callbacks.invoked.count cb = s.tcb.callbacks.added.count cb
  /-- The calls in progress can deliver whatever they hold. -/
  canDeliver : ∃ (calls : List Nat) (s' : Run), machine.run s (calls.map .deliver) = some s' ∧
    s'.tcb.callbacks.pending = []

theorem deliverySafety_of_reachable {s : Run} (h : machine.Reachable s) : DeliverySafety s := by
  have hsound := sound_of_reachable h
  have hphase := hsound.phase
  refine
    { atMostOnce := ?_
      onlyStarted := ?_
      startedRuns := ?_
      cancelledFirst := fun hstate hstart as s' hr => cancelled_run hsound hstate hstart hr
      terminalStable := fun hc as s' hr => terminal_run hsound hc hr
      deliveredTerminal := ?_
      accounted := hsound.callbacks.count
      nothingWaits := hsound.callbacks.late
      exactlyOnce := fun hc hd cb => (hsound.callbacks.exactlyOnce hc hd).count_eq cb
      canDeliver := ?_ }
  · unfold Phase at hphase
    cases hgate : s.gate <;> rw [hgate] at hphase <;> omega
  · intro hruns
    by_contra hstart
    rw [hphase.runs_zero hstart] at hruns
    cases hruns
  · intro hstart hgate
    unfold Phase at hphase
    cases hplace : s.gate <;> rw [hplace] at hphase
    · rw [hphase.1] at hstart; cases hstart
    · exact absurd hplace hgate
    · rw [hphase.1] at hstart; cases hstart
    · exact hphase.2.1
    · obtain ⟨-, hruns, -⟩ | ⟨hfalse, -⟩ := hphase
      · exact hruns
      · rw [hfalse] at hstart; cases hstart
  · intro call s' hs
    obtain ⟨d, hd, -⟩ := Option.map_eq_some_iff.mp hs
    exact hsound.callbacks.complete_of_deliver hd
  · obtain ⟨calls, d, hcalls, hd⟩ := s.tcb.callbacks.exists_deliverAll
    exact ⟨calls, _, run_deliverAll hcalls, hd⟩

/-- A callback added before the start, one while the callable runs and one after its end,
with cancellations in between. -/
def lateAndEarly : List Label :=
  [.addCompletionCallback (.closure 1), .tryStart, .requestCancel, .invoke,
    .addCompletionCallback (.closure 2), .finish .value, .deliver 0, .cancelPreStart,
    .addCompletionCallback (.closure 3), .deliver 0, .deliver 1]

theorem deliverySafety_lateAndEarly :
    ∃ s, machine.run {} lateAndEarly = some s ∧ s.tcb.callbacks.invoked =
      [.closure 1, .closure 3, .closure 2] ∧
      DeliverySafety s := by
  obtain ⟨s, hs⟩ := Option.isSome_iff_exists.mp
    (show (machine.run {} lateAndEarly).isSome by decide)
  have hend : (machine.run {} lateAndEarly).map (fun t => t.tcb.callbacks.invoked) =
      some [.closure 1, .closure 3, .closure 2] := by decide
  rw [hs] at hend
  exact ⟨s, hs, Option.some.inj hend, deliverySafety_of_reachable (Machine.reachable_of_run rfl hs)⟩

end CompletionCallbacks
end AstraScheduler
