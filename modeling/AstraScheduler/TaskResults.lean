import AstraScheduler.Status
import AstraScheduler.Threads
import AstraScheduler.Transition

/-! # The result of a task and the handles that share it

`TaskHandle::ResultCell` and the parts of its control block that carry the result.  The worker
stores the value before it writes the state; an exception is stored in the critical section
that writes it.  Readers hold copies of the handle: they wait, load the state without the
mutex, and then look at the value or, under the mutex, at the exception.  What a reader may
assume about the value it looks at is only what the state it has loaded tells it.

`succeed` runs the completion callbacks inside the `try` of `invoke_impl`.  One that throws, for
want of memory, makes a failed task of one that has succeeded, and the results are about runs in
which none does.

The last reference to go takes the control block with it; a failure that nobody has looked at
is counted then, if the runtime is still there and counts. -/

namespace AstraScheduler
namespace TaskResults

open Threads (Each)
open Transition (Machine)

/-- How `invoke_impl`, or the body of a coroutine, ends. -/
inductive Outcome (V E : Type) where
  | value (v : V)
  /-- It throws `task_cancelled`. -/
  | cancelled
  | exception (e : E)
  deriving DecidableEq, Repr

/-- `value_`, and `state_`, `exception_` and `observed_` of the control block. -/
structure ResultCell (V E : Type) where
  value : Option V := none
  state : TaskState := .ready
  exception : Option E := none
  observed : Bool := false
  deriving DecidableEq, Repr

/-- Where the worker is, from the gate of the task to the release of its invoker. -/
inductive Gate (V E : Type) where
  /-- The gate has not been entered. -/
  | waiting
  | inBody
  /-- A coroutine that awaits something. -/
  | suspended
  /-- The body has ended; the cell has not been told. -/
  | ended (o : Outcome V E)
  /-- `set_value` has stored the value; `succeed` has not been entered. -/
  | emplaced
  /-- `succeed` has written the state and runs the completion callbacks. -/
  | notifying
  /-- In the critical section of `set_exception`, before the state is written. -/
  | failing
  /-- The task is over, or `try_start` has failed; the invoker is still there. -/
  | finished
  | released
  deriving DecidableEq, Repr

/-- The worker holds the mutex, between two of its writes. -/
def Gate.locked {V E : Type} : Gate V E → Bool
  | .failing => true
  | _ => false

def Gate.gone {V E : Type} : Gate V E → Bool
  | .released => true
  | _ => false

inductive CallKind where
  | get
  /-- `handle.get()` in `await_resume`. -/
  | awaitResume
  | wait
  | waitFor
  deriving DecidableEq, Repr

/-- Where the owner of a copy of the handle is. -/
inductive Place where
  | idle
  /-- In `perform_caller_wait`. -/
  | waiting (kind : CallKind)
  | waited (kind : CallKind)
  /-- `get` has loaded the state. -/
  | loaded (state : TaskState)
  /-- `tcb_mark_observed` was called, the exception is not read yet. -/
  | observed
  | dropped
  deriving DecidableEq, Repr

inductive Result (V E : Type) where
  | value (v : V)
  /-- `*value_` of an empty optional. -/
  | empty
  /-- `rethrow_exception`; of a null pointer if there is none. -/
  | rethrown (e : Option E)
  | taskCancelled
  | waited
  | completed
  | timedOut
  deriving DecidableEq, Repr

structure Task (V E : Type) where
  cell : ResultCell V E := {}
  gate : Gate V E := .waiting
  /-- How the body has ended, once it has. -/
  bodyEnd : Option (Outcome V E) := none
  /-- The copies of the handle. -/
  handles : List Place := [.idle]
  /-- What the calls have returned or thrown. -/
  results : List (Result V E) := []
  destroyed : Bool := false
  /-- `find_runtime_diagnostics` finds the runtime and its metrics are not Off, or did when the
  control block was destroyed. -/
  metricsOn : Bool := true
  unobservedFailures : Nat := 0
  deriving DecidableEq, Repr

inductive Label (V E : Type) where
  /-- The worker enters the gate and calls `try_start`. -/
  | tryStart
  | suspend
  | resume
  | bodyEnds (o : Outcome V E)
  /-- `set_value`: the value is moved into the cell; the move may throw. -/
  | emplace (throws : Option E)
  /-- The state is written: `succeed`, `set_cancelled`, or the end of `set_exception`. -/
  | complete
  /-- The completion callbacks of `succeed` have returned, or one of them has thrown. -/
  | callbacksReturn
  | callbackThrows (e : E)
  /-- `set_exception` stores the exception. -/
  | storeException
  /-- The invoker is destroyed, after the task is over or out of a queue that was cancelled. -/
  | release
  | requestCancel
  | copy (i : Nat)
  | drop (i : Nat)
  | call (i : Nat) (kind : CallKind)
  /-- The next step of a call. -/
  | step (i : Nat)
  /-- `perform_caller_wait` gives up at its deadline, or throws a logic error. -/
  | timeout (i : Nat)
  | refuse (i : Nat)
  /-- The runtime is destroyed. -/
  | runtimeGone
  /-- The last reference goes. -/
  | destroy
  deriving DecidableEq, Repr

namespace Task
variable {V E : Type}

def setPlace (s : Task V E) (i : Nat) (p : Place) : Task V E :=
  { s with handles := s.handles.set i p }

/-- A call returns, or throws. -/
def finish (s : Task V E) (i : Nat) (r : Result V E) : Task V E :=
  { s with handles := s.handles.set i .idle, results := s.results ++ [r] }

/-- `get`, `wait` and `wait_for`, step by step. -/
def stepCall (s : Task V E) (i : Nat) : Place → Option (Task V E)
  | .waiting kind => if s.cell.state.terminal then some (s.setPlace i (.waited kind)) else none
  | .waited .get | .waited .awaitResume => some (s.setPlace i (.loaded s.cell.state))
  | .waited .wait => some (s.finish i .waited)
  | .waited .waitFor =>
    some (s.finish i (if s.cell.state.terminal then .completed else .timedOut))
  | .loaded .failed =>
    some ({ s with cell := { s.cell with observed := true } }.setPlace i .observed)
  | .loaded .cancelled => some (s.finish i .taskCancelled)
  | .loaded _ =>
    some (s.finish i (match s.cell.value with | some v => .value v | none => .empty))
  | .observed =>
    -- `exception()` takes the mutex
    if s.gate.locked then none else some (s.finish i (.rethrown s.cell.exception))
  | .idle | .dropped => none

def workerStep (s : Task V E) : Label V E → Option (Task V E)
  | .tryStart =>
    match s.gate with
    | .waiting =>
      if s.cell.state = .ready then
        some { s with cell := { s.cell with state := .running }, gate := .inBody }
      else some { s with gate := .finished }
    | _ => none
  | .suspend =>
    match s.gate with
    | .inBody => some { s with cell := { s.cell with state := .suspended }, gate := .suspended }
    | _ => none
  | .resume =>
    match s.gate with
    | .suspended => some { s with cell := { s.cell with state := .running }, gate := .inBody }
    | _ => none
  | .bodyEnds o =>
    match s.gate with
    | .inBody => some { s with gate := .ended o, bodyEnd := some o }
    | _ => none
  | .emplace throws =>
    match s.gate, throws with
    | .ended (.value v), none =>
      some { s with cell := { s.cell with value := some v }, gate := .emplaced }
    | .ended (.value _), some e =>
      some { s with gate := .ended (.exception e), bodyEnd := some (.exception e) }
    | _, _ => none
  | .storeException =>
    match s.gate with
    | .ended (.exception e) =>
      some { s with cell := { s.cell with exception := some e }, gate := .failing }
    | _ => none
  | .complete =>
    match s.gate with
    | .emplaced => some { s with cell := { s.cell with state := .succeeded }, gate := .notifying }
    | .failing => some { s with cell := { s.cell with state := .failed }, gate := .finished }
    | .ended .cancelled =>
      some { s with cell := { s.cell with state := .cancelled }, gate := .finished }
    | _ => none
  | .callbacksReturn =>
    match s.gate with
    | .notifying => some { s with gate := .finished }
    | _ => none
  | .callbackThrows e =>
    match s.gate with
    | .notifying => some { s with gate := .ended (.exception e) }
    | _ => none
  | .release =>
    match s.gate with
    | .finished | .waiting => some { s with gate := .released }
    | _ => none
  | _ => none

def next (s : Task V E) : Label V E → Option (Task V E)
  | .requestCancel =>
    -- `request_cancel` takes the mutex
    if s.destroyed ∨ s.gate.locked then none
    else if s.cell.state = .ready then some { s with cell := { s.cell with state := .cancelled } }
    else some s
  | .copy i =>
    match s.handles[i]? with
    | some .dropped | none => none
    | some _ => some { s with handles := s.handles ++ [.idle] }
  | .drop i =>
    match s.handles[i]? with
    | some .idle => some (s.setPlace i .dropped)
    | _ => none
  | .call i kind =>
    match s.handles[i]? with
    | some .idle => some (s.setPlace i (.waiting kind))
    | _ => none
  | .step i => s.handles[i]?.bind (s.stepCall i)
  | .timeout i =>
    match s.handles[i]? with
    | some (.waiting .waitFor) => some (s.setPlace i (.waited .waitFor))
    | _ => none
  | .refuse i =>
    match s.handles[i]? with
    | some (.waiting _) => some (s.setPlace i .idle)
    | _ => none
  | .runtimeGone => if s.destroyed then none else some { s with metricsOn := false }
  | .destroy =>
    if s.destroyed = false ∧ s.gate.gone ∧ ∀ p ∈ s.handles, p = .dropped then
      some { s with
        destroyed := true
        unobservedFailures := s.unobservedFailures +
          if s.cell.state = .failed ∧ s.cell.observed = false ∧ s.metricsOn then 1 else 0 }
    else none
  | label => s.workerStep label

/-- A new task, of a runtime with its metrics on or Off. -/
def machine : Machine (Task V E) (Label V E) where
  init s := ∃ metricsOn, s = { metricsOn := metricsOn }
  next := next

/-- No completion callback throws. -/
def NoThrow (_ : Task V E) : Label V E → Prop
  | .callbackThrows _ => False
  | _ => True

instance (s : Task V E) (a : Label V E) : Decidable (s.NoThrow a) := by
  cases a <;> unfold NoThrow <;> infer_instance

end Task

variable {V E : Type}

/-! ## The invariant -/

/-- What the cell holds, whether or not somebody has looked at a failure. -/
def ResultCell.Holds (c : ResultCell V E) (value : Option V) (state : TaskState)
    (exception : Option E) : Prop :=
  c.value = value ∧ c.state = state ∧ c.exception = exception

/-- What the cell holds when the task is over. -/
def Outcome.Settled (c : ResultCell V E) : Outcome V E → Prop
  | .value v => c.Holds (some v) .succeeded none
  | .cancelled => c.Holds none .cancelled none
  | .exception e => c.Holds none .failed (some e)

/-- What `get` returns or throws. -/
def Outcome.result : Outcome V E → Result V E
  | .value v => .value v
  | .cancelled => .taskCancelled
  | .exception e => .rethrown (some e)

/-- The cell of a task that runs, or has not been started. -/
def Blank (s : Task V E) (state : TaskState) : Prop :=
  s.cell.Holds none state none ∧ s.bodyEnd = none

def Unstarted (s : Task V E) : Prop := Blank s .ready ∨ Blank s .cancelled

def Ended (s : Task V E) : Prop := ∃ o, s.bodyEnd = some o ∧ o.Settled s.cell

/-- What the place of the worker says about the cell. -/
def Phase (s : Task V E) : Prop :=
  match s.gate with
  | .waiting => Unstarted s
  | .inBody => Blank s .running
  | .suspended => Blank s .suspended
  | .ended o => s.cell.Holds none .running none ∧ s.bodyEnd = some o
  | .emplaced => ∃ v, s.bodyEnd = some (.value v) ∧ s.cell.Holds (some v) .running none
  | .notifying => ∃ v, s.bodyEnd = some (.value v) ∧ s.cell.Holds (some v) .succeeded none
  | .failing => ∃ e, s.bodyEnd = some (.exception e) ∧ s.cell.Holds none .running (some e)
  | .finished => Ended s ∨ Blank s .cancelled
  | .released => Ended s ∨ Unstarted s

/-- What a caller knows. -/
def PlaceOk (c : ResultCell V E) : Place → Prop
  | .waited .waitFor => True
  | .waited _ => c.state.terminal
  | .loaded state => c.state = state ∧ state.terminal
  | .observed => c.state = .failed ∧ c.observed
  | .idle | .waiting _ | .dropped => True

def ResultOk (c : ResultCell V E) : Result V E → Prop
  | .value v => c.state = .succeeded ∧ c.value = some v
  | .empty => False
  | .rethrown e => c.state = .failed ∧ e.isSome ∧ c.exception = e ∧ c.observed
  | .taskCancelled => c.state = .cancelled
  | .waited | .completed => c.state.terminal
  | .timedOut => True

structure Sound (s : Task V E) : Prop where
  phase : Phase s
  places : ∀ p ∈ s.handles, PlaceOk s.cell p
  results : ∀ r ∈ s.results, ResultOk s.cell r
  observed : s.cell.observed → s.cell.state = .failed ∧
    ((∃ e, Result.rethrown e ∈ s.results) ∨ Place.observed ∈ s.handles)
  alive : s.destroyed = false → s.unobservedFailures = 0
  destroyed : s.destroyed → s.gate = .released ∧ (∀ p ∈ s.handles, p = .dropped) ∧
    s.unobservedFailures =
      if s.cell.state = .failed ∧ s.cell.observed = false ∧ s.metricsOn then 1 else 0

/-- What is over stays as it is. -/
structure Evolves (c c' : ResultCell V E) : Prop where
  state : c.state.terminal → c'.state = c.state
  value : c.state.terminal → c'.value = c.value
  exception : c.state.terminal → c'.exception = c.exception
  observed : c.observed → c'.observed

theorem Evolves.of_not_terminal {c c' : ResultCell V E} (h : c.state.terminal = false)
    (hobserved : c'.observed = c.observed) : Evolves c c' where
  state ht := by simp [h] at ht
  value ht := by simp [h] at ht
  exception ht := by simp [h] at ht
  observed ho := hobserved.trans ho

theorem Evolves.place {c c' : ResultCell V E} (h : Evolves c c') {p : Place}
    (hp : PlaceOk c p) : PlaceOk c' p := by
  cases p with
  | idle | waiting kind | dropped => trivial
  | waited kind =>
    cases kind with
    | waitFor => trivial
    | get | awaitResume | wait =>
      change c'.state.terminal
      rw [h.state hp]
      exact hp
  | loaded state => exact ⟨(h.state (hp.1 ▸ hp.2)).trans hp.1, hp.2⟩
  | observed => exact ⟨(h.state (by rw [hp.1]; rfl)).trans hp.1, h.observed hp.2⟩

theorem Evolves.result {c c' : ResultCell V E} (h : Evolves c c') {r : Result V E}
    (hr : ResultOk c r) : ResultOk c' r := by
  cases r with
  | value v =>
    have ht : c.state.terminal := by rw [hr.1]; rfl
    exact ⟨(h.state ht).trans hr.1, (h.value ht).trans hr.2⟩
  | empty => exact hr
  | rethrown e =>
    have ht : c.state.terminal := by rw [hr.1]; rfl
    exact ⟨(h.state ht).trans hr.1, hr.2.1, (h.exception ht).trans hr.2.2.1, h.observed hr.2.2.2⟩
  | taskCancelled => exact (h.state (by rw [hr]; rfl)).trans hr
  | waited | completed =>
    change c'.state.terminal
    rw [h.state hr]
    exact hr
  | timedOut => trivial

variable {s s' : Task V E}

namespace Sound

theorem live (h : Sound s) (hgate : s.gate ≠ .released) : s.destroyed = false := by
  by_contra hd
  exact hgate (h.destroyed (by simpa using hd)).1

/-- A step of the worker, or a cancellation. -/
theorem work (h : Sound s) {c : ResultCell V E} {gate : Gate V E} {bodyEnd : Option (Outcome V E)}
    (hlive : s.destroyed = false) (hevolves : Evolves s.cell c)
    (hobserved : c.observed = s.cell.observed)
    (hphase : Phase { s with cell := c, gate := gate, bodyEnd := bodyEnd }) :
    Sound { s with cell := c, gate := gate, bodyEnd := bodyEnd } where
  phase := hphase
  places p hp := hevolves.place (h.places p hp)
  results r hr := hevolves.result (h.results r hr)
  observed ho := by
    obtain ⟨hstate, hwho⟩ := h.observed (hobserved.symm.trans ho)
    exact ⟨(hevolves.state (by rw [hstate]; rfl)).trans hstate, hwho⟩
  alive := h.alive
  destroyed hd := absurd hd (by simp [hlive])

/-- A caller comes to another place. -/
theorem setPlace (h : Sound s) {i : Nat} {p p' : Place} (hi : s.handles[i]? = some p)
    (hdropped : p ≠ .dropped) (hobserved : p ≠ .observed) (hp' : PlaceOk s.cell p') :
    Sound (s.setPlace i p') where
  phase := h.phase
  places q hq := by
    rcases List.mem_or_eq_of_mem_set hq with hq | rfl
    · exact h.places q hq
    · exact hp'
  results := h.results
  observed ho := by
    obtain ⟨hstate, hwho | hwho⟩ := h.observed ho
    · exact ⟨hstate, .inl hwho⟩
    · exact ⟨hstate, .inr (Threads.mem_set_of_ne hi hwho hobserved.symm)⟩
  alive := h.alive
  destroyed hd := absurd ((h.destroyed hd).2.1 p (List.mem_of_getElem? hi)) hdropped

/-- A call is over. -/
theorem finish (h : Sound s) {i : Nat} {p : Place} (hi : s.handles[i]? = some p)
    (hdropped : p ≠ .dropped) {r : Result V E} (hr : ResultOk s.cell r)
    (hobserved : p = .observed → ∃ e, r = .rethrown e) : Sound (s.finish i r) where
  phase := h.phase
  places q hq := by
    rcases List.mem_or_eq_of_mem_set hq with hq | rfl
    · exact h.places q hq
    · trivial
  results q hq := by
    rcases List.mem_append.mp hq with hq | hq
    · exact h.results q hq
    · obtain rfl := List.mem_singleton.mp hq
      exact hr
  observed ho := by
    obtain ⟨hstate, ⟨e, he⟩ | hwho⟩ := h.observed ho
    · exact ⟨hstate, .inl ⟨e, List.mem_append_left _ he⟩⟩
    · by_cases hp : p = .observed
      · obtain ⟨e, rfl⟩ := hobserved hp
        exact ⟨hstate, .inl ⟨e, List.mem_append_right _ (List.mem_singleton_self _)⟩⟩
      · exact ⟨hstate, .inr (Threads.mem_set_of_ne hi hwho (Ne.symm hp))⟩
  alive := h.alive
  destroyed hd := absurd ((h.destroyed hd).2.1 p (List.mem_of_getElem? hi)) hdropped

/-- The cell of a task that is over is that of its end. -/
theorem ended_of_terminal (h : Sound s) (ht : s.cell.state.terminal) :
    Ended s ∨ Blank s .cancelled := by
  have hphase := h.phase
  have hrunning : ∀ {value exception state}, s.cell.Holds value state exception →
      state.terminal = false → False := by
    intro value exception state hc hstate
    rw [hc.2.1, hstate] at ht
    cases ht
  unfold Phase at hphase
  split at hphase
  case h_1 => exact hphase.elim (fun hb => (hrunning hb.1 rfl).elim) .inr
  case h_2 => exact (hrunning hphase.1 rfl).elim
  case h_3 => exact (hrunning hphase.1 rfl).elim
  case h_4 => exact (hrunning hphase.1 rfl).elim
  case h_5 =>
    obtain ⟨v, -, hc⟩ := hphase
    exact (hrunning hc rfl).elim
  case h_6 =>
    obtain ⟨v, hend, hc⟩ := hphase
    exact .inl ⟨.value v, hend, hc⟩
  case h_7 =>
    obtain ⟨e, -, hc⟩ := hphase
    exact (hrunning hc rfl).elim
  case h_8 => exact hphase
  case h_9 => exact hphase.imp_right fun hu => hu.elim (fun hb => (hrunning hb.1 rfl).elim) id

/-- What `get` finds when it has loaded a terminal state. -/
theorem get_result (h : Sound s) (ht : s.cell.state.terminal) :
    (s.cell.state = .succeeded ∧ ∃ v, s.bodyEnd = some (.value v) ∧ s.cell.value = some v) ∨
      (s.cell.state = .failed ∧ ∃ e, s.bodyEnd = some (.exception e) ∧
        s.cell.exception = some e) ∨
      (s.cell.state = .cancelled ∧ (s.bodyEnd = some .cancelled ∨ s.bodyEnd = none)) := by
  obtain ⟨o, hend, hcell⟩ | ⟨hcell, hend⟩ := h.ended_of_terminal ht
  · cases o with
    | value v => exact .inl ⟨hcell.2.1, v, hend, hcell.1⟩
    | cancelled => exact .inr (.inr ⟨hcell.2.1, .inl hend⟩)
    | exception e => exact .inr (.inl ⟨hcell.2.1, e, hend, hcell.2.2⟩)
  · exact .inr (.inr ⟨hcell.2.1, .inr hend⟩)

/-- `get` marks the failure it has seen as observed. -/
theorem observe (h : Sound s) {i : Nat} {p : Place} (hi : s.handles[i]? = some p)
    (hdropped : p ≠ .dropped) (hstate : s.cell.state = .failed) :
    Sound ({ s with cell := { s.cell with observed := true } }.setPlace i .observed) := by
  have hevolves : Evolves s.cell { s.cell with observed := true } :=
    ⟨fun _ => rfl, fun _ => rfl, fun _ => rfl, fun _ => rfl⟩
  refine ⟨h.phase, fun q hq => ?_, fun r hr => hevolves.result (h.results r hr), fun _ => ?_,
    h.alive, fun hd => absurd ((h.destroyed hd).2.1 p (List.mem_of_getElem? hi)) hdropped⟩
  · rcases List.mem_or_eq_of_mem_set hq with hq | rfl
    · exact hevolves.place (h.places q hq)
    · exact ⟨hstate, rfl⟩
  · exact ⟨hstate, .inr (Threads.mem_set_self hi _)⟩

theorem stepCall (h : Sound s) {i : Nat} {p : Place} (hi : s.handles[i]? = some p)
    (hs : s.stepCall i p = some s') : Sound s' := by
  have hp := h.places p (List.mem_of_getElem? hi)
  unfold Task.stepCall at hs
  split at hs
  case h_1 kind =>
    split at hs
    case isTrue hterminal =>
      cases hs
      refine h.setPlace hi (by simp) (by simp) ?_
      cases kind with
      | waitFor => trivial
      | get | awaitResume | wait => exact hterminal
    case isFalse => cases hs
  case h_2 | h_3 =>
    cases hs
    exact h.setPlace hi (by simp) (by simp) ⟨rfl, hp⟩
  case h_4 =>
    cases hs
    exact h.finish hi (by simp) hp (by simp)
  case h_5 =>
    cases hs
    refine h.finish hi (by simp) ?_ (by simp)
    split
    · assumption
    · trivial
  case h_6 =>
    cases hs
    exact h.observe hi (by simp) hp.1
  case h_7 =>
    cases hs
    exact h.finish hi (by simp) hp.1 (by simp)
  case h_8 state hfailed hcancelled =>
    -- neither failed nor cancelled, so the value is there
    cases hs
    refine h.finish hi (by simp) ?_ (by simp)
    have hne : s.cell.state ≠ .failed ∧ s.cell.state ≠ .cancelled := by
      rw [hp.1]
      exact ⟨fun heq => hfailed heq, fun heq => hcancelled heq⟩
    obtain ⟨hstate, v, -, hvalue⟩ | ⟨hstate, -⟩ | ⟨hstate, -⟩ := h.get_result (hp.1 ▸ hp.2)
    · rw [hvalue]
      exact ⟨hstate, hvalue⟩
    · exact absurd hstate hne.1
    · exact absurd hstate hne.2
  case h_9 =>
    split at hs
    · cases hs
    · cases hs
      obtain ⟨hstate, hobserved⟩ := hp
      refine h.finish hi (by simp) ⟨hstate, ?_, rfl, hobserved⟩ fun _ => ⟨_, rfl⟩
      obtain ⟨hother, -⟩ | ⟨-, e, -, he⟩ | ⟨hother, -⟩ := h.get_result (by rw [hstate]; rfl)
      · simp [hstate] at hother
      · rw [he]
        rfl
      · simp [hstate] at hother
  case h_10 => cases hs
  case h_11 => cases hs

theorem workerStep (h : Sound s) (label : Label V E) (hok : s.NoThrow label)
    (hs : s.workerStep label = some s') : Sound s' := by
  have hphase := h.phase
  unfold Phase at hphase
  have hlive : ∀ {g}, s.gate = g → g ≠ .released → s.destroyed = false :=
    fun hg hne => h.live (hg ▸ hne)
  -- a task that is not over can be written to
  have hopen : ∀ {c : ResultCell V E} {value exception state}, s.cell.Holds value state exception →
      state.terminal = false → c.observed = s.cell.observed → Evolves s.cell c :=
    fun hc hstate => Evolves.of_not_terminal (hc.2.1 ▸ hstate)
  have hsame : Evolves s.cell s.cell := ⟨fun _ => rfl, fun _ => rfl, fun _ => rfl, id⟩
  cases label with
  | tryStart =>
    cases hgate : s.gate with
    | waiting =>
      simp only [hgate] at hphase
      simp only [Task.workerStep, hgate] at hs
      split at hs
      case isTrue hready =>
        cases hs
        obtain ⟨hblank, hend⟩ | ⟨hblank, -⟩ := hphase
        · exact h.work (hlive hgate (by simp)) (hopen hblank rfl rfl) rfl
            ⟨⟨hblank.1, rfl, hblank.2.2⟩, hend⟩
        · rw [hblank.2.1] at hready
          cases hready
      case isFalse hready =>
        cases hs
        refine h.work (hlive hgate (by simp)) hsame rfl (.inr ?_)
        exact hphase.resolve_left fun hb => hready hb.1.2.1
    | _ => simp [Task.workerStep, hgate] at hs
  | suspend =>
    cases hgate : s.gate with
    | inBody =>
      simp only [hgate] at hphase
      simp only [Task.workerStep, hgate] at hs
      cases hs
      obtain ⟨hblank, hend⟩ := hphase
      exact h.work (hlive hgate (by simp)) (hopen hblank rfl rfl) rfl
        ⟨⟨hblank.1, rfl, hblank.2.2⟩, hend⟩
    | _ => simp [Task.workerStep, hgate] at hs
  | resume =>
    cases hgate : s.gate with
    | suspended =>
      simp only [hgate] at hphase
      simp only [Task.workerStep, hgate] at hs
      cases hs
      obtain ⟨hblank, hend⟩ := hphase
      exact h.work (hlive hgate (by simp)) (hopen hblank rfl rfl) rfl
        ⟨⟨hblank.1, rfl, hblank.2.2⟩, hend⟩
    | _ => simp [Task.workerStep, hgate] at hs
  | bodyEnds o =>
    cases hgate : s.gate with
    | inBody =>
      simp only [hgate] at hphase
      simp only [Task.workerStep, hgate] at hs
      cases hs
      exact h.work (hlive hgate (by simp)) hsame rfl ⟨hphase.1, rfl⟩
    | _ => simp [Task.workerStep, hgate] at hs
  | emplace throws =>
    cases hgate : s.gate with
    | ended o =>
      simp only [hgate] at hphase
      obtain ⟨hblank, hend⟩ := hphase
      cases o with
      | value v =>
        cases throws with
        | none =>
          simp only [Task.workerStep, hgate] at hs
          cases hs
          exact h.work (hlive hgate (by simp)) (hopen hblank rfl rfl) rfl
            ⟨v, hend, rfl, hblank.2⟩
        | some e =>
          simp only [Task.workerStep, hgate] at hs
          cases hs
          exact h.work (hlive hgate (by simp)) hsame rfl ⟨hblank, rfl⟩
      | cancelled | exception e => simp [Task.workerStep, hgate] at hs
    | _ => simp [Task.workerStep, hgate] at hs
  | storeException =>
    cases hgate : s.gate with
    | ended o =>
      simp only [hgate] at hphase
      obtain ⟨hblank, hend⟩ := hphase
      cases o with
      | exception e =>
        simp only [Task.workerStep, hgate] at hs
        cases hs
        exact h.work (hlive hgate (by simp)) (hopen hblank rfl rfl) rfl
          ⟨e, hend, hblank.1, hblank.2.1, rfl⟩
      | value v | cancelled => simp [Task.workerStep, hgate] at hs
    | _ => simp [Task.workerStep, hgate] at hs
  | complete =>
    cases hgate : s.gate with
    | emplaced =>
      simp only [hgate] at hphase
      simp only [Task.workerStep, hgate] at hs
      cases hs
      obtain ⟨v, hend, hvalue⟩ := hphase
      exact h.work (hlive hgate (by simp)) (hopen hvalue rfl rfl) rfl
        ⟨v, hend, hvalue.1, rfl, hvalue.2.2⟩
    | failing =>
      simp only [hgate] at hphase
      simp only [Task.workerStep, hgate] at hs
      cases hs
      obtain ⟨e, hend, hexception⟩ := hphase
      exact h.work (hlive hgate (by simp)) (hopen hexception rfl rfl) rfl
        (.inl ⟨.exception e, hend, hexception.1, rfl, hexception.2.2⟩)
    | ended o =>
      simp only [hgate] at hphase
      obtain ⟨hblank, hend⟩ := hphase
      cases o with
      | cancelled =>
        simp only [Task.workerStep, hgate] at hs
        cases hs
        exact h.work (hlive hgate (by simp)) (hopen hblank rfl rfl) rfl
          (.inl ⟨.cancelled, hend, hblank.1, rfl, hblank.2.2⟩)
      | value v | exception e => simp [Task.workerStep, hgate] at hs
    | _ => simp [Task.workerStep, hgate] at hs
  | callbacksReturn =>
    cases hgate : s.gate with
    | notifying =>
      simp only [hgate] at hphase
      simp only [Task.workerStep, hgate] at hs
      cases hs
      obtain ⟨v, hend, hvalue⟩ := hphase
      exact h.work (hlive hgate (by simp)) hsame rfl (.inl ⟨.value v, hend, hvalue⟩)
    | _ => simp [Task.workerStep, hgate] at hs
  | callbackThrows e => exact hok.elim
  | release =>
    cases hgate : s.gate with
    | finished =>
      simp only [hgate] at hphase
      simp only [Task.workerStep, hgate] at hs
      cases hs
      exact h.work (hlive hgate (by simp)) hsame rfl (hphase.imp_right .inr)
    | waiting =>
      simp only [hgate] at hphase
      simp only [Task.workerStep, hgate] at hs
      cases hs
      exact h.work (hlive hgate (by simp)) hsame rfl (.inr hphase)
    | _ => simp [Task.workerStep, hgate] at hs
  | requestCancel | copy i | drop i | call i kind | step i | timeout i | refuse i | runtimeGone
  | destroy =>
    cases hs

/-- `request_cancel` of a task that has not been started. -/
theorem cancel (h : Sound s) (hlive : s.destroyed = false) (hready : s.cell.state = .ready) :
    Sound { s with cell := { s.cell with state := .cancelled } } := by
  have hphase := h.phase
  unfold Phase at hphase
  have hevolves : Evolves s.cell { s.cell with state := .cancelled } :=
    .of_not_terminal (by rw [hready]; rfl) rfl
  have hrunning : ∀ {value exception state}, s.cell.Holds value state exception →
      state ≠ .ready → False := fun hc hne => hne (hc.2.1.symm.trans hready)
  have hcancelled :
      Unstarted s → Unstarted { s with cell := { s.cell with state := .cancelled } } := by
    rintro (⟨hblank, hend⟩ | ⟨hblank, -⟩)
    · exact .inr ⟨⟨hblank.1, rfl, hblank.2.2⟩, hend⟩
    · exact (hrunning hblank (by simp)).elim
  refine h.work hlive hevolves rfl ?_
  unfold Phase
  split at hphase <;> rename_i hgate <;> simp only [hgate]
  case h_1 => exact hcancelled hphase
  case h_2 => exact (hrunning hphase.1 (by simp)).elim
  case h_3 => exact (hrunning hphase.1 (by simp)).elim
  case h_4 => exact (hrunning hphase.1 (by simp)).elim
  case h_5 =>
    obtain ⟨v, -, hc⟩ := hphase
    exact (hrunning hc (by simp)).elim
  case h_6 =>
    obtain ⟨v, -, hc⟩ := hphase
    exact (hrunning hc (by simp)).elim
  case h_7 =>
    obtain ⟨e, -, hc⟩ := hphase
    exact (hrunning hc (by simp)).elim
  case h_8 =>
    obtain ⟨o, -, hc⟩ | ⟨hc, -⟩ := hphase
    · cases o <;> exact (hrunning hc (by simp)).elim
    · exact (hrunning hc (by simp)).elim
  case h_9 =>
    obtain ⟨o, -, hc⟩ | hunstarted := hphase
    · cases o <;> exact (hrunning hc (by simp)).elim
    · exact .inr (hcancelled hunstarted)

theorem next (h : Sound s) {label : Label V E} (hok : s.NoThrow label)
    (hs : s.next label = some s') : Sound s' := by
  cases label with
  | requestCancel =>
    simp only [Task.next] at hs
    split at hs
    · cases hs
    · rename_i hfree
      split at hs
      · cases hs
        -- only a task that has not started is cancelled here
        exact h.cancel (by simpa using fun hd => hfree (.inl hd)) ‹_›
      · cases hs
        exact h
  | copy i =>
    simp only [Task.next] at hs
    split at hs
    · cases hs
    · cases hs
    · rename_i p hp hi
      cases hs
      -- a copy is one more place, idle and alive
      refine ⟨h.phase, fun q hq => ?_, h.results, fun ho => ?_, h.alive, fun hd => ?_⟩
      · rcases List.mem_append.mp hq with hq | hq
        · exact h.places q hq
        · obtain rfl := List.mem_singleton.mp hq
          trivial
      · exact (h.observed ho).imp_right (.imp_right (List.mem_append_left _))
      · exact absurd ((h.destroyed hd).2.1 p (List.mem_of_getElem? hi)) (by simpa using hp)
  | drop i =>
    simp only [Task.next] at hs
    split at hs
    · cases hs
      exact h.setPlace ‹_› (by simp) (by simp) trivial
    · cases hs
  | call i kind =>
    simp only [Task.next] at hs
    split at hs
    · cases hs
      exact h.setPlace ‹_› (by simp) (by simp) trivial
    · cases hs
  | step i =>
    obtain ⟨p, hi, hs⟩ := Option.bind_eq_some_iff.mp hs
    exact h.stepCall hi hs
  | timeout i =>
    simp only [Task.next] at hs
    split at hs
    · cases hs
      exact h.setPlace ‹_› (by simp) (by simp) trivial
    · cases hs
  | refuse i =>
    simp only [Task.next] at hs
    split at hs
    · cases hs
      exact h.setPlace ‹_› (by simp) (by simp) trivial
    · cases hs
  | runtimeGone =>
    simp only [Task.next] at hs
    split at hs
    · cases hs
    · rename_i hlive
      cases hs
      exact ⟨h.phase, h.places, h.results, h.observed, h.alive, fun hd => absurd hd hlive⟩
  | destroy =>
    simp only [Task.next] at hs
    split at hs
    · rename_i hlast
      cases hs
      -- the invoker is gone and every handle dropped
      obtain ⟨hlive, hgate, hdropped⟩ := hlast
      refine ⟨h.phase, h.places, h.results, h.observed, nofun, fun _ => ⟨?_, hdropped, ?_⟩⟩
      · unfold Gate.gone at hgate
        split at hgate
        · assumption
        · cases hgate
      · simp only [h.alive hlive, Nat.zero_add]
    · cases hs
  | tryStart => exact h.workerStep .tryStart hok hs
  | suspend => exact h.workerStep .suspend hok hs
  | resume => exact h.workerStep .resume hok hs
  | bodyEnds o => exact h.workerStep (.bodyEnds o) hok hs
  | emplace throws => exact h.workerStep (.emplace throws) hok hs
  | storeException => exact h.workerStep .storeException hok hs
  | complete => exact h.workerStep .complete hok hs
  | callbacksReturn => exact h.workerStep .callbacksReturn hok hs
  -- excluded by the condition: gets may have returned the value already
  | callbackThrows e => exact hok.elim
  | release => exact h.workerStep .release hok hs

end Sound

theorem sound_of_reachable (h : Task.machine.ReachableUnder Task.NoThrow s) : Sound s := by
  refine h.invariant Sound ?_ fun s a s' hs hok hn => hs.next hok hn
  rintro _ ⟨metricsOn, rfl⟩
  refine ⟨.inl ⟨⟨rfl, rfl, rfl⟩, rfl⟩, fun p hp => ?_, nofun, nofun, fun _ => rfl, nofun⟩
  obtain rfl := List.mem_singleton.mp hp
  trivial

/-- When the task is over, only the mark of an observed failure is still written. -/
theorem Sound.next_terminal (h : Sound s) (ht : s.cell.state.terminal) {label : Label V E}
    (hok : s.NoThrow label) (hs : s.next label = some s') :
    s'.cell.Holds s.cell.value s.cell.state s.cell.exception ∧ s'.bodyEnd = s.bodyEnd := by
  have hgate : s.gate = .waiting ∨ s.gate = .notifying ∨ s.gate = .finished ∨
      s.gate = .released := by
    have hphase := h.phase
    unfold Phase at hphase
    have hrunning : ∀ {value exception state}, s.cell.Holds value state exception →
        state.terminal = false → False := by
      intro value exception state hc hstate
      rw [hc.2.1, hstate] at ht
      cases ht
    split at hphase
    case h_1 => exact .inl ‹_›
    case h_2 => exact (hrunning hphase.1 rfl).elim
    case h_3 => exact (hrunning hphase.1 rfl).elim
    case h_4 => exact (hrunning hphase.1 rfl).elim
    case h_5 =>
      obtain ⟨v, -, hc⟩ := hphase
      exact (hrunning hc rfl).elim
    case h_6 => exact .inr (.inl ‹_›)
    case h_7 =>
      obtain ⟨e, -, hc⟩ := hphase
      exact (hrunning hc rfl).elim
    case h_8 => exact .inr (.inr (.inl ‹_›))
    case h_9 => exact .inr (.inr (.inr ‹_›))
  have hready : s.cell.state ≠ .ready := by
    intro hready
    rw [hready] at ht
    cases ht
  cases label with
  | step i =>
    obtain ⟨p, -, hs⟩ := Option.bind_eq_some_iff.mp hs
    unfold Task.stepCall at hs
    split at hs <;> try split at hs
    all_goals
      first
      | cases hs
        done
      | cases hs
        exact ⟨⟨rfl, rfl, rfl⟩, rfl⟩
  | requestCancel =>
    simp only [Task.next, if_neg hready] at hs
    split at hs
    · cases hs
    · cases hs
      exact ⟨⟨rfl, rfl, rfl⟩, rfl⟩
  | callbackThrows e => exact hok.elim
  | copy i | drop i | call i kind | timeout i | refuse i | runtimeGone | destroy =>
    simp only [Task.next] at hs
    split at hs
    all_goals
      first
      | cases hs
        done
      | cases hs
        exact ⟨⟨rfl, rfl, rfl⟩, rfl⟩
  | tryStart | suspend | resume | bodyEnds o | emplace throws | storeException | complete
  | callbacksReturn | release =>
    simp only [Task.next, Task.workerStep, if_neg hready] at hs
    rcases hgate with hgate | hgate | hgate | hgate <;> simp only [hgate] at hs
    all_goals
      first
      | cases hs
        done
      | cases hs
        exact ⟨⟨rfl, rfl, rfl⟩, rfl⟩

/-- Returned or thrown by `get`. -/
def Result.isGet : Result V E → Bool
  | .value _ | .empty | .rethrown _ | .taskCancelled => true
  | .waited | .completed | .timedOut => false

/-- The call is past `perform_caller_wait`. -/
def Place.afterWait : Place → Bool
  | .waited _ | .loaded _ | .observed => true
  | .idle | .waiting _ | .dropped => false

/-- What the end of the body makes `get` return; a task that was never started is cancelled. -/
def Task.outcome (s : Task V E) : Result V E :=
  match s.bodyEnd with
  | some o => o.result
  | none => .taskCancelled

/-- What `get` returns agrees with how the body has ended. -/
theorem Sound.get_eq (h : Sound s) {r : Result V E} (hr : r ∈ s.results) (hget : r.isGet) :
    s.cell.state.terminal ∧ r = s.outcome := by
  unfold Task.outcome
  have hok := h.results r hr
  cases r with
  | value v =>
    have ht : s.cell.state.terminal := by rw [hok.1]; rfl
    refine ⟨ht, ?_⟩
    obtain ⟨-, w, hend, hw⟩ | ⟨hother, -⟩ | ⟨hother, -⟩ := h.get_result ht
    · rw [hend, Option.some.inj (hok.2.symm.trans hw)]
      rfl
    · simp [hok.1] at hother
    · simp [hok.1] at hother
  | empty => exact hok.elim
  | rethrown e =>
    have ht : s.cell.state.terminal := by rw [hok.1]; rfl
    refine ⟨ht, ?_⟩
    obtain ⟨hother, -⟩ | ⟨-, x, hend, hx⟩ | ⟨hother, -⟩ := h.get_result ht
    · simp [hok.1] at hother
    · rw [hend, ← hok.2.2.1, hx]
      rfl
    · simp [hok.1] at hother
  | taskCancelled =>
    have hstate : s.cell.state = .cancelled := hok
    have ht : s.cell.state.terminal := by rw [hstate]; rfl
    refine ⟨ht, ?_⟩
    obtain ⟨hother, -⟩ | ⟨hother, -⟩ | ⟨-, hend | hend⟩ := h.get_result ht
    · simp [hstate] at hother
    · simp [hstate] at hother
    · rw [hend]
      rfl
    · rw [hend]
  | waited | completed | timedOut => cases hget

/-- A completion callback that throws makes a failed task of one that has succeeded, whatever
the copies of its handle have returned meanwhile. -/
theorem callbackThrows_fails (hgate : s.gate = .notifying) (e : E) :
    ∃ s', Task.machine.run s [.callbackThrows e, .storeException, .complete] = some s' ∧
      s'.cell.state = .failed ∧ s'.cell.exception = some e ∧ s'.results = s.results := by
  refine ⟨{ s with
    cell := { s.cell with state := .failed, exception := some e }, gate := .finished }, ?_,
    rfl, rfl, rfl⟩
  simp [Machine.run, Task.machine, Task.next, Task.workerStep, hgate]

/-- **Every `get` tells how the body has ended** if no completion callback throws, on whichever
copy of the handle and however it races with the worker: it returns the stored value, rethrows
the stored exception, or throws `task_cancelled` if the body did or was never started; it never
looks at an empty value or a null exception.  What is over stays as it is, so that references
handed out stay valid while a copy is left, and no call gets stuck behind a completed wait. -/
theorem results_agree (h : Task.machine.ReachableUnder Task.NoThrow s) :
    (∀ r ∈ s.results, r.isGet → s.cell.state.terminal ∧ r = s.outcome) ∧
    (.waited ∈ s.results ∨ .completed ∈ s.results → s.cell.state.terminal) ∧
    (s.cell.state.terminal → ∀ labels s', Task.machine.EveryStep Task.NoThrow s labels →
      Task.machine.run s labels = some s' →
      s'.cell.Holds s.cell.value s.cell.state s.cell.exception ∧ s'.bodyEnd = s.bodyEnd) ∧
    (∀ p ∈ s.handles, p ≠ .dropped → s.destroyed = false) ∧
    ∀ i p, s.handles[i]? = some p → p.afterWait → (s.stepCall i p).isSome := by
  have hs := sound_of_reachable h
  refine ⟨fun r hr hget => hs.get_eq hr hget, ?_, fun ht labels s' hok hr => ?_, fun p hp hne => ?_,
    fun i p hi hafter => ?_⟩
  · rintro (hr | hr)
    · exact hs.results _ hr
    · exact hs.results _ hr
  · have hkeep := hok.keeps
      (P := fun t => Sound t ∧ t.cell.Holds s.cell.value s.cell.state s.cell.exception ∧
        t.bodyEnd = s.bodyEnd) ?_ ⟨hs, ⟨rfl, rfl, rfl⟩, rfl⟩ hr
    · exact hkeep.2
    · rintro t a t' ⟨hsound, ⟨hvalue, hstate, hexception⟩, hend⟩ hok hn
      obtain ⟨⟨hvalue', hstate', hexception'⟩, hend'⟩ :=
        hsound.next_terminal (by rwa [hstate]) hok hn
      exact ⟨hsound.next hok hn, ⟨hvalue'.trans hvalue, hstate'.trans hstate,
        hexception'.trans hexception⟩, hend'.trans hend⟩
  · by_contra hd
    exact hne ((hs.destroyed (by simpa using hd)).2.1 p hp)
  · have hp := hs.places p (List.mem_of_getElem? hi)
    cases p with
    | idle | waiting kind | dropped => cases hafter
    | waited kind => cases kind <;> rfl
    | loaded state => cases state <;> rfl
    | observed =>
      -- the task has failed, so the worker has left the critical section
      have hlocked : s.gate.locked = false := by
        unfold Gate.locked
        split
        case h_1 hgate =>
          have hphase := hs.phase
          simp only [Phase, hgate] at hphase
          obtain ⟨e, -, hc⟩ := hphase
          exact absurd (hp.1.symm.trans hc.2.1) (by simp)
        case h_2 => rfl
      simp [Task.stepCall, hlocked]

/-- **A failure nobody has looked at is counted once**, when the last reference goes, and only
then, if the runtime still counts; one that some `get` has rethrown is not. -/
theorem unobserved_failure_counted (h : Task.machine.ReachableUnder Task.NoThrow s) :
    (s.destroyed = false → s.unobservedFailures = 0) ∧
    (s.destroyed → s.unobservedFailures ≤ 1 ∧ (s.unobservedFailures = 1 ↔
      (∃ e, s.bodyEnd = some (.exception e)) ∧ (∀ e, .rethrown e ∉ s.results) ∧
        s.metricsOn)) := by
  have hs := sound_of_reachable h
  refine ⟨hs.alive, fun hd => ?_⟩
  obtain ⟨hgate, hdropped, hcount⟩ := hs.destroyed hd
  rw [hcount]
  have hphase := hs.phase
  simp only [Phase, hgate] at hphase
  have hfailed : s.cell.state = .failed ↔ ∃ e, s.bodyEnd = some (.exception e) := by
    obtain ⟨o, hend, hc⟩ | hunstarted := hphase
    · rw [hend]
      cases o <;> simp [hc.2.1]
    · obtain ⟨hc, hend⟩ | ⟨hc, hend⟩ := hunstarted <;> simp [hc.2.1, hend]
  have hobserved : s.cell.observed = false ↔ ∀ e, Result.rethrown e ∉ s.results := by
    constructor
    · intro hfalse e he
      have hok := hs.results _ he
      rw [hok.2.2.2] at hfalse
      cases hfalse
    · intro hnone
      by_contra htrue
      obtain ⟨-, ⟨e, he⟩ | hwho⟩ := hs.observed (by simpa using htrue)
      · exact hnone e he
      · exact absurd (hdropped _ hwho) (by simp)
  rw [← hfailed, ← hobserved]
  by_cases hboth : s.cell.state = .failed ∧ s.cell.observed = false ∧ s.metricsOn
  · rw [if_pos hboth]
    exact ⟨le_refl 1, iff_of_true rfl hboth⟩
  · rw [if_neg hboth]
    exact ⟨Nat.zero_le 1, iff_of_false (by simp) hboth⟩

/-- Two copies look at the failure of a body, one of them while the state is being written; a
third copy only waits. -/
def failureSeenTwice : List (Label Nat Nat) :=
  [.copy 0, .copy 0, .call 0 .get, .tryStart, .call 1 .get, .call 2 .waitFor, .bodyEnds (.value 7),
    .emplace (some 3), .timeout 2, .step 2, .storeException, .complete, .step 0, .step 1, .step 0,
    .requestCancel, .step 0, .step 1, .step 0, .step 1, .step 1, .release]

theorem results_agree_failureSeenTwice :
    ∃ s, Task.machine.run ({} : Task Nat Nat) failureSeenTwice = some s ∧
      s.results = [.timedOut, .rethrown (some 3), .rethrown (some 3)] ∧
      ∀ r ∈ s.results, r.isGet → s.cell.state.terminal ∧ r = s.outcome := by
  obtain ⟨s, hs⟩ := Option.isSome_iff_exists.mp
    (show (Task.machine.run ({} : Task Nat Nat) failureSeenTwice).isSome by decide)
  have hend : (Task.machine.run ({} : Task Nat Nat) failureSeenTwice).map (·.results) =
      some [.timedOut, .rethrown (some 3), .rethrown (some 3)] := by decide
  rw [hs] at hend
  have hnew : Task.machine.ReachableUnder Task.NoThrow ({} : Task Nat Nat) := .initial ⟨true, rfl⟩
  exact ⟨s, hs, Option.some.inj hend, (results_agree (hnew.run (by decide) hs)).1⟩

/-- A failure that is only waited for. -/
def failureUnseen : List (Label Nat Nat) :=
  [.call 0 .wait, .tryStart, .suspend, .resume, .bodyEnds (.exception 3), .storeException, .complete,
    .step 0, .step 0, .drop 0, .release, .destroy]

theorem unobserved_failure_counted_failureUnseen :
    ∃ s, Task.machine.run ({} : Task Nat Nat) failureUnseen = some s ∧ s.destroyed ∧
      s.unobservedFailures ≤ 1 ∧ (s.unobservedFailures = 1 ↔
        (∃ e, s.bodyEnd = some (.exception e)) ∧ (∀ e, .rethrown e ∉ s.results) ∧
          s.metricsOn) := by
  obtain ⟨s, hs⟩ := Option.isSome_iff_exists.mp
    (show (Task.machine.run ({} : Task Nat Nat) failureUnseen).isSome by decide)
  have hend : (Task.machine.run ({} : Task Nat Nat) failureUnseen).map (·.destroyed) =
      some true := by decide
  rw [hs] at hend
  have hdestroyed : s.destroyed = true := Option.some.inj hend
  have hnew : Task.machine.ReachableUnder Task.NoThrow ({} : Task Nat Nat) := .initial ⟨true, rfl⟩
  exact ⟨s, hs, hdestroyed, (unobserved_failure_counted (hnew.run (by decide) hs)).2 hdestroyed⟩

end TaskResults
end AstraScheduler
