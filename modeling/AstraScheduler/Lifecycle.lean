import AstraScheduler.Status
import AstraScheduler.Transition

/-! # The lifecycle word

`packed_status` holds the state and the shutdown mode of a runtime in one atomic
word.  Three pieces of code write it: the constructor stores Running once its
workers have reached the startup barrier, `request_shutdown_mode` moves it with a
compare-exchange loop, and the leader of the shutdown stores Stopped with the mode
it has read.  Requests come from users, from a worker that drops the last handle
(orphan handoff), and from the callbacks of the process-wide registry, which knows
the runtime before its constructor has published Running.

The word only moves forward as long as both plain stores find it as they left it. -/

namespace AstraScheduler
namespace Lifecycle

open Transition (Machine)

/-- How far the constructor has come, counted from its registration.  It holds
`lifecycle_mutex` between its last look at the registry and the store of Running; a
constructor that finds the registry closed throws, and the runtime is never built. -/
inductive CtorPhase where
  | starting
  | checkedOpen
  | published
  deriving DecidableEq, Repr

/-- Who calls `request_shutdown_mode`. -/
inductive RequestKind where
  /-- `shutdown`, `shutdown_now` or the destructor, through `shutdown_sync`. -/
  | user (immediate : Bool)
  /-- A finalization callback stored in the registry. -/
  | callback (immediate : Bool)
  /-- `execute_worker_orphan_handoff`, on a worker of the runtime. -/
  | handoff
  deriving DecidableEq, Repr

/-- The mode a caller asks for. -/
def RequestKind.mode : RequestKind → ShutdownMode
  | .user immediate | .callback immediate => if immediate then .immediate else .graceful
  | .handoff => .graceful

/-- Where a call is: before it, about to load the word, in the loop with the value it
has loaded, returned from `request_shutdown_mode`, or past `stop_requested = true`. -/
inductive RequestPc where
  | begin
  | entry
  | loop (current : UInt16)
  | returned
  | finished
  deriving DecidableEq, Repr

structure Request where
  kind : RequestKind
  pc : RequestPc := .begin
  deriving DecidableEq, Repr

/-- The leader of the shutdown in `join_workers_and_publish_stopped`. -/
inductive LeaderPc where
  | idle
  | joined
  | loaded (mode : ShutdownMode)
  | stored
  deriving DecidableEq, Repr

/-- A runtime from its registration on.  `past` keeps every value the word has held
before `packed`, latest first. -/
structure Runtime where
  packed : UInt16 := pack .running .none
  past : List UInt16 := []
  registrationOpen : Bool := true
  ctor : CtorPhase := .starting
  stopRequested : Bool := false
  workersExited : Bool := false
  requests : List Request := []
  leader : LeaderPc := .idle
  deriving DecidableEq, Repr

inductive Label where
  /-- The constructor checks the registry under `lifecycle_mutex`. -/
  | ctorCheck
  /-- The constructor stores Running and releases the mutex. -/
  | ctorPublish
  /-- `close_registration`; the graceful callback is called afterwards. -/
  | closeRegistration
  /-- `request_all_immediate` reaches this runtime. -/
  | requestAllImmediate
  /-- A caller with a handle, or a worker that drops the last one. -/
  | call (kind : RequestKind)
  /-- The next step of request `i`; `spurious` makes a weak exchange fail. -/
  | request (i : Nat) (spurious : Bool)
  /-- The last worker has left its loop. -/
  | workersExit
  /-- The next step of the leader. -/
  | lead
  deriving DecidableEq, Repr

/-- A write of the status word. -/
def Runtime.store (r : Runtime) (value : UInt16) : Runtime :=
  { r with packed := value, past := r.packed :: r.past }

def Runtime.setRequest (r : Runtime) (i : Nat) (q : Request) : Runtime :=
  { r with requests := r.requests.set i q }

/-- `compare_exchange_weak(current, value)`: on success the loop is left, otherwise
`current` is loaded again. -/
def exchange (r : Runtime) (i : Nat) (q : Request) (current value : UInt16) (spurious : Bool) :
    Runtime :=
  if r.packed = current ∧ ¬ spurious then
    (r.store value).setRequest i { q with pc := .returned }
  else
    r.setRequest i { q with pc := .loop r.packed }

/-- One turn of the loop in `request_shutdown_mode`. -/
def requestLoop (r : Runtime) (i : Nat) (q : Request) (current : UInt16) (spurious : Bool) :
    Runtime :=
  match (unpack current).state with
  | .running => exchange r i q current (pack .stopping q.kind.mode) spurious
  | .stopping =>
    if q.kind.mode = .immediate ∧ (unpack current).shutdownMode ≠ .immediate then
      exchange r i q current (pack .stopping .immediate) spurious
    else
      r.setRequest i { q with pc := .returned }
  | .stopped => r.setRequest i { q with pc := .returned }

/-- The code around `request_shutdown_mode`.  `stop_requested` is written under
`lifecycle_mutex`, which the constructor holds while it publishes. -/
def requestStep (r : Runtime) (i : Nat) (q : Request) (spurious : Bool) : Option Runtime :=
  match q.pc, q.kind with
  | .begin, .user _ =>
    if (unpack r.packed).state = .stopped then some (r.setRequest i { q with pc := .finished })
    else some (r.setRequest i { q with pc := .entry })
  | .begin, .callback _ => some (r.setRequest i { q with pc := .entry })
  | .begin, .handoff =>
    some ({ r with stopRequested := true }.setRequest i { q with pc := .entry })
  | .entry, _ => some (r.setRequest i { q with pc := .loop r.packed })
  | .loop current, _ => some (requestLoop r i q current spurious)
  | .returned, .handoff => some (r.setRequest i { q with pc := .finished })
  | .returned, _ =>
    if r.ctor = .checkedOpen then none
    else some ({ r with stopRequested := true }.setRequest i { q with pc := .finished })
  | .finished, _ => none

/-- A handoff runs on a worker, which cannot leave its loop meanwhile. -/
def handoffPending (r : Runtime) : Bool :=
  r.requests.any fun q => q.kind = .handoff ∧ q.pc ≠ .finished

def addRequest (r : Runtime) (kind : RequestKind) : Runtime :=
  { r with requests := r.requests ++ [{ kind := kind }] }

def next (r : Runtime) : Label → Option Runtime
  | .ctorCheck =>
    if r.ctor = .starting ∧ r.registrationOpen then some { r with ctor := .checkedOpen }
    else none
  | .ctorPublish =>
    if r.ctor = .checkedOpen then
      some { r.store (pack .running .none) with ctor := .published }
    else none
  | .closeRegistration =>
    if r.registrationOpen then
      some (addRequest { r with registrationOpen := false } (.callback false))
    else none
  | .requestAllImmediate => some (addRequest r (.callback true))
  | .call kind =>
    match kind with
    | .user _ => if r.ctor = .published then some (addRequest r kind) else none
    | .handoff =>
      if r.ctor = .published ∧ ¬ r.workersExited then some (addRequest r kind) else none
    | .callback _ => none
  | .request i spurious =>
    match r.requests[i]? with
    | none => none
    | some q => requestStep r i q spurious
  | .workersExit =>
    if r.ctor = .published ∧ r.stopRequested ∧ ¬ handoffPending r then
      some { r with workersExited := true }
    else none
  | .lead =>
    match r.leader with
    | .idle => if r.workersExited then some { r with leader := .joined } else none
    | .joined => some { r with leader := .loaded (unpack r.packed).shutdownMode }
    | .loaded mode => some { r.store (pack .stopped mode) with leader := .stored }
    | .stored => none

/-- A runtime that has just been registered by its constructor. -/
def lifecycle : Machine Runtime Label where
  init r := r = {}
  next := next

/-- **The lifecycle word is monotone and legal**: every value it has held is one of
the legal pairs, and each one may follow the one before it. -/
structure MonotoneAndLegal (r : Runtime) : Prop where
  legal : ∀ v ∈ r.packed :: r.past, (unpack v).legal
  monotone : (r.packed :: r.past).Pairwise fun later earlier => (unpack earlier).le (unpack later)

/-- The two plain stores overwrite what their thread believes the word to be: the
constructor's finds Running and None, the leader's finds the mode it has read. -/
def StoresInPlace (r : Runtime) : Label → Prop
  | .ctorPublish => unpack r.packed = ⟨.running, .none⟩
  | .lead => ∀ mode, r.leader = .loaded mode → (unpack r.packed).shutdownMode = mode
  | _ => True

instance (r : Runtime) : (label : Label) → Decidable (StoresInPlace r label)
  | .ctorPublish => inferInstanceAs (Decidable (unpack r.packed = ⟨.running, .none⟩))
  | .lead =>
    match h : r.leader with
    | .loaded mode =>
      decidable_of_iff ((unpack r.packed).shutdownMode = mode) (by simp [StoresInPlace, h])
    | .idle | .joined | .stored => .isTrue (by simp [StoresInPlace, h])
  | .ctorCheck | .closeRegistration | .requestAllImmediate | .call _ | .request _ _
  | .workersExit => inferInstanceAs (Decidable True)

/-! ## The invariant -/

/-- The current status. -/
def Runtime.status (r : Runtime) : SchedulerStatus := unpack r.packed

/-- What the writers rely on: requests that are over have moved the word, the value a
loop holds is an old one, and nobody has joined before the word has left Running. -/
structure Orderly (r : Runtime) : Prop where
  word : MonotoneAndLegal r
  loops : ∀ q ∈ r.requests, ∀ current, q.pc = .loop current →
    (unpack current).state.rank ≤ r.status.state.rank
  ended : ∀ q ∈ r.requests, q.pc = .returned ∨ q.pc = .finished → r.status.state ≠ .running
  requested : r.stopRequested → r.status.state = .running →
    ∃ q ∈ r.requests, q.kind = .handoff ∧ q.pc ≠ .finished
  exited : r.workersExited → r.status.state ≠ .running ∧ r.ctor = .published
  led : r.leader ≠ .idle → r.workersExited
  loaded : ∀ mode, r.leader = .loaded mode →
    mode ≠ .none ∧ mode.rank ≤ r.status.shutdownMode.rank
  stopped : r.status.state = .stopped ↔ r.leader = .stored

variable {r r' : Runtime}

/-- Storing a value that may follow the current one keeps the history in order. -/
theorem monotoneAndLegal_store (h : MonotoneAndLegal r) (value : UInt16)
    (hlegal : (unpack value).legal) (hle : r.status.le (unpack value)) :
    MonotoneAndLegal (r.store value) := by
  refine ⟨fun v hv => ?_, ?_⟩
  · rcases List.mem_cons.mp hv with rfl | hv
    · exact hlegal
    · exact h.legal v hv
  · refine List.pairwise_cons.mpr ⟨fun v hv => ?_, h.monotone⟩
    rcases List.mem_cons.mp hv with rfl | hv
    · exact hle
    · exact SchedulerStatus.le_trans ((List.pairwise_cons.mp h.monotone).1 v hv) hle

/-- One turn of the loop: keep the word and go round again or leave, or move the word
forward.  A stale value makes the exchange fail, whatever the loop decided on it. -/
theorem requestLoop_cases (h : Orderly r) {i : Nat} {q : Request} {current : UInt16}
    (hq : q ∈ r.requests) (hpc : q.pc = .loop current) (spurious : Bool) :
    (requestLoop r i q current spurious = r.setRequest i { q with pc := .loop r.packed }) ∨
    (requestLoop r i q current spurious = r.setRequest i { q with pc := .returned } ∧
      r.status.state ≠ .running) ∨
    (∃ mode, mode ≠ .none ∧ r.status.state ≠ .stopped ∧ r.status.le ⟨.stopping, mode⟩ ∧
      requestLoop r i q current spurious =
        (r.store (pack .stopping mode)).setRequest i { q with pc := .returned }) := by
  have hold : (unpack current).state.rank ≤ r.status.state.rank := h.loops q hq current hpc
  have hleave : (unpack current).state ≠ .running → r.status.state ≠ .running := by
    intro hc hr
    rw [hr] at hold
    cases hs : (unpack current).state <;> simp_all [SchedulerState.rank]
  -- the exchange itself, for a value that may follow the current word
  have hex : ∀ mode, mode ≠ .none → (unpack current).state ≠ .stopped →
      (unpack current).le ⟨.stopping, mode⟩ →
      exchange r i q current (pack .stopping mode) spurious =
          r.setRequest i { q with pc := .loop r.packed } ∨
        (r.status.state ≠ .stopped ∧ r.status.le ⟨.stopping, mode⟩ ∧
          exchange r i q current (pack .stopping mode) spurious =
            (r.store (pack .stopping mode)).setRequest i { q with pc := .returned }) := by
    intro mode _ hne hle
    unfold exchange
    split
    · rename_i hmatch
      have hcur : unpack current = r.status := by rw [← hmatch.1]; rfl
      exact Or.inr ⟨hcur ▸ hne, hcur ▸ hle, rfl⟩
    · exact Or.inl rfl
  have hmode : q.kind.mode ≠ .none := by
    rcases q.kind with immediate | immediate | _
    · cases immediate <;> simp [RequestKind.mode]
    · cases immediate <;> simp [RequestKind.mode]
    · simp [RequestKind.mode]
  unfold requestLoop
  split
  · rename_i hs
    by_cases hfirst : (unpack current).shutdownMode = .none
    · have hle : (unpack current).le ⟨.stopping, q.kind.mode⟩ := by
        rw [SchedulerStatus.le, hs, hfirst]
        exact ⟨Nat.zero_le _, Nat.zero_le _⟩
      rcases hex _ hmode (by simp [hs]) hle with he | ⟨hne, hle, he⟩
      · exact Or.inl he
      · exact Or.inr (Or.inr ⟨_, hmode, hne, hle, he⟩)
    · -- such a word is not legal, so it is not the current one
      refine Or.inl ?_
      unfold exchange
      rw [if_neg]
      rintro ⟨hmatch, _⟩
      have hlegal := h.word.legal r.packed List.mem_cons_self
      rw [hmatch] at hlegal
      have := SchedulerStatus.eq_of_running hlegal hs
      exact hfirst (by rw [this])
  · rename_i hs
    split
    · rename_i hesc
      have hle : (unpack current).le ⟨.stopping, .immediate⟩ := by
        rw [SchedulerStatus.le, hs]
        refine ⟨Nat.le_refl _, ?_⟩
        cases (unpack current).shutdownMode <;> decide
      rcases hex .immediate (by simp) (by simp [hs]) hle with he | ⟨hne, hle, he⟩
      · exact Or.inl he
      · exact Or.inr (Or.inr ⟨_, by simp, hne, hle, he⟩)
    · exact Or.inr (Or.inl ⟨rfl, hleave (by simp [hs])⟩)
  · rename_i hs
    exact Or.inr (Or.inl ⟨rfl, hleave (by simp [hs])⟩)

/-- What a step of a request can do: move on without touching the word, set
`stop_requested`, or succeed with an exchange that moves the word forward. -/
theorem requestStep_cases (h : Orderly r) {i : Nat} {q : Request} {spurious : Bool}
    (hq : q ∈ r.requests) (hn : requestStep r i q spurious = some r') :
    (∃ pc, r' = r.setRequest i { q with pc := pc } ∧
      (∀ current, pc = .loop current → current = r.packed) ∧
      (pc = .returned ∨ pc = .finished → r.status.state ≠ .running)) ∨
    (q.kind = .handoff ∧
      r' = { r with stopRequested := true }.setRequest i { q with pc := .entry }) ∨
    (r.status.state ≠ .running ∧
      r' = { r with stopRequested := true }.setRequest i { q with pc := .finished }) ∨
    (∃ mode, mode ≠ .none ∧ r.status.state ≠ .stopped ∧ r.status.le ⟨.stopping, mode⟩ ∧
      r' = (r.store (pack .stopping mode)).setRequest i { q with pc := .returned }) := by
  unfold requestStep at hn
  split at hn
  · split at hn
    · rename_i hstopped
      obtain rfl := Option.some.inj hn
      refine Or.inl ⟨.finished, rfl, by simp, fun _ hr => ?_⟩
      rw [Runtime.status, hstopped] at hr
      cases hr
    · obtain rfl := Option.some.inj hn
      exact Or.inl ⟨.entry, rfl, by simp, by simp⟩
  · obtain rfl := Option.some.inj hn
    exact Or.inl ⟨.entry, rfl, by simp, by simp⟩
  · rename_i hk
    obtain rfl := Option.some.inj hn
    exact Or.inr (Or.inl ⟨hk, rfl⟩)
  · obtain rfl := Option.some.inj hn
    refine Or.inl ⟨.loop r.packed, rfl, fun current hc => ?_, by simp⟩
    cases hc
    rfl
  · rename_i current hpc
    obtain rfl := Option.some.inj hn
    rcases requestLoop_cases h hq hpc spurious with he | ⟨he, hne⟩ | ⟨mode, hmode, hne, hle, he⟩
    · refine Or.inl ⟨.loop r.packed, he, fun current hc => ?_, by simp⟩
      cases hc
      rfl
    · exact Or.inl ⟨.returned, he, by simp, fun _ => hne⟩
    · exact Or.inr (Or.inr (Or.inr ⟨mode, hmode, hne, hle, he⟩))
  · rename_i hpc _
    obtain rfl := Option.some.inj hn
    exact Or.inl ⟨.finished, rfl, by simp, fun _ => h.ended q hq (Or.inl hpc)⟩
  · rename_i hpc _
    split at hn
    · cases hn
    · obtain rfl := Option.some.inj hn
      exact Or.inr (Or.inr (Or.inl ⟨h.ended q hq (Or.inl hpc), rfl⟩))
  · cases hn

/-- Replacing request `i` keeps what is known of every request, once it is known of
the replacement. -/
theorem forall_setRequest {P : Request → Prop} {i : Nat} {q' : Request}
    (h : ∀ q ∈ r.requests, P q) (hq' : P q') : ∀ q ∈ (r.setRequest i q').requests, P q := by
  intro q hq
  rcases List.mem_or_eq_of_mem_set hq with hmem | rfl
  · exact h q hmem
  · exact hq'

theorem exists_setRequest {P : Request → Prop} {i : Nat} {q q' : Request}
    (hi : r.requests[i]? = some q) (h : ∃ p ∈ r.requests, P p) (hq' : P q → P q') :
    ∃ p ∈ (r.setRequest i q').requests, P p := by
  obtain ⟨p, hp, hP⟩ := h
  obtain ⟨j, hj⟩ := List.getElem?_of_mem hp
  have hlt : i < r.requests.length := (List.getElem?_eq_some_iff.mp hi).1
  by_cases hij : i = j
  · subst hij
    obtain rfl := Option.some.inj (hi.symm.trans hj)
    exact ⟨q', List.mem_set hlt _, hq' hP⟩
  · refine ⟨p, List.mem_of_getElem? (i := j) ?_, hP⟩
    simpa [Runtime.setRequest, List.getElem?_set_ne hij] using hj

/-- A request that moves on without touching the word. -/
theorem orderly_quiet (h : Orderly r) {i : Nat} {q : Request} (hi : r.requests[i]? = some q)
    {pc : RequestPc} (hloop : ∀ current, pc = .loop current → current = r.packed)
    (hover : pc = .returned ∨ pc = .finished → r.status.state ≠ .running) :
    Orderly (r.setRequest i { q with pc := pc }) where
  word := ⟨h.word.legal, h.word.monotone⟩
  loops := forall_setRequest h.loops fun current hc => by
    rw [hloop current hc]
    exact Nat.le_refl _
  ended := forall_setRequest h.ended hover
  requested hstop hrun := by
    refine exists_setRequest hi (h.requested hstop hrun) fun hq => ⟨hq.1, ?_⟩
    intro hfin
    exact hover (Or.inr hfin) hrun
  exited := h.exited
  led := h.led
  loaded := h.loaded
  stopped := h.stopped

/-- A handoff sets `stop_requested` first, on a worker that stays in its loop. -/
theorem orderly_handoff (h : Orderly r) {i : Nat} {q : Request} (hi : r.requests[i]? = some q)
    (hk : q.kind = .handoff) :
    Orderly ({ r with stopRequested := true }.setRequest i { q with pc := .entry }) where
  word := ⟨h.word.legal, h.word.monotone⟩
  loops := forall_setRequest h.loops (by simp)
  ended := forall_setRequest h.ended (by simp)
  requested _ _ := by
    have hlt : i < r.requests.length := (List.getElem?_eq_some_iff.mp hi).1
    exact ⟨{ q with pc := .entry }, List.mem_set hlt _, hk, by simp⟩
  exited := h.exited
  led := h.led
  loaded := h.loaded
  stopped := h.stopped

/-- The other callers set `stop_requested` once the word has left Running. -/
theorem orderly_setStop (h : Orderly r) {i : Nat} {q : Request}
    (hne : r.status.state ≠ .running) :
    Orderly ({ r with stopRequested := true }.setRequest i { q with pc := .finished }) where
  word := ⟨h.word.legal, h.word.monotone⟩
  loops := forall_setRequest h.loops (by simp)
  ended := forall_setRequest h.ended fun _ => hne
  requested _ hrun := absurd hrun hne
  exited := h.exited
  led := h.led
  loaded := h.loaded
  stopped := h.stopped

/-- An exchange that succeeds. -/
theorem orderly_exchange (h : Orderly r) {i : Nat} {q : Request} {mode : ShutdownMode}
    (hmode : mode ≠ .none) (hne : r.status.state ≠ .stopped)
    (hle : r.status.le ⟨.stopping, mode⟩) :
    Orderly ((r.store (pack .stopping mode)).setRequest i { q with pc := .returned }) := by
  have hstatus : ((r.store (pack .stopping mode)).setRequest i { q with pc := .returned }).status =
      ⟨.stopping, mode⟩ := unpack_pack _ _
  have hword := monotoneAndLegal_store h.word (pack .stopping mode)
    (by simp [SchedulerStatus.legal, hmode]) (by simpa using hle)
  refine ⟨⟨hword.legal, hword.monotone⟩, ?_, ?_, ?_, ?_, h.led, ?_, ?_⟩
  · rw [hstatus]
    refine forall_setRequest (fun p hp current hc => ?_) (by simp)
    exact Nat.le_trans (h.loops p hp current hc) hle.1
  · rw [hstatus]
    intro _ _ _ hr
    cases hr
  · rw [hstatus]
    intro _ hr
    cases hr
  · rw [hstatus]
    intro hex
    exact ⟨by simp, (h.exited hex).2⟩
  · rw [hstatus]
    intro m hm
    obtain ⟨hm1, hm2⟩ := h.loaded m hm
    exact ⟨hm1, Nat.le_trans hm2 hle.2⟩
  · rw [hstatus]
    exact iff_of_false (by simp) fun hl => hne (h.stopped.mpr hl)

/-- The constructor stores the value that is already there. -/
theorem orderly_publish (h : Orderly r) (hok : r.status = ⟨.running, .none⟩)
    (hidle : ¬ r.workersExited) :
    Orderly { r.store (pack .running .none) with ctor := .published } := by
  have hstatus : ({ r.store (pack .running .none) with ctor := .published } : Runtime).status =
      r.status := by
    rw [hok]
    exact unpack_pack _ _
  have hle : r.status.le (unpack (pack .running .none)) := by
    rw [unpack_pack, hok]
    exact SchedulerStatus.le_refl _
  have hword := monotoneAndLegal_store h.word (pack .running .none) (by decide) hle
  refine ⟨⟨hword.legal, hword.monotone⟩, ?_, ?_, ?_, ?_, h.led, ?_, ?_⟩
  · rw [hstatus]
    exact h.loops
  · rw [hstatus]
    exact h.ended
  · rw [hstatus]
    exact h.requested
  · exact fun hex => absurd hex hidle
  · rw [hstatus]
    exact h.loaded
  · rw [hstatus]
    exact h.stopped

/-- The leader's store keeps the mode and moves Stopping to Stopped. -/
theorem orderly_stopped (h : Orderly r) {mode : ShutdownMode} (hl : r.leader = .loaded mode)
    (hok : r.status.shutdownMode = mode) :
    Orderly { r.store (pack .stopped mode) with leader := .stored } := by
  have hstatus : ({ r.store (pack .stopped mode) with leader := .stored } : Runtime).status =
      ⟨.stopped, mode⟩ := unpack_pack _ _
  have hmode := (h.loaded mode hl).1
  have hex : r.workersExited := h.led (by simp [hl])
  have hle : r.status.le (unpack (pack .stopped mode)) := by
    rw [unpack_pack, SchedulerStatus.le, hok]
    exact ⟨SchedulerState.rank_le_stopped _, Nat.le_refl _⟩
  have hword := monotoneAndLegal_store h.word (pack .stopped mode)
    (by simp [SchedulerStatus.legal, hmode]) hle
  refine ⟨⟨hword.legal, hword.monotone⟩, ?_, ?_, ?_, ?_, fun _ => hex, ?_, ?_⟩
  · rw [hstatus]
    intro q hq current hc
    exact Nat.le_trans (h.loops q hq current hc) (SchedulerState.rank_le_stopped _)
  · rw [hstatus]
    intro _ _ _ hr
    cases hr
  · rw [hstatus]
    intro _ hr
    cases hr
  · rw [hstatus]
    exact fun _ => ⟨by simp, (h.exited hex).2⟩
  · intro m hm
    cases hm
  · rw [hstatus]
    exact iff_of_true rfl rfl

theorem orderly_addRequest (h : Orderly r) (kind : RequestKind) : Orderly (addRequest r kind) where
  word := ⟨h.word.legal, h.word.monotone⟩
  loops q hq current hc := by
    rcases List.mem_append.mp hq with hq | hq
    · exact h.loops q hq current hc
    · obtain rfl := List.mem_singleton.mp hq
      cases hc
  ended q hq hpc := by
    rcases List.mem_append.mp hq with hq | hq
    · exact h.ended q hq hpc
    · obtain rfl := List.mem_singleton.mp hq
      simp at hpc
  requested hstop hrun := by
    obtain ⟨q, hq, hP⟩ := h.requested hstop hrun
    exact ⟨q, List.mem_append_left _ hq, hP⟩
  exited := h.exited
  led := h.led
  loaded := h.loaded
  stopped := h.stopped

/-- Once the last worker is out, a request is over, so the word has left Running. -/
theorem orderly_workersExit (h : Orderly r) (hctor : r.ctor = .published)
    (hstop : r.stopRequested) (hpending : ¬ handoffPending r) :
    Orderly { r with workersExited := true } := by
  have hne : r.status.state ≠ .running := by
    intro hrun
    obtain ⟨q, hq, hk, hpc⟩ := h.requested hstop hrun
    refine hpending ?_
    simp only [handoffPending, List.any_eq_true, decide_eq_true_eq]
    exact ⟨q, hq, hk, hpc⟩
  exact ⟨⟨h.word.legal, h.word.monotone⟩, h.loops, h.ended, h.requested,
    fun _ => ⟨hne, hctor⟩, fun _ => rfl, h.loaded, h.stopped⟩

/-- **Every step in place keeps the writers in order.** -/
theorem orderly_next (h : Orderly r) {label : Label} (hok : StoresInPlace r label)
    (hn : next r label = some r') : Orderly r' := by
  cases label with
  | ctorCheck =>
    simp only [next] at hn
    split at hn
    · rename_i hc
      obtain rfl := Option.some.inj hn
      refine ⟨⟨h.word.legal, h.word.monotone⟩, h.loops, h.ended, h.requested, fun hex => ?_,
        h.led, h.loaded, h.stopped⟩
      have := (h.exited hex).2
      rw [hc.1] at this
      cases this
    · cases hn
  | ctorPublish =>
    simp only [next] at hn
    split at hn
    · rename_i hc
      obtain rfl := Option.some.inj hn
      -- the constructor's plain store, before any worker can have left
      refine orderly_publish h hok fun hex => ?_
      have := (h.exited hex).2
      rw [hc] at this
      cases this
    · cases hn
  | closeRegistration =>
    simp only [next] at hn
    split at hn
    · obtain rfl := Option.some.inj hn
      have hclosed : Orderly { r with registrationOpen := false } :=
        ⟨⟨h.word.legal, h.word.monotone⟩, h.loops, h.ended, h.requested, h.exited, h.led, h.loaded,
          h.stopped⟩
      exact orderly_addRequest hclosed _
    · cases hn
  | requestAllImmediate =>
    obtain rfl := Option.some.inj hn
    exact orderly_addRequest h _
  | call kind =>
    simp only [next] at hn
    split at hn
    · split at hn
      · obtain rfl := Option.some.inj hn
        exact orderly_addRequest h _
      · cases hn
    · split at hn
      · obtain rfl := Option.some.inj hn
        exact orderly_addRequest h _
      · cases hn
    · cases hn
  | request i spurious =>
    simp only [next] at hn
    cases hi : r.requests[i]? with
    | none => simp [hi] at hn
    | some q =>
      simp only [hi] at hn
      -- a request moves on, sets the stop flag, or moves the word forward
      rcases requestStep_cases h (List.mem_of_getElem? hi) hn with
        ⟨pc, rfl, hloop, hover⟩ | ⟨hk, rfl⟩ | ⟨hne, rfl⟩ | ⟨mode, hmode, hne, hle, rfl⟩
      · exact orderly_quiet h hi hloop hover
      · exact orderly_handoff h hi hk
      · exact orderly_setStop h hne
      · exact orderly_exchange h hmode hne hle
  | workersExit =>
    simp only [next] at hn
    split at hn
    · rename_i hc
      obtain rfl := Option.some.inj hn
      exact orderly_workersExit h hc.1 hc.2.1 hc.2.2
    · cases hn
  | lead =>
    simp only [next] at hn
    split at hn
    · split at hn
      · rename_i hl hex
        obtain rfl := Option.some.inj hn
        refine ⟨⟨h.word.legal, h.word.monotone⟩, h.loops, h.ended, h.requested, h.exited,
          fun _ => hex, by simp, ?_⟩
        -- a leader has the mode still to load, so Stopped is not stored
        exact iff_of_false (fun hs => by simpa [hl] using h.stopped.mp hs) (by simp)
      · cases hn
    · rename_i hl
      obtain rfl := Option.some.inj hn
      have hex : r.workersExited := h.led (by simp [hl])
      refine ⟨⟨h.word.legal, h.word.monotone⟩, h.loops, h.ended, h.requested, h.exited,
        fun _ => hex, ?_, ?_⟩
      · rintro mode ⟨rfl⟩
        have hlegal := h.word.legal r.packed List.mem_cons_self
        exact ⟨SchedulerStatus.mode_of_legal hlegal (h.exited hex).1, Nat.le_refl _⟩
      · exact iff_of_false (fun hs => by simpa [hl] using h.stopped.mp hs) (by simp)
    · rename_i mode hl
      obtain rfl := Option.some.inj hn
      -- the plain store of Stopped, which the condition puts in place
      exact orderly_stopped h hl (hok mode hl)
    · cases hn

/-- A plain store that finds another value than expected moves the word back. -/
theorem not_monotone_of_overwritten (h : Orderly r) {label : Label}
    (hbad : ¬ StoresInPlace r label) (hn : next r label = some r') : ¬ MonotoneAndLegal r' := by
  intro hmono
  cases label with
  | ctorPublish =>
    simp only [next] at hn
    split at hn
    · obtain rfl := Option.some.inj hn
      have hstep := (List.pairwise_cons.mp hmono.monotone).1 r.packed List.mem_cons_self
      have hlegal := h.word.legal r.packed List.mem_cons_self
      have hrun : (unpack r.packed).state = .running := by
        have hrank : (unpack r.packed).state.rank ≤ 0 := by
          simpa [Runtime.store, SchedulerState.rank] using hstep.1
        cases hs : (unpack r.packed).state with
        | running => rfl
        | stopping => simp [hs, SchedulerState.rank] at hrank
        | stopped => simp [hs, SchedulerState.rank] at hrank
      exact hbad (SchedulerStatus.eq_of_running hlegal hrun)
    · cases hn
  | lead =>
    simp only [StoresInPlace, Classical.not_forall] at hbad
    obtain ⟨mode, hl, hne⟩ := hbad
    simp only [next, hl] at hn
    obtain rfl := Option.some.inj hn
    have hstep := (List.pairwise_cons.mp hmono.monotone).1 r.packed List.mem_cons_self
    have hrank : (unpack r.packed).shutdownMode.rank ≤ mode.rank := by
      simpa [Runtime.store] using hstep.2
    have hold := (h.loaded mode hl).2
    exact hne (ShutdownMode.eq_of_rank (Nat.le_antisymm hrank hold))
  | ctorCheck => exact hbad trivial
  | closeRegistration => exact hbad trivial
  | requestAllImmediate => exact hbad trivial
  | call _ => exact hbad trivial
  | request _ _ => exact hbad trivial
  | workersExit => exact hbad trivial

theorem orderly_registered : Orderly ({} : Runtime) := by
  have hlegal : (unpack (pack .running .none)).legal := by decide
  refine ⟨⟨?_, by simp⟩, by simp, by simp, by simp, by simp, by simp, by simp, by decide⟩
  exact List.forall_mem_singleton.mpr hlegal

/-- **The lifecycle word is monotone and legal exactly when both plain stores are in
place.**  In a run of a runtime whose constructor succeeds, with any requests from
users, workers and the registry, every value of the word is legal and none is
followed by an earlier one if and only if the constructor's store of Running finds
Running and None, and the leader's store of Stopped finds the mode it has read. -/
theorem monotoneAndLegal_iff_storesInPlace (r : Runtime) (hr : lifecycle.init r)
    (labels : List Label) (hrun : (lifecycle.run r labels).isSome) :
    lifecycle.EveryState MonotoneAndLegal r labels ↔
      lifecycle.EveryStep StoresInPlace r labels := by
  refine Machine.everyState_iff_everyStep Orderly (fun _ h => h.word)
    (fun _ _ _ h hok hn => orderly_next h hok hn)
    (fun _ _ _ h hbad hn => not_monotone_of_overwritten h hbad hn) ?_ hrun
  rw [show r = {} from hr]
  exact orderly_registered

/-- A user shuts the runtime down while a finalization escalates to Immediate, and the
escalation is over before the leader reads the mode. -/
def shutdownEscalated : List Label :=
  [.ctorCheck, .ctorPublish, .call (.user false), .request 0 false, .request 0 false,
    .request 0 false, .request 0 false, .requestAllImmediate, .request 1 false,
    .request 1 true, .request 1 false, .workersExit, .lead, .lead, .lead]

theorem monotoneAndLegal_shutdownEscalated :
    lifecycle.EveryState MonotoneAndLegal {} shutdownEscalated :=
  (monotoneAndLegal_iff_storesInPlace {} rfl shutdownEscalated (by decide)).mpr (by decide)

/-- Finalization begins between the constructor's last look at the registry and its
store of Running: the graceful callback's exchange is overwritten. -/
def finalizeWhilePublishing : List Label :=
  [.ctorCheck, .closeRegistration, .request 0 false, .request 0 false, .request 0 false,
    .ctorPublish]

theorem finalizeWhilePublishing_runs_again :
    (lifecycle.run {} finalizeWhilePublishing).any
        (fun r => unpack r.packed = ⟨.running, .none⟩ ∧
          r.past.map unpack = [⟨.stopping, .graceful⟩, ⟨.running, .none⟩]) ∧
      ¬ lifecycle.EveryState MonotoneAndLegal {} finalizeWhilePublishing := by
  refine ⟨by decide, fun h => ?_⟩
  obtain ⟨r, hr⟩ := Option.isSome_iff_exists.mp
    (show (lifecycle.run {} finalizeWhilePublishing).isSome by decide)
  have hmono := (h.last hr).monotone
  obtain rfl := Option.some.inj hr
  revert hmono
  decide

end Lifecycle
end AstraScheduler
