import AstraScheduler.GraphCancellation

/-! # Graph runs and Immediate shutdown

A graph run on a runtime that is shut down.  Immediate shutdown discards the invokers that
have not started: the sweep takes them out of the queues, and a worker that has claimed one
looks at the mode before it executes it.  Discarding calls `cancel_pre_start`, and that of a
posted node does nothing: the node is not marked and its successors are never posted.  A
worker leaves when it sees no resumes queued and then no claims, and when all have left the
runtime is stopped.

Other work of the runtime only keeps workers from this run. -/

namespace AstraScheduler
namespace GraphShutdown

open GraphExecution
open Transition (Machine)

variable {n k : Nat} {E : Type}

/-- A graph run and the runtime around it. -/
structure Runtime (n k : Nat) (E : Type) where
  run : Run n k E
  mode : ShutdownMode := .none
  /-- `cancel_unstarted` is under way. -/
  sweeping : Bool := false
  /-- The worker has read the mode and is going to execute what it has claimed. -/
  cleared : Fin k → Bool := fun _ => false
  /-- The worker has seen the queues without anything to wait for. -/
  looked : Fin k → Bool := fun _ => false
  exited : Fin k → Bool := fun _ => false
  stopped : Bool := false
  /-- The nodes whose invokers were discarded. -/
  discarded : List (Fin n) := []

inductive Label (n k : Nat) (E : Type) where
  | run (a : GraphExecution.Label n k E)
  | requestShutdown (mode : ShutdownMode)
  /-- The sweep discards the queued invoker of a node. -/
  | sweep (node : Fin n)
  | endSweep
  /-- The loop reads the mode for what it has claimed; a worker that waits inside other work
  does not. -/
  | readMode (w : Fin k) (helping : Bool)
  /-- The worker looks at the queues, and then at the claims. -/
  | look (w : Fin k)
  | leave (w : Fin k)
  /-- The workers are joined. -/
  | stop
  deriving DecidableEq, Repr

section Steps
variable (g : FrozenTaskGraph n) (s : Runtime n k E)

/-- What the loop of worker `w` has claimed and not entered. -/
def claimedByLoop (w : Fin k) : Option (Fin n × Bool) :=
  match s.run.workers w with
  | [.claimed m resume] => some (m, resume)
  | _ => none

/-- May the workers take this step of the run? -/
def mayStep : GraphExecution.Label n k E → Bool
  | .claim w _ _ => !s.exited w
  | .step w => (claimedByLoop s w).isNone || s.cleared w
  | _ => true

/-- Does the mode have the worker discard what it has claimed? -/
def discards (resume : Bool) : Bool := s.mode = .immediate && !resume

/-- Nothing is queued that a worker would wait for: resumes in Immediate mode, any work
otherwise. -/
def nothingQueued : Bool :=
  if s.mode = .immediate then s.run.queue.all fun c => !c.2 else s.run.queue.isEmpty

def step : Label n k E → Option (Runtime n k E)
  | .run a =>
    if mayStep s a then
      (GraphExecution.step g s.run a).map fun run =>
        match a with
        | .claim w _ _ =>
          { s with run := run, looked := Function.update s.looked w false }
        | .step w => { s with run := run, cleared := Function.update s.cleared w false }
        | _ => { s with run := run }
    else none
  | .requestShutdown mode =>
    -- Graceful is not requested again, and not after Immediate
    if mode ≠ .none ∧ s.mode.rank < mode.rank ∧ s.stopped = false then
      some { s with mode := mode, sweeping := s.sweeping || mode = .immediate }
    else none
  | .sweep m =>
    if s.sweeping ∧ (m, false) ∈ s.run.queue then
      some { s with
        run := { s.run with queue := s.run.queue.erase (m, false) }
        discarded := m :: s.discarded }
    else none
  | .endSweep => if s.sweeping then some { s with sweeping := false } else none
  | .readMode w helping =>
    match claimedByLoop s w with
    | some (m, resume) =>
      if s.cleared w then none
      else if !helping && discards s resume then
        some { s with run := s.run.setStack w [], discarded := m :: s.discarded }
      else some { s with cleared := Function.update s.cleared w true }
    | none => none
  | .look w =>
    if s.mode ≠ .none ∧ s.exited w = false ∧ s.run.workers w = [] ∧ nothingQueued s then
      some { s with looked := Function.update s.looked w true }
    else none
  | .leave w =>
    if s.looked w ∧ s.exited w = false then
      if ∀ v, (s.run.workers v).isEmpty then some { s with exited := Function.update s.exited w true }
      else some { s with looked := Function.update s.looked w false }
    else none
  | .stop =>
    if s.mode ≠ .none ∧ (∀ w, s.exited w) ∧ s.stopped = false then some { s with stopped := true }
    else none

end Steps

def machine (g : FrozenTaskGraph n) (k : Nat) (E : Type) :
    Machine (Runtime n k E) (Label n k E) where
  init s := s = { run := initial g }
  next := step g

/-! ## Runs that are not disturbed -/

/-- No invoker of a node is discarded, no check comes late, and nothing of the run is left to
post, queued or suspended when the runtime is stopped. -/
def undisturbed (s : Runtime n k E) : Label n k E → Bool
  | .run a => checksInTime s.run a
  | .sweep _ => false
  | .readMode w helping =>
    match claimedByLoop s w with
    | some (_, resume) => helping || !discards s resume
    | none => true
  | .stop => s.run.roots.isEmpty && s.run.queue.isEmpty &&
      decide (∀ m, (s.run.entries m).body ≠ .suspended)
  | .requestShutdown _ | .endSweep | .look _ | .leave _ => true

abbrev Undisturbed (s : Runtime n k E) (a : Label n k E) : Prop := undisturbed s a = true

variable {g : FrozenTaskGraph n} {s s' : Runtime n k E} {w : Fin k}

/-- Nobody will do anything for the run any more. -/
structure Settled (s : Runtime n k E) : Prop where
  exited : ∀ w, s.exited w = true
  idle : s.run.Idle
  awake : ∀ m, (s.run.entries m).body ≠ .suspended

structure Kept (g : FrozenTaskGraph n) (s : Runtime n k E) : Prop where
  books : Books g s.run
  gone : ∀ w, s.exited w = true → s.run.workers w = []
  settled : s.stopped = true → Settled s
  discarded : s.discarded = []

namespace Kept

/-- A step that changes neither the run nor who has left. -/
theorem of_same (h : Kept g s) (hrun : s'.run = s.run) (hexited : s'.exited = s.exited)
    (hstopped : s'.stopped = s.stopped) (hdiscarded : s'.discarded = s.discarded) : Kept g s' where
  books := hrun ▸ h.books
  gone := by
    rw [hexited, hrun]
    exact h.gone
  settled := by
    intro hs
    obtain ⟨hexit, hidle, hawake⟩ := h.settled (hstopped ▸ hs)
    exact ⟨hexited ▸ hexit, hrun ▸ hidle, hrun ▸ hawake⟩
  discarded := hdiscarded.trans h.discarded

/-- A worker that has left takes no step. -/
theorem workers_of_exited {a : GraphExecution.Label n k E} {run : Run n k E} (h : Kept g s)
    (hmay : mayStep s a = true) (hs : GraphExecution.step g s.run a = some run)
    (hw : s.exited w = true) : run.workers w = [] := by
  have hempty := h.gone w hw
  refine (step_workers hs fun hworker => ?_).trans hempty
  cases a with
  | claim v m resume =>
    obtain rfl := Option.some.inj hworker
    simp [mayStep, hw] at hmay
  | step v | finish v result | suspend v =>
    obtain rfl := Option.some.inj hworker
    simp [GraphExecution.step, hempty] at hs
  | _ => cases hworker

/-- Once the runtime is stopped, the run stays as it is. -/
theorem settled_step {a : GraphExecution.Label n k E} {run : Run n k E} (h : Kept g s)
    (hmay : mayStep s a = true) (hs : GraphExecution.step g s.run a = some run)
    (hset : Settled s) : run.Idle ∧ ∀ m, (run.entries m).body ≠ .suspended := by
  have hworkers : ∀ w, run.workers w = [] := fun w => h.workers_of_exited hmay hs (hset.exited w)
  cases a with
  | postRoot => simp [GraphExecution.step, hset.idle.roots] at hs
  | claim v m resume => simp [GraphExecution.step, hset.idle.queue] at hs
  | step v | finish v result | suspend v =>
    simp [GraphExecution.step, hset.idle.workers] at hs
  | awake m => simp [GraphExecution.step, hset.awake m] at hs
  | requestCancel =>
    cases hs
    exact ⟨⟨hset.idle.roots, hset.idle.queue, hworkers⟩, hset.awake⟩
  | cancelNode j =>
    simp only [GraphExecution.step] at hs
    split at hs <;> cases hs
    case h_1 m rest hj =>
      have hsame := SameButState.requestTaskCancel s.run m
      split
      · refine ⟨⟨hsame.roots.trans hset.idle.roots, hsame.queue.trans hset.idle.queue,
          fun w => (congrFun hsame.workers w).trans (hset.idle.workers w)⟩, fun p => ?_⟩
        rw [hsame.body]
        exact hset.awake p
      · exact ⟨⟨hset.idle.roots, hset.idle.queue, hset.idle.workers⟩, hset.awake⟩
    case h_2 => exact ⟨⟨hset.idle.roots, hset.idle.queue, hworkers⟩, hset.awake⟩

/-- A step of the run. -/
theorem run {a : GraphExecution.Label n k E} {run : Run n k E} (h : Kept g s)
    (hok : ChecksInTime s.run a) (hmay : mayStep s a = true)
    (hs : GraphExecution.step g s.run a = some run) (hrun : s'.run = run)
    (hexited : s'.exited = s.exited) (hstopped : s'.stopped = s.stopped)
    (hdiscarded : s'.discarded = s.discarded) : Kept g s' where
  books := hrun ▸ h.books.step hok hs
  gone := by
    intro w hw
    rw [hrun]
    exact h.workers_of_exited hmay hs (hexited ▸ hw)
  settled := by
    intro hstop
    have hset := h.settled (hstopped ▸ hstop)
    obtain ⟨hidle, hawake⟩ := h.settled_step hmay hs hset
    exact ⟨hexited ▸ hset.exited, hrun ▸ hidle, hrun ▸ hawake⟩
  discarded := hdiscarded.trans h.discarded

theorem step {a : Label n k E} (h : Kept g s) (hok : Undisturbed s a) (hs : step g s a = some s') :
    Kept g s' := by
  cases a with
  | run a =>
    simp only [GraphShutdown.step] at hs
    split at hs
    case isFalse => cases hs
    case isTrue hmay =>
      obtain ⟨run, hrun, rfl⟩ := Option.map_eq_some_iff.mp hs
      have hcheck : ChecksInTime s.run a := hok
      cases a <;> exact h.run hcheck hmay hrun rfl rfl rfl rfl
  | requestShutdown mode =>
    simp only [GraphShutdown.step] at hs
    split at hs <;> cases hs
    exact h.of_same rfl rfl rfl rfl
  | sweep m => cases hok
  | endSweep =>
    simp only [GraphShutdown.step] at hs
    split at hs <;> cases hs
    exact h.of_same rfl rfl rfl rfl
  | readMode w helping =>
    simp only [GraphShutdown.step] at hs
    split at hs
    case h_2 => cases hs
    case h_1 m resume hclaimed =>
      split at hs
      · cases hs
      · split at hs
        case isTrue hdiscards =>
          -- nothing is discarded
          simp only [Undisturbed, undisturbed, hclaimed] at hok
          cases helping <;> simp_all
        case isFalse =>
          cases hs
          exact h.of_same rfl rfl rfl rfl
  | look w =>
    simp only [GraphShutdown.step] at hs
    split at hs <;> cases hs
    exact h.of_same rfl rfl rfl rfl
  | leave w =>
    simp only [GraphShutdown.step] at hs
    split at hs
    case isFalse => cases hs
    case isTrue =>
      split at hs
      case isFalse =>
        cases hs
        exact h.of_same rfl rfl rfl rfl
      case isTrue hempty =>
        cases hs
        refine ⟨h.books, fun v _ => List.isEmpty_iff.mp (hempty v), fun hstop => ?_, h.discarded⟩
        obtain ⟨hexit, hidle, hawake⟩ := h.settled hstop
        refine ⟨fun v => ?_, hidle, hawake⟩
        by_cases hv : v = w
        · subst hv
          exact Function.update_self ..
        · exact (Function.update_of_ne hv ..).trans (hexit v)
  | stop =>
    simp only [GraphShutdown.step] at hs
    split at hs
    case isFalse => cases hs
    case isTrue hall =>
      cases hs
      refine ⟨h.books, h.gone, fun _ => ?_, h.discarded⟩
      simp only [Undisturbed, undisturbed, Bool.and_eq_true, List.isEmpty_iff,
        decide_eq_true_eq] at hok
      exact ⟨hall.2.1, ⟨hok.1.1, hok.1.2, fun w => h.gone w (hall.2.1 w)⟩, hok.2⟩

theorem of_reachable (h : (machine g k E).ReachableUnder Undisturbed s) : Kept g s := by
  refine h.invariant (Kept g) ?_ ?_
  · rintro s rfl
    exact ⟨Books.initial g, fun _ _ => rfl, fun hstop => (Bool.false_ne_true hstop).elim, rfl⟩
  · intro s a s' hk hok hs
    exact hk.step hok hs

end Kept

/-- A stopped runtime leaves no graph run behind, and every node whose invoker was discarded is
terminal with its successors looked at. -/
structure RunTerminated (s : Runtime n k E) : Prop where
  runState : s.stopped = true → s.run.runState ≠ .running
  remaining : s.stopped = true → s.run.remainingNodes = 0
  discarded : ∀ m ∈ s.discarded, m ∈ s.run.marks.map Prod.fst ∧ m ∈ s.run.triggered

/-- **Shutdown terminates the graph run**, in every run in which no invoker of a node is
discarded, no check comes late, and nothing of the run is left when the runtime is stopped. -/
theorem runTerminated_of_reachable (h : (machine g k E).ReachableUnder Undisturbed s) :
    RunTerminated s := by
  have hkept := Kept.of_reachable h
  have hstate : s.stopped = true → s.run.runState ≠ .running := fun hstop =>
    hkept.books.idle_completed (hkept.settled hstop).idle (hkept.settled hstop).awake
  refine ⟨hstate, fun hstop => (hkept.books.runState_eq (hstate hstop)).1, fun m hm => ?_⟩
  rw [hkept.discarded] at hm
  cases hm

/-- The chain runs to its end before Immediate is requested. -/
def orderlyRun : List (Label 2 1 Nat) :=
  ([.run .postRoot, .run (.claim 0 0 false), .readMode 0 false, .run (.step 0),
    .run (.finish 0 (.threw 7))] : List (Label 2 1 Nat)) ++
    (List.replicate 14 (.run (.step 0)) : List (Label 2 1 Nat)) ++
    ([.requestShutdown .immediate, .endSweep, .look 0, .leave 0, .stop] : List (Label 2 1 Nat))

theorem runTerminated_of_chain : ∃ s,
    (machine chain 1 Nat).run { run := initial chain } orderlyRun = some s ∧ s.stopped = true ∧
      s.run.runState = .failed ∧ RunTerminated s := by
  obtain ⟨s, hs⟩ := Option.isSome_iff_exists.mp
    (show ((machine chain 1 Nat).run { run := initial chain } orderlyRun).isSome by decide)
  have hend : ((machine chain 1 Nat).run { run := initial chain } orderlyRun).map (fun s =>
      decide (s.stopped = true ∧ s.run.runState = .failed)) = some true := by
    decide
  simp only [hs, Option.map_some, Option.some.injEq, decide_eq_true_eq] at hend
  have hinit : (machine chain 1 Nat).ReachableUnder Undisturbed { run := initial chain } :=
    .initial rfl
  exact ⟨s, hs, hend.1, hend.2, runTerminated_of_reachable (hinit.run (by decide) hs)⟩

/-- The only root of the chain is queued when Immediate is requested: it is discarded, the
runtime stops, and the run stays in Running with both nodes to go. -/
theorem left_running : ∃ s, (machine chain 1 Nat).Reachable s ∧ s.stopped = true ∧
    s.mode = .immediate ∧ s.discarded = [0] ∧ s.run.runState = .running ∧
      s.run.remainingNodes = 2 ∧ s.run.marks = [] := by
  let swept : List (Label 2 1 Nat) :=
    [.run .postRoot, .requestShutdown .immediate, .sweep 0, .endSweep, .look 0, .leave 0, .stop]
  obtain ⟨s, hs⟩ := Option.isSome_iff_exists.mp
    (show ((machine chain 1 Nat).run { run := initial chain } swept).isSome by decide)
  have hend : ((machine chain 1 Nat).run { run := initial chain } swept).map (fun s =>
      decide (s.stopped = true ∧ s.mode = .immediate ∧ s.discarded = [0] ∧
        s.run.runState = .running ∧ s.run.remainingNodes = 2 ∧ s.run.marks = [])) = some true := by
    decide
  simp only [hs, Option.map_some, Option.some.injEq, decide_eq_true_eq] at hend
  exact ⟨s, Machine.reachable_of_run rfl hs, hend⟩

end GraphShutdown
end AstraScheduler
