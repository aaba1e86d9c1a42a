import AstraScheduler.CallbackLedger
import AstraScheduler.GraphSafety
import AstraScheduler.Threads

/-! # The completion callbacks of a graph run

`GraphRunSharedState::add_completion_callback` and `mark_node_terminal`, called from any
threads, each node marked once.  The last call of `mark_node_terminal` counts the nodes down
to zero first and stores the run state later, under the mutex.  A registration decides by the
count: between the two it invokes its callback while the run is still Running. -/

namespace AstraScheduler
namespace GraphCallbacks
open CallbackLedger GraphExecution
variable {n : Nat} {E K : Type}

/-- What a call of `mark_node_terminal` does next. -/
inductive MarkPc where
  /-- The report, under the mutex. -/
  | record
  | countNode
  /-- It has counted to zero: the run state and the callbacks, under the mutex. -/
  | complete
  | finished
  deriving DecidableEq, Repr

structure Mark (n : Nat) (E : Type) where
  node : Fin n
  outcome : TaskState
  exception : Option E
  pc : MarkPc := .record
  deriving DecidableEq, Repr

/-- The shared state of a run, the calls on it, and what each invoked callback has found. -/
structure SharedState (n : Nat) (E K : Type) where
  remainingNodes : Int := n
  runState : GraphRunState := if n = 0 then .succeeded else .running
  report : GraphReport n E := {}
  callbacks : Deliveries K := {}
  marks : List (Mark n E) := []
  observed : List (GraphRunState × GraphReport n E) := []
  deriving DecidableEq

inductive Label (n : Nat) (E K : Type) where
  | mark (node : Fin n) (outcome : TaskState) (exception : Option E)
  /-- The next step of the `i`-th call of `mark_node_terminal`. -/
  | advance (i : Nat)
  | addCompletionCallback (k : K)
  /-- The `i`-th of the calls that deliver invokes its next callback. -/
  | deliver (i : Nat)

/-- A callback left with the run waits; one that finds no node remaining is invoked. -/
def addCompletionCallback (s : SharedState n E K) (k : K) : SharedState n E K :=
  { s with
    callbacks := if s.remainingNodes = 0 then s.callbacks.handOver k else s.callbacks.leave k }

def advance (s : SharedState n E K) (i : Nat) : Option (SharedState n E K) :=
  match s.marks[i]? with
  | none => none
  | some m =>
    let goto (pc : MarkPc) := s.marks.set i { m with pc := pc }
    match m.pc with
    | .record =>
      some { s with report := s.report.record m.node m.outcome m.exception, marks := goto .countNode }
    | .countNode =>
      some { s with
        remainingNodes := s.remainingNodes - 1
        marks := goto (if s.remainingNodes = 1 then .complete else .finished) }
    | .complete =>
      some { s with
        report := s.report.sorted
        runState := s.report.runState
        callbacks := s.callbacks.takeOut
        marks := goto .finished }
    | .finished => none

def step (s : SharedState n E K) : Label n E K → Option (SharedState n E K)
  | .mark node outcome exception =>
    if ∀ m ∈ s.marks, m.node ≠ node then
      some { s with
        marks := s.marks ++ [{ node := node, outcome := outcome, exception := exception }] }
    else none
  | .advance i => advance s i
  | .addCompletionCallback k => some (addCompletionCallback s k)
  | .deliver i =>
    (s.callbacks.deliver i).map fun callbacks =>
      { s with callbacks := callbacks, observed := s.observed ++ [(s.runState, s.report)] }

/-- A run from its start, with no callback registered. -/
def machine (n : Nat) (E K : Type) : Transition.Machine (SharedState n E K) (Label n E K) where
  init s := s = {}
  next := step

/-! ## The promise -/

/-- Every callback is invoked exactly once, after the completion. -/
structure DeliveredOnce (s : SharedState n E K) : Prop where
  /-- Each callback that was registered is invoked, about to be, or waits for a Running run. -/
  conserved : (s.callbacks.invoked ++ s.callbacks.pending ++ s.callbacks.waiting).Perm
    s.callbacks.added
  waiting : s.callbacks.waiting ≠ [] → s.runState = .running
  exactlyOnce : s.runState ≠ .running → s.callbacks.pending = [] →
    s.callbacks.invoked.Perm s.callbacks.added
  /-- What a callback finds is terminal, and is what the run shows ever after. -/
  observed : ∀ o ∈ s.observed, o = (s.runState, s.report) ∧ o.1 ≠ .running ∧
    o.2.failedNodeExceptions.Pairwise fun a b => a.1 ≤ b.1

/-- No registration looks at the count between the last countdown and the store. -/
def OutsideWindow (s : SharedState n E K) : Label n E K → Prop
  | .addCompletionCallback _ => s.remainingNodes = 0 → s.runState ≠ .running
  | _ => True

instance decidableOutsideWindow (s : SharedState n E K) : ∀ label, Decidable (OutsideWindow s label)
  | .addCompletionCallback _ =>
    inferInstanceAs (Decidable (s.remainingNodes = 0 → s.runState ≠ .running))
  | .mark .. | .advance _ | .deliver _ => .isTrue trivial

/-! ## The invariant -/

variable {s s' : SharedState n E K}

/-- The call has counted its node. -/
def Mark.counted (m : Mark n E) : Bool := m.pc = .complete ∨ m.pc = .finished

def Mark.completing (m : Mark n E) : Bool := m.pc = .complete

structure Inv (s : SharedState n E K) : Prop where
  nodup : (s.marks.map Mark.node).Nodup
  counted : s.remainingNodes + s.marks.countP Mark.counted = n
  completing : s.marks.countP Mark.completing =
    if s.remainingNodes = 0 ∧ s.runState = .running then 1 else 0
  running : s.remainingNodes ≠ 0 → s.runState = .running
  sound : Sound (s.runState ≠ .running) s.callbacks
  observed : ∀ o ∈ s.observed, s.runState ≠ .running ∧ o = (s.runState, s.report)
  sorted : s.runState ≠ .running →
    s.report.failedNodeExceptions.Pairwise fun a b => a.1 ≤ b.1

theorem Inv.initial : Inv ({} : SharedState n E K) where
  nodup := List.nodup_nil
  counted := Int.add_zero _
  completing := by
    by_cases hn : n = 0
    · simp [hn]
    · simp [hn]
  running hne := by
    refine if_neg fun hn => hne ?_
    subst hn
    rfl
  sound := .empty
  observed _ ho := by cases ho
  sorted _ := .nil

/-- While a call has not counted its node, the run is Running. -/
theorem Inv.running_of_uncounted (h : Inv s) {m : Mark n E} (hm : m ∈ s.marks)
    (hpc : m.counted = false) : 0 < s.remainingNodes ∧ s.runState = .running := by
  have hcounted := h.counted
  have hlength : s.marks.length ≤ n := by
    have hcard := List.Nodup.length_le_card h.nodup
    rwa [List.length_map, Fintype.card_fin] at hcard
  have hlt : s.marks.countP Mark.counted < s.marks.length := by
    refine Nat.lt_of_le_of_ne List.countP_le_length fun heq => ?_
    rw [List.countP_eq_length] at heq
    rw [heq m hm] at hpc
    cases hpc
  exact ⟨by omega, h.running (by omega)⟩

theorem Inv.completing_mem (h : Inv s) {m : Mark n E} (hm : m ∈ s.marks)
    (hpc : m.completing) : s.remainingNodes = 0 ∧ s.runState = .running := by
  have hpos : 0 < s.marks.countP Mark.completing := List.countP_pos_iff.mpr ⟨m, hm, hpc⟩
  by_contra hno
  rw [h.completing, if_neg hno] at hpos
  cases hpos

theorem Inv.advance (h : Inv s) {i : Nat} (hs : advance s i = some s') : Inv s' := by
  unfold GraphCallbacks.advance at hs
  split at hs
  · cases hs
  rename_i m hm
  have hmem := List.mem_of_getElem? hm
  have hcountedSet := Threads.countP_set Mark.counted hm
  have hcompletingSet := Threads.countP_set Mark.completing hm
  have hnodup : ∀ pc, ((s.marks.set i { m with pc := pc }).map Mark.node).Nodup := by
    intro pc
    obtain ⟨hi, rfl⟩ := List.getElem?_eq_some_iff.mp hm
    rw [List.map_set]
    show ((s.marks.map Mark.node).set i s.marks[i].node).Nodup
    rw [← List.getElem_map Mark.node (h := by simpa using hi), List.set_getElem_self]
    exact h.nodup
  dsimp only at hs
  split at hs
  · rename_i hpc
    cases hs
    obtain ⟨hpos, hrunning⟩ := h.running_of_uncounted hmem (by simp [Mark.counted, hpc])
    have hnew := hcountedSet { m with pc := .countNode }
    have hnewc := hcompletingSet { m with pc := .countNode }
    have hcounted := h.counted
    have hcompleting := h.completing
    simp only [Mark.counted, Mark.completing, hpc, reduceCtorEq, decide_false, or_self,
      Bool.false_eq_true, if_false, Nat.add_zero] at hnew hnewc
    refine ⟨hnodup _, by dsimp only; omega, by dsimp only; rw [hnewc, hcompleting], h.running,
      h.sound, fun o ho => ?_, fun hne => absurd hrunning hne⟩
    exact absurd hrunning (h.observed o ho).1
  · rename_i hpc
    cases hs
    obtain ⟨hpos, hrunning⟩ := h.running_of_uncounted hmem (by simp [Mark.counted, hpc])
    have hcounted := h.counted
    have hcompleting := h.completing
    rw [if_neg (by omega)] at hcompleting
    have hnone : ∀ o ∈ s.observed, False := fun o ho => (h.observed o ho).1 hrunning
    by_cases hlast : s.remainingNodes = 1
    · have hnew := hcountedSet { m with pc := .complete }
      have hnewc := hcompletingSet { m with pc := .complete }
      simp only [Mark.counted, Mark.completing, hpc, reduceCtorEq, decide_false, or_self,
        decide_true, true_or, if_true, Bool.false_eq_true, if_false, Nat.add_zero] at hnew hnewc
      rw [if_pos hlast]
      refine ⟨hnodup _, by dsimp only; omega, ?_, fun _ => hrunning, h.sound,
        fun o ho => (hnone o ho).elim, h.sorted⟩
      dsimp only
      rw [hnewc, hcompleting, if_pos ⟨by omega, hrunning⟩]
    · have hnew := hcountedSet { m with pc := .finished }
      have hnewc := hcompletingSet { m with pc := .finished }
      simp only [Mark.counted, Mark.completing, hpc, reduceCtorEq, decide_false, or_self,
        decide_true, or_true, if_true, Bool.false_eq_true, if_false, Nat.add_zero] at hnew hnewc
      rw [if_neg hlast]
      refine ⟨hnodup _, by dsimp only; omega, ?_, fun _ => hrunning, h.sound,
        fun o ho => (hnone o ho).elim, h.sorted⟩
      dsimp only
      rw [hnewc, hcompleting, if_neg (by omega)]
  · rename_i hpc
    cases hs
    obtain ⟨hzero, hrunning⟩ := h.completing_mem hmem (by simp [Mark.completing, hpc])
    have hnew := hcountedSet { m with pc := .finished }
    have hnewc := hcompletingSet { m with pc := .finished }
    have hcounted := h.counted
    have hcompleting := h.completing
    have hdone := s.report.runState_ne_running
    rw [if_pos ⟨hzero, hrunning⟩] at hcompleting
    simp only [Mark.counted, Mark.completing, hpc, reduceCtorEq, decide_false, or_false, or_true,
      decide_true, if_true, Bool.false_eq_true, if_false, Nat.add_zero] at hnew hnewc
    refine ⟨hnodup _, by dsimp only; omega, ?_, fun hne => absurd hzero hne,
      h.sound.takeOut.congr (by simpa using hdone),
      fun o ho => absurd hrunning (h.observed o ho).1,
      fun _ => List.pairwise_insertionSort (fun a b : Fin n × E => a.1 ≤ b.1) _⟩
    dsimp only
    rw [if_neg (fun hboth => hdone hboth.2)]
    omega
  · cases hs

theorem Inv.mark (h : Inv s) {node : Fin n} (outcome : TaskState) (exception : Option E)
    (hnew : ∀ m ∈ s.marks, m.node ≠ node) :
    Inv { s with
      marks := s.marks ++ [{ node := node, outcome := outcome, exception := exception }] } where
  nodup := by
    rw [List.map_append, List.nodup_append]
    refine ⟨h.nodup, List.nodup_singleton _, fun a ha b hb => ?_⟩
    obtain ⟨m, hm, rfl⟩ := List.mem_map.mp ha
    obtain rfl := List.mem_singleton.mp hb
    exact hnew m hm
  counted := by
    rw [List.countP_append]
    exact h.counted
  completing := by
    rw [List.countP_append]
    exact h.completing
  running := h.running
  sound := h.sound
  observed := h.observed
  sorted := h.sorted

theorem Inv.addCompletionCallback (h : Inv s) {k : K}
    (hwindow : s.remainingNodes = 0 → s.runState ≠ .running) :
    Inv (addCompletionCallback s k) := by
  refine ⟨h.nodup, h.counted, h.completing, h.running, ?_, h.observed, h.sorted⟩
  unfold GraphCallbacks.addCompletionCallback
  dsimp only
  split
  · rename_i hzero
    exact h.sound.handOver (hwindow hzero) k
  · rename_i hopen
    exact h.sound.leave (fun hdone => hdone (h.running hopen)) k

theorem Inv.deliver (h : Inv s) {i : Nat} {callbacks : Deliveries K}
    (hd : s.callbacks.deliver i = some callbacks) :
    Inv { s with callbacks := callbacks, observed := s.observed ++ [(s.runState, s.report)] } := by
  refine ⟨h.nodup, h.counted, h.completing, h.running, h.sound.deliver hd, fun o ho => ?_, h.sorted⟩
  rcases List.mem_append.mp ho with ho | ho
  · exact h.observed o ho
  · exact ⟨h.sound.complete_of_deliver hd, List.mem_singleton.mp ho⟩

theorem Inv.step (h : Inv s) {label : Label n E K} (hwindow : OutsideWindow s label)
    (hs : step s label = some s') : Inv s' := by
  cases label with
  | mark node outcome exception =>
    simp only [GraphCallbacks.step] at hs
    split at hs
    · rename_i hnew
      cases hs
      exact h.mark outcome exception hnew
    · cases hs
  | advance i => exact h.advance hs
  | addCompletionCallback k =>
    cases hs
    exact h.addCompletionCallback hwindow
  | deliver i =>
    obtain ⟨callbacks, hd, rfl⟩ := Option.map_eq_some_iff.mp hs
    exact h.deliver hd

theorem inv_of_outsideWindow (h : (machine n E K).ReachableUnder OutsideWindow s) : Inv s := by
  induction h with
  | initial hinit =>
    obtain rfl := hinit
    exact .initial
  | step _ hwindow hs ih => exact ih.step hwindow hs

/-- **Once, and after the completion**, in every run without a registration in the window. -/
theorem deliveredOnce_of_outsideWindow (h : (machine n E K).ReachableUnder OutsideWindow s) :
    DeliveredOnce s := by
  have hinv := inv_of_outsideWindow h
  refine ⟨hinv.sound.conserved, fun hne => ?_, hinv.sound.exactlyOnce, fun o ho => ?_⟩
  · by_contra hdone
    exact hne (hinv.sound.late hdone)
  · obtain ⟨hdone, rfl⟩ := hinv.observed o ho
    exact ⟨rfl, hdone, hinv.sorted hdone⟩

/-- One callback waits for the last node, one comes after it. -/
theorem deliveredOnce_earlyAndLate :
    ∃ s : SharedState 2 Nat Nat, s.callbacks.invoked = [8, 7] ∧ s.observed.length = 2 ∧
      DeliveredOnce s := by
  let labels : List (Label 2 Nat Nat) := [.addCompletionCallback 7, .mark 1 .failed (some 5),
    .mark 0 .succeeded none, .advance 0, .advance 1, .advance 1, .advance 0, .advance 0,
    .addCompletionCallback 8, .deliver 0, .deliver 1]
  obtain ⟨s, hs⟩ := Option.isSome_iff_exists.mp
    (show ((machine 2 Nat Nat).run {} labels).isSome by decide)
  have hend : ((machine 2 Nat Nat).run {} labels).map (fun s => decide
      (s.callbacks.invoked = [8, 7] ∧ s.observed.length = 2)) = some true := by
    decide
  simp only [hs, Option.map_some, Option.some.injEq, decide_eq_true_eq] at hend
  have hstart : (machine 2 Nat Nat).ReachableUnder OutsideWindow {} := .initial rfl
  have hreach := hstart.run (by decide) hs
  exact ⟨s, hend.1, hend.2, deliveredOnce_of_outsideWindow hreach⟩

/-- **A registration in the window**: the only node is counted, the run state not yet stored,
and the callback is invoked while the run is Running. -/
theorem registeredInWindow_foundRunning :
    ∃ s : SharedState 1 Nat Nat, (machine 1 Nat Nat).Reachable s ∧
      s.observed.map Prod.fst = [.running] ∧ ¬ DeliveredOnce s := by
  let labels : List (Label 1 Nat Nat) := [.mark 0 .succeeded none, .advance 0, .advance 0,
    .addCompletionCallback 7, .deliver 0]
  obtain ⟨s, hs⟩ := Option.isSome_iff_exists.mp
    (show ((machine 1 Nat Nat).run {} labels).isSome by decide)
  have hend : ((machine 1 Nat Nat).run {} labels).map (fun s => decide
      (s.observed.map Prod.fst = [.running])) = some true := by
    decide
  simp only [hs, Option.map_some, Option.some.injEq, decide_eq_true_eq] at hend
  refine ⟨s, Transition.Machine.reachable_of_run rfl hs, hend, fun hdelivered => ?_⟩
  obtain ⟨o, ho, hrunning⟩ := List.mem_map.mp (hend ▸ List.mem_singleton_self GraphRunState.running)
  exact (hdelivered.observed o ho).2.1 hrunning

end GraphCallbacks
end AstraScheduler
