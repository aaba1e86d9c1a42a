import AstraScheduler.GraphMetrics
import AstraScheduler.GraphStarts

/-! # What a step of a run does to its nodes

Of all that a step of a graph run changes, the books see what the event of the step says:
the node that is posted, the body that starts or ends, the control block that is cancelled
and the run that completes. -/

namespace AstraScheduler
namespace GraphMetrics

open RuntimeMetrics Postings WorkStacks
open GraphExecution (BodyResult BodyState NodeEntry Run Frame PlainRun stepFrame SameButState)

section Effect
variable {n k : Nat} {E : Type} {g : FrozenTaskGraph n} {s s' : Run n k E}
variable {w : Fin k} {a : Frame n E} {rest : List (Frame n E)}

/-! ## The effect of an event -/

/-- The nodes that an event posts. -/
def postedBy : Option (Event n) → List (Fin n)
  | some (.published m) => [m]
  | _ => []

def bodyAfter (p : Fin n) (old : BodyState) : Option (Event n) → BodyState
  | some (.firstStart m) => if p = m then .running else old
  | some (.outcome m _) => if p = m then .finished else old
  | _ => old

def stateAfter (p : Fin n) (old : TaskState) : Option (Event n) → TaskState
  | some (.cancelledBeforeStart m _) => if p = m then .cancelled else old
  | _ => old

/-- What the books see of a step.  The bodies of coroutine nodes change at other steps, too. -/
structure Effect (g : FrozenTaskGraph n) (e : Option (Event n)) (s s' : Run n k E) : Prop where
  posted : s'.posted = postedBy e ++ s.posted
  completions : s'.completions =
    (if e = some .runCompleted then [s.report.runState] else []) ++ s.completions
  body : PlainRun g s → ∀ p, (s'.entries p).body = bodyAfter p (s.entries p).body e
  taskState : PlainRun g s → ∀ p, (s'.entries p).taskState = stateAfter p (s.entries p).taskState e

/-- A step that changes nothing the books see. -/
theorem Effect.of_same {e : Option (Event n)} (he : e = none ∨ e = some .nodeTerminal)
    (hposted : s'.posted = s.posted) (hcompletions : s'.completions = s.completions)
    (hbody : ∀ p, (s'.entries p).body = (s.entries p).body)
    (hstate : ∀ p, (s'.entries p).taskState = (s.entries p).taskState) : Effect g e s s' := by
  rcases he with rfl | rfl
  · exact ⟨hposted, hcompletions, fun _ => hbody, fun _ => hstate⟩
  · exact ⟨hposted, hcompletions, fun _ => hbody, fun _ => hstate⟩

/-- A step that runs posting ordinary nodes only do not take. -/
theorem Effect.of_never {e : Option (Event n)} (hno : ¬ PlainRun g s)
    (he : postedBy e = [] ∧ e ≠ some .runCompleted) (hposted : s'.posted = s.posted)
    (hcompletions : s'.completions = s.completions) : Effect g e s s' where
  posted := by rw [he.1, hposted, List.nil_append]
  completions := by rw [if_neg he.2, hcompletions, List.nil_append]
  body h := absurd h hno
  taskState h := absurd h hno

theorem requestTaskCancel_posted (s : Run n k E) (m : Fin n) :
    (s.requestTaskCancel m).posted = s.posted ∧
      (s.requestTaskCancel m).completions = s.completions := by
  unfold Run.requestTaskCancel
  split <;> exact ⟨rfl, rfl⟩

/-- A first invoker is entered. -/
theorem enter_effect {m : Fin n} (htop : s.workers w = .claimed m false :: rest) :
    Effect g (frameEvent g s (.claimed m false)) s (GraphExecution.enter g s w rest m false) := by
  unfold GraphExecution.enter
  rw [if_neg Bool.false_ne_true]
  simp only [frameEvent]
  by_cases hcancel : s.cancelRequested = true
  · rw [if_pos (.inl hcancel), if_pos hcancel]
    split <;> exact .of_same (.inl rfl) rfl rfl (fun _ => rfl) fun _ => rfl
  · rw [if_neg hcancel]
    by_cases hcor : g.isCoroutineNode m = true
    · rw [if_pos (.inr hcor)]
      refine .of_never (fun h => ?_) ⟨rfl, by simp⟩ rfl rfl
      rw [h.inHand w m (.inl (by rw [htop]; exact List.mem_cons_self ..))] at hcor
      cases hcor
    · rw [if_neg (not_or.mpr ⟨hcancel, hcor⟩)]
      refine ⟨rfl, rfl, fun _ p => ?_, fun _ p => Run.entries_eq rfl NodeEntry.taskState p⟩
      by_cases hp : p = m
      · subst hp
        simp [Run.setStack, Run.setEntry, bodyAfter]
      · simp [Run.setStack, Run.setEntry, bodyAfter, hp]

theorem stepFrame_effect (htop : s.workers w = a :: rest)
    (hs : stepFrame g s w rest a = some s') : Effect g (frameEvent g s a) s s' := by
  have hordinary : PlainRun g s → a.ordinary := fun h =>
    h.ordinary.frame w a (by rw [htop]; exact List.mem_cons_self ..)
  cases a with
  | claimed m resume =>
    cases hs
    cases resume with
    | true => exact .of_never (fun h => by cases hordinary h) ⟨rfl, by simp [frameEvent]⟩ rfl rfl
    | false => exact enter_effect htop
  | cancelTask m =>
    cases hs
    obtain ⟨hposted, hcompletions⟩ := requestTaskCancel_posted s m
    refine .of_never (fun h => by cases hordinary h) ⟨?_, ?_⟩ hposted hcompletions
    · simp only [frameEvent]
      split <;> rfl
    · simp only [frameEvent]
      split <;> simp
  | code m => cases hs
  | check m suspended | decide m | decideCancel m =>
    simp only [stepFrame] at hs
    split at hs <;> cases hs <;>
      exact .of_same (.inl rfl) rfl rfl (fun _ => rfl) fun _ => rfl
  | readState m | countNode m | trigger m =>
    cases hs
    exact .of_same (.inl rfl) rfl rfl (fun _ => rfl) fun _ => rfl
  | storeOutcome m o e | countDown m o c more =>
    cases hs
    exact .of_same (.inl rfl) rfl rfl (fun p => Run.entries_eq rfl NodeEntry.body p)
      fun p => Run.entries_eq rfl NodeEntry.taskState p
  | record m o e =>
    cases hs
    exact .of_same (.inr rfl) rfl rfl (fun _ => rfl) fun _ => rfl
  | complete m =>
    cases hs
    exact ⟨rfl, rfl, fun _ _ => rfl, fun _ _ => rfl⟩
  | edges m o successors =>
    cases successors with
    | nil =>
      cases hs
      exact .of_same (.inl rfl) rfl rfl (fun _ => rfl) fun _ => rfl
    | cons c more =>
      simp only [stepFrame] at hs
      split at hs <;> cases hs
      · exact .of_same (.inl rfl) rfl rfl (fun p => Run.entries_eq rfl NodeEntry.body p)
          fun p => Run.entries_eq rfl NodeEntry.taskState p
      · exact .of_same (.inl rfl) rfl rfl (fun _ => rfl) fun _ => rfl
  | post m =>
    cases hs
    exact ⟨rfl, rfl, fun _ _ => rfl, fun _ _ => rfl⟩

theorem step_effect {b : GraphExecution.Label n k E} (hs : GraphExecution.step g s b = some s') :
    Effect g (event g s b) s s' := by
  cases b with
  | postRoot =>
    simp only [GraphExecution.step] at hs
    split at hs <;> cases hs
    rename_i m roots hroots
    simp only [event, hroots]
    exact ⟨rfl, rfl, fun _ _ => rfl, fun _ _ => rfl⟩
  | claim w m resume =>
    simp only [GraphExecution.step] at hs
    split at hs <;> cases hs
    exact .of_same (.inl rfl) rfl rfl (fun _ => rfl) fun _ => rfl
  | step w =>
    simp only [GraphExecution.step] at hs
    split at hs
    case h_1 frame rest htop =>
      have he : event g s (.step w) = frameEvent g s frame := by simp [event, htop]
      rw [he]
      exact stepFrame_effect htop hs
    case h_2 => cases hs
  | finish w result =>
    simp only [GraphExecution.step] at hs
    split at hs <;> cases hs
    case h_1 m rest htop =>
      simp only [event, htop]
      by_cases hcor : g.isCoroutineNode m = true
      · refine .of_never (fun h => ?_) ⟨rfl, by simp⟩ ?_ ?_
        · rw [h.inHand w m (.inr (by rw [htop]; exact List.mem_cons_self ..))] at hcor
          cases hcor
        · simp [GraphExecution.finish, hcor, Run.setStack, Run.setEntry]
        · simp [GraphExecution.finish, hcor, Run.setStack, Run.setEntry]
      · unfold GraphExecution.finish
        dsimp only
        rw [if_neg hcor]
        refine ⟨rfl, rfl, fun _ p => ?_, fun _ p => Run.entries_eq rfl NodeEntry.taskState p⟩
        by_cases hp : p = m
        · subst hp
          simp [Run.setStack, Run.setEntry, bodyAfter]
        · simp [Run.setStack, Run.setEntry, bodyAfter, hp]
  | suspend w =>
    simp only [GraphExecution.step] at hs
    split at hs
    case h_1 m rest htop =>
      split at hs <;> cases hs
      rename_i hcor
      refine .of_never (fun h => ?_) ⟨?_, ?_⟩ rfl rfl
      · rw [h.inHand w m (.inr (by rw [htop]; exact List.mem_cons_self ..))] at hcor
        cases hcor
      · simp only [event, htop]
        split <;> rfl
      · simp only [event, htop]
        split <;> simp
    case h_2 => cases hs
  | awake m =>
    simp only [GraphExecution.step] at hs
    split at hs <;> cases hs
    rename_i hbody
    exact .of_never (fun h => h.ordinary.awake m hbody) ⟨rfl, by simp [event]⟩ rfl rfl
  | requestCancel =>
    cases hs
    exact .of_same (.inl rfl) rfl rfl (fun _ => rfl) fun _ => rfl
  | cancelNode j =>
    simp only [GraphExecution.step] at hs
    split at hs <;> cases hs
    case h_1 m more hj =>
      simp only [event, hj]
      by_cases hcor : g.isCoroutineNode m = true
      · unfold Run.requestTaskCancel
        by_cases hready : (s.entries m).taskState = .ready
        · rw [if_pos ⟨hcor, hready⟩, if_pos hcor, if_pos hready]
          refine ⟨rfl, rfl, fun _ p => Run.entries_eq rfl NodeEntry.body p, fun _ p => ?_⟩
          by_cases hp : p = m
          · subst hp
            simp [Run.setEntry, stateAfter]
          · simp [Run.setEntry, stateAfter, hp]
        · rw [if_neg fun hboth => hready hboth.2, if_pos hcor, if_neg hready]
          exact .of_same (.inl rfl) rfl rfl (fun _ => rfl) fun _ => rfl
      · rw [if_neg fun hboth => hcor hboth.1, if_neg hcor]
        exact .of_same (.inl rfl) rfl rfl (fun _ => rfl) fun _ => rfl
    case h_2 hj =>
      simp only [event, hj]
      exact .of_same (.inl rfl) rfl rfl (fun _ => rfl) fun _ => rfl

/-! ## When an event happens -/

/-- The events of a run that posts ordinary nodes only, and when they happen. -/
inductive Fires (g : FrozenTaskGraph n) (s : Run n k E) (b : GraphExecution.Label n k E) :
    Event n → Prop
  | published {m : Fin n} (hposted : m ∉ s.posted) : Fires g s b (.published m)
  | firstStart {m : Fin n} (hcold : GraphExecution.Cold s m) (hposted : m ∈ s.posted)
      (hord : g.isCoroutineNode m = false) : Fires g s b (.firstStart m)
  | outcome {m : Fin n} (w : Fin k) (rest : List (Frame n E)) (result : BodyResult E)
      (hb : b = .finish w result) (htop : s.workers w = .code m :: rest)
      (hbody : (s.entries m).body = .running) (hord : g.isCoroutineNode m = false) :
      Fires g s b (.outcome m (completion result))
  | cancelledBeforeStart {m : Fin n} (hcor : g.isCoroutineNode m = true)
      (hready : (s.entries m).taskState = .ready) : Fires g s b (.cancelledBeforeStart m true)
  | nodeTerminal : Fires g s b .nodeTerminal
  | runCompleted (hpos : 0 < n) (hcompletions : s.completions = []) : Fires g s b .runCompleted

/-- A node that is about to be posted has not been. -/
theorem not_posted {m : Fin n} (h : PlainRun g s)
    (hm : 0 < s.roots.count m + weight (Frame.deciding m) s.workers) : m ∉ s.posted := by
  have hposted := h.books.ledger.posted m
  have htoken := h.books.ledger.token_le m
  intro hmem
  have hpos := List.count_pos_iff.mpr hmem
  omega

theorem frame_fires {b : GraphExecution.Label n k E} {e : Event n} (h : PlainRun g s)
    (htop : s.workers w = a :: rest) (he : frameEvent g s a = some e) : Fires g s b e := by
  have hmem : a ∈ s.workers w := by
    rw [htop]
    exact List.mem_cons_self ..
  have hordinary := h.ordinary.frame w a hmem
  cases a with
  | claimed m resume =>
    cases resume with
    | true => cases hordinary
    | false =>
      simp only [frameEvent] at he
      split at he <;> cases he
      obtain ⟨hcold, hposted⟩ := h.claimed_cold hmem
      exact .firstStart hcold hposted (h.plain m hposted)
  | cancelTask m => cases hordinary
  | record m o ex =>
    cases he
    exact .nodeTerminal
  | complete m =>
    cases he
    have hcompletion := h.books.ledger.completion
    have hle := le_weight (f := Frame.completing) hmem
    have hone : Frame.completing (.complete m : Frame n E) = 1 := rfl
    split at hcompletion
    · rename_i hzero
      exact .runCompleted hzero.2 (List.length_eq_zero_iff.mp (by omega))
    · omega
  | post m =>
    cases he
    refine .published (not_posted h ?_)
    have hle := le_weight (f := Frame.deciding m) hmem
    simp only [Frame.deciding, if_true] at hle
    omega
  | code m | check m suspended | readState m | storeOutcome m o ex | countNode m | trigger m
  | edges m o successors | countDown m o c more | decide m | decideCancel m => cases he

theorem fires {b : GraphExecution.Label n k E} {e : Event n} (h : PlainRun g s)
    (hs : GraphExecution.step g s b = some s') (he : event g s b = some e) : Fires g s b e := by
  cases b with
  | postRoot =>
    simp only [event] at he
    obtain ⟨m, hhead, rfl⟩ := Option.map_eq_some_iff.mp he
    refine .published (not_posted h ?_)
    have hpos := List.count_pos_iff.mpr (List.mem_of_head? hhead)
    omega
  | step w =>
    cases htop : s.workers w with
    | nil => simp [event, htop] at he
    | cons frame rest =>
      simp only [event, htop, List.head?_cons, Option.bind_some] at he
      exact frame_fires h htop he
  | finish w result =>
    simp only [event] at he
    split at he <;> cases he
    rename_i m rest htop
    have hmem : .code m ∈ s.workers w := by
      rw [htop]
      exact List.mem_cons_self ..
    exact .outcome w rest result rfl htop (h.code_running hmem).1 (h.inHand w m (.inr hmem))
  | suspend w =>
    simp only [GraphExecution.step] at hs
    split at hs
    case h_1 m rest htop =>
      split at hs
      case isTrue hcor =>
        rw [h.inHand w m (.inr (by rw [htop]; exact List.mem_cons_self ..))] at hcor
        cases hcor
      case isFalse => cases hs
    case h_2 => cases hs
  | cancelNode j =>
    simp only [event] at he
    split at he
    · split at he
      · rename_i hboth
        cases he
        exact .cancelledBeforeStart hboth.1 hboth.2
      · cases he
    · cases he
  | claim w m resume | awake m | requestCancel => cases he

end Effect

/-! ## The stages of the nodes -/

section Stages
variable {n k : Nat} {E : Type} {g : FrozenTaskGraph n} {deadline : Fin n → Option Nat}
variable {x x' : MeteredRun n k E} {m p : Fin n} {level : MetricsLevel}

/-- The stage of an ordinary node. -/
def bodyStage (posted : Bool) (completion : Completion) : BodyState → Stage
  | .running => .running
  | .finished => .completed completion
  | .unstarted | .suspended | .resuming => .ready posted

/-- Where the books have node `m`, as long as no coroutine node is posted. -/
def MeteredRun.stage (g : FrozenTaskGraph n) (x : MeteredRun n k E) (m : Fin n) : Stage :=
  if g.isCoroutineNode m then
    if (x.run.entries m).taskState = .cancelled then .cancelledBeforeStart false else .ready false
  else bodyStage (decide (m ∈ x.run.posted)) (x.completion m) (x.run.entries m).body

def MeteredRun.standing (g : FrozenTaskGraph n) (deadline : Fin n → Option Nat)
    (x : MeteredRun n k E) (m : Fin n) : Standing :=
  ⟨x.stage g m, (deadline m).isSome, x.deadlineDisposition m⟩

/-- What is still to be recorded of a node. -/
def MeteredRun.pending (x : MeteredRun n k E) (m : Fin n) : List Update := x.left m ++ x.cancelLeft m

/-- The record of a node agrees with its stage. -/
structure NodeSound (g : FrozenTaskGraph n) (deadline : Fin n → Option Nat)
    (x : MeteredRun n k E) (m : Fin n) : Prop where
  recorded : ∃ r ∈ (x.standing g deadline m).records, x.pending m <:+ r
  settled : (x.stage g m).started = false → (x.stage g m).terminal = false → x.pending m = []
  left : g.isCoroutineNode m = true → x.left m = []
  cancelLeft : g.isCoroutineNode m = false → x.cancelLeft m = []
  unjudged : (x.stage g m).started = false → x.deadlineDisposition m = .none
  judged : (x.stage g m).started → (deadline m).isSome → x.deadlineDisposition m ≠ .none
  /-- The control block of a coroutine node can only have been cancelled. -/
  state : (x.run.entries m).taskState = .ready ∨ (x.run.entries m).taskState = .cancelled

structure RunKept (g : FrozenTaskGraph n) (deadline : Fin n → Option Nat) (level : MetricsLevel)
    (x : MeteredRun n k E) : Prop where
  plain : PlainRun g x.run
  node : ∀ m, NodeSound g deadline x m
  off : level = .off → ∀ m, x.pending m = []

/-- The node stays where it is. -/
structure SameNode (g : FrozenTaskGraph n) (x x' : MeteredRun n k E) (m : Fin n) : Prop where
  stage : x'.stage g m = x.stage g m
  disposition : x'.deadlineDisposition m = x.deadlineDisposition m
  left : x'.left m = x.left m
  cancelLeft : x'.cancelLeft m = x.cancelLeft m
  state : (x'.run.entries m).taskState = (x.run.entries m).taskState

theorem SameNode.standing (h : SameNode g x x' m) :
    x'.standing g deadline m = x.standing g deadline m := by
  rw [MeteredRun.standing, h.stage, h.disposition, MeteredRun.standing]

theorem SameNode.pending (h : SameNode g x x' m) : x'.pending m = x.pending m := by
  rw [MeteredRun.pending, h.left, h.cancelLeft, MeteredRun.pending]

theorem NodeSound.same (h : NodeSound g deadline x m) (hs : SameNode g x x' m) :
    NodeSound g deadline x' m where
  recorded := by
    rw [hs.standing, hs.pending]
    exact h.recorded
  settled := by
    rw [hs.stage, hs.pending]
    exact h.settled
  left := by
    rw [hs.left]
    exact h.left
  cancelLeft := by
    rw [hs.cancelLeft]
    exact h.cancelLeft
  unjudged := by
    rw [hs.stage, hs.disposition]
    exact h.unjudged
  judged := by
    rw [hs.stage, hs.disposition]
    exact h.judged
  state := by
    rw [hs.state]
    exact h.state

/-- The stage depends on what the books see of a node. -/
theorem stage_congr (hstate : (x'.run.entries m).taskState = (x.run.entries m).taskState)
    (hbody : (x'.run.entries m).body = (x.run.entries m).body)
    (hcompletion : x'.completion m = x.completion m)
    (hposted : m ∈ x'.run.posted ↔ m ∈ x.run.posted) : x'.stage g m = x.stage g m := by
  have hdecide : decide (m ∈ x'.run.posted) = decide (m ∈ x.run.posted) := by
    simp only [hposted]
  rw [MeteredRun.stage, MeteredRun.stage, hstate, hbody, hcompletion, hdecide]

/-- Of an ordinary node the body says how far it has got, -/
theorem stage_ordinary (hord : g.isCoroutineNode m = false) {body : BodyState}
    (hbody : (x.run.entries m).body = body) :
    x.stage g m = bodyStage (decide (m ∈ x.run.posted)) (x.completion m) body := by
  rw [MeteredRun.stage, hord, if_neg Bool.false_ne_true, hbody]

/-- and of a coroutine node the control block. -/
theorem stage_coroutine (hcor : g.isCoroutineNode m = true) : x.stage g m =
    if (x.run.entries m).taskState = .cancelled then .cancelledBeforeStart false
    else .ready false := by
  rw [MeteredRun.stage, if_pos hcor]

theorem standing_of {stage : Stage} (h : x.stage g m = stage) :
    x.standing g deadline m = ⟨stage, (deadline m).isSome, x.deadlineDisposition m⟩ := by
  rw [MeteredRun.standing, h]

end Stages

end GraphMetrics
end AstraScheduler
