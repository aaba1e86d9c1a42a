import AstraScheduler.GraphSound

/-! # Safety of graph runs

What the books say of a run: every node is posted, marked and triggered at most once and
starts after its predecessors; a run completes once, with every node terminal and a report
that adds up; and a run that has nothing left to do is complete, since the graph has no
cycle to wait in. -/

namespace AstraScheduler
namespace GraphExecution

open WorkStacks
open Transition (Machine)

variable {n k : Nat} {E : Type} {g : FrozenTaskGraph n} {s s' : Run n k E}
variable {w : Fin k} {a : Frame n E} {rest : List (Frame n E)} {m : Fin n}

/-- What holds of a run that has completed. -/
structure RunCompleted (s : Run n k E) : Prop where
  terminal : ∀ m, (s.entries m).outcome.terminal
  marked : ∀ m, (s.marks.map Prod.fst).count m = 1
  total : s.report.succeededNodes + s.report.failedNodes + s.report.cancelledNodes = n
  counts : ∀ outcome, outcome.terminal → s.report.count outcome =
    (List.finRange n).countP fun m => (s.entries m).outcome = outcome
  /-- The failures are sorted by node, with one entry for each. -/
  sorted : (s.report.failedNodeExceptions.map Prod.fst).Pairwise (· < ·)
  failures : ∀ m, m ∈ s.report.failedNodeExceptions.map Prod.fst ↔ (s.entries m).outcome = .failed
  failed : s.runState = .failed ↔ ∃ m, (s.entries m).outcome = .failed
  cancelled : s.runState = .cancelled ↔
    (∀ m, (s.entries m).outcome ≠ .failed) ∧ ∃ m, (s.entries m).outcome = .cancelled
  succeeded : s.runState = .succeeded ↔ ∀ m, (s.entries m).outcome = .succeeded

/-- Nobody has anything left to do for the run. -/
structure Run.Idle (s : Run n k E) : Prop where
  roots : s.roots = []
  queue : s.queue = []
  workers : ∀ w, s.workers w = []

structure RunSafety (g : FrozenTaskGraph n) (s : Run n k E) : Prop where
  posted : ∀ m, s.posted.count m ≤ 1
  started : ∀ m ∈ s.started, ∀ e ∈ g.edges, e.successor = m →
    (s.entries e.predecessor).outcome.terminal
  marked : ∀ m, (s.marks.map Prod.fst).count m ≤ 1
  /-- The run state is stored at most once, -/
  stored : s.completions.length ≤ 1
  left : s.runState ≠ .running → 0 < n → s.completions = [s.runState]
  /-- and only over a completed run. -/
  completed : s.runState ≠ .running → RunCompleted s
  idle : s.Idle → s.runState ≠ .running

/-! ## The state a report gives a run -/

namespace GraphReport
variable (r : GraphReport n E)

theorem runState_failed : r.runState = .failed ↔ 0 < r.failedNodes := by
  unfold runState
  split
  · simp [*]
  · split <;> simp [*]

theorem runState_cancelled :
    r.runState = .cancelled ↔ ¬ 0 < r.failedNodes ∧ 0 < r.cancelledNodes := by
  unfold runState
  split
  · simp [*]
  · split <;> simp [*]

theorem runState_succeeded :
    r.runState = .succeeded ↔ ¬ 0 < r.failedNodes ∧ ¬ 0 < r.cancelledNodes := by
  unfold runState
  split
  · simp [*]
  · split <;> simp [*]

theorem runState_ne_running : r.runState ≠ .running := by
  unfold runState
  split
  · exact GraphRunState.noConfusion
  · split <;> exact GraphRunState.noConfusion

end GraphReport

/-! ## Lists of marks -/

theorem countP_terminal {marks : List (Fin n × TaskState)} (h : ∀ c ∈ marks, c.2.terminal) :
    marks.countP (fun c => c.2 = .succeeded) + marks.countP (fun c => c.2 = .failed) +
      marks.countP (fun c => c.2 = .cancelled) = marks.length := by
  induction marks with
  | nil => rfl
  | cons c marks ih =>
    obtain ⟨m, o⟩ := c
    have hrest := ih fun c hc => h c (List.mem_cons_of_mem _ hc)
    have hterm : o.terminal := h (m, o) (List.mem_cons_self ..)
    cases o <;> simp only [TaskState.terminal, Bool.false_eq_true] at hterm <;>
      simp only [List.countP_cons, List.length_cons, decide_true, decide_false, reduceCtorEq,
        if_true, Bool.false_eq_true, if_false] <;> omega

theorem mem_of_length {l : List (Fin n)} (hnodup : l.Nodup) (hlen : l.length = n) (m : Fin n) :
    m ∈ l := by
  have hcard : l.toFinset.card = Fintype.card (Fin n) := by
    rw [List.toFinset_card_of_nodup hnodup, hlen, Fintype.card_fin]
  have huniv := Finset.eq_univ_of_card _ hcard
  rw [← List.mem_toFinset, huniv]
  exact Finset.mem_univ m

namespace Books

theorem nodup_marks (h : Books g s) : (s.marks.map Prod.fst).Nodup :=
  List.nodup_iff_count_le_one.mpr h.ledger.marks_le

/-- When the last node is counted off, every node is marked and in the report. -/
theorem all_counted (h : Books g s) (hzero : s.remainingNodes = 0) :
    s.marks.length = n ∧ weight Frame.counting s.workers = 0 := by
  have hnodes := h.ledger.nodes
  have hlen := h.ledger.marks_length_le
  omega

/-- All nodes are marked, each with its outcome. -/
theorem marks_perm (h : Books g s) (hlen : s.marks.length = n) :
    s.marks.Perm ((List.finRange n).map fun m => (m, (s.entries m).outcome)) := by
  have hall := mem_of_length h.nodup_marks (by rw [List.length_map, hlen])
  refine (List.perm_ext_iff_of_nodup h.nodup_marks.of_map ?_).mpr fun c => ?_
  · refine (List.nodup_finRange n).map fun p q hpq => ?_
    exact (Prod.mk.inj hpq).1
  · constructor
    · intro hc
      exact List.mem_map.mpr ⟨c.1, List.mem_finRange _, Prod.ext rfl (h.sound.marks c.1 c.2 hc).2⟩
    · intro hc
      obtain ⟨m, -, rfl⟩ := List.mem_map.mp hc
      obtain ⟨⟨p, o⟩, hmem, rfl⟩ := List.mem_map.mp (hall m)
      rw [(h.sound.marks p o hmem).2]
      exact hmem

theorem runState_eq (h : Books g s) (hne : s.runState ≠ .running) :
    s.remainingNodes = 0 ∧ s.runState = s.report.runState ∧
      s.report.failedNodeExceptions.Pairwise fun a b => a.1 ≤ b.1 := by
  have hstate := h.ledger.runState
  cases hc : s.completions with
  | cons r more =>
    have hr : r ∈ s.completions := by
      rw [hc]
      exact List.mem_cons_self ..
    obtain ⟨heq, hsorted⟩ := h.ledger.completed r hr
    refine ⟨h.ledger.remainingNodes_eq_zero hr, ?_, hsorted⟩
    rw [hstate, hc, ← heq]
    rfl
  | nil =>
    -- an empty graph
    rw [hc] at hstate
    simp only [List.head?_nil, Option.getD_none] at hstate
    split at hstate
    case isFalse => exact absurd hstate hne
    case isTrue hn =>
      subst hn
      have hmarks : s.marks = [] := by
        rw [List.eq_nil_iff_forall_not_mem]
        rintro ⟨m, _⟩
        exact m.elim0
      have hexceptions : s.report.failedNodeExceptions = [] := by
        rw [List.eq_nil_iff_forall_not_mem]
        rintro ⟨m, _⟩
        exact m.elim0
      have hcounting : weight Frame.counting s.workers = 0 := by
        by_contra hpos
        obtain ⟨i, a, -, ha⟩ := exists_of_weight_pos (Nat.pos_of_ne_zero hpos)
        cases a with
        | record m _ _ => exact m.elim0
        | countNode m => exact m.elim0
        | _ => simp [Frame.counting] at ha
      have hnodes := h.ledger.nodes
      have hreport := fun o ho => h.ledger.report o ho
      rw [hmarks, hcounting] at hnodes
      rw [hmarks] at hreport
      have hfailed := hreport .failed rfl
      have hcancelled := hreport .cancelled rfl
      simp only [GraphReport.count, List.countP_nil] at hfailed hcancelled
      refine ⟨by simpa using hnodes, ?_, by rw [hexceptions]; exact List.Pairwise.nil⟩
      rw [hstate, GraphReport.runState, if_neg (by omega), if_neg (by omega)]

/-- When all nodes are counted off, all marks are in the report. -/
theorem report_of_counted (h : Books g s) (hcounting : weight Frame.counting s.workers = 0) :
    (∀ outcome, outcome.terminal → s.report.count outcome =
      s.marks.countP fun c => c.2 = outcome) ∧
    ∀ m, (s.report.failedNodeExceptions.map Prod.fst).count m = s.marks.count (m, .failed) := by
  have hrecording : ∀ o, weight (Frame.recording o) s.workers ≤ 0 := by
    intro o
    refine (weight_mono (fun a => ?_) s.workers).trans (Nat.le_of_eq hcounting)
    cases a with
    | record m o' _ =>
      dsimp only [Frame.recording, Frame.counting]
      split <;> omega
    | _ => exact Nat.zero_le _
  have hfailing : ∀ m, weight (Frame.failing m) s.workers ≤ 0 := by
    intro m
    refine (weight_mono (fun a => ?_) s.workers).trans (hrecording .failed)
    cases a with
    | record p o' _ =>
      cases o' with
      | failed =>
        dsimp only [Frame.recording, Frame.failing]
        split <;> simp
      | _ => exact Nat.zero_le _
    | _ => exact Nat.le_refl _
  refine ⟨fun o ho => ?_, fun m => ?_⟩
  · have hreport := h.ledger.report o ho
    have hzero := hrecording o
    omega
  · have hfailures := h.ledger.failures m
    have hzero := hfailing m
    omega

theorem succeeded_iff_terminal {o : TaskState} (h : o.terminal) :
    ¬ o = .failed ∧ ¬ o = .cancelled ↔ o = .succeeded := by
  cases o with
  | succeeded => simp
  | failed | cancelled => simp
  | _ => cases h

/-- **A run that has left Running is complete.** -/
theorem runCompleted (h : Books g s) (hne : s.runState ≠ .running) : RunCompleted s := by
  obtain ⟨hzero, hstate, hsorted⟩ := h.runState_eq hne
  obtain ⟨hlen, hcounting⟩ := h.all_counted hzero
  obtain ⟨hreport, hfailures⟩ := h.report_of_counted hcounting
  have hperm := h.marks_perm hlen
  have hall := mem_of_length h.nodup_marks (by rw [List.length_map, hlen])
  have hmark : ∀ m o, (m, o) ∈ s.marks ↔ (s.entries m).outcome = o := by
    intro m o
    rw [hperm.mem_iff]
    simp
  have hterm : ∀ c ∈ s.marks, c.2.terminal := fun c hc => (h.sound.marks c.1 c.2 hc).1
  have hcounts : ∀ o, o.terminal → s.report.count o =
      (List.finRange n).countP fun m => (s.entries m).outcome = o := by
    intro o ho
    rw [hreport o ho, hperm.countP_eq, List.countP_map]
    rfl
  have hfailed : 0 < s.report.failedNodes ↔ ∃ m, (s.entries m).outcome = .failed := by
    have heq := hcounts .failed rfl
    simp only [GraphReport.count] at heq
    simp [heq, List.countP_pos_iff]
  have hcancelled : 0 < s.report.cancelledNodes ↔ ∃ m, (s.entries m).outcome = .cancelled := by
    have heq := hcounts .cancelled rfl
    simp only [GraphReport.count] at heq
    simp [heq, List.countP_pos_iff]
  refine ⟨fun m => ?_, fun m => ?_, ?_, hcounts, ?_, fun m => ?_, ?_, ?_, ?_⟩
  · exact hterm _ ((hmark m _).mpr rfl)
  · exact List.count_eq_one_of_mem h.nodup_marks (hall m)
  · have hsum := countP_terminal hterm
    have hs := hreport .succeeded rfl
    have hf := hreport .failed rfl
    have hc := hreport .cancelled rfl
    simp only [GraphReport.count] at hs hf hc
    omega
  · -- sorted, and no node twice
    have hnodup : (s.report.failedNodeExceptions.map Prod.fst).Nodup := by
      refine List.nodup_iff_count_le_one.mpr fun m => ?_
      rw [hfailures]
      exact List.nodup_iff_count_le_one.mp h.nodup_marks.of_map _
    have hle := List.pairwise_map.mpr hsorted
    exact (hle.and hnodup).imp fun hlt => lt_of_le_of_ne hlt.1 hlt.2
  · rw [← List.count_pos_iff, hfailures, List.count_pos_iff, hmark]
  · rw [hstate, GraphReport.runState_failed, hfailed]
  · rw [hstate, GraphReport.runState_cancelled, hfailed, hcancelled, not_exists]
  · rw [hstate, GraphReport.runState_succeeded, hfailed, hcancelled, not_exists, not_exists,
      ← forall_and]
    exact forall_congr' fun m => succeeded_iff_terminal (hterm _ ((hmark m _).mpr rfl))

/-! ## Runs with nothing left to do -/

/-- With nothing in hand and no coroutine suspended, every node is triggered: a node whose
predecessors are has a place, and there is no other. -/
theorem all_triggered (h : Books g s) (hidle : s.Idle)
    (hawake : ∀ m, (s.entries m).body ≠ .suspended) (m : Fin n) : m ∈ s.triggered := by
  induction m using g.acyclic.induction with
  | _ m ih =>
    have hzero : (s.entries m).remainingPredecessors = 0 := by
      have hedges := h.ledger.edges m
      rw [weight_empty _ hidle.workers, sum_edgesBetween h.ledger.nodup_triggered] at hedges
      have hall : g.edges.countP (fun e => e.successor = m ∧ e.predecessor ∈ s.triggered) =
          g.indegree m := by
        refine List.countP_congr fun e he => ?_
        simp only [decide_eq_true_eq, and_iff_left_iff_imp]
        exact fun hm => ih e.predecessor ⟨e, he, rfl, hm⟩
      omega
    have htoken := h.ledger.token m
    rw [if_pos hzero, tokens, hidle.roots, hidle.queue, weight_empty _ hidle.workers,
      if_neg (hawake m)] at htoken
    exact List.count_pos_iff.mp (by simpa using htoken.ge)

/-- **A run with nothing left to do is complete.** -/
theorem idle_completed (h : Books g s) (hidle : s.Idle)
    (hawake : ∀ m, (s.entries m).body ≠ .suspended) : s.runState ≠ .running := by
  have hmarked : ∀ m, m ∈ s.marks.map Prod.fst := by
    intro m
    have hmarks := h.ledger.marks m
    have hpos := List.count_pos_iff.mpr (h.all_triggered hidle hawake m)
    exact List.count_pos_iff.mp (by omega)
  have hlen : n ≤ s.marks.length := by
    have hle := (List.nodup_finRange n).length_le_of_subset fun m _ => hmarked m
    simpa using hle
  have hnodes := h.ledger.nodes
  have hcompletion := h.ledger.completion
  have hmarksLe := h.ledger.marks_length_le
  have hstate := h.ledger.runState
  rw [weight_empty _ hidle.workers] at hnodes hcompletion
  cases hc : s.completions with
  | nil =>
    rw [hc] at hcompletion hstate
    have hn : n = 0 := by
      by_contra hn
      rw [if_pos ⟨by omega, Nat.pos_of_ne_zero hn⟩] at hcompletion
      simp at hcompletion
    simp [hstate, hn]
  | cons r more =>
    obtain ⟨heq, -⟩ := h.ledger.completed r (by rw [hc]; exact List.mem_cons_self ..)
    rw [hstate, hc, List.head?_cons, Option.getD_some, heq]
    exact GraphReport.runState_ne_running _

theorem completions_le (h : Books g s) : s.completions.length ≤ 1 := by
  have hcompletion := h.ledger.completion
  split at hcompletion <;> omega

/-- A body has started only after the predecessors of its node were marked. -/
theorem started_after (h : Books g s) {m : Fin n} (hm : m ∈ s.started) {e : GraphEdge n}
    (he : e ∈ g.edges) (hem : e.successor = m) : (s.entries e.predecessor).outcome.terminal := by
  have htriggered := h.ledger.predecessors_triggered (h.ledger.started m hm) e he hem
  have hmarks := h.ledger.marks e.predecessor
  have hpos := List.count_pos_iff.mpr htriggered
  obtain ⟨⟨p, o⟩, hmem, hp⟩ := List.mem_map.mp
    (List.count_pos_iff.mp (show 0 < (s.marks.map Prod.fst).count e.predecessor by omega))
  obtain ⟨hterm, hout⟩ := h.sound.marks p o hmem
  rw [← hp, hout]
  exact hterm

theorem runSafety (h : Books g s) (hawake : s.Idle → ∀ m, (s.entries m).body ≠ .suspended) :
    RunSafety g s where
  posted := by
    intro m
    have hposted := h.ledger.posted m
    have htoken := h.ledger.token_le m
    omega
  started := fun m hm e he hem => h.started_after hm he hem
  marked := h.ledger.marks_le
  stored := h.completions_le
  left := by
    intro hne hn
    have hstate := h.ledger.runState
    have hlen := h.completions_le
    rw [if_neg hn.ne'] at hstate
    match hc : s.completions with
    | [] => exact absurd (by rw [hstate, hc]; rfl) hne
    | [r] => rw [hstate, hc]; rfl
    | _ :: _ :: _ => simp [hc] at hlen
  completed := h.runCompleted
  idle := fun hidle => h.idle_completed hidle (hawake hidle)

end Books

/-! ## Graphs of ordinary nodes -/

/-- A frame that runs for an ordinary node. -/
def Frame.ordinary : Frame n E → Bool
  | .claimed _ true | .cancelTask _ | .check _ _ | .readState _ => false
  | _ => true

/-- Nothing of a coroutine is under way. -/
structure Ordinary (s : Run n k E) : Prop where
  frame : ∀ w, ∀ a ∈ s.workers w, a.ordinary
  queue : ∀ c ∈ s.queue, c.2 = false
  awake : ∀ m, (s.entries m).body ≠ .suspended

namespace Ordinary

theorem of_top {l : List (Frame n E)} (h : Ordinary s) (htop : s.workers w = a :: rest)
    (hw : s'.workers = Function.update s.workers w (l ++ rest)) (hqueue : s'.queue = s.queue)
    (hnew : ∀ b ∈ l, b.ordinary) (hawake : ∀ m, (s'.entries m).body ≠ .suspended) :
    Ordinary s' := by
  refine ⟨fun v b hb => ?_, hqueue ▸ h.queue, hawake⟩
  rw [hw] at hb
  rcases mem_replace hb with hb | hb
  · exact hnew b hb
  · exact h.frame v b (mem_of_mem_rest htop hb)

theorem setEntry (h : Ordinary s) {entry : NodeEntry E} (hbody : entry.body ≠ .suspended)
    (p : Fin n) : ((s.setEntry m entry).entries p).body ≠ .suspended := by
  by_cases hp : p = m
  · subst hp
    simpa [Run.setEntry] using hbody
  · simpa [Run.setEntry, hp] using h.awake p

theorem stepFrame (h : Ordinary s) (hord : ∀ m, a = .claimed m false → g.isCoroutineNode m = false)
    (htop : s.workers w = a :: rest) (hs : stepFrame g s w rest a = some s') : Ordinary s' := by
  have ha : a.ordinary := h.frame w a (by rw [htop]; exact List.mem_cons_self ..)
  cases a with
  | claimed m resume =>
    cases hs
    unfold enter
    cases resume with
    | true => simp [Frame.ordinary] at ha
    | false =>
      rw [if_neg Bool.false_ne_true, hord m rfl]
      dsimp only
      split
      · rw [if_neg Bool.false_ne_true]
        exact h.of_top (l := [_]) htop rfl rfl (by simp [Frame.ordinary]) h.awake
      · exact h.of_top (l := [_]) htop rfl rfl (by simp [Frame.ordinary])
          (h.setEntry BodyState.noConfusion)
  | cancelTask m | check m suspended | readState m => simp [Frame.ordinary] at ha
  | code m => cases hs
  | storeOutcome m o e =>
    cases hs
    exact h.of_top (l := [_]) htop rfl rfl (by simp [Frame.ordinary]) (h.setEntry (h.awake m))
  | record m o e | complete m | trigger m =>
    cases hs
    exact h.of_top (l := [_]) htop rfl rfl (by simp [Frame.ordinary]) h.awake
  | countNode m =>
    cases hs
    refine h.of_top (l := [_]) htop rfl rfl ?_ h.awake
    simp only [List.mem_singleton, forall_eq]
    split <;> rfl
  | edges m o successors =>
    cases successors with
    | nil =>
      cases hs
      exact h.of_top (l := []) htop rfl rfl (by simp) h.awake
    | cons c more =>
      simp only [GraphExecution.stepFrame] at hs
      split at hs <;> cases hs
      · exact h.of_top (l := [_]) htop rfl rfl (by simp [Frame.ordinary]) (h.setEntry (h.awake c.1))
      · exact h.of_top (l := [_]) htop rfl rfl (by simp [Frame.ordinary]) h.awake
  | countDown m o c more =>
    cases hs
    refine h.of_top (l := (if (s.entries c).remainingPredecessors = 1 then [Frame.decide c]
      else []) ++ [Frame.edges m o more]) htop (by simp [Run.setStack, Run.setEntry]) rfl
      (fun b hb => ?_) (h.setEntry (h.awake c))
    rcases List.mem_append.mp hb with hb | hb
    · split at hb
      · obtain rfl := List.mem_singleton.mp hb
        rfl
      · cases hb
    · obtain rfl := List.mem_singleton.mp hb
      rfl
  | decide m | decideCancel m =>
    simp only [GraphExecution.stepFrame] at hs
    split at hs <;> cases hs <;>
      exact h.of_top (l := [_]) htop rfl rfl (by simp [Frame.ordinary]) h.awake
  | post m =>
    cases hs
    refine ⟨fun v b hb => h.frame v b ?_, fun c hc => ?_, h.awake⟩
    · exact mem_of_mem_rest htop hb
    · rcases List.mem_append.mp hc with hc | hc
      · exact h.queue c hc
      · rw [List.mem_singleton.mp hc]

/-- Workers that have the invokers and the code of ordinary nodes only in hand keep it so. -/
theorem step {a : Label n k E} (h : Ordinary s) (hord : ∀ w, ∀ m, .claimed m false ∈ s.workers w ∨
      .code m ∈ s.workers w → g.isCoroutineNode m = false)
    (hs : step g s a = some s') : Ordinary s' := by
  cases a with
  | postRoot =>
    simp only [GraphExecution.step] at hs
    split at hs <;> cases hs
    refine ⟨h.frame, fun c hc => ?_, h.awake⟩
    rcases List.mem_append.mp hc with hc | hc
    · exact h.queue c hc
    · rw [List.mem_singleton.mp hc]
  | claim w m resume =>
    simp only [GraphExecution.step] at hs
    split at hs
    case isFalse => cases hs
    case isTrue hq =>
      cases hs
      refine ⟨fun v b hb => ?_, fun c hc => h.queue c (List.mem_of_mem_erase hc), h.awake⟩
      dsimp only [Run.setStack] at hb
      by_cases hv : v = w
      · subst hv
        rw [Function.update_self] at hb
        rcases List.mem_cons.mp hb with rfl | hb
        · have hresume : resume = false := h.queue _ hq.1
          subst hresume
          rfl
        · exact h.frame v b hb
      · rw [Function.update_of_ne hv] at hb
        exact h.frame v b hb
  | step w =>
    simp only [GraphExecution.step] at hs
    split at hs
    case h_1 frame rest htop =>
      refine h.stepFrame (fun m ha => hord w m (.inl ?_)) htop hs
      rw [htop, ha]
      exact List.mem_cons_self ..
    case h_2 => cases hs
  | finish w result =>
    simp only [GraphExecution.step] at hs
    split at hs <;> cases hs
    case h_1 m rest htop =>
      unfold finish
      dsimp only
      rw [hord w m (.inr (by rw [htop]; exact List.mem_cons_self ..)), if_neg Bool.false_ne_true]
      exact h.of_top (l := [_]) htop rfl rfl (by simp [Frame.ordinary])
        (h.setEntry BodyState.noConfusion)
  | suspend w =>
    simp only [GraphExecution.step] at hs
    split at hs
    case h_1 m rest htop =>
      rw [hord w m (.inr (by rw [htop]; exact List.mem_cons_self ..)),
        if_neg Bool.false_ne_true] at hs
      cases hs
    case h_2 => cases hs
  | awake m =>
    simp only [GraphExecution.step] at hs
    rw [if_neg (h.awake m)] at hs
    cases hs
  | requestCancel =>
    cases hs
    exact ⟨h.frame, h.queue, h.awake⟩
  | cancelNode j =>
    simp only [GraphExecution.step] at hs
    split at hs <;> cases hs
    case h_1 m rest hj =>
      split
      · have hsame := SameButState.requestTaskCancel s m
        refine ⟨hsame.workers ▸ h.frame, hsame.queue ▸ h.queue, fun p => ?_⟩
        rw [hsame.body]
        exact h.awake p
      · exact ⟨h.frame, h.queue, h.awake⟩
    case h_2 hj => exact ⟨h.frame, h.queue, h.awake⟩

theorem checksInTime (h : Ordinary s) (a : Label n k E) : ChecksInTime s a := by
  cases a with
  | step w =>
    simp only [ChecksInTime, GraphExecution.checksInTime]
    split
    case h_1 m more htop =>
      have ha := h.frame w (.check m true) (by rw [htop]; exact List.mem_cons_self ..)
      simp [Frame.ordinary] at ha
    case h_2 => rfl
  | _ => rfl

theorem initial : Ordinary (initial g : Run n k E) :=
  ⟨fun _ _ ha => (List.not_mem_nil ha).elim, fun _ hc => (List.not_mem_nil hc).elim,
    fun _ => BodyState.noConfusion⟩

/-- Runs of ordinary graphs keep ordinary, so there are no completions to see. -/
theorem of_reachable (hord : ∀ m, g.isCoroutineNode m = false) (h : (machine g k E).Reachable s) :
    Ordinary s ∧ (machine g k E).ReachableUnder ChecksInTime s := by
  induction h with
  | initial hs =>
    cases hs
    exact ⟨initial, .initial rfl⟩
  | step hr _ hn ih => exact ⟨ih.1.step (fun _ m _ => hord m) hn, ih.2.step (ih.1.checksInTime _) hn⟩

end Ordinary

/-- **Safety of graph runs.**  For every graph of ordinary nodes, on any number of workers, in
whatever order they run and with any number of calls of `request_cancel`. -/
theorem runSafety_of_reachable (hord : ∀ m, g.isCoroutineNode m = false)
    (h : (machine g k E).Reachable s) : RunSafety g s := by
  obtain ⟨hordinary, hreach⟩ := Ordinary.of_reachable hord h
  exact (Books.of_reachable hreach).runSafety fun _ => hordinary.awake

/-- Two ordinary nodes, the second of which requires the first to succeed. -/
def chain : FrozenTaskGraph 2 :=
  .ofOrdered (fun _ => false) [{ predecessor := 0, successor := 1 }] (by decide)

/-- A worker executes the first node, which throws. -/
def chainRun : List (Label 2 1 Nat) :=
  ([.postRoot, .claim 0 0 false, .step 0, .finish 0 (.threw 7)] : List (Label 2 1 Nat)) ++
    (List.replicate 14 (.step 0) : List (Label 2 1 Nat))

theorem runSafety_of_chain : ∃ s, (machine chain 1 Nat).run (initial chain) chainRun = some s ∧
    s.runState = .failed ∧ s.report.failedNodeExceptions = [(0, 7)] ∧ RunSafety chain s := by
  obtain ⟨s, hs⟩ := Option.isSome_iff_exists.mp
    (show ((machine chain 1 Nat).run (initial chain) chainRun).isSome by decide)
  have hend : ((machine chain 1 Nat).run (initial chain) chainRun).map (fun s =>
      decide (s.runState = .failed ∧ s.report.failedNodeExceptions = [(0, 7)])) = some true := by
    decide
  simp only [hs, Option.map_some, Option.some.injEq, decide_eq_true_eq] at hend
  exact ⟨s, hs, hend.1, hend.2,
    runSafety_of_reachable (fun _ => rfl) (Machine.reachable_of_run rfl hs)⟩

end GraphExecution
end AstraScheduler
