import AstraScheduler.GraphSafety

/-! # Outcomes do not depend on the schedule

The purpose of a graph run in its own terms: by recursion over the graph, a node runs if
and only if every predecessor it requires has succeeded, and is cancelled otherwise.  When
nobody cancels, every run of a graph of ordinary nodes computes this and nothing else,
whatever the order in which the predecessors of a node raise its flag and count it down. -/

namespace AstraScheduler
namespace GraphExecution

open WorkStacks
open Transition (Machine)

variable {n k : Nat} {E : Type}

/-! ## The reference -/

section Reference
variable (g : FrozenTaskGraph n) (assign : Fin n → BodyResult E)

open Classical in
/-- The terminal state of a node, by recursion over its predecessors. -/
noncomputable def reference : Fin n → TaskState :=
  g.acyclic.fix fun m outcome =>
    if ∀ (e) (he : e ∈ g.edges) (hm : e.successor = m), e.policy = .requireSuccess →
      outcome e.predecessor ⟨e, he, rfl, hm⟩ = .succeeded
    then (assign m).state else .cancelled

/-- Every predecessor that the node requires succeeds. -/
def Runs (m : Fin n) : Prop :=
  ∀ e ∈ g.edges, e.successor = m → e.policy = .requireSuccess →
    reference g assign e.predecessor = .succeeded

variable {g assign}

theorem reference_of_runs {m : Fin n} (h : Runs g assign m) :
    reference g assign m = (assign m).state := by
  rw [reference, g.acyclic.fix_eq]
  exact if_pos fun e he hm hp => h e he hm hp

theorem reference_of_not_runs {m : Fin n} (h : ¬ Runs g assign m) :
    reference g assign m = .cancelled := by
  rw [reference, g.acyclic.fix_eq]
  exact if_neg fun hall => h fun e he hm hp => hall e he hm hp

variable (g assign)

/-- The failure of a node, if the reference has it fail. -/
noncomputable def referenceFailure (m : Fin n) : Option (Fin n × E) :=
  if reference g assign m = .failed then (assign m).exception.map fun e => (m, e) else none

/-- The report of the reference. -/
noncomputable def referenceReport : GraphReport n E where
  succeededNodes := (List.finRange n).countP fun m => reference g assign m = .succeeded
  failedNodes := (List.finRange n).countP fun m => reference g assign m = .failed
  cancelledNodes := (List.finRange n).countP fun m => reference g assign m = .cancelled
  failedNodeExceptions := (List.finRange n).filterMap (referenceFailure g assign)

end Reference

variable {g : FrozenTaskGraph n} {assign : Fin n → BodyResult E} {s s' : Run n k E}
variable {w : Fin k} {a : Frame n E} {rest l : List (Frame n E)} {m : Fin n}

/-! ## Runs that follow an assignment -/

/-- The node whose code runs on top of a stack. -/
def topCode : List (Frame n E) → Option (Fin n)
  | .code m :: _ => some m
  | _ => none

/-- The code of every node ends as assigned, and nobody cancels. -/
def Follows (assign : Fin n → BodyResult E) (s : Run n k E) : Label n k E → Prop
  | .finish w result => ∀ m ∈ topCode (s.workers w), result = assign m
  | .requestCancel => False
  | _ => True

instance [DecidableEq E] (a : Label n k E) : Decidable (Follows assign s a) :=
  match a with
  | .finish w result => inferInstanceAs (Decidable (∀ m ∈ topCode (s.workers w), result = assign m))
  | .requestCancel => .isFalse id
  | .postRoot | .claim _ _ _ | .step _ | .suspend _ | .awake _ | .cancelNode _ => .isTrue trivial

/-- The frame has the edge from `p` to `c` still to count off. -/
def Frame.owes (p : Fin n) (c : Fin n × EdgePolicy) : Frame n E → Prop
  | .edges q _ rest | .countDown q _ _ rest => q = p ∧ c ∈ rest
  | _ => False

/-- What the frame is about to do is what the reference says. -/
def Frame.Agrees (g : FrozenTaskGraph n) (assign : Fin n → BodyResult E) (s : Run n k E) :
    Frame n E → Prop
  | .claimed m _ | .decideCancel m | .post m => Runs g assign m
  | .code m => Runs g assign m ∧ m ∈ s.started
  | .storeOutcome m o e => o = reference g assign m ∧ (Runs g assign m → m ∈ s.started) ∧
      (o = .failed → e = (assign m).exception)
  | .record m o e => o = .failed → e = (assign m).exception
  | .edges p _ rest => ∀ c ∈ rest, c ∈ g.successors p
  | .countDown p _ _ rest => ∀ c ∈ rest, c ∈ g.successors p
  | _ => True

/-- So far the run has done what the reference says. -/
structure Agrees (g : FrozenTaskGraph n) (assign : Fin n → BodyResult E) (s : Run n k E) : Prop where
  notCancelled : s.cancelRequested = false
  roots : ∀ m ∈ s.roots, Runs g assign m
  queue : ∀ c ∈ s.queue, Runs g assign c.1
  frame : ∀ w, ∀ a ∈ s.workers w, a.Agrees g assign s
  started : ∀ m ∈ s.started, Runs g assign m
  marks : ∀ m o, (m, o) ∈ s.marks → o = reference g assign m ∧ (Runs g assign m → m ∈ s.started)
  flag : ∀ m, (s.entries m).hasFailedRequiredPredecessor = true → ¬ Runs g assign m
  /-- A predecessor that is done has raised the flag, or has still to come to the edge. -/
  flagged : ∀ e ∈ g.edges, e.predecessor ∈ s.triggered → e.policy = .requireSuccess →
    reference g assign e.predecessor ≠ .succeeded →
      (s.entries e.successor).hasFailedRequiredPredecessor = true ∨
        ∃ w, ∃ a ∈ s.workers w, a.owes e.predecessor (e.successor, e.policy)
  failures : ∀ c ∈ s.report.failedNodeExceptions, (assign c.1).exception = some c.2

/-- What the agreement is about stays, the workers apart. -/
structure SameCourse (s s' : Run n k E) : Prop where
  cancelRequested : s'.cancelRequested = s.cancelRequested
  roots : s'.roots = s.roots
  queue : s'.queue = s.queue
  started : s.started ⊆ s'.started
  marks : s'.marks = s.marks
  flag : ∀ m, (s'.entries m).hasFailedRequiredPredecessor =
    (s.entries m).hasFailedRequiredPredecessor
  triggered : s'.triggered = s.triggered
  failures : s'.report.failedNodeExceptions = s.report.failedNodeExceptions

/-- The frames that are not replaced go on to agree. -/
theorem Frame.Agrees.mono (h : a.Agrees g assign s) (hstarted : s.started ⊆ s'.started) :
    a.Agrees g assign s' := by
  cases a with
  | code m => exact ⟨h.1, hstarted h.2⟩
  | storeOutcome m o e => exact ⟨h.1, fun hruns => hstarted (h.2.1 hruns), h.2.2⟩
  | _ => exact h

namespace Agrees

/-- The topmost frame of a worker is replaced by frames that agree and owe what it owed. -/
theorem of_top (h : Agrees g assign s) (htop : s.workers w = a :: rest)
    (hw : s'.workers = Function.update s.workers w (l ++ rest)) (hsame : SameCourse s s')
    (hstarted : ∀ p ∈ s'.started, Runs g assign p)
    (hnew : ∀ b ∈ l, b.Agrees g assign s')
    (howes : ∀ p c, a.owes p c → ∃ b ∈ l, b.owes p c) : Agrees g assign s' where
  notCancelled := hsame.cancelRequested.trans h.notCancelled
  roots := hsame.roots ▸ h.roots
  queue := hsame.queue ▸ h.queue
  frame := by
    intro v b hb
    rw [hw] at hb
    rcases mem_replace hb with hb | hb
    · exact hnew b hb
    · exact (h.frame v b (mem_of_mem_rest htop hb)).mono hsame.started
  started := hstarted
  marks := by
    intro p o hp
    rw [hsame.marks] at hp
    exact (h.marks p o hp).imp_right fun himp hruns => hsame.started (himp hruns)
  flag := by
    intro p hp
    rw [hsame.flag] at hp
    exact h.flag p hp
  flagged := by
    intro e he htriggered hpolicy hne
    rw [hsame.triggered] at htriggered
    rw [hsame.flag]
    refine (h.flagged e he htriggered hpolicy hne).imp_right ?_
    rintro ⟨v, b, hb, hbowes⟩
    rw [hw]
    rcases mem_or_top htop hb with rfl | hb
    · obtain ⟨c, hc, hcowes⟩ := howes _ _ hbowes
      exact ⟨w, c, by rw [Function.update_self]; exact List.mem_append_left _ hc, hcowes⟩
    · exact ⟨v, b, hb l, hbowes⟩
  failures := hsame.failures ▸ h.failures

/-- A frame that owes nothing is replaced. -/
theorem of_free (h : Agrees g assign s) (htop : s.workers w = a :: rest) (b : Frame n E)
    (hw : s'.workers = Function.update s.workers w (b :: rest)) (hsame : SameCourse s s')
    (hstarted : ∀ p ∈ s'.started, Runs g assign p) (hnew : b.Agrees g assign s')
    (howes : ∀ p c, ¬ a.owes p c) : Agrees g assign s' :=
  h.of_top (l := [b]) htop hw hsame hstarted (by simpa using hnew)
    fun p c hc => absurd hc (howes p c)

/-- Only the stack changes. -/
theorem of_stack (h : Agrees g assign s) (htop : s.workers w = a :: rest)
    (hnew : ∀ b ∈ l, b.Agrees g assign s) (howes : ∀ p c, a.owes p c → ∃ b ∈ l, b.owes p c) :
    Agrees g assign (s.setStack w (l ++ rest)) :=
  h.of_top htop rfl ⟨rfl, rfl, rfl, List.Subset.refl _, rfl, fun _ => rfl, rfl, rfl⟩ h.started
    (fun b hb => (hnew b hb).mono (List.Subset.refl _)) howes

/-- The worker on top of whose stack the frame is. -/
theorem top (h : Agrees g assign s) (htop : s.workers w = a :: rest) : a.Agrees g assign s :=
  h.frame w a (by rw [htop]; exact List.mem_cons_self ..)

/-- A node whose predecessors are done and whose flag is down runs. -/
theorem runs_of_unflagged (h : Agrees g assign s) (hb : Books g s)
    (hzero : (s.entries m).remainingPredecessors = 0)
    (hflag : (s.entries m).hasFailedRequiredPredecessor = false) : Runs g assign m := by
  intro e he hm hpolicy
  by_contra hne
  have htriggered := hb.ledger.predecessors_triggered hzero e he hm
  rcases h.flagged e he htriggered hpolicy hne with hup | ⟨v, b, hmem, howes⟩
  · rw [hm, hflag] at hup
    cases hup
  · -- an edge into `m` would be pending
    have hpending := hb.ledger.pending_le m
    have hle := le_weight (f := Frame.pending m) hmem
    have hpos : 0 < Frame.pending m b := by
      subst hm
      cases b with
      | edges q o rest =>
        exact List.countP_pos_iff.mpr ⟨_, howes.2, by simp⟩
      | countDown q o c rest =>
        have hcount : 0 < rest.countP fun c => c.1 = e.successor :=
          List.countP_pos_iff.mpr ⟨_, howes.2, by simp⟩
        simp only [Frame.pending]
        omega
      | _ => exact howes.elim
    omega

/-- The outcome of a node is stored. -/
theorem mark {o : TaskState} {e : Option E} (h : Agrees g assign s)
    (htop : s.workers w = .storeOutcome m o e :: rest) :
    Agrees g assign { (s.setEntry m { s.entries m with outcome := o }).setStack w
        (.record m o e :: rest) with marks := (m, o) :: s.marks } := by
  obtain ⟨ho, hstarted, he⟩ := h.top htop
  have hentries : Agrees g assign ((s.setEntry m { s.entries m with outcome := o }).setStack w
      (.record m o e :: rest)) :=
    h.of_free htop (.record m o e) rfl
      ⟨rfl, rfl, rfl, List.Subset.refl _, rfl,
        fun p => Run.entries_eq rfl NodeEntry.hasFailedRequiredPredecessor p, rfl, rfl⟩ h.started he
      fun _ _ => id
  refine ⟨h.notCancelled, h.roots, h.queue, ?_, h.started, fun p o' hp => ?_, hentries.flag,
    hentries.flagged, h.failures⟩
  · exact fun v b hb => (hentries.frame v b hb).mono (List.Subset.refl _)
  · rcases List.mem_cons.mp hp with heq | hp
    · obtain ⟨rfl, rfl⟩ := Prod.mk.inj heq
      exact ⟨ho, hstarted⟩
    · exact h.marks p o' hp

/-- A worker comes to an edge. -/
theorem edge {o : TaskState} {c : Fin n} {policy : EdgePolicy} {more : List (Fin n × EdgePolicy)}
    (h : Agrees g assign s) (hb : Books g s)
    (htop : s.workers w = .edges m o ((c, policy) :: more) :: rest)
    (hs : stepFrame g s w rest (.edges m o ((c, policy) :: more)) = some s') :
    Agrees g assign s' := by
  have hsuccessors : ∀ d ∈ (c, policy) :: more, d ∈ g.successors m := h.top htop
  have hmark : (m, o) ∈ s.marks := hb.sound.top htop
  have ho : o = reference g assign m := (h.marks m o hmark).1
  -- the edge, as the graph has it
  obtain ⟨e, he, heq⟩ := List.mem_map.mp (hsuccessors _ (List.mem_cons_self ..))
  obtain ⟨hedge, hm⟩ := List.mem_filter.mp he
  obtain ⟨rfl, rfl⟩ := Prod.mk.inj heq
  have hm : e.predecessor = m := by simpa using hm
  have hnew : ∀ d ∈ more, d ∈ g.successors m :=
    fun d hd => hsuccessors d (List.mem_cons_of_mem _ hd)
  have hframe : ∀ {t : Run n k E}, t.workers = Function.update s.workers w
      (.countDown m o e.successor more :: rest) → s.started ⊆ t.started →
        ∀ v, ∀ b ∈ t.workers v, b.Agrees g assign t := by
    intro t ht hstarted v b hbt
    rw [ht] at hbt
    rcases mem_replace (l := [_]) hbt with hbt | hbt
    · obtain rfl := List.mem_singleton.mp hbt
      exact hnew
    · exact (h.frame v b (mem_of_mem_rest htop hbt)).mono hstarted
  -- what is owed besides the edge is still owed
  have howed : ∀ {p : Fin n} {d : Fin n × EdgePolicy} {v : Fin k} {b : Frame n E},
      b ∈ s.workers v → b.owes p d → (p = m ∧ d = (e.successor, e.policy)) ∨
        ∃ v, ∃ b ∈ Function.update s.workers w (.countDown m o e.successor more :: rest) v,
          b.owes p d := by
    intro p d v b hbv howes
    rcases mem_or_top htop hbv with rfl | hbv
    · obtain ⟨rfl, hd⟩ := howes
      rcases List.mem_cons.mp hd with rfl | hd
      · exact .inl ⟨rfl, rfl⟩
      · exact .inr ⟨w, .countDown m o e.successor more,
          by rw [Function.update_self]; exact List.mem_cons_self .., rfl, hd⟩
    · exact .inr ⟨v, b, hbv [_], howes⟩
  simp only [stepFrame] at hs
  split at hs <;> cases hs
  case isTrue hraise =>
    refine ⟨h.notCancelled, h.roots, h.queue, hframe rfl (List.Subset.refl _), h.started, h.marks,
      fun p hp => ?_, fun e' he' htriggered hpolicy hne => ?_, h.failures⟩
    · -- the flag that is raised
      by_cases hpc : p = e.successor
      · subst hpc
        intro hruns
        refine hraise.2 ?_
        rw [ho, ← hm]
        exact hruns e hedge rfl hraise.1
      · refine h.flag p ?_
        simpa [Run.setEntry, Run.setStack, hpc] using hp
    · by_cases hpc : e'.successor = e.successor
      · refine .inl ?_
        rw [hpc]
        simp [Run.setEntry]
      · rcases h.flagged e' he' htriggered hpolicy hne with hflag | ⟨v, b, hbv, howes⟩
        · refine .inl ?_
          simpa [Run.setEntry, Run.setStack, hpc] using hflag
        · rcases howed hbv howes with ⟨-, hsame⟩ | hstill
          · exact absurd (Prod.mk.inj hsame).1 hpc
          · exact .inr hstill
  case isFalse hraise =>
    refine ⟨h.notCancelled, h.roots, h.queue, hframe rfl (List.Subset.refl _), h.started, h.marks,
      h.flag, fun e' he' htriggered hpolicy hne => ?_, h.failures⟩
    rcases h.flagged e' he' htriggered hpolicy hne with hflag | ⟨v, b, hbv, howes⟩
    · exact .inl hflag
    · rcases howed hbv howes with ⟨hp, hsame⟩ | hstill
      · -- an edge that raises no flag comes from a success
        rw [(Prod.mk.inj hsame).2] at hpolicy
        refine absurd ⟨hpolicy, ?_⟩ hraise
        rw [ho, ← hp]
        exact hne
      · exact .inr hstill

theorem stepFrame (h : Agrees g assign s) (hb : Books g s) (hord : Ordinary s)
    (htop : s.workers w = a :: rest) (hs : stepFrame g s w rest a = some s') :
    Agrees g assign s' := by
  have ha := h.top htop
  have hordinary : a.ordinary := hord.frame w a (by rw [htop]; exact List.mem_cons_self ..)
  have hall := List.Subset.refl s.started
  cases a with
  | claimed m resume =>
    have hruns : Runs g assign m := ha
    cases resume with
    | true => simp [Frame.ordinary] at hordinary
    | false =>
      cases hs
      unfold enter
      rw [if_neg Bool.false_ne_true]
      dsimp only
      rw [if_neg (by simp [h.notCancelled])]
      -- the run is not cancelled, so the claimed node begins, as in the reference
      refine h.of_free htop (.code m) rfl ⟨rfl, rfl, rfl, List.subset_cons_self .., rfl,
        fun p => Run.entries_eq rfl NodeEntry.hasFailedRequiredPredecessor p, rfl, rfl⟩
        (fun p hp => ?_)
        ⟨hruns, List.mem_cons_self ..⟩ fun _ _ => id
      rcases List.mem_cons.mp hp with rfl | hp
      · exact hruns
      · exact h.started p hp
  | cancelTask m | check m suspended | readState m => simp [Frame.ordinary] at hordinary
  | code m => cases hs
  | storeOutcome m o e =>
    cases hs
    exact h.mark htop
  | record m o e =>
    cases hs
    have hstack :=
      h.of_stack (l := [.countNode m]) htop (by simp [Frame.Agrees]) fun _ _ => False.elim
    refine ⟨h.notCancelled, h.roots, h.queue, hstack.frame, h.started, h.marks, h.flag,
      hstack.flagged, fun c hc => ?_⟩
    cases o with
    | failed =>
      rcases List.mem_append.mp hc with hc | hc
      · exact h.failures c hc
      · have he : e = (assign m).exception := ha rfl
        obtain ⟨x, hx, rfl⟩ := Option.map_eq_some_iff.mp (Option.mem_toList.mp hc)
        rw [← he, hx]
    | _ => exact h.failures c hc
  | countNode m =>
    cases hs
    refine h.of_free htop _ rfl ⟨rfl, rfl, rfl, hall, rfl, fun _ => rfl, rfl, rfl⟩ h.started ?_
      fun _ _ => id
    split <;> trivial
  | complete m =>
    cases hs
    have hstack := h.of_stack (l := [.trigger m]) htop (by simp [Frame.Agrees]) fun _ _ => False.elim
    refine ⟨h.notCancelled, h.roots, h.queue, hstack.frame, h.started, h.marks, h.flag,
      hstack.flagged, fun c hc => ?_⟩
    -- sorting the report neither adds nor drops an entry
    exact h.failures c ((List.mem_insertionSort _).mp hc)
  | trigger m =>
    cases hs
    have hstack := h.of_stack (l := [.edges m (s.entries m).outcome (g.successors m)]) htop
      (by simp [Frame.Agrees]) fun _ _ => False.elim
    refine ⟨h.notCancelled, h.roots, h.queue, hstack.frame, h.started, h.marks, h.flag,
      fun e he htriggered hpolicy hne => ?_, h.failures⟩
    rcases List.mem_cons.mp htriggered with hm | htriggered
    · -- all edges of `m` are still to come
      refine .inr ⟨w, .edges m (s.entries m).outcome (g.successors m), ?_, hm.symm, ?_⟩
      · dsimp only [Run.setStack]
        rw [Function.update_self]
        exact List.mem_cons_self ..
      · exact List.mem_map.mpr ⟨e, List.mem_filter.mpr ⟨he, by simpa using hm⟩, rfl⟩
    · exact hstack.flagged e he htriggered hpolicy hne
  | edges m o successors =>
    cases successors with
    | nil =>
      cases hs
      exact h.of_stack (l := []) htop (by simp) fun _ _ hc => absurd hc.2 List.not_mem_nil
    | cons c more => exact h.edge hb htop hs
  | countDown m o c more =>
    cases hs
    refine h.of_top (l := (if (s.entries c).remainingPredecessors = 1 then [Frame.decide c]
      else []) ++ [Frame.edges m o more]) htop (by simp [Run.setStack, Run.setEntry])
      ⟨rfl, rfl, rfl, hall, rfl,
        fun p => Run.entries_eq rfl NodeEntry.hasFailedRequiredPredecessor p, rfl, rfl⟩ h.started
      (fun b hbl => ?_) fun p d hd => ⟨.edges m o more, by simp, hd⟩
    rcases List.mem_append.mp hbl with hbl | hbl
    · split at hbl
      · obtain rfl := List.mem_singleton.mp hbl
        trivial
      · cases hbl
    · obtain rfl := List.mem_singleton.mp hbl
      exact ha
  | decide m =>
    simp only [GraphExecution.stepFrame] at hs
    split at hs
    case isTrue hflag =>
      cases hs
      -- a raised flag means a required predecessor without success: the node is cancelled
      have hnot := h.flag m hflag
      refine h.of_stack (l := [_]) htop ?_ fun _ _ => False.elim
      simp only [List.mem_singleton, forall_eq]
      exact ⟨(reference_of_not_runs hnot).symm, fun hruns => absurd hruns hnot, TaskState.noConfusion⟩
    case isFalse hflag =>
      cases hs
      refine h.of_stack (l := [_]) htop ?_ fun _ _ => False.elim
      simp only [List.mem_singleton, forall_eq]
      -- no edge into `m` is still to come, so without the flag all of them have succeeded
      exact h.runs_of_unflagged hb (hb.held (m := m) htop (if_pos rfl)).2 (by simpa using hflag)
  | decideCancel m =>
    simp only [GraphExecution.stepFrame, h.notCancelled] at hs
    cases hs
    exact h.of_stack (l := [.post m]) htop (by simpa [Frame.Agrees] using ha) fun _ _ => False.elim
  | post m =>
    cases hs
    have hstack := h.of_stack (l := []) htop (by simp) fun _ _ => False.elim
    refine ⟨h.notCancelled, h.roots, fun c hc => ?_, hstack.frame, h.started, h.marks, h.flag,
      hstack.flagged, h.failures⟩
    rcases List.mem_append.mp hc with hc | hc
    · exact h.queue c hc
    · rw [List.mem_singleton.mp hc]
      exact ha

/-- Every step does what the reference says. -/
theorem step {a : Label n k E} (h : Agrees g assign s) (hb : Books g s) (hord : Ordinary s)
    (hg : ∀ m, g.isCoroutineNode m = false) (hok : Follows assign s a)
    (hs : step g s a = some s') : Agrees g assign s' := by
  cases a with
  | postRoot =>
    simp only [GraphExecution.step] at hs
    split at hs <;> cases hs
    case h_1 m roots hr =>
      have hroots := h.roots
      rw [hr] at hroots
      refine ⟨h.notCancelled, fun p hp => hroots p (List.mem_cons_of_mem _ hp), fun c hc => ?_,
        h.frame, h.started, h.marks, h.flag, h.flagged, h.failures⟩
      rcases List.mem_append.mp hc with hc | hc
      · exact h.queue c hc
      · rw [List.mem_singleton.mp hc]
        exact hroots m (List.mem_cons_self ..)
  | claim w m resume =>
    simp only [GraphExecution.step] at hs
    split at hs
    case isFalse => cases hs
    case isTrue hq =>
      cases hs
      refine ⟨h.notCancelled, h.roots, fun c hc => h.queue c (List.mem_of_mem_erase hc),
        fun v b hb => ?_, h.started, h.marks, h.flag, fun e he htriggered hpolicy hne => ?_,
        h.failures⟩
      · dsimp only [Run.setStack] at hb
        by_cases hv : v = w
        · subst hv
          rw [Function.update_self] at hb
          rcases List.mem_cons.mp hb with rfl | hb
          · exact h.queue _ hq.1
          · exact h.frame v b hb
        · rw [Function.update_of_ne hv] at hb
          exact h.frame v b hb
      · refine (h.flagged e he htriggered hpolicy hne).imp_right ?_
        rintro ⟨v, b, hb, howes⟩
        refine ⟨v, b, ?_, howes⟩
        dsimp only [Run.setStack]
        by_cases hv : v = w
        · subst hv
          rw [Function.update_self]
          exact List.mem_cons_of_mem _ hb
        · rwa [Function.update_of_ne hv]
  | step w =>
    simp only [GraphExecution.step] at hs
    split at hs
    case h_1 frame rest htop => exact h.stepFrame hb hord htop hs
    case h_2 => cases hs
  | finish w result =>
    simp only [GraphExecution.step] at hs
    split at hs <;> cases hs
    case h_1 m rest htop =>
      obtain ⟨hruns, hstarted⟩ : Runs g assign m ∧ m ∈ s.started := h.top htop
      obtain rfl : result = assign m := hok m (by rw [htop]; rfl)
      unfold finish
      dsimp only
      rw [hg m]
      exact h.of_free htop (.storeOutcome m _ _) rfl ⟨rfl, rfl, rfl, List.Subset.refl _, rfl,
        fun p => Run.entries_eq rfl NodeEntry.hasFailedRequiredPredecessor p, rfl, rfl⟩ h.started
        ⟨(reference_of_runs hruns).symm, fun _ => hstarted, fun _ => rfl⟩ fun _ _ => id
  | suspend w =>
    simp only [GraphExecution.step] at hs
    split at hs
    case h_1 m rest htop =>
      rw [hg m, if_neg Bool.false_ne_true] at hs
      cases hs
    case h_2 => cases hs
  | awake m =>
    simp only [GraphExecution.step] at hs
    rw [if_neg (hord.awake m)] at hs
    cases hs
  | requestCancel => exact hok.elim
  | cancelNode j =>
    simp only [GraphExecution.step] at hs
    split at hs <;> cases hs
    case h_1 m rest hj =>
      rw [hg m, if_neg Bool.false_ne_true]
      exact ⟨h.notCancelled, h.roots, h.queue, h.frame, h.started, h.marks, h.flag, h.flagged,
        h.failures⟩
    case h_2 hj =>
      exact ⟨h.notCancelled, h.roots, h.queue, h.frame, h.started, h.marks, h.flag, h.flagged,
        h.failures⟩

theorem initial : Agrees g assign (initial g : Run n k E) := by
  refine ⟨rfl, fun m hm => ?_, fun c hc => (List.not_mem_nil hc).elim,
    fun _ _ hb => (List.not_mem_nil hb).elim, fun _ hm => (List.not_mem_nil hm).elim,
    fun _ _ hm => (List.not_mem_nil hm).elim, fun _ hm => (Bool.false_ne_true hm).elim,
    fun _ _ hm => (List.not_mem_nil hm).elim, fun _ hc => (List.not_mem_nil hc).elim⟩
  -- a root has no edges
  intro e he hem
  have hzero : g.indegree m = 0 := by simpa using (List.mem_filter.mp hm).2
  exact absurd hem (by simpa using List.countP_eq_zero.mp hzero e he)

/-- What a run that follows an assignment does, in every state it reaches. -/
theorem of_reachable (hord : ∀ m, g.isCoroutineNode m = false)
    (h : (machine g k E).ReachableUnder (Follows assign) s) :
    Agrees g assign s ∧ Books g s ∧ Ordinary s := by
  have hbooks : ∀ {t : Run n k E}, (machine g k E).Reachable t → Books g t ∧ Ordinary t := by
    intro t ht
    obtain ⟨hordinary, hreach⟩ := Ordinary.of_reachable hord ht
    exact ⟨Books.of_reachable hreach, hordinary⟩
  refine ⟨?_, hbooks h.reachable⟩
  induction h with
  | initial hs =>
    cases hs
    exact initial
  | step hr hok hn ih =>
    obtain ⟨hb, ho⟩ := hbooks hr.reachable
    exact ih.step hb ho hord hok hn

end Agrees

/-! ## The outcomes of a run -/

/-- The run does what the reference says, and does it all when it completes. -/
structure MatchesReference (g : FrozenTaskGraph n) (assign : Fin n → BodyResult E)
    (s : Run n k E) : Prop where
  /-- A node that is terminal has the state of the reference. -/
  outcome : ∀ m o, (m, o) ∈ s.marks → o = reference g assign m
  /-- Only nodes that the reference runs are run, -/
  started : ∀ m ∈ s.started, Runs g assign m
  /-- and these are run before they are terminal. -/
  ran : ∀ m o, (m, o) ∈ s.marks → Runs g assign m → m ∈ s.started
  completed : s.runState ≠ .running →
    (∀ m, (s.entries m).outcome = reference g assign m) ∧ s.report = referenceReport g assign ∧
      s.runState = (referenceReport g assign).runState
  idle : s.Idle → s.runState ≠ .running

theorem mem_failedNodes (h : Agrees g assign s) (hc : RunCompleted s)
    (hout : ∀ m, (s.entries m).outcome = reference g assign m) (c : Fin n × E) :
    c ∈ s.report.failedNodeExceptions ↔
      c ∈ (List.finRange n).filterMap (referenceFailure g assign) := by
  obtain ⟨m, e⟩ := c
  have hiff : (m, e) ∈ (List.finRange n).filterMap (referenceFailure g assign) ↔
      reference g assign m = .failed ∧ (assign m).exception = some e := by
    simp only [List.mem_filterMap, List.mem_finRange, true_and, referenceFailure]
    constructor
    · rintro ⟨p, hp⟩
      split at hp
      case isTrue hf =>
        obtain ⟨x, hx, heq⟩ := Option.map_eq_some_iff.mp hp
        obtain ⟨rfl, rfl⟩ := Prod.mk.inj heq
        exact ⟨hf, hx⟩
      case isFalse => cases hp
    · rintro ⟨hf, hx⟩
      exact ⟨m, by rw [if_pos hf, hx]; rfl⟩
  rw [hiff]
  constructor
  · intro hmem
    refine ⟨?_, h.failures _ hmem⟩
    rw [← hout, ← hc.failures]
    exact List.mem_map_of_mem hmem
  · rintro ⟨hf, hx⟩
    rw [← hout, ← hc.failures] at hf
    obtain ⟨⟨p, e'⟩, hmem, rfl⟩ := List.mem_map.mp hf
    have hx' : (assign p).exception = some e' := h.failures _ hmem
    obtain rfl := Option.some.inj (hx.symm.trans hx')
    exact hmem

/-- Two lists of failures sorted by node that have the same members are the same. -/
theorem failedNodes_eq (h : Agrees g assign s) (hc : RunCompleted s)
    (hout : ∀ m, (s.entries m).outcome = reference g assign m) :
    s.report.failedNodeExceptions = (List.finRange n).filterMap (referenceFailure g assign) := by
  have hsorted := List.pairwise_map.mp hc.sorted
  have hsorted' : ((List.finRange n).filterMap (referenceFailure g assign)).Pairwise
      fun a b => a.1 < b.1 := by
    rw [List.pairwise_filterMap]
    refine (List.pairwise_lt_finRange n).imp fun {p q} hlt c hp d hq => ?_
    have hkey : ∀ {p : Fin n} {c}, referenceFailure g assign p = some c → c.1 = p := by
      intro p c hp
      unfold referenceFailure at hp
      split at hp
      · obtain ⟨x, -, rfl⟩ := Option.map_eq_some_iff.mp hp
        rfl
      · cases hp
    rw [hkey hp, hkey hq]
    exact hlt
  have hnodup : ∀ {l : List (Fin n × E)}, l.Pairwise (fun a b => a.1 < b.1) → l.Nodup := by
    intro l hl
    exact hl.imp fun hlt heq => absurd (congrArg Prod.fst heq) hlt.ne
  refine List.Perm.eq_of_pairwise ?_ hsorted hsorted' ?_
  · exact fun a b _ _ hab hba => absurd hab hba.asymm
  exact (List.perm_ext_iff_of_nodup (hnodup hsorted) (hnodup hsorted')).mpr
    fun c => mem_failedNodes h hc hout c

/-- **Graph outcomes do not depend on the schedule.**  Every run of a graph of ordinary nodes
that nobody cancels computes the reference: the same terminal states, the same report. -/
theorem matchesReference_of_reachable (hord : ∀ m, g.isCoroutineNode m = false)
    (h : (machine g k E).ReachableUnder (Follows assign) s) : MatchesReference g assign s := by
  obtain ⟨hagrees, hbooks, hordinary⟩ := Agrees.of_reachable hord h
  refine ⟨fun m o hm => (hagrees.marks m o hm).1, hagrees.started,
    fun m o hm => (hagrees.marks m o hm).2, fun hne => ?_, fun hidle =>
      hbooks.idle_completed hidle hordinary.awake⟩
  have hcompleted := hbooks.runCompleted hne
  have hout : ∀ m, (s.entries m).outcome = reference g assign m := by
    intro m
    obtain ⟨⟨p, o⟩, hmem, rfl⟩ := List.mem_map.mp
      (List.count_pos_iff.mp (Nat.lt_of_lt_of_eq Nat.one_pos (hcompleted.marked m).symm))
    exact (hbooks.sound.marks p o hmem).2.trans (hagrees.marks p o hmem).1
  have hreport : s.report = referenceReport g assign := by
    have hcount := hcompleted.counts
    simp only [hout] at hcount
    have hs := hcount .succeeded rfl
    have hf := hcount .failed rfl
    have hc := hcount .cancelled rfl
    simp only [GraphReport.count] at hs hf hc
    have hlist := failedNodes_eq hagrees hcompleted hout
    cases hr : s.report
    rw [hr] at hs hf hc hlist
    simp only [referenceReport, GraphReport.mk.injEq]
    exact ⟨hs, hf, hc, hlist⟩
  refine ⟨hout, hreport, ?_⟩
  rw [(hbooks.runState_eq hne).2.1, hreport]

/-- The first node of the chain throws. -/
def chainAssign (m : Fin 2) : BodyResult Nat := if m = 0 then .threw 7 else .returned

theorem matchesReference_of_chain : ∃ s,
    (machine chain 1 Nat).run (initial chain) chainRun = some s ∧ s.runState = .failed ∧
      s.marks = [(1, .cancelled), (0, .failed)] ∧ MatchesReference chain chainAssign s := by
  obtain ⟨s, hs⟩ := Option.isSome_iff_exists.mp
    (show ((machine chain 1 Nat).run (initial chain) chainRun).isSome by decide)
  have hend : ((machine chain 1 Nat).run (initial chain) chainRun).map (fun s =>
      decide (s.runState = .failed ∧ s.marks = [(1, .cancelled), (0, .failed)])) = some true := by
    decide
  simp only [hs, Option.map_some, Option.some.injEq, decide_eq_true_eq] at hend
  have hinit : (machine chain 1 Nat).ReachableUnder (Follows chainAssign) (initial chain) :=
    .initial rfl
  exact ⟨s, hs, hend.1, hend.2,
    matchesReference_of_reachable (fun _ => rfl) (hinit.run (by decide) hs)⟩

end GraphExecution
end AstraScheduler
