import AstraScheduler.GraphMetricsLedger

/-! # Every node of a graph run has an account

As long as a run posts ordinary nodes only, the event of a step takes the node it is about
from one stage to the next, and its record makes up the difference.  The run itself has an
account for the bulk admission of its nodes and for being active. -/

namespace AstraScheduler
namespace GraphMetrics

open RuntimeMetrics Postings WorkStacks
open GraphExecution (BodyResult BodyState NodeEntry Run Frame PlainRun)

/-! ## One node -/

section Nodes
variable {n k : Nat} {E : Type} {g : FrozenTaskGraph n} {deadline : Fin n → Option Nat}
variable {x x' : MeteredRun n k E} {m p : Fin n} {level : MetricsLevel} {now : Nat}
variable {run : Run n k E} {cancelling : List (Option (Fin n))}

/-- The node that an event is about. -/
def Event.node : Event n → Option (Fin n)
  | .published m | .firstStart m | .outcome m _ | .cancelledBeforeStart m _ | .suspended m
  | .resumed m => some m
  | .nodeTerminal | .runCompleted => none

/-- An event moves no node but its own. -/
theorem sameNode {e : Option (Event n)} (heff : Effect g e x.run run) (h : PlainRun g x.run)
    (hne : ∀ ev, e = some ev → ev.node ≠ some p) :
    SameNode g x (x.after deadline level now e run cancelling) p := by
  have hbody := heff.body h p
  have hstate := heff.taskState h p
  have hposted := heff.posted
  cases e with
  | none =>
    exact ⟨stage_congr hstate hbody rfl (iff_of_eq (congrArg (p ∈ ·) hposted)), rfl, rfl, rfl,
      hstate⟩
  | some ev =>
    have hnode := hne ev rfl
    cases ev with
    | nodeTerminal | runCompleted =>
      exact ⟨stage_congr hstate hbody rfl (iff_of_eq (congrArg (p ∈ ·) hposted)), rfl, rfl, rfl,
        hstate⟩
    | published m =>
      have hp : p ≠ m := fun heq => hnode (congrArg some heq.symm)
      refine ⟨stage_congr hstate hbody rfl ?_, rfl, rfl, rfl, hstate⟩
      show p ∈ run.posted ↔ p ∈ x.run.posted
      rw [hposted]
      exact ⟨fun hmem => (List.mem_cons.mp hmem).resolve_left hp, List.mem_cons_of_mem _⟩
    | firstStart m =>
      have hp : p ≠ m := fun heq => hnode (congrArg some heq.symm)
      have hsame : (run.entries p).body = (x.run.entries p).body := hbody.trans (if_neg hp)
      exact ⟨stage_congr hstate hsame rfl (iff_of_eq (congrArg (p ∈ ·) hposted)),
        Function.update_of_ne hp .., Function.update_of_ne hp .., rfl, hstate⟩
    | outcome m c =>
      have hp : p ≠ m := fun heq => hnode (congrArg some heq.symm)
      have hsame : (run.entries p).body = (x.run.entries p).body := hbody.trans (if_neg hp)
      exact ⟨stage_congr hstate hsame (Function.update_of_ne hp ..)
        (iff_of_eq (congrArg (p ∈ ·) hposted)), rfl, Function.update_of_ne hp .., rfl, hstate⟩
    | cancelledBeforeStart m byCall =>
      have hp : p ≠ m := fun heq => hnode (congrArg some heq.symm)
      have hsame : (run.entries p).taskState = (x.run.entries p).taskState :=
        hstate.trans (if_neg hp)
      have hmem := iff_of_eq (congrArg (p ∈ ·) hposted)
      cases byCall with
      | true =>
        exact ⟨stage_congr hsame hbody rfl hmem, rfl, rfl, Function.update_of_ne hp .., hsame⟩
      | false =>
        exact ⟨stage_congr hsame hbody rfl hmem, rfl, Function.update_of_ne hp .., rfl, hsame⟩
    | suspended m | resumed m =>
      have hp : p ≠ m := fun heq => hnode (congrArg some heq.symm)
      exact ⟨stage_congr hstate hbody rfl (iff_of_eq (congrArg (p ∈ ·) hposted)), rfl,
        Function.update_of_ne hp .., rfl, hstate⟩

/-- A node moves on by the record `r`, of which `left` is still to be made. -/
structure Advances (g : FrozenTaskGraph n) (deadline : Fin n → Option Nat)
    (x x' : MeteredRun n k E) (m : Fin n) (r left : List Update) : Prop where
  moves : Standing.Moves (x.standing g deadline m) r (x'.standing g deadline m)
  before : x.pending m = []
  after : x'.pending m = left
  sound : NodeSound g deadline x' m

theorem record_suffix (level : MetricsLevel) (r : List Update) : record level r <:+ r := by
  unfold record
  split
  · exact List.nil_suffix
  · exact List.suffix_refl r

/-- An ordinary node is posted. -/
theorem advances_published (h : NodeSound g deadline x m) (hplain : PlainRun g x.run)
    (hposted : m ∉ x.run.posted) (hord : g.isCoroutineNode m = false)
    (heff : Effect g (some (.published m)) x.run run)
    (hx' : x' = x.after deadline level now (some (.published m)) run cancelling) :
    Advances g deadline x x' m (recordPublished (deadline m).isSome) [] := by
  have hcold : (x.run.entries m).body = .unstarted := (hplain.unposted_cold hposted).body
  have hold : x.stage g m = .ready false := by
    rw [stage_ordinary hord hcold, decide_eq_false hposted]
    rfl
  have hnone : x.deadlineDisposition m = .none := h.unjudged (by rw [hold]; rfl)
  have hpending : x.pending m = [] := h.settled (by rw [hold]; rfl) (by rw [hold]; rfl)
  have hmem : m ∈ run.posted := by
    rw [heff.posted]
    exact List.mem_cons_self ..
  subst hx'
  have hnew : (x.after deadline level now (some (.published m)) run cancelling).stage g m =
      .ready true := by
    rw [stage_ordinary hord ((heff.body hplain m).trans hcold)]
    exact congrArg Stage.ready (decide_eq_true hmem)
  have hmoves : Standing.Moves (x.standing g deadline m) (recordPublished (deadline m).isSome)
      ((x.after deadline level now (some (.published m)) run cancelling).standing g deadline m) := by
    rw [standing_of hold, standing_of hnew]
    exact .publish _ _
  refine ⟨hmoves, hpending, hpending, ?_⟩
  exact {
    recorded := ⟨_, hmoves.mem_records, hpending ▸ List.nil_suffix⟩
    settled := fun _ _ => hpending
    left := fun hcor => absurd (hord.symm.trans hcor) Bool.false_ne_true
    cancelLeft := h.cancelLeft
    unjudged := fun _ => hnone
    judged := fun hstarted => by
      rw [hnew] at hstarted
      cases hstarted
    state := (heff.taskState hplain m).symm ▸ h.state }

/-- The first start of an ordinary node. -/
theorem advances_firstStart (h : NodeSound g deadline x m) (hplain : PlainRun g x.run)
    (hcold : (x.run.entries m).body = .unstarted) (hposted : m ∈ x.run.posted)
    (hord : g.isCoroutineNode m = false) (heff : Effect g (some (.firstStart m)) x.run run)
    (hx' : x' = x.after deadline level now (some (.firstStart m)) run cancelling) :
    ∃ r, Advances g deadline x x' m r (record level r) := by
  have hold : x.stage g m = .ready true := by
    rw [stage_ordinary hord hcold, decide_eq_true hposted]
    rfl
  have hnone : x.deadlineDisposition m = .none := h.unjudged (by rw [hold]; rfl)
  have hpending : x.pending m = [] := h.settled (by rw [hold]; rfl) (by rw [hold]; rfl)
  have hbody : (run.entries m).body = .running := (heff.body hplain m).trans (if_pos rfl)
  have hnew : x'.stage g m = .running := by
    subst hx'
    exact (stage_ordinary hord rfl).trans (congrArg (bodyStage _ _) hbody)
  have hdisposition : x'.deadlineDisposition m = judge deadline x m now := by
    subst hx'
    exact Function.update_self ..
  have hcancel : x.cancelLeft m = [] := h.cancelLeft hord
  have hmoves : Standing.Moves (x.standing g deadline m)
      (recordFirstStart (if (deadline m).isSome then some (judge deadline x m now) else none))
      (x'.standing g deadline m) := by
    rw [standing_of hold, standing_of hnew, hdisposition]
    exact .start _ _ _
  have hpending' : x'.pending m = record level
      (recordFirstStart (if (deadline m).isSome then some (judge deadline x m now) else none)) := by
    subst hx'
    show Function.update x.left m _ m ++ x.cancelLeft m = _
    rw [Function.update_self, hcancel, List.append_nil]
  refine ⟨_, hmoves, hpending, hpending', ?_⟩
  exact {
    recorded := ⟨_, hmoves.mem_records, hpending' ▸ record_suffix level _⟩
    settled := fun hno => by
      rw [hnew] at hno
      cases hno
    left := fun hcor => absurd (hord.symm.trans hcor) Bool.false_ne_true
    cancelLeft := fun _ => by
      subst hx'
      exact hcancel
    unjudged := fun hno => by
      rw [hnew] at hno
      cases hno
    judged := fun _ hsome => by
      rw [hdisposition]
      obtain ⟨d, hd⟩ := Option.isSome_iff_exists.mp hsome
      unfold judge
      rw [hd, hnone]
      dsimp only
      split <;> exact DeadlineDisposition.noConfusion
    state := by
      subst hx'
      exact (heff.taskState hplain m).symm ▸ h.state }

/-- The code of an ordinary node ends. -/
theorem advances_outcome {c : Completion} (h : NodeSound g deadline x m) (hplain : PlainRun g x.run)
    (hrunning : (x.run.entries m).body = .running) (hleft : x.left m = [])
    (hord : g.isCoroutineNode m = false) (heff : Effect g (some (.outcome m c)) x.run run)
    (hx' : x' = x.after deadline level now (some (.outcome m c)) run cancelling) :
    ∃ r, Advances g deadline x x' m r (record level r) := by
  have hold : x.stage g m = .running := stage_ordinary hord hrunning
  have hcancel : x.cancelLeft m = [] := h.cancelLeft hord
  have hpending : x.pending m = [] := by rw [MeteredRun.pending, hleft, hcancel, List.nil_append]
  have hbody : (run.entries m).body = .finished := (heff.body hplain m).trans (if_pos rfl)
  have hnew : x'.stage g m = .completed c := by
    subst hx'
    rw [stage_ordinary hord hbody]
    exact congrArg Stage.completed (Function.update_self ..)
  have hdisposition : x'.deadlineDisposition m = x.deadlineDisposition m := by
    subst hx'
    rfl
  have hmoves : Standing.Moves (x.standing g deadline m) (recordOutcome c.counter)
      (x'.standing g deadline m) := by
    rw [standing_of hold, standing_of hnew, hdisposition]
    exact .complete _ _ _
  have hpending' : x'.pending m = record level (recordOutcome c.counter) := by
    subst hx'
    show Function.update x.left m _ m ++ x.cancelLeft m = _
    rw [Function.update_self, hcancel, List.append_nil]
  refine ⟨_, hmoves, hpending, hpending', ?_⟩
  exact {
    recorded := ⟨_, hmoves.mem_records, hpending' ▸ record_suffix level _⟩
    settled := fun hno => by
      rw [hnew] at hno
      cases hno
    left := fun hcor => absurd (hord.symm.trans hcor) Bool.false_ne_true
    cancelLeft := fun _ => by
      subst hx'
      exact hcancel
    unjudged := fun hno => by
      rw [hnew] at hno
      cases hno
    judged := fun _ => by
      rw [hdisposition]
      exact h.judged (by rw [hold]; rfl)
    state := by
      subst hx'
      exact (heff.taskState hplain m).symm ▸ h.state }

/-- A cancel call comes before a coroutine node. -/
theorem advances_cancelled (h : NodeSound g deadline x m) (hplain : PlainRun g x.run)
    (hcor : g.isCoroutineNode m = true) (hready : (x.run.entries m).taskState = .ready)
    (heff : Effect g (some (.cancelledBeforeStart m true)) x.run run)
    (hx' : x' = x.after deadline level now (some (.cancelledBeforeStart m true)) run cancelling) :
    ∃ r, Advances g deadline x x' m r (record level r) := by
  have hold : x.stage g m = .ready false := by
    rw [stage_coroutine hcor, hready]
    rfl
  have hnone : x.deadlineDisposition m = .none := h.unjudged (by rw [hold]; rfl)
  have hpending : x.pending m = [] := h.settled (by rw [hold]; rfl) (by rw [hold]; rfl)
  have hleft : x.left m = [] := h.left hcor
  have hstate : (run.entries m).taskState = .cancelled :=
    (heff.taskState hplain m).trans (if_pos rfl)
  have hnew : x'.stage g m = .cancelledBeforeStart false := by
    subst hx'
    rw [stage_coroutine hcor]
    exact if_pos hstate
  have hdisposition : x'.deadlineDisposition m = x.deadlineDisposition m := by
    subst hx'
    rfl
  have hmoves : Standing.Moves (x.standing g deadline m)
      (recordCancelledBeforeStart (deadline m).isSome) (x'.standing g deadline m) := by
    rw [standing_of hold, standing_of hnew, hdisposition]
    exact .cancel _ _ _
  have hpending' : x'.pending m =
      record level (recordCancelledBeforeStart (deadline m).isSome) := by
    subst hx'
    show x.left m ++ Function.update x.cancelLeft m _ m = _
    rw [Function.update_self, hleft, List.nil_append]
  refine ⟨_, hmoves, hpending, hpending', ?_⟩
  exact {
    recorded := ⟨_, hmoves.mem_records, hpending' ▸ record_suffix level _⟩
    settled := fun _ hno => by
      rw [hnew] at hno
      cases hno
    left := fun _ => by
      subst hx'
      exact hleft
    cancelLeft := fun hord => absurd (hord.symm.trans hcor) Bool.false_ne_true
    unjudged := fun _ => by
      rw [hdisposition]
      exact hnone
    judged := fun hstarted => by
      rw [hnew] at hstarted
      cases hstarted
    state := by
      subst hx'
      exact .inr hstate }

/-- What a step with event `e` does to the nodes. -/
inductive Progress (g : FrozenTaskGraph n) (deadline : Fin n → Option Nat) (level : MetricsLevel)
    (x x' : MeteredRun n k E) : Option (Event n) → Prop
  | quiet {e : Option (Event n)} (he : e = none ∨ e = some .nodeTerminal)
      (hsame : ∀ p, SameNode g x x' p) : Progress g deadline level x x' e
  | completes (hpos : 0 < n) (hcompletions : x.run.completions = [])
      (hsame : ∀ p, SameNode g x x' p) : Progress g deadline level x x' (some .runCompleted)
  | publishes (m : Fin n)
      (hadvances : Advances g deadline x x' m (recordPublished (deadline m).isSome) [])
      (hsame : ∀ p ≠ m, SameNode g x x' p) : Progress g deadline level x x' (some (.published m))
  | begins {ev : Event n} (m : Fin n) (r : List Update) (hsingle : ev.single deadline = [])
      (hadvances : Advances g deadline x x' m r (record level r))
      (hsame : ∀ p ≠ m, SameNode g x x' p) : Progress g deadline level x x' (some ev)

/-- A step of a run that goes on to post ordinary nodes only. -/
theorem RunKept.progress {b : GraphExecution.Label n k E} (h : RunKept g deadline level x)
    (hact : x.mayAct b) (hs : GraphExecution.step g x.run b = some run)
    (hplain : ∀ m ∈ run.posted, g.isCoroutineNode m = false)
    (hx' : x' = x.after deadline level now (event g x.run b) run cancelling) :
    Progress g deadline level x x' (event g x.run b) := by
  have heff := step_effect hs
  have hother : ∀ p, (∀ ev, event g x.run b = some ev → ev.node ≠ some p) →
      SameNode g x x' p := by
    intro p hne
    rw [hx']
    exact sameNode heff h.plain hne
  cases he : event g x.run b with
  | none => exact .quiet (.inl rfl) fun p => hother p (by simp [he])
  | some ev =>
    rw [he] at heff hx'
    -- an event with a node moves no other
    have hsame : ∀ m, ev.node = some m → ∀ p ≠ m, SameNode g x x' p := by
      intro m hm p hp
      refine hother p fun ev' hev' => ?_
      obtain rfl : ev = ev' := Option.some.inj (he.symm.trans hev')
      rw [hm]
      exact fun heq => hp (Option.some.inj heq).symm
    cases fires h.plain hs he with
    | nodeTerminal => exact .quiet (.inr rfl) fun p => hother p (by simp [he, Event.node])
    | runCompleted hpos hcompletions =>
      exact .completes hpos hcompletions fun p => hother p (by simp [he, Event.node])
    | @published m hposted =>
      have hmem : m ∈ run.posted := by
        rw [heff.posted]
        exact List.mem_cons_self ..
      exact .publishes m
        (advances_published (h.node m) h.plain hposted (hplain m hmem) heff hx') (hsame m rfl)
    | @firstStart m hcold hposted hord =>
      obtain ⟨r, hadvances⟩ :=
        advances_firstStart (h.node m) h.plain hcold.body hposted hord heff hx'
      exact .begins m r rfl hadvances (hsame m rfl)
    | @outcome m w rest result hb htop hbody hord =>
      have hleft : x.left m = [] := by
        subst hb
        simpa [MeteredRun.mayAct, MeteredRun.recorded, htop] using hact
      obtain ⟨r, hadvances⟩ :=
        advances_outcome (h.node m) h.plain hbody hleft hord heff hx'
      exact .begins m r rfl hadvances (hsame m rfl)
    | @cancelledBeforeStart m hcor hready =>
      obtain ⟨r, hadvances⟩ := advances_cancelled (h.node m) h.plain hcor hready heff hx'
      exact .begins m r rfl hadvances (hsame m rfl)

theorem RunKept.step {b : GraphExecution.Label n k E} (h : RunKept g deadline level x)
    (hact : x.mayAct b) (hs : GraphExecution.step g x.run b = some run)
    (hplain : ∀ m ∈ run.posted, g.isCoroutineNode m = false)
    (hx' : x' = x.after deadline level now (event g x.run b) run cancelling) :
    RunKept g deadline level x' := by
  have hrun : x'.run = run := by rw [hx']; rfl
  have hprogress := h.progress hact hs hplain hx'
  generalize event g x.run b = e at hprogress
  refine ⟨hrun ▸ h.plain.step hs hplain, fun p => ?_, fun hoff p => ?_⟩
  · cases hprogress with
    | quiet _ hsame | completes _ _ hsame => exact (h.node p).same (hsame p)
    | publishes m hadvances hsame | begins m r _ hadvances hsame =>
      by_cases hp : p = m
      · exact hp ▸ hadvances.sound
      · exact (h.node p).same (hsame p hp)
  · cases hprogress with
    | quiet _ hsame | completes _ _ hsame => exact (hsame p).pending.trans (h.off hoff p)
    | publishes m hadvances hsame =>
      by_cases hp : p = m
      · exact hp ▸ hadvances.after
      · exact (hsame p hp).pending.trans (h.off hoff p)
    | begins m r _ hadvances hsame =>
      by_cases hp : p = m
      · rw [hp, hadvances.after, hoff]
        rfl
      · exact (hsame p hp).pending.trans (h.off hoff p)

/-- One more update of the record of node `m` is made. -/
structure Posts (g : FrozenTaskGraph n) (x x' : MeteredRun n k E) (m : Fin n) (u : Update) :
    Prop where
  run : x'.run = x.run
  disposition : x'.deadlineDisposition = x.deadlineDisposition
  completion : x'.completion = x.completion
  pending : x.pending m = u :: x'.pending m
  others : ∀ p ≠ m, x'.left p = x.left p ∧ x'.cancelLeft p = x.cancelLeft p
  left : x.left m = [] → x'.left m = []
  cancelLeft : x.cancelLeft m = [] → x'.cancelLeft m = []

theorem Posts.stage {u : Update} (h : Posts g x x' m u) (p : Fin n) :
    x'.stage g p = x.stage g p := by
  rw [MeteredRun.stage, MeteredRun.stage, h.run, h.completion]

theorem Posts.standing {u : Update} (h : Posts g x x' m u) (p : Fin n) :
    x'.standing g deadline p = x.standing g deadline p := by
  rw [MeteredRun.standing, h.stage, h.disposition, MeteredRun.standing]

theorem Posts.sameNode {u : Update} (h : Posts g x x' m u) (hp : p ≠ m) : SameNode g x x' p where
  stage := h.stage p
  disposition := congrFun h.disposition p
  left := (h.others p hp).1
  cancelLeft := (h.others p hp).2
  state := by rw [h.run]

/-- A worker makes the next update of its record. -/
theorem Posts.update {u : Update} {left : List Update} (hleft : x.left m = u :: left) :
    Posts g x (x.begin m left) m u where
  run := rfl
  disposition := rfl
  completion := rfl
  pending := by
    show x.left m ++ x.cancelLeft m = u :: (Function.update x.left m left m ++ x.cancelLeft m)
    rw [Function.update_self, hleft]
    rfl
  others p hp := ⟨Function.update_of_ne hp .., rfl⟩
  left hnil := by cases hleft.symm.trans hnil
  cancelLeft hnil := hnil

/-- A cancel call makes the next update of its record. -/
theorem Posts.cancelUpdate {u : Update} {left : List Update} (h : NodeSound g deadline x m)
    (hleft : x.cancelLeft m = u :: left) :
    Posts g x { x with cancelLeft := Function.update x.cancelLeft m left } m u where
  run := rfl
  disposition := rfl
  completion := rfl
  pending := by
    have hcor : g.isCoroutineNode m = true := by
      by_contra hord
      cases hleft.symm.trans (h.cancelLeft (Bool.eq_false_of_not_eq_true hord))
    show x.left m ++ x.cancelLeft m = u :: (x.left m ++ Function.update x.cancelLeft m left m)
    rw [Function.update_self, hleft, h.left hcor]
    rfl
  others p hp := ⟨rfl, Function.update_of_ne hp ..⟩
  left hnil := hnil
  cancelLeft hnil := by cases hleft.symm.trans hnil

theorem RunKept.posts {u : Update} (h : RunKept g deadline level x) (hp : Posts g x x' m u) :
    RunKept g deadline level x' := by
  have hsuffix : x'.pending m <:+ x.pending m := hp.pending ▸ List.suffix_cons ..
  refine ⟨hp.run ▸ h.plain, fun p => ?_, fun hoff p => ?_⟩
  · by_cases hpm : p = m
    · subst hpm
      have hnode := h.node p
      obtain ⟨r, hr, hrest⟩ := hnode.recorded
      refine ⟨⟨r, hp.standing p ▸ hr, hsuffix.trans hrest⟩, fun hstarted hterm => ?_,
        fun hcor => hp.left (hnode.left hcor), fun hord => hp.cancelLeft (hnode.cancelLeft hord),
        ?_, ?_, ?_⟩
      · rw [hp.stage] at hstarted hterm
        have hnil := hnode.settled hstarted hterm
        rw [hp.pending] at hnil
        cases hnil
      · rw [hp.stage, hp.disposition]
        exact hnode.unjudged
      · rw [hp.stage, hp.disposition]
        exact hnode.judged
      · rw [hp.run]
        exact hnode.state
    · exact (h.node p).same (hp.sameNode hpm)
  · by_cases hpm : p = m
    · subst hpm
      have hnil := h.off hoff p
      rw [hp.pending] at hnil
      cases hnil
    · exact (hp.sameNode hpm).pending.trans (h.off hoff p)

end Nodes

end GraphMetrics
end AstraScheduler
