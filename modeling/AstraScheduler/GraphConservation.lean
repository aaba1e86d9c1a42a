import AstraScheduler.GraphAccounts

/-! # Conservation on graph runs

Every step of a runtime that posts no coroutine node keeps the accounts and the metrics in
balance.  At rest, a node whose code has run misses no law.  A node that was cancelled
instead is still counted as accepted and as ready, since its outcome is not recorded. -/

namespace AstraScheduler
namespace GraphMetrics

open RuntimeMetrics Postings
open GraphExecution (BodyResult PlainRun Run)

section Steps
variable {W : Workload} {k : Nat} {E : Type} {s s' : State W k E} {r : Fin W.count}

/-- No coroutine node has been posted. -/
def Plain (s : State W k E) : Prop :=
  ∀ r x, s.runs r = .admitted x → ∀ m ∈ x.run.posted, (W.graph r).isCoroutineNode m = false

structure Kept (s : State W k E) : Prop where
  orderly : Orderly s
  books : InBooks s

/-! ## One step -/

theorem Orderly.setPhase (h : Orderly s) {phase : Phase (W.size r) k E}
    (hadmitted : ∀ x, phase = .admitted x →
      RunKept (W.graph r) (W.deadline r) s.metrics.level x)
    (hadmitting : ∀ left, phase = .admitting left →
      left <:+ recordAdmission (W.size r) ∧ (s.metrics.level = .off → left = [])) :
    Orderly (s.setPhase r phase) where
  admitted := by
    intro r' x hx
    by_cases hr : r' = r
    · subst hr
      rw [setPhase_self] at hx
      exact hadmitted x hx
    · rw [setPhase_other s phase hr] at hx
      exact h.admitted r' x hx
  admitting := by
    intro r' left hleft
    by_cases hr : r' = r
    · subst hr
      rw [setPhase_self] at hleft
      exact hadmitting left hleft
    · rw [setPhase_other s phase hr] at hleft
      exact h.admitting r' left hleft

theorem Orderly.apply (h : Orderly s) (worker : Option Nat) (u : Update) :
    Orderly (s.apply worker [u]) := by
  have hlevel : (s.apply worker [u]).metrics.level = s.metrics.level := apply_level ..
  exact ⟨fun r x hx => hlevel ▸ h.admitted r x hx, fun r left hleft =>
    hlevel ▸ h.admitting r left hleft⟩

theorem Orderly.admit (h : Orderly s) {x : MeteredRun (W.size r) k E}
    (hx : RunKept (W.graph r) (W.deadline r) s.metrics.level x) :
    Orderly (s.setPhase r (.admitted x)) :=
  h.setPhase (fun _ heq => Phase.admitted.inj heq ▸ hx) fun _ heq => by cases heq

/-- The slots of a run are acquired. -/
theorem Kept.acquire (h : Kept s) (hphase : s.runs r = .uncalled) :
    Kept (s.setPhase r (.admitting (record s.metrics.level (recordAdmission (W.size r))))) where
  orderly := h.orderly.setPhase (fun _ heq => by cases heq) fun left heq => by
    obtain rfl := Phase.admitting.inj heq
    refine ⟨record_suffix _ _, fun hoff => ?_⟩
    rw [hoff]
    rfl
  books := by
    refine h.books.change hphase fun hlevel o c hc => ?_
    rw [record, if_neg hlevel]
    cases o with
    | none => exact admission_begins (W.size r) c
    | some m => rfl

/-- One more update of the admission is made. -/
theorem Kept.admission (h : Kept s) {u : Update} {left : List Update}
    (hphase : s.runs r = .admitting (u :: left)) (worker : Option Nat) :
    Kept ((s.setPhase r (.admitting left)).apply worker [u]) := by
  obtain ⟨hsuffix, hoff⟩ := h.orderly.admitting r _ hphase
  have ho : Orderly ((s.setPhase r (.admitting left)).apply worker [u]) := by
    refine (h.orderly.setPhase (fun _ heq => by cases heq) fun left' heq => ?_).apply worker u
    obtain rfl := Phase.admitting.inj heq
    exact ⟨(List.suffix_cons u left).trans hsuffix, fun hlevel => by cases hoff hlevel⟩
  refine ⟨ho, h.books.post none h.orderly ho hphase (fun _ c _ => ?_) fun o hne => ?_⟩
  · exact Account.posted_post (admissionAccount (W.size r) (u :: left)) u.posting _ c rfl
  · cases o with
    | none => exact absurd rfl hne
    | some m => rfl

theorem stage_initial {n : Nat} (g : FrozenTaskGraph n) (m : Fin n) :
    ({ run := GraphExecution.initial g } : MeteredRun n k E).stage g m = .ready false := by
  by_cases hcor : g.isCoroutineNode m = true
  · exact stage_coroutine hcor
  · exact stage_ordinary (Bool.eq_false_of_not_eq_true hcor) rfl

theorem RunKept.initial {n : Nat} (g : FrozenTaskGraph n) (deadline : Fin n → Option Nat)
    (level : MetricsLevel) :
    RunKept g deadline level ({ run := GraphExecution.initial g } : MeteredRun n k E) where
  plain := .initial
  node m := by
    have hstage := stage_initial (k := k) (E := E) g m
    exact {
      recorded := ⟨recordAcquired 1, by simp [standing_of hstage, Standing.records],
        List.nil_suffix⟩
      settled := fun _ _ => rfl
      left := fun _ => rfl
      cancelLeft := fun _ => rfl
      unjudged := fun _ => rfl
      judged := fun hstarted => by
        rw [hstage] at hstarted
        cases hstarted
      state := .inl rfl }
  off _ _ := rfl

/-- The nodes begin to account for themselves. -/
theorem Kept.materialize (h : Kept s) (hphase : s.runs r = .admitting []) :
    Kept (s.setPhase r (.admitted { run := GraphExecution.initial (W.graph r) })) where
  orderly := h.orderly.admit (.initial ..)
  books := by
    intro hlevel hexact c hc
    have hold := h.books hlevel hexact c hc
    rw [Postings.Balanced, Fintype.sum_sigma] at hold ⊢
    refine hold.trans (Finset.sum_congr rfl fun r' _ => ?_)
    by_cases hr : r' = r
    · subst hr
      have hstage : ∀ m, (({ run := GraphExecution.initial (W.graph r') } :
          MeteredRun (W.size r') k E).standing (W.graph r') (W.deadline r') m) =
            ⟨.ready false, (W.deadline r' m).isSome, .none⟩ :=
        fun m => standing_of (stage_initial _ m)
      have hrun : (s.account ⟨r', none⟩).posted c =
          runDue (W.size r') (decide (0 < W.size r')) c := by
        rw [State.account, hphase]
        exact Int.sub_zero _
      have hnodes : ∀ m, (s.account ⟨r', some m⟩).posted c = 0 := by
        intro m
        rw [State.account, hphase]
        rfl
      rw [Fintype.sum_option, Fintype.sum_option, hrun, Finset.sum_eq_zero fun m _ => hnodes m,
        Int.add_zero, runDue_split _ fun m => (W.deadline r' m).isSome]
      refine congrArg₂ _ ?_ (Finset.sum_congr rfl fun m _ => ?_)
      · have hactive : ({ run := GraphExecution.initial (W.graph r') } :
            MeteredRun (W.size r') k E).active = decide (0 < W.size r') :=
          Bool.and_true _
        rw [account_self, Phase.account, hactive]
        exact (Int.sub_zero _).symm
      · rw [account_self, Phase.account, hstage]
        exact (Int.sub_zero _).symm
    · refine Finset.sum_congr rfl fun o _ => ?_
      rw [account_other s _ ⟨r', o⟩ hr]

/-! ### A step of an admitted run -/

section On
variable {x : MeteredRun (W.size r) k E} {a : GraphExecution.Label (W.size r) k E} {now : Nat}
variable {worker : Option Nat} {run : Run (W.size r) k E}

/-- Whether a run is active changes when it is completed. -/
theorem active_after {e : Option (Event (W.size r))} {level : MetricsLevel}
    {cancelling : List (Option (Fin (W.size r)))} (heff : Effect (W.graph r) e x.run run) :
    (x.after (W.deadline r) level now e run cancelling).active =
      (x.active && decide (e ≠ some .runCompleted)) := by
  have hcompletions := heff.completions
  unfold MeteredRun.active
  show (decide (0 < W.size r) && decide (run.completions = [])) = _
  rw [hcompletions]
  by_cases he : e = some .runCompleted
  · simp [he]
  · simp [he]

variable {x' : MeteredRun (W.size r) k E} {e : Option (Event (W.size r))}

theorem account_active (h : x'.active = x.active) :
    (Phase.admitted x').account (W.graph r) (W.deadline r) none =
      (Phase.admitted x).account (W.graph r) (W.deadline r) none := by
  rw [Phase.account, h, Phase.account]

theorem account_sameNode {m : Fin (W.size r)} (h : SameNode (W.graph r) x x' m) :
    (Phase.admitted x').account (W.graph r) (W.deadline r) (some m) =
      (Phase.admitted x).account (W.graph r) (W.deadline r) (some m) := by
  rw [Phase.account, h.standing, h.pending, Phase.account]

/-- A node that moves on by a record has not posted any of it. -/
theorem account_advances {m : Fin (W.size r)} {rec : List Update} {c : Counter ⊕ Gauge}
    (h : Advances (W.graph r) (W.deadline r) x x' m rec rec) (hc : covered c) :
    ((Phase.admitted x').account (W.graph r) (W.deadline r) (some m)).posted c =
      ((Phase.admitted x).account (W.graph r) (W.deadline r) (some m)).posted c := by
  show (x'.standing _ _ m).posted (x'.pending m) c = (x.standing _ _ m).posted (x.pending m) c
  rw [h.after, h.before]
  exact moves_posted h.moves hc

/-- Every step keeps the accounts and the metrics in balance. -/
theorem Kept.progress (h : Kept s) (hphase : s.runs r = .admitted x)
    (hkept : RunKept (W.graph r) (W.deadline r) s.metrics.level x')
    (hactive : x'.active = (x.active && decide (e ≠ some .runCompleted)))
    (hprogress : Progress (W.graph r) (W.deadline r) s.metrics.level x x' e) :
    Kept ((s.setPhase r (.admitted x')).apply worker
      (record s.metrics.level (e.elim [] (Event.single (W.deadline r))))) := by
  have hstart := h.orderly.admit hkept
  -- with the metrics off nothing is recorded and the laws ask for nothing
  by_cases hoff : s.metrics.level = .off
  · rw [record, if_pos hoff]
    exact ⟨hstart, h.books.change hphase fun hlevel => absurd hoff hlevel⟩
  have hrecord : ∀ updates, record s.metrics.level updates = updates := fun _ => if_neg hoff
  rw [hrecord]
  cases hprogress with
  | quiet he hsame =>
    have hrun : x'.active = x.active := by
      rw [hactive]
      rcases he with rfl | rfl <;> exact Bool.and_true _
    have hall : ∀ o, (Phase.admitted x').account (W.graph r) (W.deadline r) o =
        (Phase.admitted x).account (W.graph r) (W.deadline r) o := by
      intro o
      cases o with
      | none => exact account_active hrun
      | some m => exact account_sameNode (hsame m)
    rcases he with rfl | rfl
    · exact ⟨hstart, h.books.change hphase fun _ o c _ => by rw [hall o]⟩
    · -- the counter of terminal nodes has no law
      refine ⟨hstart.apply .., h.books.post none h.orderly (hstart.apply ..) hphase
        (fun _ c hc => ?_) fun o _ => hall o⟩
      have hnone : outstanding [(Update.inc .graphNodesTerminal).posting] c = 0 :=
        outstanding_of_ne fun p hp => by
          obtain rfl := List.mem_singleton.mp hp
          rintro rfl
          cases hc
      rw [hall none, hnone, Int.add_zero]
  -- the run leaves the active ones, and the same step posts its completion
  | completes hpos hcompletions hsame =>
    have hbefore : x.active = true := by simp [MeteredRun.active, hpos, hcompletions]
    have hafter : x'.active = false := by
      rw [hactive]
      exact Bool.and_false _
    refine ⟨hstart.apply .., h.books.post none h.orderly (hstart.apply ..) hphase
      (fun _ c _ => ?_) fun o ho => ?_⟩
    · rw [Phase.account, Phase.account, hbefore, hafter]
      rcases c with c | g
      · cases c <;> rfl
      · cases g <;> rfl
    · cases o with
      | none => exact absurd rfl ho
      | some m => exact account_sameNode (hsame m)
  -- only the accounts of `m` change, by what the publication of a node with a deadline posts
  | publishes m hadvances hsame =>
    have hothers : ∀ o ≠ some m, (Phase.admitted x').account (W.graph r) (W.deadline r) o =
        (Phase.admitted x).account (W.graph r) (W.deadline r) o := by
      intro o ho
      cases o with
      | none => exact account_active (hactive.trans (Bool.and_true _))
      | some p => exact account_sameNode (hsame p fun hp => ho (congrArg some hp))
    show Kept ((s.setPhase r (.admitted x')).apply worker
      (recordPublished (W.deadline r m).isSome))
    cases hdeadline : (W.deadline r m).isSome with
    | false =>
      rw [hdeadline] at hadvances
      refine ⟨hstart, h.books.change hphase fun _ o c hc => ?_⟩
      by_cases ho : o = some m
      · rw [ho]
        exact account_advances hadvances hc
      · rw [hothers o ho]
    | true =>
      rw [hdeadline] at hadvances
      refine ⟨hstart.apply .., h.books.post (some m) h.orderly (hstart.apply ..) hphase
        (fun _ c hc => ?_) hothers⟩
      show (x'.standing _ _ m).posted (x'.pending m) c =
        (x.standing _ _ m).posted (x.pending m) c + _
      rw [hadvances.after, hadvances.before, ← moves_posted hadvances.moves hc]
      exact Account.posted_post ((x'.standing _ _ m).account _) _ [] c rfl
  -- the node that begins owes its updates and has posted none of them
  | begins m rec hsingle hadvances hsame =>
    rename_i ev
    have hrun : x'.active = x.active := by
      refine hactive.trans ?_
      have hne : some ev ≠ some .runCompleted := by
        rintro heq
        rw [Option.some.inj heq] at hsingle
        cases hsingle
      rw [decide_eq_true hne, Bool.and_true]
    rw [hrecord] at hadvances
    show Kept ((s.setPhase r (.admitted x')).apply worker (ev.single (W.deadline r)))
    rw [hsingle]
    refine ⟨hstart, h.books.change hphase fun _ o c hc => ?_⟩
    cases o with
    | none => rw [account_active hrun]
    | some p =>
      by_cases hp : p = m
      · rw [hp]
        exact account_advances hadvances hc
      · rw [account_sameNode (hsame p hp)]

theorem onRun_cases (h : onRun s r x a now worker = some s') : ∃ run, x.mayAct a ∧
    GraphExecution.step (W.graph r) x.run a = some run ∧
    s' = (s.setPhase r (.admitted (x.after (W.deadline r) s.metrics.level now
      (event (W.graph r) x.run a) run (x.cancellingAfter (event (W.graph r) x.run a) a)))).apply
        worker (record s.metrics.level
          ((event (W.graph r) x.run a).elim [] (Event.single (W.deadline r)))) := by
  unfold onRun at h
  split at h
  · rename_i hact
    obtain ⟨run, hrun, rfl⟩ := Option.map_eq_some_iff.mp h
    exact ⟨run, hact, hrun, rfl⟩
  · cases h

/-- One more update of the record of a node is made. -/
theorem Kept.posts (h : Kept s) {m : Fin (W.size r)} {u : Update}
    (hphase : s.runs r = .admitted x) (hp : Posts (W.graph r) x x' m u) :
    Kept ((s.setPhase r (.admitted x')).apply worker [u]) := by
  have hstart := h.orderly.admit ((h.orderly.admitted r x hphase).posts hp)
  refine ⟨hstart.apply .., h.books.post (some m) h.orderly (hstart.apply ..) hphase
    (fun _ c _ => ?_) fun o ho => ?_⟩
  · show ((x'.standing _ _ m).account (x'.pending m)).posted c = _
    rw [hp.standing m]
    exact Account.posted_post ((x.standing _ _ m).account (x.pending m)) u.posting _ c
      (congrArg (List.map Update.posting) hp.pending)
  · cases o with
    | none => exact account_active (by rw [MeteredRun.active, hp.run, MeteredRun.active])
    | some p => exact account_sameNode (hp.sameNode fun heq => ho (congrArg some heq))

end On

/-- What has been posted before a step is posted after it. -/
theorem Plain.before {a : Label W k E} (h : Plain s') (hs : step s a = some s') : Plain s := by
  -- one run moves on, and if it was admitted, it posts on top of what it has posted
  have hset : ∀ (r : Fin W.count) (phase : Phase (W.size r) k E),
      s'.runs = (s.setPhase r phase).runs →
      (∀ x, s.runs r = .admitted x → ∃ x', phase = .admitted x' ∧
        ∀ m ∈ x.run.posted, m ∈ x'.run.posted) → Plain s := by
    intro r phase hruns hphase r' x hx m hm
    by_cases hr : r' = r
    · subst hr
      obtain ⟨x', rfl, hposted⟩ := hphase x hx
      exact h r' x' (by rw [hruns, setPhase_self]) m (hposted m hm)
    · exact h r' x (by rw [hruns, setPhase_other s phase hr, hx]) m hm
  cases a with
  | acquire r | admission r worker | materialize r =>
    simp only [GraphMetrics.step] at hs
    split at hs <;> cases hs
    rename_i hphase
    exact hset r _ rfl fun x hx => by cases hphase.symm.trans hx
  | on r a now worker =>
    simp only [GraphMetrics.step] at hs
    split at hs
    case h_2 => cases hs
    case h_1 x hphase =>
      obtain ⟨run, -, hrun, rfl⟩ := onRun_cases hs
      refine hset r _ rfl fun y hy => ⟨_, rfl, fun m hm => ?_⟩
      obtain rfl := Phase.admitted.inj (hphase.symm.trans hy)
      show m ∈ run.posted
      rw [(step_effect hrun).posted]
      exact List.mem_append_right _ hm
  | update r m worker | cancelUpdate r m worker =>
    simp only [GraphMetrics.step] at hs
    split at hs
    case h_2 => cases hs
    case h_1 x hphase =>
      split at hs <;> cases hs
      refine hset r _ rfl fun y hy => ⟨_, rfl, fun m hm => ?_⟩
      obtain rfl := Phase.admitted.inj (hphase.symm.trans hy)
      exact hm

/-- A step of a runtime that posts no coroutine node keeps the accounts. -/
theorem Kept.step {a : Label W k E} (h : Kept s) (hplain : Plain s') (hs : step s a = some s') :
    Kept s' := by
  cases a with
  | acquire r =>
    simp only [GraphMetrics.step] at hs
    split at hs <;> cases hs
    rename_i hphase
    exact h.acquire hphase
  | admission r worker =>
    simp only [GraphMetrics.step] at hs
    split at hs <;> cases hs
    rename_i u left hphase
    exact h.admission hphase worker
  | materialize r =>
    simp only [GraphMetrics.step] at hs
    split at hs <;> cases hs
    rename_i hphase
    exact h.materialize hphase
  | on r a now worker =>
    simp only [GraphMetrics.step] at hs
    split at hs
    case h_2 => cases hs
    case h_1 x hphase =>
      obtain ⟨run, hact, hrun, rfl⟩ := onRun_cases hs
      have hx := h.orderly.admitted r x hphase
      have hposted : ∀ m ∈ run.posted, (W.graph r).isCoroutineNode m = false :=
        hplain r _ (setPhase_self s _)
      exact h.progress hphase (hx.step hact hrun hposted rfl) (active_after (step_effect hrun))
        (hx.progress hact hrun hposted rfl)
  | update r m worker =>
    simp only [GraphMetrics.step] at hs
    split at hs
    case h_2 => cases hs
    case h_1 x hphase =>
      split at hs <;> cases hs
      rename_i u left hleft
      exact h.posts hphase (.update hleft)
  | cancelUpdate r m worker =>
    simp only [GraphMetrics.step] at hs
    split at hs
    case h_2 => cases hs
    case h_1 x hphase =>
      split at hs <;> cases hs
      rename_i u left hleft
      exact h.posts hphase (.cancelUpdate ((h.orderly.admitted r x hphase).node m) hleft)

theorem Kept.initial (h : Initial s) : Kept s where
  orderly := {
    admitted := fun r x hx => by cases (h.runs r).symm.trans hx
    admitting := fun r left hleft => by cases (h.runs r).symm.trans hleft }
  books := by
    intro _ _ c _
    obtain ⟨level, hmetrics⟩ := h.metrics
    refine .of_zero (by rw [hmetrics, init_books]) fun i _ => ?_
    rw [State.account, h.runs i.1]
    rfl

/-- **The metrics balance with the accounts** in every run that posts no coroutine node. -/
theorem Kept.of_reachable (hs : (machine W k E).Reachable s) (hplain : Plain s) : Kept s := by
  refine hs.invariant (fun s => Plain s → Kept s) (fun s hinit _ => .initial hinit) ?_ hplain
  intro s a s' hkept _ hstep hplain
  exact (hkept (hplain.before hstep)).step hplain hstep

/-! ## At rest -/

/-- Nobody has anything left to do for the run or to record of it, and all nodes are terminal. -/
structure MeteredRun.AtRest {n : Nat} (x : MeteredRun n k E) : Prop where
  idle : x.run.Idle
  terminal : ∀ m, (x.run.entries m).outcome.terminal
  recorded : ∀ m, x.left m = [] ∧ x.cancelLeft m = []

/-- Every run that has been called is at rest. -/
def Quiescent (s : State W k E) : Prop :=
  ∀ r, s.runs r = .uncalled ∨ ∃ x, s.runs r = .admitted x ∧ x.AtRest

instance {n : Nat} (x : MeteredRun n k E) : Decidable x.AtRest :=
  decidable_of_iff ((x.run.roots = [] ∧ x.run.queue = [] ∧ ∀ w, x.run.workers w = []) ∧
      (∀ m, (x.run.entries m).outcome.terminal) ∧ ∀ m, x.left m = [] ∧ x.cancelLeft m = [])
    ⟨fun h => ⟨⟨h.1.1, h.1.2.1, h.1.2.2⟩, h.2.1, h.2.2⟩,
      fun h => ⟨⟨h.idle.roots, h.idle.queue, h.idle.workers⟩, h.terminal, h.recorded⟩⟩

/-- A condition on the admitted runs can be decided. -/
instance {n : Nat} (phase : Phase n k E) (P : MeteredRun n k E → Prop) [∀ x, Decidable (P x)] :
    Decidable (∀ x, phase = .admitted x → P x) :=
  match phase with
  | .uncalled | .admitting _ => .isTrue fun _ hx => by cases hx
  | .admitted x => decidable_of_iff (P x)
      ⟨fun h _ hy => Phase.admitted.inj hy ▸ h, fun h => h x rfl⟩

instance {n : Nat} (phase : Phase n k E) (P : MeteredRun n k E → Prop) [∀ x, Decidable (P x)] :
    Decidable (phase = .uncalled ∨ ∃ x, phase = .admitted x ∧ P x) :=
  match phase with
  | .uncalled => .isTrue (.inl rfl)
  | .admitting _ => .isFalse fun h => by
      rcases h with h | ⟨_, h, _⟩ <;> cases h
  | .admitted x => decidable_of_iff (P x)
      ⟨fun h => .inr ⟨x, rfl, h⟩, fun h => by
        rcases h with h | ⟨_, h, hx⟩
        · cases h
        · exact Phase.admitted.inj h ▸ hx⟩

instance : Decidable (Plain s) :=
  inferInstanceAs (Decidable (∀ r x, s.runs r = .admitted x →
    ∀ m ∈ x.run.posted, (W.graph r).isCoroutineNode m = false))

instance : Decidable (Quiescent s) :=
  inferInstanceAs (Decidable (∀ r, s.runs r = .uncalled ∨ ∃ x, s.runs r = .admitted x ∧ x.AtRest))

/-- The outcome of the node is recorded: the code of an ordinary node has run, and a coroutine
node without deadline was cancelled before it was posted. -/
def MeteredRun.Counted {n : Nat} (g : FrozenTaskGraph n) (deadline : Fin n → Option Nat)
    (x : MeteredRun n k E) (m : Fin n) : Prop :=
  if g.isCoroutineNode m then (x.run.entries m).taskState = .cancelled ∧ deadline m = none
  else (x.run.entries m).body = .finished

def AllCounted (s : State W k E) : Prop :=
  ∀ r x, s.runs r = .admitted x → ∀ m, x.Counted (W.graph r) (W.deadline r) m

instance {n : Nat} (g : FrozenTaskGraph n) (deadline : Fin n → Option Nat)
    (x : MeteredRun n k E) (m : Fin n) : Decidable (x.Counted g deadline m) :=
  inferInstanceAs (Decidable (if g.isCoroutineNode m then
    (x.run.entries m).taskState = .cancelled ∧ deadline m = none
  else (x.run.entries m).body = .finished))

instance : Decidable (AllCounted s) :=
  inferInstanceAs (Decidable (∀ r x, s.runs r = .admitted x →
    ∀ m, x.Counted (W.graph r) (W.deadline r) m))

section Rest
variable {n : Nat} {g : FrozenTaskGraph n} {deadline : Fin n → Option Nat} {level : MetricsLevel}
variable {x : MeteredRun n k E} {m : Fin n}

/-- A run at rest is complete. -/
theorem RunKept.completed (h : RunKept g deadline level x) (hrest : x.AtRest) :
    x.run.runState ≠ .running :=
  h.plain.books.idle_completed hrest.idle h.plain.ordinary.awake

theorem RunKept.active_eq_false (h : RunKept g deadline level x) (hrest : x.AtRest) :
    x.active = false := by
  have hstored := (h.plain.books.runSafety fun _ => h.plain.ordinary.awake).left
    (h.completed hrest)
  by_cases hpos : 0 < n
  · simp [MeteredRun.active, hstored hpos]
  · simp [MeteredRun.active, hpos]

/-- By how much an account that comes to rest misses the laws: it may still be counted as
accepted, and if not, its deadline may not have been admitted. -/
structure Misses (posted : Counter ⊕ Gauge → Int) (counted : Prop) : Prop where
  nonneg : 0 ≤ Law.accepted.gap posted
  le : Law.accepted.gap posted = 0 → Law.deadlines.gap posted ≤ 0
  met : Law.accepted.gap posted = 0 → Law.deadlines.gap posted = 0 → counted
  zero : counted → ∀ law : Law, law.gap posted = 0

theorem Misses.of_zero {posted : Counter ⊕ Gauge → Int} {counted : Prop}
    (h : ∀ law : Law, law.gap posted = 0) (hcounted : counted) : Misses posted counted :=
  ⟨(h _).ge, fun _ => (h _).le, fun _ _ => hcounted, fun _ => h⟩

/-- A node that stays ready is accepted and has no outcome. -/
theorem misses_ready {counted : Prop} (published : Bool) (d : Bool) (p : DeadlineDisposition)
    (hno : ¬ counted) : Misses ((⟨.ready published, d, p⟩ : Standing).posted []) counted := by
  have hone : Law.accepted.gap ((⟨.ready published, d, p⟩ : Standing).posted []) = 1 := by
    cases published <;> cases d <;> cases p <;> decide
  refine ⟨by rw [hone]; decide, fun hzero => ?_, fun hzero => ?_, fun h => absurd h hno⟩
  · rw [hone] at hzero
    cases hzero
  · rw [hone] at hzero
    cases hzero

/-- A node that is cancelled before it is posted has its outcome, but not its deadline. -/
theorem misses_cancelled {counted : Prop} (d : Bool) (p : DeadlineDisposition)
    (hcounted : counted ↔ d = false) :
    Misses ((⟨.cancelledBeforeStart false, d, p⟩ : Standing).posted []) counted := by
  cases d with
  | false =>
    refine .of_zero ?_ (hcounted.mpr rfl)
    cases p <;> decide
  | true =>
    have hno : ¬ counted := fun h => Bool.noConfusion (hcounted.mp h)
    have hgap : Law.accepted.gap
        ((⟨.cancelledBeforeStart false, true, p⟩ : Standing).posted []) = 0 ∧
        Law.deadlines.gap
          ((⟨.cancelledBeforeStart false, true, p⟩ : Standing).posted []) = -1 := by
      cases p <;> decide
    obtain ⟨haccepted, hdeadlines⟩ := hgap
    refine ⟨haccepted.ge, fun _ => by rw [hdeadlines]; decide, fun _ hzero => ?_,
      fun h => absurd h hno⟩
    rw [hdeadlines] at hzero
    cases hzero

/-- An ordinary node of a run at rest has finished, or it has never started. -/
theorem RunKept.body_rest (h : RunKept g deadline level x) (hrest : x.AtRest) (m : Fin n) :
    (x.run.entries m).body = .unstarted ∨ (x.run.entries m).body = .finished := by
  have hmarked := (h.plain.books.runCompleted (h.completed hrest)).marked m
  exact h.plain.bodies.of_marked h.plain.books.ledger
    (List.count_pos_iff.mp (Nat.lt_of_lt_of_eq Nat.one_pos hmarked.symm))

/-- **A node of a run at rest** obeys the laws if and only if its outcome is recorded. -/
theorem RunKept.misses (h : RunKept g deadline level x) (hrest : x.AtRest) (m : Fin n) :
    Misses ((x.standing g deadline m).posted (x.pending m)) (x.Counted g deadline m) := by
  have hpending : x.pending m = [] := by
    obtain ⟨hleft, hcancelLeft⟩ := hrest.recorded m
    rw [MeteredRun.pending, hleft, hcancelLeft, List.nil_append]
  rw [hpending]
  by_cases hcor : g.isCoroutineNode m = true
  · have hstage := stage_coroutine (x := x) hcor
    have hcounted : x.Counted g deadline m ↔
        (x.run.entries m).taskState = .cancelled ∧ deadline m = none := by
      rw [MeteredRun.Counted, if_pos hcor]
    by_cases hcancelled : (x.run.entries m).taskState = .cancelled
    · rw [if_pos hcancelled] at hstage
      rw [standing_of hstage]
      refine misses_cancelled _ _ (hcounted.trans ?_)
      rw [Option.isSome_eq_false_iff, Option.isNone_iff_eq_none]
      exact and_iff_right hcancelled
    · rw [if_neg hcancelled] at hstage
      rw [standing_of hstage]
      exact misses_ready _ _ _ fun hc => hcancelled (hcounted.mp hc).1
  · have hord := Bool.eq_false_of_not_eq_true hcor
    have hcounted : x.Counted g deadline m ↔ (x.run.entries m).body = .finished := by
      rw [MeteredRun.Counted, if_neg hcor]
    rcases h.body_rest hrest m with hbody | hbody
    · rw [standing_of (stage_ordinary hord hbody)]
      refine misses_ready _ _ _ fun hc => ?_
      cases hbody.symm.trans (hcounted.mp hc)
    · have hstage := stage_ordinary hord hbody
      have hregular : (x.standing g deadline m).Regular := by
        refine ⟨?_, (h.node m).judged⟩
        rw [standing_of hstage]
        rfl
      have hterm : (x.standing g deadline m).stage.terminal := by
        rw [standing_of hstage]
        rfl
      obtain ⟨r, hr, hleft⟩ := (h.node m).recorded
      rw [hpending] at hleft
      exact .of_zero ((Standing.gap_terminal _ hterm hregular hr hleft).2.mpr rfl)
        (hcounted.mpr hbody)

end Rest

/-- Accounts at rest obey the laws together if and only if each is counted. -/
theorem gaps_eq_zero_iff {ι : Type*} [Fintype ι] {posted : ι → Counter ⊕ Gauge → Int}
    {counted : ι → Prop} (h : ∀ i, Misses (posted i) (counted i)) :
    (∀ law : Law, ∑ i, law.gap (posted i) = 0) ↔ ∀ i, counted i := by
  constructor
  · intro hzero
    have haccepted : ∀ i, Law.accepted.gap (posted i) = 0 := fun i =>
      (Finset.sum_eq_zero_iff_of_nonneg fun i _ => (h i).nonneg).mp (hzero _) i (Finset.mem_univ i)
    have hdeadlines : ∀ i, Law.deadlines.gap (posted i) = 0 := fun i =>
      (Finset.sum_eq_zero_iff_of_nonpos fun i _ => (h i).le (haccepted i)).mp (hzero _) i
        (Finset.mem_univ i)
    exact fun i => (h i).met (haccepted i) (hdeadlines i)
  · intro hcounted law
    exact Finset.sum_eq_zero fun i _ => (h i).zero (hcounted i) law

/-- What an account has to be counted for: a run has no law to miss. -/
def Owner.Counted (s : State W k E) (i : Owner W) : Prop :=
  ∀ x, s.runs i.1 = .admitted x → ∀ m, i.2 = some m →
    x.Counted (W.graph i.1) (W.deadline i.1) m

theorem allCounted_iff : AllCounted s ↔ ∀ i : Owner W, i.Counted s := by
  constructor
  · intro h i x hx m _
    exact h i.1 x hx m
  · intro h r x hx m
    exact h ⟨r, some m⟩ x hx m rfl

theorem Kept.misses (h : Kept s) (hrest : Quiescent s) (i : Owner W) :
    Misses (s.account i).posted (i.Counted s) := by
  obtain ⟨r, o⟩ := i
  rcases hrest r with hphase | ⟨x, hphase, hx⟩
  · refine .of_zero (fun law => ?_) fun x hx => by cases hphase.symm.trans hx
    rw [State.account, hphase]
    cases law <;> rfl
  · cases o with
    | none =>
      refine .of_zero (fun law => ?_) fun x _ m hm => by cases hm
      rw [State.account, hphase]
      cases law <;> rfl
    | some m =>
      have hcounted : Owner.Counted s ⟨r, some m⟩ ↔
          x.Counted (W.graph r) (W.deadline r) m := by
        constructor
        · intro hc
          exact hc x hphase m rfl
        · intro hc y hy p hp
          obtain rfl := Phase.admitted.inj (hphase.symm.trans hy)
          obtain rfl := Option.some.inj hp
          exact hc
      rw [hcounted, State.account, hphase]
      exact (h.orderly.admitted r x hphase).misses hx m

/-- No run at rest is active. -/
theorem Kept.active_eq_zero (h : Kept s) (hrest : Quiescent s) (i : Owner W) :
    (s.account i).posted (.inr .activeGraphRuns) = 0 := by
  obtain ⟨r, o⟩ := i
  rw [State.account]
  rcases hrest r with hphase | ⟨x, hphase, hx⟩
  · rw [hphase]
    rfl
  · have hkept := h.orderly.admitted r x hphase
    rw [hphase]
    cases o with
    | none =>
      rw [Phase.account, hkept.active_eq_false hx]
      rfl
    | some m =>
      obtain ⟨record, hrecord, hleft⟩ := (hkept.node m).recorded
      exact (posted_runs _ hrecord hleft).2

/-- **Conservation of graph runs at rest.**  As long as no coroutine node is posted, the
metrics obey the laws if and only if the code of every ordinary node has run and every
coroutine node was cancelled and has no deadline. -/
theorem conserved_iff_allCounted (hs : (machine W k E).Reachable s)
    (hsaturated : s.metrics.snapshot.saturated = false) (hrest : Quiescent s)
    (hplain : s.metrics.level ≠ .off → Plain s) :
    (s.metrics.snapshot.Conserved ∧ s.metrics.snapshot.gauges .activeGraphRuns = 0) ↔
      s.metrics.level = .off ∨ AllCounted s := by
  by_cases hoff : s.metrics.level = .off
  · refine iff_of_true ⟨conserved_of_off hoff, ?_⟩ (.inl hoff)
    rw [snapshot, if_pos hoff]
  have hkept := Kept.of_reachable hs (hplain hoff)
  have hexact := (saturated_eq_false_iff hoff).mp hsaturated
  have hgap : ∀ law : Law, law.gap s.metrics.books = ∑ i, law.gap (s.account i).posted :=
    fun law => law.gap_sum Finset.univ (fun i => (s.account i).posted) fun c hc =>
      hkept.books hoff hexact c (by rw [covered, hc, Bool.true_or])
  have hactive : s.metrics.snapshot.gauges .activeGraphRuns = 0 := by
    have hbooks : s.metrics.books (.inr .activeGraphRuns) = _ :=
      hkept.books hoff hexact (.inr .activeGraphRuns) rfl
    rw [Finset.sum_eq_zero fun i _ => hkept.active_eq_zero hrest i] at hbooks
    rw [snapshot, if_neg hoff]
    exact Int.ofNat_inj.mp hbooks
  calc s.metrics.snapshot.Conserved ∧ s.metrics.snapshot.gauges .activeGraphRuns = 0
      ↔ s.metrics.snapshot.Conserved := and_iff_left hactive
    _ ↔ ∀ law : Law, law.gap s.metrics.books = 0 := conserved_iff hexact hoff
    _ ↔ ∀ law : Law, ∑ i, law.gap (s.account i).posted = 0 := by simp only [hgap]
    _ ↔ ∀ i : Owner W, i.Counted s := gaps_eq_zero_iff (hkept.misses hrest)
    _ ↔ AllCounted s := allCounted_iff.symm
    _ ↔ s.metrics.level = .off ∨ AllCounted s := (or_iff_right hoff).symm

end Steps

/-! ## A failure and a propagated cancel -/

/-- Two ordinary nodes, of which the second requires the success of the first. -/
def chainWorkload : Workload where
  count := 1
  size _ := 2
  graph _ := GraphExecution.chain
  deadline _ _ := none

/-- A runtime with one worker. -/
def idleRuntime : State chainWorkload 1 Nat where
  metrics := RuntimeMetrics.init .basic 1
  runs _ := .uncalled

theorem idleRuntime_initial : (machine chainWorkload 1 Nat).init idleRuntime :=
  ⟨⟨.basic, rfl⟩, fun _ => rfl⟩

/-- Worker 0 takes a step of the run. -/
def chainStep (a : GraphExecution.Label 2 1 Nat) : Label chainWorkload 1 Nat :=
  .on (W := chainWorkload) (0 : Fin 1) a 0 (some 0)

/-- Worker 0 makes the next `count` updates of the record of node `m`. -/
def chainUpdates (m : Fin 2) (count : Nat) : List (Label chainWorkload 1 Nat) :=
  List.replicate count (.update (W := chainWorkload) (0 : Fin 1) m (some 0))

/-- The code of node `m` runs on worker 0 and ends. -/
def chainNode (m : Fin 2) (result : BodyResult Nat) : List (Label chainWorkload 1 Nat) :=
  ([chainStep (.claim 0 m false), chainStep (.step 0)] : List (Label chainWorkload 1 Nat)) ++
    chainUpdates m 3 ++ ([chainStep (.finish 0 result)] : List (Label chainWorkload 1 Nat)) ++
    chainUpdates m 2

/-- The graph is admitted, and the root is posted. -/
def chainAdmitted : List (Label chainWorkload 1 Nat) :=
  [Label.acquire (W := chainWorkload) (0 : Fin 1)] ++
    List.replicate 4 (Label.admission (W := chainWorkload) (0 : Fin 1) none) ++
      [.materialize (W := chainWorkload) (0 : Fin 1), chainStep .postRoot]

/-- Both nodes return. -/
def returnedRun : List (Label chainWorkload 1 Nat) :=
  chainAdmitted ++ chainNode 0 .returned ++
    (List.replicate 10 (chainStep (.step 0)) : List (Label chainWorkload 1 Nat)) ++
    chainNode 1 .returned ++
    (List.replicate 6 (chainStep (.step 0)) : List (Label chainWorkload 1 Nat))

/-- The first node throws, and the second is cancelled. -/
def threwRun : List (Label chainWorkload 1 Nat) :=
  chainAdmitted ++ chainNode 0 (.threw 7) ++
    (List.replicate 14 (chainStep (.step 0)) : List (Label chainWorkload 1 Nat))

/-- When both nodes have run, the laws hold. -/
theorem returned_counted : ∃ s, (machine chainWorkload 1 Nat).run idleRuntime returnedRun = some s ∧
    s.metrics.level = .basic ∧ s.metrics.snapshot.Conserved := by
  obtain ⟨s, hs⟩ := Option.isSome_iff_exists.mp
    (show ((machine chainWorkload 1 Nat).run idleRuntime returnedRun).isSome by decide)
  have hend : ((machine chainWorkload 1 Nat).run idleRuntime returnedRun).map (fun s =>
      decide (s.metrics.level = .basic ∧ s.metrics.snapshot.saturated = false ∧ Quiescent s ∧
        Plain s ∧ AllCounted s)) = some true := by
    decide
  simp only [hs, Option.map_some, Option.some.injEq, decide_eq_true_eq] at hend
  obtain ⟨hlevel, hsaturated, hrest, hplain, hcounted⟩ := hend
  have hreach := Transition.Machine.reachable_of_run idleRuntime_initial hs
  exact ⟨s, hs, hlevel,
    ((conserved_iff_allCounted hreach hsaturated hrest fun _ => hplain).mpr (.inr hcounted)).1⟩

/-- The node that is cancelled because its predecessor threw stays accepted and ready. -/
theorem cancelled_not_recorded : ∃ s, (machine chainWorkload 1 Nat).Reachable s ∧
    s.metrics.snapshot.saturated = false ∧ Quiescent s ∧ ¬ s.metrics.snapshot.Conserved := by
  obtain ⟨s, hs⟩ := Option.isSome_iff_exists.mp
    (show ((machine chainWorkload 1 Nat).run idleRuntime threwRun).isSome by decide)
  have hend : ((machine chainWorkload 1 Nat).run idleRuntime threwRun).map (fun s =>
      decide (s.metrics.snapshot.saturated = false ∧ Quiescent s ∧
        s.metrics.snapshot.gauges .readyTasks = 1)) = some true := by
    decide
  simp only [hs, Option.map_some, Option.some.injEq, decide_eq_true_eq] at hend
  obtain ⟨hsaturated, hrest, hready⟩ := hend
  refine ⟨s, Transition.Machine.reachable_of_run idleRuntime_initial hs, hsaturated, hrest,
    fun h => ?_⟩
  rw [h.readyTasks] at hready
  cases hready

end GraphMetrics
end AstraScheduler
