import AstraScheduler.ReaperSafety

/-! # Finalized and the end of the coordinator

`try_join_exited_coordinator_locked` moves the thread object out of `coordinator_thread_` and
joins it unlocked.  Until it has the lock again, the null pointer looks to another wait as if
no coordinator had ever been started.  The claim of the module is that this test during a join
is the only way in which Finalized can come before the join. -/

namespace AstraScheduler.ReaperRegistry
variable {κ ρ : Type}

/-- No coordinator thread was ever started, or it has left its loop and was joined. -/
def Process.CoordinatorGone (s : Process κ ρ) : Prop :=
  s.coordinator = .notStarted ∨ s.coordinator = .joined

/-- **Finalized implies that the coordinator is gone**, and so does a wait that has returned
(or reported Completed). -/
structure FinalizedMeansGone (s : Process κ ρ) : Prop where
  state : s.registry.state = .finalized → s.CoordinatorGone
  returned : ∀ w ∈ s.waits, w.pc = .returned true → s.CoordinatorGone

/-- The next locked section of a wait tests `coordinator_thread_` in a state that is not
Finalized, and finds the null pointer. -/
def Wait.findsNoThread (r : Registry κ ρ) (w : Wait) : Bool :=
  match w.pc, w.call with
  | .entering false, _ => decide (r.state ≠ .finalized) && !r.coordinatorThread
  | .parked, .wait =>
    r.finalizationWakes && decide (r.state ≠ .finalized) && !r.coordinatorThread
  | _, _ => false

/-- Some wait is inside the join of the thread object it has moved out. -/
def Process.JoinPending (s : Process κ ρ) : Prop :=
  ∃ w ∈ s.waits, ∃ b, w.pc = .joining b

/-- No wait tests the pointer while another one is joining. -/
def NoTestDuringJoin (s : Process κ ρ) : Label κ ρ → Prop
  | .waitStep i _ => ∀ w ∈ s.waits[i]?, w.findsNoThread s.registry → ¬ s.JoinPending
  | _ => True

instance (s : Process κ ρ) : Decidable s.JoinPending :=
  decidable_of_iff (∃ w ∈ s.waits, w.pc = .joining false ∨ w.pc = .joining true) <| by
    simp [Process.JoinPending]

instance (s : Process κ ρ) : (a : Label κ ρ) → Decidable (NoTestDuringJoin s a)
  | .waitStep i _ =>
    inferInstanceAs (Decidable (∀ w ∈ s.waits[i]?, w.findsNoThread s.registry → ¬ s.JoinPending))
  | .registerRuntime .. | .unregisterRuntime _ | .replaceCleanupFn .. | .executeWorkerHandoff ..
  | .notifyJoinReady _ | .closeRegistration | .requestAllImmediate | .beginCallback _
  | .endCallback _ | .destroyImpl _ | .coordinatorPass | .coordinatorCleanup | .coordinatorReturn
  | .callWait .. | .waitJoin _ => .isTrue trivial

/-! ## What a section of a wait can do -/

/-- A section that changes nothing leaves a wait at a place where it waits, or gives it up
or, once Finalized, lets it return. -/
def WaitPc.idle (r : Registry κ ρ) : WaitPc → Prop
  | .threw | .parked | .parkedFinal => True
  | .returned completed => completed → r.state = .finalized
  | .entering _ | .joining _ | .joined => False

inductive WaitOutcome (r : Registry κ ρ) (w : Wait) : Registry κ ρ × WaitPc → Prop
  | idle {pc : WaitPc} (hidle : pc.idle r) : WaitOutcome r w (r, pc)
  | noThread (hfinds : w.findsNoThread r) : WaitOutcome r w (r.markFinalized, .returned true)
  | join {r' : Registry κ ρ} (hjoin : r.tryJoinExitedCoordinator = some r') :
    WaitOutcome r w (r', .joining r.coordinatorThread)
  | finish (hjoined : w.pc = .joined) : WaitOutcome r w (r.finishJoin, .returned true)

variable {r r' : Registry κ ρ} {w : Wait}

theorem idle_report (r : Registry κ ρ) : r.report.idle r := by
  intro hcompleted
  exact of_decide_eq_true hcompleted

theorem WaitOutcome.joinOr {otherwise : WaitPc} (hidle : otherwise.idle r) :
    WaitOutcome r w (r.joinOr otherwise) := by
  unfold Registry.joinOr
  split
  · exact .join ‹_›
  · exact .idle hidle

theorem WaitOutcome.waitFinalization
    (hfinds : r.state ≠ .finalized → r.coordinatorThread = false → w.findsNoThread r) :
    WaitOutcome r w r.waitFinalization := by
  unfold Registry.waitFinalization
  split
  · exact .idle fun _ => ‹_›
  · split
    · exact .noThread (hfinds ‹_› (by simpa using ‹¬ r.coordinatorThread = true›))
    · split
      · exact .joinOr trivial
      · exact .idle trivial

theorem WaitOutcome.waitFinalizationForLoop (expired : Bool) :
    WaitOutcome r w (r.waitFinalizationForLoop expired) := by
  unfold Registry.waitFinalizationForLoop
  split
  · exact .idle fun _ => ‹_›
  · split
    · exact .joinOr trivial
    · split
      · exact .idle (idle_report r)
      · exact .idle trivial

theorem WaitOutcome.waitFinalizationFor (positive expired : Bool)
    (hfinds : r.state ≠ .finalized → r.coordinatorThread = false → w.findsNoThread r) :
    WaitOutcome r w (r.waitFinalizationFor positive expired) := by
  unfold Registry.waitFinalizationFor
  split
  · exact .idle fun _ => ‹_›
  · split
    · exact .noThread (hfinds ‹_› (by simpa using ‹¬ r.coordinatorThread = true›))
    · split
      · split
        · exact .joinOr (idle_report r)
        · exact .idle (idle_report r)
      · exact .waitFinalizationForLoop expired

theorem waitStep_outcome {expired : Bool} {out : Registry κ ρ × WaitPc}
    (hs : w.step r expired = some out) : WaitOutcome r w out := by
  obtain ⟨call, pc⟩ := w
  unfold Wait.step at hs
  split at hs
  · cases hs
    exact .idle trivial
  · cases hs
    apply WaitOutcome.waitFinalization
    simp_all [Wait.findsNoThread]
  · cases hs
    apply WaitOutcome.waitFinalizationFor
    simp_all [Wait.findsNoThread]
  · split at hs
    · cases hs
      apply WaitOutcome.waitFinalization
      simp_all [Wait.findsNoThread]
    · cases hs
  · split at hs
    · cases hs
      exact .waitFinalizationForLoop expired
    · split at hs
      · cases hs
        split
        · exact .joinOr trivial
        · exact .idle (idle_report r)
      · cases hs
  · split at hs
    · cases hs
      exact .idle fun _ => ‹_›
    · cases hs
  · split at hs
    · cases hs
      exact .idle (idle_report r)
    · cases hs
  · cases hs
    exact .finish ‹_›
  · cases hs
  · cases hs
  · cases hs

/-- A wait that finds the null pointer declares Finalized and returns. -/
theorem waitStep_noThread (hfinds : w.findsNoThread r) (expired : Bool) :
    w.step r expired = some (r.markFinalized, .returned true) := by
  obtain ⟨call, pc⟩ := w
  unfold Wait.findsNoThread at hfinds
  split at hfinds
  case h_1 hpc =>
    simp only [Bool.and_eq_true, decide_eq_true_eq, Bool.not_eq_true'] at hfinds
    simp only at hpc
    subst hpc
    cases call <;>
      simp [Wait.step, Registry.waitFinalization, Registry.waitFinalizationFor, hfinds.1, hfinds.2]
  case h_2 hpc hcall =>
    simp only [Bool.and_eq_true, decide_eq_true_eq, Bool.not_eq_true'] at hfinds
    simp only at hpc hcall
    subst hpc hcall
    simp [Wait.step, Registry.waitFinalization, hfinds.1.1, hfinds.1.2, hfinds.2]
  case h_3 => cases hfinds

theorem tryJoin_cases (hjoin : r.tryJoinExitedCoordinator = some r') :
    r.state ≠ .finalized ∧ r.coordinatorExited = true ∧ r.coordinatorJoinInProgress = false ∧
      r' = { r with coordinatorJoinInProgress := true, coordinatorThread := false } := by
  unfold Registry.tryJoinExitedCoordinator at hjoin
  split at hjoin
  · cases hjoin
  · rename_i hno
    cases hjoin
    simp only [not_or, Bool.not_eq_true, Bool.not_eq_false] at hno
    exact ⟨hno.1, hno.2.1, hno.2.2.2.2, rfl⟩

/-! ## The invariant -/

/-- Where the thread object is.  A registry that is open has it, or has never had one; later
it is in the registry, with the one wait that joins it, or joined. -/
structure JoinOrder (s : Process κ ρ) : Prop where
  thread : s.registry.coordinatorThread = true → ¬ s.CoordinatorGone
  owner : s.registry.coordinatorThread = false → s.CoordinatorGone ∨ s.JoinPending
  unstarted : s.registry.coordinatorThread = false → s.registry.state = .opened →
    s.coordinator = .notStarted
  exited : s.registry.coordinatorExited = true → s.registry.state ≠ .opened
  joining : ∀ w ∈ s.waits, ∀ b, w.pc = .joining b → b = true ∧
    s.registry.coordinatorThread = false ∧ s.registry.coordinatorJoinInProgress = true ∧
    s.registry.state ≠ .opened ∧ ¬ s.CoordinatorGone
  unique : ∀ (i j : Nat) (v w : Wait) (b c : Bool), s.waits[i]? = some v → s.waits[j]? = some w →
    v.pc = .joining b → w.pc = .joining c → i = j
  joined : ∀ w ∈ s.waits, w.pc = .joined → s.coordinator = .joined ∧ s.registry.state ≠ .opened
  moved : s.registry.coordinatorExited = true → s.registry.coordinatorThread = false →
    s.registry.coordinatorJoinInProgress = true ∨ s.registry.state = .finalized
  finalized : s.registry.state = .finalized → s.CoordinatorGone
  returned : ∀ w ∈ s.waits, w.pc = .returned true → s.registry.state = .finalized

variable {s s' : Process κ ρ}

theorem JoinOrder.finalizedMeansGone (h : JoinOrder s) : FinalizedMeansGone s :=
  ⟨h.finalized, fun w hw hpc => h.finalized (h.returned w hw hpc)⟩

/-- Sections on the tables leave the flags, the threads and the waits as they were. -/
theorem JoinOrder.congr (h : JoinOrder s) (hstate : s'.registry.state = s.registry.state)
    (hthread : s'.registry.coordinatorThread = s.registry.coordinatorThread)
    (hexited : s'.registry.coordinatorExited = s.registry.coordinatorExited)
    (hprogress :
      s'.registry.coordinatorJoinInProgress = s.registry.coordinatorJoinInProgress)
    (hcoordinator : s'.coordinator = s.coordinator) (hwaits : s'.waits = s.waits) :
    JoinOrder s' := by
  have hgone : s'.CoordinatorGone ↔ s.CoordinatorGone := by
    unfold Process.CoordinatorGone
    rw [hcoordinator]
  have hpending : s'.JoinPending ↔ s.JoinPending := by
    unfold Process.JoinPending
    rw [hwaits]
  constructor
  · rw [hthread, hgone]; exact h.thread
  · rw [hthread, hgone, hpending]; exact h.owner
  · rw [hthread, hstate, hcoordinator]; exact h.unstarted
  · rw [hexited, hstate]; exact h.exited
  · rw [hwaits, hthread, hprogress, hstate, hgone]; exact h.joining
  · rw [hwaits]; exact h.unique
  · rw [hwaits, hcoordinator, hstate]; exact h.joined
  · rw [hexited, hthread, hprogress, hstate]; exact h.moved
  · rw [hstate, hgone]; exact h.finalized
  · rw [hwaits, hstate]; exact h.returned

/-- Steps of a coordinator that stays unjoined. -/
theorem JoinOrder.advance (h : JoinOrder s) (hbusy : ¬ s.CoordinatorGone)
    (hbusy' : ¬ s'.CoordinatorGone) (hstate : s'.registry.state = s.registry.state)
    (hthread : s'.registry.coordinatorThread = s.registry.coordinatorThread)
    (hexited : s'.registry.coordinatorExited = true → s.registry.state ≠ .opened)
    (hprogress :
      s'.registry.coordinatorJoinInProgress = s.registry.coordinatorJoinInProgress)
    (hwaits : s'.waits = s.waits) : JoinOrder s' := by
  have hpending : s.registry.coordinatorThread = false → s.JoinPending := fun hno =>
    (h.owner hno).resolve_left hbusy
  constructor
  · exact fun _ => hbusy'
  · intro hno
    rw [hthread] at hno
    unfold Process.JoinPending
    rw [hwaits]
    exact Or.inr (hpending hno)
  · intro hno hopen
    rw [hthread] at hno
    rw [hstate] at hopen
    exact absurd (Or.inl (h.unstarted hno hopen)) hbusy
  · rw [hstate]
    exact hexited
  · intro w hw b hpc
    rw [hwaits] at hw
    obtain ⟨hb, hno, hprogress', hopen, -⟩ := h.joining w hw b hpc
    exact ⟨hb, hthread.trans hno, hprogress.trans hprogress', by rwa [hstate], hbusy'⟩
  · rw [hwaits]
    exact h.unique
  · intro w hw hpc
    rw [hwaits] at hw
    exact absurd (Or.inr (h.joined w hw hpc).1) hbusy
  · intro _ hno
    rw [hthread] at hno
    obtain ⟨w, hw, b, hpc⟩ := hpending hno
    exact Or.inl (hprogress.trans (h.joining w hw b hpc).2.2.1)
  · rw [hstate]
    exact fun hfinal => absurd (h.finalized hfinal) hbusy
  · rw [hwaits, hstate]
    exact h.returned

/-! ## The steps that matter -/

theorem JoinOrder.register (h : JoinOrder s) (id : RuntimeId)
    (graceful immediate cleanup : Option κ) :
    JoinOrder (s.registerRuntime id graceful immediate cleanup) := by
  unfold Process.registerRuntime
  obtain ⟨-, hout⟩ | ⟨hopen, r', hout, hopen', -, -, hthread', -, hexited'⟩ :=
    registerRuntime_cases s.registry id graceful immediate cleanup
  · rw [hout]
    refine h.congr rfl rfl rfl rfl ?_ rfl
    simp
  · rw [hout]
    dsimp only
    have hexited : r'.coordinatorExited = false :=
      hexited' (by simpa using fun he => h.exited he hopen)
    -- an open registry has no wait that joins, has joined or has returned
    have hnone : ∀ w ∈ s.waits, (∀ b, w.pc ≠ .joining b) ∧ w.pc ≠ .joined ∧
        w.pc ≠ .returned true := fun w hw =>
      ⟨fun b hpc => (h.joining w hw b hpc).2.2.2.1 hopen, fun hpc => (h.joined w hw hpc).2 hopen,
        fun hpc => by cases hopen.symm.trans (h.returned w hw hpc)⟩
    constructor
    · intro _
      by_cases hthread : s.registry.coordinatorThread
      · have hsame := h.thread hthread
        simpa [Process.CoordinatorGone, hthread] using hsame
      · simp [Process.CoordinatorGone, hthread]
    · intro hno
      cases hthread'.symm.trans hno
    · intro hno
      cases hthread'.symm.trans hno
    · intro hout
      cases hexited.symm.trans hout
    · exact fun w hw b hpc => absurd hpc ((hnone w hw).1 b)
    · exact h.unique
    · exact fun w hw hpc => absurd hpc (hnone w hw).2.1
    · intro hout
      cases hexited.symm.trans hout
    · intro hfinal
      cases hopen'.symm.trans hfinal
    · exact fun w hw hpc => absurd hpc (hnone w hw).2.2

theorem JoinOrder.close (h : JoinOrder s) : JoinOrder s.closeRegistration := by
  unfold Process.closeRegistration Registry.closeRegistration
  by_cases hopen : s.registry.state = .opened
  · rw [if_pos hopen]
    dsimp only
    have hnone : ∀ w ∈ s.waits, (∀ b, w.pc ≠ .joining b) ∧ w.pc ≠ .joined ∧
        w.pc ≠ .returned true := fun w hw =>
      ⟨fun b hpc => (h.joining w hw b hpc).2.2.2.1 hopen, fun hpc => (h.joined w hw hpc).2 hopen,
        fun hpc => by cases hopen.symm.trans (h.returned w hw hpc)⟩
    have hexited : s.registry.coordinatorExited ≠ true := fun he => h.exited he hopen
    split
    case isTrue hempty =>
      have hno : s.registry.coordinatorThread = false := by
        simpa using (Bool.and_eq_true_iff.mp hempty).2
      have hunstarted := h.unstarted hno hopen
      exact
        { thread := fun hyes => absurd (hno.symm.trans hyes) Bool.false_ne_true
          owner := fun _ => Or.inl (Or.inl hunstarted)
          unstarted := fun _ _ => hunstarted
          exited := fun he => absurd he hexited
          joining := fun w hw b hpc => absurd hpc ((hnone w hw).1 b)
          unique := h.unique
          joined := fun w hw hpc => absurd hpc (hnone w hw).2.1
          moved := fun _ _ => Or.inr rfl
          finalized := fun _ => Or.inl hunstarted
          returned := fun _ _ _ => rfl }
    case isFalse =>
      exact
        { thread := h.thread
          owner := h.owner
          unstarted := fun _ hopen' => nomatch hopen'
          exited := fun he => absurd he hexited
          joining := fun w hw b hpc => absurd hpc ((hnone w hw).1 b)
          unique := h.unique
          joined := fun w hw hpc => absurd hpc (hnone w hw).2.1
          moved := fun he => absurd he hexited
          finalized := fun hfinal => nomatch hfinal
          returned := fun w hw hpc => absurd hpc (hnone w hw).2.2 }
  · rw [if_neg hopen]
    exact h.congr rfl rfl rfl rfl rfl rfl

/-! ## The waits -/

theorem JoinOrder.call (h : JoinOrder s) (call : WaitCall) (onWorker : Bool) :
    JoinOrder { s with waits := s.waits ++ [⟨call, .entering onWorker⟩] } := by
  have hold : ∀ w ∈ s.waits ++ [⟨call, .entering onWorker⟩], w ∈ s.waits ∨
      w.pc = .entering onWorker := by
    intro w hw
    rcases List.mem_append.mp hw with hw | hw
    · exact Or.inl hw
    · rw [List.mem_singleton.mp hw]
      exact Or.inr rfl
  have hpc : ∀ w ∈ s.waits ++ [⟨call, .entering onWorker⟩], w.pc ≠ .entering onWorker →
      w ∈ s.waits := fun w hw hne => (hold w hw).resolve_right hne
  refine ⟨h.thread, fun hno => (h.owner hno).imp_right ?_, h.unstarted, h.exited, ?_, ?_, ?_,
    h.moved, h.finalized, ?_⟩
  · rintro ⟨w, hw, hjoin⟩
    exact ⟨w, List.mem_append_left _ hw, hjoin⟩
  · intro w hw b hjoin
    exact h.joining w (hpc w hw (by rw [hjoin]; exact WaitPc.noConfusion)) b hjoin
  · intro i j v w b c hv hw hjoin hjoin'
    have hlt : ∀ {k : Nat} {x : Wait} {d : Bool},
        (s.waits ++ [⟨call, .entering onWorker⟩])[k]? = some x → x.pc = .joining d →
        s.waits[k]? = some x := by
      intro k x d hx hxpc
      by_cases hk : k < s.waits.length
      · rwa [List.getElem?_append_left hk] at hx
      · rw [List.getElem?_append_right (Nat.le_of_not_lt hk)] at hx
        obtain rfl := List.mem_singleton.mp (List.mem_of_getElem? hx)
        cases hxpc
    exact h.unique i j v w b c (hlt hv hjoin) (hlt hw hjoin') hjoin hjoin'
  · intro w hw hjoined
    exact h.joined w (hpc w hw (by rw [hjoined]; exact WaitPc.noConfusion)) hjoined
  · intro w hw hreturned
    exact h.returned w (hpc w hw (by rw [hreturned]; exact WaitPc.noConfusion)) hreturned

/-- A wait that joins keeps joining when another one moves. -/
theorem joinPending_set {i : Nat} {w v : Wait} (hw : s.waits[i]? = some w)
    (hnot : ∀ b, w.pc ≠ .joining b) (h : s.JoinPending) :
    ∃ x ∈ s.waits.set i v, ∃ b, x.pc = .joining b := by
  obtain ⟨x, hx, b, hpc⟩ := h
  obtain ⟨j, hj⟩ := List.mem_iff_getElem?.mp hx
  have hne : i ≠ j := by
    rintro rfl
    obtain rfl := Option.some.inj (hw.symm.trans hj)
    exact hnot b hpc
  exact ⟨x, List.mem_of_getElem? ((List.getElem?_set_ne hne).trans hj), b, hpc⟩

/-- When a wait moves to a place where it does not join, whoever joins was joining. -/
theorem joining_of_set {i j : Nat} {v x : Wait} {b : Bool} (hv : ∀ c, v.pc ≠ .joining c)
    (hx : (s.waits.set i v)[j]? = some x) (hpc : x.pc = .joining b) :
    i ≠ j ∧ s.waits[j]? = some x := by
  by_cases hij : i = j
  · subst hij
    rw [List.getElem?_set] at hx
    split at hx
    · split at hx
      · cases hx
        exact absurd hpc (hv b)
      · cases hx
    · exact absurd rfl ‹_›
  · exact ⟨hij, (List.getElem?_set_ne hij).symm.trans hx⟩

theorem Wait.not_joining {expired : Bool} {out : Registry κ ρ × WaitPc}
    (hs : w.step r expired = some out) (b : Bool) : w.pc ≠ .joining b := by
  intro hpc
  simp [Wait.step, hpc] at hs

variable {i : Nat}

/-- The steps of a wait that does not end up joining: the flags as they were, or Finalized
over a coordinator that is gone. -/
theorem JoinOrder.moveWait (h : JoinOrder s) (hw : s.waits[i]? = some w)
    (hnot : ∀ b, w.pc ≠ .joining b) {pc : WaitPc} (hpc : ∀ b, pc ≠ .joining b)
    (hjoined : pc ≠ .joined) (hreturned : pc = .returned true → r.state = .finalized)
    (hthread : r.coordinatorThread = s.registry.coordinatorThread)
    (hexited : r.coordinatorExited = s.registry.coordinatorExited)
    (hstate : (r.state = s.registry.state ∧
        r.coordinatorJoinInProgress = s.registry.coordinatorJoinInProgress) ∨
      (r.state = .finalized ∧ s.CoordinatorGone)) :
    JoinOrder { s.setWait i { w with pc := pc } with registry := r } := by
  have hlater : s.registry.state ≠ .opened → r.state ≠ .opened := by
    intro hne
    rcases hstate with ⟨he, -⟩ | ⟨he, -⟩
    · rwa [he]
    · rw [he]
      exact RegistrationState.noConfusion
  have hgone : r.state = .finalized → s.CoordinatorGone := by
    intro hfinal
    rcases hstate with ⟨he, -⟩ | ⟨-, hgone⟩
    · exact h.finalized (he.symm.trans hfinal)
    · exact hgone
  have hmem : ∀ x ∈ s.waits.set i { w with pc := pc }, x ∈ s.waits ∨ x.pc = pc := by
    intro x hx
    rcases List.mem_or_eq_of_mem_set hx with hx | rfl
    · exact Or.inl hx
    · exact Or.inr rfl
  refine ⟨?_, ?_, ?_, ?_, ?_, ?_, ?_, ?_, hgone, ?_⟩
  · intro hyes
    exact h.thread (hthread.symm.trans hyes)
  · intro hno
    exact (h.owner (hthread.symm.trans hno)).imp_right (joinPending_set hw hnot)
  · intro hno hopen
    refine h.unstarted (hthread.symm.trans hno) ?_
    by_contra hne
    exact hlater hne hopen
  · intro hout
    exact hlater (h.exited (hexited.symm.trans hout))
  · intro x hx b hxpc
    have hold := (hmem x hx).resolve_right fun he => hpc b (he.symm.trans hxpc)
    obtain ⟨hb, hno, hprogress, hopen, hbusy⟩ := h.joining x hold b hxpc
    obtain ⟨-, he⟩ := hstate.resolve_right fun hfinal => hbusy hfinal.2
    exact ⟨hb, hthread.trans hno, he.trans hprogress, hlater hopen, hbusy⟩
  · intro j k x y b c hx hy hxpc hypc
    obtain ⟨-, hx⟩ := joining_of_set hpc hx hxpc
    obtain ⟨-, hy⟩ := joining_of_set hpc hy hypc
    exact h.unique j k x y b c hx hy hxpc hypc
  · intro x hx hxpc
    have hold := (hmem x hx).resolve_right fun he => hjoined (he.symm.trans hxpc)
    exact ⟨(h.joined x hold hxpc).1, hlater (h.joined x hold hxpc).2⟩
  · intro hout hno
    rcases hstate with ⟨he, hprogress⟩ | ⟨he, -⟩
    · exact (h.moved (hexited.symm.trans hout) (hthread.symm.trans hno)).imp hprogress.trans he.trans
    · exact Or.inr he
  · intro x hx hxpc
    rcases hmem x hx with hold | he
    · have hfinal := h.returned x hold hxpc
      rcases hstate with ⟨he, -⟩ | ⟨he, -⟩
      · exact he.trans hfinal
      · exact he
    · exact hreturned (he.symm.trans hxpc)

/-- A wait takes the thread object. -/
theorem JoinOrder.startJoin (h : JoinOrder s) (hw : s.waits[i]? = some w)
    (hjoin : s.registry.tryJoinExitedCoordinator = some r) :
    JoinOrder { s.setWait i { w with pc := .joining s.registry.coordinatorThread } with
      registry := r } := by
  obtain ⟨hfinal, hexited, hprogress, rfl⟩ := tryJoin_cases hjoin
  have hthread : s.registry.coordinatorThread = true := by
    by_contra hno
    rcases h.moved hexited (by simpa using hno) with hmoved | hmoved
    · exact absurd (hprogress.symm.trans hmoved) Bool.false_ne_true
    · exact hfinal hmoved
  have hbusy := h.thread hthread
  have hopen := h.exited hexited
  have hnone : ∀ x ∈ s.waits, ∀ b, x.pc ≠ .joining b := fun x hx b hxpc =>
    absurd (hprogress.symm.trans (h.joining x hx b hxpc).2.2.1) Bool.false_ne_true
  have hlt : i < s.waits.length := (List.getElem?_eq_some_iff.mp hw).1
  refine ⟨fun hyes => Bool.noConfusion hyes, fun _ => Or.inr ?_, fun _ he => absurd he hopen,
    fun _ => hopen, ?_, ?_, ?_, fun _ _ => Or.inl rfl, fun he => absurd he hfinal, ?_⟩
  · exact ⟨_, List.mem_set hlt _, _, rfl⟩
  · intro x hx b hxpc
    rcases List.mem_or_eq_of_mem_set hx with hx | rfl
    · exact absurd hxpc (hnone x hx b)
    · cases hxpc
      exact ⟨hthread, rfl, rfl, hopen, hbusy⟩
  · intro j k x y b c hx hy hxpc hypc
    have hat : ∀ {l : Nat} {z : Wait} {d : Bool},
        (s.waits.set i { w with pc := .joining s.registry.coordinatorThread })[l]? = some z →
        z.pc = .joining d → l = i := by
      intro l z d hz hzpc
      by_contra hne
      rw [List.getElem?_set_ne (Ne.symm hne)] at hz
      exact hnone z (List.mem_of_getElem? hz) d hzpc
    exact (hat hx hxpc).trans (hat hy hypc).symm
  · intro x hx hxpc
    rcases List.mem_or_eq_of_mem_set hx with hx | rfl
    · exact h.joined x hx hxpc
    · cases hxpc
  · intro x hx hxpc
    rcases List.mem_or_eq_of_mem_set hx with hx | rfl
    · exact h.returned x hx hxpc
    · cases hxpc

/-- The join of the one wait that joins returns. -/
theorem JoinOrder.join (h : JoinOrder s) (hw : s.waits[i]? = some w) (hpc : w.pc = .joining true) :
    JoinOrder { s.setWait i { w with pc := .joined } with coordinator := .joined } := by
  obtain ⟨-, hthread, hprogress, hopen, -⟩ := h.joining w (List.mem_of_getElem? hw) true hpc
  have hnone : ∀ x ∈ s.waits.set i { w with pc := .joined }, ∀ b, x.pc ≠ .joining b := by
    intro x hx b hxpc
    obtain ⟨j, hj⟩ := List.mem_iff_getElem?.mp hx
    obtain ⟨hne, hj⟩ := joining_of_set (fun _ => WaitPc.noConfusion) hj hxpc
    exact hne (h.unique i j w x true b hw hj hpc hxpc)
  refine ⟨fun hyes => absurd (hthread.symm.trans hyes) Bool.false_ne_true,
    fun _ => Or.inl (Or.inr rfl), fun _ he => absurd he hopen, fun _ => hopen, ?_, ?_,
    fun _ _ _ => ⟨rfl, hopen⟩, fun _ _ => Or.inl hprogress, fun _ => Or.inr rfl, ?_⟩
  · exact fun x hx b hxpc => absurd hxpc (hnone x hx b)
  · exact fun j k x y b c hx hy hxpc hypc => absurd hxpc (hnone x (List.mem_of_getElem? hx) b)
  · intro x hx hxpc
    rcases List.mem_or_eq_of_mem_set hx with hx | rfl
    · exact h.returned x hx hxpc
    · cases hxpc

theorem JoinOrder.wait (h : JoinOrder s) (hw : s.waits[i]? = some w) {expired : Bool}
    {out : Registry κ ρ × WaitPc} (hs : w.step s.registry expired = some out)
    (hok : w.findsNoThread s.registry → ¬ s.JoinPending) :
    JoinOrder { s.setWait i { w with pc := out.2 } with registry := out.1 } := by
  have hnot := Wait.not_joining hs
  cases waitStep_outcome hs with
  | idle hidle =>
    refine h.moveWait hw hnot ?_ ?_ ?_ rfl rfl (Or.inl ⟨rfl, rfl⟩)
    · rintro b rfl
      exact hidle
    · rintro rfl
      exact hidle
    · rintro rfl
      exact hidle rfl
  | noThread hfinds =>
    have hno : s.registry.coordinatorThread = false := by
      unfold Wait.findsNoThread at hfinds
      split at hfinds
      · simpa using (Bool.and_eq_true_iff.mp hfinds).2
      · simpa using (Bool.and_eq_true_iff.mp hfinds).2
      · cases hfinds
    have hgone := (h.owner hno).resolve_right (hok hfinds)
    exact h.moveWait hw hnot (fun _ => WaitPc.noConfusion) WaitPc.noConfusion (fun _ => rfl) rfl rfl
      (Or.inr ⟨rfl, hgone⟩)
  | join hjoin => exact h.startJoin hw hjoin
  | finish hjoined =>
    have hgone := (h.joined w (List.mem_of_getElem? hw) hjoined).1
    exact h.moveWait hw hnot (fun _ => WaitPc.noConfusion) WaitPc.noConfusion (fun _ => rfl) rfl rfl
      (Or.inr ⟨rfl, Or.inr hgone⟩)

/-! ## Every step, and every run -/

theorem JoinOrder.pass (h : JoinOrder s) (hc : Consistent s)
    (hwaiting : s.coordinator = .waiting) : JoinOrder s.coordinatorPass := by
  have hbusy : ¬ s.CoordinatorGone := by simp [Process.CoordinatorGone, hwaiting]
  by_cases hdrained : s.registry.drained
  · rw [coordinatorPass_leaves hc.running hdrained]
    refine h.advance hbusy (by simp [Process.CoordinatorGone]) rfl rfl (fun _ => ?_) rfl rfl
    simp only [Registry.drained, Bool.and_eq_true, decide_eq_true_eq] at hdrained
    rw [hdrained.1.1]
    exact RegistrationState.noConfusion
  · rw [coordinatorPass_takes hc (by simpa using hdrained)]
    exact h.advance hbusy (by simp [Process.CoordinatorGone]) rfl rfl h.exited rfl rfl

theorem JoinOrder.step (h : JoinOrder s) (hc : Consistent s) {a : Label κ ρ}
    (hok : NoTestDuringJoin s a) (hs : Process.next s a = some s') : JoinOrder s' := by
  unfold Process.next at hs
  cases a with
  | registerRuntime id graceful immediate cleanup =>
    dsimp only at hs
    split at hs <;> cases hs
    exact h.register id graceful immediate cleanup
  | closeRegistration =>
    cases hs
    exact h.close
  | unregisterRuntime _ | replaceCleanupFn _ _ | executeWorkerHandoff _ _ _ | notifyJoinReady _
  | requestAllImmediate =>
    cases hs
    exact h.congr rfl rfl rfl rfl rfl rfl
  | destroyImpl id =>
    dsimp only at hs
    split at hs <;> cases hs
    exact h.congr rfl rfl rfl rfl rfl rfl
  | beginCallback j =>
    obtain ⟨b, -, hs⟩ := Option.bind_eq_some_iff.mp hs
    unfold Process.beginCallback at hs
    split at hs <;> cases hs
    exact h.congr rfl rfl rfl rfl rfl rfl
  | endCallback j =>
    obtain ⟨b, -, hs⟩ := Option.bind_eq_some_iff.mp hs
    unfold Process.endCallback at hs
    split at hs <;> cases hs
    exact h.congr rfl rfl rfl rfl rfl rfl
  | coordinatorPass =>
    dsimp only at hs
    split at hs
    · split at hs <;> cases hs
      exact h.pass hc ‹_›
    · cases hs
  | coordinatorCleanup | coordinatorReturn =>
    dsimp only at hs
    split at hs <;> cases hs <;> rename_i hat <;>
      exact h.advance (by simp [Process.CoordinatorGone, hat]) (by simp [Process.CoordinatorGone])
        rfl rfl h.exited rfl rfl
  | callWait call onWorker =>
    cases hs
    exact h.call call onWorker
  | waitStep i expired =>
    obtain ⟨w, hw, hs⟩ := Option.bind_eq_some_iff.mp hs
    obtain ⟨out, hout, rfl⟩ := Option.map_eq_some_iff.mp hs
    exact h.wait hw hout (hok w hw)
  | waitJoin i =>
    obtain ⟨w, hw, hs⟩ := Option.bind_eq_some_iff.mp hs
    dsimp only at hs
    split at hs
    · rename_i hpc
      cases (h.joining w (List.mem_of_getElem? hw) false hpc).1
    · cases hs
      exact h.join hw ‹_›
    · cases hs

theorem joinOrder_init : JoinOrder ({} : Process κ ρ) where
  thread := nofun
  owner := fun _ => Or.inl (Or.inl rfl)
  unstarted := fun _ _ => rfl
  exited := nofun
  joining := nofun
  unique := fun _ _ _ _ _ _ hv _ _ _ => nomatch hv
  joined := nofun
  moved := nofun
  finalized := nofun
  returned := nofun

/-- A test of the pointer during a join declares Finalized too early. -/
theorem not_finalizedMeansGone_of_test (h : JoinOrder s) {a : Label κ ρ}
    (hbad : ¬ NoTestDuringJoin s a) (hs : Process.next s a = some s') :
    ¬ FinalizedMeansGone s' := by
  cases a with
  | waitStep i expired =>
    simp only [NoTestDuringJoin, Classical.not_forall, Classical.not_not] at hbad
    obtain ⟨w, hw, hfinds, v, hv, b, hpc⟩ := hbad
    simp only [Process.next, Option.mem_def.mp hw, Option.bind_some, waitStep_noThread hfinds,
      Option.map_some, Option.some.injEq] at hs
    subst hs
    intro hgone
    exact (h.joining v hv b hpc).2.2.2.2 (hgone.state rfl)
  | _ => exact absurd trivial hbad

/-- **Finalized comes after the join exactly in the runs in which no wait tests the thread
pointer during a join.** -/
theorem finalizedMeansGone_iff_noTestDuringJoin (as : List (Label κ ρ))
    (hr : (Process.machine.run ({} : Process κ ρ) as).isSome) :
    Process.machine.EveryState FinalizedMeansGone {} as ↔
      Process.machine.EveryStep NoTestDuringJoin {} as := by
  refine Transition.Machine.everyState_iff_everyStep (fun s => Consistent s ∧ JoinOrder s)
    (fun s h => h.2.finalizedMeansGone)
    (fun s a s' h hok hs => ⟨h.1.step hs, h.2.step h.1 hok hs⟩)
    (fun s a s' h hbad hs => not_finalizedMeansGone_of_test h.2 hbad hs)
    ⟨consistent_of_reachable (.initial rfl), joinOrder_init⟩ hr

/-- One runtime, finalization, and two waits: while the first joins, the second goes on to
wait for Finalized. -/
def orderlyFinalization : List (Label Nat Nat) :=
  [.registerRuntime ⟨1⟩ none none none, .callWait (.waitFor true) false, .waitStep 0 false,
    .callWait (.waitFor true) false, .waitStep 1 false, .closeRegistration,
    .unregisterRuntime ⟨1⟩, .coordinatorPass, .waitStep 0 false, .waitStep 1 false,
    .coordinatorReturn, .waitJoin 0, .waitStep 0 false, .waitStep 1 false]

/-- The second wait enters while the first one joins. -/
def waitDuringJoin : List (Label Nat Nat) :=
  [.registerRuntime ⟨1⟩ none none none, .closeRegistration, .unregisterRuntime ⟨1⟩,
    .coordinatorPass, .callWait .wait false, .callWait (.waitFor false) false, .waitStep 0 false,
    .waitStep 1 false]

theorem orderlyFinalization_finalizedMeansGone :
    Process.machine.EveryState FinalizedMeansGone {} orderlyFinalization :=
  (finalizedMeansGone_iff_noTestDuringJoin orderlyFinalization (by decide)).mpr (by decide)

/-- The second wait reports Completed while the coordinator thread is still running. -/
theorem waitDuringJoin_finalizesEarly :
    ∃ s, Process.machine.run {} waitDuringJoin = some s ∧ s.registry.state = .finalized ∧
      s.coordinator = .left ∧ ¬ FinalizedMeansGone s := by
  obtain ⟨s, hs⟩ := Option.isSome_iff_exists.mp
    (show (Process.machine.run {} waitDuringJoin).isSome by decide)
  have hend : (Process.machine.run {} waitDuringJoin).map (fun t =>
      (t.registry.state, t.coordinator)) = some (.finalized, .left) := by decide
  rw [hs] at hend
  have hpair := Prod.mk.inj (Option.some.inj hend)
  refine ⟨s, hs, hpair.1, hpair.2, fun h => ?_⟩
  have hgone := h.state hpair.1
  rw [Process.CoordinatorGone, hpair.2] at hgone
  rcases hgone with hgone | hgone <;> cases hgone

end AstraScheduler.ReaperRegistry
