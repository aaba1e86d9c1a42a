import AstraScheduler.AwaitSuspend
import Mathlib.Data.List.Infix

/-! # A suspension that fails

Until the task is Suspended an await has changed nothing that counts, except that its
completion callback may be listed with the awaited; so an exception is harmless before.  A
sleep commits first and checks for a stop request afterwards. -/

namespace AstraScheduler
namespace AwaitSuspend
open AwaitHandshake (Calls)
variable {before s s' : AwaitSuspend}

/-! ## The order of the operations -/

/-- The operation has been executed when these are left. -/
def Done (op : Op) (kind : AwaitKind) (todo : List Op) : Prop := op ∈ kind.program ∧ op ∉ todo

instance (op : Op) (kind : AwaitKind) (todo : List Op) : Decidable (Done op kind todo) :=
  inferInstanceAs (Decidable (_ ∧ _))

theorem Done.of_cons {e op : Op} {kind : AwaitKind} {todo : List Op}
    (h : Done e kind (op :: todo)) : Done e kind todo :=
  ⟨h.1, fun hmem => h.2 (List.mem_cons_of_mem _ hmem)⟩

/-- Only behind `transition_to_suspended`. -/
def Op.committed : Op → Bool
  | .recheckStop | .registerTimer | .storeTimerId | .cancelIfStopped | .arm | .reschedule => true
  | .require | .checkStop | .checkDue | .allocate | .addCompletion | .emplaceStop
  | .transitionToSuspended => false

/-- The next operation, in view of those before it and behind it. -/
structure Placed (kind : AwaitKind) (op : Op) (todo : List Op) : Prop where
  committed : op.committed → .transitionToSuspended ∉ op :: todo
  once : op = .transitionToSuspended ∨ op = .emplaceStop ∨ op = .addCompletion → op ∉ todo
  checkStop : op = .checkStop →
    .transitionToSuspended ∈ todo ∧ ¬ Done .addCompletion kind (op :: todo)
  /-- Nothing throws between the stop callback and the suspension of the task. -/
  emplaced : .transitionToSuspended ∈ todo → op ≠ .emplaceStop →
    ¬ Done .emplaceStop kind (op :: todo)

theorem placed_of_suffix {kind : AwaitKind} {op : Op} {todo : List Op}
    (h : op :: todo <:+ kind.program) : Placed kind op todo := by
  have hprogram : ∀ l ∈ kind.program.tails, ∀ op ∈ l.head?,
      (op.committed → .transitionToSuspended ∉ l) ∧
      (op = .transitionToSuspended ∨ op = .emplaceStop ∨ op = .addCompletion → op ∉ l.tail) ∧
      (op = .checkStop → .transitionToSuspended ∈ l.tail ∧ ¬ Done .addCompletion kind l) ∧
      (.transitionToSuspended ∈ l.tail → op ≠ .emplaceStop → ¬ Done .emplaceStop kind l) := by
    cases kind <;> decide
  obtain ⟨hcommitted, honce, hcheck, hemplaced⟩ :=
    hprogram _ ((List.mem_tails _ _).mpr h) op rfl
  exact ⟨hcommitted, honce, hcheck, hemplaced⟩

/-! ## The invariant -/

/-- The operations that are left, also while a callback executes on this thread. -/
def Pc.todo : Pc → Option (List Op)
  | .doing todo | .inCompletion _ todo | .inCallback todo => some todo
  | .returned | .declined | .threw => none

/-- The task is not suspended yet. -/
structure Pending (before s : AwaitSuspend) : Prop where
  task : s.task = .running
  metrics : s.metrics = before.metrics
  timer : s.timer = .absent
  arm : s.calls.arm = .start
  rescheduled : s.rescheduled = 0

structure Inv (before s : AwaitSuspend) : Prop where
  calls : s.calls.Inv
  suffix : ∀ todo, s.pc.todo = some todo → todo <:+ s.kind.program
  pending : ∀ todo, s.pc.todo = some todo → .transitionToSuspended ∈ todo → Pending before s
  suspended : ∀ todo, s.pc.todo = some todo → .transitionToSuspended ∉ todo → s.task = .suspended
  callback : ∀ todo, s.pc.todo = some todo → ¬ Done .emplaceStop s.kind todo → s.callback = .unset
  completion : ∀ todo, s.pc.todo = some todo → ¬ Done .addCompletion s.kind todo →
    s.completion = .absent
  threw : s.pc = .threw → RolledBack before s ∧ s.calls.arm = .start

theorem Initial.inv (h : Initial s) : Inv s s := by
  have htodo : s.pc.todo = some s.kind.program := by rw [h.pc]; rfl
  have hprogram : ∀ {todo}, s.pc.todo = some todo → todo = s.kind.program := by
    intro todo h
    exact Option.some.inj (h.symm.trans htodo)
  have hcommit : ∀ kind : AwaitKind, .transitionToSuspended ∈ kind.program := by
    intro kind
    cases kind <;> decide
  refine ⟨?_, ?_, ?_, ?_, ?_, ?_, ?_⟩
  · rw [h.calls]
    exact Calls.Inv.initial
  · intro todo htodo
    rw [hprogram htodo]
  · intro todo _ _
    exact ⟨h.task, rfl, h.timer, by rw [h.calls], h.rescheduled⟩
  · intro todo htodo hdone
    rw [hprogram htodo] at hdone
    exact absurd (hcommit _) hdone
  · intro _ _ _
    exact h.callback
  · intro _ _ _
    exact h.completion
  · intro hthrew
    rw [hthrew] at htodo
    cases htodo

/-- A handshake that is not armed has not posted. -/
theorem posts_eq_zero {calls : Calls} (h : calls.Inv) (harm : calls.arm = .start) :
    calls.posts = 0 := by
  have hposts := h.posts
  have hstate : calls.raw.state ≠ .resolved := by
    have hraw := h.arm
    rw [harm] at hraw
    rcases hraw with hraw | hraw <;> rw [hraw] <;> decide
  rw [if_neg hstate] at hposts
  omega

/-- The exception of an operation before the commitment: the stop callback was never set. -/
theorem Pending.rolledBack (h : Pending before s) (hcalls : s.calls.Inv)
    (hcallback : s.callback = .unset) (hcompletion : s.completion ≠ .listed) :
    RolledBack before { s with pc := .threw } where
  task := h.task
  runningTasks := by rw [← h.metrics]
  suspendedTasks := by rw [← h.metrics]
  callback := .inl hcallback
  completion := hcompletion
  timer := by
    change s.timer ≠ .queued
    rw [h.timer]
    decide
  posts := ⟨posts_eq_zero hcalls h.arm, h.rescheduled⟩

/-- An operation is done: what it may have changed is told by the operation. -/
theorem Inv.advance (h : Inv before s) {op : Op} {todo : List Op}
    (hpc : s.pc = .doing (op :: todo)) (hop : op ≠ .transitionToSuspended)
    (hpc' : s'.pc.todo = some todo) (hkind : s'.kind = s.kind) (hcalls : s'.calls.Inv)
    (hpending : .transitionToSuspended ∈ todo → Pending before s → Pending before s')
    (htask : s'.task = s.task) (hcallback : op ≠ .emplaceStop → s'.callback = s.callback)
    (hcompletion : op ≠ .addCompletion → s'.completion = s.completion) : Inv before s' := by
  have htodo : s.pc.todo = some (op :: todo) := by rw [hpc]; rfl
  have hsuffix := h.suffix _ htodo
  have hplaced := placed_of_suffix hsuffix
  have hsame : ∀ {left}, s'.pc.todo = some left → left = todo := by
    intro left hleft
    exact Option.some.inj (hleft.symm.trans hpc')
  have hmember : op ∈ s.kind.program := hsuffix.subset (List.mem_cons_self ..)
  refine ⟨hcalls, ?_, ?_, ?_, ?_, ?_, ?_⟩
  · intro left hleft
    rw [hsame hleft, hkind]
    exact (List.suffix_cons op todo).trans hsuffix
  · intro left hleft hmem
    rw [hsame hleft] at hmem
    exact hpending hmem (h.pending _ htodo (List.mem_cons_of_mem _ hmem))
  · intro left hleft hmem
    rw [hsame hleft] at hmem
    rw [htask]
    exact h.suspended _ htodo (List.not_mem_cons_of_ne_of_not_mem hop.symm hmem)
  · intro left hleft hno
    rw [hsame hleft, hkind] at hno
    by_cases he : op = .emplaceStop
    · subst he
      exact absurd ⟨hmember, hplaced.once (.inr (.inl rfl))⟩ hno
    · rw [hcallback he]
      exact h.callback _ htodo fun hyes => hno hyes.of_cons
  · intro left hleft hno
    rw [hsame hleft, hkind] at hno
    by_cases he : op = .addCompletion
    · subst he
      exact absurd ⟨hmember, hplaced.once (.inr (.inr rfl))⟩ hno
    · rw [hcompletion he]
      exact h.completion _ htodo fun hyes => hno hyes.of_cons
  · intro hthrew
    rw [hthrew] at hpc'
    cases hpc'

/-- What other threads do, and the callback. -/
theorem Inv.others (h : Inv before s) (hpc : s'.pc = s.pc) (hkind : s'.kind = s.kind)
    (htask : s'.task = s.task) (hmetrics : s'.metrics = s.metrics)
    (hrescheduled : s'.rescheduled = s.rescheduled) (hcalls : s'.calls.Inv)
    (harm : s'.calls.arm = s.calls.arm)
    (htimer : s'.timer = s.timer ∨ s.timer = .queued ∧ s'.timer = .out)
    (hcallback : s'.callback = s.callback ∨
      s.callback ≠ .unset ∧ s.callback ≠ .finished ∧ s.callback ≠ .removed)
    (hcompletion : s'.completion = s.completion ∨
      s.completion = .listed ∧ s'.completion = .taken) : Inv before s' := by
  refine ⟨hcalls, ?_, ?_, ?_, ?_, ?_, ?_⟩
  · rw [hpc, hkind]
    exact h.suffix
  · intro todo htodo hmem
    rw [hpc] at htodo
    have hp := h.pending todo htodo hmem
    refine ⟨htask.trans hp.task, hmetrics.trans hp.metrics, ?_, harm.trans hp.arm,
      hrescheduled.trans hp.rescheduled⟩
    rcases htimer with heq | ⟨hqueued, -⟩
    · exact heq.trans hp.timer
    · rw [hp.timer] at hqueued
      cases hqueued
  · rw [hpc, htask]
    exact h.suspended
  · intro todo htodo hno
    rw [hpc] at htodo
    rw [hkind] at hno
    have hunset := h.callback todo htodo hno
    rcases hcallback with heq | ⟨hset, -⟩
    · exact heq.trans hunset
    · exact absurd hunset hset
  · intro todo htodo hno
    rw [hpc] at htodo
    rw [hkind] at hno
    have habsent := h.completion todo htodo hno
    rcases hcompletion with heq | ⟨hlisted, -⟩
    · exact heq.trans habsent
    · rw [habsent] at hlisted
      cases hlisted
  · intro hthrew
    rw [hpc] at hthrew
    obtain ⟨hrolled, hstart⟩ := h.threw hthrew
    have hidle : s'.calls.arm = .start := harm.trans hstart
    refine ⟨⟨htask.trans hrolled.task, ?_, ?_, ?_, ?_, ?_, ?_⟩, hidle⟩
    · rw [hmetrics]
      exact hrolled.runningTasks
    · rw [hmetrics]
      exact hrolled.suspendedTasks
    · rcases hcallback with heq | ⟨hunset, hfinished, hremoved⟩
      · rw [heq]
        exact hrolled.callback
      · rcases hrolled.callback with hc | hc | hc
        · exact absurd hc hunset
        · exact absurd hc hfinished
        · exact absurd hc hremoved
    · rcases hcompletion with heq | ⟨-, htaken⟩
      · rw [heq]
        exact hrolled.completion
      · rw [htaken]
        decide
    · rcases htimer with heq | ⟨-, hout⟩
      · rw [heq]
        exact hrolled.timer
      · rw [hout]
        decide
    · exact ⟨posts_eq_zero hcalls hidle, hrescheduled.trans hrolled.posts.2⟩

/-! ## The steps -/

theorem Inv.stepCallback (h : Inv before s) (hs : s.stepCallback = some s') : Inv before s' := by
  unfold AwaitSuspend.stepCallback at hs
  have hset : ∀ pc, s.callback = pc → pc ≠ .unset → pc ≠ .finished → pc ≠ .removed →
      s.callback ≠ .unset ∧ s.callback ≠ .finished ∧ s.callback ≠ .removed := by
    rintro pc rfl hunset hfinished hremoved
    exact ⟨hunset, hfinished, hremoved⟩
  cases hpc : s.callback with
  | unset | finished | removed =>
    rw [hpc] at hs
    cases hs
  | registered =>
    have hactive := hset _ hpc (by decide) (by decide) (by decide)
    rw [hpc] at hs
    dsimp only at hs
    split at hs
    · cases hs
      exact h.others rfl rfl rfl rfl rfl h.calls rfl (.inl rfl) (.inr hactive) (.inl rfl)
    · cases hs
  | storing =>
    have hactive := hset _ hpc (by decide) (by decide) (by decide)
    rw [hpc] at hs
    cases hs
    exact h.others rfl rfl rfl rfl rfl h.calls rfl (.inl rfl) (.inr hactive) (.inl rfl)
  | loading =>
    have hactive := hset _ hpc (by decide) (by decide) (by decide)
    rw [hpc] at hs
    cases hs
    exact h.others rfl rfl rfl rfl rfl h.calls rfl (.inl rfl) (.inr hactive) (.inl rfl)
  | cancelling found =>
    have hactive := hset _ hpc (by simp) (by simp) (by simp)
    rw [hpc] at hs
    cases hs
    unfold cancelTimer
    split
    · split
      · rename_i hqueued
        exact h.others rfl rfl rfl rfl rfl h.calls rfl (.inr ⟨hqueued, rfl⟩) (.inr hactive)
          (.inl rfl)
      · exact h.others rfl rfl rfl rfl rfl h.calls rfl (.inl rfl) (.inr hactive) (.inl rfl)
    · exact h.others rfl rfl rfl rfl rfl h.calls rfl (.inl rfl) (.inr hactive) (.inl rfl)
  | calling =>
    have hactive := hset _ hpc (by decide) (by decide) (by decide)
    rw [hpc] at hs
    cases hs
    exact h.others rfl rfl rfl rfl rfl (h.calls.begin true 1) rfl (.inl rfl) (.inr hactive)
      (.inl rfl)
  | triggering i =>
    have hactive := hset _ hpc (by simp) (by simp) (by simp)
    rw [hpc] at hs
    dsimp only at hs
    split at hs
    · cases hs
      exact h.others rfl rfl rfl rfl rfl h.calls rfl (.inl rfl) (.inr hactive) (.inl rfl)
    · cases hs

theorem unwind_of_unset (h : s.callback = .unset) : s.unwind = some { s with pc := .threw } := by
  simp only [AwaitSuspend.unwind, h]

/-- An exception before the commitment leaves nothing of the await. -/
theorem Inv.unwind (h : Inv before s) {op : Op} {todo : List Op}
    (hpc : s.pc = .doing (op :: todo)) (hpending : .transitionToSuspended ∈ todo)
    (hop : op ≠ .emplaceStop) (hcompletion : s.completion ≠ .listed)
    (hs : s.unwind = some s') : Inv before s' := by
  have htodo : s.pc.todo = some (op :: todo) := by rw [hpc]; rfl
  have hplaced := placed_of_suffix (h.suffix _ htodo)
  have hp := h.pending _ htodo (List.mem_cons_of_mem _ hpending)
  have hunset := h.callback _ htodo (hplaced.emplaced hpending hop)
  have hrolled := hp.rolledBack h.calls hunset hcompletion
  rw [unwind_of_unset hunset] at hs
  cases hs
  have hnone : ∀ {left}, Pc.threw.todo ≠ some left := fun hleft => by cases hleft
  exact ⟨h.calls, fun _ hleft => absurd hleft hnone, fun _ hleft => absurd hleft hnone,
    fun _ hleft => absurd hleft hnone, fun _ hleft => absurd hleft hnone,
    fun _ hleft => absurd hleft hnone, fun _ => ⟨hrolled, hp.arm⟩⟩

/-- The task is committed. -/
theorem Inv.transitionToSuspended (h : Inv before s) {todo : List Op}
    (hpc : s.pc = .doing (.transitionToSuspended :: todo)) :
    Inv before { s.transitionToSuspended with pc := .doing todo } := by
  have htodo : s.pc.todo = some (.transitionToSuspended :: todo) := by rw [hpc]; rfl
  have hsuffix := h.suffix _ htodo
  have honce := (placed_of_suffix hsuffix).once (.inl rfl)
  have hp := h.pending _ htodo (List.mem_cons_self ..)
  unfold AwaitSuspend.transitionToSuspended
  rw [if_pos hp.task]
  refine ⟨h.calls, ?_, ?_, ?_, ?_, ?_, ?_⟩
  · rintro left ⟨⟩
    exact (List.suffix_cons _ todo).trans hsuffix
  · rintro left ⟨⟩ hmem
    exact absurd hmem honce
  · rintro left ⟨⟩ -
    rfl
  · rintro left ⟨⟩ hno
    exact h.callback _ htodo fun hyes => hno hyes.of_cons
  · rintro left ⟨⟩ hno
    exact h.completion _ htodo fun hyes => hno hyes.of_cons
  · intro hthrew
    cases hthrew

theorem Inv.stepOp (h : Inv before s) {op : Op} {todo : List Op}
    (hpc : s.pc = .doing (op :: todo))
    (htimely : op = .recheckStop → s.stopRequested = false)
    (hs : s.stepOp todo op = some s') : Inv before s' := by
  have htodo : s.pc.todo = some (op :: todo) := by rw [hpc]; rfl
  have hplaced := placed_of_suffix (h.suffix _ htodo)
  -- An operation behind the commitment finds nothing pending.
  have hnever : op.committed = true → .transitionToSuspended ∈ todo → False :=
    fun hop hmem => hplaced.committed hop (List.mem_cons_of_mem _ hmem)
  have hkeep : .transitionToSuspended ∈ todo → Pending before s → Pending before
      { s with pc := .doing todo } := fun _ hp => ⟨hp.1, hp.2, hp.3, hp.4, hp.5⟩
  cases op with
  | require | checkDue | allocate =>
    cases hs
    exact h.advance hpc (by decide) rfl rfl h.calls hkeep rfl (fun _ => rfl) (fun _ => rfl)
  | checkStop =>
    obtain ⟨hpending, hadded⟩ := hplaced.checkStop rfl
    simp only [AwaitSuspend.stepOp] at hs
    by_cases hstop : s.stopRequested
    · have habsent := h.completion _ htodo hadded
      have hunset := h.callback _ htodo (hplaced.emplaced hpending (by decide))
      rw [if_pos hstop] at hs
      cases hs
      refine h.unwind hpc hpending (by decide) ?_ ?_
      · rw [habsent]
        decide
      · exact unwind_of_unset hunset
    · rw [if_neg hstop] at hs
      cases hs
      exact h.advance hpc (by decide) rfl rfl h.calls hkeep rfl (fun _ => rfl) (fun _ => rfl)
  | addCompletion =>
    simp only [AwaitSuspend.stepOp] at hs
    split at hs
    · cases hs
      exact h.advance hpc (by decide) rfl rfl (h.calls.begin false 1)
        (fun _ hp => ⟨hp.1, hp.2, hp.3, hp.4, hp.5⟩) rfl (fun _ => rfl) (fun _ => rfl)
    · cases hs
      exact h.advance hpc (by decide) rfl rfl h.calls
        (fun _ hp => ⟨hp.1, hp.2, hp.3, hp.4, hp.5⟩) rfl (fun _ => rfl) (fun hne => absurd rfl hne)
  | emplaceStop =>
    simp only [AwaitSuspend.stepOp] at hs
    split at hs <;>
    · cases hs
      exact h.advance hpc (by decide) rfl rfl h.calls
        (fun _ hp => ⟨hp.1, hp.2, hp.3, hp.4, hp.5⟩) rfl (fun hne => absurd rfl hne) (fun _ => rfl)
  | transitionToSuspended =>
    cases hs
    exact h.transitionToSuspended hpc
  | recheckStop =>
    have hstop := htimely rfl
    simp only [AwaitSuspend.stepOp] at hs
    rw [if_neg (by rw [hstop]; decide)] at hs
    cases hs
    exact h.advance hpc (by decide) rfl rfl h.calls hkeep rfl (fun _ => rfl) (fun _ => rfl)
  | registerTimer | storeTimerId | reschedule =>
    cases hs
    exact h.advance hpc (by decide) rfl rfl h.calls (fun hmem => (hnever rfl hmem).elim) rfl
      (fun _ => rfl) (fun _ => rfl)
  | cancelIfStopped =>
    cases hs
    unfold cancelTimer
    split
    · split <;>
      exact h.advance hpc (by decide) rfl rfl h.calls (fun hmem => (hnever rfl hmem).elim) rfl
        (fun _ => rfl) (fun _ => rfl)
    · exact h.advance hpc (by decide) rfl rfl h.calls hkeep rfl (fun _ => rfl) (fun _ => rfl)
  | arm =>
    obtain ⟨calls, hcalls, rfl⟩ := Option.map_eq_some_iff.mp hs
    have hinv := h.calls.stepArm hcalls
    split
    · exact h.advance hpc (by decide) rfl rfl hinv (fun hmem => (hnever rfl hmem).elim) rfl
        (fun _ => rfl) (fun _ => rfl)
    · refine ⟨hinv, ?_, ?_, ?_, ?_, ?_, ?_⟩
      · rintro left ⟨⟩
        exact h.suffix _ htodo
      · rintro left ⟨⟩ hmem
        exact absurd hmem (hplaced.committed rfl)
      · rintro left ⟨⟩ hmem
        exact h.suspended _ htodo hmem
      · rintro left ⟨⟩ hno
        exact h.callback _ htodo hno
      · rintro left ⟨⟩ hno
        exact h.completion _ htodo hno
      · intro hthrew
        cases hthrew

/-- Another place with the same operations left. -/
theorem Inv.place (h : Inv before s) {pc : Pc} (hpc : pc.todo = s.pc.todo) (hthrew : pc ≠ .threw) :
    Inv before { s with pc := pc } where
  calls := h.calls
  suffix := by
    change ∀ todo, pc.todo = some todo → _
    rw [hpc]
    exact h.suffix
  pending := by
    intro todo htodo hmem
    have hp := h.pending todo (hpc.symm.trans htodo) hmem
    exact ⟨hp.1, hp.2, hp.3, hp.4, hp.5⟩
  suspended todo htodo := h.suspended todo (hpc.symm.trans htodo)
  callback todo htodo := h.callback todo (hpc.symm.trans htodo)
  completion todo htodo := h.completion todo (hpc.symm.trans htodo)
  threw hpc := absurd hpc hthrew

/-- The coroutine goes on, or is suspended: no operation is left. -/
theorem Inv.leave (h : Inv before s) {pc : Pc} (hpc : pc.todo = none) (hthrew : pc ≠ .threw) :
    Inv before { s with pc := pc } := by
  have hnone : ∀ {todo}, pc.todo ≠ some todo := by
    intro todo htodo
    rw [hpc] at htodo
    cases htodo
  exact ⟨h.calls, fun _ htodo => absurd htodo hnone, fun _ htodo => absurd htodo hnone,
    fun _ htodo => absurd htodo hnone, fun _ htodo => absurd htodo hnone,
    fun _ htodo => absurd htodo hnone, fun hpc => absurd hpc hthrew⟩

theorem Inv.stepNext (h : Inv before s) (htimely : Timely s .next) (hs : s.stepNext = some s') :
    Inv before s' := by
  unfold AwaitSuspend.stepNext at hs
  cases hpc : s.pc with
  | doing todo =>
    rw [hpc] at hs
    cases todo with
    | nil =>
      cases hs
      exact h.leave rfl (by decide)
    | cons op todo =>
      apply h.stepOp hpc ?_ hs
      rintro rfl
      exact htimely (by rw [hpc]; rfl)
  | inCompletion i todo =>
    rw [hpc] at hs
    dsimp only at hs
    split at hs
    · cases hs
      exact h.place (by rw [hpc]; rfl) (by simp)
    · cases hs
  | inCallback todo =>
    rw [hpc] at hs
    dsimp only at hs
    split at hs
    · cases hs
      exact h.place (by rw [hpc]; rfl) (by simp)
    · cases hs
  | returned | declined | threw =>
    rw [hpc] at hs
    cases hs

theorem Inv.stepFails (h : Inv before s) (htimely : Timely s .fails)
    (hs : s.stepFails = some s') : Inv before s' := by
  obtain ⟨hrunning, hcompletion⟩ := htimely
  unfold AwaitSuspend.stepFails at hs
  cases hpc : s.pc with
  | doing todo =>
    rw [hpc] at hs
    cases todo with
    | nil => cases hs
    | cons op todo =>
      have htodo : s.pc.todo = some (op :: todo) := by rw [hpc]; rfl
      have hplaced := placed_of_suffix (h.suffix _ htodo)
      have hmem : .transitionToSuspended ∈ op :: todo := by
        by_contra hno
        rw [h.suspended _ htodo hno] at hrunning
        cases hrunning
      dsimp only at hs
      split at hs
      · rename_i hmay
        have hop : op ≠ .transitionToSuspended := by
          rintro rfl
          cases hmay
        have hemplace : op ≠ .emplaceStop := by
          rintro rfl
          cases hmay
        have hpending := List.mem_of_ne_of_mem hop.symm hmem
        split at hs
        · rename_i hregister
          rw [hregister] at hmem hplaced
          exact absurd hmem (hplaced.committed rfl)
        · exact h.unwind hpc hpending hemplace hcompletion hs
      · cases hs
  | inCompletion | inCallback | returned | declined | threw =>
    rw [hpc] at hs
    cases hs

theorem Inv.step {label : Label} (h : Inv before s) (htimely : Timely s label)
    (hs : s.step label = some s') : Inv before s' := by
  cases label with
  | next => exact h.stepNext htimely hs
  | fails => exact h.stepFails htimely hs
  | due =>
    change s.stepDue = some s' at hs
    unfold stepDue at hs
    split at hs
    · cases hs
      exact h.leave rfl (by decide)
    · cases hs
  | requestCancel =>
    cases hs
    exact h.others rfl rfl rfl rfl rfl h.calls rfl (.inl rfl) (.inl rfl) (.inl rfl)
  | callback => exact h.stepCallback hs
  | trigger i spurious =>
    obtain ⟨calls, hcalls, rfl⟩ := Option.map_eq_some_iff.mp hs
    have harm := (AwaitHandshake.Calls.stepTrigger_arm hcalls).1
    exact h.others rfl rfl rfl rfl rfl (h.calls.stepTrigger hcalls) harm (.inl rfl) (.inl rfl)
      (.inl rfl)
  | complete =>
    cases hs
    unfold stepComplete
    split
    · rename_i hlisted
      exact h.others rfl rfl rfl rfl rfl (h.calls.begin false 1) rfl (.inl rfl) (.inl rfl)
        (.inr ⟨hlisted, rfl⟩)
    · exact h.others rfl rfl rfl rfl rfl h.calls rfl (.inl rfl) (.inl rfl) (.inl rfl)
  | takeTimer cancel =>
    simp only [AwaitSuspend.step] at hs
    split at hs
    · rename_i hqueued
      cases hs
      exact h.others rfl rfl rfl rfl rfl (h.calls.begin cancel 1) rfl (.inr ⟨hqueued, rfl⟩)
        (.inl rfl) (.inl rfl)
    · cases hs

/-! ## Exactly when a failed suspension is undone -/

theorem Pc.doing_of_op {pc : Pc} {op : Op} (h : pc.op = some op) :
    ∃ todo, pc = .doing (op :: todo) := by
  unfold Pc.op at h
  split at h
  · cases h
    exact ⟨_, rfl⟩
  all_goals cases h

theorem unwind_frame (hs : s.unwind = some s') :
    s'.pc = .threw ∧ s'.task = s.task ∧ s'.completion = s.completion := by
  unfold AwaitSuspend.unwind at hs
  split at hs <;> cases hs <;> exact ⟨rfl, rfl, rfl⟩

theorem stepFails_frame (hs : s.stepFails = some s') :
    s'.pc = .threw ∧ s'.task = s.task ∧ s'.completion = s.completion := by
  unfold AwaitSuspend.stepFails at hs
  split at hs
  · split at hs
    · split at hs
      · exact unwind_frame (s := { s with timer := .queued }) hs
      · exact unwind_frame hs
    · cases hs
  all_goals cases hs

/-- An exception that comes too late leaves the task suspended or its completion callback
listed. -/
theorem not_rolledBack_of_late {label : Label} (h : Inv before s) (hlate : ¬ Timely s label)
    (hs : s.step label = some s') : s'.pc = .threw ∧ ¬ RolledBack before s' := by
  induction label with
  | fails =>
    obtain ⟨hpc, htask, hcompletion⟩ := stepFails_frame hs
    refine ⟨hpc, fun hrolled => hlate ⟨?_, ?_⟩⟩
    · rw [← htask]
      exact hrolled.task
    · rw [← hcompletion]
      exact hrolled.completion
  | next =>
    obtain ⟨hop, hstop⟩ := Classical.not_imp.mp hlate
    obtain ⟨todo, hpc⟩ := Pc.doing_of_op hop
    have htodo : s.pc.todo = some (.recheckStop :: todo) := by rw [hpc]; rfl
    have hcommitted := (placed_of_suffix (h.suffix _ htodo)).committed rfl
    have hsuspended := h.suspended _ htodo hcommitted
    have hunwind : s.stepOp todo .recheckStop = some s' := by
      change s.stepNext = some s' at hs
      rw [AwaitSuspend.stepNext, hpc] at hs
      exact hs
    rw [AwaitSuspend.stepOp, if_pos (by simpa using hstop)] at hunwind
    obtain ⟨hthrew, htask, -⟩ := unwind_frame hunwind
    refine ⟨hthrew, fun hrolled => ?_⟩
    have hrunning := hrolled.task
    rw [htask, hsuspended] at hrunning
    cases hrunning
  | _ => exact absurd trivial hlate

/-- A failed suspension is atomic exactly in the runs in which every exception comes in time. -/
theorem rolledBack_iff_timely (hinit : Initial before) {labels : List Label}
    (hrun : (machine.run before labels).isSome) :
    machine.EveryState (fun s => s.pc = .threw → RolledBack before s) before labels ↔
      machine.EveryStep Timely before labels :=
  Transition.Machine.everyState_iff_everyStep (Inv before)
    (fun _ hinv hthrew => (hinv.threw hthrew).1)
    (fun _ _ _ hinv htimely hnext => hinv.step htimely hnext)
    (fun _ _ _ hinv hlate hnext hall =>
      (not_rolledBack_of_late hinv hlate hnext).2
        (hall (not_rolledBack_of_late hinv hlate hnext).1))
    hinit.inv hrun

/-- A sleep of a task that counts as running. -/
def sleeping : AwaitSuspend where
  kind := .sleep
  worker := some 0
  metrics := (RuntimeMetrics.init .basic 1).apply (some 0) (.raise .runningTasks 1)
  pc := .doing sleepAwait

theorem sleeping_initial : Initial sleeping := by
  constructor <;> rfl

/-- A cancellation in time: the first check throws, and nothing has happened. -/
theorem rolledBack_earlyCancel :
    machine.EveryState (fun s => s.pc = .threw → RolledBack sleeping s) sleeping
      [.next, .requestCancel, .next] :=
  (rolledBack_iff_timely sleeping_initial (by decide +kernel)).mpr (by decide +kernel)

/-- A cancellation between the two checks: the coroutine executes on with `task_cancelled`,
and counts as suspended. -/
theorem sleepCancelled_staysSuspended :
    ∃ labels s, Initial sleeping ∧ machine.run sleeping labels = some s ∧ s.pc = .threw ∧
      s.task = .suspended ∧ sleeping.metrics.gauges .runningTasks = 1 ∧
      s.metrics.gauges .runningTasks = 0 ∧ s.metrics.gauges .suspendedTasks = 1 ∧
      ¬ RolledBack sleeping s := by
  have hend : (machine.run sleeping
      (List.replicate 9 Label.next ++ [Label.requestCancel, Label.next])).map
      (fun s => decide (s.pc = .threw ∧ s.task = .suspended ∧
        sleeping.metrics.gauges .runningTasks = 1 ∧ s.metrics.gauges .runningTasks = 0 ∧
        s.metrics.gauges .suspendedTasks = 1)) = some true := by
    decide +kernel
  obtain ⟨s, hs, hfacts⟩ := Option.map_eq_some_iff.mp hend
  obtain ⟨hthrew, htask, hbefore, hrunning, hsuspended⟩ := of_decide_eq_true hfacts
  refine ⟨_, s, sleeping_initial, hs, hthrew, htask, hbefore, hrunning, hsuspended, ?_⟩
  intro hrolled
  have hrestored := hrolled.task
  rw [htask] at hrestored
  cases hrestored

end AwaitSuspend
end AstraScheduler
