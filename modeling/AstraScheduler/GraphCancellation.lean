import AstraScheduler.GraphCoroutines

/-! # Cancelled before they start

Once a call of `request_cancel` has returned, a node whose invoker was not entered by then
is to be cancelled without executing any of its body.  For an ordinary node this is what
its invoker does.  The first invoker of a coroutine node cancels the control block and
then resumes the coroutine all the same. -/

namespace AstraScheduler
namespace GraphExecution

open WorkStacks
open Transition (Machine)

variable {n k : Nat} {E : Type} {g : FrozenTaskGraph n} {s s' : Run n k E}
variable {w : Fin k} {a : Frame n E} {rest l : List (Frame n E)} {m p : Fin n}

/-- The first invoker of a coroutine node is not entered once a cancel call has returned. -/
def entersInTime (g : FrozenTaskGraph n) (s : Run n k E) : Label n k E → Bool
  | .step w =>
    match s.workers w with
    | .claimed m false :: _ => !(s.cancelReturned.isSome && g.isCoroutineNode m)
    | _ => true
  | _ => true

abbrev EntersInTime (g : FrozenTaskGraph n) (s : Run n k E) (a : Label n k E) : Prop :=
  entersInTime g s a = true

/-- The nodes that may run: those entered so far, or when the first cancel call returned. -/
def Run.warm (s : Run n k E) : List (Fin n) := s.cancelReturned.getD s.entered

/-- The frame runs no code of `m` and reports no other outcome of it than its cancellation. -/
def Frame.Cold (m : Fin n) : Frame n E → Prop
  | .claimed p true | .cancelTask p | .code p | .check p _ | .readState p => p ≠ m
  | .storeOutcome p o _ => p = m → o = .cancelled
  | _ => True

/-- Nothing of the body of `m` has been or is being executed. -/
structure Cold (s : Run n k E) (m : Fin n) : Prop where
  started : m ∉ s.started
  body : (s.entries m).body = .unstarted
  queue : (m, true) ∉ s.queue
  frame : ∀ w, ∀ a ∈ s.workers w, a.Cold m
  marks : ∀ o, (m, o) ∈ s.marks → o = .cancelled
  outcome : (s.entries m).outcome.terminal → (s.entries m).outcome = .cancelled

/-- The nodes that are not warm are cold. -/
structure Chilled (s : Run n k E) : Prop where
  requested : s.cancelReturned.isSome → s.cancelRequested = true
  cancellers : s.cancellers ≠ [] → s.cancelRequested = true
  cold : ∀ m, m ∉ s.warm → Cold s m

namespace Cold

theorem of_workers (h : Cold s p) (hw : s'.workers = s.workers) (hstarted : p ∉ s'.started)
    (hbody : (s'.entries p).body = (s.entries p).body)
    (houtcome : (s'.entries p).outcome = (s.entries p).outcome) (hqueue : (p, true) ∉ s'.queue)
    (hmarks : s'.marks = s.marks) : Cold s' p where
  started := hstarted
  body := hbody.trans h.body
  queue := hqueue
  frame := hw ▸ h.frame
  marks := hmarks ▸ h.marks
  outcome := houtcome ▸ h.outcome

/-- Cold frames give way to cold frames. -/
theorem of_top (h : Cold s p) (htop : s.workers w = a :: rest)
    (hw : s'.workers = Function.update s.workers w (l ++ rest)) (hstarted : p ∉ s'.started)
    (hbody : (s'.entries p).body = (s.entries p).body)
    (houtcome : (s'.entries p).outcome = (s.entries p).outcome) (hqueue : s'.queue = s.queue)
    (hmarks : s'.marks = s.marks) (hnew : ∀ b ∈ l, b.Cold p) : Cold s' p where
  started := hstarted
  body := hbody.trans h.body
  queue := hqueue ▸ h.queue
  frame := by
    intro v b hb
    rw [hw] at hb
    rcases mem_replace hb with hb | hb
    · exact hnew b hb
    · exact h.frame v b (mem_of_mem_rest htop hb)
  marks := hmarks ▸ h.marks
  outcome := houtcome ▸ h.outcome

theorem top (h : Cold s p) (htop : s.workers w = a :: rest) : a.Cold p :=
  h.frame w a (by rw [htop]; exact List.mem_cons_self ..)

theorem of_stack (h : Cold s p) (htop : s.workers w = a :: rest) (hnew : ∀ b ∈ l, b.Cold p) :
    Cold (s.setStack w (l ++ rest)) p :=
  h.of_top htop rfl h.started rfl rfl rfl rfl hnew

/-- A frame of another node changes that node's entry. -/
theorem of_other {entry : NodeEntry E} (h : Cold s p) (hp : m ≠ p)
    (htop : s.workers w = a :: rest) (hentries : s'.entries = Function.update s.entries m entry)
    (hw : s'.workers = Function.update s.workers w (l ++ rest)) (hstarted : p ∉ s'.started)
    (hqueue : s'.queue = s.queue) (hmarks : s'.marks = s.marks) (hnew : ∀ b ∈ l, b.Cold p) :
    Cold s' p := by
  have hsame : s'.entries p = s.entries p := by
    rw [hentries, Function.update_of_ne hp.symm]
  exact h.of_top htop hw hstarted (by rw [hsame]) (by rw [hsame]) hqueue hmarks hnew

/-- The first invoker of a node is entered: that of another one, or of an ordinary node that
cancels itself. -/
theorem enter (h : Cold s p) (htop : s.workers w = .claimed m false :: rest)
    (henter : m = p → s.cancelRequested = true ∧ g.isCoroutineNode p = false) :
    Cold (enter g s w rest m false) p := by
  unfold GraphExecution.enter
  rw [if_neg Bool.false_ne_true]
  dsimp only
  split
  · split
    case isTrue hcor =>
      have hpm : m ≠ p := by
        rintro rfl
        rw [(henter rfl).2] at hcor
        cases hcor
      exact h.of_top (l := [.cancelTask m]) htop rfl h.started rfl rfl rfl rfl
        (by simpa [Frame.Cold] using hpm)
    case isFalse =>
      exact h.of_top (l := [.storeOutcome m .cancelled none]) htop rfl h.started rfl rfl rfl rfl
        (by simp [Frame.Cold])
  · rename_i hcancel
    have hpm : m ≠ p := fun heq => hcancel (henter heq).1
    refine h.of_other (l := [.code m]) hpm htop rfl rfl ?_ rfl rfl ?_
    · exact List.not_mem_cons_of_ne_of_not_mem (Ne.symm hpm) h.started
    · simpa [Frame.Cold] using hpm

theorem stepFrame (h : Cold s p) (htop : s.workers w = a :: rest)
    (henter : a = .claimed p false → s.cancelRequested = true ∧ g.isCoroutineNode p = false)
    (hs : stepFrame g s w rest a = some s') : Cold s' p := by
  cases a with
  | claimed m resume =>
    cases hs
    cases resume with
    -- only a claim of `p` itself could begin its body, and then the run is cancelled
    | false => exact h.enter htop fun hm => henter (by rw [hm])
    | true =>
      have hpm : m ≠ p := h.top htop
      exact h.of_other (l := [.code m]) hpm htop rfl rfl h.started rfl rfl
        (by simpa [Frame.Cold] using hpm)
  | cancelTask m =>
    cases hs
    -- the body that runs is not that of `p`, which has not begun
    have hsame := SameButState.requestTaskCancel s m
    have hpm : m ≠ p := h.top htop
    refine h.of_top (l := [.code m]) htop ?_ ?_ ?_ ?_ hsame.queue hsame.marks
      (by simpa [Frame.Cold] using hpm)
    · dsimp only [Run.setStack, Run.setEntry]
      rw [hsame.workers]
      rfl
    · exact List.not_mem_cons_of_ne_of_not_mem (Ne.symm hpm) h.started
    · simpa [Run.setStack, Run.setEntry, Ne.symm hpm] using hsame.body p
    · simpa [Run.setStack, Run.setEntry, Ne.symm hpm] using hsame.outcome p
  | code m => cases hs
  | check m suspended =>
    simp only [GraphExecution.stepFrame] at hs
    split at hs <;> cases hs
    · refine h.of_stack (l := [_]) htop ?_
      simpa [Frame.Cold] using h.top htop
    · exact h.of_stack (l := []) htop (by simp)
  | readState m =>
    cases hs
    refine h.of_stack (l := [_]) htop ?_
    have hpm : m ≠ p := h.top htop
    simp only [List.mem_singleton, forall_eq]
    exact fun heq => absurd heq hpm
  | storeOutcome m o e =>
    cases hs
    -- if the outcome stored is that of `p`, it is Cancelled
    have ho : m = p → o = .cancelled := h.top htop
    refine ⟨h.started, ?_, h.queue, ?_, fun o' hmem => ?_, fun hterm => ?_⟩
    · exact (Run.entries_eq rfl NodeEntry.body p).trans h.body
    · exact (h.of_stack (l := [.record m o e]) htop (by simp [Frame.Cold])).frame
    · rcases List.mem_cons.mp hmem with heq | hmem
      · obtain ⟨rfl, rfl⟩ := Prod.mk.inj heq
        exact ho rfl
      · exact h.marks o' hmem
    · by_cases hpm : p = m
      · subst hpm
        simp [Run.setStack, Run.setEntry, ho rfl]
      · simp only [Run.setStack, Run.setEntry, Function.update_of_ne hpm] at hterm ⊢
        exact h.outcome hterm
  | record m o e | complete m | trigger m =>
    cases hs
    exact h.of_top (l := [_]) htop rfl h.started rfl rfl rfl rfl (by simp [Frame.Cold])
  | countNode m =>
    cases hs
    refine h.of_top (l := [_]) htop rfl h.started rfl rfl rfl rfl ?_
    simp only [List.mem_singleton, forall_eq]
    split <;> trivial
  | edges m o successors =>
    cases successors with
    | nil =>
      cases hs
      exact h.of_stack (l := []) htop (by simp)
    | cons c more =>
      simp only [GraphExecution.stepFrame] at hs
      split at hs <;> cases hs
      · exact h.of_top (l := [.countDown m o c.1 more]) htop rfl h.started
          (Run.entries_eq rfl NodeEntry.body p) (Run.entries_eq rfl NodeEntry.outcome p) rfl rfl
          (by simp [Frame.Cold])
      · exact h.of_stack (l := [_]) htop (by simp [Frame.Cold])
  | countDown m o c more =>
    cases hs
    refine h.of_top (l := (if (s.entries c).remainingPredecessors = 1 then [Frame.decide c]
      else []) ++ [Frame.edges m o more]) htop (by simp [Run.setStack, Run.setEntry]) h.started
      (Run.entries_eq rfl NodeEntry.body p) (Run.entries_eq rfl NodeEntry.outcome p) rfl rfl
      fun b hb => ?_
    rcases List.mem_append.mp hb with hb | hb
    · split at hb
      · obtain rfl := List.mem_singleton.mp hb
        trivial
      · cases hb
    · obtain rfl := List.mem_singleton.mp hb
      trivial
  | decide m | decideCancel m =>
    simp only [GraphExecution.stepFrame] at hs
    split at hs <;> cases hs <;> exact h.of_stack (l := [_]) htop (by simp [Frame.Cold])
  | post m =>
    cases hs
    refine ⟨h.started, h.body, fun hmem => ?_, (h.of_stack (l := []) htop (by simp)).frame,
      h.marks, h.outcome⟩
    rcases List.mem_append.mp hmem with hmem | hmem
    · exact h.queue hmem
    · simp at hmem

theorem of_sameButState (h : Cold s p) (hs : SameButState s s') : Cold s' p :=
  h.of_workers hs.workers (hs.started ▸ h.started) (hs.body p) (hs.outcome p)
    (hs.queue ▸ h.queue) hs.marks

/-- A node stays cold until its first invoker is entered, and an ordinary one of a cancelled
run even then. -/
theorem step {a : Label n k E} (h : Cold s p)
    (henter : ∀ w rest, a = .step w → s.workers w = .claimed p false :: rest →
      s.cancelRequested = true ∧ g.isCoroutineNode p = false)
    (hs : step g s a = some s') : Cold s' p := by
  cases a with
  | postRoot =>
    simp only [GraphExecution.step] at hs
    split at hs <;> cases hs
    refine h.of_workers rfl h.started rfl rfl (fun hmem => ?_) rfl
    rcases List.mem_append.mp hmem with hmem | hmem
    · exact h.queue hmem
    · simp at hmem
  | claim w m resume =>
    simp only [GraphExecution.step] at hs
    split at hs
    case isFalse => cases hs
    case isTrue hq =>
      cases hs
      refine ⟨h.started, h.body, fun hmem => h.queue (List.mem_of_mem_erase hmem),
        fun v b hb => ?_, h.marks, h.outcome⟩
      dsimp only [Run.setStack] at hb
      by_cases hv : v = w
      · subst hv
        rw [Function.update_self] at hb
        rcases List.mem_cons.mp hb with rfl | hb
        · cases resume with
          | false => trivial
          | true =>
            rintro rfl
            exact h.queue hq.1
        · exact h.frame v b hb
      · rw [Function.update_of_ne hv] at hb
        exact h.frame v b hb
  | step w =>
    simp only [GraphExecution.step] at hs
    split at hs
    case h_1 frame rest htop =>
      exact h.stepFrame htop (fun ha => henter w rest rfl (by rw [htop, ha])) hs
    case h_2 => cases hs
  | finish w result =>
    simp only [GraphExecution.step] at hs
    split at hs <;> cases hs
    case h_1 m rest htop =>
      have hpm : m ≠ p := h.top htop
      unfold finish
      dsimp only
      split
      · exact h.of_other (l := [.check m false]) hpm htop rfl rfl h.started rfl rfl
          (by simpa [Frame.Cold] using hpm)
      · refine h.of_other (l := [.storeOutcome m _ _]) hpm htop rfl rfl h.started rfl rfl ?_
        simp only [List.mem_singleton, forall_eq]
        exact fun heq => absurd heq hpm
  | suspend w =>
    simp only [GraphExecution.step] at hs
    split at hs
    case h_1 m rest htop =>
      split at hs <;> cases hs
      have hpm : m ≠ p := h.top htop
      exact h.of_other (l := [.check m true]) hpm htop rfl rfl h.started rfl rfl
        (by simpa [Frame.Cold] using hpm)
    case h_2 => cases hs
  | awake m =>
    simp only [GraphExecution.step] at hs
    split at hs
    case isFalse => cases hs
    case isTrue hbody =>
      cases hs
      have hpm : p ≠ m := by
        rintro rfl
        rw [h.body] at hbody
        cases hbody
      refine h.of_workers rfl h.started ?_ ?_ (fun hmem => ?_) rfl
      · simp [Run.setEntry, hpm]
      · simp [Run.setEntry, hpm]
      · rcases List.mem_append.mp hmem with hmem | hmem
        · exact h.queue hmem
        · simp [hpm] at hmem
  | requestCancel =>
    cases hs
    exact h.of_workers rfl h.started rfl rfl h.queue rfl
  | cancelNode j =>
    simp only [GraphExecution.step] at hs
    split at hs <;> cases hs
    case h_1 m rest hj =>
      have hafter : Cold (if g.isCoroutineNode m then s.requestTaskCancel m else s) p := by
        split
        · exact h.of_sameButState (.requestTaskCancel s m)
        · exact h
      exact hafter.of_workers rfl hafter.started rfl rfl hafter.queue rfl
    case h_2 hj => exact h.of_workers rfl h.started rfl rfl h.queue rfl

theorem initial (p : Fin n) : Cold (initial g : Run n k E) p :=
  ⟨List.not_mem_nil, rfl, List.not_mem_nil, fun _ _ hb => (List.not_mem_nil hb).elim,
    fun _ hm => (List.not_mem_nil hm).elim, fun hterm => (Bool.false_ne_true hterm).elim⟩

end Cold

/-! ## Cancel calls -/

/-- What the cancel calls and the entries leave to each other. -/
structure SameCalls (s s' : Run n k E) : Prop where
  cancelReturned : s'.cancelReturned = s.cancelReturned
  cancelRequested : s'.cancelRequested = s.cancelRequested
  cancellers : s'.cancellers = s.cancellers

/-- A worker leaves the cancel calls alone, and enters no node but the one it has claimed. -/
theorem stepFrame_calls (hs : stepFrame g s w rest a = some s') : SameCalls s s' ∧
    (s'.entered = s.entered ∨ ∃ m, a = .claimed m false ∧ s'.entered = m :: s.entered) := by
  cases a with
  | claimed m resume =>
    cases hs
    unfold enter
    cases resume with
    | true => exact ⟨⟨rfl, rfl, rfl⟩, .inl rfl⟩
    | false =>
      rw [if_neg Bool.false_ne_true]
      dsimp only
      split
      · split <;> exact ⟨⟨rfl, rfl, rfl⟩, .inr ⟨m, rfl, rfl⟩⟩
      · exact ⟨⟨rfl, rfl, rfl⟩, .inr ⟨m, rfl, rfl⟩⟩
  | cancelTask m =>
    cases hs
    have hsame := SameButState.requestTaskCancel s m
    exact ⟨⟨hsame.cancelReturned, hsame.cancelRequested, hsame.cancellers⟩, .inl hsame.entered⟩
  | code m => cases hs
  | readState m | storeOutcome m o e | record m o e | countNode m | complete m | trigger m
  | countDown m o c more | post m =>
    cases hs
    exact ⟨⟨rfl, rfl, rfl⟩, .inl rfl⟩
  | edges m o successors =>
    cases successors with
    | nil =>
      cases hs
      exact ⟨⟨rfl, rfl, rfl⟩, .inl rfl⟩
    | cons c more =>
      simp only [stepFrame] at hs
      split at hs <;> cases hs <;> exact ⟨⟨rfl, rfl, rfl⟩, .inl rfl⟩
  | check m suspended | decide m | decideCancel m =>
    simp only [stepFrame] at hs
    split at hs <;> cases hs <;> exact ⟨⟨rfl, rfl, rfl⟩, .inl rfl⟩

/-- A step enters the invoker that a worker has claimed, and forgets none. -/
theorem step_entered {b : Label n k E} (hs : step g s b = some s') : s.entered ⊆ s'.entered ∧
    ∀ w m rest, b = .step w → s.workers w = .claimed m false :: rest → m ∈ s'.entered := by
  have hall := List.Subset.refl s.entered
  cases b with
  | step w =>
    simp only [step] at hs
    split at hs
    case h_2 => cases hs
    case h_1 frame rest htop =>
      refine ⟨?_, fun v m rest' hv htop' => ?_⟩
      · rcases (stepFrame_calls hs).2 with heq | ⟨m, -, heq⟩
        · rw [heq]
          exact hall
        · rw [heq]
          exact List.subset_cons_self ..
      · cases hv
        obtain rfl : frame = .claimed m false := (List.cons.inj (htop.symm.trans htop')).1
        cases hs
        unfold enter
        rw [if_neg Bool.false_ne_true]
        dsimp only
        split
        · split <;> exact List.mem_cons_self ..
        · exact List.mem_cons_self ..
  | postRoot | requestCancel =>
    simp only [step] at hs
    repeat' split at hs
    all_goals
      cases hs <;> exact ⟨hall, fun _ _ _ hb => by cases hb⟩
  | claim w m resume | suspend w | awake m =>
    simp only [step] at hs
    repeat' split at hs
    all_goals
      cases hs <;> exact ⟨hall, fun _ _ _ hb => by cases hb⟩
  | finish w result =>
    simp only [step] at hs
    split at hs <;> cases hs
    refine ⟨?_, fun _ _ _ hb => by cases hb⟩
    unfold finish
    dsimp only
    split <;> exact hall
  | cancelNode j =>
    refine ⟨?_, fun _ _ _ hb => by cases hb⟩
    simp only [step] at hs
    split at hs <;> cases hs
    · split
      · exact (SameButState.requestTaskCancel s _).entered ▸ hall
      · exact hall
    · exact hall

namespace Chilled

/-- A step that leaves the cancel calls alone makes no node warm but those it enters. -/
theorem of_calls {b : Label n k E} (h : Chilled s) (hc : SameCalls s s')
    (hok : EntersInTime g s b) (hs : GraphExecution.step g s b = some s') : Chilled s' where
  requested := by
    rw [hc.cancelReturned, hc.cancelRequested]
    exact h.requested
  cancellers := by
    rw [hc.cancellers, hc.cancelRequested]
    exact h.cancellers
  cold := by
    intro p hp
    obtain ⟨hentered, hnew⟩ := step_entered hs
    have hwarm : p ∉ s.warm := by
      unfold Run.warm at hp ⊢
      rw [hc.cancelReturned] at hp
      cases hret : s.cancelReturned with
      | none => exact fun hmem => hp (by simpa [hret] using hentered (by simpa [hret] using hmem))
      | some L => simpa [hret] using hp
    refine (h.cold p hwarm).step (fun v rest hb htop => ?_) hs
    rcases Option.eq_none_or_eq_some s.cancelReturned with hret | ⟨L, hret⟩
    · -- the node becomes warm
      exact absurd (hnew v p rest hb htop) (by simpa [Run.warm, hc.cancelReturned, hret] using hp)
    · -- an ordinary node cancels itself
      refine ⟨h.requested (by rw [hret]; rfl), ?_⟩
      subst hb
      simpa [EntersInTime, entersInTime, htop, hret] using hok

theorem step {a : Label n k E} (h : Chilled s) (hok : EntersInTime g s a)
    (hs : step g s a = some s') : Chilled s' := by
  cases a with
  | step w =>
    have hstep := hs
    simp only [GraphExecution.step] at hstep
    split at hstep
    case h_1 frame rest htop => exact h.of_calls (stepFrame_calls hstep).1 hok hs
    case h_2 => cases hstep
  | postRoot =>
    have hstep := hs
    simp only [GraphExecution.step] at hstep
    split at hstep <;> cases hstep
    exact h.of_calls ⟨rfl, rfl, rfl⟩ hok hs
  | claim w m resume | suspend w | awake m =>
    have hstep := hs
    simp only [GraphExecution.step] at hstep
    repeat' split at hstep
    all_goals
      cases hstep <;> exact h.of_calls ⟨rfl, rfl, rfl⟩ hok hs
  | finish w result =>
    have hstep := hs
    simp only [GraphExecution.step] at hstep
    split at hstep <;> cases hstep
    refine h.of_calls (b := .finish w result) ?_ hok hs
    unfold finish
    dsimp only
    split <;> exact ⟨rfl, rfl, rfl⟩
  | requestCancel =>
    have hcold : ∀ p ∉ s.warm, Cold s' p := fun p hp =>
      (h.cold p hp).step (fun _ _ hb => by cases hb) hs
    cases hs
    exact ⟨fun _ => rfl, fun _ => rfl, hcold⟩
  | cancelNode j =>
    have hcold : ∀ p ∉ s.warm, Cold s' p := fun p hp =>
      (h.cold p hp).step (fun _ _ hb => by cases hb) hs
    simp only [GraphExecution.step] at hs
    split at hs <;> cases hs
    case h_1 m rest hj =>
      have hreq : s.cancelRequested = true := by
        refine h.cancellers fun hnil => ?_
        simp [hnil] at hj
      have hsame : SameButState s (if g.isCoroutineNode m then s.requestTaskCancel m else s) := by
        split
        · exact .requestTaskCancel s m
        · exact ⟨fun _ => rfl, fun _ => rfl, rfl, rfl, rfl, rfl, rfl, rfl, rfl, rfl, rfl⟩
      refine ⟨fun _ => hsame.cancelRequested.trans hreq, fun _ => hsame.cancelRequested.trans hreq,
        fun p hp => hcold p ?_⟩
      simpa [Run.warm, hsame.cancelReturned, hsame.entered] using hp
    case h_2 hj =>
      have hreq : s.cancelRequested = true := by
        refine h.cancellers fun hnil => ?_
        simp [hnil] at hj
      refine ⟨fun _ => hreq, fun _ => hreq, fun p hp => hcold p ?_⟩
      unfold Run.warm at hp ⊢
      cases hret : s.cancelReturned <;> simpa [hret] using hp

theorem of_reachable (h : (machine g k E).ReachableUnder (EntersInTime g) s) : Chilled s := by
  refine h.invariant Chilled ?_ ?_
  · rintro s rfl
    exact ⟨fun hret => by simp [initial] at hret, fun hne => (hne rfl).elim,
      fun p _ => Cold.initial p⟩
  · intro s a s' hc hok hs
    exact hc.step hok hs

end Chilled

/-- Nodes that were not entered when a cancel call had returned execute nothing and are
cancelled. -/
def CancelSafety (s : Run n k E) : Prop :=
  ∀ entered, s.cancelReturned = some entered → ∀ m, m ∉ entered →
    m ∉ s.started ∧ (s.entries m).body = .unstarted ∧
      (∀ o, (m, o) ∈ s.marks → o = .cancelled) ∧
        ((s.entries m).outcome.terminal → (s.entries m).outcome = .cancelled)

/-- **Cancellation prevents the bodies that have not started**, in every run in which no first
invoker of a coroutine node is entered after a cancel call has returned. -/
theorem cancelSafety_of_reachable (h : (machine g k E).ReachableUnder (EntersInTime g) s) :
    CancelSafety s := by
  intro entered hret m hm
  have hcold := (Chilled.of_reachable h).cold m (by simpa [Run.warm, hret] using hm)
  exact ⟨hcold.started, hcold.body, hcold.marks, hcold.outcome⟩

/-- The run is cancelled while the second node of the chain is in a queue. -/
def cancelledRun : List (Label 2 1 Nat) :=
  ([.postRoot, .claim 0 0 false, .step 0, .finish 0 .returned] : List (Label 2 1 Nat)) ++
    (List.replicate 9 (.step 0) : List (Label 2 1 Nat)) ++
    ([.requestCancel, .cancelNode 0, .cancelNode 0, .cancelNode 0, .step 0,
      .claim 0 1 false] : List (Label 2 1 Nat)) ++
    (List.replicate 6 (.step 0) : List (Label 2 1 Nat))

theorem cancelSafety_of_chain : ∃ s,
    (machine chain 1 Nat).run (initial chain) cancelledRun = some s ∧
      s.cancelReturned = some [0] ∧ s.marks = [(1, .cancelled), (0, .succeeded)] ∧
        CancelSafety s := by
  obtain ⟨s, hs⟩ := Option.isSome_iff_exists.mp
    (show ((machine chain 1 Nat).run (initial chain) cancelledRun).isSome by decide)
  have hend : ((machine chain 1 Nat).run (initial chain) cancelledRun).map (fun s =>
      decide (s.cancelReturned = some [0] ∧ s.marks = [(1, .cancelled), (0, .succeeded)])) =
        some true := by
    decide
  simp only [hs, Option.map_some, Option.some.injEq, decide_eq_true_eq] at hend
  have hinit : (machine chain 1 Nat).ReachableUnder (EntersInTime chain) (initial chain) :=
    .initial rfl
  exact ⟨s, hs, hend.1, hend.2, cancelSafety_of_reachable (hinit.run (by decide) hs)⟩

/-- A coroutine node that is in a queue when the cancel call returns runs its whole body and
succeeds. -/
theorem started_after_cancel : ∃ s, (machine lone 1 Nat).Reachable s ∧
    s.cancelReturned = some [] ∧ s.started = [0] ∧ s.marks = [(0, .succeeded)] := by
  let late : List (Label 1 1 Nat) :=
    [.postRoot, .requestCancel, .cancelNode 0, .cancelNode 0, .claim 0 0 false, .step 0, .step 0,
      .finish 0 .returned, .step 0, .step 0, .step 0]
  obtain ⟨s, hs⟩ := Option.isSome_iff_exists.mp
    (show ((machine lone 1 Nat).run (initial lone) late).isSome by decide)
  have hend : ((machine lone 1 Nat).run (initial lone) late).map (fun s =>
      decide (s.cancelReturned = some [] ∧ s.started = [0] ∧ s.marks = [(0, .succeeded)])) =
        some true := by
    decide
  simp only [hs, Option.map_some, Option.some.injEq, decide_eq_true_eq] at hend
  exact ⟨s, Machine.reachable_of_run rfl hs, hend⟩

end GraphExecution
end AstraScheduler
