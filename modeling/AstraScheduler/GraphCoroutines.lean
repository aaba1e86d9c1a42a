import AstraScheduler.GraphSafety

/-! # Coroutine nodes

A coroutine node is one control block, one frame and one share of the countdown.  A worker
that has suspended the coroutine checks whether it is completed; another worker may have
resumed and completed it by then, and both mark the node.  As long as every check comes in
time, the node is marked once, after its body has finished. -/

namespace AstraScheduler
namespace GraphExecution

open WorkStacks
open Transition (Machine)

variable {n k : Nat} {E : Type} {g : FrozenTaskGraph n} {s s' : Run n k E}
variable {w : Fin k} {a : Frame n E} {rest l : List (Frame n E)} {m : Fin n}

/-- The code of `m` is running. -/
def Frame.coding (m : Fin n) : Frame n E → Nat
  | .code p => if p = m then 1 else 0
  | _ => 0

/-- A resume of `m` is claimed. -/
def Frame.resumed (m : Fin n) : Frame n E → Nat
  | .claimed p true => if p = m then 1 else 0
  | _ => 0

theorem Frame.coding_le (m : Fin n) (a : Frame n E) : Frame.coding m a ≤ Frame.holds m a := by
  cases a with
  | code p => exact Nat.le_refl _
  | _ => exact Nat.zero_le _

theorem Frame.resumed_le (m : Fin n) (a : Frame n E) : Frame.resumed m a ≤ Frame.holds m a := by
  cases a with
  | claimed p resume =>
    cases resume
    · exact Nat.zero_le _
    · exact Nat.le_refl _
  | _ => exact Nat.zero_le _

/-- A body is as far as the queues and the workers have it. -/
structure Bodies (s : Run n k E) : Prop where
  running : ∀ m, weight (Frame.coding m) s.workers =
    if (s.entries m).body = .running then 1 else 0
  resuming : ∀ m, s.queue.count (m, true) + weight (Frame.resumed m) s.workers =
    if (s.entries m).body = .resuming then 1 else 0

namespace Bodies

/-- Frames that run no code are replaced by others. -/
theorem of_top (h : Bodies s) (htop : s.workers w = a :: rest)
    (hw : s'.workers = Function.update s.workers w (l ++ rest)) (hqueue : s'.queue = s.queue)
    (hbody : ∀ p, (s'.entries p).body = (s.entries p).body)
    (hcoding : ∀ p, stackWeight (Frame.coding p) l = Frame.coding p a)
    (hresumed : ∀ p, stackWeight (Frame.resumed p) l = Frame.resumed p a) : Bodies s' where
  running := by
    intro p
    rw [hbody, weight_same htop hw (hcoding p)]
    exact h.running p
  resuming := by
    intro p
    rw [hbody, hqueue, weight_same htop hw (hresumed p)]
    exact h.resuming p

/-- A worker goes on with the body of a node that it alone has in hand. -/
theorem of_carry {b : Frame n E} (h : Bodies s) (hl : Ledger g s)
    (htop : s.workers w = a :: rest) (ha : a.holds m = 1) (entry : NodeEntry E)
    (hentries : s'.entries = Function.update s.entries m entry)
    (hw : s'.workers = Function.update s.workers w (b :: rest)) (hqueue : s'.queue = s.queue)
    (hcodingA : ∀ p ≠ m, a.coding p = 0 ∧ a.resumed p = 0)
    (hcodingB : ∀ p, b.resumed p = 0 ∧ (p ≠ m → b.coding p = 0))
    (hb : b.coding m = if entry.body = .running then 1 else 0)
    (hresuming : entry.body ≠ .resuming) : Bodies s' := by
  have hother : ∀ p ≠ m, s'.entries p = s.entries p := by
    intro p hp
    rw [hentries, Function.update_of_ne hp]
  have hself : s'.entries m = entry := by
    rw [hentries, Function.update_self]
  obtain ⟨hcoding, hq, -⟩ := hl.alone htop ha (Frame.coding_le m)
  obtain ⟨hresumed, -, -⟩ := hl.alone htop ha (Frame.resumed_le m)
  have hwc : ∀ f : Frame n E → Nat, weight f s'.workers + f a = weight f s.workers + f b := by
    intro f
    rw [hw]
    exact weight_one htop b f
  constructor
  · intro p
    have hrunning := h.running p
    have hweight := hwc (Frame.coding p)
    by_cases hp : p = m
    · subst hp
      rw [hself]
      omega
    · rw [hother p hp]
      have hzero := (hcodingB p).2 hp
      have hzero' := (hcodingA p hp).1
      omega
  · intro p
    have hold := h.resuming p
    have hweight := hwc (Frame.resumed p)
    have hzero := (hcodingB p).1
    rw [hqueue]
    by_cases hp : p = m
    · subst hp
      have hle : s.queue.count (p, true) ≤ s.queue.countP fun c => c.1 = p := by
        refine List.countP_mono_left fun c _ hc => ?_
        have hc : c = (p, true) := by simpa using hc
        simp [hc]
      rw [hself, if_neg hresuming]
      omega
    · rw [hother p hp]
      have hzero' := (hcodingA p hp).2
      omega

theorem requestTaskCancel_body (s : Run n k E) (m p : Fin n) :
    ((s.requestTaskCancel m).entries p).body = (s.entries p).body := by
  unfold Run.requestTaskCancel
  split
  · exact Run.entries_eq rfl NodeEntry.body p
  · rfl

theorem stepFrame (h : Bodies s) (hl : Ledger g s) (htop : s.workers w = a :: rest)
    (hs : stepFrame g s w rest a = some s') : Bodies s' := by
  cases a with
  | claimed m resume =>
    cases hs
    unfold enter
    cases resume with
    | true =>
      rw [if_pos rfl]
      -- a resume: the suspended body runs again
      refine h.of_carry (b := .code m) hl htop (m := m) (if_pos rfl) _ rfl rfl rfl (fun p hp => ?_)
        (fun p => ?_) (if_pos rfl) BodyState.noConfusion
      · simp [Frame.coding, Frame.resumed, Ne.symm hp]
      · exact ⟨rfl, fun hp => if_neg (Ne.symm hp)⟩
    | false =>
      rw [if_neg Bool.false_ne_true]
      dsimp only
      split
      -- a first segment: a cancelled run ends the node before its body, else the body begins
      · split
        · exact h.of_top (l := [_]) htop rfl rfl (fun _ => rfl) (by simp [Frame.coding])
            (by simp [Frame.resumed])
        · exact h.of_top (l := [_]) htop rfl rfl (fun _ => rfl) (by simp [Frame.coding])
            (by simp [Frame.resumed])
      · exact h.of_carry (b := .code m) hl htop (m := m) (if_pos rfl) _ rfl rfl rfl
          (fun _ _ => ⟨rfl, rfl⟩) (fun p => ⟨rfl, fun hp => if_neg (Ne.symm hp)⟩) (if_pos rfl)
          BodyState.noConfusion
  | cancelTask m =>
    cases hs
    -- the stop request changes one entry and leaves the stacks and the queue alone
    have hcancel : (s.requestTaskCancel m).entries =
        Function.update s.entries m ((s.requestTaskCancel m).entries m) := by
      unfold Run.requestTaskCancel
      split
      · simp [Run.setEntry]
      · exact (Function.update_eq_self m s.entries).symm
    have hsame : (s.requestTaskCancel m).workers = s.workers ∧
        (s.requestTaskCancel m).queue = s.queue := by
      unfold Run.requestTaskCancel
      split <;> exact ⟨rfl, rfl⟩
    refine h.of_carry (b := .code m) hl htop (m := m) (if_pos rfl)
      { (s.requestTaskCancel m).entries m with body := .running } ?_ ?_ hsame.2
      (fun _ _ => ⟨rfl, rfl⟩) (fun p => ⟨rfl, fun hp => if_neg (Ne.symm hp)⟩) (if_pos rfl)
      BodyState.noConfusion
    · dsimp only [Run.setStack, Run.setEntry]
      rw [hcancel, Function.update_idem]
    · dsimp only [Run.setStack, Run.setEntry]
      rw [hsame.1]
  | code m => cases hs
  | check m suspended =>
    simp only [GraphExecution.stepFrame] at hs
    split at hs <;> cases hs
    · exact h.of_top (l := [_]) htop rfl rfl (fun _ => rfl) (by simp [Frame.coding])
        (by simp [Frame.resumed])
    · exact h.of_top (l := []) htop rfl rfl (fun _ => rfl) (by simp [Frame.coding])
        (by simp [Frame.resumed])
  | readState m | record m o e | complete m | trigger m =>
    cases hs
    exact h.of_top (l := [_]) htop rfl rfl (fun _ => rfl) (by simp [Frame.coding])
      (by simp [Frame.resumed])
  | storeOutcome m o e =>
    cases hs
    exact h.of_top (l := [_]) htop rfl rfl (fun p => Run.entries_eq rfl NodeEntry.body p)
      (by simp [Frame.coding]) (by simp [Frame.resumed])
  | countNode m =>
    cases hs
    refine h.of_top (l := [_]) htop rfl rfl (fun _ => rfl) (fun p => ?_) fun p => ?_
    · split <;> rfl
    · split <;> rfl
  | edges m o successors =>
    cases successors with
    | nil =>
      cases hs
      exact h.of_top (l := []) htop rfl rfl (fun _ => rfl) (by simp [Frame.coding])
        (by simp [Frame.resumed])
    | cons c more =>
      simp only [GraphExecution.stepFrame] at hs
      split at hs <;> cases hs
      · exact h.of_top (l := [_]) htop rfl rfl (fun p => Run.entries_eq rfl NodeEntry.body p)
          (by simp [Frame.coding]) (by simp [Frame.resumed])
      · exact h.of_top (l := [_]) htop rfl rfl (fun _ => rfl) (by simp [Frame.coding])
          (by simp [Frame.resumed])
  | countDown m o c more =>
    cases hs
    refine h.of_top (l := (if (s.entries c).remainingPredecessors = 1 then [Frame.decide c]
      else []) ++ [Frame.edges m o more]) htop (by simp [Run.setStack, Run.setEntry]) rfl
      (fun p => Run.entries_eq rfl NodeEntry.body p) (fun p => ?_) fun p => ?_
    · split <;> rfl
    · split <;> rfl
  | decide m | decideCancel m =>
    simp only [GraphExecution.stepFrame] at hs
    split at hs <;> cases hs <;>
      exact h.of_top (l := [_]) htop rfl rfl (fun _ => rfl) (by simp [Frame.coding])
        (by simp [Frame.resumed])
  | post m =>
    cases hs
    have hstack : Bodies (s.setStack w rest) := h.of_top (l := []) htop rfl rfl (fun _ => rfl)
      (by simp [Frame.coding]) (by simp [Frame.resumed])
    refine ⟨hstack.running, fun p => ?_⟩
    -- a first segment is no resume
    have hqueue : (s.queue ++ [(m, false)]).count (p, true) = s.queue.count (p, true) := by
      simp [List.count_append]
    exact (congrArg (· + _) hqueue).trans (hstack.resuming p)

theorem step {a : Label n k E} (h : Bodies s) (hl : Ledger g s) (hs : step g s a = some s') :
    Bodies s' := by
  cases a with
  | postRoot =>
    simp only [GraphExecution.step] at hs
    split at hs <;> cases hs
    refine ⟨h.running, fun p => ?_⟩
    refine Eq.trans ?_ (h.resuming p)
    simp [Run.postNode, List.count_append]
  | claim w m resume =>
    simp only [GraphExecution.step] at hs
    split at hs
    case isFalse => cases hs
    case isTrue hq =>
      cases hs
      have hw : ∀ f : Frame n E → Nat,
          weight f (Function.update s.workers w (.claimed m resume :: s.workers w)) =
            weight f s.workers + f (.claimed m resume) :=
        fun f => weight_push [Frame.claimed m resume]
      refine ⟨fun p => (hw (Frame.coding p)).trans (h.running p), fun p => ?_⟩
      refine Eq.trans ?_ (h.resuming p)
      have hcount : s.queue.count (p, true) = (s.queue.erase (m, resume)).count (p, true) +
          Frame.resumed p (.claimed m resume : Frame n E) := by
        rw [(List.perm_cons_erase hq.1).count_eq, List.count_cons]
        cases resume <;> simp [Frame.resumed]
      have hweight := hw (Frame.resumed p)
      dsimp only [Run.setStack]
      omega
  | step w =>
    simp only [GraphExecution.step] at hs
    split at hs
    case h_1 frame rest htop => exact h.stepFrame hl htop hs
    case h_2 => cases hs
  | finish w result =>
    simp only [GraphExecution.step] at hs
    split at hs <;> cases hs
    case h_1 m rest htop =>
      have hcode : ∀ p ≠ m, Frame.coding p (.code m : Frame n E) = 0 ∧
          Frame.resumed p (.code m : Frame n E) = 0 := fun p hp => ⟨if_neg (Ne.symm hp), rfl⟩
      unfold finish
      dsimp only
      split
      · exact h.of_carry (b := .check m false) hl htop (m := m) (if_pos rfl) _ rfl rfl rfl hcode
          (fun _ => ⟨rfl, fun _ => rfl⟩) rfl BodyState.noConfusion
      · exact h.of_carry (b := .storeOutcome m _ _) hl htop (m := m) (if_pos rfl) _ rfl rfl rfl hcode
          (fun _ => ⟨rfl, fun _ => rfl⟩) rfl BodyState.noConfusion
  | suspend w =>
    simp only [GraphExecution.step] at hs
    split at hs
    case h_1 m rest htop =>
      split at hs <;> cases hs
      exact h.of_carry (b := .check m true) hl htop (m := m) (if_pos rfl) _ rfl rfl rfl
        (fun p hp => ⟨if_neg (Ne.symm hp), rfl⟩) (fun _ => ⟨rfl, fun _ => rfl⟩) rfl
        BodyState.noConfusion
    case h_2 => cases hs
  | awake m =>
    simp only [GraphExecution.step] at hs
    split at hs
    case isFalse => cases hs
    case isTrue hbody =>
      cases hs
      refine ⟨fun p => ?_, fun p => ?_⟩
      · refine (h.running p).trans ?_
        by_cases hp : p = m
        · subst hp
          simp [Run.setEntry, hbody]
        · simp [Run.setEntry, hp]
      · have hold := h.resuming p
        by_cases hp : p = m
        · subst hp
          simp only [hbody, reduceCtorEq, if_false] at hold
          simp only [Run.setEntry, Function.update_self, List.count_append, List.count_singleton]
          simp
          omega
        · simpa [Run.setEntry, hp, List.count_append, List.count_singleton, Ne.symm hp] using hold
  | requestCancel =>
    cases hs
    exact ⟨h.running, h.resuming⟩
  | cancelNode j =>
    simp only [GraphExecution.step] at hs
    split at hs <;> cases hs
    case h_1 m rest hj =>
      split
      · have hsame : (s.requestTaskCancel m).workers = s.workers ∧
            (s.requestTaskCancel m).queue = s.queue := by
          unfold Run.requestTaskCancel
          split <;> exact ⟨rfl, rfl⟩
        refine ⟨fun p => ?_, fun p => ?_⟩
        · dsimp only
          rw [requestTaskCancel_body, hsame.1]
          exact h.running p
        · dsimp only
          rw [requestTaskCancel_body, hsame.1, hsame.2]
          exact h.resuming p
      · exact ⟨h.running, h.resuming⟩
    case h_2 hj => exact ⟨h.running, h.resuming⟩

theorem initial : Bodies (initial g : Run n k E) := by
  have hempty : ∀ f : Frame n E → Nat,
      weight f (GraphExecution.initial g : Run n k E).workers = 0 :=
    fun f => weight_empty f fun _ => rfl
  refine ⟨fun m => hempty _, fun m => ?_⟩
  rw [hempty]
  rfl

theorem of_reachable (h : (machine g k E).ReachableUnder ChecksInTime s) : Bodies s := by
  have hboth := h.invariant (fun s => Books g s ∧ Bodies s) ?_ ?_
  · exact hboth.2
  · rintro s rfl
    exact ⟨Books.initial g, initial⟩
  · intro s a s' hb hok hs
    exact ⟨hb.1.step hok hs, hb.2.step hb.1.ledger hs⟩

end Bodies

/-! ## Marked once, and after the body -/

/-- What holds of a run as long as checks come in time. -/
structure CoroutineSafety (g : FrozenTaskGraph n) (s : Run n k E) : Prop where
  marked : ∀ m, (s.marks.map Prod.fst).count m ≤ 1
  triggered : ∀ m, s.triggered.count m ≤ 1
  remaining : 0 ≤ s.remainingNodes
  stored : s.completions.length ≤ 1
  /-- No body of a node that is marked is under way. -/
  finished : ∀ m o, (m, o) ∈ s.marks →
    (s.entries m).body = .unstarted ∨ (s.entries m).body = .finished
  completed : s.runState ≠ .running → (∀ m, (s.marks.map Prod.fst).count m = 1) ∧
    ∀ m, (s.entries m).body = .unstarted ∨ (s.entries m).body = .finished
  idle : s.Idle → (∀ m, (s.entries m).body ≠ .suspended) → s.runState ≠ .running

/-- The body of a marked node is not under way: the node would be in a second place. -/
theorem Bodies.of_marked (h : Bodies s) (hl : Ledger g s) (hm : m ∈ s.marks.map Prod.fst) :
    (s.entries m).body = .unstarted ∨ (s.entries m).body = .finished := by
  have htoken := hl.token_le m
  have hmarks := hl.marks m
  have hpos := List.count_pos_iff.mpr hm
  rw [tokens] at htoken
  have hone : ∀ f : Frame n E → Nat, (∀ b, f b + Frame.marked m b ≤ Frame.holds m b) →
      weight f s.workers + weight (Frame.marked m) s.workers ≤ weight (Frame.holds m) s.workers := by
    intro f hf
    rw [← weight_add]
    exact weight_mono hf s.workers
  cases hbody : (s.entries m).body with
  | unstarted => exact .inl rfl
  | finished => exact .inr rfl
  | suspended =>
    rw [if_pos hbody] at htoken
    have hle := hone (fun _ => 0) fun b => by simpa using Ledger.marked_le m b
    omega
  | running =>
    have hrunning := h.running m
    rw [if_pos hbody] at hrunning
    have hle := hone (Frame.coding m) fun b => by
      cases b with
      | code p => exact Nat.le_refl _
      | _ => simpa [Frame.coding] using Ledger.marked_le m _
    omega
  | resuming =>
    have hresuming := h.resuming m
    rw [if_pos hbody] at hresuming
    have hle := hone (Frame.resumed m) fun b => by
      cases b with
      | claimed p resume => cases resume <;> simp [Frame.resumed, Frame.marked, Frame.holds]
      | _ => simpa [Frame.resumed] using Ledger.marked_le m _
    have hqueue : s.queue.count (m, true) ≤ s.queue.countP fun c => c.1 = m := by
      refine List.countP_mono_left fun c _ hc => ?_
      have hc : c = (m, true) := by simpa using hc
      simp [hc]
    omega

/-- **A coroutine node becomes terminal once**, after its body, in every run in which no worker
that has suspended a coroutine comes back to find it completed. -/
theorem coroutineSafety_of_reachable (h : (machine g k E).ReachableUnder ChecksInTime s) :
    CoroutineSafety g s := by
  have hbooks := Books.of_reachable h
  have hbodies := Bodies.of_reachable h
  refine ⟨hbooks.ledger.marks_le, fun m => ?_, ?_, hbooks.completions_le, fun m o hm => ?_,
    fun hne => ?_, hbooks.idle_completed⟩
  · exact List.nodup_iff_count_le_one.mp hbooks.ledger.nodup_triggered m
  · have hle := hbooks.ledger.counting_le
    omega
  · exact hbodies.of_marked hbooks.ledger (List.mem_map_of_mem hm)
  · have hmarked := (hbooks.runCompleted hne).marked
    refine ⟨hmarked, fun m => hbodies.of_marked hbooks.ledger ?_⟩
    exact List.count_pos_iff.mp (Nat.lt_of_lt_of_eq Nat.one_pos (hmarked m).symm)

/-- One coroutine node. -/
def lone : FrozenTaskGraph 1 := .ofOrdered (fun _ => true) [] (by decide)

/-- The coroutine suspends, the worker checks, and another worker resumes and completes it. -/
def loneRun : List (Label 1 2 Nat) :=
  ([.postRoot, .claim 0 0 false, .step 0, .suspend 0, .awake 0, .step 0, .claim 1 0 true, .step 1,
    .finish 1 .returned] : List (Label 1 2 Nat)) ++
    (List.replicate 7 (.step 1) : List (Label 1 2 Nat))

theorem coroutineSafety_of_lone : ∃ s, (machine lone 2 Nat).run (initial lone) loneRun = some s ∧
    s.runState = .succeeded ∧ CoroutineSafety lone s := by
  obtain ⟨s, hs⟩ := Option.isSome_iff_exists.mp
    (show ((machine lone 2 Nat).run (initial lone) loneRun).isSome by decide)
  have hend : ((machine lone 2 Nat).run (initial lone) loneRun).map (fun s =>
      decide (s.runState = .succeeded)) = some true := by
    decide
  simp only [hs, Option.map_some, Option.some.injEq, decide_eq_true_eq] at hend
  have hinit : (machine lone 2 Nat).ReachableUnder ChecksInTime (initial lone) := .initial rfl
  exact ⟨s, hs, hend, coroutineSafety_of_reachable (hinit.run (by decide) hs)⟩

/-- The worker that suspended the coroutine checks only after another worker has completed it:
the node is marked and triggered twice and the countdown wraps around. -/
theorem marked_twice : ∃ s, (machine lone 2 Nat).Reachable s ∧
    s.marks = [(0, .succeeded), (0, .succeeded)] ∧ s.triggered = [0, 0] ∧
      s.remainingNodes < 0 := by
  let late : List (Label 1 2 Nat) :=
    ([.postRoot, .claim 0 0 false, .step 0, .suspend 0, .awake 0, .claim 1 0 true, .step 1,
      .finish 1 .returned] : List (Label 1 2 Nat)) ++
      (List.replicate 7 (Label.step 1) ++ List.replicate 6 (Label.step 0))
  obtain ⟨s, hs⟩ := Option.isSome_iff_exists.mp
    (show ((machine lone 2 Nat).run (initial lone) late).isSome by decide)
  have hend : ((machine lone 2 Nat).run (initial lone) late).map (fun s =>
      decide (s.marks = [(0, .succeeded), (0, .succeeded)] ∧ s.triggered = [0, 0] ∧
        s.remainingNodes < 0)) = some true := by
    decide
  simp only [hs, Option.map_some, Option.some.injEq, decide_eq_true_eq] at hend
  exact ⟨s, Machine.reachable_of_run rfl hs, hend⟩

end GraphExecution
end AstraScheduler
