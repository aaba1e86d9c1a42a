import AstraScheduler.GraphSafety
import AstraScheduler.GraphSlots
import Mathlib.Logic.Relation

/-! # The slots of a run as its steps use them

`GraphSlots` keeps of a graph run what its slots depend on.  `ShowsSlots` says which state
of the slots belongs to a state of the run, and `slots_simulates` that each step of a run
is an operation of its slots or concerns none: the counts that `trigger_successors` takes
off, its decisions, and the posting of nodes are all there. -/

namespace AstraScheduler
namespace GraphExecution

open WorkStacks

/-- What a step of a run is to its slots. -/
inductive SlotStep (gs : GraphSlots) : GraphSlots → Prop
  | stay : SlotStep gs gs
  | postRoot {gs' : GraphSlots} : gs.postRoot = some gs' → SlotStep gs gs'
  | countDown (m : Nat) : gs.leased = false → m < gs.nodeCount → SlotStep gs (gs.countDown m)
  | postDecided {gs' : GraphSlots} (m : Nat) : gs.postDecided m = some gs' → SlotStep gs gs'
  | cancelDecided {gs' : GraphSlots} (m : Nat) : gs.cancelDecided m = some gs' → SlotStep gs gs'

variable {n k : Nat} {E : Type} {g : FrozenTaskGraph n} {s s' : Run n k E} {gs : GraphSlots}
  {w : Fin k} {a : Frame n E} {rest l : List (Frame n E)}

theorem SlotStep.counted {gs' : GraphSlots} (hs : SlotStep gs gs') (h : gs.Counted) :
    gs'.Counted := by
  cases hs with
  | stay => exact h
  | postRoot hpost => exact (h.postRoot hpost).counted
  | countDown m hleased hm => exact h.countDown hleased m hm
  | postDecided m hpost => exact (h.postDecided hpost).counted
  | cancelDecided m hcancel => exact (h.cancelDecided hcancel).counted

/-- The slots of a run that begins to post its roots. -/
def runSlots (g : FrozenTaskGraph n) (isInternal : Bool) : GraphSlots :=
  (GraphSlots.admitted n isInternal fun m => if hm : m < n then g.indegree ⟨m, hm⟩ else 0).commit

/-- `gs` are the slots of `s`. -/
structure ShowsSlots (s : Run n k E) (gs : GraphSlots) : Prop where
  nodeCount : gs.nodeCount = n
  committed : gs.leased = false
  remaining : ∀ m : Fin n, gs.remainingPredecessors m = (s.entries m).remainingPredecessors
  roots : gs.roots = s.roots.map Fin.val
  decisions : ∀ m : Fin n, gs.decisions.count m.val = weight (Frame.deciding m) s.workers
  posted : gs.posted.Perm (s.posted.map Fin.val)

namespace ShowsSlots

/-- What the slots do not see. -/
theorem stay (h : ShowsSlots s gs)
    (hremaining : ∀ m, (s'.entries m).remainingPredecessors = (s.entries m).remainingPredecessors)
    (hdeciding : ∀ m, weight (Frame.deciding m) s'.workers = weight (Frame.deciding m) s.workers)
    (hroots : s'.roots = s.roots := by rfl) (hposted : s'.posted = s.posted := by rfl) :
    ∃ gs', SlotStep gs gs' ∧ ShowsSlots s' gs' := by
  refine ⟨gs, .stay, h.nodeCount, h.committed, fun m => ?_, ?_, fun m => ?_, ?_⟩
  · rw [hremaining]
    exact h.remaining m
  · rw [hroots]
    exact h.roots
  · rw [hdeciding]
    exact h.decisions m
  · rw [hposted]
    exact h.posted

/-- A worker replaces its topmost frame by others that decide about the same nodes. -/
theorem top (h : ShowsSlots s gs) (htop : s.workers w = a :: rest)
    (hw : s'.workers = Function.update s.workers w (l ++ rest))
    (hl : ∀ m, stackWeight (Frame.deciding m) l = a.deciding m)
    (hremaining : ∀ m, (s'.entries m).remainingPredecessors = (s.entries m).remainingPredecessors)
    (hroots : s'.roots = s.roots := by rfl) (hposted : s'.posted = s.posted := by rfl) :
    ∃ gs', SlotStep gs gs' ∧ ShowsSlots s' gs' :=
  h.stay hremaining (fun m => weight_same htop hw (hl m)) hroots hposted

/-- A frame that has decided about `m` is gone, and no other node is concerned. -/
theorem decisions_erase {m : Fin n} (h : ShowsSlots s gs) (htop : s.workers w = a :: rest)
    (ha : ∀ p, a.deciding p = if m = p then 1 else 0)
    (hl : ∀ p, stackWeight (Frame.deciding p) l = 0) :
    m.val ∈ gs.decisions ∧ ∀ p : Fin n,
      (gs.decisions.erase m).count p.val =
        weight (Frame.deciding p) (Function.update s.workers w (l ++ rest)) := by
  have hmem : m.val ∈ gs.decisions := by
    have hle := top_le htop (Frame.deciding m)
    rw [ha, if_pos rfl, ← h.decisions m] at hle
    exact List.count_pos_iff.mp hle
  refine ⟨hmem, fun p => ?_⟩
  have hweight := weight_replace (f := Frame.deciding p) htop l
  rw [ha, hl] at hweight
  have hcount := (List.perm_cons_erase hmem).count_eq p.val
  rw [List.count_cons, h.decisions p] at hcount
  simp only [beq_iff_eq, Fin.val_inj] at hcount
  omega

/-- `trigger_successors` cancels the node. -/
theorem cancel {m : Fin n} (h : ShowsSlots s gs) (htop : s.workers w = a :: rest)
    (ha : a = .decide m ∨ a = .decideCancel m)
    (hs : s' = s.setStack w (.storeOutcome m .cancelled none :: rest)) :
    ∃ gs', SlotStep gs gs' ∧ ShowsSlots s' gs' := by
  have hdeciding : ∀ p, a.deciding p = if m = p then 1 else 0 := by
    rcases ha with rfl | rfl <;> exact fun _ => rfl
  subst hs
  obtain ⟨hmem, herase⟩ := h.decisions_erase (l := [.storeOutcome m .cancelled none]) htop
    hdeciding fun _ => rfl
  exact ⟨_, .cancelDecided m (if_pos hmem), h.nodeCount, h.committed, h.remaining, h.roots,
    herase, h.posted⟩

/-- `remaining_predecessors.fetch_sub(1)`. -/
theorem countDown {m c : Fin n} {o : TaskState} {more : List (Fin n × EdgePolicy)}
    (h : ShowsSlots s gs) (htop : s.workers w = .countDown m o c more :: rest) :
    ∃ gs', SlotStep gs gs' ∧ ShowsSlots ((s.setEntry c { s.entries c with
      remainingPredecessors := (s.entries c).remainingPredecessors - 1 }).setStack w
        ((if (s.entries c).remainingPredecessors = 1 then [Frame.decide c] else []) ++
          Frame.edges m o more :: rest)) gs' := by
  have hlt : c.val < gs.nodeCount := by
    rw [h.nodeCount]
    exact c.isLt
  refine ⟨_, .countDown c.val h.committed hlt, h.nodeCount, h.committed, fun p => ?_, h.roots,
    fun p => ?_, h.posted⟩
  · by_cases hp : p = c
    · subst hp
      simp [GraphSlots.countDown, Run.setStack, Run.setEntry, h.remaining]
    · have hval : p.val ≠ c.val := fun heq => hp (Fin.ext heq)
      simp [GraphSlots.countDown, Run.setStack, Run.setEntry, hp, hval, h.remaining]
  · have hweight := weight_replace (f := Frame.deciding p) htop
      ((if (s.entries c).remainingPredecessors = 1 then [Frame.decide c] else []) ++
        [Frame.edges m o more])
    rw [stackWeight_append, List.append_assoc, List.singleton_append, ← h.decisions p] at hweight
    simp only [GraphSlots.countDown, Run.setStack, Run.setEntry, h.remaining]
    refine Eq.trans ?_ hweight.symm
    split
    · simp [Frame.deciding, List.count_append, List.count_singleton, Fin.val_inj]
    · simp [Frame.deciding]

theorem stepFrame (h : ShowsSlots s gs) (htop : s.workers w = a :: rest)
    (hs : stepFrame g s w rest a = some s') : ∃ gs', SlotStep gs gs' ∧ ShowsSlots s' gs' := by
  have hset : ∀ (p : Fin n) (entry : NodeEntry E),
      entry.remainingPredecessors = (s.entries p).remainingPredecessors →
      ∀ q, ((s.setEntry p entry).entries q).remainingPredecessors =
        (s.entries q).remainingPredecessors := fun p entry heq q =>
    Run.entries_eq rfl NodeEntry.remainingPredecessors q heq
  cases a with
  | claimed m resume =>
    cases hs
    unfold enter
    split
    · exact h.top (l := [.code m]) htop rfl (fun _ => rfl) (hset m _ rfl)
    · dsimp only
      split
      · split
        · exact h.top (l := [.cancelTask m]) htop rfl (fun _ => rfl) fun _ => rfl
        · exact h.top (l := [.storeOutcome m .cancelled none]) htop rfl (fun _ => rfl) fun _ => rfl
      · exact h.top (l := [.code m]) htop rfl (fun _ => rfl) (hset m _ rfl)
  | cancelTask m =>
    cases hs
    refine h.top (l := [.code m]) htop ?_ (fun _ => rfl) (fun p => ?_) ?_ ?_
    · exact congrArg (fun ws => Function.update ws w _)
        (SameButState.requestTaskCancel s m).workers
    · refine Eq.trans ?_ ((SamePlaces.requestTaskCancel s m).remaining p)
      exact Run.entries_eq rfl NodeEntry.remainingPredecessors p
    · exact (SamePlaces.requestTaskCancel s m).roots
    · exact (SamePlaces.requestTaskCancel s m).posted
  | code m => cases hs
  | check m suspended =>
    simp only [GraphExecution.stepFrame] at hs
    split at hs <;> cases hs
    · exact h.top (l := [.readState m]) htop rfl (fun _ => rfl) fun _ => rfl
    · exact h.top (l := []) htop rfl (fun _ => rfl) fun _ => rfl
  | readState m =>
    cases hs
    exact h.top (l := [_]) htop rfl (fun _ => rfl) fun _ => rfl
  | storeOutcome m o e =>
    cases hs
    exact h.top (l := [_]) htop rfl (fun _ => rfl) (hset m _ rfl)
  | record m o e | complete m | trigger m =>
    cases hs
    exact h.top (l := [_]) htop rfl (fun _ => rfl) fun _ => rfl
  | countNode m =>
    cases hs
    refine h.top (l := [_]) htop rfl (fun p => ?_) fun _ => rfl
    split <;> rfl
  | edges m o successors =>
    cases successors with
    | nil =>
      cases hs
      exact h.top (l := []) htop rfl (fun _ => rfl) fun _ => rfl
    | cons c more =>
      simp only [GraphExecution.stepFrame] at hs
      split at hs <;> cases hs
      · exact h.top (l := [_]) htop rfl (fun _ => rfl) (hset c.1 _ rfl)
      · exact h.top (l := [_]) htop rfl (fun _ => rfl) fun _ => rfl
  | countDown m o c more =>
    cases hs
    exact h.countDown htop
  | decide m =>
    simp only [GraphExecution.stepFrame] at hs
    split at hs <;> cases hs
    · exact h.cancel htop (.inl rfl) rfl
    · exact h.top (l := [.decideCancel m]) htop rfl (fun _ => rfl) fun _ => rfl
  | decideCancel m =>
    simp only [GraphExecution.stepFrame] at hs
    split at hs <;> cases hs
    · exact h.cancel htop (.inr rfl) rfl
    · exact h.top (l := [.post m]) htop rfl (fun _ => rfl) fun _ => rfl
  | post m =>
    cases hs
    obtain ⟨hmem, herase⟩ := h.decisions_erase (l := []) htop (fun _ => rfl) fun _ => rfl
    refine ⟨_, .postDecided m (if_pos hmem), h.nodeCount, h.committed, h.remaining, h.roots,
      herase, ?_⟩
    exact (List.perm_append_singleton ..).trans (h.posted.cons m.val)

/-- Every step of a run is an operation of its slots, or none. -/
theorem step {a : Label n k E} (h : ShowsSlots s gs) (hs : step g s a = some s') :
    ∃ gs', SlotStep gs gs' ∧ ShowsSlots s' gs' := by
  cases a with
  | postRoot =>
    simp only [GraphExecution.step] at hs
    split at hs <;> cases hs
    case h_1 m roots hroots =>
      have hview := h.roots
      rw [hroots, List.map_cons] at hview
      have hpost : gs.postRoot = some { gs with
          roots := roots.map Fin.val
          posted := gs.posted ++ [m.val] } := by
        rw [GraphSlots.postRoot, hview]
      refine ⟨_, .postRoot hpost, h.nodeCount, h.committed, h.remaining, rfl, h.decisions, ?_⟩
      exact (List.perm_append_singleton ..).trans (h.posted.cons m.val)
  | claim w m resume =>
    simp only [GraphExecution.step] at hs
    split at hs <;> cases hs
    refine h.stay (fun _ => rfl) fun p => ?_
    exact (weight_push [Frame.claimed m resume]).trans (Nat.add_zero _)
  | step w =>
    simp only [GraphExecution.step] at hs
    split at hs
    case h_1 frame rest htop => exact h.stepFrame htop hs
    case h_2 => cases hs
  | finish w result =>
    simp only [GraphExecution.step] at hs
    split at hs <;> cases hs
    case h_1 m rest htop =>
      unfold finish
      dsimp only
      split
      · exact h.top (l := [.check m false]) htop rfl (fun _ => rfl)
          fun p => Run.entries_eq rfl NodeEntry.remainingPredecessors p
      · exact h.top (l := [.storeOutcome m result.state result.exception]) htop rfl (fun _ => rfl)
          fun p => Run.entries_eq rfl NodeEntry.remainingPredecessors p
  | suspend w =>
    simp only [GraphExecution.step] at hs
    split at hs
    case h_1 m rest htop =>
      split at hs <;> cases hs
      exact h.top (l := [.check m true]) htop rfl (fun _ => rfl)
        fun p => Run.entries_eq rfl NodeEntry.remainingPredecessors p
    case h_2 => cases hs
  | awake m =>
    simp only [GraphExecution.step] at hs
    split at hs <;> cases hs
    exact h.stay (fun p => Run.entries_eq rfl NodeEntry.remainingPredecessors p) fun _ => rfl
  | requestCancel =>
    cases hs
    exact h.stay (fun _ => rfl) fun _ => rfl
  | cancelNode j =>
    simp only [GraphExecution.step] at hs
    split at hs <;> cases hs
    case h_1 m rest hj =>
      split
      · have hsame := SamePlaces.requestTaskCancel s m
        refine h.stay hsame.remaining (fun p => ?_) hsame.roots hsame.posted
        exact congrArg (weight _) (SameButState.requestTaskCancel s m).workers
      · exact h.stay (fun _ => rfl) fun _ => rfl
    case h_2 => exact h.stay (fun _ => rfl) fun _ => rfl

theorem initial (g : FrozenTaskGraph n) (isInternal : Bool) :
    ShowsSlots (initial g : Run n k E) (runSlots g isInternal) := by
  refine ⟨rfl, rfl, fun m => ?_, ?_, fun m => ?_, .refl _⟩
  · simp [runSlots, GraphSlots.admitted, GraphSlots.commit, GraphExecution.initial]
  · simp only [runSlots, GraphSlots.commit, GraphSlots.admitted, GraphExecution.initial]
    rw [← List.map_coe_finRange_eq_range, List.filter_map]
    refine congrArg (List.map Fin.val) (List.filter_congr fun m _ => ?_)
    simp
  · exact (weight_empty (Frame.deciding m) fun _ => rfl).symm

end ShowsSlots

end GraphExecution
end AstraScheduler
