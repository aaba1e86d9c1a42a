import AstraScheduler.GraphLedger

/-! # Every step keeps the books

A frame that hands its node on to the next frame moves nothing in the accounts.  What is
left are the nine steps at which something is counted, one lemma each. -/

namespace AstraScheduler
namespace GraphExecution

open WorkStacks
open Transition (Machine)

variable {n k : Nat} {E : Type} {g : FrozenTaskGraph n} {s s' s'' : Run n k E}
variable {w : Fin k} {a : Frame n E} {rest l : List (Frame n E)} {m : Fin n}

/-! ## What a step leaves alone -/

/-- What `TaskControlBlock::request_cancel` leaves alone. -/
structure SameButState (s s' : Run n k E) : Prop where
  body : ∀ p, (s'.entries p).body = (s.entries p).body
  outcome : ∀ p, (s'.entries p).outcome = (s.entries p).outcome
  workers : s'.workers = s.workers
  queue : s'.queue = s.queue
  started : s'.started = s.started
  marks : s'.marks = s.marks
  entered : s'.entered = s.entered
  cancelReturned : s'.cancelReturned = s.cancelReturned
  cancelRequested : s'.cancelRequested = s.cancelRequested
  cancellers : s'.cancellers = s.cancellers
  roots : s'.roots = s.roots

theorem SameButState.requestTaskCancel (s : Run n k E) (m : Fin n) :
    SameButState s (s.requestTaskCancel m) := by
  unfold Run.requestTaskCancel
  split
  · exact ⟨fun p => Run.entries_eq rfl NodeEntry.body p,
      fun p => Run.entries_eq rfl NodeEntry.outcome p, rfl, rfl, rfl, rfl, rfl, rfl, rfl, rfl, rfl⟩
  · exact ⟨fun _ => rfl, fun _ => rfl, rfl, rfl, rfl, rfl, rfl, rfl, rfl, rfl, rfl⟩

/-- The worker that takes a step. -/
def Label.worker : Label n k E → Option (Fin k)
  | .claim w _ _ | .step w | .finish w _ | .suspend w => some w
  | .postRoot | .awake _ | .requestCancel | .cancelNode _ => none

theorem stepFrame_workers (hs : stepFrame g s w rest a = some s') {v : Fin k} (hv : v ≠ w) :
    s'.workers v = s.workers v := by
  have hset : ∀ {t : Run n k E} {stack : List (Frame n E)}, t.workers = s.workers →
      (t.setStack w stack).workers v = s.workers v := by
    intro t stack ht
    exact (Function.update_of_ne hv ..).trans (congrFun ht v)
  cases a with
  | claimed m resume =>
    cases hs
    unfold enter
    dsimp only
    split
    · exact hset rfl
    · split
      · split <;> exact hset rfl
      · exact hset rfl
  | cancelTask m =>
    cases hs
    exact hset (SameButState.requestTaskCancel s m).workers
  | code m => cases hs
  | check m suspended =>
    simp only [stepFrame] at hs
    split at hs <;> cases hs <;> exact hset rfl
  | readState m | storeOutcome m o e | record m o e | countNode m | complete m | trigger m
  | countDown m o c more | post m =>
    cases hs
    exact hset rfl
  | edges m o successors =>
    cases successors with
    | nil =>
      cases hs
      exact hset rfl
    | cons c more =>
      simp only [stepFrame] at hs
      split at hs <;> cases hs <;> exact hset rfl
  | decide m | decideCancel m =>
    simp only [stepFrame] at hs
    split at hs <;> cases hs <;> exact hset rfl

/-- A step changes the stack of no other worker. -/
theorem step_workers {a : Label n k E} (hs : step g s a = some s') {v : Fin k}
    (hv : a.worker ≠ some v) : s'.workers v = s.workers v := by
  have hne : ∀ {w : Fin k}, some w ≠ some v → v ≠ w := fun hw heq => hw (congrArg some heq.symm)
  have hset : ∀ {t : Run n k E} {w : Fin k} {stack : List (Frame n E)}, some w ≠ some v →
      t.workers = s.workers → (t.setStack w stack).workers v = s.workers v := by
    intro t w stack hw ht
    exact (Function.update_of_ne (hne hw) ..).trans (congrFun ht v)
  cases a with
  | postRoot =>
    simp only [step] at hs
    split at hs <;> cases hs
    rfl
  | claim w m resume =>
    simp only [step] at hs
    split at hs <;> cases hs
    exact hset hv rfl
  | step w =>
    simp only [step] at hs
    split at hs
    case h_1 frame rest htop => exact stepFrame_workers hs (hne hv)
    case h_2 => cases hs
  | finish w result =>
    simp only [step] at hs
    split at hs <;> cases hs
    unfold finish
    dsimp only
    split <;> exact hset hv rfl
  | suspend w =>
    simp only [step] at hs
    split at hs
    case h_1 m rest htop =>
      split at hs <;> cases hs
      exact hset hv rfl
    case h_2 => cases hs
  | awake m =>
    simp only [step] at hs
    split at hs <;> cases hs
    rfl
  | requestCancel =>
    cases hs
    rfl
  | cancelNode j =>
    simp only [step] at hs
    split at hs <;> cases hs
    · split
      · exact congrFun (SameButState.requestTaskCancel s _).workers v
      · rfl
    · rfl

/-! ## Quiet replacements -/

/-- The frames `l` hold what `a` does. -/
structure Frame.Quiet (a : Frame n E) (l : List (Frame n E)) : Prop where
  holds : ∀ m, stackWeight (Frame.holds m) l = Frame.holds m a
  pending : ∀ m, stackWeight (Frame.pending m) l = Frame.pending m a
  marked : ∀ m, stackWeight (Frame.marked m) l = Frame.marked m a
  recording : ∀ outcome, stackWeight (Frame.recording outcome) l = Frame.recording outcome a
  failing : ∀ m, stackWeight (Frame.failing m) l = Frame.failing m a
  counting : stackWeight Frame.counting l = Frame.counting a
  completing : stackWeight Frame.completing l = Frame.completing a
  deciding : ∀ m, stackWeight (Frame.deciding m) l ≤ Frame.deciding m a

/-- Frames that have the node in hand and weigh nothing else. -/
def Frame.carries (m : Fin n) : Frame n E → Prop
  | .claimed p _ | .cancelTask p | .code p | .check p false | .readState p
  | .storeOutcome p _ _ => p = m
  | _ => False

theorem Frame.Quiet.carry {b : Frame n E} (ha : a.carries m) (hb : b.carries m) :
    Frame.Quiet a [b] := by
  have hsame : ∀ c : Frame n E, c.carries m → (∀ p, c.holds p = if m = p then 1 else 0) ∧
      (∀ p, c.pending p = 0) ∧ (∀ p, c.marked p = 0) ∧ (∀ o, c.recording o = 0) ∧
      (∀ p, c.failing p = 0) ∧ c.counting = 0 ∧ c.completing = 0 ∧ ∀ p, c.deciding p = 0 := by
    intro c hc
    unfold carries at hc
    split at hc
    case h_7 => exact hc.elim
    all_goals
      subst hc
      exact ⟨fun _ => rfl, fun _ => rfl, fun _ => rfl, fun _ => rfl, fun _ => rfl, rfl, rfl,
        fun _ => rfl⟩
  obtain ⟨h1, h2, h3, h4, h5, h6, h7, h8⟩ := hsame a ha
  obtain ⟨k1, k2, k3, k4, k5, k6, k7, k8⟩ := hsame b hb
  constructor <;> simp [stackWeight, *]

/-- The decision about a node goes on, or ends with its cancellation. -/
theorem Frame.Quiet.decide_cancel : Frame.Quiet (.decide m : Frame n E) [.decideCancel m] := by
  constructor <;> simp [stackWeight, Frame.holds, Frame.pending, Frame.marked, Frame.recording,
    Frame.failing, Frame.counting, Frame.completing, Frame.deciding]

theorem Frame.Quiet.decide_store (a : Frame n E) (ha : a = .decide m ∨ a = .decideCancel m)
    (o : TaskState) (e : Option E) : Frame.Quiet a [.storeOutcome m o e] := by
  rcases ha with rfl | rfl
  all_goals
    constructor <;> simp [stackWeight, Frame.holds, Frame.pending, Frame.marked, Frame.recording,
      Frame.failing, Frame.counting, Frame.completing, Frame.deciding]

theorem Frame.Quiet.decide_post : Frame.Quiet (.decideCancel m : Frame n E) [.post m] := by
  constructor <;> simp [stackWeight, Frame.holds, Frame.pending, Frame.marked, Frame.recording,
    Frame.failing, Frame.counting, Frame.completing, Frame.deciding]

/-- A worker that has suspended a coroutine has nothing of it in hand. -/
theorem Frame.Quiet.check_nil : Frame.Quiet (.check m true : Frame n E) [] :=
  ⟨fun _ => rfl, fun _ => rfl, fun _ => rfl, fun _ => rfl, fun _ => rfl, rfl, rfl,
    fun _ => Nat.le_refl _⟩

theorem Frame.Quiet.edges_nil (o : TaskState) : Frame.Quiet (.edges m o [] : Frame n E) [] :=
  ⟨fun _ => rfl, fun _ => rfl, fun _ => rfl, fun _ => rfl, fun _ => rfl, rfl, rfl,
    fun _ => Nat.le_refl _⟩

theorem Frame.Quiet.edges_cons (o : TaskState) (c : Fin n × EdgePolicy)
    (more : List (Fin n × EdgePolicy)) :
    Frame.Quiet (.edges m o (c :: more) : Frame n E) [.countDown m o c.1 more] := by
  constructor
  case pending =>
    intro p
    simp [stackWeight, Frame.pending, List.countP_cons, Nat.add_comm]
  all_goals simp [stackWeight, Frame.holds, Frame.marked, Frame.recording,
    Frame.failing, Frame.counting, Frame.completing, Frame.deciding]

/-! ## Steps that leave the books alone -/

/-- The places stay, the workers' hands apart. -/
structure SamePlaces (s s' : Run n k E) : Prop where
  remaining : ∀ m, (s'.entries m).remainingPredecessors = (s.entries m).remainingPredecessors
  suspended : ∀ m, (s'.entries m).body = .suspended ↔ (s.entries m).body = .suspended
  roots : s'.roots = s.roots
  queue : s'.queue = s.queue
  triggered : s'.triggered = s.triggered
  marks : s'.marks = s.marks
  posted : s'.posted = s.posted
  started : ∀ m ∈ s'.started, m ∈ s.started ∨ (s.entries m).remainingPredecessors = 0

/-- The counters stay. -/
structure SameTotals (s s' : Run n k E) : Prop where
  marks : s'.marks = s.marks
  remainingNodes : s'.remainingNodes = s.remainingNodes
  report : s'.report = s.report
  completions : s'.completions = s.completions
  runState : s'.runState = s.runState

theorem SameTotals.trans (h : SameTotals s s') (h' : SameTotals s' s'') : SameTotals s s'' where
  marks := h'.marks.trans h.marks
  remainingNodes := h'.remainingNodes.trans h.remainingNodes
  report := h'.report.trans h.report
  completions := h'.completions.trans h.completions
  runState := h'.runState.trans h.runState

namespace SamePlaces

theorem trans (h : SamePlaces s s') (h' : SamePlaces s' s'') : SamePlaces s s'' where
  remaining := fun m => (h'.remaining m).trans (h.remaining m)
  suspended := fun m => (h'.suspended m).trans (h.suspended m)
  roots := h'.roots.trans h.roots
  queue := h'.queue.trans h.queue
  triggered := h'.triggered.trans h.triggered
  marks := h'.marks.trans h.marks
  posted := h'.posted.trans h.posted
  started := by
    intro m hm
    rcases h'.started m hm with hm | hm
    · exact h.started m hm
    · exact .inr (h.remaining m ▸ hm)

theorem setEntry {entry : NodeEntry E}
    (hremaining : entry.remainingPredecessors = (s.entries m).remainingPredecessors)
    (hsuspended : entry.body = .suspended ↔ (s.entries m).body = .suspended) :
    SamePlaces s (s.setEntry m entry) := by
  refine ⟨fun p => ?_, fun p => ?_, rfl, rfl, rfl, rfl, rfl, fun _ => .inl⟩
  · by_cases hp : p = m
    · subst hp
      simpa [Run.setEntry] using hremaining
    · simp [Run.setEntry, hp]
  · by_cases hp : p = m
    · subst hp
      simpa [Run.setEntry] using hsuspended
    · simp [Run.setEntry, hp]

theorem requestTaskCancel (s : Run n k E) (m : Fin n) : SamePlaces s (s.requestTaskCancel m) := by
  unfold Run.requestTaskCancel
  split
  · exact setEntry rfl .rfl
  · exact ⟨fun _ => rfl, fun _ => .rfl, rfl, rfl, rfl, rfl, rfl, fun _ => .inl⟩

end SamePlaces

theorem SameTotals.requestTaskCancel (s : Run n k E) (m : Fin n) :
    SameTotals s (s.requestTaskCancel m) := by
  unfold Run.requestTaskCancel
  split <;> exact ⟨rfl, rfl, rfl, rfl, rfl⟩

theorem Places.of_same (h : Places g s) (hs : SamePlaces s s')
    (hholds : ∀ m, weight (Frame.holds m) s'.workers = weight (Frame.holds m) s.workers)
    (hpending : ∀ m, weight (Frame.pending m) s'.workers = weight (Frame.pending m) s.workers)
    (hmarked : ∀ m, weight (Frame.marked m) s'.workers = weight (Frame.marked m) s.workers)
    (hdeciding : ∀ m, weight (Frame.deciding m) s'.workers ≤ weight (Frame.deciding m) s.workers) :
    Places g s' := by
  have htokens : ∀ m, tokens s' m = tokens s m := by
    intro m
    simp only [tokens, hs.roots, hs.queue, hs.suspended, hs.triggered, hholds]
  refine ⟨fun m => ?_, fun m => ?_, fun m => ?_, fun m => ?_, fun m hm => ?_⟩
  · rw [htokens, hs.remaining]
    exact h.token m
  · rw [hs.remaining, hs.triggered, hpending]
    exact h.edges m
  · rw [hs.marks, hs.triggered, hmarked]
    exact h.marks m
  · rw [htokens, hs.posted, hs.roots]
    have hposted := h.posted m
    have hle := hdeciding m
    omega
  · rw [hs.remaining]
    rcases hs.started m hm with hm | hm
    · exact h.started m hm
    · exact hm

theorem Totals.of_same (h : Totals s) (hs : SameTotals s s')
    (hrecording : ∀ o, weight (Frame.recording o) s'.workers = weight (Frame.recording o) s.workers)
    (hfailing : ∀ m, weight (Frame.failing m) s'.workers = weight (Frame.failing m) s.workers)
    (hcounting : weight Frame.counting s'.workers = weight Frame.counting s.workers)
    (hcompleting : weight Frame.completing s'.workers = weight Frame.completing s.workers) :
    Totals s' := by
  refine ⟨?_, fun o ho => ?_, fun m => ?_, ?_, ?_, ?_⟩
  · rw [hs.remainingNodes, hs.marks, hcounting]
    exact h.nodes
  · rw [hs.report, hs.marks, hrecording]
    exact h.report o ho
  · rw [hs.report, hs.marks, hfailing]
    exact h.failures m
  · rw [hs.completions, hs.remainingNodes, hcompleting]
    exact h.completion
  · rw [hs.runState, hs.completions]
    exact h.runState
  · rw [hs.report, hs.completions]
    exact h.completed

/-- The topmost frame of a worker is replaced, and what it weighs with it. -/
theorem weight_top (htop : s.workers w = a :: rest)
    (hw : s'.workers = Function.update s.workers w (l ++ rest)) (f : Frame n E → Nat) :
    weight f s'.workers + f a = weight f s.workers + stackWeight f l := by
  rw [hw]
  exact weight_replace htop l

theorem weight_one (htop : s.workers w = a :: rest) (b : Frame n E) (f : Frame n E → Nat) :
    weight f (Function.update s.workers w (b :: rest)) + f a = weight f s.workers + f b := by
  have hreplace := weight_replace (f := f) htop [b]
  simpa using hreplace

theorem top_le (htop : s.workers w = a :: rest) (f : Frame n E → Nat) :
    f a ≤ weight f s.workers :=
  le_weight (by rw [htop]; exact List.mem_cons_self ..)

theorem weight_same (htop : s.workers w = a :: rest)
    (hw : s'.workers = Function.update s.workers w (l ++ rest)) {f : Frame n E → Nat}
    (hf : stackWeight f l = f a) : weight f s'.workers = weight f s.workers := by
  have htop := weight_top htop hw f
  omega

namespace Ledger

/-- A quiet replacement leaves the books alone. -/
theorem of_quiet (h : Ledger g s) (hp : SamePlaces s s') (ht : SameTotals s s')
    (htop : s.workers w = a :: rest) (hq : Frame.Quiet a l)
    (hw : s'.workers = Function.update s.workers w (l ++ rest)) : Ledger g s' where
  toPlaces := by
    refine h.toPlaces.of_same hp (fun m => weight_same htop hw (hq.holds m))
      (fun m => weight_same htop hw (hq.pending m)) (fun m => weight_same htop hw (hq.marked m))
      fun m => ?_
    have hle := hq.deciding m
    have htop := weight_top htop hw (Frame.deciding m)
    omega
  toTotals :=
    h.toTotals.of_same ht (fun o => weight_same htop hw (hq.recording o))
      (fun m => weight_same htop hw (hq.failing m)) (weight_same htop hw hq.counting)
      (weight_same htop hw hq.completing)

/-- An entry changes in what the accounts do not look at. -/
theorem of_workers (h : Ledger g s) (hp : SamePlaces s s') (ht : SameTotals s s')
    (hw : s'.workers = s.workers) : Ledger g s' where
  toPlaces := h.toPlaces.of_same hp (fun _ => by rw [hw]) (fun _ => by rw [hw])
    (fun _ => by rw [hw]) fun _ => by rw [hw]
  toTotals := h.toTotals.of_same ht (fun _ => by rw [hw]) (fun _ => by rw [hw]) (by rw [hw])
    (by rw [hw])

/-! ## Steps that count -/

/-- The outcome of a node is stored. -/
theorem mark {o : TaskState} {e : Option E} (h : Ledger g s)
    (htop : s.workers w = .storeOutcome m o e :: rest) :
    Ledger g { s.setStack w (.record m o e :: rest) with marks := (m, o) :: s.marks } := by
  have hw := weight_one htop (.record m o e)
  constructor
  · refine ⟨fun p => ?_, fun p => ?_, fun p => ?_, fun p => ?_, h.started⟩
    · refine Eq.trans ?_ (h.token p)
      have hholds := hw (Frame.holds p)
      dsimp only [tokens, Run.setStack, Frame.holds] at hholds ⊢
      omega
    · have hedges := h.edges p
      have hpending := hw (Frame.pending p)
      dsimp only [Run.setStack, Frame.pending] at hpending ⊢
      omega
    · have hmarks := h.marks p
      have hmarked := hw (Frame.marked p)
      simp only [Run.setStack, Frame.marked, List.map_cons, List.count_cons, beq_iff_eq]
        at hmarked ⊢
      omega
    · refine (Nat.le_of_eq ?_).trans ((h.posted p).trans (Nat.le_of_eq ?_))
      · have hdeciding := hw (Frame.deciding p)
        dsimp only [Run.setStack, Frame.deciding] at hdeciding ⊢
        omega
      · have hholds := hw (Frame.holds p)
        dsimp only [tokens, Run.setStack, Frame.holds] at hholds ⊢
        omega
  · refine ⟨?_, fun o' ho' => ?_, fun p => ?_, ?_, h.runState, h.completed⟩
    · have hnodes := h.nodes
      have hcounting := hw Frame.counting
      simp only [Run.setStack, Frame.counting, List.length_cons] at hcounting ⊢
      omega
    · have hreport := h.report o' ho'
      have hrecording := hw (Frame.recording o')
      simp only [Run.setStack, Frame.recording, List.countP_cons, decide_eq_true_eq]
        at hrecording ⊢
      omega
    · have hfailures := h.failures p
      have hfailing := hw (Frame.failing p)
      simp only [Run.setStack, List.count_cons, beq_iff_eq, Prod.mk.injEq] at hfailing ⊢
      cases o <;> simp only [Frame.failing, and_true, and_false, if_false, reduceCtorEq]
        at hfailing ⊢ <;> omega
    · refine Eq.trans ?_ h.completion
      have hcompleting := hw Frame.completing
      dsimp only [Run.setStack, Frame.completing] at hcompleting ⊢
      omega

/-- The outcome is entered in the report. -/
theorem record {o : TaskState} {e : Option E} (h : Ledger g s)
    (htop : s.workers w = .record m o e :: rest) (he : o = .failed → e.isSome) :
    Ledger g { s.setStack w (.countNode m :: rest) with report := s.report.record m o e } where
  toPlaces := by
    refine h.toPlaces.of_same ⟨fun _ => rfl, fun _ => .rfl, rfl, rfl, rfl, rfl, rfl, fun _ => .inl⟩
      (fun p => weight_same (l := [_]) htop rfl ?_)
      (fun p => weight_same (l := [_]) htop rfl ?_)
      (fun p => weight_same (l := [_]) htop rfl ?_)
      (fun p => Nat.le_of_eq (weight_same (l := [_]) htop rfl ?_))
    all_goals simp [Frame.holds, Frame.pending, Frame.marked, Frame.deciding]
  toTotals := by
    have hw := weight_one htop (.countNode m)
    refine ⟨?_, fun o' ho' => ?_, fun p => ?_, ?_, h.runState, fun r hr => ?_⟩
    · have hnodes := h.nodes
      have hcounting := hw Frame.counting
      dsimp only [Run.setStack, Frame.counting] at hcounting ⊢
      omega
    · have hreport := h.report o' ho'
      have hrecording := hw (Frame.recording o')
      have hcount : (s.report.record m o e).count o' =
          s.report.count o' + if o = o' then 1 else 0 := by
        cases o <;> cases o' <;> first | rfl | cases ho'
      dsimp only [Run.setStack, Frame.recording] at hrecording ⊢
      omega
    · have hfailures := h.failures p
      have hfailing := hw (Frame.failing p)
      have hcount : ((s.report.record m o e).failedNodeExceptions.map Prod.fst).count p =
          (s.report.failedNodeExceptions.map Prod.fst).count p + Frame.failing p (.record m o e) := by
        cases o with
        | failed =>
          obtain ⟨x, rfl⟩ := Option.isSome_iff_exists.mp (he rfl)
          simp [GraphReport.record, Frame.failing, List.count_append, List.count_singleton]
        | _ => rfl
      have hnone : Frame.failing p (.countNode m : Frame n E) = 0 := rfl
      dsimp only [Run.setStack] at hfailing ⊢
      omega
    · refine Eq.trans ?_ h.completion
      have hcompleting := hw Frame.completing
      dsimp only [Run.setStack, Frame.completing] at hcompleting ⊢
      omega
    · -- no node of a completed run is left to record
      have hle := h.counting_le
      have hzero := h.remainingNodes_eq_zero hr
      have hone : 1 ≤ weight Frame.counting s.workers := top_le htop Frame.counting
      omega

/-- The node is counted off. -/
theorem countNode (h : Ledger g s) (htop : s.workers w = .countNode m :: rest) :
    Ledger g { s.setStack w
        ((if s.remainingNodes = 1 then .complete m else .trigger m) :: rest) with
      remainingNodes := s.remainingNodes - 1 } := by
  generalize hb : (if s.remainingNodes = 1 then .complete m else .trigger m : Frame n E) = b
  have hcases : b = .complete m ∨ b = .trigger m := by
    rw [← hb]
    split
    · exact .inl rfl
    · exact .inr rfl
  constructor
  · refine h.toPlaces.of_same ⟨fun _ => rfl, fun _ => .rfl, rfl, rfl, rfl, rfl, rfl, fun _ => .inl⟩
      (fun p => weight_same (l := [b]) htop rfl ?_)
      (fun p => weight_same (l := [b]) htop rfl ?_)
      (fun p => weight_same (l := [b]) htop rfl ?_)
      (fun p => Nat.le_of_eq (weight_same (l := [b]) htop rfl ?_))
    all_goals rcases hcases with rfl | rfl <;>
      simp [Frame.holds, Frame.pending, Frame.marked, Frame.deciding]
  · have hw := weight_one htop b
    have hcompleting : Frame.completing b = if s.remainingNodes = 1 then 1 else 0 := by
      rw [← hb]
      split <;> rfl
    have hnone : Frame.counting b = 0 ∧ (∀ o, Frame.recording o b = 0) ∧
        ∀ p, Frame.failing p b = 0 := by
      rcases hcases with rfl | rfl <;> exact ⟨rfl, fun _ => rfl, fun _ => rfl⟩
    have hpos : 1 ≤ s.remainingNodes := by
      have hle := h.counting_le
      have htopLe : 1 ≤ weight Frame.counting s.workers := top_le htop Frame.counting
      omega
    refine ⟨?_, fun o' ho' => ?_, fun p => ?_, ?_, h.runState, h.completed⟩
    · have hnodes := h.nodes
      have hcounting := hw Frame.counting
      rw [hnone.1] at hcounting
      dsimp only [Run.setStack, Frame.counting] at hcounting ⊢
      omega
    · have hreport := h.report o' ho'
      have hrecording := hw (Frame.recording o')
      rw [hnone.2.1] at hrecording
      dsimp only [Run.setStack, Frame.recording] at hrecording ⊢
      omega
    · have hfailures := h.failures p
      have hfailing := hw (Frame.failing p)
      rw [hnone.2.2] at hfailing
      dsimp only [Run.setStack, Frame.failing] at hfailing ⊢
      omega
    · have hcompletion := h.completion
      have htotal := hw Frame.completing
      have hn : 0 < n := m.pos
      rw [hcompleting] at htotal
      rw [if_neg (by omega)] at hcompletion
      dsimp only [Run.setStack, Frame.completing] at htotal ⊢
      split at htotal
      · rw [if_pos ⟨by omega, hn⟩]
        omega
      · rw [if_neg (by omega)]
        omega

/-- The last node completes the run. -/
theorem complete (h : Ledger g s) (htop : s.workers w = .complete m :: rest) :
    Ledger g { s.setStack w (.trigger m :: rest) with
      report := s.report.sorted
      runState := s.report.runState
      completions := s.report.runState :: s.completions } where
  toPlaces := by
    refine h.toPlaces.of_same ⟨fun _ => rfl, fun _ => .rfl, rfl, rfl, rfl, rfl, rfl, fun _ => .inl⟩
      (fun p => weight_same (l := [_]) htop rfl ?_)
      (fun p => weight_same (l := [_]) htop rfl ?_)
      (fun p => weight_same (l := [_]) htop rfl ?_)
      (fun p => Nat.le_of_eq (weight_same (l := [_]) htop rfl ?_))
    all_goals simp [Frame.holds, Frame.pending, Frame.marked, Frame.deciding]
  toTotals := by
    have hw := weight_one htop (.trigger m)
    have hstate : s.report.sorted.runState = s.report.runState := rfl
    refine ⟨?_, fun o' ho' => ?_, fun p => ?_, ?_, rfl, fun r hr => ?_⟩
    · have hnodes := h.nodes
      have hcounting := hw Frame.counting
      dsimp only [Run.setStack, Frame.counting] at hcounting ⊢
      omega
    · have hreport := h.report o' ho'
      have hrecording := hw (Frame.recording o')
      have hcount : s.report.sorted.count o' = s.report.count o' := by
        cases o' <;> rfl
      dsimp only [Run.setStack, Frame.recording] at hrecording ⊢
      omega
    · have hfailures := h.failures p
      have hfailing := hw (Frame.failing p)
      have hperm := (List.perm_insertionSort (fun a b : Fin n × E => a.1 ≤ b.1)
        s.report.failedNodeExceptions).map Prod.fst
      have hcount : (s.report.sorted.failedNodeExceptions.map Prod.fst).count p =
          (s.report.failedNodeExceptions.map Prod.fst).count p := hperm.count_eq p
      dsimp only [Run.setStack, Frame.failing] at hfailing ⊢
      omega
    · refine Eq.trans ?_ h.completion
      have hcompleting := hw Frame.completing
      dsimp only [Run.setStack, Frame.completing] at hcompleting ⊢
      rw [List.length_cons]
      omega
    · refine ⟨?_, List.pairwise_insertionSort (fun a b : Fin n × E => a.1 ≤ b.1) _⟩
      rcases List.mem_cons.mp hr with rfl | hr
      · exact hstate.symm
      · exact (h.completed r hr).1.trans hstate.symm

/-- The successors of the node are looked at. -/
theorem trigger (h : Ledger g s) {o : TaskState} (htop : s.workers w = .trigger m :: rest) :
    Ledger g { s.setStack w (.edges m o (g.successors m) :: rest) with
      triggered := m :: s.triggered } := by
  have hw := weight_one htop (.edges m o (g.successors m))
  have htokens : ∀ p, tokens { s.setStack w (.edges m o (g.successors m) :: rest) with
      triggered := m :: s.triggered } p = tokens s p := by
    intro p
    have hholds := hw (Frame.holds p)
    dsimp only [tokens, Run.setStack, Frame.holds] at hholds ⊢
    simp only [List.count_cons, beq_iff_eq]
    omega
  constructor
  · refine ⟨fun p => (htokens p).trans (h.token p), fun p => ?_, fun p => ?_, fun p => ?_, h.started⟩
    · have hedges := h.edges p
      have hpending := hw (Frame.pending p)
      have hnew :
          Frame.pending p (.edges m o (g.successors m) : Frame n E) = edgesBetween g m p := rfl
      have hold : Frame.pending p (.trigger m : Frame n E) = 0 := rfl
      simp only [Run.setStack, List.map_cons, List.sum_cons] at hpending ⊢
      omega
    · have hmarks := h.marks p
      have hmarked := hw (Frame.marked p)
      simp only [Run.setStack, Frame.marked, List.count_cons, beq_iff_eq] at hmarked ⊢
      omega
    · rw [htokens]
      have hposted := h.posted p
      have hdeciding := hw (Frame.deciding p)
      dsimp only [Run.setStack, Frame.deciding] at hdeciding ⊢
      omega
  · refine h.toTotals.of_same ⟨rfl, rfl, rfl, rfl, rfl⟩
      (fun o => weight_same (l := [_]) htop rfl ?_)
      (fun p => weight_same (l := [_]) htop rfl ?_)
      (weight_same (l := [_]) htop rfl ?_) (weight_same (l := [_]) htop rfl ?_)
    all_goals simp [Frame.recording, Frame.failing, Frame.counting, Frame.completing]

/-- A node is posted. -/
theorem post (h : Ledger g s) (htop : s.workers w = .post m :: rest) :
    Ledger g ((s.postNode m).setStack w rest) := by
  have hw : ∀ f : Frame n E → Nat, weight f (Function.update s.workers w rest) + f (.post m) =
      weight f s.workers := fun f => weight_replace htop []
  have htokens : ∀ p, tokens ((s.postNode m).setStack w rest) p = tokens s p := by
    intro p
    have hholds := hw (Frame.holds p)
    dsimp only [tokens, Run.setStack, Run.postNode, Frame.holds] at hholds ⊢
    simp only [List.countP_append, List.countP_singleton, decide_eq_true_eq]
    omega
  constructor
  · refine ⟨fun p => (htokens p).trans (h.token p), fun p => ?_, fun p => ?_, fun p => ?_, h.started⟩
    · have hedges := h.edges p
      have hpending := hw (Frame.pending p)
      dsimp only [Run.setStack, Run.postNode, Frame.pending] at hpending ⊢
      omega
    · have hmarks := h.marks p
      have hmarked := hw (Frame.marked p)
      dsimp only [Run.setStack, Run.postNode, Frame.marked] at hmarked ⊢
      omega
    · rw [htokens]
      have hposted := h.posted p
      have hdeciding := hw (Frame.deciding p)
      simp only [Run.setStack, Run.postNode, Frame.deciding, List.count_cons, beq_iff_eq]
        at hdeciding ⊢
      omega
  · refine h.toTotals.of_same ⟨rfl, rfl, rfl, rfl, rfl⟩
      (fun o => weight_same (l := []) htop rfl ?_)
      (fun p => weight_same (l := []) htop rfl ?_)
      (weight_same (l := []) htop rfl ?_) (weight_same (l := []) htop rfl ?_)
    all_goals simp [Frame.recording, Frame.failing, Frame.counting, Frame.completing]

/-- An edge that is about to be counted off is still counted. -/
theorem remaining_pos (h : Ledger g s) {o : TaskState} {c : Fin n}
    {more : List (Fin n × EdgePolicy)} (htop : s.workers w = .countDown m o c more :: rest) :
    1 ≤ (s.entries c).remainingPredecessors := by
  have hpending := h.pending_le c
  have hle := top_le htop (Frame.pending c)
  simp only [Frame.pending, if_true] at hle
  omega

/-- An edge is counted off. -/
theorem countDown (h : Ledger g s) {o : TaskState} {c : Fin n} {more : List (Fin n × EdgePolicy)}
    (htop : s.workers w = .countDown m o c more :: rest) :
    Ledger g ((s.setEntry c { s.entries c with
      remainingPredecessors := (s.entries c).remainingPredecessors - 1 }).setStack w
        ((if (s.entries c).remainingPredecessors = 1 then [Frame.decide c] else []) ++
          Frame.edges m o more :: rest)) := by
  have hpos := h.remaining_pos htop
  generalize hs' : (s.setEntry c { s.entries c with
      remainingPredecessors := (s.entries c).remainingPredecessors - 1 }).setStack w
        ((if (s.entries c).remainingPredecessors = 1 then [Frame.decide c] else []) ++
          Frame.edges m o more :: rest) = s'
  have hworkers : s'.workers = Function.update s.workers w
      (((if (s.entries c).remainingPredecessors = 1 then [Frame.decide c] else []) ++
        [Frame.edges m o more]) ++ rest) := by
    rw [← hs']
    simp [Run.setStack, Run.setEntry]
  have hw := weight_top htop hworkers
  -- the last predecessor of `c` puts `c` into the worker's hands
  have hdecide : ∀ f : Frame n E → Nat,
      stackWeight f ((if (s.entries c).remainingPredecessors = 1 then [Frame.decide c] else []) ++
        [Frame.edges m o more]) =
      (if (s.entries c).remainingPredecessors = 1 then f (.decide c) else 0) +
        f (.edges m o more) := by
    intro f
    split <;> simp
  simp only [hdecide] at hw
  have hremaining : ∀ p, (s'.entries p).remainingPredecessors =
      (s.entries p).remainingPredecessors - if p = c then 1 else 0 := by
    intro p
    rw [← hs']
    by_cases hp : p = c
    · subst hp
      simp [Run.setStack, Run.setEntry]
    · simp [Run.setStack, Run.setEntry, hp]
  have hbody : ∀ p, (s'.entries p).body = (s.entries p).body := by
    intro p
    rw [← hs']
    by_cases hp : p = c
    · subst hp
      simp [Run.setStack, Run.setEntry]
    · simp [Run.setStack, Run.setEntry, hp]
  have htokens : ∀ p, tokens s' p = tokens s p +
      if (s.entries c).remainingPredecessors = 1 ∧ c = p then 1 else 0 := by
    intro p
    have hholds := hw (Frame.holds p)
    have hsame : s'.roots = s.roots ∧ s'.queue = s.queue ∧ s'.triggered = s.triggered := by
      rw [← hs']
      exact ⟨rfl, rfl, rfl⟩
    simp only [tokens, hbody, hsame.1, hsame.2.1, hsame.2.2]
    dsimp only [Frame.holds] at hholds
    by_cases hlast : (s.entries c).remainingPredecessors = 1
    · simp only [hlast, if_true, true_and] at hholds ⊢
      omega
    · simp only [hlast, if_false, false_and] at hholds ⊢
      omega
  constructor
  · refine ⟨fun p => ?_, fun p => ?_, fun p => ?_, fun p => ?_, fun p hp => ?_⟩
    · rw [htokens, h.token, hremaining]
      by_cases hp : p = c
      · subst hp
        simp only [and_true, if_true]
        rw [if_neg (by omega)]
        split <;> split <;> omega
      · simp [hp, Ne.symm hp]
    · have hedges := h.edges p
      have hpending := hw (Frame.pending p)
      have htriggered : s'.triggered = s.triggered := by
        rw [← hs']
        rfl
      rw [hremaining, htriggered]
      dsimp only [Frame.pending] at hpending
      have hnone : (if (s.entries c).remainingPredecessors = 1 then 0 else 0) = 0 := by
        split <;> rfl
      by_cases hp : p = c
      · subst hp
        simp only [if_true] at hpending ⊢
        omega
      · simp only [hp, Ne.symm hp, if_false] at hpending ⊢
        omega
    · have hmarks := h.marks p
      have hmarked := hw (Frame.marked p)
      have hsame : s'.marks = s.marks ∧ s'.triggered = s.triggered := by
        rw [← hs']
        exact ⟨rfl, rfl⟩
      rw [hsame.1, hsame.2]
      dsimp only [Frame.marked] at hmarked
      split at hmarked <;> omega
    · have hposted := h.posted p
      have hdeciding := hw (Frame.deciding p)
      have hsame : s'.posted = s.posted ∧ s'.roots = s.roots := by
        rw [← hs']
        exact ⟨rfl, rfl⟩
      rw [htokens, hsame.1, hsame.2]
      dsimp only [Frame.deciding] at hdeciding
      by_cases hlast : (s.entries c).remainingPredecessors = 1
      · simp only [hlast, if_true, true_and] at hdeciding ⊢
        omega
      · simp only [hlast, if_false, false_and] at hdeciding ⊢
        omega
    · have hstarted : p ∈ s.started := by
        rw [← hs'] at hp
        exact hp
      have hzero := h.started p hstarted
      have hp : p ≠ c := by
        rintro rfl
        omega
      rw [hremaining, if_neg hp]
      omega
  · have hsame : SameTotals s s' := by
      rw [← hs']
      exact ⟨rfl, rfl, rfl, rfl, rfl⟩
    refine h.toTotals.of_same hsame (fun o => ?_) (fun p => ?_) ?_ ?_
    · have hrecording := hw (Frame.recording o)
      dsimp only [Frame.recording] at hrecording
      split at hrecording <;> omega
    · have hfailing := hw (Frame.failing p)
      dsimp only [Frame.failing] at hfailing
      split at hfailing <;> omega
    · have hcounting := hw Frame.counting
      dsimp only [Frame.counting] at hcounting
      split at hcounting <;> omega
    · have hcompleting := hw Frame.completing
      dsimp only [Frame.completing] at hcompleting
      split at hcompleting <;> omega

/-- A worker takes an invoker out of a queue. -/
theorem claim (h : Ledger g s) {resume : Bool} (hq : (m, resume) ∈ s.queue) :
    Ledger g { s.setStack w (.claimed m resume :: s.workers w) with
      queue := s.queue.erase (m, resume) } := by
  have hw : ∀ f : Frame n E → Nat,
      weight f (Function.update s.workers w (.claimed m resume :: s.workers w)) =
        weight f s.workers + f (.claimed m resume) := fun f => weight_push [Frame.claimed m resume]
  have hqueue : ∀ p, (s.queue.erase (m, resume)).countP (fun c => c.1 = p) +
      (if m = p then 1 else 0) = s.queue.countP fun c => c.1 = p := by
    intro p
    rw [(List.perm_cons_erase hq).countP_eq, List.countP_cons]
    simp
  have htokens : ∀ p, tokens { s.setStack w (.claimed m resume :: s.workers w) with
      queue := s.queue.erase (m, resume) } p = tokens s p := by
    intro p
    have hholds := hw (Frame.holds p)
    have hcount := hqueue p
    dsimp only [tokens, Run.setStack, Frame.holds] at hholds ⊢
    omega
  constructor
  · refine ⟨fun p => (htokens p).trans (h.token p), fun p => ?_, fun p => ?_, fun p => ?_, h.started⟩
    · have hedges := h.edges p
      have hpending := hw (Frame.pending p)
      dsimp only [Run.setStack, Frame.pending] at hpending ⊢
      omega
    · have hmarks := h.marks p
      have hmarked := hw (Frame.marked p)
      dsimp only [Run.setStack, Frame.marked] at hmarked ⊢
      omega
    · rw [htokens]
      have hposted := h.posted p
      have hdeciding := hw (Frame.deciding p)
      dsimp only [Run.setStack, Frame.deciding] at hdeciding ⊢
      omega
  · exact h.toTotals.of_same ⟨rfl, rfl, rfl, rfl, rfl⟩ (fun o => hw (Frame.recording o))
      (fun p => hw (Frame.failing p)) (hw Frame.counting) (hw Frame.completing)

/-- `run` posts a root. -/
theorem postRoot (h : Ledger g s) {roots : List (Fin n)} (hr : s.roots = m :: roots) :
    Ledger g { s.postNode m with roots := roots } := by
  have htokens : ∀ p, tokens { s.postNode m with roots := roots } p = tokens s p := by
    intro p
    dsimp only [tokens, Run.postNode]
    simp only [hr, List.countP_append, List.countP_singleton, List.count_cons, beq_iff_eq,
      decide_eq_true_eq]
    omega
  constructor
  · refine ⟨fun p => (htokens p).trans (h.token p), h.edges, h.marks, fun p => ?_, h.started⟩
    rw [htokens]
    have hposted := h.posted p
    simp only [hr, Run.postNode, List.count_cons, beq_iff_eq] at hposted ⊢
    omega
  · exact ⟨h.nodes, h.report, h.failures, h.completion, h.runState, h.completed⟩

/-- A node that is suspended is not in another place. -/
theorem tokens_setEntry (entry : NodeEntry E) (p : Fin n) :
    tokens (s.setEntry m entry) p +
        (if m = p ∧ (s.entries m).body = .suspended then 1 else 0) =
      tokens s p + if m = p ∧ entry.body = .suspended then 1 else 0 := by
  by_cases hp : m = p
  · subst hp
    simp only [tokens, Run.setEntry, Function.update_self, true_and]
    omega
  · simp [tokens, Run.setEntry, hp, Ne.symm hp]

theorem remaining_setEntry {entry : NodeEntry E}
    (he : entry.remainingPredecessors = (s.entries m).remainingPredecessors) (p : Fin n) :
    ((s.setEntry m entry).entries p).remainingPredecessors =
      (s.entries p).remainingPredecessors :=
  Run.entries_eq rfl NodeEntry.remainingPredecessors p he

/-- A coroutine suspends. -/
theorem suspend {entry : NodeEntry E} (h : Ledger g s) (htop : s.workers w = .code m :: rest)
    (he : entry.remainingPredecessors = (s.entries m).remainingPredecessors)
    (hbody : entry.body = .suspended) :
    Ledger g ((s.setEntry m entry).setStack w (.check m true :: rest)) := by
  generalize hs' : (s.setEntry m entry).setStack w (.check m true :: rest) = s'
  have hw : ∀ f : Frame n E → Nat,
      weight f s'.workers + f (.code m) = weight f s.workers + f (.check m true) := by
    rw [← hs']
    exact weight_one htop (.check m true)
  have hold : (s.entries m).body ≠ .suspended :=
    h.not_suspended (a := .code m) (by rw [htop]; exact List.mem_cons_self ..) (if_pos rfl)
  have hremaining : ∀ p, (s'.entries p).remainingPredecessors =
      (s.entries p).remainingPredecessors := by
    intro p
    rw [← hs']
    exact remaining_setEntry he p
  have htokens : ∀ p, tokens s' p = tokens s p := by
    intro p
    have hentry := tokens_setEntry (s := s) (m := m) entry p
    have hholds := hw (Frame.holds p)
    have hstack : tokens s' p + weight (Frame.holds p) s.workers =
        tokens (s.setEntry m entry) p + weight (Frame.holds p) s'.workers := by
      rw [← hs']
      dsimp only [tokens, Run.setStack, Run.setEntry]
      omega
    simp only [hold, hbody, and_false, and_true, if_false] at hentry
    dsimp only [Frame.holds] at hholds
    omega
  have hsame : s'.roots = s.roots ∧ s'.triggered = s.triggered ∧ s'.marks = s.marks ∧
      s'.posted = s.posted ∧ s'.started = s.started ∧ SameTotals s s' := by
    rw [← hs']
    exact ⟨rfl, rfl, rfl, rfl, rfl, rfl, rfl, rfl, rfl, rfl⟩
  obtain ⟨hroots, htriggered, hmarks, hposted, hstarted, htotals⟩ := hsame
  constructor
  · refine ⟨fun p => ?_, fun p => ?_, fun p => ?_, fun p => ?_, fun p hp => ?_⟩
    · rw [htokens, hremaining]
      exact h.token p
    · have hedges := h.edges p
      have hpending := hw (Frame.pending p)
      dsimp only [Frame.pending] at hpending
      rw [hremaining, htriggered]
      omega
    · have hcount := h.marks p
      have hmarked := hw (Frame.marked p)
      dsimp only [Frame.marked] at hmarked
      rw [hmarks, htriggered]
      omega
    · have hcount := h.posted p
      have hdeciding := hw (Frame.deciding p)
      dsimp only [Frame.deciding] at hdeciding
      rw [htokens, hposted, hroots]
      omega
    · rw [hremaining]
      exact h.started p (hstarted ▸ hp)
  · exact h.toTotals.of_same htotals (fun o => hw (Frame.recording o))
      (fun p => hw (Frame.failing p)) (hw Frame.counting) (hw Frame.completing)

/-- Whatever a coroutine awaits posts its resume. -/
theorem awake {entry : NodeEntry E} (h : Ledger g s) (hold : (s.entries m).body = .suspended)
    (he : entry.remainingPredecessors = (s.entries m).remainingPredecessors)
    (hbody : entry.body ≠ .suspended) :
    Ledger g { s.setEntry m entry with queue := s.queue ++ [(m, true)] } := by
  have htokens : ∀ p, tokens { s.setEntry m entry with queue := s.queue ++ [(m, true)] } p =
      tokens s p := by
    intro p
    have hentry := tokens_setEntry (s := s) (m := m) entry p
    have hqueue : tokens { s.setEntry m entry with queue := s.queue ++ [(m, true)] } p =
        tokens (s.setEntry m entry) p + if m = p then 1 else 0 := by
      dsimp only [tokens, Run.setEntry]
      simp only [List.countP_append, List.countP_singleton, decide_eq_true_eq]
      omega
    simp only [hold, hbody, and_false, and_true, if_false] at hentry
    omega
  have hremaining := remaining_setEntry (s := s) he
  constructor
  · refine ⟨fun p => ?_, fun p => ?_, h.marks, fun p => ?_, fun p hp => ?_⟩
    · exact (htokens p).trans ((h.token p).trans (by rw [← hremaining p]))
    · have hedges := h.edges p
      rw [← hremaining p] at hedges
      exact hedges
    · rw [htokens]
      exact h.posted p
    · exact (hremaining p).trans (h.started p hp)
  · exact h.toTotals.of_same ⟨rfl, rfl, rfl, rfl, rfl⟩ (fun _ => rfl) (fun _ => rfl) rfl rfl

end Ledger

end GraphExecution
end AstraScheduler
