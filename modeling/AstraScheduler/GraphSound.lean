import AstraScheduler.GraphBooks

/-! # What the frames know

What a worker has read of a node's outcome is what the node's entry says, and a failure
comes with its exception.  With this every step of a run keeps the books. -/

namespace AstraScheduler
namespace GraphExecution

open WorkStacks
open Transition (Machine)

variable {n k : Nat} {E : Type} {g : FrozenTaskGraph n} {s s' s'' : Run n k E}
variable {w : Fin k} {a b : Frame n E} {rest l : List (Frame n E)} {m : Fin n}

/-- No worker that has suspended a coroutine comes back to find it completed. -/
def checksInTime (s : Run n k E) : Label n k E → Bool
  | .step w =>
    match s.workers w with
    | .check m true :: _ => !(s.entries m).taskState.terminal
    | _ => true
  | _ => true

abbrev ChecksInTime (s : Run n k E) (a : Label n k E) : Prop := checksInTime s a = true

/-! ## Sound frames -/

/-- What a frame relies on. -/
def Frame.Sound (s : Run n k E) : Frame n E → Prop
  | .check m false | .readState m => (s.entries m).taskState.terminal
  | .storeOutcome _ o e => o.terminal ∧ (o = .failed → e.isSome)
  | .record m o e => (o = .failed → e.isSome) ∧ (m, o) ∈ s.marks
  | .edges m o _ | .countDown m o _ _ => (m, o) ∈ s.marks
  | _ => True

structure Sound (s : Run n k E) : Prop where
  frame : ∀ w, ∀ a ∈ s.workers w, a.Sound s
  failed : ∀ m, (s.entries m).taskState = .failed → (s.entries m).exception.isSome
  marks : ∀ m o, (m, o) ∈ s.marks → o.terminal ∧ (s.entries m).outcome = o

/-- What may become of an entry between two outcomes. -/
structure NodeEntry.Follows (e e' : NodeEntry E) : Prop where
  terminal : e.taskState.terminal → e'.taskState.terminal
  outcome : e'.outcome = e.outcome
  failed : (e.taskState = .failed → e.exception.isSome) →
    e'.taskState = .failed → e'.exception.isSome

theorem NodeEntry.Follows.refl (e : NodeEntry E) : e.Follows e := ⟨id, rfl, id⟩

/-- A change of state other than to a failure. -/
theorem NodeEntry.Follows.of_state {e e' : NodeEntry E} (ho : e'.outcome = e.outcome)
    (hterm : e.taskState.terminal → e'.taskState.terminal)
    (hsame : e'.taskState = e.taskState ∧ e'.exception = e.exception ∨ e'.taskState ≠ .failed) :
    e.Follows e' := by
  refine ⟨hterm, ho, fun hf hf' => ?_⟩
  rcases hsame with ⟨hstate, hex⟩ | hne
  · rw [hex]
    exact hf (hstate ▸ hf')
  · exact absurd hf' hne

/-- What the accounts look at stays, the entries and the workers apart. -/
structure SameBooks (s s' : Run n k E) : Prop where
  roots : s'.roots = s.roots
  queue : s'.queue = s.queue
  triggered : s'.triggered = s.triggered
  posted : s'.posted = s.posted
  marks : s'.marks = s.marks
  remainingNodes : s'.remainingNodes = s.remainingNodes
  report : s'.report = s.report
  completions : s'.completions = s.completions
  runState : s'.runState = s.runState

theorem SameBooks.totals (h : SameBooks s s') : SameTotals s s' :=
  ⟨h.marks, h.remainingNodes, h.report, h.completions, h.runState⟩

theorem Frame.holds_of_carries (h : a.carries m) : a.holds m = 1 := by
  unfold Frame.carries at h
  split at h
  case h_7 => exact h.elim
  all_goals exact if_pos h

/-- No outcome is stored. -/
structure Moves (s s' : Run n k E) : Prop where
  entry : ∀ m, (s.entries m).Follows (s'.entries m)
  marks : s'.marks = s.marks

theorem Moves.of_same (hentries : s'.entries = s.entries) (hmarks : s'.marks = s.marks) :
    Moves s s' :=
  ⟨fun _ => hentries ▸ .refl _, hmarks⟩

theorem Moves.setEntry {entry : NodeEntry E}
    (hentries : s'.entries = Function.update s.entries m entry) (hmarks : s'.marks = s.marks)
    (h : (s.entries m).Follows entry) : Moves s s' := by
  refine ⟨fun p => ?_, hmarks⟩
  rw [hentries]
  by_cases hp : p = m
  · subst hp
    rwa [Function.update_self]
  · rw [Function.update_of_ne hp]
    exact .refl _

theorem Moves.requestTaskCancel (s : Run n k E) (m : Fin n) : Moves s (s.requestTaskCancel m) := by
  unfold Run.requestTaskCancel
  split
  case isTrue =>
    exact .setEntry rfl rfl (.of_state rfl (fun _ => rfl) (.inr TaskState.noConfusion))
  case isFalse => exact .of_same rfl rfl

theorem Moves.trans (h : Moves s s') (h' : Moves s' s'') : Moves s s'' :=
  ⟨fun m => ⟨fun ht => (h'.entry m).terminal ((h.entry m).terminal ht),
    (h'.entry m).outcome.trans (h.entry m).outcome,
    fun hf => (h'.entry m).failed ((h.entry m).failed hf)⟩, h'.marks.trans h.marks⟩

/-- What a frame relies on stays. -/
theorem Frame.Sound.mono (h : a.Sound s)
    (hterm : ∀ m, (s.entries m).taskState.terminal → (s'.entries m).taskState.terminal)
    (hmarks : s.marks ⊆ s'.marks) : a.Sound s' := by
  unfold Frame.Sound at h ⊢
  split at h
  · exact hterm _ h
  · exact hterm _ h
  · exact h
  · exact ⟨h.1, hmarks h.2⟩
  · exact hmarks h
  · exact hmarks h
  · trivial

namespace Sound

theorem of_moves (h : Sound s) (hm : Moves s s')
    (hframes : ∀ v, ∀ b ∈ s'.workers v, b ∈ s.workers v ∨ b.Sound s') : Sound s' where
  frame := by
    intro v b hb
    rcases hframes v b hb with hb | hb
    · exact (h.frame v b hb).mono (fun m => (hm.entry m).terminal) (hm.marks ▸ List.Subset.refl _)
    · exact hb
  failed := fun m => (hm.entry m).failed (h.failed m)
  marks := by
    intro m o ho
    rw [hm.marks] at ho
    rw [(hm.entry m).outcome]
    exact h.marks m o ho

/-- The topmost frame of a worker gives way to frames that rely on what is so. -/
theorem of_top (h : Sound s) (hm : Moves s s') (htop : s.workers w = a :: rest)
    (hw : s'.workers = Function.update s.workers w (l ++ rest))
    (hnew : ∀ b ∈ l, b.Sound s') : Sound s' := by
  refine h.of_moves hm fun v b hb => ?_
  rw [hw] at hb
  rcases mem_replace hb with hb | hb
  · exact .inr (hnew b hb)
  · exact .inl (mem_of_mem_rest htop hb)

theorem of_workers (h : Sound s) (hm : Moves s s') (hw : s'.workers = s.workers) : Sound s' :=
  h.of_moves hm fun _ _ hb => .inl (hw ▸ hb)

/-- The topmost frame of a worker. -/
theorem top (h : Sound s) (htop : s.workers w = a :: rest) : a.Sound s :=
  h.frame w a (by rw [htop]; exact List.mem_cons_self ..)

end Sound

/-- A worker that has a node in hand is alone with it. -/
theorem Ledger.alone (h : Ledger g s) (htop : s.workers w = a :: rest) (ha : a.holds m = 1)
    {f : Frame n E → Nat} (hf : ∀ b, f b ≤ Frame.holds m b) :
    weight f s.workers = f a ∧ s.queue.countP (fun c => c.1 = m) = 0 ∧ s.triggered.count m = 0 := by
  have htoken := h.token_le m
  have hholds := weight_replace (f := Frame.holds m) htop []
  have hweight := weight_replace (f := f) htop []
  have hmono := weight_mono hf (Function.update s.workers w ([] ++ rest))
  rw [stackWeight_nil] at hholds hweight
  rw [tokens] at htoken
  omega

/-- A node whose outcome is about to be stored is not marked. -/
theorem Ledger.not_marked (h : Ledger g s) {o o' : TaskState} {e : Option E}
    (htop : s.workers w = .storeOutcome m o e :: rest) : (m, o') ∉ s.marks := by
  intro hmem
  have hmarks := h.marks m
  have hpos : 0 < (s.marks.map Prod.fst).count m :=
    List.count_pos_iff.mpr (List.mem_map_of_mem hmem)
  obtain ⟨hmarked, -, htriggered⟩ := h.alone htop (if_pos rfl) (Ledger.marked_le m)
  simp only [Frame.marked] at hmarked
  omega

/-- The outcome is stored. -/
theorem Sound.mark {o : TaskState} {e : Option E} (h : Sound s) (hl : Ledger g s)
    (htop : s.workers w = .storeOutcome m o e :: rest) :
    Sound { (s.setEntry m { s.entries m with outcome := o }).setStack w
        (.record m o e :: rest) with marks := (m, o) :: s.marks } := by
  have hsound := h.top htop
  generalize hs' : { (s.setEntry m { s.entries m with outcome := o }).setStack w
      (.record m o e :: rest) with marks := (m, o) :: s.marks } = s'
  have hmarks : s'.marks = (m, o) :: s.marks := by
    rw [← hs']
  have hentry : ∀ p, (s'.entries p).taskState = (s.entries p).taskState ∧
      (s'.entries p).exception = (s.entries p).exception ∧
        (s'.entries p).outcome = if p = m then o else (s.entries p).outcome := by
    intro p
    rw [← hs']
    by_cases hp : p = m
    · subst hp
      simp [Run.setStack, Run.setEntry]
    · simp [Run.setStack, Run.setEntry, hp]
  refine ⟨fun v b hb => ?_, fun p => ?_, fun p o' ho' => ?_⟩
  · have hnewers : s'.workers = Function.update s.workers w ([Frame.record m o e] ++ rest) := by
      rw [← hs']
      rfl
    rw [hnewers] at hb
    rcases mem_replace hb with hb | hb
    · obtain rfl := List.mem_singleton.mp hb
      exact ⟨hsound.2, by rw [hmarks]; exact List.mem_cons_self ..⟩
    · refine (h.frame v b (mem_of_mem_rest htop hb)).mono (fun p => ?_) ?_
      · rw [(hentry p).1]
        exact id
      · rw [hmarks]
        exact List.subset_cons_self ..
  · rw [(hentry p).1, (hentry p).2.1]
    exact h.failed p
  · rw [hmarks] at ho'
    rw [(hentry p).2.2]
    rcases List.mem_cons.mp ho' with heq | hold
    · obtain ⟨rfl, rfl⟩ := Prod.mk.inj heq
      exact ⟨hsound.1, if_pos rfl⟩
    · have hp : p ≠ m := by
        rintro rfl
        exact hl.not_marked htop hold
      rw [if_neg hp]
      exact h.marks p o' hold

/-! ## The books of a run -/

/-- The accounts, and what the frames know. -/
structure Books (g : FrozenTaskGraph n) (s : Run n k E) : Prop where
  ledger : Ledger g s
  sound : Sound s

namespace Books

/-- The topmost frame gives way to frames that hold the same. -/
theorem of_quiet (h : Books g s) (hp : SamePlaces s s') (ht : SameTotals s s') (hm : Moves s s')
    (htop : s.workers w = a :: rest) (hq : Frame.Quiet a l)
    (hw : s'.workers = Function.update s.workers w (l ++ rest))
    (hnew : ∀ b ∈ l, b.Sound s') : Books g s' :=
  ⟨h.ledger.of_quiet hp ht htop hq hw, h.sound.of_top hm htop hw hnew⟩

theorem of_workers (h : Books g s) (hp : SamePlaces s s') (ht : SameTotals s s') (hm : Moves s s')
    (hw : s'.workers = s.workers) : Books g s' :=
  ⟨h.ledger.of_workers hp ht hw, h.sound.of_workers hm hw⟩

/-- Only the stack changes. -/
theorem of_stack (h : Books g s) (htop : s.workers w = a :: rest) (hq : Frame.Quiet a l)
    (hnew : ∀ b ∈ l, b.Sound s) : Books g (s.setStack w (l ++ rest)) :=
  h.of_quiet ⟨fun _ => rfl, fun _ => .rfl, rfl, rfl, rfl, rfl, rfl, fun _ => .inl⟩
    ⟨rfl, rfl, rfl, rfl, rfl⟩ (.of_same rfl rfl) htop hq rfl
    fun b hb => (hnew b hb).mono (fun _ => id) (List.Subset.refl _)

/-- A node in a worker's hands is not suspended, and its predecessors are done. -/
theorem held (h : Books g s) (htop : s.workers w = a :: rest) (ha : a.holds m = 1) :
    (s.entries m).body ≠ .suspended ∧ (s.entries m).remainingPredecessors = 0 := by
  have hmem : a ∈ s.workers w := by
    rw [htop]
    exact List.mem_cons_self ..
  refine ⟨h.ledger.not_suspended hmem ha, h.ledger.remaining_eq_zero ?_⟩
  have hle := le_weight (f := Frame.holds m) hmem
  rw [tokens]
  omega

/-- A worker goes on with the node it has in hand. -/
theorem of_carry (h : Books g s) (htop : s.workers w = a :: rest) (ha : a.carries m)
    (hb : b.carries m) (entry : NodeEntry E)
    (hentries : s'.entries = Function.update s.entries m entry)
    (hw : s'.workers = Function.update s.workers w (b :: rest)) (hsame : SameBooks s s')
    (hstarted : ∀ p ∈ s'.started, p ∈ s.started ∨ p = m)
    (hremaining : entry.remainingPredecessors = (s.entries m).remainingPredecessors)
    (hbody : entry.body ≠ .suspended) (hfollows : (s.entries m).Follows entry)
    (hnew : b.Sound s') : Books g s' := by
  obtain ⟨hold, hzero⟩ := h.held htop (Frame.holds_of_carries ha)
  have hp := SamePlaces.setEntry (s := s) hremaining (by simp [hold, hbody])
  refine h.of_quiet (l := [b]) ⟨fun p => ?_, fun p => ?_, hsame.roots, hsame.queue,
    hsame.triggered, hsame.marks, hsame.posted, fun p hp => ?_⟩ hsame.totals
    (.setEntry hentries hsame.marks hfollows) htop (.carry ha hb) hw (by simpa using hnew)
  · rw [hentries]
    exact hp.remaining p
  · rw [hentries]
    exact hp.suspended p
  · rcases hstarted p hp with hp | rfl
    · exact .inl hp
    · exact .inr hzero

/-- The invoker of a node, or a resume, is executed. -/
theorem enter {resume : Bool} (h : Books g s) (htop : s.workers w = .claimed m resume :: rest) :
    Books g (enter g s w rest m resume) := by
  have hself := (Function.update_eq_self m s.entries).symm
  obtain ⟨hbody, -⟩ := h.held htop (m := m) (if_pos rfl)
  have ha : (Frame.claimed m resume : Frame n E).carries m := rfl
  unfold GraphExecution.enter
  cases resume with
  | true =>
    rw [if_pos rfl]
    refine h.of_carry (b := .code m) htop ha rfl _ rfl rfl
      ⟨rfl, rfl, rfl, rfl, rfl, rfl, rfl, rfl, rfl⟩ (fun _ => .inl) rfl ?_ ?_ trivial
    · exact BodyState.noConfusion
    · refine .of_state rfl (fun ht => ?_) ?_
      · cases hstate : (s.entries m).taskState <;> simp_all [TaskState.terminal]
      · dsimp only
        split
        · exact .inr TaskState.noConfusion
        · exact .inl ⟨rfl, rfl⟩
  | false =>
    rw [if_neg Bool.false_ne_true]
    by_cases hcancel : s.cancelRequested
    · rw [if_pos hcancel]
      split
      · exact h.of_carry (b := .cancelTask m) htop ha rfl _ hself rfl
          ⟨rfl, rfl, rfl, rfl, rfl, rfl, rfl, rfl, rfl⟩ (fun _ => .inl) rfl hbody (.refl _) trivial
      · exact h.of_carry (b := .storeOutcome m .cancelled none) htop ha rfl _ hself rfl
          ⟨rfl, rfl, rfl, rfl, rfl, rfl, rfl, rfl, rfl⟩ (fun _ => .inl) rfl hbody (.refl _)
          ⟨rfl, TaskState.noConfusion⟩
    · rw [if_neg hcancel]
      refine h.of_carry (b := .code m) htop ha rfl _ rfl rfl
        ⟨rfl, rfl, rfl, rfl, rfl, rfl, rfl, rfl, rfl⟩ (fun p hp => ?_) rfl
        BodyState.noConfusion (.of_state rfl id (.inl ⟨rfl, rfl⟩)) trivial
      exact (List.mem_cons.mp hp).symm

/-- The code of a node ends. -/
theorem finish {result : BodyResult E} (h : Books g s) (htop : s.workers w = .code m :: rest) :
    Books g (finish g s w rest m result) := by
  have hresult : result.state.terminal ∧ (result.state = .failed → result.exception.isSome) := by
    cases result <;> simp [BodyResult.state, BodyResult.exception, TaskState.terminal]
  have ha : (Frame.code m : Frame n E).carries m := rfl
  unfold GraphExecution.finish
  dsimp only
  split
  · refine h.of_carry (b := .check m false) htop ha rfl _ rfl rfl
      ⟨rfl, rfl, rfl, rfl, rfl, rfl, rfl, rfl, rfl⟩ (fun _ => .inl) rfl BodyState.noConfusion
      ⟨fun _ => hresult.1, rfl, fun _ hf => ?_⟩ ?_
    · obtain ⟨x, hx⟩ := Option.isSome_iff_exists.mp (hresult.2 hf)
      simp [hx]
    · simpa [Frame.Sound, Run.setStack, Run.setEntry] using hresult.1
  · exact h.of_carry (b := .storeOutcome m _ _) htop ha rfl _ rfl rfl
      ⟨rfl, rfl, rfl, rfl, rfl, rfl, rfl, rfl, rfl⟩ (fun _ => .inl) rfl BodyState.noConfusion
      (.of_state rfl id (.inl ⟨rfl, rfl⟩)) hresult

/-- The coroutine of a cancelled run is resumed. -/
theorem cancelTask (h : Books g s) (htop : s.workers w = .cancelTask m :: rest)
    (hs : stepFrame g s w rest (.cancelTask m) = some s') : Books g s' := by
  cases hs
  have hcancel : (s.requestTaskCancel m).entries =
      Function.update s.entries m ((s.requestTaskCancel m).entries m) := by
    unfold Run.requestTaskCancel
    split
    · simp [Run.setEntry]
    · exact (Function.update_eq_self m s.entries).symm
  have hp := (SamePlaces.requestTaskCancel s m).remaining m
  have ht := SameTotals.requestTaskCancel s m
  have hother := SamePlaces.requestTaskCancel s m
  have hstarted : (s.requestTaskCancel m).started = s.started := by
    unfold Run.requestTaskCancel
    split <;> rfl
  have hworkers : (s.requestTaskCancel m).workers = s.workers := by
    unfold Run.requestTaskCancel
    split <;> rfl
  refine h.of_carry (b := .code m) htop rfl rfl
    { (s.requestTaskCancel m).entries m with body := .running } ?_ ?_
    ⟨hother.roots, hother.queue, hother.triggered, hother.posted, ht.marks, ht.remainingNodes,
      ht.report, ht.completions, ht.runState⟩ (fun p hp => (List.mem_cons.mp hp).symm) hp
    BodyState.noConfusion ?_ trivial
  · dsimp only [Run.setStack, Run.setEntry]
    rw [hcancel, Function.update_idem]
  · dsimp only [Run.setStack, Run.setEntry]
    rw [hworkers]
  · obtain ⟨h1, h2, h3⟩ := (Moves.requestTaskCancel s m).entry m
    exact ⟨h1, h2, h3⟩

/-- A worker takes its next step. -/
theorem stepFrame (h : Books g s) (htop : s.workers w = a :: rest)
    (hok : checksInTime s (.step w) = true) (hs : stepFrame g s w rest a = some s') :
    Books g s' := by
  have hself := fun m => (Function.update_eq_self m s.entries).symm
  have hsound := h.sound.top htop
  cases a with
  | claimed m resume =>
    cases hs
    exact h.enter htop
  | cancelTask m => exact h.cancelTask htop hs
  | code m => cases hs
  | check m suspended =>
    simp only [GraphExecution.stepFrame] at hs
    cases suspended with
    | true =>
      -- the coroutine is not completed
      have hnot : (s.entries m).taskState.terminal = false := by
        simpa [checksInTime, htop] using hok
      rw [if_neg (by simp [hnot])] at hs
      cases hs
      exact h.of_stack (l := []) htop .check_nil (by simp)
    | false =>
      have hterm : (s.entries m).taskState.terminal := hsound
      rw [if_pos hterm] at hs
      cases hs
      exact h.of_stack (l := [_]) htop (.carry (m := m) rfl rfl) (by simpa [Frame.Sound] using hterm)
  | readState m =>
    cases hs
    refine h.of_stack (l := [_]) htop (.carry (m := m) rfl rfl) ?_
    have hterm : (s.entries m).taskState.terminal := hsound
    have hfailed := h.sound.failed m
    simp only [List.mem_singleton, forall_eq]
    refine ⟨hterm, fun hf => ?_⟩
    rw [if_pos hf]
    exact hfailed hf
  | storeOutcome m o e =>
    cases hs
    refine ⟨?_, h.sound.mark h.ledger htop⟩
    have hentry : Ledger g (s.setEntry m { s.entries m with outcome := o }) :=
      h.ledger.of_workers (.setEntry rfl .rfl) ⟨rfl, rfl, rfl, rfl, rfl⟩ rfl
    exact hentry.mark (s := s.setEntry m { s.entries m with outcome := o }) htop
  | record m o e =>
    cases hs
    exact ⟨h.ledger.record htop hsound.1,
      h.sound.of_top (l := [_]) (.of_same rfl rfl) htop rfl (by simp [Frame.Sound])⟩
  | countNode m =>
    cases hs
    refine ⟨h.ledger.countNode htop, h.sound.of_top (l := [_]) (.of_same rfl rfl) htop rfl ?_⟩
    simp only [List.mem_singleton, forall_eq]
    split <;> trivial
  | complete m =>
    cases hs
    exact ⟨h.ledger.complete htop,
      h.sound.of_top (l := [_]) (.of_same rfl rfl) htop rfl (by simp [Frame.Sound])⟩
  | trigger m =>
    cases hs
    refine ⟨h.ledger.trigger htop, h.sound.of_top (l := [_]) (.of_same rfl rfl) htop rfl ?_⟩
    simp only [List.mem_singleton, forall_eq]
    -- a node that is to be triggered is marked
    have hmarks := h.ledger.marks m
    have hle := top_le htop (Frame.marked m)
    simp only [Frame.marked, if_true] at hle
    obtain ⟨⟨p, o⟩, hmem, rfl⟩ := List.mem_map.mp
      (List.count_pos_iff.mp (show 0 < (s.marks.map Prod.fst).count m by omega))
    change (p, (s.entries p).outcome) ∈ s.marks
    rw [(h.sound.marks p o hmem).2]
    exact hmem
  | edges m o successors =>
    cases successors with
    | nil =>
      cases hs
      exact h.of_stack (l := []) htop (.edges_nil o) (by simp)
    | cons c more =>
      obtain ⟨c, policy⟩ := c
      simp only [GraphExecution.stepFrame] at hs
      have hstack : Books g (s.setStack w (.countDown m o c more :: rest)) :=
        h.of_stack (l := [_]) htop (.edges_cons o (c, policy) more)
          (by simpa [Frame.Sound] using hsound)
      split at hs <;> cases hs
      · exact hstack.of_workers (.setEntry rfl .rfl) ⟨rfl, rfl, rfl, rfl, rfl⟩
          (.setEntry rfl rfl (.of_state rfl id (.inl ⟨rfl, rfl⟩))) rfl
      · exact hstack
  | countDown m o c more =>
    cases hs
    refine ⟨h.ledger.countDown htop, h.sound.of_top
      (l := (if (s.entries c).remainingPredecessors = 1 then [Frame.decide c] else []) ++
        [Frame.edges m o more]) ?_ htop ?_ fun b hb => ?_⟩
    · exact .setEntry rfl rfl (.of_state rfl id (.inl ⟨rfl, rfl⟩))
    · simp [Run.setStack, Run.setEntry]
    · rcases List.mem_append.mp hb with hb | hb
      · split at hb
        · obtain rfl := List.mem_singleton.mp hb
          trivial
        · cases hb
      · obtain rfl := List.mem_singleton.mp hb
        exact hsound
  | decide m =>
    simp only [GraphExecution.stepFrame] at hs
    split at hs <;> cases hs
    · exact h.of_stack (l := [_]) htop (.decide_store _ (.inl rfl) _ _)
        (by simp [Frame.Sound, TaskState.terminal])
    · exact h.of_stack (l := [_]) htop .decide_cancel (by simp [Frame.Sound])
  | decideCancel m =>
    simp only [GraphExecution.stepFrame] at hs
    split at hs <;> cases hs
    · exact h.of_stack (l := [_]) htop (.decide_store _ (.inr rfl) _ _)
        (by simp [Frame.Sound, TaskState.terminal])
    · exact h.of_stack (l := [_]) htop .decide_post (by simp [Frame.Sound])
  | post m =>
    cases hs
    exact ⟨h.ledger.post htop, h.sound.of_top (l := []) (.of_same rfl rfl) htop rfl (by simp)⟩

/-- **Every step of a run keeps the books**, as long as completions are seen in time. -/
theorem step {a : Label n k E} (h : Books g s) (hok : ChecksInTime s a)
    (hs : step g s a = some s') : Books g s' := by
  cases a with
  | postRoot =>
    simp only [GraphExecution.step] at hs
    split at hs <;> cases hs
    case h_1 m roots hr =>
      exact ⟨h.ledger.postRoot hr, h.sound.of_workers (.of_same rfl rfl) rfl⟩
  | claim w m resume =>
    simp only [GraphExecution.step] at hs
    split at hs
    case isFalse => cases hs
    case isTrue hq =>
      cases hs
      refine ⟨h.ledger.claim hq.1, h.sound.of_moves (.of_same rfl rfl) fun v b hb => ?_⟩
      dsimp only [Run.setStack] at hb
      by_cases hv : v = w
      · subst hv
        rw [Function.update_self] at hb
        rcases List.mem_cons.mp hb with rfl | hb
        · exact .inr trivial
        · exact .inl hb
      · rw [Function.update_of_ne hv] at hb
        exact .inl hb
  | step w =>
    simp only [GraphExecution.step] at hs
    split at hs
    case h_1 frame rest htop => exact h.stepFrame htop hok hs
    case h_2 => cases hs
  | finish w result =>
    simp only [GraphExecution.step] at hs
    split at hs <;> cases hs
    case h_1 m rest htop => exact h.finish htop
  | suspend w =>
    simp only [GraphExecution.step] at hs
    split at hs
    case h_1 m rest htop =>
      split at hs <;> cases hs
      refine ⟨h.ledger.suspend htop rfl rfl, h.sound.of_top (l := [_]) ?_ htop rfl
        (by simp [Frame.Sound])⟩
      refine .setEntry rfl rfl (.of_state rfl (fun ht => ?_) ?_)
      · cases hstate : (s.entries m).taskState <;> simp_all [TaskState.terminal]
      · dsimp only
        split
        · exact .inr TaskState.noConfusion
        · exact .inl ⟨rfl, rfl⟩
    case h_2 => cases hs
  | awake m =>
    simp only [GraphExecution.step] at hs
    split at hs
    case isFalse => cases hs
    case isTrue hbody =>
      cases hs
      exact ⟨h.ledger.awake hbody rfl BodyState.noConfusion,
        h.sound.of_workers (.setEntry rfl rfl (.of_state rfl id (.inl ⟨rfl, rfl⟩))) rfl⟩
  | requestCancel =>
    cases hs
    exact h.of_workers ⟨fun _ => rfl, fun _ => .rfl, rfl, rfl, rfl, rfl, rfl, fun _ => .inl⟩
      ⟨rfl, rfl, rfl, rfl, rfl⟩ (.of_same rfl rfl) rfl
  | cancelNode j =>
    simp only [GraphExecution.step] at hs
    split at hs <;> cases hs
    case h_1 m rest hj =>
      split
      · refine h.of_workers ((SamePlaces.requestTaskCancel s m).trans ?_)
          ((SameTotals.requestTaskCancel s m).trans ⟨rfl, rfl, rfl, rfl, rfl⟩)
          ((Moves.requestTaskCancel s m).trans (.of_same rfl rfl)) ?_
        · exact ⟨fun _ => rfl, fun _ => .rfl, rfl, rfl, rfl, rfl, rfl, fun _ => .inl⟩
        · change (s.requestTaskCancel m).workers = s.workers
          unfold Run.requestTaskCancel
          split <;> rfl
      · exact h.of_workers ⟨fun _ => rfl, fun _ => .rfl, rfl, rfl, rfl, rfl, rfl, fun _ => .inl⟩
          ⟨rfl, rfl, rfl, rfl, rfl⟩ (.of_same rfl rfl) rfl
    case h_2 hj =>
      exact h.of_workers ⟨fun _ => rfl, fun _ => .rfl, rfl, rfl, rfl, rfl, rfl, fun _ => .inl⟩
        ⟨rfl, rfl, rfl, rfl, rfl⟩ (.of_same rfl rfl) rfl

theorem initial (g : FrozenTaskGraph n) : Books g (initial g : Run n k E) := by
  have hempty : ∀ f : Frame n E → Nat, weight f (GraphExecution.initial g : Run n k E).workers = 0 :=
    fun f => weight_empty f fun _ => rfl
  have hroots : ∀ m, (GraphExecution.initial g : Run n k E).roots.count m =
      if g.indegree m = 0 then 1 else 0 := by
    intro m
    dsimp only [GraphExecution.initial]
    split
    case isTrue hzero =>
      rw [List.count_filter (by simpa using hzero)]
      exact List.count_eq_one_of_mem (List.nodup_finRange n) (List.mem_finRange m)
    case isFalse hpos =>
      refine List.count_eq_zero.mpr fun hmem => hpos ?_
      simpa using (List.mem_filter.mp hmem).2
  have htoken : ∀ m, tokens (GraphExecution.initial g : Run n k E) m =
      if g.indegree m = 0 then 1 else 0 := by
    intro m
    rw [tokens, hempty, hroots]
    simp [GraphExecution.initial]
  refine ⟨⟨⟨fun m => ?_, fun m => ?_, fun m => ?_, fun m => ?_, fun m hm => ?_⟩,
    ⟨?_, fun o ho => ?_, fun m => ?_, ?_, rfl, fun r hr => ?_⟩⟩,
    ⟨fun w a ha => ?_, fun m hm => ?_, fun m o ho => ?_⟩⟩
  · rw [htoken]
    simp [GraphExecution.initial]
  · rw [hempty]
    simp [GraphExecution.initial]
  · rw [hempty]
    rfl
  · rw [hempty, htoken, hroots]
    simp [GraphExecution.initial]
  · cases hm
  · rw [hempty]
    simp [GraphExecution.initial]
  · rw [hempty]
    cases o <;> rfl
  · rw [hempty]
    rfl
  · rw [hempty, if_neg]
    · rfl
    · rintro ⟨hzero, hn⟩
      simp only [GraphExecution.initial] at hzero
      omega
  · cases hr
  · cases ha
  · cases hm
  · cases ho

/-- The books of every run that sees completions in time. -/
theorem of_reachable (h : (machine g k E).ReachableUnder ChecksInTime s) : Books g s := by
  refine h.invariant (Books g) ?_ ?_
  · rintro s rfl
    exact initial g
  · intro s a s' hbooks hok hs
    exact hbooks.step hok hs

end Books

end GraphExecution
end AstraScheduler
