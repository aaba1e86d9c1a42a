import AstraScheduler.GlobalClaims
import AstraScheduler.HeapOrder

/-! # The order in the global queues

Of each operation but the sweep only its effect on the global containers matters here:
`GlobalPush` and `GlobalPop` list what an operation can do to them.  From it follow that the
heaps are ordered by deadline and publication and that the FIFOs hold their tasks in the order
of publication. -/

namespace AstraScheduler
namespace QueueOrder
open LinkedReadyQueues QueueConservation
open BinaryHeap (Ordered StrictWeakOrder)

variable {I : Type}

/-- By deadline, then by admission. -/
theorem edfEntry_order : StrictWeakOrder (EdfEntry.before (I := I)) where
  irrefl a := by simp [EdfEntry.before, EdfEntry.greater]
  trans {a b c} := by
    simp only [EdfEntry.before, EdfEntry.greater, ne_eq, ite_not]
    split <;> split <;> split <;> simp only [decide_eq_true_eq] <;> omega
  notBefore {a b c} := by
    simp only [EdfEntry.before, EdfEntry.greater, ne_eq, ite_not]
    split <;> split <;> split <;> simp only [decide_eq_false_iff_not] <;> omega

theorem before_eq_false {a b : EdfEntry I} (h : EdfEntry.before b a = false) :
    a.deadline < b.deadline ∨
      a.deadline = b.deadline ∧ a.admissionSequence ≤ b.admissionSequence := by
  simp only [EdfEntry.before, EdfEntry.greater, ne_eq, ite_not] at h
  split at h <;> simp only [decide_eq_false_iff_not] at h <;> omega

/-- What a pop hands out was first in the heap. -/
theorem popEdf_first {rq rq' : LinkedReadyQueues I} {p : Priority} {t : QueuedTask I}
    (h : Ordered EdfEntry.before (rq.globalEdfHeaps p)) (hp : rq.popEdf p = some (t, rq')) :
    ∃ e ∈ rq.globalEdfHeaps p, e.task = t ∧
      (∀ f ∈ rq.globalEdfHeaps p, EdfEntry.before f e = false) ∧
      Ordered EdfEntry.before (rq'.globalEdfHeaps p) ∧
      rq'.globalEdfHeaps p ⊆ rq.globalEdfHeaps p := by
  simp only [popEdf, Option.map_eq_some_iff, Prod.mk.injEq] at hp
  obtain ⟨last, hlast, rfl, rfl⟩ := hp
  have hperm := BinaryHeap.popHeap_perm EdfEntry.before (rq.globalEdfHeaps p)
  cases hfirst : (rq.globalEdfHeaps p)[0]? with
  | none =>
    rw [List.getElem?_eq_none_iff, Nat.le_zero, List.length_eq_zero_iff] at hfirst
    rw [hfirst] at hperm hlast
    rw [hperm.eq_nil] at hlast
    cases hlast
  | some first =>
    obtain ⟨rest, hpop, hrest⟩ := h.popHeap edfEntry_order hfirst
    rw [hpop, List.getLast?_concat] at hlast
    obtain rfl := Option.some.inj hlast
    rw [hpop] at hperm
    refine ⟨first, List.mem_of_getElem? hfirst, rfl, fun f hf => ?_, ?_, ?_⟩
    · obtain ⟨i, hi⟩ := List.mem_iff_getElem?.mp hf
      exact h.first edfEntry_order hfirst hi
    · simpa [hpop] using hrest
    · intro f hf
      refine hperm.subset (List.mem_append_left _ ?_)
      simpa [hpop] using hf

theorem popEdf_other {rq rq' : LinkedReadyQueues I} {p q : Priority} {t : QueuedTask I}
    (hp : rq.popEdf p = some (t, rq')) (hq : q ≠ p) :
    rq'.globalEdfHeaps q = rq.globalEdfHeaps q := by
  simp only [popEdf, Option.map_eq_some_iff, Prod.mk.injEq] at hp
  obtain ⟨_, -, -, rfl⟩ := hp
  exact Function.update_of_ne hq ..

theorem popEdf_sequence {rq rq' : LinkedReadyQueues I} {p : Priority} {t : QueuedTask I}
    (hp : rq.popEdf p = some (t, rq')) :
    rq'.globalAdmissionSequence = rq.globalAdmissionSequence := by
  simp only [popEdf, Option.map_eq_some_iff, Prod.mk.injEq] at hp
  obtain ⟨_, -, -, rfl⟩ := hp
  rfl

/-- A pushed entry has the greatest sequence. -/
theorem mem_pushEdf {rq : LinkedReadyQueues I} {t : QueuedTask I} {band p : Priority}
    {deadline : Nat} {e : EdfEntry I} (he : e ∈ (rq.pushEdf t band deadline).globalEdfHeaps p) :
    e ∈ rq.globalEdfHeaps p ∨ e = ⟨deadline, rq.globalAdmissionSequence + 1, t⟩ := by
  by_cases hp : p = band
  · subst hp
    simp only [pushEdf, Function.update_self] at he
    simpa using (BinaryHeap.pushHeap_perm ..).subset he
  · simp only [pushEdf, Function.update_of_ne hp] at he
    exact .inl he

/-! ## What an operation does to the global queues -/

/-- Nothing is put into or taken out of a heap. -/
structure SameHeaps (rq rq' : LinkedReadyQueues I) : Prop where
  heaps : rq'.globalEdfHeaps = rq.globalEdfHeaps
  sequence : rq'.globalAdmissionSequence = rq.globalAdmissionSequence

/-- The effect of an operation that neither claims from the global queues nor sweeps. -/
inductive GlobalPush [TaskInvokerBase I] (r r' : QueueRun I) : Prop
  | kept (published : r.publishedInvokers <+: r'.publishedInvokers)
      (heaps : SameHeaps r.queues r'.queues)
      (fifos : ∀ p, r'.queues.tasksAt (.fifo p) = r.queues.tasksAt (.fifo p))
  | edf (t : QueuedTask I) (band : Priority) (deadline : Nat)
      (fresh : t.invoker ∉ r.publishedInvokers)
      (published : r'.publishedInvokers = r.publishedInvokers ++ [t.invoker])
      (due : TaskInvokerBase.deadline t.invoker = some deadline)
      (heaps : SameHeaps (r.queues.pushEdf t band deadline) r'.queues)
      (fifos : ∀ p, r'.queues.tasksAt (.fifo p) = r.queues.tasksAt (.fifo p))
  | fifo (t : QueuedTask I) (band : Priority)
      (published : r'.publishedInvokers = r.publishedInvokers ++ [t.invoker])
      (heaps : SameHeaps r.queues r'.queues)
      (pushed : r'.queues.tasksAt (.fifo band) = r.queues.tasksAt (.fifo band) ++ [t])
      (fifos : ∀ p, p ≠ band → r'.queues.tasksAt (.fifo p) = r.queues.tasksAt (.fifo p))

/-- The effect of a successful global claim. -/
inductive GlobalPop (r r' : QueueRun I) : Prop
  | edf (t : QueuedTask I) (band : Priority) (rq : LinkedReadyQueues I)
      (published : r'.publishedInvokers = r.publishedInvokers)
      (popped : r.queues.popEdf band = some (t, rq)) (heaps : SameHeaps rq r'.queues)
      (fifos : ∀ p, r'.queues.tasksAt (.fifo p) = r.queues.tasksAt (.fifo p))
  | fifo (t : QueuedTask I) (band : Priority)
      (published : r'.publishedInvokers = r.publishedInvokers)
      (heaps : SameHeaps r.queues r'.queues)
      (popped : r.queues.tasksAt (.fifo band) = t :: r'.queues.tasksAt (.fifo band))
      (fifos : ∀ p, p ≠ band → r'.queues.tasksAt (.fifo p) = r.queues.tasksAt (.fifo p))

section Steps
variable [DecidableEq I] {r r' : QueueRun I} {rq rq' : LinkedReadyQueues I}

theorem pushLocal_sameHeaps {w : Nat} {t : QueuedTask I} {p : Priority} {b : Bool}
    (h : rq.pushLocal w t p = (rq', b)) : SameHeaps rq rq' := by
  unfold pushLocal at h
  split at h
  · obtain rfl := (Prod.mk.inj h).1
    exact ⟨rfl, rfl⟩
  · dsimp only at h
    split at h <;> obtain rfl := (Prod.mk.inj h).1 <;> exact ⟨rfl, rfl⟩

theorem claimFrom_sameHeaps {w index : Nat} {owner : Bool} {contended : Priority → Bool}
    {c : Claimed I} (h : rq.claimFrom w index owner contended = some c) :
    SameHeaps rq c.queues := by
  unfold claimFrom at h
  split at h
  · obtain ⟨d, hd, rfl⟩ := Option.map_eq_some_iff.mp h
    unfold claimEnd at hd
    split at hd <;> obtain ⟨_, _, rfl⟩ := Option.map_eq_some_iff.mp hd <;> exact ⟨rfl, rfl⟩
  · cases h

theorem popFifo_sameHeaps {t : QueuedTask I} {p : Priority} (h : rq.popFifo p = some (t, rq')) :
    SameHeaps rq rq' := by
  simp only [popFifo, Option.map_eq_some_iff, Prod.mk.injEq, Prod.exists] at h
  obtain ⟨_, _, _, -, rfl, rfl⟩ := h
  exact ⟨rfl, rfl⟩

theorem idxOf_of_isPrefix {xs ys : List I} (h : xs <+: ys) {i : I} (hi : i ∈ xs) :
    ys.idxOf i = xs.idxOf i := by
  obtain ⟨zs, rfl⟩ := h
  exact List.idxOf_append_of_mem hi

/-- A list in the order of another. -/
theorem idxOf_le_of_sublist {xs ys : List I} {i j : I} (hnd : ys.Nodup)
    (h : (i :: xs).Sublist ys) (hj : j ∈ xs) : ys.idxOf i ≤ ys.idxOf j := by
  induction ys with
  | nil => cases h
  | cons y ys ih =>
    obtain ⟨hy, hnd⟩ := List.nodup_cons.mp hnd
    by_cases hyi : y = i
    · rw [hyi, List.idxOf_cons_self]
      exact Nat.zero_le _
    · have hsub : (i :: xs).Sublist ys := by
        rcases List.sublist_cons_iff.mp h with h | ⟨_, heq, -⟩
        · exact h
        · exact absurd (List.cons.inj heq).1.symm hyi
      have hyj : y ≠ j := fun heq => hy (heq ▸ hsub.subset (List.mem_cons_of_mem i hj))
      rw [List.idxOf_cons_ne _ hyi, List.idxOf_cons_ne _ hyj]
      exact Nat.succ_le_succ (ih hnd hsub)

variable [TaskInvokerBase I]

theorem globalPush_publish (h : Accounted r) {task : I} (hnew : task ∉ r.publishedInvokers)
    (isExternal useLocalQueue : Bool) (workerIndex : Nat) :
    GlobalPush r { r with
      queues := r.queues.publish task isExternal useLocalQueue workerIndex
      published := r.published ++ [⟨task, isExternal⟩] } := by
  have hfresh : ∀ u ∈ r.queues.queued, u.invoker ≠ task := by
    rintro u hu rfl
    exact hnew (h.queued_published hu)
  have hpublished : (r.published ++ [(⟨task, isExternal⟩ : QueuedTask I)]).map (·.invoker) =
      r.publishedInvokers ++ [task] := by
    rw [List.map_append, List.map_singleton, QueueRun.publishedInvokers]
  have hglobal : ∀ b, ∀ rq', SameHeaps r.queues rq' → WellLinked rq' →
      (∀ l, rq'.tasksAt l = r.queues.tasksAt l) →
      GlobalPush r { r with
        queues := rq'.pushFifo ⟨task, isExternal⟩ b
        published := r.published ++ [⟨task, isExternal⟩] } := by
    intro b rq' hheaps hwell htasks
    have hfresh' : ∀ u ∈ rq'.queued, u.invoker ≠ task := by
      intro u hu
      rw [queued_eq] at hu
      obtain ⟨l, -, hul⟩ := List.mem_flatMap.mp hu
      exact hfresh u (h.wellLinked.mem_queued (htasks l ▸ hul))
    obtain ⟨hpush, honly⟩ := pushFifo_at (t := ⟨task, isExternal⟩) hwell hfresh' b
    refine .fifo ⟨task, isExternal⟩ b hpublished ⟨hheaps.heaps, hheaps.sequence⟩ ?_ ?_
    · exact hpush.trans (by rw [htasks])
    · exact fun p hp => (honly.other _ (by simpa using hp)).trans (htasks _)
  unfold publish
  split
  case h_1 deadline hdeadline hresume =>
    obtain ⟨-, honly⟩ := pushEdf_at h.wellLinked ⟨task, isExternal⟩
      (TaskInvokerBase.priority task) deadline
    exact .edf ⟨task, isExternal⟩ _ deadline hnew hpublished hdeadline ⟨rfl, rfl⟩
      fun p => honly.other _ (by simp)
  case h_2 =>
    split
    case isFalse => exact hglobal _ _ ⟨rfl, rfl⟩ h.wellLinked fun _ => rfl
    case isTrue huse =>
      rcases hpush : r.queues.pushLocal workerIndex ⟨task, false⟩ (TaskInvokerBase.priority task)
        with ⟨pushed, _ | _⟩
      case true =>
        simp only [hpush]
        obtain ⟨-, honly⟩ := pushLocal_at (t := ⟨task, false⟩) h.wellLinked hfresh hpush
        exact .kept ⟨[task], hpublished.symm⟩ (pushLocal_sameHeaps hpush)
          fun p => honly.other _ (by simp)
      case false =>
        simp only [hpush]
        obtain ⟨-, -, htasks, -⟩ :=
          pushLocal_failed (t := ⟨task, false⟩) h.wellLinked hfresh hpush
        obtain ⟨hwell, -⟩ :=
          pushLocal_failed_queued (t := ⟨task, false⟩) h.wellLinked hfresh hpush
        exact hglobal _ pushed (pushLocal_sameHeaps hpush) hwell htasks

theorem globalPop_claimGlobal (h : Accounted r) (index : Nat) (bursts : Priority → Nat) :
    r.claim .globalQueues ((r.queues.claimGlobal index bursts).map (·.1)) = r ∨
      GlobalPop r (r.claim .globalQueues ((r.queues.claimGlobal index bursts).map (·.1))) := by
  cases hc : r.queues.claimGlobal index bursts with
  | none => exact .inl rfl
  | some c =>
    refine .inr ?_
    obtain ⟨p, rq, burst, hband, hqueues, -⟩ := GlobalClaims.claimGlobal_band h.wellLinked hc
    have hsame : c.1.queues = rq.countClaim := hqueues
    rcases GlobalClaims.claimGlobalBandLocked_cases h.wellLinked hband with ⟨hpop, -⟩ | ⟨hpop, -⟩
    · obtain ⟨-, honly⟩ := popEdf_at h.wellLinked hpop
      refine .edf _ p rq rfl hpop ?_ fun q => ?_
      · show SameHeaps rq c.1.queues
        rw [hsame]
        exact ⟨rfl, rfl⟩
      · show c.1.queues.tasksAt (.fifo q) = _
        rw [hsame]
        exact honly.countClaim.other _ (by simp)
    · obtain ⟨htasks, honly⟩ := popFifo_at h.wellLinked hpop
      have hheaps := popFifo_sameHeaps hpop
      refine .fifo c.1.out p rfl ?_ ?_ fun q hq => ?_
      · show SameHeaps r.queues c.1.queues
        rw [hsame]
        exact ⟨hheaps.heaps, hheaps.sequence⟩
      · show _ = _ :: c.1.queues.tasksAt (.fifo p)
        rw [hsame]
        exact htasks
      · show c.1.queues.tasksAt (.fifo q) = _
        rw [hsame]
        exact honly.countClaim.other _ (by simpa using hq)

theorem globalPush_claimFrom (h : Accounted r) (source : ClaimSource) (w index : Nat)
    (owner : Bool) (contended : Priority → Bool) :
    GlobalPush r (r.claim source (r.queues.claimFrom w index owner contended)) := by
  cases hc : r.queues.claimFrom w index owner contended with
  | none => exact .kept List.prefix_rfl ⟨rfl, rfl⟩ fun _ => rfl
  | some c =>
    obtain ⟨k, hk, -, honly⟩ := claimFrom_at h.wellLinked hc
    refine .kept List.prefix_rfl (claimFrom_sameHeaps hc) fun p => honly.other _ ?_
    rintro rfl
    obtain ⟨_, _, heq, -⟩ := QueuePlace.mem_localPlaces hk
    cases heq

/-- **The step lemma** of every operation but the global claim and the sweep. -/
theorem globalPush (h : Accounted r) {op : QueueOp I} (hs : machine.next r op = some r')
    (hclaim : ∀ index bursts, op ≠ .claimGlobal index bursts) (hsweep : op ≠ .cancelUnstarted) :
    GlobalPush r r' := by
  simp only [machine] at hs
  cases op with
  | publish task isExternal useLocalQueue workerIndex =>
    simp only [QueueRun.next, Option.ite_none_left_eq_some, Option.some.injEq] at hs
    obtain ⟨hnew, rfl⟩ := hs
    exact globalPush_publish h hnew ..
  | claimLocal w index =>
    obtain rfl := Option.some.inj hs
    exact globalPush_claimFrom h ..
  | claimGlobal index bursts => exact absurd rfl (hclaim index bursts)
  | steal w index contended =>
    obtain rfl := Option.some.inj hs
    exact globalPush_claimFrom h ..
  | completeClaim =>
    obtain rfl := Option.some.inj hs
    exact .kept List.prefix_rfl ⟨rfl, rfl⟩ fun _ => rfl
  | cancelUnstarted => exact absurd rfl hsweep
  | ringRoom w band room =>
    obtain rfl := Option.some.inj hs
    exact .kept List.prefix_rfl ⟨rfl, rfl⟩ fun _ => rfl

/-! ## The order -/

/-- The heaps are ordered by what their tasks ask for and when they were published, the FIFOs
by when they were published. -/
structure InOrder (r : QueueRun I) : Prop where
  ordered : ∀ p, Ordered EdfEntry.before (r.queues.globalEdfHeaps p)
  due : ∀ p, ∀ e ∈ r.queues.globalEdfHeaps p,
    TaskInvokerBase.deadline e.task.invoker = some e.deadline
  numbered : ∀ p, ∀ e ∈ r.queues.globalEdfHeaps p,
    e.admissionSequence ≤ r.queues.globalAdmissionSequence
  sequences : ∀ p, ∀ e ∈ r.queues.globalEdfHeaps p, ∀ f ∈ r.queues.globalEdfHeaps p,
    e.admissionSequence ≤ f.admissionSequence →
      r.publishedInvokers.idxOf e.task.invoker ≤ r.publishedInvokers.idxOf f.task.invoker
  fifos : ∀ p, ((r.queues.tasksAt (.fifo p)).map (·.invoker)).Sublist r.publishedInvokers

theorem mem_published (h : Accounted r) {p : Priority} {e : EdfEntry I}
    (he : e ∈ r.queues.globalEdfHeaps p) : e.task.invoker ∈ r.publishedInvokers :=
  h.queued_published (h.wellLinked.mem_queued (k := .edf p) (List.mem_map_of_mem he))

/-- The heaps are as they were, or some entries have left them. -/
theorem InOrder.shrink (h : InOrder r) (hacc : Accounted r)
    (hpublished : r.publishedInvokers <+: r'.publishedInvokers)
    (hordered : ∀ p, Ordered EdfEntry.before (r'.queues.globalEdfHeaps p))
    (hsub : ∀ p, r'.queues.globalEdfHeaps p ⊆ r.queues.globalEdfHeaps p)
    (hsequence : r'.queues.globalAdmissionSequence = r.queues.globalAdmissionSequence)
    (hfifos : ∀ p, ((r'.queues.tasksAt (.fifo p)).map (·.invoker)).Sublist r'.publishedInvokers) :
    InOrder r' where
  ordered := hordered
  due p e he := h.due p e (hsub p he)
  numbered p e he := hsequence ▸ h.numbered p e (hsub p he)
  sequences p e he f hf hle := by
    rw [idxOf_of_isPrefix hpublished (mem_published hacc (hsub p he)),
      idxOf_of_isPrefix hpublished (mem_published hacc (hsub p hf))]
    exact h.sequences p e (hsub p he) f (hsub p hf) hle
  fifos := hfifos

theorem InOrder.sameHeaps (h : InOrder r) (hacc : Accounted r)
    (hpublished : r.publishedInvokers <+: r'.publishedInvokers)
    (hheaps : SameHeaps r.queues r'.queues)
    (hfifos : ∀ p, ((r'.queues.tasksAt (.fifo p)).map (·.invoker)).Sublist r'.publishedInvokers) :
    InOrder r' :=
  h.shrink hacc hpublished (fun p => hheaps.heaps ▸ h.ordered p)
    (fun _ => hheaps.heaps ▸ List.Subset.refl _) hheaps.sequence hfifos

theorem InOrder.pushEdf (h : InOrder r) (hacc : Accounted r) {t : QueuedTask I}
    {band : Priority} {deadline : Nat} (hfresh : t.invoker ∉ r.publishedInvokers)
    (hpublished : r'.publishedInvokers = r.publishedInvokers ++ [t.invoker])
    (hdue : TaskInvokerBase.deadline t.invoker = some deadline)
    (hheaps : SameHeaps (r.queues.pushEdf t band deadline) r'.queues)
    (hfifos : ∀ p, r'.queues.tasksAt (.fifo p) = r.queues.tasksAt (.fifo p)) : InOrder r' := by
  have hmem : ∀ {p e}, e ∈ r'.queues.globalEdfHeaps p → e ∈ r.queues.globalEdfHeaps p ∨
      e = ⟨deadline, r.queues.globalAdmissionSequence + 1, t⟩ := by
    intro p e he
    rw [hheaps.heaps] at he
    exact mem_pushEdf he
  have hprefix : r.publishedInvokers <+: r'.publishedInvokers :=
    hpublished ▸ List.prefix_append ..
  have hlast : r'.publishedInvokers.idxOf t.invoker = r.publishedInvokers.length := by
    rw [hpublished, List.idxOf_append_of_notMem hfresh, List.idxOf_cons_self, Nat.add_zero]
  refine ⟨fun p => ?_, fun p e he => ?_, fun p e he => ?_, fun p e he f hf hle => ?_, fun p => ?_⟩
  · by_cases hp : p = band
    · subst hp
      rw [hheaps.heaps]
      simp only [LinkedReadyQueues.pushEdf, Function.update_self]
      exact (h.ordered p).pushHeap edfEntry_order _
    · rw [hheaps.heaps]
      simp only [LinkedReadyQueues.pushEdf, Function.update_of_ne hp]
      exact h.ordered p
  · rcases hmem he with he | rfl
    · exact h.due p e he
    · exact hdue
  · rw [hheaps.sequence]
    show e.admissionSequence ≤ r.queues.globalAdmissionSequence + 1
    rcases hmem he with he | rfl
    · exact Nat.le_succ_of_le (h.numbered p e he)
    · exact Nat.le_refl _
  · rcases hmem he with he | rfl
    · have hidx := idxOf_of_isPrefix hprefix (mem_published hacc he)
      rcases hmem hf with hf | rfl
      · rw [hidx, idxOf_of_isPrefix hprefix (mem_published hacc hf)]
        exact h.sequences p e he f hf hle
      · rw [hidx, hlast]
        exact Nat.le_of_lt (List.idxOf_lt_length_of_mem (mem_published hacc he))
    · rcases hmem hf with hf | rfl
      · exact absurd hle (Nat.not_le_of_lt (Nat.lt_succ_of_le (h.numbered p f hf)))
      · exact Nat.le_refl _
  · rw [hfifos, hpublished]
    exact (h.fifos p).trans (List.sublist_append_left ..)

theorem InOrder.push (h : InOrder r) (hacc : Accounted r) (hs : GlobalPush r r') :
    InOrder r' := by
  cases hs with
  | kept hpublished hheaps hfifos =>
    exact h.sameHeaps hacc hpublished hheaps fun p =>
      hfifos p ▸ (h.fifos p).trans hpublished.sublist
  | edf t band deadline hfresh hpublished hdue hheaps hfifos =>
    exact h.pushEdf hacc hfresh hpublished hdue hheaps hfifos
  | fifo t band hpublished hheaps hpushed hfifos =>
    refine h.sameHeaps hacc (hpublished ▸ List.prefix_append ..) hheaps fun p => ?_
    by_cases hp : p = band
    · subst hp
      rw [hpushed, hpublished, List.map_append]
      exact (h.fifos p).append (List.Sublist.refl _)
    · rw [hfifos p hp, hpublished]
      exact (h.fifos p).trans (List.sublist_append_left ..)

theorem InOrder.pop (h : InOrder r) (hacc : Accounted r) (hs : GlobalPop r r') : InOrder r' := by
  cases hs with
  | edf t band rq hpublished hpopped hheaps hfifos =>
    obtain ⟨-, -, -, -, hordered, hsub⟩ := popEdf_first (h.ordered band) hpopped
    refine h.shrink hacc (hpublished ▸ List.prefix_rfl) (fun p => ?_) (fun p => ?_)
      (hheaps.sequence.trans (popEdf_sequence hpopped)) fun p => ?_
    · by_cases hp : p = band
      · subst hp
        rw [hheaps.heaps]
        exact hordered
      · rw [hheaps.heaps, popEdf_other hpopped hp]
        exact h.ordered p
    · by_cases hp : p = band
      · subst hp
        rw [hheaps.heaps]
        exact hsub
      · rw [hheaps.heaps, popEdf_other hpopped hp]
        exact List.Subset.refl _
    · rw [hfifos, hpublished]
      exact h.fifos p
  | fifo t band hpublished hheaps hpopped hfifos =>
    refine h.sameHeaps hacc (hpublished ▸ List.prefix_rfl) hheaps fun p => ?_
    rw [hpublished]
    refine List.Sublist.trans ?_ (h.fifos p)
    by_cases hp : p = band
    · subst hp
      rw [hpopped, List.map_cons]
      exact List.sublist_cons_self ..
    · rw [hfifos p hp]

theorem InOrder.init (h : machine.init r) : InOrder r := by
  obtain ⟨backend, n, rfl⟩ := h
  constructor <;> simp [Ordered, BinaryHeap.InOrder, tasksAt, LinkedFifo.nodes, LinkedFifo.walk]

theorem InOrder.step (h : InOrder r) (hacc : Accounted r) (op : QueueOp I)
    (hs : machine.next r op = some r') (hsweep : op ≠ .cancelUnstarted) : InOrder r' := by
  by_cases hclaim : ∀ index bursts, op ≠ .claimGlobal index bursts
  · exact h.push hacc (globalPush hacc hs hclaim hsweep)
  · push Not at hclaim
    obtain ⟨index, bursts, rfl⟩ := hclaim
    obtain rfl := Option.some.inj hs
    rcases globalPop_claimGlobal hacc index bursts with heq | hpop
    · rw [heq]
      exact h
    · exact h.pop hacc hpop

/-- A task leaves its heap ahead of another: by deadline, then by publication. -/
def Precedes (published : List I) (t u : QueuedTask I) : Prop :=
  ∃ d e, TaskInvokerBase.deadline t.invoker = some d ∧
    TaskInvokerBase.deadline u.invoker = some e ∧
    (d < e ∨ d = e ∧ published.idxOf t.invoker ≤ published.idxOf u.invoker)

/-- **The heap hands out the task that is due first.** -/
theorem InOrder.popEdf_precedes (h : InOrder r) {p : Priority} {t : QueuedTask I}
    (hp : r.queues.popEdf p = some (t, rq)) :
    t ∈ r.queues.tasksAt (.edf p) ∧
      ∀ u ∈ r.queues.tasksAt (.edf p), Precedes r.publishedInvokers t u := by
  obtain ⟨e, he, rfl, hfirst, -, -⟩ := popEdf_first (h.ordered p) hp
  refine ⟨List.mem_map_of_mem he, fun u hu => ?_⟩
  obtain ⟨f, hf, rfl⟩ := List.mem_map.mp hu
  refine ⟨_, _, h.due p e he, h.due p f hf, ?_⟩
  rcases before_eq_false (hfirst f hf) with hlt | ⟨heq, hle⟩
  · exact .inl hlt
  · exact .inr ⟨heq, h.sequences p e he f hf hle⟩

/-- **The FIFO hands out the task that was published first.** -/
theorem InOrder.popFifo_earliest (h : InOrder r) (hacc : Accounted r) {p : Priority}
    {t : QueuedTask I} {rest : List (QueuedTask I)} (hp : r.queues.tasksAt (.fifo p) = t :: rest) :
    ∀ u ∈ r.queues.tasksAt (.fifo p),
      r.publishedInvokers.idxOf t.invoker ≤ r.publishedInvokers.idxOf u.invoker := by
  intro u hu
  have hsub := h.fifos p
  rw [hp] at hu hsub
  rcases List.mem_cons.mp hu with rfl | hu
  · exact Nat.le_refl _
  · exact idxOf_le_of_sublist hacc.distinct hsub (List.mem_map_of_mem hu)

end Steps

end QueueOrder
end AstraScheduler
