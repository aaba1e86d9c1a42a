import AstraScheduler.GraphCancellation

/-! # What has not been posted has not begun

The first invoker of a node goes from the ready queue to a worker and is entered, once for
every time the node is posted.  Before that the node is cold, so a run that posts no
coroutine node runs like one of ordinary nodes. -/

namespace AstraScheduler
namespace GraphExecution

open WorkStacks

variable {n k : Nat} {E : Type} {g : FrozenTaskGraph n} {s s' : Run n k E}
variable {w : Fin k} {a : Frame n E} {rest l : List (Frame n E)} {m p : Fin n}

/-- The first invoker of `m` is claimed. -/
def Frame.first (m : Fin n) : Frame n E → Nat
  | .claimed p false => if p = m then 1 else 0
  | _ => 0

/-- The first invokers of `m` that were posted are in the queue, claimed or entered. -/
def Tallied (s : Run n k E) (m : Fin n) : Prop :=
  s.entered.count m + s.queue.count (m, false) + weight (Frame.first m) s.workers =
    s.posted.count m

/-- Where the first invokers are, and that nothing begins before they are entered. -/
structure Fresh (s : Run n k E) : Prop where
  tallied : ∀ m, Tallied s m
  cold : ∀ m ∉ s.entered, Cold s m

namespace Fresh

theorem initial : Fresh (initial g : Run n k E) where
  tallied := by
    intro m
    simp [Tallied, GraphExecution.initial, weight_empty]
  cold m _ := Cold.initial m

theorem entered_posted (h : Fresh s) (hm : m ∈ s.entered) : m ∈ s.posted := by
  have hfirst : _ = _ := h.tallied m
  have hpos := List.count_pos_iff.mpr hm
  exact List.count_pos_iff.mp (by omega)

theorem claimed_posted (h : Fresh s) (hm : .claimed m false ∈ s.workers w) : m ∈ s.posted := by
  have hfirst : _ = _ := h.tallied m
  have hle := le_weight (f := Frame.first m) hm
  simp only [Frame.first, if_true] at hle
  exact List.count_pos_iff.mp (by omega)

/-- A node whose code is running has been entered. -/
theorem code_entered (h : Fresh s) (hm : .code m ∈ s.workers w) : m ∈ s.entered := by
  by_contra hno
  exact (h.cold m hno).frame w _ hm rfl

/-- Frames without a first invoker give way to others without one. -/
theorem tallied_of_top (h : Fresh s) (htop : s.workers w = a :: rest)
    (hw : s'.workers = Function.update s.workers w (l ++ rest)) (hqueue : s'.queue = s.queue)
    (hposted : s'.posted = s.posted) (hentered : s'.entered = s.entered)
    (ha : Frame.first p a = 0) (hl : stackWeight (Frame.first p) l = 0) : Tallied s' p := by
  rw [Tallied, weight_same htop hw (hl.trans ha.symm), hqueue, hposted, hentered]
  exact h.tallied p

/-- The node is entered. -/
theorem tallied_enter {resume : Bool} (h : Fresh s) (htop : s.workers w = .claimed m resume :: rest)
    (p : Fin n) : Tallied (enter g s w rest m resume) p := by
  cases resume with
  | true =>
    exact h.tallied_of_top (l := [.code m]) htop rfl rfl rfl rfl rfl rfl
  | false =>
    -- one frame less holds the invoker, and one entry more is made
    have hnew : ∀ b : Frame n E, Frame.first p b = 0 →
        weight (Frame.first p) (Function.update s.workers w (b :: rest)) +
          (if m = p then 1 else 0) = weight (Frame.first p) s.workers := by
      intro b hb
      have hweight := weight_one htop b (Frame.first p)
      rw [hb] at hweight
      exact hweight
    have hcount : (m :: s.entered).count p = s.entered.count p + if m = p then 1 else 0 := by
      rw [List.count_cons]
      simp
    have hfirst : _ = _ := h.tallied p
    unfold enter
    rw [if_neg Bool.false_ne_true]
    dsimp only
    split
    · split
      · have hweight := hnew (.cancelTask m) rfl
        dsimp only [Tallied, Run.setStack]
        omega
      · have hweight := hnew (.storeOutcome m .cancelled none) rfl
        dsimp only [Tallied, Run.setStack]
        omega
    · have hweight := hnew (.code m) rfl
      dsimp only [Tallied, Run.setStack, Run.setEntry]
      omega

/-- A node is posted. -/
theorem tallied_post (h : Fresh s) (hqueue' : s'.queue = s.queue ++ [(m, false)])
    (hposted' : s'.posted = m :: s.posted) (hentered : s'.entered = s.entered)
    (hw : weight (Frame.first p) s'.workers = weight (Frame.first p) s.workers) : Tallied s' p := by
  have hfirst : _ = _ := h.tallied p
  have hqueue : (s.queue ++ [(m, false)]).count (p, false) =
      s.queue.count (p, false) + if m = p then 1 else 0 := by
    rw [List.count_append, List.count_singleton]
    simp
  have hposted : (m :: s.posted).count p = s.posted.count p + if m = p then 1 else 0 := by
    rw [List.count_cons]
    simp
  rw [Tallied, hqueue', hposted', hentered, hw]
  omega

theorem tallied_stepFrame (h : Fresh s) (htop : s.workers w = a :: rest)
    (hs : stepFrame g s w rest a = some s') (p : Fin n) : Tallied s' p := by
  cases a with
  | claimed m resume =>
    cases hs
    exact h.tallied_enter htop p
  | cancelTask m =>
    cases hs
    have hsame := SameButState.requestTaskCancel s m
    have hposted : (s.requestTaskCancel m).posted = s.posted := by
      unfold Run.requestTaskCancel
      split <;> rfl
    refine h.tallied_of_top (l := [.code m]) htop ?_ hsame.queue hposted hsame.entered
      rfl rfl
    dsimp only [Run.setStack, Run.setEntry]
    rw [hsame.workers]
    rfl
  | code m => cases hs
  | check m suspended =>
    simp only [stepFrame] at hs
    split at hs <;> cases hs
    · exact h.tallied_of_top (l := [_]) htop rfl rfl rfl rfl rfl rfl
    · exact h.tallied_of_top (l := []) htop rfl rfl rfl rfl rfl rfl
  | readState m | storeOutcome m o e | record m o e | complete m | trigger m =>
    cases hs
    exact h.tallied_of_top (l := [_]) htop rfl rfl rfl rfl rfl rfl
  | countNode m =>
    cases hs
    refine h.tallied_of_top (l := [_]) htop rfl rfl rfl rfl rfl ?_
    split <;> rfl
  | edges m o successors =>
    cases successors with
    | nil =>
      cases hs
      exact h.tallied_of_top (l := []) htop rfl rfl rfl rfl rfl rfl
    | cons c more =>
      simp only [stepFrame] at hs
      split at hs <;> cases hs <;>
        exact h.tallied_of_top (l := [_]) htop rfl rfl rfl rfl rfl rfl
  | countDown m o c more =>
    cases hs
    refine h.tallied_of_top (l := (if (s.entries c).remainingPredecessors = 1 then [Frame.decide c]
      else []) ++ [Frame.edges m o more]) htop (by simp [Run.setStack, Run.setEntry]) rfl rfl rfl
      rfl ?_
    split <;> rfl
  | decide m | decideCancel m =>
    simp only [stepFrame] at hs
    split at hs <;> cases hs <;>
      exact h.tallied_of_top (l := [_]) htop rfl rfl rfl rfl rfl rfl
  | post m =>
    cases hs
    exact h.tallied_post rfl rfl rfl (weight_same (l := []) htop rfl rfl)

theorem tallied_step {b : Label n k E} (h : Fresh s) (hs : step g s b = some s') (p : Fin n) :
    Tallied s' p := by
  cases b with
  | postRoot =>
    simp only [step] at hs
    split at hs <;> cases hs
    exact h.tallied_post rfl rfl rfl rfl
  | claim w m resume =>
    simp only [step] at hs
    split at hs
    case isFalse => cases hs
    case isTrue hq =>
      cases hs
      have hfirst : _ = _ := h.tallied p
      have hweight : weight (Frame.first p)
          (Function.update s.workers w (.claimed m resume :: s.workers w)) =
            weight (Frame.first p) s.workers + Frame.first p (.claimed m resume : Frame n E) :=
        weight_push [Frame.claimed m resume]
      have hcount : s.queue.count (p, false) = (s.queue.erase (m, resume)).count (p, false) +
          Frame.first p (.claimed m resume : Frame n E) := by
        rw [(List.perm_cons_erase hq.1).count_eq, List.count_cons]
        cases resume <;> simp [Frame.first]
      dsimp only [Tallied, Run.setStack]
      omega
  | step w =>
    simp only [step] at hs
    split at hs
    case h_1 frame rest htop => exact h.tallied_stepFrame htop hs p
    case h_2 => cases hs
  | finish w result =>
    simp only [step] at hs
    split at hs <;> cases hs
    case h_1 m rest htop =>
      unfold finish
      dsimp only
      split <;>
        exact h.tallied_of_top (l := [_]) htop rfl rfl rfl rfl rfl rfl
  | suspend w =>
    simp only [step] at hs
    split at hs
    case h_1 m rest htop =>
      split at hs <;> cases hs
      exact h.tallied_of_top (l := [_]) htop rfl rfl rfl rfl rfl rfl
    case h_2 => cases hs
  | awake m =>
    simp only [step] at hs
    split at hs <;> cases hs
    have hqueue : (s.queue ++ [(m, true)]).count (p, false) = s.queue.count (p, false) := by
      simp [List.count_append]
    have hfirst : _ = _ := h.tallied p
    dsimp only [Tallied, Run.setEntry]
    omega
  | requestCancel =>
    cases hs
    exact h.tallied p
  | cancelNode j =>
    simp only [step] at hs
    split at hs <;> cases hs
    case h_1 m rest hj =>
      have hposted : (s.requestTaskCancel m).posted = s.posted := by
        unfold Run.requestTaskCancel
        split <;> rfl
      have hsame := SameButState.requestTaskCancel s m
      split
      · dsimp only [Tallied]
        rw [hsame.entered, hsame.queue, hsame.workers, hposted]
        exact h.tallied p
      · exact h.tallied p
    case h_2 hj => exact h.tallied p

theorem step {b : Label n k E} (h : Fresh s) (hs : step g s b = some s') : Fresh s' where
  tallied p := h.tallied_step hs p
  cold := by
    intro p hp
    obtain ⟨hentered, hnew⟩ := step_entered hs
    refine (h.cold p fun hmem => hp (hentered hmem)).step (fun w rest hb htop => ?_) hs
    exact absurd (hnew w p rest hb htop) hp

end Fresh

/-! ## Runs that post no coroutine node -/

/-- What holds of a run as long as it has posted ordinary nodes only. -/
structure PlainRun (g : FrozenTaskGraph n) (s : Run n k E) : Prop where
  plain : ∀ m ∈ s.posted, g.isCoroutineNode m = false
  fresh : Fresh s
  ordinary : Ordinary s
  books : Books g s
  bodies : Bodies s

namespace PlainRun

theorem initial : PlainRun g (initial g : Run n k E) where
  plain _ hm := (List.not_mem_nil hm).elim
  fresh := .initial
  ordinary := .initial
  books := .initial g
  bodies := .initial

/-- The workers have ordinary nodes only in hand. -/
theorem inHand (h : PlainRun g s) (w : Fin k) (m : Fin n)
    (hm : .claimed m false ∈ s.workers w ∨ .code m ∈ s.workers w) :
    g.isCoroutineNode m = false := by
  refine h.plain m ?_
  rcases hm with hm | hm
  · exact h.fresh.claimed_posted hm
  · exact h.fresh.entered_posted (h.fresh.code_entered hm)

theorem step {b : Label n k E} (h : PlainRun g s) (hs : step g s b = some s')
    (hplain : ∀ m ∈ s'.posted, g.isCoroutineNode m = false) : PlainRun g s' where
  plain := hplain
  fresh := h.fresh.step hs
  ordinary := h.ordinary.step h.inHand hs
  books := h.books.step (h.ordinary.checksInTime b) hs
  bodies := h.bodies.step h.books.ledger hs

theorem posted_le (h : PlainRun g s) (m : Fin n) : s.posted.count m ≤ 1 := by
  have hposted := h.books.ledger.posted m
  have htoken := h.books.ledger.token_le m
  omega

/-- A claimed invoker has not been entered yet. -/
theorem claimed_cold (h : PlainRun g s) (hm : .claimed m false ∈ s.workers w) :
    Cold s m ∧ m ∈ s.posted := by
  refine ⟨h.fresh.cold m fun hentered => ?_, h.fresh.claimed_posted hm⟩
  have htallied : _ = _ := h.fresh.tallied m
  have hle := le_weight (f := Frame.first m) hm
  have hone := h.posted_le m
  have hpos := List.count_pos_iff.mpr hentered
  simp only [Frame.first, if_true] at hle
  omega

/-- A node whose code is running is posted, and its body is running. -/
theorem code_running (h : PlainRun g s) (hm : .code m ∈ s.workers w) :
    (s.entries m).body = .running ∧ m ∈ s.posted := by
  refine ⟨?_, h.fresh.entered_posted (h.fresh.code_entered hm)⟩
  by_contra hno
  have hrunning := h.bodies.running m
  have hle := le_weight (f := Frame.coding m) hm
  rw [if_neg hno] at hrunning
  simp only [Frame.coding, if_true] at hle
  omega

/-- What is not posted has not begun. -/
theorem unposted_cold (h : PlainRun g s) (hm : m ∉ s.posted) : Cold s m :=
  h.fresh.cold m fun hentered => hm (h.fresh.entered_posted hentered)

end PlainRun

end GraphExecution
end AstraScheduler
