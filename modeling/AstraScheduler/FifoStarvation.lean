import AstraScheduler.CalendarShares
import AstraScheduler.QueueOrder

/-! # Deadlines first, but no FIFO starves

Every claim takes the first task of its container.  The deadline claims in a row that a
claimant may make from a band with a task in its FIFO are bounded, whatever its burst counter
stood at before, and the calendar gives every band a slot in any fifteen claims; so a sole
claimant gets through a FIFO at one task in 135 claims at the least. -/

namespace AstraScheduler
namespace GlobalClaims
open LinkedReadyQueues QueueConservation QueueOrder
variable {I : Type}

namespace Label

def sweeps : Label I → Bool
  | .other .cancelUnstarted => true
  | _ => false

/-- Another claimant calls `claim_global`. -/
def competes : Label I → Bool
  | .other (.claimGlobal _ _) => true
  | _ => false

end Label

/-- Publications and claims of any kind. -/
def Unswept (_ : ClaimantRun I) (label : Label I) : Prop := label.sweeps = false

instance decidableUnswept (s : ClaimantRun I) (label : Label I) : Decidable (Unswept s label) :=
  inferInstanceAs (Decidable (_ = _))

/-- Only the claimant claims from the global queues. -/
def SoleClaimant (_ : ClaimantRun I) (label : Label I) : Prop :=
  label.sweeps = false ∧ label.competes = false

/-- Within so many successful claims a sole claimant takes a task out of every FIFO that does
not run empty. -/
def fifoRound : Nat := (kEdfDeadlineBurstLimit + 1) * kPriorityCalendarLength

section
variable [DecidableEq I] [TaskInvokerBase I]

structure NoStarvation (s : ClaimantRun I) : Prop where
  leastDeadline : ∀ a ∈ s.attempts, ∀ p, a.takesFrom (.edf p) →
    ∃ t ∈ a.before.tasksAt (.edf p), a.result = some t ∧
      ∀ u ∈ a.before.tasksAt (.edf p), Precedes a.published t u
  earliest : ∀ a ∈ s.attempts, ∀ p, a.takesFrom (.fifo p) →
    ∃ t ∈ a.before.tasksAt (.fifo p), a.result = some t ∧
      ∀ u ∈ a.before.tasksAt (.fifo p),
        a.published.idxOf t.invoker ≤ a.published.idxOf u.invoker
  burst : ∀ p window, window <:+: s.successes.filter (·.serves p) →
    (∀ a ∈ window, a.takesFrom (.edf p) ∧ a.before.tasksAt (.fifo p) ≠ []) →
      window.length ≤ kEdfDeadlineBurstLimit
  claimedWithin : ∀ p k t, (s.run.queues.tasksAt (.fifo p))[k]? = some t →
    ∀ labels s', machine.EveryStep SoleClaimant s labels → machine.run s labels = some s' →
      s.successes.length + fifoRound * (k + 1) ≤ s'.successes.length →
        some t ∈ ((s'.successes.drop s.successes.length).take (fifoRound * (k + 1))).map (·.result)

end

/-! ## What a call takes, read off its containers -/

namespace Attempt
variable {a : Attempt I} {p : Priority}

theorem Outcome.deadline_of_takesFrom (h : a.Outcome) (hp : a.takesFrom (.edf p)) :
    ∃ t, a.ServedDeadline p t := by
  cases h with
  | failed h => simp [takesFrom, h.after] at hp
  | deadline q t h =>
    rw [h.toServed.takesFrom, decide_eq_true_eq, QueuePlace.edf.injEq] at hp
    exact ⟨t, hp ▸ h⟩
  | fifo q t h => simp [h.toServed.takesFrom] at hp

theorem Outcome.fifo_of_takesFrom (h : a.Outcome) (hp : a.takesFrom (.fifo p)) :
    ∃ t, a.ServedFifo p t := by
  cases h with
  | failed h => simp [takesFrom, h.after] at hp
  | deadline q t h => simp [h.toServed.takesFrom] at hp
  | fifo q t h =>
    rw [h.toServed.takesFrom, decide_eq_true_eq, QueuePlace.fifo.injEq] at hp
    exact ⟨t, hp ▸ h⟩

/-- A call that serves another band leaves this one's burst counter alone. -/
theorem Outcome.bursts_of_not_serves (h : a.Outcome) (hp : ¬ a.serves p) :
    a.deadlineBurstsAfter p = a.deadlineBursts p := by
  cases h with
  | failed h => rw [h.bursts]
  | deadline q t h =>
    rw [h.serves, decide_eq_true_eq] at hp
    rw [h.bursts, Function.update_of_ne hp]
  | fifo q t h =>
    rw [h.serves, decide_eq_true_eq] at hp
    rw [h.bursts, Function.update_of_ne hp]

/-- What calls have taken from the FIFO of a band, in this order. -/
def takenFifo (p : Priority) (as : List (Attempt I)) : List (QueuedTask I) :=
  (as.filter (·.takesFrom (.fifo p))).filterMap (·.result)

theorem takenFifo_append (p : Priority) (as bs : List (Attempt I)) :
    takenFifo p (as ++ bs) = takenFifo p as ++ takenFifo p bs := by
  rw [takenFifo, List.filter_append, List.filterMap_append]
  rfl

theorem length_takenFifo {as : List (Attempt I)} (h : ∀ a ∈ as, a.succeeded) :
    (takenFifo p as).length = as.countP (·.takesFrom (.fifo p)) := by
  induction as with
  | nil => rfl
  | cons a as ih =>
    have hrest := ih fun b hb => h b (List.mem_cons_of_mem a hb)
    obtain ⟨t, ht⟩ := Option.isSome_iff_exists.mp (h a List.mem_cons_self)
    unfold takenFifo at hrest ⊢
    by_cases ha : a.takesFrom (.fifo p) <;> simp [ha, ht, hrest]

theorem mem_result_of_mem_takenFifo {as : List (Attempt I)} {t : QueuedTask I}
    (h : t ∈ takenFifo p as) : some t ∈ as.map (·.result) := by
  obtain ⟨a, ha, hresult⟩ := List.mem_filterMap.mp h
  exact List.mem_map.mpr ⟨a, List.mem_of_mem_filter ha, hresult⟩

/-- A call splits the FIFO into what it takes and what it leaves. -/
theorem Outcome.fifo_split (h : a.Outcome) (p : Priority) :
    a.before.tasksAt (.fifo p) = takenFifo p [a] ++ a.after.tasksAt (.fifo p) := by
  by_cases hp : a.takesFrom (.fifo p)
  · obtain ⟨t, ht⟩ := h.fifo_of_takesFrom hp
    have htaken : takenFifo p [a] = [t] := by simp [takenFifo, hp, ht.result]
    rw [ht.popped, htaken]
    rfl
  · have htaken : takenFifo p [a] = [] := by simp [takenFifo, hp]
    rw [htaken, List.nil_append]
    cases h with
    | failed h => rw [h.after]
    | deadline q t h => exact (h.others _ (by simp)).symm
    | fifo q t h =>
      rw [h.toServed.takesFrom, decide_eq_true_eq] at hp
      exact (h.others _ hp).symm

end Attempt

/-! ## The burst counter of one band -/

/-- The burst counter of the band runs through the calls. -/
def BurstsFrom (p : Priority) : Nat → List (Attempt I) → Prop
  | _, [] => True
  | burst, a :: as => a.deadlineBursts p = burst ∧ BurstsFrom p (a.deadlineBurstsAfter p) as

namespace BurstsFrom
variable {p : Priority} {burst : Nat} {as bs : List (Attempt I)}

theorem of_chain {a : Attempt I} (h : (a :: as).IsChain Attempt.Follows) :
    BurstsFrom p (a.deadlineBursts p) (a :: as) := by
  induction as generalizing a with
  | nil => exact ⟨rfl, trivial⟩
  | cons b as ih =>
    obtain ⟨hfollows, hrest⟩ := List.isChain_cons_cons.mp h
    refine ⟨rfl, ?_⟩
    rw [← hfollows.2]
    exact ih hrest

/-- Calls that leave the counter alone do not count. -/
theorem filter (keep : Attempt I → Bool) (h : BurstsFrom p burst as)
    (hkeep : ∀ a ∈ as, ¬ keep a → a.deadlineBurstsAfter p = a.deadlineBursts p) :
    BurstsFrom p burst (as.filter keep) := by
  induction as generalizing burst with
  | nil => trivial
  | cons a as ih =>
    obtain ⟨hburst, hrest⟩ := h
    have hfiltered := ih hrest fun b hb => hkeep b (List.mem_cons_of_mem a hb)
    by_cases ha : keep a
    · rw [List.filter_cons_of_pos ha]
      exact ⟨hburst, hfiltered⟩
    · rw [List.filter_cons_of_neg ha, ← hburst, ← hkeep a List.mem_cons_self ha]
      exact hfiltered

theorem left (h : BurstsFrom p burst (as ++ bs)) : BurstsFrom p burst as := by
  induction as generalizing burst with
  | nil => trivial
  | cons a as ih => exact ⟨h.1, ih h.2⟩

theorem right (h : BurstsFrom p burst (as ++ bs)) : ∃ burst', BurstsFrom p burst' bs := by
  induction as generalizing burst with
  | nil => exact ⟨burst, h⟩
  | cons a as ih => exact ih h.2

/-- Claims that count one each up to the limit. -/
theorem length_le (h : BurstsFrom p burst as)
    (hcount : ∀ a ∈ as, a.deadlineBurstsAfter p = a.deadlineBursts p + 1 ∧
      a.deadlineBursts p < kEdfDeadlineBurstLimit) :
    as.length ≤ kEdfDeadlineBurstLimit - burst := by
  induction as generalizing burst with
  | nil => exact Nat.zero_le _
  | cons a as ih =>
    obtain ⟨hburst, hrest⟩ := h
    obtain ⟨hnext, hlimit⟩ := hcount a List.mem_cons_self
    have hlength := ih hrest fun b hb => hcount b (List.mem_cons_of_mem a hb)
    rw [List.length_cons]
    omega

end BurstsFrom

/-! ## A FIFO and its sole claimant -/

/-- Since `start`, when the FIFO of the band held `waiting`, the claimant has made the claims
`claims` and taken what it took from the FIFO in the order of the FIFO. -/
structure Ledger (p : Priority) (waiting : List (QueuedTask I)) (start s : ClaimantRun I)
    (claims : List (Attempt I)) : Prop where
  successes : s.successes = start.successes ++ claims
  taken : waiting <+: Attempt.takenFifo p claims ++ s.run.queues.tasksAt (.fifo p)
  before : ∀ i a, claims[i]? = some a →
    waiting <+: Attempt.takenFifo p (claims.take i) ++ a.before.tasksAt (.fifo p)

theorem Ledger.prefix_take {p : Priority} {start s : ClaimantRun I} {waiting : List (QueuedTask I)}
    {claims : List (Attempt I)} (h : Ledger p waiting start s claims) {i : Nat}
    (hi : i ≤ claims.length) :
    ∃ rest, waiting <+: Attempt.takenFifo p (claims.take i) ++ rest := by
  by_cases hlt : i < claims.length
  · exact ⟨_, h.before i _ (List.getElem?_eq_getElem hlt)⟩
  · rw [List.take_of_length_le (by omega)]
    exact ⟨_, h.taken⟩

section Runs
variable [DecidableEq I] [TaskInvokerBase I] {s s' : ClaimantRun I} {p : Priority}

/-- **At most eight deadline claims in a row** while the FIFO has a task. -/
theorem Inv.burst_le (h : Inv s) {window : List (Attempt I)}
    (hw : window <:+: s.successes.filter (·.serves p))
    (hdeadline : ∀ a ∈ window, a.takesFrom (.edf p) ∧ a.before.tasksAt (.fifo p) ≠ []) :
    window.length ≤ kEdfDeadlineBurstLimit := by
  have houtcome : ∀ a ∈ s.successes, a.Outcome := fun a ha =>
    h.outcomes a (List.mem_filter.mp ha).1
  have hbursts : ∃ burst, BurstsFrom p burst s.successes := by
    cases hsuccesses : s.successes with
    | nil => exact ⟨0, trivial⟩
    | cons a as => exact ⟨_, .of_chain (hsuccesses ▸ h.chain)⟩
  obtain ⟨burst, hbursts⟩ := hbursts
  have hserves := hbursts.filter (·.serves p) fun a ha hs =>
    (houtcome a ha).bursts_of_not_serves hs
  obtain ⟨left, right, heq⟩ := hw
  rw [← heq] at hserves
  obtain ⟨burst', hwindow⟩ := hserves.left.right
  have hlength := hwindow.length_le fun a ha => by
    have hmem : a ∈ s.successes.filter (·.serves p) := heq ▸ by simp [ha]
    obtain ⟨htakes, hfifo⟩ := hdeadline a ha
    obtain ⟨t, ht⟩ := (houtcome a (List.mem_filter.mp hmem).1).deadline_of_takesFrom htakes
    exact ⟨by rw [ht.bursts, Function.update_self], ht.burst.resolve_left hfifo⟩
  omega

/-! ## Each claim in its turn -/

/-- A call takes what comes first in its container. -/
structure TakesInOrder (a : Attempt I) : Prop where
  leastDeadline : ∀ p, a.takesFrom (.edf p) →
    ∃ t ∈ a.before.tasksAt (.edf p), a.result = some t ∧
      ∀ u ∈ a.before.tasksAt (.edf p), Precedes a.published t u
  earliest : ∀ p, a.takesFrom (.fifo p) →
    ∃ t ∈ a.before.tasksAt (.fifo p), a.result = some t ∧
      ∀ u ∈ a.before.tasksAt (.fifo p),
        a.published.idxOf t.invoker ≤ a.published.idxOf u.invoker

theorem takesInOrder_attempt (hacc : Accounted s.run) (hord : InOrder s.run) :
    TakesInOrder s.attempt := by
  have houtcome := attempt_outcome hacc.wellLinked
  obtain ⟨hbefore, hpublished, -, -⟩ := attempt_reads s
  refine ⟨fun p hp => ?_, fun p hp => ?_⟩
  · obtain ⟨t, ht⟩ := houtcome.deadline_of_takesFrom hp
    obtain ⟨rq, hpop, -⟩ := ht.popped
    rw [hbefore] at hpop ⊢
    obtain ⟨hmem, hfirst⟩ := hord.popEdf_precedes hpop
    exact ⟨t, hmem, ht.result, hpublished ▸ hfirst⟩
  · obtain ⟨t, ht⟩ := houtcome.fifo_of_takesFrom hp
    have hpop := ht.popped
    rw [hbefore] at hpop ⊢
    exact ⟨t, by simp [hpop], ht.result, hpublished ▸ hord.popFifo_earliest hacc hpop⟩

/-- What the steps other than sweeps keep. -/
structure InTurn (s : ClaimantRun I) : Prop extends Inv s where
  ordered : InOrder s.run
  attempts : ∀ a ∈ s.attempts, TakesInOrder a

theorem InTurn.step (h : InTurn s) {label : Label I} (hl : label.sweeps = false)
    (hs : next s label = some s') : InTurn s' := by
  have hinv := h.toInv.step hs
  cases label with
  | claim =>
    dsimp only [GlobalClaims.next] at hs
    obtain ⟨run, hrun, rfl⟩ := Option.map_eq_some_iff.mp hs
    have hordered : InOrder run := h.ordered.step h.accounted
      (.claimGlobal s.calendarIndex s.deadlineBursts) hrun fun heq => by cases heq
    refine ⟨hinv, hordered, fun a ha => ?_⟩
    rcases List.mem_append.mp ha with ha | ha
    · exact h.attempts a ha
    · rw [List.mem_singleton.mp ha]
      exact takesInOrder_attempt h.accounted h.ordered
  | other op =>
    obtain ⟨run, hrun, rfl⟩ := Option.map_eq_some_iff.mp hs
    have hordered : InOrder run := h.ordered.step h.accounted op hrun
      (by rintro rfl; cases hl)
    exact ⟨hinv, hordered, h.attempts⟩

theorem inTurn_of_unswept (h : machine.ReachableUnder Unswept s) : InTurn s := by
  induction h with
  | initial hinit =>
    refine ⟨inv_of_reachable (.initial hinit), .init hinit.1, fun a ha => ?_⟩
    rw [hinit.2.2] at ha
    cases ha
  | step _ hok hs ih => exact ih.step hok hs

/-! ## The claimant alone -/

theorem attempt_after (s : ClaimantRun I) {run : QueueRun I}
    (hrun : s.run.next (.claimGlobal s.calendarIndex s.deadlineBursts) = some run) :
    run.queues = s.attempt.after := by
  obtain rfl := Option.some.inj hrun
  unfold ClaimantRun.attempt
  cases hc : s.run.queues.claimGlobal s.calendarIndex s.deadlineBursts with
  | none => rfl
  | some r => rfl

/-- What others may do only adds to the FIFOs. -/
theorem fifo_prefix (h : Accounted s.run) {op : QueueOp I} {run : QueueRun I}
    (hrun : s.run.next op = some run) (hl : SoleClaimant s (.other op)) (p : Priority) :
    s.run.queues.tasksAt (.fifo p) <+: run.queues.tasksAt (.fifo p) := by
  have hpush : GlobalPush s.run run := by
    refine globalPush h hrun ?_ ?_
    · rintro index bursts rfl
      cases hl.2
    · rintro rfl
      cases hl.1
  cases hpush with
  | kept _ _ hfifos => exact hfifos p ▸ List.prefix_rfl
  | edf t band deadline _ _ _ _ hfifos => exact hfifos p ▸ List.prefix_rfl
  | fifo t band _ _ hpushed hfifos =>
    by_cases hp : p = band
    · subst hp
      exact hpushed ▸ List.prefix_append ..
    · exact hfifos p hp ▸ List.prefix_rfl

theorem Ledger.step {waiting : List (QueuedTask I)} {start : ClaimantRun I}
    {claims : List (Attempt I)} (h : Ledger p waiting start s claims) (hinv : Inv s)
    {label : Label I} (hl : SoleClaimant s label) (hs : next s label = some s') :
    ∃ claims', Ledger p waiting start s' claims' := by
  cases label with
  | claim =>
    dsimp only [GlobalClaims.next] at hs
    obtain ⟨run, hrun, rfl⟩ := Option.map_eq_some_iff.mp hs
    have hafter := attempt_after s hrun
    have hsplit := (attempt_outcome hinv.accounted.wellLinked).fifo_split p
    have htaken := h.taken
    rw [← (attempt_reads s).1, hsplit, ← hafter, ← List.append_assoc] at htaken
    by_cases hsucceeded : s.attempt.succeeded
    · refine ⟨claims ++ [s.attempt], ?_, ?_, fun i a hi => ?_⟩
      · have hsuccesses := h.successes
        unfold ClaimantRun.successes at hsuccesses ⊢
        rw [List.filter_append, hsuccesses, List.filter_cons_of_pos hsucceeded,
          List.append_assoc, List.filter_nil]
      · rw [Attempt.takenFifo_append]
        exact htaken
      · by_cases hlt : i < claims.length
        · rw [List.getElem?_append_left hlt] at hi
          rw [List.take_append_of_le_length (Nat.le_of_lt hlt)]
          exact h.before i a hi
        · have hlength := (List.getElem?_eq_some_iff.mp hi).1
          rw [List.length_append, List.length_singleton] at hlength
          obtain rfl : i = claims.length := by omega
          rw [List.getElem?_concat_length] at hi
          rw [← Option.some.inj hi, List.take_left, (attempt_reads s).1]
          exact h.taken
    · refine ⟨claims, ?_, ?_, h.before⟩
      · have hsuccesses := h.successes
        unfold ClaimantRun.successes at hsuccesses ⊢
        rw [List.filter_append, hsuccesses, List.filter_cons_of_neg hsucceeded, List.filter_nil,
          List.append_nil]
      · have hnone : Attempt.takenFifo p [s.attempt] = [] := by
          have hresult : s.attempt.result = none := by
            simpa [Attempt.succeeded] using hsucceeded
          unfold Attempt.takenFifo
          by_cases ht : s.attempt.takesFrom (.fifo p) <;> simp [ht, hresult]
        rw [hnone, List.append_nil] at htaken
        exact htaken
  | other op =>
    obtain ⟨run, hrun, rfl⟩ := Option.map_eq_some_iff.mp hs
    have hgrows := fifo_prefix hinv.accounted hrun hl p
    exact ⟨claims, h.successes, h.taken.trans (List.prefix_append_right_inj _ |>.mpr hgrows),
      h.before⟩

theorem ledger_of_run {waiting : List (QueuedTask I)} {start : ClaimantRun I}
    {claims : List (Attempt I)} (h : Ledger p waiting start s claims) (hinv : Inv s)
    {labels : List (Label I)} (hsole : machine.EveryStep SoleClaimant s labels)
    (hr : machine.run s labels = some s') : ∃ claims', Ledger p waiting start s' claims' := by
  induction labels generalizing s claims with
  | nil =>
    obtain rfl := Option.some.inj hr
    exact ⟨claims, h⟩
  | cons label labels ih =>
    obtain ⟨next, hnext, hrest⟩ := Option.bind_eq_some_iff.mp hr
    obtain ⟨claims', h'⟩ := h.step hinv hsole.1 hnext
    exact ih h' (hinv.step hnext) (hsole.2 next hnext) hrest

/-- In any round of claims with a task in the FIFO throughout, one is taken out of it. -/
theorem Inv.round (h : Inv s) {window : List (Attempt I)} (hw : window <:+: s.successes)
    (hlength : window.length = fifoRound)
    (hfull : ∀ a ∈ window, a.before.tasksAt (.fifo p) ≠ []) :
    ∃ a ∈ window, a.takesFrom (.fifo p) := by
  by_contra hnone
  push Not at hnone
  have hdeadline : ∀ a ∈ window.filter (·.serves p),
      a.takesFrom (.edf p) ∧ a.before.tasksAt (.fifo p) ≠ [] := by
    intro a ha
    obtain ⟨hmem, hserves⟩ := List.mem_filter.mp ha
    refine ⟨?_, hfull a hmem⟩
    rcases Bool.or_eq_true_iff.mp hserves with htakes | htakes
    · exact htakes
    · exact absurd htakes (hnone a hmem)
  have hle := h.burst_le (hw.filter _) hdeadline
  have hshare := h.fairShares.windows hw hlength (p := p) fun a ha hempty => hfull a ha hempty.2
  have hslot : 1 ≤ calendarShare p := by cases p <;> decide
  rw [List.countP_eq_length_filter] at hshare
  have := Nat.mul_le_mul_left (kEdfDeadlineBurstLimit + 1) hslot
  omega

/-- So many rounds take as many tasks out of the FIFO. -/
theorem Inv.rounds (h : Inv s) {n : Nat} {window : List (Attempt I)} (hw : window <:+: s.successes)
    (hlength : window.length = fifoRound * n)
    (hfull : ∀ a ∈ window, a.before.tasksAt (.fifo p) ≠ []) :
    n ≤ window.countP (·.takesFrom (.fifo p)) := by
  induction n generalizing window with
  | zero => exact Nat.zero_le _
  | succ n ih =>
    rw [Nat.mul_succ] at hlength
    obtain ⟨a, ha, htakes⟩ := h.round ((List.take_prefix fifoRound window).isInfix.trans hw)
      (by rw [List.length_take, hlength]; omega) fun a ha => hfull a (List.mem_of_mem_take ha)
    have hrest := ih ((List.drop_suffix fifoRound window).isInfix.trans hw)
      (by rw [List.length_drop, hlength]; omega) fun a ha => hfull a (List.mem_of_mem_drop ha)
    have hfirst : 0 < (window.take fifoRound).countP (·.takesFrom (.fifo p)) :=
      List.countP_pos_iff.mpr ⟨a, ha, htakes⟩
    rw [← List.take_append_drop fifoRound window, List.countP_append]
    omega

/-- **Bounded starvation**: as long as the task waits the FIFO is not empty, and in every round
one of the tasks in front of it goes. -/
theorem Ledger.claimedWithin {start : ClaimantRun I} {waiting : List (QueuedTask I)}
    {claims : List (Attempt I)} (h : Ledger p waiting start s claims) (hinv : Inv s) {k : Nat}
    {t : QueuedTask I} (ht : waiting[k]? = some t) (hlength : fifoRound * (k + 1) ≤ claims.length) :
    some t ∈ ((claims.take (fifoRound * (k + 1))).map (·.result)) := by
  by_contra hnot
  have hsucceeded : ∀ a ∈ claims, a.succeeded := fun a ha => by
    have hmem : a ∈ s.successes := h.successes ▸ List.mem_append_right _ ha
    exact (List.mem_filter.mp hmem).2
  -- what has been taken so far does not reach the task
  have hshort : ∀ i ≤ fifoRound * (k + 1), ∀ rest,
      waiting <+: Attempt.takenFifo p (claims.take i) ++ rest →
        (Attempt.takenFifo p (claims.take i)).length ≤ k := by
    intro i hi rest hprefix
    by_contra hlong
    refine hnot ?_
    have hget : (Attempt.takenFifo p (claims.take i))[k]? = some t := by
      obtain ⟨more, heq⟩ := hprefix
      have hwaiting := (List.getElem?_eq_some_iff.mp ht).1
      have hread := congrArg (·[k]?) heq
      simp only [List.getElem?_append_left hwaiting] at hread
      rwa [ht, List.getElem?_append_left (by omega), eq_comm] at hread
    have hmem := Attempt.mem_result_of_mem_takenFifo (List.mem_of_getElem? hget)
    exact ((List.take_prefix_take_left hi).map _).subset hmem
  have hfull : ∀ a ∈ claims.take (fifoRound * (k + 1)), a.before.tasksAt (.fifo p) ≠ [] := by
    intro a ha hempty
    obtain ⟨i, hi⟩ := List.mem_iff_getElem?.mp ha
    have hlt : i < fifoRound * (k + 1) := by
      have := (List.getElem?_eq_some_iff.mp hi).1
      rw [List.length_take] at this
      omega
    rw [List.getElem?_take_of_lt hlt] at hi
    have hprefix := h.before i a hi
    have hle := hshort i (Nat.le_of_lt hlt) _ hprefix
    rw [hempty, List.append_nil] at hprefix
    have hwaiting := (List.getElem?_eq_some_iff.mp ht).1
    have := hprefix.length_le
    omega
  have hwindow : claims.take (fifoRound * (k + 1)) <:+: s.successes := by
    rw [h.successes]
    exact (List.take_prefix ..).isInfix.trans (List.suffix_append ..).isInfix
  have hrounds := hinv.rounds (n := k + 1) hwindow (by rw [List.length_take]; omega) hfull
  rw [← Attempt.length_takenFifo fun a ha => hsucceeded a (List.mem_of_mem_take ha)] at hrounds
  obtain ⟨rest, hprefix⟩ := h.prefix_take hlength
  have hle := hshort _ (Nat.le_refl _) rest hprefix
  omega

/-- Every claim in its turn, and every FIFO gets one. -/
theorem noStarvation_of_unswept (h : machine.ReachableUnder Unswept s) : NoStarvation s := by
  have hturn := inTurn_of_unswept h
  refine ⟨fun a ha => (hturn.attempts a ha).leastDeadline,
    fun a ha => (hturn.attempts a ha).earliest,
    fun p window hw hdeadline => hturn.burst_le hw hdeadline, ?_⟩
  intro p k t ht labels s' hsole hr hlength
  have hstart : Ledger p (s.run.queues.tasksAt (.fifo p)) s s [] :=
    ⟨(List.append_nil _).symm, List.prefix_rfl, fun i a hi => by simp at hi⟩
  obtain ⟨claims, hledger⟩ := ledger_of_run hstart hturn.toInv hsole hr
  have hinv' : Inv s' := Transition.Machine.run_keeps (m := machine)
    (fun _ _ _ hi hs => hi.step hs) hturn.toInv hr
  rw [hledger.successes, List.length_append] at hlength
  rw [hledger.successes, List.drop_left]
  exact hledger.claimedWithin hinv' ht (by omega)

/-- Nine Normal tasks with deadlines from 9 down to 1 and two without. -/
def deadlinesFirst : List (Label Invoker) :=
  ((List.range 9).map fun i =>
    .other (.publish ⟨i, false, .normal, some (9 - i)⟩ false false 0) : List (Label Invoker)) ++
    ([.other (.publish ⟨20, false, .normal, none⟩ false false 0),
      .other (.publish ⟨21, false, .normal, none⟩ false false 0)] : List (Label Invoker)) ++
    (List.replicate 11 .claim : List (Label Invoker))

theorem noStarvation_deadlinesFirst :
    ∃ s : ClaimantRun Invoker,
      s.successes.map (fun a => a.result.map (·.invoker.object)) =
        [8, 7, 6, 5, 4, 3, 2, 1, 20, 0, 21].map some ∧ NoStarvation s := by
  obtain ⟨s, hs⟩ := Option.isSome_iff_exists.mp
    (show (machine.run claimantStart deadlinesFirst).isSome by decide +kernel)
  have hend : (machine.run claimantStart deadlinesFirst).map (fun s => decide
      (s.successes.map (fun a => a.result.map (·.invoker.object)) =
        [8, 7, 6, 5, 4, 3, 2, 1, 20, 0, 21].map some)) = some true := by
    decide +kernel
  simp only [hs, Option.map_some, Option.some.injEq, decide_eq_true_eq] at hend
  have hinit : machine.init claimantStart := ⟨⟨.chaseLevLockFree, 1, rfl⟩, by decide, rfl⟩
  have hstart : machine.ReachableUnder Unswept claimantStart := .initial hinit
  exact ⟨s, hend, noStarvation_of_unswept (hstart.run (by decide +kernel) hs)⟩

end Runs

end GlobalClaims
end AstraScheduler
