import AstraScheduler.QueueConservation
import Mathlib.Data.List.Chain

/-! # The global claims of one claimant

`claim_global` takes the claimant's calendar index and deadline bursts by reference.  A run
here is a run of the queues in which one claimant calls `claim_global` with its own index and
bursts, from any values of them; everything else, other claimants' calls included, happens in
between.  `attempts` records each of its calls with what it found and left. -/

namespace AstraScheduler
namespace GlobalClaims
open LinkedReadyQueues QueueConservation
variable {I : Type}

/-- Both containers of a global band are empty. -/
def BandEmpty (rq : LinkedReadyQueues I) (p : Priority) : Prop :=
  rq.tasksAt (.edf p) = [] ∧ rq.tasksAt (.fifo p) = []

instance decidableBandEmpty [DecidableEq I] (rq : LinkedReadyQueues I) (p : Priority) :
    Decidable (BandEmpty rq p) :=
  inferInstanceAs (Decidable (_ ∧ _))

/-- The calendar index after a successful claim. -/
def nextIndex (calendarIndex : Nat) : Nat := (calendarIndex + 1) % 2 ^ 64 % kPriorityCalendarLength

/-- A call of `claim_global`: the queues and the arguments before and after it. -/
structure Attempt (I : Type) where
  before : LinkedReadyQueues I
  /-- What had been published, in this order. -/
  published : List I
  calendarIndex : Nat
  deadlineBursts : Priority → Nat
  result : Option (QueuedTask I)
  after : LinkedReadyQueues I
  calendarIndexAfter : Nat
  deadlineBurstsAfter : Priority → Nat

structure ClaimantRun (I : Type) where
  run : QueueRun I
  calendarIndex : Nat
  deadlineBursts : Priority → Nat
  attempts : List (Attempt I) := []

inductive Label (I : Type) where
  | claim
  /-- Another thread's operation. -/
  | other (op : QueueOp I)

section Steps
variable [DecidableEq I] [TaskInvokerBase I]

/-- The claimant's call in this state. -/
def ClaimantRun.attempt (s : ClaimantRun I) : Attempt I :=
  let call : Attempt I :=
    { before := s.run.queues
      published := s.run.publishedInvokers
      calendarIndex := s.calendarIndex
      deadlineBursts := s.deadlineBursts
      result := none
      after := s.run.queues
      calendarIndexAfter := s.calendarIndex
      deadlineBurstsAfter := s.deadlineBursts }
  match s.run.queues.claimGlobal s.calendarIndex s.deadlineBursts with
  | none => call
  | some (claimed, bursts) =>
    { call with
      result := some claimed.out
      after := claimed.queues
      calendarIndexAfter := claimed.calendarIndex
      deadlineBurstsAfter := bursts }

def next (s : ClaimantRun I) : Label I → Option (ClaimantRun I)
  | .claim =>
    let a := s.attempt
    (s.run.next (.claimGlobal s.calendarIndex s.deadlineBursts)).map fun run =>
      { run := run
        calendarIndex := a.calendarIndexAfter
        deadlineBursts := a.deadlineBurstsAfter
        attempts := s.attempts ++ [a] }
  | .other op => (s.run.next op).map fun run => { s with run := run }

/-- The claimant's index is a `size_t`, its bursts are any. -/
def machine : Transition.Machine (ClaimantRun I) (Label I) where
  init s := QueueConservation.machine.init s.run ∧ s.calendarIndex < 2 ^ 64 ∧ s.attempts = []
  next := next

end Steps

/-! ## What a call takes -/

namespace Attempt

def succeeded (a : Attempt I) : Bool := a.result.isSome

/-- The call has made this container smaller. -/
def takesFrom (a : Attempt I) (k : QueuePlace) : Bool :=
  (a.after.tasksAt k).length < (a.before.tasksAt k).length

/-- The call has been served from this band. -/
def serves (a : Attempt I) (p : Priority) : Bool := a.takesFrom (.edf p) || a.takesFrom (.fifo p)

/-- A failed call finds nothing and changes nothing. -/
structure Failed (a : Attempt I) : Prop where
  result : a.result = none
  empty : ∀ p, BandEmpty a.before p
  after : a.after = a.before
  index : a.calendarIndexAfter = a.calendarIndex
  bursts : a.deadlineBurstsAfter = a.deadlineBursts

/-- The call takes `t` out of container `k` of band `p`, the calendar's if that has a task. -/
structure Served (a : Attempt I) (p : Priority) (k : QueuePlace) (t : QueuedTask I) : Prop where
  result : a.result = some t
  taken : (a.after.tasksAt k ++ [t]).Perm (a.before.tasksAt k)
  others : ∀ l, l ≠ k → a.after.tasksAt l = a.before.tasksAt l
  target : ¬ BandEmpty a.before (calendarTarget a.calendarIndex) →
    p = calendarTarget a.calendarIndex
  index : a.calendarIndexAfter = nextIndex a.calendarIndex

/-- The first of a heap none of whose entries comes before another's parent is taken, and one
more deadline claim in a row is counted. -/
structure ServedDeadline (a : Attempt I) (p : Priority) (t : QueuedTask I) : Prop
    extends a.Served p (.edf p) t where
  popped : ∃ rq, a.before.popEdf p = some (t, rq) ∧ a.after.globalEdfHeaps = rq.globalEdfHeaps
  burst : a.before.tasksAt (.fifo p) = [] ∨ a.deadlineBursts p < kEdfDeadlineBurstLimit
  bursts : a.deadlineBurstsAfter = Function.update a.deadlineBursts p (a.deadlineBursts p + 1)

/-- The front of the FIFO is taken, and the deadline claims in a row start again from none. -/
structure ServedFifo (a : Attempt I) (p : Priority) (t : QueuedTask I) : Prop
    extends a.Served p (.fifo p) t where
  popped : a.before.tasksAt (.fifo p) = t :: a.after.tasksAt (.fifo p)
  bursts : a.deadlineBurstsAfter = Function.update a.deadlineBursts p 0

/-- What a call of `claim_global` does. -/
inductive Outcome (a : Attempt I) : Prop
  | failed (h : a.Failed)
  | deadline (p : Priority) (t : QueuedTask I) (h : a.ServedDeadline p t)
  | fifo (p : Priority) (t : QueuedTask I) (h : a.ServedFifo p t)

end Attempt

section Claims
variable {rq : LinkedReadyQueues I}

theorem head_isNone (h : WellLinked rq) (p : Priority) :
    (rq.globalFifoQueues p).head.isNone ↔ rq.tasksAt (.fifo p) = [] := by
  rw [tasksAt, List.map_eq_nil_iff, (h.fifos p).head_eq, Option.isNone_iff_eq_none,
    List.head?_eq_none_iff]

theorem heap_isEmpty (rq : LinkedReadyQueues I) (p : Priority) :
    (rq.globalEdfHeaps p).isEmpty ↔ rq.tasksAt (.edf p) = [] := by
  rw [tasksAt, List.map_eq_nil_iff, List.isEmpty_iff]

theorem popEdf_ne_none (h : rq.tasksAt (.edf p) ≠ []) : rq.popEdf p ≠ none := by
  rw [popEdf, ne_eq, Option.map_eq_none_iff, List.getLast?_eq_none_iff]
  intro hnil
  have hlength := (BinaryHeap.popHeap_perm EdfEntry.before (rq.globalEdfHeaps p)).length_eq
  rw [hnil, List.length_nil] at hlength
  rw [tasksAt, ne_eq, List.map_eq_nil_iff] at h
  exact h (List.length_eq_zero_iff.mp hlength.symm)

variable [DecidableEq I]

theorem popFifo_ne_none (hwell : WellLinked rq) (h : rq.tasksAt (.fifo p) ≠ []) :
    rq.popFifo p ≠ none := by
  rw [ne_eq, ← head_isNone hwell, Option.isNone_iff_eq_none] at h
  simpa [popFifo, IntrusiveFifo.popFront, LinkedFifo.popFront] using h

/-- The attempt at one band: fails exactly when both its containers are empty, otherwise one
of the two is popped. -/
theorem claimGlobalBandLocked_eq_none (h : WellLinked rq) (p : Priority) (burst : Nat) :
    rq.claimGlobalBandLocked p burst = none ↔ BandEmpty rq p := by
  have hheap := heap_isEmpty rq p
  have hfifo := head_isNone h p
  unfold claimGlobalBandLocked BandEmpty
  dsimp only
  split
  · rename_i he hf
    exact iff_of_true rfl ⟨hheap.mp he, hfifo.mp hf⟩
  · rename_i he hf
    have hne : rq.tasksAt (.edf p) ≠ [] := fun hnil => by simp [hheap.mpr hnil] at he
    have hnf : rq.tasksAt (.fifo p) ≠ [] := fun hnil => by simp [hfifo.mpr hnil] at hf
    refine iff_of_false ?_ fun hempty => hne hempty.1
    split
    · simpa using popEdf_ne_none hne
    · simpa using popFifo_ne_none h hnf
  · rename_i he hf
    have hne : rq.tasksAt (.edf p) ≠ [] := fun hnil => by simp [hheap.mpr hnil] at he
    refine iff_of_false ?_ fun hempty => hne hempty.1
    simpa using popEdf_ne_none hne
  · rename_i he hf
    have hnf : rq.tasksAt (.fifo p) ≠ [] := fun hnil => by simp [hfifo.mpr hnil] at hf
    refine iff_of_false ?_ fun hempty => hnf hempty.2
    simpa using popFifo_ne_none h hnf

theorem claimGlobalBandLocked_cases (h : WellLinked rq) {burst burst' : Nat} {t : QueuedTask I}
    {rq' : LinkedReadyQueues I} (hc : rq.claimGlobalBandLocked p burst = some (t, rq', burst')) :
    rq.popEdf p = some (t, rq') ∧ burst' = burst + 1 ∧
        (rq.tasksAt (.fifo p) = [] ∨ burst < kEdfDeadlineBurstLimit) ∨
      rq.popFifo p = some (t, rq') ∧ burst' = 0 := by
  have hfifo := head_isNone h p
  have hheapMap : ∀ {b}, (rq.popEdf p).map (fun r => (r.1, r.2, b)) = some (t, rq', burst') →
      rq.popEdf p = some (t, rq') ∧ burst' = b := by
    intro b hb
    simp only [Option.map_eq_some_iff, Prod.mk.injEq, Prod.exists] at hb
    obtain ⟨_, _, hp, rfl, rfl, rfl⟩ := hb
    exact ⟨hp, rfl⟩
  have hfifoMap : (rq.popFifo p).map (fun r => (r.1, r.2, 0)) = some (t, rq', burst') →
      rq.popFifo p = some (t, rq') ∧ burst' = 0 := by
    intro hb
    simp only [Option.map_eq_some_iff, Prod.mk.injEq, Prod.exists] at hb
    obtain ⟨_, _, hp, rfl, rfl, rfl⟩ := hb
    exact ⟨hp, rfl⟩
  unfold claimGlobalBandLocked at hc
  split at hc
  · cases hc
  · split at hc
    · rename_i hburst
      exact .inl ⟨(hheapMap hc).1, (hheapMap hc).2, .inr hburst⟩
    · exact .inr (hfifoMap hc)
  · rename_i hf
    exact .inl ⟨(hheapMap hc).1, (hheapMap hc).2, .inl (hfifo.mp hf)⟩
  · exact .inr (hfifoMap hc)

/-- The search for a band ends at the first that yields something. -/
theorem firstClaim_ofOption {α : Type} {claim : Priority → Option α} {ps : List Priority} {a : α}
    (h : firstClaim (fun p => BandClaim.ofOption (claim p)) ps = some a) :
    ∃ before p after, ps = before ++ p :: after ∧ claim p = some a ∧
      ∀ q ∈ before, claim q = none := by
  induction ps with
  | nil => cases h
  | cons p ps ih =>
    unfold firstClaim at h
    cases hp : claim p with
    | some b =>
      rw [hp] at h
      obtain rfl : b = a := Option.some.inj h
      exact ⟨[], p, ps, rfl, hp, fun _ hq => by cases hq⟩
    | none =>
      rw [hp] at h
      obtain ⟨before, q, after, rfl, hq, hbefore⟩ := ih h
      refine ⟨p :: before, q, after, rfl, hq, fun r hr => ?_⟩
      rcases List.mem_cons.mp hr with rfl | hr
      · exact hp
      · exact hbefore r hr

theorem firstClaim_eq_none {α : Type} {claim : Priority → Option α} {ps : List Priority} :
    firstClaim (fun p => BandClaim.ofOption (claim p)) ps = none ↔ ∀ p ∈ ps, claim p = none := by
  induction ps with
  | nil => simp [firstClaim]
  | cons p ps ih =>
    unfold firstClaim
    cases hp : claim p with
    | some a => simp [BandClaim.ofOption, hp]
    | none =>
      show firstClaim _ ps = none ↔ _
      rw [ih, List.forall_mem_cons]
      exact (and_iff_right hp).symm

/-- The calendar's band and the others are all the bands. -/
theorem mem_searchOrder (target p : Priority) :
    p ∈ target :: kFallbackPriorityOrder.filter (· ≠ target) := by
  cases target <;> cases p <;> decide

/-- **`claim_global` fails exactly when all bands are empty.** -/
theorem claimGlobal_eq_none (h : WellLinked rq) (index : Nat) (bursts : Priority → Nat) :
    rq.claimGlobal index bursts = none ↔ ∀ p, BandEmpty rq p := by
  simp only [claimGlobal, claimByCalendar, Option.map_eq_none_iff, firstClaim_eq_none]
  refine ⟨fun hnone p => ?_, fun hempty p _ => ?_⟩
  · exact (claimGlobalBandLocked_eq_none h p _).mp (hnone p (mem_searchOrder _ p))
  · exact (claimGlobalBandLocked_eq_none h p _).mpr (hempty p)

/-- A successful claim is one of a band, the calendar's unless that is empty. -/
theorem claimGlobal_band (h : WellLinked rq) {index : Nat} {bursts bursts' : Priority → Nat}
    {c : Claimed I} (hc : rq.claimGlobal index bursts = some (c, bursts')) :
    ∃ p rq' burst, rq.claimGlobalBandLocked p (bursts p) = some (c.out, rq', burst) ∧
      c.queues = rq'.countClaim ∧ bursts' = Function.update bursts p burst ∧
      c.calendarIndex = nextIndex index ∧
      (¬ BandEmpty rq (calendarTarget index) → p = calendarTarget index) := by
  simp only [claimGlobal, Option.map_eq_some_iff, Prod.mk.injEq, Prod.exists] at hc
  obtain ⟨out, rq', burstsAfter, _, hcal, rfl, rfl⟩ := hc
  simp only [claimByCalendar, Option.map_eq_some_iff, Prod.mk.injEq] at hcal
  obtain ⟨_, hfirst, rfl, rfl⟩ := hcal
  obtain ⟨before, p, after, horder, hclaim, hbefore⟩ := firstClaim_ofOption hfirst
  simp only [Option.map_eq_some_iff, Prod.mk.injEq, Prod.exists] at hclaim
  obtain ⟨_, _, burst, hclaim, rfl, rfl, rfl⟩ := hclaim
  refine ⟨p, _, burst, hclaim, rfl, rfl, rfl, fun hfull => ?_⟩
  cases before with
  | nil => exact (List.cons.inj horder).1.symm
  | cons q before =>
    obtain rfl := (List.cons.inj horder).1
    have hnone := hbefore _ List.mem_cons_self
    rw [Option.map_eq_none_iff, claimGlobalBandLocked_eq_none h] at hnone
    exact absurd hnone hfull

end Claims

/-! ## The record of a run -/

namespace Attempt
variable {a : Attempt I} {p : Priority} {k : QueuePlace} {t : QueuedTask I}

theorem Served.takesFrom (h : a.Served p k t) (l : QueuePlace) :
    a.takesFrom l = decide (l = k) := by
  unfold Attempt.takesFrom
  by_cases hl : l = k
  · subst hl
    have hlength := h.taken.length_eq
    rw [List.length_append, List.length_singleton] at hlength
    simp [← hlength]
  · simp [h.others l hl, hl]

theorem ServedDeadline.serves (h : a.ServedDeadline p t) (q : Priority) :
    a.serves q = decide (q = p) := by
  simp [Attempt.serves, h.toServed.takesFrom]

theorem ServedFifo.serves (h : a.ServedFifo p t) (q : Priority) :
    a.serves q = decide (q = p) := by
  simp [Attempt.serves, h.toServed.takesFrom]

/-- A call that succeeds serves one band, the calendar's if that has a task. -/
theorem Outcome.served (h : a.Outcome) (hs : a.succeeded) :
    ∃ p, (∀ q, a.serves q = decide (q = p)) ∧
      (¬ BandEmpty a.before (calendarTarget a.calendarIndex) →
        p = calendarTarget a.calendarIndex) := by
  cases h with
  | failed h => simp [Attempt.succeeded, h.result] at hs
  | deadline p t h => exact ⟨p, h.serves, h.target⟩
  | fifo p t h => exact ⟨p, h.serves, h.target⟩

theorem Outcome.result_eq_none (h : a.Outcome) :
    a.result = none ↔ ∀ p, BandEmpty a.before p := by
  have hfull : ∀ {p k t}, a.Served p k t → (k = .edf p ∨ k = .fifo p) →
      (a.result = none ↔ ∀ p, BandEmpty a.before p) := by
    intro p k t h hk
    refine iff_of_false (by simp [h.result]) fun hempty => ?_
    have htaken := h.taken.length_eq
    rcases hk with rfl | rfl
    · rw [(hempty p).1] at htaken
      simp at htaken
    · rw [(hempty p).2] at htaken
      simp at htaken
  cases h with
  | failed h => exact iff_of_true h.result h.empty
  | deadline p t h => exact hfull h.toServed (.inl rfl)
  | fifo p t h => exact hfull h.toServed (.inr rfl)

/-- The second call follows on the first. -/
def Follows (a b : Attempt I) : Prop :=
  b.calendarIndex = a.calendarIndexAfter ∧ b.deadlineBursts = a.deadlineBurstsAfter

end Attempt

def ClaimantRun.successes (s : ClaimantRun I) : List (Attempt I) :=
  s.attempts.filter Attempt.succeeded

section Runs
variable [DecidableEq I] {s s' : ClaimantRun I}

theorem attempt_outcome (h : WellLinked s.run.queues) : s.attempt.Outcome := by
  unfold ClaimantRun.attempt
  cases hc : s.run.queues.claimGlobal s.calendarIndex s.deadlineBursts with
  | none =>
    exact .failed ⟨rfl, (claimGlobal_eq_none h _ _).mp hc, rfl, rfl, rfl⟩
  | some r =>
    obtain ⟨⟨out, queues, index⟩, bursts⟩ := r
    obtain ⟨p, rq, burst, hband, rfl, rfl, rfl, htarget⟩ := claimGlobal_band h hc
    rcases claimGlobalBandLocked_cases h hband with ⟨hpop, rfl, hburst⟩ | ⟨hpop, rfl⟩
    · obtain ⟨hperm, honly⟩ := popEdf_at h hpop
      exact .deadline p out
        ⟨⟨rfl, hperm, honly.countClaim.other, htarget, rfl⟩, ⟨rq, hpop, rfl⟩, hburst, rfl⟩
    · obtain ⟨htasks, honly⟩ := popFifo_at h hpop
      refine .fifo p out ⟨⟨rfl, ?_, honly.countClaim.other, htarget, rfl⟩, htasks, rfl⟩
      show (rq.tasksAt (.fifo p) ++ [out]).Perm (s.run.queues.tasksAt (.fifo p))
      rw [htasks]
      exact List.perm_append_singleton ..

/-- A call reads the state it is made in. -/
theorem attempt_reads (s : ClaimantRun I) :
    s.attempt.before = s.run.queues ∧ s.attempt.published = s.run.publishedInvokers ∧
      s.attempt.calendarIndex = s.calendarIndex ∧ s.attempt.deadlineBursts = s.deadlineBursts := by
  unfold ClaimantRun.attempt
  dsimp only
  split <;> exact ⟨rfl, rfl, rfl, rfl⟩

variable [TaskInvokerBase I]

/-- What every step keeps. -/
structure Inv (s : ClaimantRun I) : Prop where
  accounted : Accounted s.run
  outcomes : ∀ a ∈ s.attempts, a.Outcome
  index : s.calendarIndex < 2 ^ 64
  indices : ∀ a ∈ s.attempts, a.calendarIndex < 2 ^ 64
  chain : s.successes.IsChain Attempt.Follows
  last : ∀ a ∈ s.successes.getLast?,
    s.calendarIndex = a.calendarIndexAfter ∧ s.deadlineBursts = a.deadlineBurstsAfter

theorem Inv.claim (h : Inv s) {run : QueueRun I}
    (hrun : s.run.next (.claimGlobal s.calendarIndex s.deadlineBursts) = some run) :
    Inv { run := run
          calendarIndex := s.attempt.calendarIndexAfter
          deadlineBursts := s.attempt.deadlineBurstsAfter
          attempts := s.attempts ++ [s.attempt] } := by
  have houtcome := attempt_outcome h.accounted.wellLinked
  obtain ⟨-, -, hindex, hbursts⟩ := attempt_reads s
  have hbound : s.attempt.calendarIndexAfter < 2 ^ 64 := by
    have hnext : nextIndex s.attempt.calendarIndex < 2 ^ 64 :=
      Nat.lt_trans (Nat.mod_lt _ (by decide)) (by decide : kPriorityCalendarLength < 2 ^ 64)
    cases houtcome with
    | failed hf => rw [hf.index, hindex]; exact h.index
    | deadline p t hs => rw [hs.index]; exact hnext
    | fifo p t hs => rw [hs.index]; exact hnext
  have hmem : ∀ {P : Attempt I → Prop}, (∀ a ∈ s.attempts, P a) → P s.attempt →
      ∀ a ∈ s.attempts ++ [s.attempt], P a := by
    intro P hold hnew a ha
    rcases List.mem_append.mp ha with ha | ha
    · exact hold a ha
    · rw [List.mem_singleton.mp ha]
      exact hnew
  have hnext : QueueConservation.machine.next s.run
      (.claimGlobal s.calendarIndex s.deadlineBursts) = some run := hrun
  refine ⟨h.accounted.step hnext, hmem h.outcomes houtcome, hbound,
    hmem h.indices (hindex ▸ h.index), ?_, ?_⟩
  all_goals
    simp only [ClaimantRun.successes, List.filter_append]
    by_cases hs : s.attempt.succeeded
  · rw [List.filter_cons_of_pos hs, List.filter_nil]
    refine h.chain.append (List.isChain_singleton _) fun a ha b hb => ?_
    obtain rfl := Option.some.inj hb
    obtain ⟨hi, hb⟩ := h.last a ha
    exact ⟨hindex.trans hi, hbursts.trans hb⟩
  · rw [List.filter_cons_of_neg hs, List.filter_nil, List.append_nil]
    exact h.chain
  · rw [List.filter_cons_of_pos hs, List.filter_nil, List.getLast?_concat]
    intro a ha
    obtain rfl := Option.some.inj ha
    exact ⟨rfl, rfl⟩
  · rw [List.filter_cons_of_neg hs, List.filter_nil, List.append_nil]
    intro a ha
    obtain ⟨hi, hb⟩ := h.last a ha
    cases houtcome with
    | failed hf => exact ⟨hf.index.trans (hindex.trans hi), hf.bursts.trans (hbursts.trans hb)⟩
    | deadline p t hd => simp [Attempt.succeeded, hd.result] at hs
    | fifo p t hd => simp [Attempt.succeeded, hd.result] at hs

theorem Inv.step (h : Inv s) {label : Label I} (hs : next s label = some s') : Inv s' := by
  cases label with
  | claim =>
    dsimp only [GlobalClaims.next] at hs
    obtain ⟨run, hrun, rfl⟩ := Option.map_eq_some_iff.mp hs
    exact h.claim hrun
  | other op =>
    obtain ⟨run, hrun, rfl⟩ := Option.map_eq_some_iff.mp hs
    have hnext : QueueConservation.machine.next s.run op = some run := hrun
    exact ⟨h.accounted.step hnext, h.outcomes, h.index, h.indices, h.chain, h.last⟩

theorem inv_of_reachable (h : machine.Reachable s) : Inv s := by
  induction h with
  | initial hinit =>
    obtain ⟨hrun, hindex, hnone⟩ := hinit
    refine ⟨.init hrun, ?_, hindex, ?_, ?_, ?_⟩ <;> simp [hnone, ClaimantRun.successes]
  | step _ _ hs ih => exact ih.step hs

end Runs

end GlobalClaims
end AstraScheduler
