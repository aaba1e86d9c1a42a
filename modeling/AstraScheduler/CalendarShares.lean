import AstraScheduler.GlobalClaims
import Mathlib.Data.List.Iterate

/-! # The shares of the bands

Every successful claim advances the calendar by one slot, also when it was served from another
band than the slot's.  Any fifteen of them in a row have met each slot once, wherever they
began, and a slot whose band has a task serves that band. -/

namespace AstraScheduler
namespace GlobalClaims
variable {I : Type}

/-- How many of the calendar's slots are the band's. -/
def calendarShare : Priority → Nat
  | .critical => 8
  | .high => 4
  | .normal => 2
  | .low => 1

/-- Weighted shares, whatever else happens to the queues. -/
structure FairShares (s : ClaimantRun I) : Prop where
  fails : ∀ a ∈ s.attempts, a.result = none ↔ ∀ p, BandEmpty a.before p
  failedKeepsIndex : ∀ a ∈ s.attempts, a.result = none → a.calendarIndexAfter = a.calendarIndex
  share : ∀ window, window <:+: s.successes → window.length = kPriorityCalendarLength →
    ∀ p, (∀ a ∈ window, ¬ BandEmpty a.before p) → calendarShare p ≤ window.countP (·.serves p)
  exact : ∀ window, window <:+: s.successes → window.length = kPriorityCalendarLength →
    (∀ a ∈ window, ∀ p, ¬ BandEmpty a.before p) →
      ∀ p, window.countP (·.serves p) = calendarShare p

/-! ## Fifteen slots in a row -/

theorem nextIndex_mod {i : Nat} (hi : i + 1 < 2 ^ 64) :
    nextIndex i = nextIndex (i % kPriorityCalendarLength) := by
  unfold nextIndex kPriorityCalendarLength
  omega

theorem calendarTarget_mod (i : Nat) :
    calendarTarget i = calendarTarget (i % kPriorityCalendarLength) := by
  unfold calendarTarget
  rw [Nat.mod_mod]

/-- The bands of fifteen slots in a row. -/
def slots (i : Nat) : List Priority :=
  (List.iterate nextIndex i kPriorityCalendarLength).map calendarTarget

theorem slots_mod {i : Nat} (hi : i + 1 < 2 ^ 64) :
    slots i = slots (i % kPriorityCalendarLength) := by
  unfold slots
  show calendarTarget i :: (List.iterate nextIndex (nextIndex i) 14).map calendarTarget =
    calendarTarget (i % kPriorityCalendarLength) ::
      (List.iterate nextIndex (nextIndex (i % kPriorityCalendarLength)) 14).map calendarTarget
  rw [calendarTarget_mod i, nextIndex_mod hi]

/-- Fifteen slots in a row are all the slots of the calendar.  The last of the indices wraps
around to the first slot instead of the second, and both ends of the calendar are Critical. -/
theorem count_slots {i : Nat} (hi : i < 2 ^ 64) (p : Priority) :
    (slots i).count p = calendarShare p := by
  have hsmall : ∀ j < kPriorityCalendarLength, ∀ p ∈ Priority.bands,
      (slots j).count p = calendarShare p := by
    decide
  have hlast : ∀ p ∈ Priority.bands, (slots (2 ^ 64 - 1)).count p = calendarShare p := by decide
  by_cases hwrap : i + 1 < 2 ^ 64
  · rw [slots_mod hwrap]
    exact hsmall _ (Nat.mod_lt _ (by decide)) p (QueuePlace.mem_bands p)
  · obtain rfl : i = 2 ^ 64 - 1 := by omega
    exact hlast p (QueuePlace.mem_bands p)

/-- The indices of successive claims are successive. -/
theorem indices_of_chain {window : List (Attempt I)} {a : Attempt I}
    (hchain : (a :: window).IsChain Attempt.Follows)
    (hserved : ∀ b ∈ a :: window, b.calendarIndexAfter = nextIndex b.calendarIndex) :
    (a :: window).map Attempt.calendarIndex =
      List.iterate nextIndex a.calendarIndex (a :: window).length := by
  induction window generalizing a with
  | nil => rfl
  | cons b window ih =>
    obtain ⟨hfollows, hrest⟩ := List.isChain_cons_cons.mp hchain
    have hnext : b.calendarIndex = nextIndex a.calendarIndex :=
      hfollows.1.trans (hserved a List.mem_cons_self)
    have hih := ih hrest fun c hc => hserved c (List.mem_cons_of_mem a hc)
    rw [List.map_cons, hih, hnext]
    rfl

theorem Attempt.Outcome.index {a : Attempt I} (h : a.Outcome) (hs : a.succeeded) :
    a.calendarIndexAfter = nextIndex a.calendarIndex := by
  cases h with
  | failed h => simp [Attempt.succeeded, h.result] at hs
  | deadline p t h => exact h.index
  | fifo p t h => exact h.index

/-- The share of a band in several windows in a row. -/
theorem FairShares.windows {s : ClaimantRun I} (h : FairShares s) {n : Nat}
    {window : List (Attempt I)}
    (hw : window <:+: s.successes) (hlength : window.length = n * kPriorityCalendarLength)
    {p : Priority} (hfull : ∀ a ∈ window, ¬ BandEmpty a.before p) :
    n * calendarShare p ≤ window.countP (·.serves p) := by
  induction n generalizing window with
  | zero => simp
  | succ n ih =>
    have hsplit := List.take_append_drop kPriorityCalendarLength window
    have hfirst := h.share (window.take kPriorityCalendarLength)
      ((List.take_prefix ..).isInfix.trans hw)
      (by rw [List.length_take, hlength, Nat.succ_mul]; omega) p
      fun a ha => hfull a (List.mem_of_mem_take ha)
    have hrest := ih ((List.drop_suffix kPriorityCalendarLength window).isInfix.trans hw)
      (by rw [List.length_drop, hlength, Nat.succ_mul]; omega)
      fun a ha => hfull a (List.mem_of_mem_drop ha)
    rw [← hsplit, List.countP_append, Nat.succ_mul]
    omega

section
variable [DecidableEq I] [TaskInvokerBase I] {s : ClaimantRun I}

/-- A window's targets are fifteen slots in a row. -/
theorem Inv.targets (h : Inv s) {window : List (Attempt I)} (hw : window <:+: s.successes)
    (hlength : window.length = kPriorityCalendarLength) (p : Priority) :
    window.countP (fun a => calendarTarget a.calendarIndex = p) = calendarShare p := by
  have hmem : ∀ a ∈ window, a ∈ s.attempts ∧ a.succeeded := fun a ha =>
    List.mem_filter.mp (hw.subset ha)
  cases window with
  | nil => cases hlength
  | cons a window =>
    have hchain := List.IsChain.infix h.chain hw
    have hindices := indices_of_chain hchain fun b hb =>
      (h.outcomes b (hmem b hb).1).index (hmem b hb).2
    have hcount := count_slots (h.indices a (hmem a List.mem_cons_self).1) p
    rw [hlength] at hindices
    rw [slots, ← hindices, List.map_map, List.count_eq_countP, List.countP_map] at hcount
    rw [← hcount]
    exact List.countP_congr fun b _ => by simp

theorem Inv.fairShares (hinv : Inv s) : FairShares s := by
  have hserved : ∀ {window : List (Attempt I)}, window <:+: s.successes → ∀ a ∈ window,
      ∃ p, (∀ q, a.serves q = decide (q = p)) ∧
        (¬ BandEmpty a.before (calendarTarget a.calendarIndex) →
          p = calendarTarget a.calendarIndex) := by
    intro window hw a ha
    obtain ⟨hmem, hs⟩ := List.mem_filter.mp (hw.subset ha)
    exact (hinv.outcomes a hmem).served hs
  constructor
  · exact fun a ha => (hinv.outcomes a ha).result_eq_none
  · intro a ha hnone
    cases hinv.outcomes a ha with
    | failed h => exact h.index
    | deadline p t h => simp [h.result] at hnone
    | fifo p t h => simp [h.result] at hnone
  · intro window hw hlength p hfull
    rw [← hinv.targets hw hlength p]
    refine List.countP_mono_left fun a ha htarget => ?_
    have htarget := of_decide_eq_true htarget
    obtain ⟨q, hserves, hband⟩ := hserved hw a ha
    rw [hserves, hband (htarget ▸ hfull a ha), htarget, decide_eq_true rfl]
  · intro window hw hlength hfull p
    rw [← hinv.targets hw hlength p]
    refine List.countP_congr fun a ha => ?_
    obtain ⟨q, hserves, hband⟩ := hserved hw a ha
    rw [hserves, hband (hfull a ha _)]
    simp only [decide_eq_true_eq]
    exact eq_comm

/-- **Weighted shares**: whatever the other bands hold and the other claimants take. -/
theorem fairShares_of_reachable (h : machine.Reachable s) : FairShares s :=
  (inv_of_reachable h).fairShares

/-- High and Normal tasks in turn, fifteen of each, and as many claims from slot 7. -/
def twoBands : List (Label Invoker) :=
  ((List.range 30).map fun i =>
    Label.other (.publish ⟨i, false, if i % 2 = 0 then .high else .normal, none⟩ false false 0)) ++
    List.replicate 15 Label.claim

def claimantStart : ClaimantRun Invoker where
  run := { queues := { localBackend := .chaseLevLockFree, workerCount := 1 } }
  calendarIndex := 7
  deadlineBursts _ := 0

theorem fairShares_twoBands :
    ∃ s : ClaimantRun Invoker, s.successes.length = 15 ∧
      s.successes.countP (·.serves .high) = 13 ∧ FairShares s := by
  obtain ⟨s, hs⟩ := Option.isSome_iff_exists.mp
    (show (machine.run claimantStart twoBands).isSome by decide +kernel)
  have hend : (machine.run claimantStart twoBands).map (fun s => decide
      (s.successes.length = 15 ∧ s.successes.countP (·.serves .high) = 13)) = some true := by
    decide +kernel
  simp only [hs, Option.map_some, Option.some.injEq, decide_eq_true_eq] at hend
  exact ⟨s, hend.1, hend.2, fairShares_of_reachable (Transition.Machine.reachable_of_run
    ⟨⟨.chaseLevLockFree, 1, rfl⟩, by decide, rfl⟩ hs)⟩

end

end GlobalClaims
end AstraScheduler
