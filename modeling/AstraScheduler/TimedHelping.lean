import Mathlib.Algebra.Ring.Nat
import Mathlib.Data.Nat.Basic
import Mathlib.Tactic.Common

/-! # Helping with and without a deadline

`perform_caller_wait` and `perform_graph_caller_wait` run the same `perform_helping_loop` and
hand it a `wait_for_target` that blocks in one of two ways: without a deadline for a poll
interval, with one until the deadline.  Both wake up when the target completes.  Here is one
worker in that loop against a schedule of what the other threads do, and what the two ways
make it claim. -/

namespace AstraScheduler
namespace TimedHelping

/-- What the other threads do, in ticks from the beginning of the wait, and what the tasks do that
the worker executes.  A task is published when a probe of the worker can find it. -/
structure Schedule (Task : Type) where
  /-- A millisecond has one tick more. -/
  resolution : Nat
  published : Nat → List Task
  /-- The tasks that other workers claim, where they are still queued. -/
  taken : Nat → List Task
  /-- When another thread completes the target. -/
  completedAt : Option Nat
  duration : Task → Nat
  /-- What an execution publishes. -/
  spawned : Task → List Task
  /-- The execution completes the target. -/
  completes : Task → Bool
  /-- Which of the queued tasks a probe finds. -/
  index : List Task → Nat

inductive Place (Task : Type) where
  /-- At the head of the loop. -/
  | probing
  | executing (task : Task) (left : Nat)
  /-- In `wait_for_target`. -/
  | blocked (wake : Nat)
  | returned
  deriving DecidableEq, Repr

structure Worker (Task : Type) where
  place : Place Task := .probing
  queue : List Task
  claimed : List Task := []
  completed : Bool := false
  deriving DecidableEq, Repr

section Loop
variable {Task : Type} (schedule : Schedule Task) (deadline : Option Nat)

/-- `kHelpingPollInterval`, two milliseconds. -/
def Schedule.helpingPollInterval : Nat := 2 * (schedule.resolution + 1)

/-- How long `wait_for_target` blocks, unless the target completes. -/
def blockedUntil (now : Nat) : Nat := deadline.getD (now + schedule.helpingPollInterval)

/-- `is_complete`. -/
def Schedule.isComplete (now : Nat) (completed : Bool) : Bool :=
  completed || schedule.completedAt.any (· ≤ now)

/-- `claim_local`, `claim_global` and `steal`. -/
def Schedule.claim (queue : List Task) : Option (Task × List Task) :=
  match queue with
  | [] => none
  | task :: rest =>
    let i := schedule.index queue % queue.length
    some ((queue[i]?).getD task, (task :: rest).eraseIdx i)

/-- One turn of the loop. -/
def probe (now : Nat) (x : Worker Task) : Worker Task :=
  if schedule.isComplete now x.completed ∨ deadline.any (· ≤ now) then { x with place := .returned }
  else
    match schedule.claim x.queue with
    | some (task, queue) =>
      { x with
        place := .executing task (schedule.duration task)
        queue := queue
        claimed := x.claimed ++ [task] }
    | none => { x with place := .blocked (blockedUntil schedule deadline now) }

/-- What the worker does in a tick. -/
def turn (now : Nat) (x : Worker Task) : Worker Task :=
  match x.place with
  | .probing => probe schedule deadline now x
  | .executing task 0 =>
    probe schedule deadline now
      { x with
        queue := x.queue ++ schedule.spawned task
        completed := x.completed || schedule.completes task }
  | .executing task (left + 1) => { x with place := .executing task left }
  | .blocked wake =>
    if schedule.isComplete now x.completed ∨ wake ≤ now then probe schedule deadline now x else x
  | .returned => x

variable [DecidableEq Task]

/-- The queue after what the other threads do. -/
def Schedule.arrive (now : Nat) (queue : List Task) : List Task :=
  (queue ++ schedule.published now).diff (schedule.taken now)

def tick (now : Nat) (x : Worker Task) : Worker Task :=
  turn schedule deadline now { x with queue := schedule.arrive now x.queue }

/-- The worker before the given time, in a wait that begins at time zero. -/
def run (queue : List Task) : Nat → Worker Task
  | 0 => { queue := queue }
  | now + 1 => tick schedule deadline now (run queue now)

/-! ## The property -/

/-- **The timed wait agrees with the untimed one**: before the deadline it claims, and executes,
every task that the untimed wait claims. -/
def Agrees (queue : List Task) (deadline : Nat) : Prop :=
  ∀ task, (run schedule none queue deadline).claimed.count task ≤
    (run schedule (some deadline) queue deadline).claimed.count task

/-- The loop calls `wait_for_target` for the first time. -/
structure FirstWait (queue : List Task) (now : Nat) : Prop where
  before : ∀ k ≤ now, ∀ wake, (run schedule none queue k).place ≠ .blocked wake
  blocks : ∃ wake, (run schedule none queue (now + 1)).place = .blocked wake

/-- What has arrived at an empty queue in the given number of ticks. -/
def Schedule.arrivals (since : Nat) : Nat → List Task
  | 0 => []
  | k + 1 => schedule.arrive (since + (k + 1)) (Schedule.arrivals since k)

/-- The other threads complete the target later than that. -/
def Schedule.OpenAt (now : Nat) : Prop := schedule.completedAt.any (· ≤ now) = false

/-- At every poll that an untimed wait makes after the first empty probe, before the deadline
and before another thread completes the target, there is nothing to claim. -/
def NothingArrives (queue : List Task) (deadline : Nat) : Prop :=
  ∀ since, FirstWait schedule queue since → ∀ k, 0 < k →
    since + k * schedule.helpingPollInterval < deadline →
    schedule.OpenAt (since + k * schedule.helpingPollInterval) →
    schedule.arrivals since (k * schedule.helpingPollInterval) = []

end Loop

/-! ## The common beginning -/

section Beginning
variable {Task : Type} {schedule : Schedule Task} {deadline now : Nat} {x : Worker Task}

theorem helpingPollInterval_pos (schedule : Schedule Task) : 0 < schedule.helpingPollInterval := by
  unfold Schedule.helpingPollInterval
  omega

theorem claim_eq_none {queue : List Task} (h : schedule.claim queue = none) : queue = [] := by
  cases queue with
  | nil => rfl
  | cons task rest => cases h

theorem probe_of_complete {d : Option Nat} (h : schedule.isComplete now x.completed = true) :
    probe schedule d now x = { x with place := .returned } := by
  simp only [probe, h, true_or, if_true]

theorem probe_of_open {d : Option Nat} (hopen : schedule.isComplete now x.completed = false)
    (hd : d.any (· ≤ now) = false) :
    probe schedule d now x =
      match schedule.claim x.queue with
      | some (task, queue) =>
        { x with
          place := .executing task (schedule.duration task)
          queue := queue
          claimed := x.claimed ++ [task] }
      | none => { x with place := .blocked (blockedUntil schedule d now) } := by
  simp only [probe, hopen, hd, Bool.false_eq_true, or_self, if_false]

theorem before_deadline (hnow : now < deadline) : (some deadline).any (· ≤ now) = false := by
  simpa using hnow

/-- Before the deadline the two ways only differ where the loop blocks. -/
theorem probe_eq (hnow : now < deadline)
    (hplace : ∀ wake, (probe schedule none now x).place ≠ .blocked wake) :
    probe schedule (some deadline) now x = probe schedule none now x := by
  cases hopen : schedule.isComplete now x.completed with
  | true => rw [probe_of_complete hopen, probe_of_complete hopen]
  | false =>
    rw [probe_of_open hopen rfl] at hplace
    rw [probe_of_open hopen (before_deadline hnow), probe_of_open hopen rfl]
    cases hclaim : schedule.claim x.queue with
    | some found => rfl
    | none =>
      rw [hclaim] at hplace
      exact absurd rfl (hplace _)

/-- A turn that blocks has found nothing and leaves everything but the place. -/
theorem probe_blocks {wake : Nat} (hnow : now < deadline)
    (hplace : (probe schedule none now x).place = .blocked wake) :
    x.queue = [] ∧ x.completed = false ∧
      probe schedule none now x = { x with place := .blocked (now + schedule.helpingPollInterval) } ∧
      probe schedule (some deadline) now x = { x with place := .blocked deadline } := by
  cases hopen : schedule.isComplete now x.completed with
  | true =>
    rw [probe_of_complete hopen] at hplace
    cases hplace
  | false =>
    rw [probe_of_open hopen rfl] at hplace ⊢
    rw [probe_of_open hopen (before_deadline hnow)]
    cases hclaim : schedule.claim x.queue with
    | some found =>
      rw [hclaim] at hplace
      cases hplace
    | none => exact ⟨claim_eq_none hclaim, (Bool.or_eq_false_iff.mp hopen).1, rfl, rfl⟩

/-- A worker that comes to block while it did not has probed. -/
theorem turn_probes {wake : Nat} (hbefore : ∀ wake, x.place ≠ .blocked wake)
    (hafter : (turn schedule none now x).place = .blocked wake) :
    ∃ z, ∀ d, turn schedule d now x = probe schedule d now z := by
  unfold turn at hafter ⊢
  cases hplace : x.place with
  | probing => exact ⟨_, fun d => rfl⟩
  | executing task left =>
    cases left with
    | zero => exact ⟨_, fun d => rfl⟩
    | succ left =>
      rw [hplace] at hafter
      cases hafter
  | blocked wake => exact absurd hplace (hbefore wake)
  | returned =>
    simp only [hplace] at hafter
    cases hafter

theorem turn_eq (hnow : now < deadline) (hbefore : ∀ wake, x.place ≠ .blocked wake)
    (hafter : ∀ wake, (turn schedule none now x).place ≠ .blocked wake) :
    turn schedule (some deadline) now x = turn schedule none now x := by
  unfold turn at hafter ⊢
  cases hplace : x.place with
  | probing =>
    rw [hplace] at hafter
    exact probe_eq hnow hafter
  | executing task left =>
    rw [hplace] at hafter
    cases left with
    | zero => exact probe_eq hnow hafter
    | succ left => rfl
  | blocked wake => exact absurd hplace (hbefore wake)
  | returned => rfl

variable [DecidableEq Task]

theorem tick_blocked {d : Option Nat} {wake : Nat} (h : x.place = .blocked wake) :
    tick schedule d now x =
      if schedule.isComplete now x.completed ∨ wake ≤ now then
        probe schedule d now { x with queue := schedule.arrive now x.queue }
      else { x with queue := schedule.arrive now x.queue } := by
  simp only [tick, turn, h]

theorem tick_returned {d : Option Nat} (h : x.place = .returned) :
    tick schedule d now x = { x with queue := schedule.arrive now x.queue } := by
  simp only [tick, turn, h]

/-- **As long as the loop has not blocked, the two waits are in the same state.** -/
theorem run_eq {queue : List Task} {k : Nat} (hk : k ≤ deadline)
    (hplace : ∀ j ≤ k, ∀ wake, (run schedule none queue j).place ≠ .blocked wake) :
    run schedule (some deadline) queue k = run schedule none queue k := by
  induction k with
  | zero => rfl
  | succ k ih =>
    have hsame := ih (by omega) fun j hj => hplace j (by omega)
    simp only [run, hsame]
    exact turn_eq (by omega) (hplace k (by omega)) (hplace (k + 1) (Nat.le_refl _))

/-- What the two waits are when they block for the first time. -/
theorem FirstWait.blocks_both {queue : List Task} (h : FirstWait schedule queue now)
    (hnow : now < deadline) :
    ∃ z : Worker Task, z.queue = [] ∧ z.completed = false ∧
      run schedule none queue (now + 1) =
        { z with place := .blocked (now + schedule.helpingPollInterval) } ∧
      run schedule (some deadline) queue (now + 1) = { z with place := .blocked deadline } := by
  obtain ⟨wake, hwake⟩ := h.blocks
  have hsame := run_eq (Nat.le_of_lt hnow) h.before
  obtain ⟨z, hz⟩ := turn_probes (x := { run schedule none queue now with
    queue := schedule.arrive now (run schedule none queue now).queue })
    (h.before now (Nat.le_refl now)) hwake
  rw [run, tick, hz] at hwake
  obtain ⟨hqueue, hcompleted, huntimed, htimed⟩ := probe_blocks hnow hwake
  refine ⟨z, hqueue, hcompleted, ?_, ?_⟩
  · rw [run, tick, hz, huntimed]
  · rw [run, hsame, tick, hz, htimed]

end Beginning

/-! ## Blocked until the deadline -/

section Timed
variable {Task : Type} [DecidableEq Task] {schedule : Schedule Task} {queue : List Task}
  {deadline now : Nat} {z : Worker Task}

/-- **A timed wait that has blocked claims nothing any more.** -/
theorem timed_claims_nothing
    (hblocked : run schedule (some deadline) queue (now + 1) =
      { z with place := .blocked deadline }) {k : Nat} (hk : now + 1 + k ≤ deadline) :
    (run schedule (some deadline) queue (now + 1 + k)).claimed = z.claimed ∧
      ((run schedule (some deadline) queue (now + 1 + k)).place = .blocked deadline ∨
        (run schedule (some deadline) queue (now + 1 + k)).place = .returned) := by
  induction k with
  | zero => exact ⟨by rw [Nat.add_zero, hblocked], .inl (by rw [Nat.add_zero, hblocked])⟩
  | succ k ih =>
    obtain ⟨hclaimed, hplace⟩ := ih (by omega)
    have hbefore : ¬ deadline ≤ now + 1 + k := by omega
    rw [← Nat.add_assoc, run]
    rcases hplace with hplace | hplace
    · rw [tick_blocked hplace]
      split
      · rename_i hwakes
        rw [probe_of_complete (by exact hwakes.resolve_right hbefore)]
        exact ⟨hclaimed, .inr rfl⟩
      · exact ⟨hclaimed, .inl hplace⟩
    · rw [tick_returned hplace]
      exact ⟨hclaimed, .inr hplace⟩

end Timed

/-! ## Polling -/

section Untimed
variable {Task : Type} [DecidableEq Task] {schedule : Schedule Task} {queue : List Task}
  {since : Nat} {z : Worker Task}

omit [DecidableEq Task] in
theorem openAt_of_le {now now' : Nat} (h : schedule.OpenAt now') (hle : now ≤ now') :
    schedule.OpenAt now := by
  unfold Schedule.OpenAt at h ⊢
  cases hat : schedule.completedAt with
  | none => rfl
  | some time =>
    rw [hat] at h
    simp only [Option.any_some, decide_eq_false_iff_not] at h ⊢
    omega

/-- **An untimed wait that has blocked claims nothing as long as its polls find nothing.** -/
theorem untimed_polls (hqueue : z.queue = []) (hcompleted : z.completed = false)
    (hblocked : run schedule none queue (since + 1) =
      { z with place := .blocked (since + schedule.helpingPollInterval) }) {m : Nat}
    (hnothing : ∀ k, 0 < k → k * schedule.helpingPollInterval ≤ m →
      schedule.OpenAt (since + k * schedule.helpingPollInterval) →
      schedule.arrivals since (k * schedule.helpingPollInterval) = []) :
    (run schedule none queue (since + 1 + m)).claimed = z.claimed ∧
      (run schedule none queue (since + 1 + m)).completed = false ∧
      ((run schedule none queue (since + 1 + m)).place = .returned ∧
          ¬ schedule.OpenAt (since + m) ∨
        (run schedule none queue (since + 1 + m)).queue = schedule.arrivals since m ∧
          ∃ k, (run schedule none queue (since + 1 + m)).place =
            .blocked (since + (k + 1) * schedule.helpingPollInterval) ∧
          k * schedule.helpingPollInterval ≤ m ∧ m < (k + 1) * schedule.helpingPollInterval) := by
  induction m with
  | zero =>
    rw [Nat.add_zero, hblocked]
    refine ⟨rfl, hcompleted, .inr ⟨hqueue, 0, ?_, by omega, ?_⟩⟩
    · rw [Nat.zero_add, Nat.one_mul]
    · rw [Nat.zero_add, Nat.one_mul]
      exact helpingPollInterval_pos schedule
  | succ m ih =>
    obtain ⟨hclaimed, hopenTarget, hplace⟩ := ih fun k hk hle => hnothing k hk (by omega)
    rw [← Nat.add_assoc, run]
    generalize run schedule none queue (since + 1 + m) = x at hclaimed hopenTarget hplace ⊢
    have hnow : since + 1 + m = since + (m + 1) := by omega
    rcases hplace with ⟨hreturned, hdone⟩ | ⟨harrived, k, hplace, hlower, hupper⟩
    · rw [tick_returned hreturned]
      refine ⟨hclaimed, hopenTarget, .inl ⟨hreturned, fun hopen => hdone ?_⟩⟩
      exact openAt_of_le hopen (by omega)
    · rw [tick_blocked hplace, harrived]
      cases hcomplete : schedule.isComplete (since + 1 + m) x.completed with
      | true =>
        rw [if_pos (.inl rfl), probe_of_complete (by exact hcomplete)]
        refine ⟨hclaimed, hopenTarget, .inl ⟨rfl, fun hopen => ?_⟩⟩
        rw [Schedule.isComplete, hopenTarget, hnow, hopen] at hcomplete
        cases hcomplete
      | false =>
        have hopen : schedule.OpenAt (since + (m + 1)) := by
          rw [← hnow]
          exact (Bool.or_eq_false_iff.mp hcomplete).2
        have harrive : schedule.arrive (since + 1 + m) (schedule.arrivals since m) =
            schedule.arrivals since (m + 1) := by
          rw [hnow, Schedule.arrivals]
        rw [harrive]
        by_cases hwake : since + (k + 1) * schedule.helpingPollInterval ≤ since + 1 + m
        · -- a poll, at which nothing has arrived
          have hpoll : m + 1 = (k + 1) * schedule.helpingPollInterval := by omega
          have hnone : schedule.arrivals since (m + 1) = [] := by
            rw [hpoll]
            refine hnothing (k + 1) (Nat.succ_pos k) (by omega) ?_
            rw [← hpoll]
            exact hopen
          rw [if_pos (.inr hwake), hnone, probe_of_open (by exact hcomplete) rfl]
          refine ⟨hclaimed, hopenTarget, .inr ⟨rfl, k + 1, ?_, by omega, ?_⟩⟩
          · simp only [Schedule.claim, blockedUntil, Option.getD_none, hnow, hpoll]
            rw [Nat.succ_mul (k + 1), Nat.add_assoc]
          · rw [Nat.succ_mul (k + 1), ← hpoll]
            exact Nat.lt_add_of_pos_right (helpingPollInterval_pos schedule)
        · rw [if_neg (by simpa using hwake)]
          exact ⟨hclaimed, hopenTarget, .inr ⟨rfl, k, hplace, by omega, by omega⟩⟩

/-- **The first poll that finds something claims it.** -/
theorem untimed_claims (hqueue : z.queue = []) (hcompleted : z.completed = false)
    (hblocked : run schedule none queue (since + 1) =
      { z with place := .blocked (since + schedule.helpingPollInterval) }) {k : Nat} (hk : 0 < k)
    (hnothing : ∀ j, 0 < j → j < k → schedule.OpenAt (since + j * schedule.helpingPollInterval) →
      schedule.arrivals since (j * schedule.helpingPollInterval) = [])
    (hopen : schedule.OpenAt (since + k * schedule.helpingPollInterval))
    (harrived : schedule.arrivals since (k * schedule.helpingPollInterval) ≠ []) :
    ∃ task, (run schedule none queue (since + k * schedule.helpingPollInterval + 1)).claimed =
      z.claimed ++ [task] := by
  obtain ⟨m, hm⟩ : ∃ m, k * schedule.helpingPollInterval = m + 1 :=
    Nat.exists_eq_succ_of_ne_zero
      (Nat.ne_of_gt (Nat.mul_pos hk (helpingPollInterval_pos schedule)))
  obtain ⟨hclaimed, hopenTarget, hplace⟩ := untimed_polls (m := m) hqueue hcompleted hblocked
    fun j hj hle => hnothing j hj (Nat.lt_of_mul_lt_mul_right (show
      j * schedule.helpingPollInterval < k * schedule.helpingPollInterval by omega))
  have hnow : since + k * schedule.helpingPollInterval = since + 1 + m := by omega
  rw [hnow, run]
  rcases hplace with ⟨-, hdone⟩ | ⟨harrivals, j, hplace, hlower, hupper⟩
  · exact absurd (openAt_of_le hopen (by omega)) hdone
  · have hj : j + 1 = k := by
      have hlt : j * schedule.helpingPollInterval < k * schedule.helpingPollInterval := by omega
      have hle : k * schedule.helpingPollInterval ≤ (j + 1) * schedule.helpingPollInterval := by
        omega
      have := Nat.lt_of_mul_lt_mul_right hlt
      have := Nat.le_of_mul_le_mul_right hle (helpingPollInterval_pos schedule)
      omega
    have hcomplete : schedule.isComplete (since + 1 + m)
        (run schedule none queue (since + 1 + m)).completed = false := by
      rw [Schedule.isComplete, hopenTarget, ← hnow]
      exact hopen
    have harrive : schedule.arrive (since + 1 + m) (schedule.arrivals since m) =
        schedule.arrivals since (k * schedule.helpingPollInterval) := by
      rw [hm, Schedule.arrivals, show since + 1 + m = since + (m + 1) by omega]
    rw [tick_blocked hplace, if_pos (.inr (by rw [hj, hnow])), harrivals, harrive,
      probe_of_open (by exact hcomplete) rfl]
    cases hclaim : schedule.claim (schedule.arrivals since (k * schedule.helpingPollInterval)) with
    | none => exact absurd (claim_eq_none hclaim) harrived
    | some found => exact ⟨found.1, by rw [hclaimed]⟩

end Untimed

/-! ## Agreement -/

section Agreement
variable {Task : Type} [DecidableEq Task] {schedule : Schedule Task} {queue : List Task}

omit [DecidableEq Task] in
theorem claimed_probe (d : Option Nat) (now : Nat) (x : Worker Task) :
    ∃ more, (probe schedule d now x).claimed = x.claimed ++ more := by
  unfold probe
  split
  · exact ⟨[], (List.append_nil _).symm⟩
  · split
    · exact ⟨_, rfl⟩
    · exact ⟨[], (List.append_nil _).symm⟩

omit [DecidableEq Task] in
theorem claimed_turn (d : Option Nat) (now : Nat) (x : Worker Task) :
    ∃ more, (turn schedule d now x).claimed = x.claimed ++ more := by
  unfold turn
  split
  · exact claimed_probe d now _
  · exact claimed_probe d now _
  · exact ⟨[], (List.append_nil _).symm⟩
  · split
    · exact claimed_probe d now _
    · exact ⟨[], (List.append_nil _).symm⟩
  · exact ⟨[], (List.append_nil _).symm⟩

/-- What is claimed stays claimed. -/
theorem claimed_run (d : Option Nat) (k more : Nat) :
    ∃ l, (run schedule d queue (k + more)).claimed = (run schedule d queue k).claimed ++ l := by
  induction more with
  | zero => exact ⟨[], (List.append_nil _).symm⟩
  | succ more ih =>
    obtain ⟨l, hl⟩ := ih
    obtain ⟨l', hl'⟩ := claimed_turn d (k + more)
      { run schedule d queue (k + more) with
        queue := schedule.arrive (k + more) (run schedule d queue (k + more)).queue }
    refine ⟨l ++ l', ?_⟩
    rw [← Nat.add_assoc, run, tick, hl', hl, List.append_assoc]

/-- A loop that blocks has blocked for a first time. -/
theorem exists_firstWait {k wake : Nat}
    (h : (run schedule none queue k).place = .blocked wake) :
    ∃ since < k, FirstWait schedule queue since := by
  induction k using Nat.strongRecOn generalizing wake with
  | ind k ih =>
    cases k with
    | zero => cases h
    | succ k =>
      by_cases hbefore : ∃ j ≤ k, ∃ wake, (run schedule none queue j).place = .blocked wake
      · obtain ⟨j, hj, wake, hblocked⟩ := hbefore
        obtain ⟨since, hlt, hfirst⟩ := ih j (by omega) hblocked
        exact ⟨since, by omega, hfirst⟩
      · exact ⟨k, Nat.lt_succ_self k, fun j hj wake hj' => hbefore ⟨j, hj, wake, hj'⟩, wake, h⟩

/-- Both waits have claimed the same, unless the untimed one polls before the deadline. -/
theorem claimed_eq_of_nothingArrives {deadline : Nat}
    (h : NothingArrives schedule queue deadline) :
    (run schedule none queue deadline).claimed =
      (run schedule (some deadline) queue deadline).claimed := by
  by_cases hblocks : ∃ k ≤ deadline, ∃ wake, (run schedule none queue k).place = .blocked wake
  · obtain ⟨k, hk, wake, hblocked⟩ := hblocks
    obtain ⟨since, hlt, hfirst⟩ := exists_firstWait hblocked
    obtain ⟨z, hqueue, hcompleted, huntimed, htimed⟩ :=
      hfirst.blocks_both (show since < deadline by omega)
    obtain ⟨m, hm⟩ := Nat.exists_eq_add_of_le (show since + 1 ≤ deadline by omega)
    have htimedClaims := (timed_claims_nothing htimed (Nat.le_of_eq hm.symm)).1
    have huntimedClaims := (untimed_polls (m := m) hqueue hcompleted huntimed
      fun k hk hle => h since hfirst k hk (by omega)).1
    rw [← hm] at htimedClaims huntimedClaims
    rw [htimedClaims, huntimedClaims]
  · rw [run_eq (Nat.le_refl deadline) fun j hj wake hj' => hblocks ⟨j, hj, wake, hj'⟩]

/-- **The timed wait agrees with the untimed one exactly if nothing arrives for its polls.** -/
theorem agrees_iff_nothingArrives (schedule : Schedule Task) (queue : List Task)
    (deadline : Nat) : Agrees schedule queue deadline ↔ NothingArrives schedule queue deadline := by
  constructor
  · -- the first poll with an arrival claims a task that the timed wait does not
    intro hagrees since hfirst k
    induction k using Nat.strongRecOn with
    | ind k ih =>
      intro hk hbefore hopen
      by_contra harrived
      obtain ⟨z, hqueue, hcompleted, huntimed, htimed⟩ :=
        hfirst.blocks_both (show since < deadline by omega)
      obtain ⟨task, hclaims⟩ := untimed_claims hqueue hcompleted huntimed hk
        (fun j hj hjk => ih j hjk hj (by
          have : j * schedule.helpingPollInterval < k * schedule.helpingPollInterval :=
            Nat.mul_lt_mul_of_pos_right hjk (helpingPollInterval_pos schedule)
          omega)) hopen harrived
      obtain ⟨more, hmore⟩ :=
        Nat.exists_eq_add_of_le (Nat.succ_le_of_lt hbefore)
      obtain ⟨l, hl⟩ : ∃ l, (run schedule none queue
          (since + k * schedule.helpingPollInterval + 1 + more)).claimed =
            (run schedule none queue (since + k * schedule.helpingPollInterval + 1)).claimed ++ l :=
        claimed_run none _ more
      obtain ⟨m, hm⟩ := Nat.exists_eq_add_of_le (show since + 1 ≤ deadline by omega)
      have htimedClaims := (timed_claims_nothing htimed (Nat.le_of_eq hm.symm)).1
      rw [← hm] at htimedClaims
      rw [← hmore, hclaims] at hl
      have hcount := hagrees task
      rw [hl, htimedClaims] at hcount
      simp only [List.count_append, List.count_singleton_self] at hcount
      omega
  · intro h task
    rw [claimed_eq_of_nothingArrives h]

/-- The target is published a millisecond after the wait has begun with empty queues. -/
def publishedAfterProbe : Schedule Bool where
  resolution := 0
  published now := if now = 1 then [true] else []
  taken _ := []
  completedAt := none
  duration _ := 0
  spawned _ := []
  completes task := task
  index _ := 0

/-- The untimed wait claims it at its first poll, the timed wait not at all. -/
theorem publishedAfterProbe_not_agrees :
    (run publishedAfterProbe none [] 10).claimed = [true] ∧
      (run publishedAfterProbe (some 10) [] 10).claimed = [] ∧
      ¬ Agrees publishedAfterProbe [] 10 := by
  have huntimed : (run publishedAfterProbe none [] 10).claimed = [true] := by decide
  have htimed : (run publishedAfterProbe (some 10) [] 10).claimed = [] := by decide
  refine ⟨huntimed, htimed, fun hagrees => ?_⟩
  have hcount := hagrees true
  rw [huntimed, htimed] at hcount
  revert hcount
  decide

end Agreement

end TimedHelping
end AstraScheduler
