import AstraScheduler.TaskBooks

/-! # Metrics at rest

When all tasks of a runtime are terminal, its metrics obey the conservation laws as soon as
the threads that made them terminal have recorded it.  The outcome is recorded after it is
published, so a waiter can be ahead of the record. -/

namespace AstraScheduler
namespace TaskMetrics

open RuntimeMetrics Postings

variable {s : State} {r : Nat}

/-- Every task that runtime `r` has accepted is terminal. -/
def AllTerminal (s : State) (r : Nat) : Prop :=
  ∀ task ∈ s.tasks, task.runtime = r → task.state.terminal

/-- No thread is still recording a transition of a task of runtime `r`. -/
def AllRecorded (s : State) (r : Nat) : Prop :=
  ∀ task ∈ s.tasks, task.runtime = r → task.left = []

instance (s : State) (r : Nat) : Decidable (AllTerminal s r) :=
  inferInstanceAs (Decidable (∀ task ∈ s.tasks, task.runtime = r → task.state.terminal))

instance (s : State) (r : Nat) : Decidable (AllRecorded s r) :=
  inferInstanceAs (Decidable (∀ task ∈ s.tasks, task.runtime = r → task.left = []))

/-- What the account of a terminal task lacks is what is still to be recorded. -/
theorem Task.Sound.gap {task : Task} (h : task.Sound) (hterm : task.state.terminal) :
    (∀ law : Law, 0 ≤ law.gap (task.standing.posted task.left)) ∧
      ((∀ law : Law, law.gap (task.standing.posted task.left) = 0) ↔ task.left = []) := by
  obtain ⟨record, hrecord, hleft⟩ := h.recorded
  rw [h.state, Stage.terminal_state] at hterm
  refine task.standing.gap_terminal hterm ⟨?_, h.judged⟩ hrecord hleft
  show task.pc.stage.isPublished
  cases hpc : task.pc with
  | completed completion callbacks | cancelled callbacks => rfl
  | _ => simp [hpc, Pc.stage, Stage.terminal] at hterm

/-- **The metrics of a runtime whose tasks are all terminal are conserved exactly when no thread
is still recording one of their transitions.** -/
theorem quiescent_conserved_iff (hs : machine.Reachable s)
    (hsaturated : (s.metrics r).snapshot.saturated = false) (hterm : AllTerminal s r) :
    (s.metrics r).snapshot.Conserved ↔ AllRecorded s r := by
  have hkept := Kept.of_reachable hs
  by_cases hlevel : (s.metrics r).level = .off
  · refine iff_of_true (conserved_of_off hlevel) fun task hmem hr => ?_
    obtain ⟨t, ht⟩ := List.getElem?_of_mem hmem
    exact hkept.off t task ht (hr ▸ hlevel)
  have hexact := (saturated_eq_false_iff hlevel).mp hsaturated
  rw [conserved_iff hexact hlevel]
  have hgap : ∀ law : Law, law.gap (s.metrics r).books =
      ∑ t ∈ Finset.range s.tasks.length, law.gap (s.account r t).posted :=
    Law.gap_sum _ _ fun k hk => hkept.inBooks r hlevel hexact k hk
  -- an account of another runtime is empty, one of this runtime is settled by its record
  have haccount : ∀ t (task : Task), s.tasks[t]? = some task →
      (∀ law : Law, 0 ≤ law.gap (s.account r t).posted) ∧
        ((∀ law : Law, law.gap (s.account r t).posted = 0) ↔
          (task.runtime = r → task.left = [])) := by
    intro t task ht
    by_cases hr : task.runtime = r
    · have hposted : (s.account r t).posted = task.standing.posted task.left := by
        funext k
        rw [State.account_posted ht, if_pos hr]
      have hsettled := (hkept.inv.sound t task ht).gap (hterm task (List.mem_of_getElem? ht) hr)
      rw [hposted]
      exact ⟨hsettled.1, hsettled.2.trans ⟨fun h _ => h, fun h => h hr⟩⟩
    · have hposted : (s.account r t).posted = fun _ => 0 := by
        funext k
        rw [State.account_posted ht, if_neg hr]
      rw [hposted]
      exact ⟨fun law => by cases law <;> decide, iff_of_true (fun law => by cases law <;> decide)
        fun h => absurd h hr⟩
  have hget : ∀ t ∈ Finset.range s.tasks.length, ∃ task, s.tasks[t]? = some task :=
    fun t ht => ⟨_, List.getElem?_eq_getElem (Finset.mem_range.mp ht)⟩
  constructor
  · intro hlaws task hmem hr
    obtain ⟨t, ht⟩ := List.getElem?_of_mem hmem
    refine (haccount t task ht).2.mp (fun law => ?_) hr
    have hsum := hlaws law
    rw [hgap] at hsum
    refine (Finset.sum_eq_zero_iff_of_nonneg fun u hu => ?_).mp hsum t
      (Finset.mem_range.mpr (List.getElem?_eq_some_iff.mp ht).1)
    obtain ⟨task', hu⟩ := hget u hu
    exact (haccount u task' hu).1 law
  · intro hrecorded law
    rw [hgap]
    refine Finset.sum_eq_zero fun t ht => ?_
    obtain ⟨task, ht⟩ := hget t ht
    exact (haccount t task ht).2.mpr (hrecorded task (List.mem_of_getElem? ht)) law

/-! ## A waiter that is ahead of the record -/

/-- A runtime with one worker. -/
def idleRuntime : State where
  metrics _ := RuntimeMetrics.init .basic 1

/-- A callable is submitted, started and returns. -/
def returnedRun : List Label :=
  [.submit 0 false none none, .update 0, .update 0, .advance 0 none, .advance 0 none,
    .execute 0 (some 0) 0, .update 0, .update 0, .update 0, .finish 0 .succeeded (some 0)]

theorem idleRuntime_initial : machine.init idleRuntime :=
  ⟨fun _ => ⟨.basic, 1, rfl⟩, rfl, rfl, rfl⟩

/-- Once `succeed` has recorded the outcome, the laws hold. -/
theorem returned_conserved : ∃ s,
    machine.run idleRuntime (returnedRun ++ [Label.update 0, Label.update 0]) = some s ∧
      s.tasks.length = 1 ∧ (s.metrics 0).snapshot.Conserved := by
  have hrun : machine.run idleRuntime (returnedRun ++ [Label.update 0, Label.update 0]) =
      some _ := rfl
  have hreach := Transition.Machine.reachable_of_run idleRuntime_initial hrun
  exact ⟨_, hrun, rfl,
    (quiescent_conserved_iff hreach (by decide) (by decide)).mpr (by decide)⟩

/-- Before that the handle says Succeeded, and the snapshot does not count it. -/
theorem succeeded_not_recorded : ∃ s, machine.Reachable s ∧
    (s.metrics 0).snapshot.saturated = false ∧ AllTerminal s 0 ∧
      ¬ (s.metrics 0).snapshot.Conserved := by
  have hrun : machine.run idleRuntime returnedRun = some _ := rfl
  refine ⟨_, Transition.Machine.reachable_of_run idleRuntime_initial hrun, by decide, by decide,
    fun h => ?_⟩
  have hrunning := h.runningTasks
  revert hrunning
  decide

end TaskMetrics
end AstraScheduler
