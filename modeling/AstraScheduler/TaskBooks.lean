import AstraScheduler.TaskLedger

/-! # Every step keeps the books

Whatever a thread does next, the task it has in hand stays at its stage or goes to the next
one, and an update that a runtime takes down is posted by one account. -/

namespace AstraScheduler
namespace TaskMetrics

open RuntimeMetrics Postings

variable {s s' : State} {t : Nat} {task task' : Task}

/-- No resume of the task is about, when it is not in a suspension. -/
theorem Inv.resumes_eq_zero (h : Inv s) (hold : s.tasks[t]? = some task)
    (hno : task.pc.awaitsResume = false) : s.resumes t = 0 := by
  have hle := h.resumes_le hold
  rw [hno] at hle
  exact Nat.le_zero.mp hle

/-- A Ready task whose invoker is pushed waits to be started. -/
theorem Task.Sound.posted_of_ready (h : task.Sound) (hready : task.state = .ready)
    (hpushed : task.pc.pushed) : task.pc = .posted := by
  have hstate := h.state
  rw [hready] at hstate
  cases hpc : task.pc with
  | posted => rfl
  | acquiring | publishing => simp [hpc, Pc.pushed] at hpushed
  | completed completion callbacks =>
    rw [hpc] at hstate
    cases completion <;> cases hstate
  | _ => simp [hpc, Pc.stage, Stage.state] at hstate

theorem Kept.requestCancel (h : Kept s) (hold : s.tasks[t]? = some task)
    (hpushed : task.pc.pushed) (worker : Option Nat) : Kept (s.requestCancel t task worker) := by
  have hsound := h.inv.sound t task hold
  unfold State.requestCancel
  extract_lets stopped
  have hquiet : Quiet s stopped t 0 := by
    unfold stopped
    split
    · exact .onHandshake posts_triggerCancel (.inl rfl)
    · exact .refl s t 0
  split
  · rename_i hready
    have hpc := hsound.posted_of_ready hready hpushed
    have hzero := h.inv.resumes_eq_zero hold (by rw [hpc]; rfl)
    have hle := hquiet.resumes t
    refine h.begins hold (hsound.settled (by rw [hpc]; rfl)) hquiet ?_ worker rfl rfl rfl
      (fun _ => hsound.unjudged (by rw [hpc]; rfl)) Bool.noConfusion hsound.seq Bool.noConfusion
      (fun _ => rfl) ?_ fun _ hj => by cases hj
    · rw [Task.standing_of (show task.pc.stage = .ready true by rw [hpc]; rfl)]
      exact .cancel true _ _
    · rw [if_pos rfl, hzero] at hle
      exact hle
  · exact h.stays hold hquiet ⟨rfl, rfl, rfl, rfl, rfl, rfl⟩ hsound.settled hsound.seq
      hsound.handedOff id id fun _ => id

/-- An invoker is taken out of the bag. -/
theorem Kept.erase (h : Kept s) (i : Nat) : Kept { s with posted := s.posted.eraseIdx i } where
  inv :=
    { sound := h.inv.sound
      gates := fun u hu => h.inv.gates u (List.mem_of_mem_eraseIdx hu)
      resumes := by
        intro u
        refine Nat.le_trans (Nat.add_le_add_right ?_ _) (h.inv.resumes u)
        exact (List.eraseIdx_sublist ..).count_le _
      owned := h.inv.owned }
  off := h.off
  inBooks := h.inBooks

theorem Kept.execute (h : Kept s) {i : Nat} {worker : Option Nat} {now : Nat}
    (hs : s.execute i worker now = some s') : Kept s' := by
  unfold State.execute at hs
  cases hi : s.posted[i]? with
  | none => simp [hi] at hs
  | some invoker =>
    simp only [hi] at hs
    have hmem := List.mem_of_getElem? hi
    cases invoker with
    | gate u =>
      obtain ⟨task, hold, hs⟩ := Option.map_eq_some_iff.mp hs
      obtain ⟨task', hold', hpushed⟩ := h.inv.gates u hmem
      obtain rfl : task = task' := Option.some.inj (hold.symm.trans hold')
      have hkept := h.erase i
      have hsound := h.inv.sound u task hold
      subst hs
      split
      · rename_i hready
        have hpc := hsound.posted_of_ready hready hpushed
        have hzero := hkept.inv.resumes_eq_zero hold (by rw [hpc]; rfl)
        refine hkept.begins hold (hsound.settled (by rw [hpc]; rfl)) (.refl _ u 0) ?_ worker rfl rfl
          rfl Bool.noConfusion (fun _ hdeadline => ?_) hsound.seq Bool.noConfusion (fun _ => rfl)
          (Nat.le_of_eq hzero) fun _ hj => by cases hj
        · rw [Task.standing_of (show task.pc.stage = .ready true by rw [hpc]; rfl)]
          exact .start _ _ _
        · -- `try_start` judges a deadline that has not been judged
          have hnone := hsound.unjudged (by rw [hpc]; rfl)
          obtain ⟨deadline, hd⟩ := Option.isSome_iff_exists.mp hdeadline
          have hd : task.deadline = some deadline := hd
          simp only [Task.start, hd, hnone]
          split <;> exact DeadlineDisposition.noConfusion
      · exact hkept.requestCancel hold hpushed worker
    | resume u =>
      cases hold : s.tasks[u]? with
      | none => simp [hold] at hs
      | some task =>
        simp only [hold] at hs
        split at hs
        case isFalse => cases hs
        case isTrue hseq =>
          cases hs
          have hkept := h.erase i
          have hsound := h.inv.sound u task hold
          obtain ⟨hlt, hget⟩ := List.getElem?_eq_some_iff.mp hi
          have hperm := (List.getElem_cons_eraseIdx_perm hlt).count_eq (Posted.resume u)
          rw [hget, List.count_cons_self] at hperm
          have hle := h.inv.resumes_le hold
          rw [State.resumes, ← hperm] at hle
          -- the suspension is published, so the coroutine is parked
          have hpc : task.pc = .parked := by
            cases hpc : task.pc with
            | parked => rfl
            | publishSuspend =>
              have hhanded := hsound.handedOff (by rw [hpc]; rfl)
              omega
            | _ =>
              rw [hpc] at hle
              simp [Pc.awaitsResume] at hle
          have hstate : task.state = .suspended := by
            rw [hsound.state, hpc]
            rfl
          refine hkept.begins hold (hsound.settled (by rw [hpc]; rfl)) (.refl _ u 0) ?_ worker rfl
            ?_ rfl Bool.noConfusion ?_ hsound.seq Bool.noConfusion (fun _ => rfl) ?_
            fun _ hj => by cases hj
          · rw [Task.standing_of (show task.pc.stage = .suspended by rw [hpc]; rfl)]
            exact .resume _ _
          · simp [hstate, Pc.stage, Stage.state]
          · exact fun _ => hsound.judged (by rw [hpc]; rfl)
          · rw [hpc] at hle
            simp only [State.resumes, Pc.awaitsResume, if_true, Bool.false_eq_true, if_false]
              at hle ⊢
            omega

theorem Kept.discard (h : Kept s) {i : Nat} {worker : Option Nat}
    (hs : s.discard i worker = some s') : Kept s' := by
  unfold State.discard at hs
  cases hi : s.posted[i]? with
  | none => simp [hi] at hs
  | some invoker =>
    simp only [hi] at hs
    cases invoker with
    | gate u =>
      obtain ⟨task, hold, hs⟩ := Option.map_eq_some_iff.mp hs
      obtain ⟨task', hold', hpushed⟩ := h.inv.gates u (List.mem_of_getElem? hi)
      obtain rfl : task = task' := Option.some.inj (hold.symm.trans hold')
      subst hs
      exact (h.erase i).requestCancel hold hpushed worker
    | resume u =>
      cases hs
      exact h.erase i

/-- The steps of the thread that has a task in hand. -/
theorem Kept.advance (h : Kept s) (hold : s.tasks[t]? = some task) (hleft : task.left = [])
    {worker : Option Nat} (hs : s.advance t task worker = some s') : Kept s' := by
  have hsound := h.inv.sound t task hold
  have hstays : ∀ {s₁ : State} {pc : Pc}, Quiet s s₁ t 0 → pc.stage = task.pc.stage →
      (pc.handedOff → task.pc.handedOff) → (task.pc.pushed → pc.pushed) →
        (task.pc.awaitsResume → pc.awaitsResume) →
          (∀ h, pc.await = some h → task.pc.await = some h) →
            Kept (s₁.setTask t { task with pc := pc }) := by
    intro s₁ pc hq hstage hhanded hpushed hawaits howned
    exact h.stays hold hq ⟨rfl, hstage, rfl, rfl, rfl, rfl⟩ (fun _ => hleft) hsound.seq
      (fun hp => hsound.handedOff (hhanded hp)) hpushed hawaits howned
  cases hpc : task.pc with
  | acquiring =>
    simp only [State.advance, hpc] at hs
    cases hs
    have hzero := h.inv.resumes_eq_zero hold (by rw [hpc]; rfl)
    refine h.begins hold hleft (.refl s t 0) ?_ worker rfl ?_ rfl
      (fun _ => hsound.unjudged (by rw [hpc]; rfl)) Bool.noConfusion hsound.seq Bool.noConfusion
      (fun hp => by rw [hpc] at hp; cases hp) (Nat.le_of_eq hzero) fun _ hj => by cases hj
    · rw [Task.standing_of (show task.pc.stage = .ready false by rw [hpc]; rfl)]
      exact .publish _ _
    · rw [hsound.state, hpc]
      rfl
  | publishing =>
    simp only [State.advance, hpc] at hs
    cases hs
    have hzero := h.inv.resumes_eq_zero hold (by rw [hpc]; rfl)
    have hcount : ∀ u, (s.posted ++ [Posted.gate t]).count (.resume u) =
        s.posted.count (.resume u) := fun u => by simp
    have hs : task.Stays { task with pc := .posted } :=
      ⟨rfl, by rw [hpc]; rfl, rfl, rfl, rfl, rfl⟩
    refine h.change ⟨hold, rfl, rfl, hsound.stays hs (fun _ => hleft) hsound.seq Bool.noConfusion,
      fun u hu => ?_, fun _ => rfl, fun u _ => ?_, ?_, fun j a ha => ⟨a, ha, rfl⟩,
      fun _ hj => by cases hj⟩ rfl (fun _ => hleft) fun _ k _ => by rw [hs.standing]
    · rcases List.mem_append.mp hu with hu | hu
      · exact .inl hu
      · cases List.mem_singleton.mp hu
        exact .inr rfl
    · exact Nat.le_of_eq (congrArg (· + _) (hcount u))
    · refine Nat.le_trans (Nat.le_of_eq (congrArg (· + _) (hcount t))) ?_
      exact Nat.le_of_eq hzero
  | posted | body | parked =>
    simp only [State.advance, hpc] at hs
    cases hs
  | addCallback j target =>
    simp only [State.advance, hpc] at hs
    obtain ⟨other, hother, hs⟩ := Option.map_eq_some_iff.mp hs
    subst hs
    split
    · exact hstays (.onHandshake posts_trigger (.inl rfl)) (by rw [hpc]; rfl)
        (fun _ => by rw [hpc]; rfl) (fun _ => rfl) (fun hp => by rw [hpc] at hp; cases hp)
        (fun j' hj => by rw [hpc]; exact hj)
    · have hsound' := h.inv.sound target other hother
      -- the target gets the callback, and the task goes on
      have hkept : Kept (s.setTask target
          { other with completionCallbacks := other.completionCallbacks ++ [j] }) :=
        h.stays hother (.refl s target 0) ⟨rfl, rfl, rfl, rfl, rfl, rfl⟩ hsound'.settled hsound'.seq
          hsound'.handedOff id id fun _ => id
      have hgo : ∀ callbacks, (s.setTask target
          { other with completionCallbacks := other.completionCallbacks ++ [j] }).tasks[t]? =
            some { task with completionCallbacks := callbacks } →
          Kept ((s.setTask target
            { other with completionCallbacks := other.completionCallbacks ++ [j] }).setTask t
              { task with pc := .emplaceStop j }) := by
        intro callbacks hold'
        exact hkept.stays hold' (.refl _ t 0)
          ⟨rfl, show Pc.stage (.emplaceStop j) = task.pc.stage by rw [hpc]; rfl, rfl, rfl, rfl, rfl⟩
          (fun _ => hleft) hsound.seq (fun _ => hsound.handedOff (by rw [hpc]; rfl)) (fun _ => rfl)
          (fun hp => by
            rw [show task.pc.awaitsResume = false by rw [hpc]; rfl] at hp
            cases hp)
          (fun j' hj => show task.pc.await = some j' by rw [hpc]; exact hj)
      by_cases htarget : target = t
      · subst htarget
        obtain rfl : task = other := Option.some.inj (hold.symm.trans hother)
        exact hgo _ (List.getElem?_set_self (List.getElem?_eq_some_iff.mp hold).1)
      · exact hgo task.completionCallbacks ((List.getElem?_set_ne htarget).trans hold)
  | emplaceStop j =>
    simp only [State.advance, hpc] at hs
    split at hs <;> cases hs
    · exact hstays (.onHandshake posts_triggerCancel (.inl rfl)) (by rw [hpc]; rfl)
        (fun _ => by rw [hpc]; rfl) (fun _ => rfl) (fun hp => by rw [hpc] at hp; cases hp)
        (fun j' hj => by rw [hpc]; exact hj)
    · exact h.stays hold (.refl s t 0) ⟨rfl, by rw [hpc]; rfl, rfl, rfl, rfl, rfl⟩ (fun _ => hleft)
        hsound.seq (fun _ => hsound.handedOff (by rw [hpc]; rfl)) (fun _ => rfl)
        (fun hp => by rw [hpc] at hp; cases hp) (fun j' hj => by rw [hpc]; exact hj)
  | suspend await =>
    simp only [State.advance, hpc] at hs
    have hstate : task.state = .running := by
      rw [hsound.state, hpc]
      rfl
    have hzero := h.inv.resumes_eq_zero hold (by rw [hpc]; rfl)
    rw [if_pos hstate] at hs
    cases hs
    have hm : ∀ pc : Pc, pc.stage = .suspended → Standing.Moves task.standing recordSuspended
        ({ task with state := .suspended, pc := pc } : Task).standing := by
      intro pc hstage
      rw [Task.standing_of (show task.pc.stage = .running by rw [hpc]; rfl), Task.standing, hstage]
      exact .suspend _ _
    cases await with
    | some j =>
      exact h.begins hold hleft (.refl s t 0) (hm (.arm j) rfl) worker rfl rfl rfl Bool.noConfusion
        (fun _ => hsound.judged (by rw [hpc]; rfl)) hsound.seq
        (fun _ => hsound.handedOff (by rw [hpc]; rfl)) (fun _ => rfl) (Nat.le_of_eq hzero)
        (fun j' hj => by rw [hpc]; exact hj)
    | none =>
      exact h.begins hold hleft (.refl s t 0) (hm .reschedule rfl) worker rfl rfl rfl
        Bool.noConfusion (fun _ => hsound.judged (by rw [hpc]; rfl)) hsound.seq Bool.noConfusion
        (fun _ => rfl) (Nat.le_of_eq hzero) (fun j' hj => by cases hj)
  | arm j =>
    simp only [State.advance, hpc] at hs
    cases hs
    have hzero := h.inv.resumes_eq_zero hold (by rw [hpc]; rfl)
    have hq : Quiet s (s.onHandshake j AwaitHandshake.arm) t 1 :=
      .onHandshake posts_arm (.inr (h.inv.owned t task j hold (by rw [hpc]; rfl)))
    have hle := hq.resumes t
    rw [hzero, if_pos rfl] at hle
    have hs : task.Stays { task with pc := .publishSuspend } :=
      ⟨rfl, by rw [hpc]; rfl, rfl, rfl, rfl, rfl⟩
    exact h.quiet hold hq rfl (hsound.stays hs (fun _ => hleft) hsound.seq fun _ =>
      hsound.handedOff (by rw [hpc]; rfl)) (fun _ => hleft) (fun _ k _ => by rw [hs.standing])
      (fun _ => rfl) hle fun _ hj => by cases hj
  | reschedule =>
    simp only [State.advance, hpc] at hs
    cases hs
    have hzero := h.inv.resumes_eq_zero hold (by rw [hpc]; rfl)
    have hcount : ∀ u, (s.posted ++ [Posted.resume t]).count (.resume u) =
        s.posted.count (.resume u) + if u = t then 1 else 0 := by
      intro u
      by_cases hu : u = t
      · simp [hu]
      · simp [hu, Ne.symm hu]
    have hs : task.Stays { task with
        resumeHandoffSeq := task.resumeHandoffSeq + 1
        pc := .publishSuspend } :=
      ⟨rfl, by rw [hpc]; rfl, rfl, rfl, rfl, rfl⟩
    refine h.change ⟨hold, rfl, rfl, hsound.stays hs (fun _ => hleft)
      (Nat.le_succ_of_le hsound.seq) (fun _ => Nat.lt_succ_of_le hsound.seq),
      fun u hu => ?_, fun _ => rfl, fun u hu => ?_, ?_, fun j a ha => ⟨a, ha, rfl⟩,
      fun _ hj => by cases hj⟩ rfl (fun _ => hleft) fun _ k _ => by rw [hs.standing]
    · rcases List.mem_append.mp hu with hu | hu
      · exact .inl hu
      · cases List.mem_singleton.mp hu
    · have hle := hcount u
      rw [if_neg hu] at hle
      exact Nat.le_of_eq (congrArg (· + _) hle)
    · have hle := hcount t
      rw [if_pos rfl] at hle
      rw [State.resumes] at hzero ⊢
      simp only [State.setTask, Pc.awaitsResume, if_true]
      omega
  | publishSuspend =>
    simp only [State.advance, hpc] at hs
    cases hs
    exact h.stays hold (.refl s t 0) ⟨rfl, by rw [hpc]; rfl, rfl, rfl, rfl, rfl⟩ (fun _ => hleft)
      (Nat.le_refl _) Bool.noConfusion (fun _ => rfl) (fun _ => rfl) (fun _ hj => by cases hj)
  | resuming =>
    simp only [State.advance, hpc] at hs
    cases hs
    exact h.stays hold (.refl s t 0) ⟨rfl, by rw [hpc]; rfl, rfl, rfl, rfl, rfl⟩ (fun _ => hleft)
      hsound.seq Bool.noConfusion (fun _ => rfl) (fun hp => by rw [hpc] at hp; cases hp)
      (fun _ hj => by cases hj)
  | completed completion callbacks =>
    cases callbacks with
    | nil =>
      simp only [State.advance, hpc] at hs
      cases hs
    | cons j callbacks =>
      simp only [State.advance, hpc] at hs
      cases hs
      exact hstays (.onHandshake posts_trigger (.inl rfl)) (by rw [hpc]; rfl) Bool.noConfusion
        (fun _ => rfl) (fun hp => by rw [hpc] at hp; cases hp) (fun _ hj => by cases hj)
  | cancelled callbacks =>
    cases callbacks with
    | nil =>
      simp only [State.advance, hpc] at hs
      cases hs
    | cons j callbacks =>
      simp only [State.advance, hpc] at hs
      cases hs
      exact hstays (.onHandshake posts_trigger (.inl rfl)) (by rw [hpc]; rfl) Bool.noConfusion
        (fun _ => rfl) (fun hp => by rw [hpc] at hp; cases hp) (fun _ hj => by cases hj)

/-- A submission opens an account. -/
theorem Kept.submit (h : Kept s) {runtime : Nat} {isCoroutine : Bool}
    {deadline worker : Option Nat}
    (hs : s.step (.submit runtime isCoroutine deadline worker) = some s') :
    Kept s' := by
  simp only [State.step] at hs
  obtain ⟨task, htask⟩ : ∃ task, task = ({
    runtime := runtime
    isCoroutine := isCoroutine
    deadline := deadline
    worker := worker
    left := record (s.metrics runtime).level (recordAcquired 1) } : Task) := ⟨_, rfl⟩
  rw [← htask] at hs
  cases hs
  have hget : ∀ u, (s.tasks ++ [task])[u]? =
      if u = s.tasks.length then some task else s.tasks[u]? := by
    intro u
    rw [List.getElem?_append]
    split
    · rename_i hlt
      rw [if_neg (by omega)]
    · rename_i hge
      by_cases hu : u = s.tasks.length
      · simp [hu]
      · rw [if_neg hu, List.getElem?_eq_none (by simp; omega), List.getElem?_eq_none (by omega)]
  refine ⟨⟨fun u task' hu => ?_, fun u hu => ?_, fun u => ?_, fun u task' j hu hj => ?_⟩,
    fun u task' hu hlevel => ?_, fun r hlevel hexact k hk => ?_⟩
  · dsimp only at hu
    rw [hget] at hu
    split at hu
    · cases hu
      subst htask
      refine ⟨rfl, ⟨recordAcquired 1, List.mem_singleton_self _, ?_⟩, Bool.noConfusion,
        fun _ => rfl, Bool.noConfusion, Nat.le_refl _, Bool.noConfusion⟩
      dsimp only
      unfold record
      split
      · exact List.nil_suffix
      · exact List.suffix_refl _
    · exact h.inv.sound u task' hu
  · obtain ⟨task', hold, hpushed⟩ := h.inv.gates u hu
    refine ⟨task', ?_, hpushed⟩
    have hlt := (List.getElem?_eq_some_iff.mp hold).1
    dsimp only
    rw [hget, if_neg (by omega), hold]
  · have hle := h.inv.resumes u
    dsimp only
    rw [hget]
    split
    · rename_i hu
      rw [hu, List.getElem?_eq_none (Nat.le_refl _)] at hle
      rw [hu]
      exact Nat.le_trans hle (Nat.zero_le _)
    · exact hle
  · dsimp only at hu
    rw [hget] at hu
    split at hu
    · cases hu
      subst htask
      cases hj
    · exact h.inv.owned u task' j hu hj
  · dsimp only at hu
    rw [hget] at hu
    split at hu
    · cases hu
      subst htask
      dsimp only at hlevel ⊢
      rw [hlevel]
      rfl
    · exact h.off u task' hu hlevel
  · dsimp only
    rw [List.length_append, List.length_singleton, Finset.range_add_one]
    refine (h.inBooks r hlevel hexact k hk).of_open Finset.notMem_range_self rfl ?_ fun u hu => ?_
    · simp only [State.account, hget, if_true]
      split
      · rename_i hr
        subst htask
        dsimp only at hr
        subst hr
        show Standing.posted _ (record _ _) k = 0
        rw [record, if_neg hlevel]
        exact Standing.posted_admitted _ k hk
      · rfl
    · have hne : u ≠ s.tasks.length := Nat.ne_of_lt (Finset.mem_range.mp hu)
      simp only [State.account, hget, if_neg hne]

/-- The books of a runtime, account by account. -/
theorem State.account_posted {r : Nat} (ht : s.tasks[t]? = some task) (k : Counter ⊕ Gauge) :
    (s.account r t).posted k = if task.runtime = r then task.standing.posted task.left k else 0 := by
  simp only [State.account, ht]
  split
  · rfl
  · simp [Account.posted]

theorem Inv.account_nonneg (h : Inv s) (r u : Nat) (k : Counter ⊕ Gauge) (hk : Standing.tracked k) :
    0 ≤ (s.account r u).posted k := by
  cases hu : s.tasks[u]? with
  | none => simp [State.account, hu, Account.posted]
  | some task =>
    rw [State.account_posted hu]
    split
    · obtain ⟨record, hrecord, hleft⟩ := (h.sound u task hu).recorded
      exact task.standing.posted_nonneg hrecord hleft k hk
    · exact Int.le_refl 0

theorem Inv.account_gauge_le (h : Inv s) (r u : Nat) (g : Gauge) :
    (s.account r u).posted (.inr g) ≤ (s.account r u).posted (.inl .acceptedTaskIdentities) := by
  cases hu : s.tasks[u]? with
  | none => simp [State.account, hu, Account.posted]
  | some task =>
    rw [State.account_posted hu, State.account_posted hu]
    split
    · obtain ⟨record, hrecord, hleft⟩ := (h.sound u task hu).recorded
      exact task.standing.posted_gauge_le hrecord hleft g
    · exact Int.le_refl 0

/-- An update is posted by one account and taken down by one runtime. -/
theorem Kept.update (h : Kept s) (hold : s.tasks[t]? = some task) {u : Update} {left : List Update}
    (hleft : task.left = u :: left)
    (hs : s' = { s.setTask t { task with left := left } with
      metrics := Function.update s.metrics task.runtime
        ((s.metrics task.runtime).apply task.worker u) }) : Kept s' := by
  have hsound := h.inv.sound t task hold
  have hsettled : task.pc.unattended = false := by
    by_contra hun
    have hnil := hsound.settled (by simpa using hun)
    rw [hleft] at hnil
    cases hnil
  have hsuffix : left <:+ task.left := hleft ▸ List.suffix_cons u left
  have hsound' : ({ task with left := left } : Task).Sound := by
    obtain ⟨r, hr, hrest⟩ := hsound.recorded
    refine ⟨hsound.state, ⟨r, hr, hsuffix.trans hrest⟩, fun hun => ?_, hsound.unjudged,
      hsound.judged, hsound.seq, hsound.handedOff⟩
    rw [show task.pc.unattended = true from hun] at hsettled
    cases hsettled
  have hc : Change s s' t task { task with left := left } := by
    subst hs
    refine ⟨hold, rfl, rfl, hsound', fun _ => .inl, fun hg => ?_, fun _ _ => Nat.le_refl _,
      show s.resumes t ≤ if task.pc.awaitsResume then 1 else 0 from h.inv.resumes_le hold,
      fun j a ha => ⟨a, ha, rfl⟩, fun j hj => h.inv.owned t task j hold hj⟩
    obtain ⟨task', hold', hpushed⟩ := h.inv.gates t hg
    obtain rfl : task = task' := Option.some.inj (hold.symm.trans hold')
    exact hpushed
  have hinv' := h.inv.change hc
  have hlevels : ∀ r, (s'.metrics r).level = (s.metrics r).level := by
    intro r
    subst hs
    by_cases hr : r = task.runtime
    · subst hr
      simp
    · simp [hr]
  refine ⟨hinv', fun v task' hv hlevel => ?_, fun r hlevel hexact k hk => ?_⟩
  · rw [hlevels] at hlevel
    rw [hc.getElem?] at hv
    split at hv
    · cases hv
      have hnil := h.off t task hold hlevel
      rw [hleft] at hnil
      cases hnil
    · exact h.off v task' hv hlevel
  have hlt := (List.getElem?_eq_some_iff.mp hold).1
  have hlen : s'.tasks.length = s.tasks.length := by rw [hc.tasks, List.length_set]
  have hothers : ∀ v ∈ Finset.range s.tasks.length, v ≠ t → ∀ k,
      (s'.account r v).posted k = (s.account r v).posted k := by
    intro v _ hv k
    simp only [State.account, hc.getElem?, if_neg hv]
  have hself : ∀ k, (s'.account r t).posted k = (s.account r t).posted k +
      if task.runtime = r then outstanding [u.posting] k else 0 := by
    intro k
    rw [State.account_posted hold, State.account_posted ((hc.getElem? t).trans (if_pos rfl))]
    dsimp only
    split
    · exact (task.standing.account task.left).posted_post u.posting (left.map Update.posting) k
        (by rw [hleft]; rfl)
    · rfl
  by_cases hr : task.runtime = r
  · have hmetrics : s'.metrics r = (s.metrics r).apply task.worker u := by
      rw [hs, ← hr]
      exact Function.update_self ..
    rw [hmetrics] at hlevel hexact ⊢
    rw [apply_level] at hlevel
    rw [hlen]
    refine hexact.balanced_apply (K := fun k => Standing.tracked k) (Finset.mem_range.mpr hlt)
      (h.inBooks r hlevel hexact.before) (fun k _ => ?_) hothers
      (fun v _ => h.inv.account_nonneg r v) (hinv'.account_nonneg r t)
      (fun v _ g => hinv'.account_gauge_le r v g) (fun _ => ⟨rfl, rfl⟩) k hk
    rw [hself, if_pos hr]
  · have hmetrics : s'.metrics r = s.metrics r := by
      rw [hs]
      exact Function.update_of_ne (Ne.symm hr) ..
    rw [hmetrics] at hlevel hexact ⊢
    rw [hlen]
    refine (h.inBooks r hlevel hexact k hk).of_eq rfl fun v hv => ?_
    by_cases hv' : v = t
    · subst hv'
      rw [hself, if_neg hr, Int.add_zero]
    · exact hothers v hv hv' k

theorem Kept.step (h : Kept s) {a : Label} (hs : s.step a = some s') : Kept s' := by
  cases a with
  | submit runtime isCoroutine deadline worker => exact h.submit hs
  | update t =>
    simp only [State.step] at hs
    split at hs
    case h_1 task hold =>
      split at hs
      case h_1 u left hleft => exact h.update hold hleft (Option.some.inj hs).symm
      case h_2 => cases hs
    case h_2 => cases hs
  | advance t worker =>
    simp only [State.step] at hs
    split at hs
    case h_1 task hold =>
      split at hs
      case isTrue hleft => exact h.advance hold hleft hs
      case isFalse => cases hs
    case h_2 => cases hs
  | execute i worker now => exact h.execute hs
  | discard i worker => exact h.discard hs
  | finish t completion worker =>
    simp only [State.step] at hs
    split at hs
    case h_1 task hold =>
      split at hs
      case isTrue hbody =>
        cases hs
        obtain ⟨hpc, hleft⟩ := of_decide_eq_true hbody
        have hsound := h.inv.sound t task hold
        have hzero := h.inv.resumes_eq_zero hold (by rw [hpc]; rfl)
        refine h.begins hold hleft (.refl s t 0) ?_ worker rfl rfl rfl Bool.noConfusion
          (fun _ => hsound.judged (by rw [hpc]; rfl)) hsound.seq Bool.noConfusion (fun _ => rfl)
          (Nat.le_of_eq hzero) fun _ hj => by cases hj
        rw [Task.standing_of (show task.pc.stage = .running by rw [hpc]; rfl)]
        -- the outcome is stored, and its record is still to be made
        exact .complete completion _ _
      case isFalse => cases hs
    case h_2 => cases hs
  | await t target =>
    simp only [State.step] at hs
    split at hs
    case h_1 task hold =>
      split at hs
      case isTrue hcond =>
        cases hs
        obtain ⟨hpc, hleft⟩ := of_decide_eq_true hcond.1
        have hsound := h.inv.sound t task hold
        have hzero := h.inv.resumes_eq_zero hold (by rw [hpc]; rfl)
        -- the task is Running until its handshake is armed: nothing to record yet
        have hs : task.Stays { task with
            resumeHandoffSeq := task.resumeHandoffSeq + 1
            pc := .addCallback s.awaits.length target } :=
          ⟨rfl, by rw [hpc]; rfl, rfl, rfl, rfl, rfl⟩
        -- the new handshake is not armed, so nobody counts as about to be resumed by it
        have hcount : ∀ u, (s.awaits ++ [({ waiter := t } : Await)]).countP
            (fun a => a.waiter = u ∧ a.handshake.state = .armed) =
              s.awaits.countP fun a => a.waiter = u ∧ a.handshake.state = .armed := by
          intro u
          simp
        have hkeep : ∀ (j : Nat) (a : Await), s.awaits[j]? = some a →
            (s.awaits ++ [({ waiter := t } : Await)])[j]? = some a := by
          intro j a ha
          rw [List.getElem?_append_left (List.getElem?_eq_some_iff.mp ha).1]
          exact ha
        refine h.change ⟨hold, rfl, rfl, hsound.stays hs (fun _ => hleft)
          (Nat.le_succ_of_le hsound.seq) (fun _ => Nat.lt_succ_of_le hsound.seq),
          fun _ => .inl, fun _ => rfl, fun u _ => ?_, ?_, fun j a ha => ⟨a, hkeep j a ha, rfl⟩,
          fun j hj => ?_⟩ rfl (fun _ => hleft) fun _ k _ => by rw [hs.standing]
        · exact Nat.le_of_eq (congrArg (_ + ·) (hcount u))
        · refine Nat.le_trans (Nat.le_of_eq (congrArg (_ + ·) (hcount t))) ?_
          exact Nat.le_of_eq hzero
        · obtain rfl : s.awaits.length = j := Option.some.inj hj
          exact ⟨{ waiter := t }, List.getElem?_concat_length, rfl⟩
      case isFalse => cases hs
    case h_2 => cases hs
  | yield t =>
    simp only [State.step] at hs
    split at hs
    case h_1 task hold =>
      split at hs
      case isTrue hcond =>
        cases hs
        obtain ⟨hpc, hleft⟩ := of_decide_eq_true hcond.1
        exact h.stays hold (.refl s t 0) ⟨rfl, by rw [hpc]; rfl, rfl, rfl, rfl, rfl⟩
          (fun _ => hleft) (h.inv.sound t task hold).seq Bool.noConfusion (fun _ => rfl)
          (fun hp => by rw [hpc] at hp; cases hp) fun _ hj => by cases hj
      case isFalse => cases hs
    case h_2 => cases hs
  | requestCancel t worker =>
    simp only [State.step] at hs
    split at hs
    case h_1 task hold =>
      split at hs
      case isTrue hcond =>
        cases hs
        refine h.requestCancel hold ?_ worker
        cases hpc : task.pc with
        | acquiring => exact absurd hpc hcond.1
        | publishing => exact absurd hpc hcond.2
        | _ => rfl
      case isFalse => cases hs
    case h_2 => cases hs

theorem Kept.initial (h : Initial s) : Kept s where
  inv :=
    { sound := by simp [h.tasks]
      gates := by simp [h.posted]
      resumes := by simp [State.resumes, h.posted, h.awaits]
      owned := by simp [h.tasks] }
  off := by simp [h.tasks]
  inBooks := by
    intro r _ _ k _
    obtain ⟨level, workerCount, hm⟩ := h.metrics r
    rw [h.tasks, hm]
    exact .of_zero (init_books level workerCount k) fun _ hu => by simp at hu

theorem Kept.of_reachable (h : machine.Reachable s) : Kept s :=
  h.invariant Kept (fun _ hinit => .initial hinit) fun _ _ _ hk _ hs => hk.step hs

end TaskMetrics
end AstraScheduler
