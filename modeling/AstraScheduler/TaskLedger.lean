import AstraScheduler.TaskMetrics

/-! # Every task has an account

The control block of a task and the thread that has it in hand determine the stage the books
have for it.  A coroutine is resumed once for every suspension and not before it is parked, so
every record that is made takes the task from the stage it is at to the next one. -/

namespace AstraScheduler
namespace TaskMetrics

open RuntimeMetrics Postings

variable {s s' s'' : State} {t : Nat} {task task' : Task}

/-! ## The stage of a task -/

namespace Pc

/-- The thread is arming this await. -/
def await : Pc → Option Nat
  | .addCallback h _ | .emplaceStop h | .suspend (some h) | .arm h => some h
  | _ => none

/-- A resume may be posted: the coroutine has left its segment. -/
def awaitsResume : Pc → Bool
  | .publishSuspend | .parked => true
  | _ => false

/-- The hand-off is marked and the suspension is not published. -/
def handedOff : Pc → Bool
  | .addCallback _ _ | .emplaceStop _ | .suspend (some _) | .arm _ | .publishSuspend => true
  | _ => false

/-- The invoker has been pushed. -/
def pushed : Pc → Bool
  | .acquiring | .publishing => false
  | _ => true

/-- No thread has the task in hand. -/
def unattended : Pc → Bool
  | .posted | .parked => true
  | _ => false

def stage : Pc → Stage
  | .acquiring => .ready false
  | .publishing | .posted => .ready true
  | .body | .addCallback _ _ | .emplaceStop _ | .suspend _ | .resuming => .running
  | .arm _ | .reschedule | .publishSuspend | .parked => .suspended
  | .completed completion _ => .completed completion
  | .cancelled _ => .cancelledBeforeStart true

end Pc

/-- How the task stands in the books. -/
def Task.standing (task : Task) : Standing :=
  ⟨task.pc.stage, task.deadline.isSome, task.deadlineDisposition⟩

/-- The control block agrees with the thread that has the task in hand. -/
structure Task.Sound (task : Task) : Prop where
  state : task.state = task.pc.stage.state
  recorded : ∃ r ∈ task.standing.records, task.left <:+ r
  settled : task.pc.unattended → task.left = []
  unjudged : task.pc.stage.started = false → task.deadlineDisposition = .none
  judged : task.pc.stage.started → task.deadline.isSome → task.deadlineDisposition ≠ .none
  seq : task.suspendPublishedSeq ≤ task.resumeHandoffSeq
  handedOff : task.pc.handedOff → task.suspendPublishedSeq < task.resumeHandoffSeq

/-- The resumes of task `t` that are posted or that an armed handshake will post. -/
def State.resumes (s : State) (t : Nat) : Nat :=
  s.posted.count (.resume t) +
    s.awaits.countP fun a => a.waiter = t ∧ a.handshake.state = .armed

structure Inv (s : State) : Prop where
  sound : ∀ (t : Nat) (task : Task), s.tasks[t]? = some task → task.Sound
  gates : ∀ t : Nat, .gate t ∈ s.posted → ∃ task : Task, s.tasks[t]? = some task ∧ task.pc.pushed
  resumes : ∀ t : Nat, s.resumes t ≤
    (s.tasks[t]?).elim 0 fun task => if task.pc.awaitsResume then 1 else 0
  owned : ∀ (t : Nat) (task : Task) (h : Nat), s.tasks[t]? = some task → task.pc.await = some h →
    ∃ a : Await, s.awaits[h]? = some a ∧ a.waiter = t

/-- The account of task `t` with runtime `r`. -/
def State.account (s : State) (r t : Nat) : Account (Counter ⊕ Gauge) :=
  match s.tasks[t]? with
  | some task => if task.runtime = r then task.standing.account task.left else ⟨fun _ => 0, []⟩
  | none => ⟨fun _ => 0, []⟩

/-- The metrics of runtime `r` hold what its tasks have recorded, as long as nothing is lost. -/
def InBooks (s : State) (r : Nat) : Prop :=
  (s.metrics r).level ≠ .off → (s.metrics r).Exact → ∀ k, Standing.tracked k →
    Balanced (Finset.range s.tasks.length) (s.account r) (s.metrics r).books k

/-! ## Handshakes -/

instance : LawfulBEq Posted := inferInstance

/-- What an armed handshake has to post. -/
def armed (x : AwaitHandshake) : Nat := if x.state = .armed then 1 else 0

/-- An operation posts no more than the handshake had to, and `extra`. -/
def Posts (op : AwaitHandshake → AwaitHandshake × Bool) (extra : Nat) : Prop :=
  ∀ x, armed (op x).1 + (op x).2.toNat ≤ armed x + extra

theorem posts_trigger : Posts AwaitHandshake.trigger 0 := by
  rintro ⟨state, cancelled⟩
  cases state <;> cases cancelled <;> decide

theorem posts_triggerCancel : Posts AwaitHandshake.triggerCancel 0 := by
  rintro ⟨state, cancelled⟩
  cases state <;> cases cancelled <;> decide

theorem posts_arm : Posts AwaitHandshake.arm 1 := by
  rintro ⟨state, cancelled⟩
  cases state <;> cases cancelled <;> decide

/-- Neither a task nor the metrics change, and no resume is added but `extra` for one task. -/
structure Quiet (s s' : State) (t extra : Nat) : Prop where
  tasks : s'.tasks = s.tasks
  metrics : s'.metrics = s.metrics
  gates : ∀ u, .gate u ∈ s'.posted → .gate u ∈ s.posted
  resumes : ∀ u, s'.resumes u ≤ s.resumes u + if u = t then extra else 0
  awaits : ∀ (h : Nat) (a : Await), s.awaits[h]? = some a →
    ∃ a' : Await, s'.awaits[h]? = some a' ∧ a'.waiter = a.waiter

theorem Quiet.refl (s : State) (t extra : Nat) : Quiet s s t extra :=
  ⟨rfl, rfl, fun _ => id, fun _ => Nat.le_add_right _ _, fun _ a ha => ⟨a, ha, rfl⟩⟩

/-- An operation on the handshake of an await of task `t`. -/
theorem Quiet.onHandshake {op : AwaitHandshake → AwaitHandshake × Bool} {extra h : Nat}
    (hop : Posts op extra) (ht : extra = 0 ∨ ∃ a : Await, s.awaits[h]? = some a ∧ a.waiter = t) :
    Quiet s (s.onHandshake h op) t extra := by
  unfold State.onHandshake
  cases ha : s.awaits[h]? with
  | none => exact .refl s t extra
  | some a =>
    obtain ⟨hlt, hget⟩ := List.getElem?_eq_some_iff.mp ha
    refine ⟨rfl, rfl, fun u hu => ?_, fun u => ?_, fun h' b hb => ?_⟩
    · rcases List.mem_append.mp hu with hu | hu
      · exact hu
      · split at hu
        · cases List.mem_singleton.mp hu
        · cases hu
    · have hposts := hop a.handshake
      have hset := List.countP_set (p := fun a : Await =>
        decide (a.waiter = u ∧ a.handshake.state = .armed))
        (a := { a with handshake := (op a.handshake).1 }) hlt
      rw [hget] at hset
      have hle : (if a.waiter = u ∧ a.handshake.state = .armed then 1 else 0) ≤
          s.awaits.countP fun a => a.waiter = u ∧ a.handshake.state = .armed := by
        split
        · rename_i hp
          exact List.countP_pos_iff.mpr ⟨a, hget ▸ List.getElem_mem hlt, by simpa using hp⟩
        · exact Nat.zero_le _
      have hextra : a.waiter = u → extra = if u = t then extra else 0 := by
        rintro rfl
        rcases ht with rfl | ⟨b, hb, hw⟩
        · split <;> rfl
        · obtain rfl : a = b := Option.some.inj (ha.symm.trans hb)
          rw [if_pos hw]
      have hcount : (if (op a.handshake).2 then [Posted.resume a.waiter] else []).count
          (.resume u) = if a.waiter = u then (op a.handshake).2.toNat else 0 := by
        cases (op a.handshake).2 <;> by_cases hu : a.waiter = u <;> simp [hu]
      simp only [State.resumes, List.count_append, hset, hcount]
      simp only [armed] at hposts
      by_cases hu : a.waiter = u
      · rw [← hextra hu]
        simp only [hu, true_and, decide_eq_true_eq, if_true] at hle hposts ⊢
        omega
      · simp [hu]
    · by_cases hh : h = h'
      · subst hh
        obtain rfl : a = b := Option.some.inj (ha.symm.trans hb)
        exact ⟨{ a with handshake := (op a.handshake).1 }, List.getElem?_set_self hlt, rfl⟩
      · exact ⟨b, by rw [List.getElem?_set_ne hh, hb], rfl⟩

/-! ## One task moves on -/

/-- Task `t` moves on, with its account in order. -/
structure Change (s s' : State) (t : Nat) (task task' : Task) : Prop where
  old : s.tasks[t]? = some task
  tasks : s'.tasks = s.tasks.set t task'
  runtime : task'.runtime = task.runtime
  sound : task'.Sound
  gates : ∀ u, .gate u ∈ s'.posted → .gate u ∈ s.posted ∨ u = t
  pushed : .gate t ∈ s'.posted → task'.pc.pushed
  resumes : ∀ u, u ≠ t → s'.resumes u ≤ s.resumes u
  resumed : s'.resumes t ≤ if task'.pc.awaitsResume then 1 else 0
  awaits : ∀ (h : Nat) (a : Await), s.awaits[h]? = some a →
    ∃ a' : Await, s'.awaits[h]? = some a' ∧ a'.waiter = a.waiter
  owned : ∀ h, task'.pc.await = some h → ∃ a : Await, s'.awaits[h]? = some a ∧ a.waiter = t

/-- The accounts are in order, and the books of every runtime balance. -/
structure Kept (s : State) : Prop where
  inv : Inv s
  off : ∀ (t : Nat) (task : Task), s.tasks[t]? = some task →
    (s.metrics task.runtime).level = .off → task.left = []
  inBooks : ∀ r, InBooks s r

theorem Change.getElem? (hc : Change s s' t task task') (u : Nat) :
    s'.tasks[u]? = if u = t then some task' else s.tasks[u]? := by
  obtain ⟨hlt, -⟩ := List.getElem?_eq_some_iff.mp hc.old
  rw [hc.tasks]
  by_cases hu : u = t
  · subst hu
    rw [if_pos rfl, List.getElem?_set_self hlt]
  · rw [if_neg hu, List.getElem?_set_ne (Ne.symm hu)]

theorem Inv.change (h : Inv s) (hc : Change s s' t task task') : Inv s' where
  sound := by
    intro u task'' hu
    rw [hc.getElem?] at hu
    split at hu
    · cases hu
      exact hc.sound
    · exact h.sound u task'' hu
  gates := by
    intro u hu
    rw [hc.getElem?]
    by_cases hut : u = t
    · subst hut
      exact ⟨task', if_pos rfl, hc.pushed hu⟩
    · rw [if_neg hut]
      exact h.gates u ((hc.gates u hu).resolve_right hut)
  resumes := by
    intro u
    rw [hc.getElem?]
    by_cases hut : u = t
    · subst hut
      rw [if_pos rfl]
      exact hc.resumed
    · rw [if_neg hut]
      exact Nat.le_trans (hc.resumes u hut) (h.resumes u)
  owned := by
    intro u task'' j hu hj
    rw [hc.getElem?] at hu
    by_cases hut : u = t
    · subst hut
      rw [if_pos rfl] at hu
      cases hu
      exact hc.owned j hj
    · rw [if_neg hut] at hu
      obtain ⟨a, ha, hw⟩ := h.owned u task'' j hu hj
      obtain ⟨a', ha', hw'⟩ := hc.awaits j a ha
      exact ⟨a', ha', hw'.trans hw⟩

theorem InBooks.change {r : Nat} (h : InBooks s r) (hc : Change s s' t task task')
    (hmetrics : s'.metrics = s.metrics)
    (hposted : (s.metrics task.runtime).level ≠ .off → ∀ k, Standing.tracked k →
      task'.standing.posted task'.left k = task.standing.posted task.left k) : InBooks s' r := by
  intro hlevel hexact k hk
  rw [hmetrics] at hlevel hexact
  have hlen : s'.tasks.length = s.tasks.length := by rw [hc.tasks, List.length_set]
  rw [hlen]
  refine (h hlevel hexact k hk).of_eq (by rw [hmetrics]) fun u _ => ?_
  simp only [State.account, hc.getElem?]
  by_cases hut : u = t
  · subst hut
    rw [if_pos rfl, hc.old]
    dsimp only
    rw [hc.runtime]
    split
    · rename_i hr
      exact hposted (hr ▸ hlevel) k hk
    · rfl
  · rw [if_neg hut]

/-- A task that moves on without posting anything keeps the books. -/
theorem Kept.change (h : Kept s) (hc : Change s s' t task task') (hmetrics : s'.metrics = s.metrics)
    (hoff : (s.metrics task.runtime).level = .off → task'.left = [])
    (hposted : (s.metrics task.runtime).level ≠ .off → ∀ k, Standing.tracked k →
      task'.standing.posted task'.left k = task.standing.posted task.left k) : Kept s' where
  inv := h.inv.change hc
  off := by
    intro u task'' hu hlevel
    rw [hc.getElem?] at hu
    rw [hmetrics] at hlevel
    split at hu
    · cases hu
      exact hoff (hc.runtime ▸ hlevel)
    · exact h.off u task'' hu hlevel
  inBooks r := (h.inBooks r).change hc hmetrics hposted

/-! ### The task -/

theorem Task.standing_of {stage : Stage} (h : task.pc.stage = stage) :
    task.standing = ⟨stage, task.deadline.isSome, task.deadlineDisposition⟩ := by
  rw [Task.standing, h]

/-- The task stays at its stage. -/
structure Task.Stays (task task' : Task) : Prop where
  runtime : task'.runtime = task.runtime
  stage : task'.pc.stage = task.pc.stage
  state : task'.state = task.state
  deadline : task'.deadline = task.deadline
  disposition : task'.deadlineDisposition = task.deadlineDisposition
  left : task'.left = task.left

theorem Task.Stays.standing (h : task.Stays task') : task'.standing = task.standing := by
  rw [Task.standing, h.stage, h.deadline, h.disposition, Task.standing]

theorem Task.Sound.stays (h : task.Sound) (hs : task.Stays task')
    (hsettled : task'.pc.unattended → task.left = [])
    (hseq : task'.suspendPublishedSeq ≤ task'.resumeHandoffSeq)
    (hhanded : task'.pc.handedOff → task'.suspendPublishedSeq < task'.resumeHandoffSeq) :
    task'.Sound where
  state := by
    rw [hs.state, hs.stage]
    exact h.state
  recorded := by
    rw [hs.standing, hs.left]
    exact h.recorded
  settled := by
    rw [hs.left]
    exact hsettled
  unjudged := by
    rw [hs.stage, hs.disposition]
    exact h.unjudged
  judged := by
    rw [hs.stage, hs.deadline, hs.disposition]
    exact h.judged
  seq := hseq
  handedOff := hhanded

/-- A record begins: the task is at the next stage, and the record is still to be made. -/
theorem Task.Sound.begins {r : List Update} (h : Standing.Moves task.standing r task'.standing)
    (level : MetricsLevel) (worker : Option Nat) (hstate : task'.state = task'.pc.stage.state)
    (hattended : task'.pc.unattended = false)
    (hunjudged : task'.pc.stage.started = false → task'.deadlineDisposition = .none)
    (hjudged : task'.pc.stage.started → task'.deadline.isSome → task'.deadlineDisposition ≠ .none)
    (hseq : task'.suspendPublishedSeq ≤ task'.resumeHandoffSeq)
    (hhanded : task'.pc.handedOff → task'.suspendPublishedSeq < task'.resumeHandoffSeq) :
    ({ task' with worker := worker, left := record level r } : Task).Sound where
  state := hstate
  recorded := by
    refine ⟨r, h.mem_records, ?_⟩
    show record level r <:+ r
    unfold record
    split
    · exact List.nil_suffix
    · exact List.suffix_refl r
  settled hun := by
    rw [show task'.pc.unattended = true from hun] at hattended
    cases hattended
  unjudged := hunjudged
  judged := hjudged
  seq := hseq
  handedOff := hhanded

theorem posted_record {t t' : Standing} {r : List Update} (h : Standing.Moves t r t')
    {level : MetricsLevel} (hlevel : level ≠ .off) (k : Counter ⊕ Gauge)
    (hk : Standing.tracked k) : t'.posted (record level r) k = t.posted [] k := by
  rw [record, if_neg hlevel]
  exact h.posted k hk

/-! ### The whole state -/

/-- The task moves on, after a step that is quiet. -/
theorem Kept.quiet {s₁ : State} {extra : Nat} (h : Kept s) (hold : s.tasks[t]? = some task)
    (hq : Quiet s s₁ t extra) (hruntime : task'.runtime = task.runtime) (hsound : task'.Sound)
    (hoff : (s.metrics task.runtime).level = .off → task'.left = [])
    (hposted : (s.metrics task.runtime).level ≠ .off → ∀ k, Standing.tracked k →
      task'.standing.posted task'.left k = task.standing.posted task.left k)
    (hpushed : task.pc.pushed → task'.pc.pushed)
    (hresumed : s₁.resumes t ≤ if task'.pc.awaitsResume then 1 else 0)
    (howned : ∀ h, task'.pc.await = some h → task.pc.await = some h) :
    Kept (s₁.setTask t task') := by
  refine h.change ⟨hold, ?_, hruntime, hsound, fun u hu => .inl (hq.gates u hu),
    fun hg => ?_, fun u hu => ?_, hresumed, hq.awaits, fun j hj => ?_⟩ hq.metrics hoff hposted
  · rw [State.setTask, hq.tasks]
  · obtain ⟨task'', ht, hp⟩ := h.inv.gates t (hq.gates t hg)
    obtain rfl : task = task'' := Option.some.inj (hold.symm.trans ht)
    exact hpushed hp
  · have hle := hq.resumes u
    rw [if_neg hu] at hle
    exact hle
  · obtain ⟨a, ha, hw⟩ := h.inv.owned t task j hold (howned j hj)
    obtain ⟨a', ha', hw'⟩ := hq.awaits j a ha
    exact ⟨a', ha', hw'.trans hw⟩

/-- The bound on the resumes of a task. -/
theorem Inv.resumes_le (h : Inv s) (hold : s.tasks[t]? = some task) :
    s.resumes t ≤ if task.pc.awaitsResume then 1 else 0 := by
  have hle := h.resumes t
  rwa [hold] at hle

/-- The task stays at its stage, after a step that is quiet. -/
theorem Kept.stays {s₁ : State} (h : Kept s) (hold : s.tasks[t]? = some task)
    (hq : Quiet s s₁ t 0) (hs : task.Stays task')
    (hsettled : task'.pc.unattended → task.left = [])
    (hseq : task'.suspendPublishedSeq ≤ task'.resumeHandoffSeq)
    (hhanded : task'.pc.handedOff → task'.suspendPublishedSeq < task'.resumeHandoffSeq)
    (hpushed : task.pc.pushed → task'.pc.pushed)
    (hawaits : task.pc.awaitsResume → task'.pc.awaitsResume)
    (howned : ∀ h, task'.pc.await = some h → task.pc.await = some h) :
    Kept (s₁.setTask t task') := by
  refine h.quiet hold hq hs.runtime ((h.inv.sound t task hold).stays hs hsettled hseq hhanded)
    (fun hlevel => hs.left.trans (h.off t task hold hlevel))
    (fun _ k _ => by rw [hs.standing, hs.left]) hpushed ?_ howned
  have hle := h.inv.resumes_le hold
  have hquiet := hq.resumes t
  rw [if_pos rfl] at hquiet
  refine Nat.le_trans hquiet (Nat.le_trans hle ?_)
  split
  · rename_i hp
    rw [if_pos (hawaits hp)]
  · exact Nat.zero_le _

/-- The task goes to its next stage, after a step that is quiet. -/
theorem Kept.begins {s₁ : State} {r : List Update} (h : Kept s) (hold : s.tasks[t]? = some task)
    (hleft : task.left = []) (hq : Quiet s s₁ t 0)
    (hm : Standing.Moves task.standing r task'.standing) (worker : Option Nat)
    (hruntime : task'.runtime = task.runtime) (hstate : task'.state = task'.pc.stage.state)
    (hattended : task'.pc.unattended = false)
    (hunjudged : task'.pc.stage.started = false → task'.deadlineDisposition = .none)
    (hjudged : task'.pc.stage.started → task'.deadline.isSome → task'.deadlineDisposition ≠ .none)
    (hseq : task'.suspendPublishedSeq ≤ task'.resumeHandoffSeq)
    (hhanded : task'.pc.handedOff → task'.suspendPublishedSeq < task'.resumeHandoffSeq)
    (hpushed : task.pc.pushed → task'.pc.pushed)
    (hresumed : s₁.resumes t ≤ if task'.pc.awaitsResume then 1 else 0)
    (howned : ∀ h, task'.pc.await = some h → task.pc.await = some h) :
    Kept (s₁.begin t task' worker r) := by
  refine h.quiet hold hq hruntime (.begins hm (s₁.metrics task'.runtime).level worker hstate
    hattended hunjudged hjudged hseq hhanded) (fun hlevel => ?_) (fun hlevel k hk => ?_) hpushed
    hresumed howned
  · rw [hq.metrics, hruntime, hlevel]
    rfl
  · rw [hleft]
    refine posted_record hm ?_ k hk
    rw [hq.metrics, hruntime]
    exact hlevel

end TaskMetrics
end AstraScheduler
