import AstraScheduler.ExecutionIdentity
import AstraScheduler.Threads

/-! # The priority of a task

`prepare_submission` and `GraphExecution::run` take the priority from the options.  Without
options, work submitted from the code of a task of the same runtime has the priority that the
thread-local variable says, and any other work is Normal.  `materialize` gives a node the
priority of its own options, else that of the graph.

Threads of the user and workers of any runtimes submit and execute, under any nesting of helping
waits; the guards of `ExecutionIdentity` save and restore the variable. -/

namespace AstraScheduler
namespace PriorityInheritance

open ExecutionIdentity (GraphRunId Invocation Identity Guard Frame)
open Threads (Each)
open Transition (Machine)

inductive Kind where
  | callable
  | coroutine
  | node (run : GraphRunId)
  | coroutineNode (run : GraphRunId)
  deriving DecidableEq, Repr

/-- A submitted task or a materialized node.  The last two fields record the priority that its
options name and the task in whose code it was submitted, if that is one of the same runtime. -/
structure Task where
  id : TaskId
  kind : Kind
  priority : Priority
  named : Option Priority
  parent : Option Nat
  deriving DecidableEq, Repr

/-- The first execution of a task, or that of a resume segment. -/
def Task.invocation (t : Task) (resume : Bool) : Invocation :=
  match t.kind, resume with
  | .callable, _ => .submitted t.id t.priority
  | .coroutine, false => .spawned t.id t.priority
  | .coroutine, true => .resume t.id t.priority
  | .node run, _ => .node run t.id t.priority
  | .coroutineNode run, false => .coroutineNode run t.id t.priority
  | .coroutineNode run, true => .coroutineNodeResume run t.id t.priority

/-- A thread; `worker` is `current_worker_runtime_id`, none on a thread of the user.  `stack`
records which tasks the frames execute. -/
structure Thread where
  worker : Option RuntimeId
  thread : ExecutionIdentity.Thread
  stack : List Nat := []
  deriving DecidableEq, Repr

namespace Thread

/-- In the code of a task, or of the user. -/
def inCode (t : Thread) : Bool :=
  match t.thread.frames with
  | [] => t.worker.isNone
  | f :: _ => !f.waiting

def isInternal (t : Thread) (r : RuntimeId) : Bool := t.worker = some r

/-- `resolved_priority`, and the `graph_priority` of a graph run. -/
def resolvePriority (t : Thread) (r : RuntimeId) : Option Priority → Priority
  | some priority => priority
  | none => if t.isInternal r then t.thread.ctx.currentExecutingTaskPriority else .normal

/-- The task in whose code work for runtime `r` is submitted. -/
def parentFor (t : Thread) (r : RuntimeId) : Option Nat :=
  if t.isInternal r then t.stack.head? else none

end Thread

structure Process where
  tasks : List Task := []
  threads : List Thread := []
  deriving DecidableEq, Repr

/-- A node of a graph that is run: its id, its options, and whether it is a coroutine. -/
structure NodeSpec where
  sequence : Nat
  options : Option Priority
  isCoroutine : Bool
  deriving DecidableEq, Repr

inductive Label where
  | thread (worker : Option RuntimeId)
  /-- `submit`, or `spawn` of a coroutine, on a scheduler of the runtime of `id`. -/
  | submit (i : Nat) (id : TaskId) (isCoroutine : Bool) (options : Option Priority)
  | runGraph (i : Nat) (run : GraphRunId) (options : Option Priority) (nodes : List NodeSpec)
  /-- A worker executes task `k` of its runtime, or a resume segment of it. -/
  | execute (i k : Nat) (resume : Bool)
  | waitTask (i : Nat) (target : TaskId)
  | waitGraph (i : Nat) (target : GraphRunId)
  | endWait (i : Nat)
  | post (i : Nat) (impl : Impl) (invoker : Invoker) (isExternal : Bool)
  | leave (i : Nat) (how : ExecutionIdentity.Leave)
  deriving DecidableEq, Repr

namespace Process

def materialize (t : Thread) (run : GraphRunId) (options : Option Priority) (n : NodeSpec) :
    Task where
  id := ⟨run.runtimeId, n.sequence⟩
  kind := if n.isCoroutine then .coroutineNode run else .node run
  priority := n.options.getD (t.resolvePriority run.runtimeId options)
  named := n.options.or options
  parent := t.parentFor run.runtimeId

def submitted (t : Thread) (id : TaskId) (isCoroutine : Bool) (options : Option Priority) :
    Task where
  id := id
  kind := if isCoroutine then .coroutine else .callable
  priority := t.resolvePriority id.runtimeId options
  named := options
  parent := t.parentFor id.runtimeId

/-- Thread `i` takes a step of its own, after which its frames execute `stack`. -/
def threadStep (s : Process) (i : Nat) (a : ExecutionIdentity.Step) (stack : List Nat → List Nat) :
    Option Process :=
  s.threads[i]?.bind fun t =>
    if t.worker.isSome then
      (ExecutionIdentity.step t.thread a).map fun thread =>
        { s with threads := s.threads.set i { t with thread := thread, stack := stack t.stack } }
    else none

def next (s : Process) : Label → Option Process
  | .thread worker =>
    some { s with
      threads := s.threads ++
        [{ worker := worker, thread := { ctx := { currentWorkerImpl := worker.map (·.value) } } }] }
  | .submit i id isCoroutine options =>
    s.threads[i]?.bind fun t =>
      if t.inCode then some { s with tasks := s.tasks ++ [submitted t id isCoroutine options] }
      else none
  | .runGraph i run options nodes =>
    s.threads[i]?.bind fun t =>
      if t.inCode then some { s with tasks := s.tasks ++ nodes.map (materialize t run options) }
      else none
  | .execute i k resume =>
    s.threads[i]?.bind fun t =>
      s.tasks[k]?.bind fun task =>
        if t.isInternal task.id.runtimeId then
          s.threadStep i (.execute (task.invocation resume)) (k :: ·)
        else none
  | .waitTask i target => s.threadStep i (.waitTask target) id
  | .waitGraph i target => s.threadStep i (.waitGraph target) id
  | .endWait i => s.threadStep i .endWait id
  | .post i impl invoker isExternal => s.threadStep i (.post impl invoker isExternal) id
  | .leave i how => s.threadStep i (.leave how) List.tail

def machine : Machine Process Label where
  init s := s = {}
  next := next

end Process

/-! ## What the priorities are to be -/

/-- The priority of the nearest task that names one, from a task on through those that submitted
it; Normal if none does. -/
inductive Inherits (tasks : List Task) : Nat → Priority → Prop
  | named {k : Nat} {t : Task} {p : Priority} (ht : tasks[k]? = some t) (hp : t.named = some p) :
      Inherits tasks k p
  | parent {k j : Nat} {t : Task} {p : Priority} (ht : tasks[k]? = some t) (hp : t.named = none)
      (hj : t.parent = some j) (h : Inherits tasks j p) : Inherits tasks k p
  | root {k : Nat} {t : Task} (ht : tasks[k]? = some t) (hp : t.named = none)
      (hj : t.parent = none) : Inherits tasks k .normal

variable {tasks new : List Task} {s s' : Process} {t : Thread} {k : Nat} {p q : Priority}

theorem Inherits.append (h : Inherits tasks k p) : Inherits (tasks ++ new) k p := by
  have hkeep : ∀ {k : Nat} {t : Task}, tasks[k]? = some t → (tasks ++ new)[k]? = some t := by
    intro k t ht
    rw [List.getElem?_append_left (List.getElem?_eq_some_iff.mp ht).1]
    exact ht
  induction h with
  | named ht hp => exact .named (hkeep ht) hp
  | parent ht hp hj _ ih => exact .parent (hkeep ht) hp hj ih
  | root ht hp hj => exact .root (hkeep ht) hp hj

theorem Inherits.unique (h : Inherits tasks k p) (h' : Inherits tasks k q) : p = q := by
  induction h with
  | named ht hp =>
    cases h' with
    | named ht' hp' | parent ht' hp' | root ht' hp' => simp_all
  | parent ht hp hj _ ih =>
    cases h' with
    | named ht' hp' | root ht' hp' => simp_all
    | parent ht' hp' hj' h' =>
      obtain rfl := Option.some.inj (ht.symm.trans ht')
      obtain rfl := Option.some.inj (hj.symm.trans hj')
      exact ih h'
  | root ht hp hj =>
    cases h' with
    | named ht' hp' | parent ht' hp' hj' => simp_all
    | root => rfl

/-! ## The variable under nested executions -/

/-- The variable is the priority of the task on top, or Normal, and stays right as the guards
are undone. -/
def StackOk (tasks : List Task) : Identity → List Frame → List Nat → Prop
  | i, [], [] => i.priority = .normal
  | i, f :: fs, k :: ks => (∃ t, tasks[k]? = some t ∧ i.priority = t.priority) ∧
      StackOk tasks (f.guards.foldl Identity.restore i) fs ks
  | _, _, _ => False

theorem StackOk.append {i : Identity} {fs : List Frame} {ks : List Nat}
    (h : StackOk tasks i fs ks) : StackOk (tasks ++ new) i fs ks := by
  induction fs generalizing i ks with
  | nil =>
    cases ks with
    | nil => exact h
    | cons k ks => exact h.elim
  | cons f fs ih =>
    cases ks with
    | nil => exact h.elim
    | cons k ks =>
      obtain ⟨⟨t, ht, hp⟩, hrest⟩ := h
      refine ⟨⟨t, ?_, hp⟩, ih hrest⟩
      rw [List.getElem?_append_left (List.getElem?_eq_some_iff.mp ht).1]
      exact ht

section Steps
variable {t t' : ExecutionIdentity.Thread} {ks : List Nat}

theorem StackOk.execute (h : StackOk tasks t.identity t.frames ks) {task : Task} {resume : Bool}
    (hk : tasks[k]? = some task)
    (hs : ExecutionIdentity.step t (.execute (task.invocation resume)) = some t') :
    StackOk tasks t'.identity t'.frames (k :: ks) := by
  obtain ⟨-, hframes, hidentity, hrestore, -⟩ := ExecutionIdentity.execute_cases hs
  rw [hframes]
  refine ⟨⟨task, hk, ?_⟩, ?_⟩
  · rw [hidentity]
    unfold Task.invocation
    split <;> rfl
  · rw [hrestore]
    exact h

theorem StackOk.setWaiting (h : StackOk tasks t.identity t.frames ks) {waiting : Bool}
    (hs : t.setWaiting waiting = some t') : StackOk tasks t'.identity t'.frames ks := by
  unfold ExecutionIdentity.Thread.setWaiting at hs
  split at hs
  · rename_i f fs hframes
    split at hs
    · cases hs
    · obtain rfl := Option.some.inj hs
      rw [hframes] at h
      cases ks with
      | nil => exact h.elim
      | cons k ks => exact h
  · cases hs

theorem StackOk.post (h : StackOk tasks t.identity t.frames ks) {impl : Impl} {invoker : Invoker}
    {isExternal : Bool} (hs : ExecutionIdentity.step t (.post impl invoker isExternal) = some t') :
    StackOk tasks t'.identity t'.frames ks := by
  simp only [ExecutionIdentity.step] at hs
  split at hs
  · split at hs
    · cases hs
    · obtain rfl := Option.some.inj hs
      rcases ThreadContext.postTaskInternal_slot t.ctx impl (some invoker) isExternal
        with hsame | ⟨posted, -, -, -, hslot⟩
      · rw [hsame]
        exact h
      · rw [hslot]
        exact h
  · cases hs

theorem StackOk.leave (h : StackOk tasks t.identity t.frames ks) {how : ExecutionIdentity.Leave}
    (hs : ExecutionIdentity.step t (.leave how) = some t') :
    StackOk tasks t'.identity t'.frames ks.tail := by
  simp only [ExecutionIdentity.step] at hs
  split at hs
  · rename_i f fs hframes
    split at hs
    · cases hs
    · obtain rfl := Option.some.inj hs
      rw [hframes] at h
      cases ks with
      | nil => exact h.elim
      | cons k ks =>
        show StackOk tasks (t.exitAll f.guards).identity fs ks
        rw [ExecutionIdentity.identity_exitAll]
        exact h.2
  · cases hs

theorem StackOk.wait (h : StackOk tasks t.identity t.frames ks) {a : ExecutionIdentity.Step}
    (ha : (∃ target, a = .waitTask target) ∨ (∃ target, a = .waitGraph target) ∨ a = .endWait)
    (hs : ExecutionIdentity.step t a = some t') : StackOk tasks t'.identity t'.frames ks := by
  rcases ha with ⟨target, rfl⟩ | ⟨target, rfl⟩ | rfl
  · simp only [ExecutionIdentity.step] at hs
    split at hs
    · cases hs
    · exact h.setWaiting hs
  · simp only [ExecutionIdentity.step] at hs
    split at hs
    · cases hs
    · exact h.setWaiting hs
  · exact h.setWaiting hs

end Steps

/-! ## Runs -/

structure Inv (s : Process) : Prop where
  tasks : ∀ k t, s.tasks[k]? = some t → Inherits s.tasks k t.priority
  threads : Each (fun _ t => StackOk s.tasks t.thread.identity t.thread.frames t.stack) s.threads

/-- What a submission resolves to is what the new task inherits. -/
theorem inherits_new (h : StackOk tasks t.thread.identity t.thread.frames t.stack)
    (htasks : ∀ k t, tasks[k]? = some t → Inherits tasks k t.priority) {task : Task}
    {r : RuntimeId} {options : Option Priority} (hk : (tasks ++ new)[k]? = some task)
    (hparent : task.parent = t.parentFor r)
    (hpriority : task.priority = task.named.getD (t.resolvePriority r options))
    (hnamed : task.named = none → options = none) : Inherits (tasks ++ new) k task.priority := by
  cases hn : task.named with
  | some p =>
    rw [hpriority, hn]
    exact .named hk hn
  | none =>
    rw [hpriority, hn, hnamed hn]
    simp only [Option.getD_none, Thread.resolvePriority]
    cases hinternal : t.isInternal r with
    | false =>
      rw [Thread.parentFor, hinternal] at hparent
      exact .root hk hn hparent
    | true =>
      rw [Thread.parentFor, hinternal] at hparent
      simp only [if_true] at hparent ⊢
      show Inherits (tasks ++ new) k t.thread.identity.priority
      -- inside the task on top of the stack, or outside of any
      cases hframes : t.thread.frames <;> cases hstack : t.stack <;>
        rw [hframes, hstack] at h
      case nil.nil =>
        rw [hstack] at hparent
        rw [show t.thread.identity.priority = .normal from h]
        exact .root hk hn hparent
      case nil.cons | cons.nil => exact h.elim
      case cons.cons f fs j ks =>
        obtain ⟨⟨above, habove, hp⟩, -⟩ := h
        rw [hstack] at hparent
        rw [hp]
        exact .parent hk hn hparent (htasks j above habove).append

theorem Inv.submit (h : Inv s) {i : Nat} (ht : s.threads[i]? = some t) (r : RuntimeId)
    (options : Option Priority)
    (hnew : ∀ task ∈ new, task.parent = t.parentFor r ∧
      task.priority = task.named.getD (t.resolvePriority r options) ∧
      (task.named = none → options = none)) : Inv { s with tasks := s.tasks ++ new } := by
  refine ⟨fun k task hk => ?_, h.threads.imp fun _ _ _ hok => hok.append⟩
  by_cases hold : k < s.tasks.length
  · rw [List.getElem?_append_left hold] at hk
    exact (h.tasks k task hk).append
  · have hmem : task ∈ new := by
      rw [List.getElem?_append_right (Nat.le_of_not_lt hold)] at hk
      exact List.mem_of_getElem? hk
    obtain ⟨hparent, hpriority, hnamed⟩ := hnew task hmem
    exact inherits_new (h.threads i t ht) h.tasks hk hparent hpriority hnamed

theorem Inv.threadStep (h : Inv s) {i : Nat} {a : ExecutionIdentity.Step}
    {stack : List Nat → List Nat} (hs : s.threadStep i a stack = some s')
    (hstep : ∀ t t', s.threads[i]? = some t → ExecutionIdentity.step t.thread a = some t' →
      StackOk s.tasks t.thread.identity t.thread.frames t.stack →
        StackOk s.tasks t'.identity t'.frames (stack t.stack)) : Inv s' := by
  obtain ⟨t, ht, hs⟩ := Option.bind_eq_some_iff.mp hs
  split at hs
  · obtain ⟨t', hmove, rfl⟩ := Option.map_eq_some_iff.mp hs
    exact ⟨h.tasks, h.threads.set (hstep t t' ht hmove (h.threads i t ht)) fun _ _ _ _ hok => hok⟩
  · cases hs

theorem Inv.next (h : Inv s) {a : Label} (hs : s.next a = some s') : Inv s' := by
  cases a with
  | thread worker =>
    obtain rfl := Option.some.inj hs
    exact ⟨h.tasks, h.threads.append rfl⟩
  | submit i id isCoroutine options =>
    obtain ⟨t, ht, hs⟩ := Option.bind_eq_some_iff.mp hs
    split at hs
    · obtain rfl := Option.some.inj hs
      refine h.submit ht id.runtimeId options fun task htask => ?_
      obtain rfl := List.mem_singleton.mp htask
      exact ⟨rfl, by cases options <;> rfl, fun hnone => hnone⟩
    · cases hs
  | runGraph i run options nodes =>
    obtain ⟨t, ht, hs⟩ := Option.bind_eq_some_iff.mp hs
    split at hs
    · obtain rfl := Option.some.inj hs
      refine h.submit ht run.runtimeId options fun task htask => ?_
      obtain ⟨n, -, rfl⟩ := List.mem_map.mp htask
      refine ⟨rfl, ?_, ?_⟩ <;> cases hn : n.options <;> cases options <;>
        simp [Process.materialize, hn, Thread.resolvePriority]
    · cases hs
  | execute i k resume =>
    obtain ⟨t, ht, hs⟩ := Option.bind_eq_some_iff.mp hs
    obtain ⟨task, hk, hs⟩ := Option.bind_eq_some_iff.mp hs
    split at hs
    · exact h.threadStep hs fun t t' _ hmove hok => hok.execute hk hmove
    · cases hs
  | waitTask i target =>
    exact h.threadStep hs fun t t' _ hmove hok => hok.wait (.inl ⟨target, rfl⟩) hmove
  | waitGraph i target =>
    exact h.threadStep hs fun t t' _ hmove hok => hok.wait (.inr (.inl ⟨target, rfl⟩)) hmove
  | endWait i => exact h.threadStep hs fun t t' _ hmove hok => hok.wait (.inr (.inr rfl)) hmove
  | post i impl invoker isExternal => exact h.threadStep hs fun t t' _ hmove hok => hok.post hmove
  | leave i how => exact h.threadStep hs fun t t' _ hmove hok => hok.leave hmove

theorem inv_of_reachable (h : Process.machine.Reachable s) : Inv s := by
  refine h.invariant Inv ?_ fun _ _ _ hs _ hnext => hs.next hnext
  rintro _ rfl
  exact ⟨fun k t h => by simp at h, Each.nil⟩

/-- **The priority of every task is inherited**: it is that of the nearest task, from the task on
through those in whose code it was submitted, whose options name one, and Normal if none do. -/
theorem priority_inherited (h : Process.machine.Reachable s) {task : Task}
    (hk : s.tasks[k]? = some task) (p : Priority) :
    Inherits s.tasks k p ↔ task.priority = p := by
  have hinherits := (inv_of_reachable h).tasks k task hk
  constructor
  · exact hinherits.unique
  · rintro rfl
    exact hinherits

/-- The first task is critical.  It submits one without options, helps with it while it is
waiting, and submits another one; what it has helped with submits one that is low. -/
def submissions : List Label :=
  [.thread none, .thread (some ⟨1⟩), .submit 0 ⟨⟨1⟩, 1⟩ false (some .critical), .execute 1 0 false,
    .submit 1 ⟨⟨1⟩, 2⟩ true none, .waitTask 1 ⟨⟨1⟩, 2⟩, .execute 1 1 false,
    .submit 1 ⟨⟨1⟩, 3⟩ false (some .low), .leave 1 .suspended, .endWait 1,
    .submit 1 ⟨⟨1⟩, 4⟩ false none, .submit 1 ⟨⟨2⟩, 1⟩ false none]

theorem priority_inherited_submissions :
    ∃ s, Process.machine.run {} submissions = some s ∧
      s.tasks.map (·.priority) = [Priority.critical, .critical, .low, .critical, .normal] ∧
      Inherits s.tasks 3 .critical := by
  obtain ⟨s, hs⟩ := Option.isSome_iff_exists.mp
    (show (Process.machine.run {} submissions).isSome by decide)
  have hend : (Process.machine.run {} submissions).map (fun s => s.tasks.map (·.priority)) =
      some [Priority.critical, .critical, .low, .critical, .normal] := by decide
  rw [hs] at hend
  have htasks : s.tasks.map (·.priority) = _ := Option.some.inj hend
  have hthird : (s.tasks.map (·.priority))[3]? = some Priority.critical := by rw [htasks]; rfl
  rw [List.getElem?_map] at hthird
  obtain ⟨task, hk, hp⟩ := Option.map_eq_some_iff.mp hthird
  exact ⟨s, hs, htasks,
    (priority_inherited (Machine.reachable_of_run rfl hs) hk .critical).mpr hp⟩

end PriorityInheritance
end AstraScheduler
