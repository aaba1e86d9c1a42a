import AstraScheduler.ThreadContext

/-! # The ready queues

`ReadyQueues` holds, for each priority band, a global deadline heap and a global
FIFO under `global_mutex_`, and one local queue for each worker.  A local queue has a
band for each priority, kept either in deques under a mutex of its own or in
lock-free deques whose ring may fail to grow.

Which mutexes a thread holds is an argument of every operation, and an operation that
would lock a mutex the thread holds already answers with that mutex instead of a
result: the mutexes are not recursive, so such a thread never gets further. -/

namespace AstraScheduler

/-- `ReadyQueues::QueuedTask`. -/
structure QueuedTask (I : Type) where
  invoker : I
  isExternal : Bool
  deriving DecidableEq, Repr

/-- `ReadyQueues::EdfEntry`. -/
structure EdfEntry (I : Type) where
  deadline : Nat
  admissionSequence : Nat
  task : QueuedTask I
  deriving DecidableEq, Repr

/-- `LocalDequeBackend`. -/
inductive LocalDequeBackend where
  | locked
  | chaseLevLockFree
  deriving DecidableEq, Repr

/-- `ReadyQueues::LocalQueues`: the bands, oldest invoker first.  `room` is the number
of pushes after which a band's ring would have to grow and cannot; `none` when growth
succeeds. -/
structure LocalQueues (I : Type) where
  backend : LocalDequeBackend := .chaseLevLockFree
  bands : Priority → List (QueuedTask I) := fun _ => []
  room : Priority → Option Nat := fun _ => none

/-- The queues of a runtime with `workerCount` workers. -/
structure ReadyQueues (I : Type) where
  globalEdfHeaps : Priority → List (EdfEntry I) := fun _ => []
  globalFifoQueues : Priority → List (QueuedTask I) := fun _ => []
  globalAdmissionSequence : Nat := 0
  locals : Nat → LocalQueues I := fun _ => {}
  workerCount : Nat

/-- The mutexes of a `ReadyQueues`. -/
inductive QueueMutex where
  | global
  | locked (workerIndex : Nat)
  deriving DecidableEq, Repr

variable {I : Type}

namespace LocalQueues

/-- `LocalQueues::push` without its mutex: `none` when the band's ring cannot grow. -/
def push (q : LocalQueues I) (task : QueuedTask I) (priority : Priority) :
    Option (LocalQueues I) :=
  let pushed := { q with bands := Function.update q.bands priority (q.bands priority ++ [task]) }
  if q.backend = .locked then some pushed
  else
    match q.room priority with
    | none => some pushed
    | some 0 => none
    | some (k + 1) => some { pushed with room := Function.update q.room priority (some k) }

end LocalQueues

namespace ReadyQueues

def setLocal (rq : ReadyQueues I) (i : Nat) (q : LocalQueues I) : ReadyQueues I :=
  { rq with locals := Function.update rq.locals i q }

/-- `global_fifo_queues_[band].push_back` under `global_mutex_`. -/
def pushGlobal (rq : ReadyQueues I) (held : Option QueueMutex) (task : QueuedTask I)
    (priority : Priority) : Except QueueMutex (ReadyQueues I) :=
  if held = some .global then .error .global
  else .ok { rq with
    globalFifoQueues := Function.update rq.globalFifoQueues priority
      (rq.globalFifoQueues priority ++ [task]) }

/-- The deadline branch of `publish`, under `global_mutex_`. -/
def pushEdf (rq : ReadyQueues I) (held : Option QueueMutex) (task : QueuedTask I)
    (priority : Priority) (deadline : Nat) : Except QueueMutex (ReadyQueues I) :=
  if held = some .global then .error .global
  else .ok { rq with
    globalAdmissionSequence := rq.globalAdmissionSequence + 1
    globalEdfHeaps := Function.update rq.globalEdfHeaps priority
      (rq.globalEdfHeaps priority ++ [⟨deadline, rq.globalAdmissionSequence + 1, task⟩]) }

/-- The local branch of `publish`: `.ok none` when the push fails and the invoker
falls through to the global queue. -/
def pushLocal (rq : ReadyQueues I) (held : Option QueueMutex) (i : Nat) (task : QueuedTask I)
    (priority : Priority) : Except QueueMutex (Option (ReadyQueues I)) :=
  if (rq.locals i).backend = .locked ∧ held = some (.locked i) then .error (.locked i)
  else .ok (((rq.locals i).push task priority).map (rq.setLocal i))

/-- `ReadyQueues::publish`, on a thread holding `held`. -/
def publish [TaskInvokerBase I] (rq : ReadyQueues I) (held : Option QueueMutex) (task : I)
    (isExternal useLocalQueue : Bool) (workerIndex : Nat) : Except QueueMutex (ReadyQueues I) :=
  let priority := TaskInvokerBase.priority task
  let fallback := rq.pushGlobal held ⟨task, isExternal⟩ priority
  match TaskInvokerBase.deadline task, TaskInvokerBase.isResumeSegment task with
  | some deadline, false => rq.pushEdf held ⟨task, isExternal⟩ priority deadline
  | _, _ =>
    if useLocalQueue ∧ workerIndex < rq.workerCount then
      match rq.pushLocal held workerIndex ⟨task, false⟩ priority with
      | .error mutex => .error mutex
      | .ok (some pushed) => .ok pushed
      | .ok none => fallback
    else fallback

/-- The successful `steal` of a lock-free band: its oldest invoker. -/
def stealFront (rq : ReadyQueues I) (i : Nat) (priority : Priority) :
    Option (QueuedTask I × ReadyQueues I) :=
  match (rq.locals i).bands priority with
  | [] => none
  | task :: tasks =>
    some (task, rq.setLocal i { rq.locals i with
      bands := Function.update (rq.locals i).bands priority tasks })

end ReadyQueues
end AstraScheduler
