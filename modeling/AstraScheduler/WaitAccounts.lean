import AstraScheduler.Brackets
import AstraScheduler.ExecutionIdentity
import AstraScheduler.MetricsMerge
import AstraScheduler.Threads

/-! # What waits record

`TaskHandle::wait`, `get` and `wait_for`, and the same of a graph run, called by any threads.
A thread of the user blocks in `perform_caller_wait`; a worker helps: it executes other work on
top of its wait, which may wait in turn.  `WaitDiagnosticsGuard` records at the end of a wait
what was begun at its start.

The metrics are Detailed.  A counter is the sum of what has been added to it.  The log of a
thread is what it has recorded, and what its calls have returned. -/

namespace AstraScheduler
namespace WaitAccounts

open Brackets (Bracket openAfter)
open ExecutionIdentity (GraphRunId Invocation)
open MetricsMerge (ShardCounter ShardHistogram)
open Transition (Machine)

inductive Target where
  | task (id : TaskId)
  | graph (id : GraphRunId)
  deriving DecidableEq, Repr

def Target.runtimeId : Target → RuntimeId
  | .task id => id.runtimeId
  | .graph id => id.runtimeId

/-- The members of the guard; `deadline` is a time of the clock. -/
structure WaitDiagnosticsGuard where
  diagnostics : Option RuntimeId
  source : TaskId
  target : Target
  deadline : Option Nat
  helping : Bool
  deriving DecidableEq, Repr

/-- Where `perform_caller_wait` or `perform_graph_caller_wait` stands. -/
inductive WaitPlace where
  | entered
  /-- In the wait on the condition variable of the target. -/
  | blocked
  /-- At the head of the helping loop. -/
  | helping
  /-- In the helping loop, looking for something to execute. -/
  | claiming
  /-- In the destructor of the guard; `exceeded` when an exception is on its way. -/
  | ending (exceeded : Bool)
  /-- The destructor has found the target `completed` or not. -/
  | stamping (exceeded completed : Bool)
  /-- Back in `wait_for`; the guard has recorded a timeout or not. -/
  | returning (timedOut : Bool)
  deriving DecidableEq, Repr

structure Wait where
  guard : WaitDiagnosticsGuard
  place : WaitPlace := .entered
  deriving DecidableEq, Repr

inductive Frame where
  /-- The code of a task. -/
  | code (invocation : Invocation)
  | wait (w : Wait)
  deriving DecidableEq, Repr

/-- What a thread records or returns. -/
inductive Entry where
  /-- The counter of the call, and the event WaitBegin. -/
  | waitBegin (g : WaitDiagnosticsGuard)
  /-- The duration, the counter of timeouts, and the event WaitEnd. -/
  | waitEnd (g : WaitDiagnosticsGuard) (completed timedOut : Bool)
  /-- `record_wait_call`. -/
  | waitCall (diagnostics : Option RuntimeId) (target : TaskId) (helping timedOut : Bool)
  | selfWaitRejected (target : Target) (diagnostics : Option RuntimeId)
  /-- The helping depth of a worker is exceeded. -/
  | depthExceeded (worker : RuntimeId) (target : Target)
  /-- An exception leaves the helping loop, which records nothing. -/
  | helpingThrew
  /-- `wait_for` returns after a wait. -/
  | returned (diagnostics : Option RuntimeId) (timedOut : Bool)
  /-- `GraphRun::wait_for` returns without a wait, which nothing records. -/
  | unrecorded (target : GraphRunId) (timedOut : Bool)
  deriving DecidableEq, Repr

/-- What an entry adds to a counter of runtime `r`. -/
def Entry.amount (r : RuntimeId) : Entry → ShardCounter → Nat
  | .waitBegin g, .sameRuntimeHelpingWaits =>
    if g.diagnostics = some r ∧ g.helping ∧ g.target.runtimeId = r then 1 else 0
  | .waitBegin g, .crossRuntimeHelpingWaits =>
    if g.diagnostics = some r ∧ g.helping ∧ g.target.runtimeId ≠ r then 1 else 0
  | .waitBegin { target := .task _, diagnostics, helping, .. }, .taskWaitCalls =>
    if diagnostics = some r ∧ ¬helping then 1 else 0
  | .waitBegin { target := .graph _, diagnostics, helping, .. }, .graphWaitCalls =>
    if diagnostics = some r ∧ ¬helping then 1 else 0
  | .waitEnd g _ timedOut, .waitForTimeouts => if g.diagnostics = some r ∧ timedOut then 1 else 0
  | .waitCall diagnostics target helping _, .sameRuntimeHelpingWaits =>
    if diagnostics = some r ∧ helping ∧ target.runtimeId = r then 1 else 0
  | .waitCall diagnostics target helping _, .crossRuntimeHelpingWaits =>
    if diagnostics = some r ∧ helping ∧ target.runtimeId ≠ r then 1 else 0
  | .waitCall diagnostics _ helping _, .taskWaitCalls =>
    if diagnostics = some r ∧ ¬helping then 1 else 0
  | .waitCall diagnostics _ _ timedOut, .waitForTimeouts =>
    if diagnostics = some r ∧ timedOut then 1 else 0
  | .selfWaitRejected (.task _) diagnostics, .directSelfWaitRejections =>
    if diagnostics = some r then 1 else 0
  | .depthExceeded worker (.task _), .helpingDepthRejections => if worker = r then 1 else 0
  | _, _ => 0

/-- The durations an entry records in a histogram of runtime `r`. -/
def Entry.durations (r : RuntimeId) : Entry → ShardHistogram → Nat
  | .waitEnd g _ _, .helpingWaitDuration =>
    if g.diagnostics = some r ∧ g.helping then 1 else 0
  | .waitEnd g _ _, .threadWaitDuration =>
    if g.diagnostics = some r ∧ ¬g.helping then 1 else 0
  | .waitCall diagnostics _ helping _, .helpingWaitDuration =>
    if diagnostics = some r ∧ helping then 1 else 0
  | .waitCall diagnostics _ helping _, .threadWaitDuration =>
    if diagnostics = some r ∧ ¬helping then 1 else 0
  | _, _ => 0

/-! ## One thread -/

/-- What the threads find: the clock, the completed tasks and graph runs, the runtimes that are
registered, and the option of each. -/
structure World where
  now : Nat := 0
  completed : List Target := []
  live : List RuntimeId := []
  maxHelpingDepth : RuntimeId → Nat

namespace World

def isCompleted (w : World) (target : Target) : Bool := target ∈ w.completed

/-- `steady_clock::now() >= *deadline`. -/
def passed (w : World) : Option Nat → Bool
  | none => false
  | some deadline => decide (deadline ≤ w.now)

/-- `find_runtime_diagnostics`. -/
def find (w : World) (id : RuntimeId) : Option RuntimeId := if id ∈ w.live then some id else none

/-- The diagnostics that a thread records a wait with. -/
def diagnosticsFor (w : World) (worker : Option RuntimeId) (target : RuntimeId) :
    Option RuntimeId :=
  w.find (worker.getD target)

end World

/-- `worker` is none on a thread of the user; `depth` is `t_current_helping_depth`. -/
structure Thread where
  worker : Option RuntimeId
  depth : Nat := 0
  frames : List Frame := []
  log : List Entry := []
  deriving DecidableEq, Repr

/-- A call that may wait. -/
inductive Call where
  | wait (target : Target)
  | waitFor (target : Target) (timeout : Int)
  deriving DecidableEq, Repr

namespace Thread

/-- `t_current_executing_task_id`. -/
def executingTask (t : Thread) : TaskId :=
  (t.frames.findSome? fun
    | .code i => some i.task
    | .wait _ => none).getD {}

/-- `t_current_executing_graph_run_id`; only nodes set it. -/
def executingGraphRun (t : Thread) : GraphRunId :=
  (t.frames.findSome? fun
    | .code i => i.run
    | .wait _ => none).getD {}

/-- In the code of a task, or of the user. -/
def inCode (t : Thread) : Bool :=
  match t.frames with
  | [] => t.worker.isNone
  | .code _ :: _ => true
  | .wait _ :: _ => false

def directSelf (t : Thread) : Target → Bool
  | .task id => t.worker.isSome && t.executingTask != {} && t.executingTask == id
  | .graph id => t.worker.isSome && t.executingGraphRun != {} && t.executingGraphRun == id

def record (t : Thread) (e : Entry) : Thread := { t with log := t.log ++ [e] }

/-- `perform_caller_wait` and `perform_graph_caller_wait`, up to the guard. -/
def performCallerWait (t : Thread) (w : World) (target : Target) (deadline : Option Nat) :
    Thread :=
  if t.directSelf target then t.record (.selfWaitRejected target (w.find target.runtimeId))
  else
    let g : WaitDiagnosticsGuard :=
      { diagnostics := w.diagnosticsFor t.worker target.runtimeId
        source := t.executingTask
        target := target
        deadline := deadline
        helping := t.worker.isSome }
    { t.record (.waitBegin g) with frames := .wait { guard := g } :: t.frames }

/-- The calls up to the guard of the wait. -/
def call (t : Thread) (w : World) : Call → Thread
  | .wait target => t.performCallerWait w target none
  | .waitFor (.task id) timeout =>
    if timeout ≤ 0 then
      t.record (.waitCall (w.diagnosticsFor t.worker id.runtimeId) id t.worker.isSome
        (!w.isCompleted (.task id)))
    else t.performCallerWait w (.task id) (some (w.now + timeout.toNat))
  | .waitFor (.graph id) timeout =>
    if t.directSelf (.graph id) then t.record (.selfWaitRejected (.graph id) none)
    else if w.isCompleted (.graph id) then t.record (.unrecorded id false)
    else if timeout ≤ 0 then t.record (.unrecorded id true)
    else t.performCallerWait w (.graph id) (some (w.now + timeout.toNat))

/-- The next step of the wait on top of `rest`. -/
def waitStep (t : Thread) (w : World) (wt : Wait) (rest : List Frame) : Option Thread :=
  let goto (place : WaitPlace) : Thread :=
    { t with frames := .wait { wt with place := place } :: rest }
  let g := wt.guard
  let done := w.isCompleted g.target || w.passed g.deadline
  match wt.place with
  | .entered =>
    if done then some (goto (.ending false))
    else
      match t.worker with
      | none => some (goto .blocked)
      | some r =>
        if w.maxHelpingDepth r ≤ t.depth then
          some ((goto (.ending true)).record (.depthExceeded r g.target))
        else some { goto .helping with depth := t.depth + 1 }
  | .blocked => if done then some (goto (.ending false)) else none
  | .helping =>
    if done then some { goto (.ending false) with depth := t.depth - 1 } else some (goto .claiming)
  -- nothing was claimed, and the wait for the target is over
  | .claiming => some (goto .helping)
  | .ending exceeded => some (goto (.stamping exceeded (w.isCompleted g.target)))
  | .stamping exceeded completed =>
    let timedOut := !completed && w.passed g.deadline
    let e : Entry := .waitEnd g completed timedOut
    -- `wait` returns nothing, and an exception passes `wait_for`
    if exceeded || g.deadline.isNone then some { t.record e with frames := rest }
    else some ((goto (.returning timedOut)).record e)
  | .returning _ =>
    some { t.record (.returned g.diagnostics (!w.isCompleted g.target)) with frames := rest }

def step (t : Thread) (w : World) : Option Thread :=
  match t.frames with
  | .wait wt :: rest => t.waitStep w wt rest
  | _ => none

/-- Something to execute is claimed, by the worker loop or by a helping loop. -/
def run (t : Thread) (i : Invocation) : Option Thread :=
  match t.frames with
  | [] => if t.worker.isSome then some { t with frames := [.code i] } else none
  | .wait wt :: rest =>
    if wt.place = .claiming then
      some { t with frames := .code i :: .wait { wt with place := .helping } :: rest }
    else none
  | .code _ :: _ => none

/-- An exception leaves the helping loop: there is no memory for the list of the victims, or
`execute` has thrown. -/
def throwFromHelping (t : Thread) : Option Thread :=
  let leave (wt : Wait) (rest : List Frame) : Thread :=
    { t.record .helpingThrew with
      frames := .wait { wt with place := .ending true } :: rest
      depth := t.depth - 1 }
  match t.frames with
  | .wait wt :: rest => if wt.place = .claiming then some (leave wt rest) else none
  | .code _ :: .wait wt :: rest => if wt.place = .helping then some (leave wt rest) else none
  | _ => none

/-- The code of a task returns. -/
def finish (t : Thread) : Option Thread :=
  match t.frames with
  | .code _ :: rest => some { t with frames := rest }
  | _ => none

end Thread

/-! ## The process -/

structure Process where
  world : World
  threads : List Thread := []
  counts : RuntimeId → ShardCounter → Nat := fun _ _ => 0
  durations : RuntimeId → ShardHistogram → Nat := fun _ _ => 0

inductive Label where
  | thread (worker : Option RuntimeId)
  | call (i : Nat) (call : Call)
  | step (i : Nat)
  | run (i : Nat) (invocation : Invocation)
  | finish (i : Nat)
  | throwFromHelping (i : Nat)
  | complete (target : Target)
  | tick
  | registry (live : List RuntimeId)
  deriving DecidableEq, Repr

namespace Process

/-- Thread `i` goes on, and the shards get what it has recorded. -/
def advance (s : Process) (i : Nat) (t t' : Thread) : Process :=
  let entries := t'.log.drop t.log.length
  { s with
    threads := s.threads.set i t'
    counts := fun r c => s.counts r c + (entries.map fun e => e.amount r c).sum
    durations := fun r h => s.durations r h + (entries.map fun e => e.durations r h).sum }

def next (s : Process) : Label → Option Process
  | .thread worker => some { s with threads := s.threads ++ [{ worker := worker }] }
  | .call i call =>
    s.threads[i]?.bind fun t =>
      if t.inCode then some (s.advance i t (t.call s.world call)) else none
  | .step i => s.threads[i]?.bind fun t => (t.step s.world).map (s.advance i t)
  | .run i invocation => s.threads[i]?.bind fun t => (t.run invocation).map (s.advance i t)
  | .finish i => s.threads[i]?.bind fun t => t.finish.map (s.advance i t)
  | .throwFromHelping i => s.threads[i]?.bind fun t => t.throwFromHelping.map (s.advance i t)
  | .complete target =>
    some { s with world := { s.world with completed := target :: s.world.completed } }
  | .tick => some { s with world := { s.world with now := s.world.now + 1 } }
  | .registry live => some { s with world := { s.world with live := live } }

def machine : Machine Process Label where
  init s := ∃ maxHelpingDepth, s = { world := { maxHelpingDepth := maxHelpingDepth } }
  next := next

end Process

/-! ## What a thread has open -/

/-- Begins and ends of waits are brackets. -/
def Entry.bracket : Entry → Bracket WaitDiagnosticsGuard
  | .waitBegin g => .opens g
  | .waitEnd g _ _ => .closes g
  | _ => .neutral

/-- `wait_for` has told its caller of a timeout, of a target recorded with runtime `r`. -/
def Entry.returnedTimeout (r : RuntimeId) : Entry → Bool
  | .returned diagnostics timedOut => diagnostics = some r && timedOut
  | _ => false

/-- The end of a wait that timed out. -/
def Entry.endedTimeout (r : RuntimeId) : Entry → Bool
  | .waitEnd g _ timedOut => g.diagnostics = some r && timedOut
  | _ => false

/-- The end of a wait for no reason: neither was its target completed nor its time over. -/
def Entry.unexplained : Entry → Bool
  | .waitEnd _ completed timedOut => !completed && !timedOut
  | _ => false

/-- The wait that is on top of the stack ends by an exception. -/
def Entry.isException : Entry → Bool
  | .depthExceeded .. | .helpingThrew => true
  | _ => false

namespace WaitPlace

/-- The guard is there. -/
def guarded : WaitPlace → Bool
  | .returning _ => false
  | _ => true

/-- The `DepthGuard` is there. -/
def helps : WaitPlace → Bool
  | .helping | .claiming => true
  | _ => false

/-- An exception is on its way. -/
def exceeding : WaitPlace → Bool
  | .ending exceeded | .stamping exceeded _ => exceeded
  | _ => false

/-- A timeout has been recorded that is still to be returned. -/
def timedOut : WaitPlace → Bool
  | .returning timedOut => timedOut
  | _ => false

end WaitPlace

namespace Frame

/-- The guard of a wait, unless it is destroyed. -/
@[simp] def guards : Frame → List WaitDiagnosticsGuard
  | .code _ => []
  | .wait wt => if wt.place.guarded then [wt.guard] else []

@[simp] def helps : Frame → Bool
  | .code _ => false
  | .wait wt => wt.place.helps

@[simp] def exceeding : Frame → Bool
  | .code _ => false
  | .wait wt => wt.place.exceeding

@[simp] def owesTimeout (r : RuntimeId) : Frame → Bool
  | .code _ => false
  | .wait wt => wt.guard.diagnostics = some r && wt.place.timedOut

end Frame

/-- The guards on the stack of a thread, the innermost first. -/
def Thread.guards (t : Thread) : List WaitDiagnosticsGuard := t.frames.flatMap Frame.guards

/-- A wait ends, but for an exception, because its target is completed or its time is over. -/
def WaitOk (w : World) (wt : Wait) : Prop :=
  match wt.place with
  | .ending false => w.isCompleted wt.guard.target ∨ w.passed wt.guard.deadline
  | .stamping false completed =>
    (completed = true → w.isCompleted wt.guard.target) ∧
      (completed = false → w.passed wt.guard.deadline)
  | .returning timedOut => timedOut ∨ w.isCompleted wt.guard.target
  | _ => True

structure ThreadOk (w : World) (t : Thread) : Prop where
  brackets : openAfter Entry.bracket t.log = some t.guards
  depth : t.depth = t.frames.countP Frame.helps
  bound : ∀ r, t.worker = some r → t.depth ≤ w.maxHelpingDepth r
  user : t.worker = none → t.depth = 0
  waits : ∀ wt, .wait wt ∈ t.frames → WaitOk w wt
  timeouts : ∀ r, t.log.countP (Entry.returnedTimeout r) + t.frames.countP (Frame.owesTimeout r) ≤
    t.log.countP (Entry.endedTimeout r)
  rejections : t.log.countP Entry.unexplained + t.frames.countP Frame.exceeding ≤
    t.log.countP Entry.isException

/-- The world goes on. -/
structure World.Later (w w' : World) : Prop where
  now : w.now ≤ w'.now
  completed : ∀ target, w.isCompleted target → w'.isCompleted target
  maxHelpingDepth : w'.maxHelpingDepth = w.maxHelpingDepth

variable {w w' : World} {t t' : Thread} {r : RuntimeId} {s s' : Process}

theorem World.Later.passed (h : w.Later w') {deadline : Option Nat} (hpassed : w.passed deadline) :
    w'.passed deadline := by
  cases deadline with
  | none => cases hpassed
  | some deadline =>
    have hnow := h.now
    simp only [World.passed, decide_eq_true_eq] at hpassed ⊢
    omega

theorem WaitOk.later {wt : Wait} (h : WaitOk w wt) (hw : w.Later w') : WaitOk w' wt := by
  unfold WaitOk at h ⊢
  split at h
  · exact h.imp (hw.completed _) hw.passed
  · exact ⟨fun hcompleted => hw.completed _ (h.1 hcompleted), fun hnot => hw.passed (h.2 hnot)⟩
  · exact h.imp id (hw.completed _)
  · trivial

theorem ThreadOk.later (h : ThreadOk w t) (hw : w.Later w') : ThreadOk w' t :=
  { h with
    bound := fun r hr => hw.maxHelpingDepth ▸ h.bound r hr
    waits := fun wt hwt => (h.waits wt hwt).later hw }

/-! ## The steps of a thread -/

/-- **The frames on top of the stack are exchanged**, and what is recorded makes up for it. -/
theorem ThreadOk.replace (h : ThreadOk w t) (old new rest : List Frame) (es : List Entry) (d : Nat)
    (hframes : t.frames = old ++ rest)
    (hbrackets : openAfter Entry.bracket (t.log ++ es) =
      some (new.flatMap Frame.guards ++ rest.flatMap Frame.guards))
    (hdepth : d + old.countP Frame.helps = t.depth + new.countP Frame.helps)
    (hbound : ∀ r, t.worker = some r → d ≤ w.maxHelpingDepth r) (huser : t.worker = none → d = 0)
    (hwaits : ∀ wt, .wait wt ∈ new → WaitOk w wt)
    (htimeouts : ∀ r, es.countP (Entry.returnedTimeout r) + new.countP (Frame.owesTimeout r) ≤
      es.countP (Entry.endedTimeout r) + old.countP (Frame.owesTimeout r))
    (hrejections : es.countP Entry.unexplained + new.countP Frame.exceeding ≤
      es.countP Entry.isException + old.countP Frame.exceeding) :
    ThreadOk w { t with frames := new ++ rest, depth := d, log := t.log ++ es } := by
  have hold := h.depth
  have holdRejections := h.rejections
  simp only [hframes, List.countP_append] at hold holdRejections
  refine ⟨?_, ?_, hbound, huser, fun wt hwt => ?_, fun r => ?_, ?_⟩
  · rw [Thread.guards, List.flatMap_append]
    exact hbrackets
  · simp only [List.countP_append]
    omega
  · rcases List.mem_append.mp hwt with hnew | hrest
    · exact hwaits wt hnew
    · exact h.waits wt (hframes ▸ List.mem_append_right old hrest)
  · have holdTimeouts := h.timeouts r
    have hnew := htimeouts r
    simp only [hframes, List.countP_append] at holdTimeouts ⊢
    omega
  · simp only [List.countP_append]
    omega

/-- An entry that neither opens nor closes anything, and speaks of no timeout. -/
theorem ThreadOk.record (h : ThreadOk w t) {e : Entry} (hbracket : e.bracket = .neutral)
    (hreturned : ∀ r, e.returnedTimeout r = false) : ThreadOk w (t.record e) := by
  refine h.replace [] [] t.frames [e] t.depth rfl ?_ rfl h.bound h.user
    (fun _ h => absurd h List.not_mem_nil) (fun r => ?_) ?_
  · exact Brackets.openAfter_neutral h.brackets hbracket
  · simp [hreturned r]
  · cases e <;> simp_all [Entry.bracket, Entry.unexplained]

theorem ThreadOk.performCallerWait (h : ThreadOk w t) (target : Target) (deadline : Option Nat) :
    ThreadOk w (t.performCallerWait w target deadline) := by
  unfold Thread.performCallerWait
  split
  · exact h.record rfl fun _ => rfl
  · refine h.replace [] [_] t.frames [_] t.depth rfl ?_ rfl h.bound h.user ?_ (fun r => ?_) ?_
    · exact Brackets.openAfter_opens h.brackets rfl
    · intro wt hwt
      obtain rfl : wt = _ := Frame.wait.inj (List.mem_singleton.mp hwt)
      trivial
    · simp [Entry.returnedTimeout, Frame.owesTimeout, WaitPlace.timedOut]
    · simp [Entry.unexplained, Frame.exceeding, WaitPlace.exceeding]

theorem ThreadOk.call (h : ThreadOk w t) (c : Call) : ThreadOk w (t.call w c) := by
  unfold Thread.call
  split
  · exact h.performCallerWait _ _
  · split
    · exact h.record rfl fun _ => rfl
    · exact h.performCallerWait _ _
  · split
    · exact h.record rfl fun _ => rfl
    · split
      · exact h.record rfl fun _ => rfl
      · split
        · exact h.record rfl fun _ => rfl
        · exact h.performCallerWait _ _

theorem ThreadOk.run (h : ThreadOk w t) {i : Invocation} (hrun : t.run i = some t') :
    ThreadOk w t' := by
  unfold Thread.run at hrun
  have hbrackets := h.brackets
  unfold Thread.guards at hbrackets
  split at hrun
  case h_1 hframes =>
    split at hrun
    case isTrue =>
      obtain rfl := Option.some.inj hrun
      have := h.replace [] [.code i] [] [] t.depth hframes (by simpa [hframes] using hbrackets) rfl
        h.bound h.user (fun _ h => by simp at h) (fun r => by simp) (by simp)
      simpa using this
    case isFalse => cases hrun
  case h_2 wt rest hframes =>
    split at hrun
    case isTrue hplace =>
      obtain rfl := Option.some.inj hrun
      have := h.replace [.wait wt] [.code i, .wait { wt with place := .helping }] rest [] t.depth
        hframes (by simpa [hframes, hplace, WaitPlace.guarded] using hbrackets)
        (by simp [hplace, WaitPlace.helps]) h.bound h.user ?_
        (fun r => by simp [hplace, WaitPlace.timedOut]) (by simp [hplace, WaitPlace.exceeding])
      · simpa using this
      · intro wt' hwt
        obtain rfl : wt' = _ := by simpa using hwt
        trivial
    case isFalse => cases hrun
  case h_3 => cases hrun

theorem ThreadOk.finish (h : ThreadOk w t) (hfinish : t.finish = some t') : ThreadOk w t' := by
  unfold Thread.finish at hfinish
  have hbrackets := h.brackets
  unfold Thread.guards at hbrackets
  split at hfinish
  case h_1 i rest hframes =>
    obtain rfl := Option.some.inj hfinish
    have := h.replace [.code i] [] rest [] t.depth hframes (by simpa [hframes] using hbrackets)
      rfl h.bound h.user (fun _ h => by simp at h) (fun r => by simp) (by simp)
    simpa using this
  case h_2 => cases hfinish

/-- An exception leaves the helping loop of the wait below `top`. -/
theorem ThreadOk.throwOut (h : ThreadOk w t) (top : List Frame) {wt : Wait} {rest : List Frame}
    (hframes : t.frames = top ++ Frame.wait wt :: rest) (hhelps : wt.place.helps = true)
    (htop : ∀ f ∈ top, ∃ i, f = .code i) :
    ThreadOk w { t.record .helpingThrew with
      frames := .wait { wt with place := .ending true } :: rest
      depth := t.depth - 1 } := by
  have hguards : top.flatMap Frame.guards = [] := List.flatMap_eq_nil_iff.mpr fun f hf => by
    obtain ⟨i, rfl⟩ := htop f hf
    rfl
  have hnone : ∀ p : Frame → Bool, (∀ i, p (.code i) = false) → top.countP p = 0 :=
    fun p hp => List.countP_eq_zero.mpr fun f hf => by
      obtain ⟨i, rfl⟩ := htop f hf
      simp [hp i]
  have hplace : wt.place = .helping ∨ wt.place = .claiming := by
    cases hpc : wt.place <;> simp_all [WaitPlace.helps]
  have hbrackets := h.brackets
  rw [Thread.guards, hframes, List.flatMap_append, hguards, List.nil_append,
    List.flatMap_cons] at hbrackets
  refine h.replace (top ++ [Frame.wait wt]) [.wait { wt with place := .ending true }] rest
    [.helpingThrew] (t.depth - 1) (by rw [hframes, List.append_assoc]; rfl) ?_ ?_
    (fun r hr => Nat.le_trans (Nat.sub_le _ _) (h.bound r hr)) (fun hu => by rw [h.user hu])
    (fun wt' hwt' => ?_) (fun r => ?_) ?_
  · refine Brackets.openAfter_neutral ?_ rfl
    rcases hplace with hplace | hplace <;>
      simpa [hplace, WaitPlace.guarded] using hbrackets
  · have hone : (Frame.wait wt).helps = true := hhelps
    have hdepth := h.depth
    rw [hframes, List.countP_append, hnone Frame.helps fun _ => rfl,
      List.countP_cons_of_pos hone] at hdepth
    have hleft : (top ++ [Frame.wait wt]).countP Frame.helps = 1 := by
      rw [List.countP_append, hnone Frame.helps fun _ => rfl, List.countP_singleton, if_pos hone]
    rw [hleft, List.countP_singleton, if_neg (by simp [Frame.helps, WaitPlace.helps])]
    omega
  · obtain rfl : wt' = _ := by simpa using hwt'
    trivial
  · rcases hplace with hplace | hplace <;>
      simp [hplace, WaitPlace.timedOut, Entry.returnedTimeout]
  · rcases hplace with hplace | hplace <;>
      simp [WaitPlace.exceeding, Entry.unexplained, Entry.isException]

theorem ThreadOk.throwFromHelping (h : ThreadOk w t) (ht : t.throwFromHelping = some t') :
    ThreadOk w t' := by
  unfold Thread.throwFromHelping at ht
  split at ht
  case h_1 wt rest hframes =>
    split at ht
    case isTrue hplace =>
      obtain rfl := Option.some.inj ht
      exact h.throwOut [] hframes (by rw [hplace]; rfl) fun f hf => absurd hf List.not_mem_nil
    case isFalse => cases ht
  case h_2 i wt rest hframes =>
    split at ht
    case isTrue hplace =>
      obtain rfl := Option.some.inj ht
      refine h.throwOut [.code i] hframes (by rw [hplace]; rfl) fun f hf => ⟨i, ?_⟩
      exact List.mem_singleton.mp hf
    case isFalse => cases ht
  case h_3 => cases ht

/-- A wait goes on and records nothing; `d` is the helping depth then. -/
theorem ThreadOk.goto (h : ThreadOk w t) {wt : Wait} {rest : List Frame}
    (hframes : t.frames = .wait wt :: rest) (place : WaitPlace) (d : Nat)
    (hguarded : place.guarded = wt.place.guarded)
    (hexceeding : place.exceeding = wt.place.exceeding)
    (htimedOut : place.timedOut = wt.place.timedOut)
    (hdepth : d + (if wt.place.helps then 1 else 0) = t.depth + if place.helps then 1 else 0)
    (hbound : ∀ r, t.worker = some r → d ≤ w.maxHelpingDepth r)
    (hok : WaitOk w { wt with place := place }) (huser : t.worker = none → d = 0) :
    ThreadOk w { t with frames := .wait { wt with place := place } :: rest, depth := d } := by
  have hbrackets := h.brackets
  have hexceeding' :
      (Frame.wait { wt with place := place }).exceeding = (Frame.wait wt).exceeding := hexceeding
  have hbalanced : d + [Frame.wait wt].countP Frame.helps =
      t.depth + [Frame.wait { wt with place := place }].countP Frame.helps := by
    rw [List.countP_singleton, List.countP_singleton]
    exact hdepth
  have := h.replace [.wait wt] [.wait { wt with place := place }] rest [] d hframes
    (by simpa [Thread.guards, hframes, hguarded] using hbrackets) hbalanced hbound huser
    (fun wt' hwt => by
      obtain rfl : wt' = _ := by simpa using hwt
      exact hok)
    (fun r => by simp [htimedOut, List.countP_singleton])
    (by rw [List.countP_singleton, List.countP_singleton, hexceeding']; exact Nat.le_refl _)
  simpa using this

theorem World.done_iff {w : World} {g : WaitDiagnosticsGuard} :
    (w.isCompleted g.target || w.passed g.deadline) = true ↔
      w.isCompleted g.target ∨ w.passed g.deadline := by
  rw [Bool.or_eq_true]

/-- The guard is destroyed: the wait leaves, or `wait_for` goes on. -/
theorem ThreadOk.stamp (h : ThreadOk w t) {wt : Wait} {rest : List Frame}
    (hframes : t.frames = .wait wt :: rest) {exceeded completed : Bool}
    (hplace : wt.place = .stamping exceeded completed) (new : List Frame)
    (hnew : new = [] ∨ exceeded = false ∧ new =
      [.wait { wt with place := .returning (!completed && w.passed wt.guard.deadline) }]) :
    ThreadOk w { t.record (.waitEnd wt.guard completed
      (!completed && w.passed wt.guard.deadline)) with frames := new ++ rest } := by
  have hbrackets := h.brackets
  have hopen : openAfter Entry.bracket t.log = some (wt.guard :: rest.flatMap Frame.guards) := by
    simpa [Thread.guards, hframes, hplace, WaitPlace.guarded] using hbrackets
  have hclosed : openAfter Entry.bracket (t.log ++ [Entry.waitEnd wt.guard completed
      (!completed && w.passed wt.guard.deadline)]) = some (rest.flatMap Frame.guards) :=
    Brackets.openAfter_closes hopen rfl
  have hwt := h.waits wt (hframes ▸ List.mem_cons_self)
  refine h.replace [.wait wt] new rest [_] t.depth hframes ?_ ?_ h.bound h.user (fun wt' hwt' => ?_)
    (fun r => ?_) ?_
  · obtain rfl | ⟨-, rfl⟩ := hnew <;> simpa [WaitPlace.guarded] using hclosed
  · obtain rfl | ⟨-, rfl⟩ := hnew <;> simp [hplace, WaitPlace.helps]
  · obtain rfl | ⟨rfl, rfl⟩ := hnew
    · cases hwt'
    · obtain rfl : wt' = _ := by simpa using hwt'
      simp only [WaitOk, hplace] at hwt ⊢
      cases completed <;> simp_all
  · obtain rfl | ⟨-, rfl⟩ := hnew <;>
      simp [hplace, WaitPlace.timedOut, Entry.returnedTimeout, Entry.endedTimeout,
        List.countP_singleton]
  · -- without an exception the end has its reason
    have hreason : (Entry.waitEnd wt.guard completed
        (!completed && w.passed wt.guard.deadline)).unexplained → exceeded := by
      cases exceeded <;> cases completed <;> simp_all [WaitOk, Entry.unexplained]
    obtain rfl | ⟨rfl, rfl⟩ := hnew
    · cases exceeded <;> simp_all [WaitPlace.exceeding, List.countP_singleton]
      split <;> omega
    · simp_all [WaitPlace.exceeding, List.countP_singleton]

theorem ThreadOk.waitStep (h : ThreadOk w t) {wt : Wait} {rest : List Frame}
    (hframes : t.frames = .wait wt :: rest) (hstep : t.waitStep w wt rest = some t') :
    ThreadOk w t' := by
  have hbrackets := h.brackets
  unfold Thread.guards at hbrackets
  have hdepth := h.depth
  have hwt := h.waits wt (hframes ▸ List.mem_cons_self)
  unfold Thread.waitStep at hstep
  cases hplace : wt.place with
  | entered =>
    simp only [hplace] at hstep
    split at hstep
    case isTrue hdone =>
      obtain rfl := Option.some.inj hstep
      exact h.goto hframes (.ending false) t.depth (by rw [hplace]; rfl) (by rw [hplace]; rfl)
        (by rw [hplace]; rfl) (by rw [hplace]; rfl) h.bound (World.done_iff.mp hdone) h.user
    case isFalse =>
      split at hstep
      -- another thread blocks in `wait`, a worker helps
      case h_1 hworker =>
        obtain rfl := Option.some.inj hstep
        exact h.goto hframes .blocked t.depth (by rw [hplace]; rfl) (by rw [hplace]; rfl)
          (by rw [hplace]; rfl) (by rw [hplace]; rfl) h.bound trivial h.user
      case h_2 r hworker =>
        split at hstep
        -- `helping_depth_exceeded` is thrown below the guard, whose destructor records the end
        case isTrue hexceeded =>
          obtain rfl := Option.some.inj hstep
          refine h.replace [.wait wt] [.wait { wt with place := .ending true }] rest [_] t.depth
            hframes ?_ ?_ h.bound h.user ?_ (fun r => ?_) ?_
          · refine Brackets.openAfter_neutral ?_ rfl
            simpa [hframes, hplace, WaitPlace.guarded] using hbrackets
          · simp [hplace, WaitPlace.helps]
          · intro wt' hwt'
            obtain rfl : wt' = _ := by simpa using hwt'
            trivial
          · simp [hplace, WaitPlace.timedOut, Entry.returnedTimeout]
          · simp [hplace, WaitPlace.exceeding, Entry.unexplained, Entry.isException]
        case isFalse hdeep =>
          obtain rfl := Option.some.inj hstep
          refine h.goto hframes .helping (t.depth + 1) (by rw [hplace]; rfl) (by rw [hplace]; rfl)
            (by rw [hplace]; rfl) (by rw [hplace]; rfl) (fun r' hr => ?_) trivial fun hnone => ?_
          · obtain rfl : r = r' := Option.some.inj (hworker.symm.trans hr)
            omega
          · rw [hworker] at hnone
            cases hnone
  | blocked =>
    simp only [hplace] at hstep
    split at hstep
    case isTrue hdone =>
      obtain rfl := Option.some.inj hstep
      exact h.goto hframes (.ending false) t.depth (by rw [hplace]; rfl) (by rw [hplace]; rfl)
        (by rw [hplace]; rfl) (by rw [hplace]; rfl) h.bound (World.done_iff.mp hdone) h.user
    case isFalse => cases hstep
  | helping =>
    -- the wait itself is one of those that the depth counts
    have hpos : 0 < t.depth := by
      rw [hdepth, hframes, List.countP_cons_of_pos (by simp [hplace, WaitPlace.helps])]
      omega
    simp only [hplace] at hstep
    split at hstep
    case isTrue hdone =>
      obtain rfl := Option.some.inj hstep
      refine h.goto hframes (.ending false) (t.depth - 1) (by rw [hplace]; rfl)
        (by rw [hplace]; rfl) (by rw [hplace]; rfl) ?_ (fun r hr => ?_) (World.done_iff.mp hdone)
        fun hnone => ?_
      · simp only [hplace, WaitPlace.helps, if_true]
        simp
        omega
      · have := h.bound r hr
        omega
      · rw [h.user hnone]
    case isFalse =>
      obtain rfl := Option.some.inj hstep
      exact h.goto hframes .claiming t.depth (by rw [hplace]; rfl) (by rw [hplace]; rfl)
        (by rw [hplace]; rfl) (by rw [hplace]; rfl) h.bound trivial h.user
  | claiming =>
    simp only [hplace] at hstep
    obtain rfl := Option.some.inj hstep
    exact h.goto hframes .helping t.depth (by rw [hplace]; rfl) (by rw [hplace]; rfl)
      (by rw [hplace]; rfl) (by rw [hplace]; rfl) h.bound trivial h.user
  | ending exceeded =>
    simp only [hplace] at hstep
    obtain rfl := Option.some.inj hstep
    refine h.goto hframes (.stamping exceeded (w.isCompleted wt.guard.target)) t.depth
      (by rw [hplace]; rfl) (by rw [hplace]; rfl) (by rw [hplace]; rfl) (by rw [hplace]; rfl)
      h.bound ?_ h.user
    -- completed, or out of time: the destructor reads which of them it is
    cases exceeded with
    | false =>
      simp only [WaitOk, hplace] at hwt ⊢
      refine ⟨id, fun hnot => hwt.resolve_left ?_⟩
      rw [hnot]
      exact Bool.false_ne_true
    | true => trivial
  | stamping exceeded completed =>
    simp only [hplace] at hstep
    split at hstep
    case isTrue hthrows =>
      obtain rfl := Option.some.inj hstep
      exact h.stamp hframes hplace [] (.inl rfl)
    case isFalse =>
      obtain rfl := Option.some.inj hstep
      -- only the exception skips the return
      have hnot : exceeded = false := by simp_all
      exact h.stamp hframes hplace [_] (.inr ⟨hnot, rfl⟩)
  | returning timedOut =>
    simp only [hplace] at hstep
    obtain rfl := Option.some.inj hstep
    refine h.replace [.wait wt] [] rest [_] t.depth hframes ?_ ?_ h.bound h.user
      (fun _ h => absurd h List.not_mem_nil) (fun r => ?_) ?_
    · refine Brackets.openAfter_neutral ?_ rfl
      simpa [hframes, hplace, WaitPlace.guarded] using hbrackets
    · simp [hplace, WaitPlace.helps]
    · simp only [WaitOk, hplace] at hwt
      cases hcompleted : w.isCompleted wt.guard.target <;>
        simp_all [Entry.returnedTimeout, WaitPlace.timedOut, List.countP_singleton]
    · simp [Entry.unexplained]

theorem ThreadOk.step (h : ThreadOk w t) (hstep : t.step w = some t') : ThreadOk w t' := by
  unfold Thread.step at hstep
  split at hstep
  case h_1 wt rest hframes => exact h.waitStep hframes hstep
  case h_2 => cases hstep

/-! ## Logs only grow -/

/-- What a thread records it has added to its log. -/
def Grows (t t' : Thread) : Prop := t.log <+: t'.log

theorem performCallerWait_grows (t : Thread) (w : World) (target : Target)
    (deadline : Option Nat) : Grows t (t.performCallerWait w target deadline) := by
  unfold Thread.performCallerWait
  split <;> exact List.prefix_append ..

theorem call_grows (t : Thread) (w : World) (c : Call) : Grows t (t.call w c) := by
  unfold Thread.call
  repeat' split
  all_goals first
    | exact performCallerWait_grows ..
    | exact List.prefix_append ..

theorem waitStep_grows {wt : Wait} {rest : List Frame} (h : t.waitStep w wt rest = some t') :
    Grows t t' := by
  unfold Thread.waitStep at h
  cases hplace : wt.place <;> simp only [hplace] at h
  case entered =>
    split at h
    · cases h
      exact List.prefix_rfl
    · split at h
      · cases h
        exact List.prefix_rfl
      · split at h <;> cases h
        · exact List.prefix_append ..
        · exact List.prefix_rfl
  case blocked =>
    split at h <;> cases h
    exact List.prefix_rfl
  case helping => split at h <;> cases h <;> exact List.prefix_rfl
  case claiming | ending =>
    cases h
    exact List.prefix_rfl
  case stamping => split at h <;> cases h <;> exact List.prefix_append ..
  case returning =>
    cases h
    exact List.prefix_append ..

theorem step_grows (h : t.step w = some t') : Grows t t' := by
  unfold Thread.step at h
  split at h
  · exact waitStep_grows h
  · cases h

theorem run_grows {i : Invocation} (h : t.run i = some t') : Grows t t' := by
  unfold Thread.run at h
  split at h
  · split at h <;> cases h
    exact List.prefix_rfl
  · split at h <;> cases h
    exact List.prefix_rfl
  · cases h

theorem finish_grows (h : t.finish = some t') : Grows t t' := by
  unfold Thread.finish at h
  split at h <;> cases h
  exact List.prefix_rfl

theorem throwFromHelping_grows (h : t.throwFromHelping = some t') : Grows t t' := by
  unfold Thread.throwFromHelping at h
  split at h
  case h_1 | h_2 =>
    split at h
    · cases h
      exact List.prefix_append ..
    · cases h
  case h_3 => cases h

/-! ## Runs of the process -/

/-- What the threads have recorded is what the shards have got. -/
structure Sound (s : Process) : Prop where
  threads : ∀ t ∈ s.threads, ThreadOk s.world t
  counts : ∀ r c, s.counts r c =
    (s.threads.map fun t => (t.log.map fun e => e.amount r c).sum).sum
  durations : ∀ r h, s.durations r h =
    (s.threads.map fun t => (t.log.map fun e => e.durations r h).sum).sum

theorem Sound.advance {i : Nat} (hs : Sound s) (ht : s.threads[i]? = some t)
    (hok : ThreadOk s.world t') (hgrows : Grows t t') : Sound (s.advance i t t') := by
  obtain ⟨es, hes⟩ := hgrows
  have hentries : t'.log.drop t.log.length = es := by
    rw [← hes, List.drop_left]
  refine ⟨fun u hu => ?_, fun r c => ?_, fun r h => ?_⟩
  · obtain hu | rfl := List.mem_or_eq_of_mem_set hu
    · exact hs.threads u hu
    · exact hok
  · have hsum := Threads.sum_set (fun t => (t.log.map fun e => e.amount r c).sum) ht t'
    simp only [← hes, List.map_append, List.sum_append] at hsum
    simp only [Process.advance, hentries, hs.counts]
    omega
  · have hsum := Threads.sum_set (fun t => (t.log.map fun e => e.durations r h).sum) ht t'
    simp only [← hes, List.map_append, List.sum_append] at hsum
    simp only [Process.advance, hentries, hs.durations]
    omega

theorem Sound.world (hs : Sound s) (hw : s.world.Later w') : Sound { s with world := w' } :=
  ⟨fun t ht => (hs.threads t ht).later hw, hs.counts, hs.durations⟩

theorem Sound.thread (hs : Sound s) (worker : Option RuntimeId) :
    Sound { s with threads := s.threads ++ [{ worker := worker }] } := by
  refine ⟨fun t ht => ?_, fun r c => ?_, fun r h => ?_⟩
  · rcases List.mem_append.mp ht with ht | ht
    · exact hs.threads t ht
    · obtain rfl := List.mem_singleton.mp ht
      exact ⟨rfl, rfl, fun _ _ => Nat.zero_le _, fun _ => rfl,
        fun _ h => absurd h List.not_mem_nil, fun _ => Nat.le_refl _, Nat.le_refl _⟩
  · simp [hs.counts]
  · simp [hs.durations]

theorem Sound.next (hs : Sound s) {a : Label} (h : s.next a = some s') : Sound s' := by
  cases a with
  | thread worker =>
    obtain rfl := Option.some.inj h
    exact hs.thread worker
  | call i c =>
    obtain ⟨t, ht, hcall⟩ := Option.bind_eq_some_iff.mp h
    split at hcall
    · obtain rfl := Option.some.inj hcall
      exact hs.advance ht ((hs.threads t (List.mem_of_getElem? ht)).call c) (call_grows ..)
    · cases hcall
  | step i =>
    obtain ⟨t, ht, hstep⟩ := Option.bind_eq_some_iff.mp h
    obtain ⟨t', hmove, rfl⟩ := Option.map_eq_some_iff.mp hstep
    exact hs.advance ht ((hs.threads t (List.mem_of_getElem? ht)).step hmove) (step_grows hmove)
  | run i invocation =>
    obtain ⟨t, ht, hrun⟩ := Option.bind_eq_some_iff.mp h
    obtain ⟨t', hmove, rfl⟩ := Option.map_eq_some_iff.mp hrun
    exact hs.advance ht ((hs.threads t (List.mem_of_getElem? ht)).run hmove) (run_grows hmove)
  | finish i =>
    obtain ⟨t, ht, hfinish⟩ := Option.bind_eq_some_iff.mp h
    obtain ⟨t', hmove, rfl⟩ := Option.map_eq_some_iff.mp hfinish
    exact hs.advance ht ((hs.threads t (List.mem_of_getElem? ht)).finish hmove)
      (finish_grows hmove)
  | throwFromHelping i =>
    obtain ⟨t, ht, hthrows⟩ := Option.bind_eq_some_iff.mp h
    obtain ⟨t', hmove, rfl⟩ := Option.map_eq_some_iff.mp hthrows
    exact hs.advance ht ((hs.threads t (List.mem_of_getElem? ht)).throwFromHelping hmove)
      (throwFromHelping_grows hmove)
  | complete target =>
    obtain rfl := Option.some.inj h
    refine hs.world ⟨Nat.le_refl _, fun other hother => ?_, rfl⟩
    simp only [World.isCompleted, decide_eq_true_eq] at hother ⊢
    exact List.mem_cons_of_mem target hother
  | tick =>
    obtain rfl := Option.some.inj h
    exact hs.world ⟨Nat.le_succ _, fun _ => id, rfl⟩
  | registry live =>
    obtain rfl := Option.some.inj h
    exact hs.world ⟨Nat.le_refl _, fun _ => id, rfl⟩

theorem sound_of_reachable (h : Process.machine.Reachable s) : Sound s := by
  refine h.invariant Sound ?_ fun _ _ _ hs _ hnext => hs.next hnext
  rintro _ ⟨maxHelpingDepth, rfl⟩
  exact ⟨fun _ h => absurd h List.not_mem_nil, fun _ _ => rfl, fun _ _ => rfl⟩

/-! ## What is recorded -/

/-- The waits on the stacks of all threads, by the diagnostics of their guards. -/
def Process.openWaits (s : Process) (r : RuntimeId) (helping : Bool) : Nat :=
  (s.threads.map fun t => t.guards.countP fun g =>
    decide (g.diagnostics = some r) && g.helping == helping).sum

/-- `wait_for` has told its caller of a timeout, with a record in runtime `r`. -/
def Entry.toldTimeout (r : RuntimeId) : Entry → Bool
  | .returned diagnostics timedOut => diagnostics = some r && timedOut
  | .waitCall diagnostics _ _ timedOut => diagnostics = some r && timedOut
  | _ => false

def Process.toldTimeouts (s : Process) (r : RuntimeId) : Nat :=
  (s.threads.map fun t => t.log.countP (Entry.toldTimeout r)).sum

/-- Each wait is counted when it begins, its duration is recorded when it ends, and no timeout
goes uncounted. -/
structure Recorded (s : Process) (r : RuntimeId) : Prop where
  threadWaits : s.counts r .taskWaitCalls + s.counts r .graphWaitCalls =
    s.durations r .threadWaitDuration + s.openWaits r false
  helpingWaits : s.counts r .sameRuntimeHelpingWaits + s.counts r .crossRuntimeHelpingWaits =
    s.durations r .helpingWaitDuration + s.openWaits r true
  timeouts : s.toldTimeouts r ≤ s.counts r .waitForTimeouts

/-- The immediate calls are recorded as a whole. -/
def Entry.immediate (r : RuntimeId) (helping : Bool) : Entry → Bool
  | .waitCall diagnostics _ h _ => decide (diagnostics = some r) && h == helping
  | _ => false

/-- Of a wait of runtime `r`, by a worker or not. -/
def guardOf (r : RuntimeId) (helping : Bool) (g : WaitDiagnosticsGuard) : Bool :=
  decide (g.diagnostics = some r) && g.helping == helping

theorem amount_threadWaits (r : RuntimeId) (e : Entry) :
    e.amount r .taskWaitCalls + e.amount r .graphWaitCalls =
      (if Brackets.opensSome (guardOf r false) e.bracket then 1 else 0) +
        if e.immediate r false then 1 else 0 := by
  cases e with
  | waitBegin g =>
    obtain ⟨diagnostics, source, target, deadline, helping⟩ := g
    cases target <;>
      simp [Entry.amount, Entry.bracket, Brackets.opensSome, guardOf, Entry.immediate]
  | _ => simp [Entry.amount, Entry.bracket, Brackets.opensSome, Entry.immediate]

theorem amount_helpingWaits (r : RuntimeId) (e : Entry) :
    e.amount r .sameRuntimeHelpingWaits + e.amount r .crossRuntimeHelpingWaits =
      (if Brackets.opensSome (guardOf r true) e.bracket then 1 else 0) +
        if e.immediate r true then 1 else 0 := by
  cases e with
  | waitBegin g =>
    by_cases hsame : g.target.runtimeId = r <;>
      simp [Entry.amount, Entry.bracket, Brackets.opensSome, guardOf, Entry.immediate, hsame]
  | waitCall diagnostics target helping timedOut =>
    by_cases hsame : target.runtimeId = r <;>
      simp [Entry.amount, Entry.bracket, Brackets.opensSome, Entry.immediate, hsame]
  | _ => simp [Entry.amount, Entry.bracket, Brackets.opensSome, Entry.immediate]

theorem durations_threadWait (r : RuntimeId) (e : Entry) :
    e.durations r .threadWaitDuration =
      (if Brackets.closesSome (guardOf r false) e.bracket then 1 else 0) +
        if e.immediate r false then 1 else 0 := by
  cases e <;> simp [Entry.durations, Entry.bracket, Brackets.closesSome, guardOf, Entry.immediate]

theorem durations_helpingWait (r : RuntimeId) (e : Entry) :
    e.durations r .helpingWaitDuration =
      (if Brackets.closesSome (guardOf r true) e.bracket then 1 else 0) +
        if e.immediate r true then 1 else 0 := by
  cases e <;> simp [Entry.durations, Entry.bracket, Brackets.closesSome, guardOf, Entry.immediate]

/-- What is counted at the beginning of the waits is recorded at their end. -/
theorem ThreadOk.balanced (h : ThreadOk w t) {begins ends : Entry → Nat} {r : RuntimeId}
    {helping : Bool}
    (hbegins : ∀ e, begins e =
      (if Brackets.opensSome (guardOf r helping) e.bracket then 1 else 0) +
        if e.immediate r helping then 1 else 0)
    (hends : ∀ e, ends e =
      (if Brackets.closesSome (guardOf r helping) e.bracket then 1 else 0) +
        if e.immediate r helping then 1 else 0) :
    (t.log.map begins).sum = (t.log.map ends).sum + t.guards.countP (guardOf r helping) := by
  have hopened := Brackets.opened_eq (guardOf r helping) h.brackets
  rw [funext hbegins, funext hends, List.sum_map_add, List.sum_map_add,
    ← Threads.countP_eq_sum, ← Threads.countP_eq_sum, ← Threads.countP_eq_sum, hopened]
  omega

theorem toldTimeout_le (h : ThreadOk w t) (r : RuntimeId) :
    t.log.countP (Entry.toldTimeout r) ≤ (t.log.map fun e => e.amount r .waitForTimeouts).sum := by
  have htold : ∀ e : Entry,
      (if e.toldTimeout r then 1 else 0) + (if e.endedTimeout r then 1 else 0) =
        e.amount r .waitForTimeouts + if e.returnedTimeout r then 1 else 0 := by
    intro e
    cases e <;> simp [Entry.toldTimeout, Entry.endedTimeout, Entry.returnedTimeout, Entry.amount]
  have hsum := congrArg (fun f => (t.log.map f).sum) (funext htold)
  simp only [List.sum_map_add, ← Threads.countP_eq_sum] at hsum
  have htimeouts := h.timeouts r
  omega

/-- **The records of the waits** of any runtime, whatever its threads are doing. -/
theorem waits_recorded (h : Process.machine.Reachable s) (r : RuntimeId) : Recorded s r := by
  have hs := sound_of_reachable h
  refine ⟨?_, ?_, ?_⟩
  · simp only [hs.counts, hs.durations, Process.openWaits, ← List.sum_map_add]
    refine congrArg List.sum (List.map_congr_left fun t ht => ?_)
    exact (hs.threads t ht).balanced (amount_threadWaits r) (durations_threadWait r)
  · simp only [hs.counts, hs.durations, Process.openWaits, ← List.sum_map_add]
    refine congrArg List.sum (List.map_congr_left fun t ht => ?_)
    exact (hs.threads t ht).balanced (amount_helpingWaits r) (durations_helpingWait r)
  · rw [hs.counts]
    exact List.sum_le_sum fun t ht => toldTimeout_le (hs.threads t ht) r

/-- **Waits nest**: begins and ends of a thread's waits are brackets of one guard each, and what
is open stands on its stack.  The helping depth is the number of waits that help, no more than
the option allows; and a wait without a reason to end has exceeded it, or an exception has left
its helping loop. -/
theorem waits_nested (h : Process.machine.Reachable s) (ht : t ∈ s.threads) :
    openAfter Entry.bracket t.log = some t.guards ∧
      t.depth = t.frames.countP Frame.helps ∧
      (∀ r, t.worker = some r → t.depth ≤ s.world.maxHelpingDepth r) ∧
      (t.worker = none → t.depth = 0) ∧
      t.log.countP Entry.unexplained ≤ t.log.countP Entry.isException := by
  have hok := (sound_of_reachable h).threads t ht
  exact ⟨hok.brackets, hok.depth, hok.bound, hok.user, by have := hok.rejections; omega⟩

/-- A worker with helping depth one helps while it waits for task 2; what it helps with waits for
task 3, which goes too deep.  A thread of the user waits for task 1 until its time is over. -/
def tooDeep : List Label :=
  [.registry [⟨1⟩], .thread (some ⟨1⟩), .thread none,
    .call 1 (.waitFor (.task ⟨⟨1⟩, 1⟩) 1), .step 1,
    .run 0 (.submitted ⟨⟨1⟩, 4⟩ .normal), .call 0 (.wait (.task ⟨⟨1⟩, 2⟩)), .step 0, .step 0,
    .run 0 (.submitted ⟨⟨1⟩, 5⟩ .normal), .call 0 (.wait (.task ⟨⟨1⟩, 3⟩)), .step 0, .step 0,
    .step 0, .tick, .step 1, .step 1, .step 1, .step 1]

def maxDepthOne : Process where
  world := { maxHelpingDepth := fun _ => 1 }

theorem waits_recorded_tooDeep :
    ∃ s, Process.machine.run maxDepthOne tooDeep = some s ∧
      (s.toldTimeouts ⟨1⟩, s.openWaits ⟨1⟩ true, s.durations ⟨1⟩ .helpingWaitDuration) = (1, 1, 1) ∧
      Recorded s ⟨1⟩ := by
  obtain ⟨s, hs⟩ := Option.isSome_iff_exists.mp
    (show (Process.machine.run maxDepthOne tooDeep).isSome by decide)
  have hend : (Process.machine.run maxDepthOne tooDeep).map (fun s =>
      (s.toldTimeouts ⟨1⟩, s.openWaits ⟨1⟩ true, s.durations ⟨1⟩ .helpingWaitDuration)) =
      some (1, 1, 1) := by decide
  rw [hs] at hend
  exact ⟨s, hs, Option.some.inj hend,
    waits_recorded (Machine.reachable_of_run ⟨fun _ => 1, rfl⟩ hs) ⟨1⟩⟩

theorem waits_nested_tooDeep :
    ∃ s t, Process.machine.run maxDepthOne tooDeep = some s ∧ t ∈ s.threads ∧
      (t.log.countP Entry.unexplained, t.depth) = (1, 1) ∧
      openAfter Entry.bracket t.log = some t.guards := by
  obtain ⟨s, hs⟩ := Option.isSome_iff_exists.mp
    (show (Process.machine.run maxDepthOne tooDeep).isSome by decide)
  have hend : (Process.machine.run maxDepthOne tooDeep).bind (fun s =>
      s.threads[0]?.map fun t : Thread => (t.log.countP Entry.unexplained, t.depth)) =
        some (1, 1) := by decide
  rw [hs, Option.bind_some] at hend
  obtain ⟨t, ht, hend⟩ := Option.map_eq_some_iff.mp hend
  have hmem := List.mem_of_getElem? ht
  exact ⟨s, t, hs, hmem, hend,
    (waits_nested (Machine.reachable_of_run ⟨fun _ => 1, rfl⟩ hs) hmem).1⟩

end WaitAccounts
end AstraScheduler
