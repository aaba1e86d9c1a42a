import AstraScheduler.Threads
import AstraScheduler.Transition
import Mathlib.Tactic.Common

/-! # The release of the last handle

A runtime is held by `shared_ptr`: by its `Scheduler` handles, by what a handoff has left in
the Reaper registry, and for a moment by a cleanup that has locked the weak pointer.
`~Scheduler` reads the use count, shuts the runtime down or hands it over if it reads one, and
drops its reference afterwards; an assignment only drops.  Copies, explicit shutdowns,
finalization, the workers' exits and the coordinator stand around that. -/

namespace AstraScheduler.HandleRelease
open Transition (Machine)
open Threads (countP_set mem_set_of_ne)

/-- Who drops a reference. -/
inductive Thread where
  | external
  | worker (i : Nat)
  | reaper
  deriving DecidableEq, Repr

/-- Where a handle stands. -/
inductive Handle where
  | held
  /-- In `~Scheduler`, before the read of the use count. -/
  | readCount (t : Thread)
  /-- It has read one. -/
  | initiate (t : Thread)
  /-- In `shutdown_sync`, waiting for the workers. -/
  | join
  /-- In `execute_worker_orphan_handoff`, before the registry. -/
  | handOver (i : Nat)
  /-- Before the reference is dropped. -/
  | release (t : Thread) (readOne : Bool)
  /-- In an assignment, before the reference to the old runtime is dropped. -/
  | overwrite (t : Thread)
  | released
  deriving DecidableEq, Repr

/-- What the coordinator does with the slot it has taken: with the weak pointer of the
constructor's cleanup, or (`handoff`) with the two references of a handoff. -/
inductive Reaper where
  | idle
  | locking
  | cleaning (handoff : Bool)
  | releasingFirst
  | releasingLast (handoff : Bool)
  deriving DecidableEq, Repr

/-- A run of `~Impl`: on which thread, which handles had initiated the shutdown or the handoff
before it, whether it shut the runtime down itself, and whether a worker thread was joinable
at its end. -/
structure Destruction where
  thread : Thread
  initiators : List Nat
  shutDown : Bool
  joinable : Bool
  deriving DecidableEq, Repr

/-- `workers` says of each worker whether it runs; `slot` is the slot in the registry and says
whether a handoff has been executed on it.  `initiators` only records. -/
structure Runtime where
  useCount : Nat := 1
  handles : List Handle := [.held]
  workers : List Bool
  stopRequested : Bool := false
  stopped : Bool := false
  joined : Bool := false
  finalizing : Bool := false
  slot : Option Bool := some false
  reaper : Reaper := .idle
  initiators : List Nat := []
  destroyed : Option Destruction := none
  deriving DecidableEq, Repr

inductive Label where
  | copy (j : Nat)
  /-- A handle is destroyed, or overwritten, on a thread. -/
  | destroy (j : Nat) (t : Thread)
  | assign (j : Nat) (t : Thread)
  | step (j : Nat)
  | workerExit (i : Nat)
  /-- The callbacks of a finalization. -/
  | finalize
  /-- An explicit shutdown through a handle, and the joins of its leader. -/
  | requestShutdown
  | shutdownJoin
  | reaper
  deriving DecidableEq, Repr

/-- The thread of an operation in progress. -/
def Handle.thread? : Handle → Option Thread
  | .readCount t | .initiate t | .release t _ | .overwrite t => some t
  | .handOver i => some (.worker i)
  | .join => some .external
  | .held | .released => none

namespace Runtime

/-- A thread that can run user code. -/
def runs (r : Runtime) : Thread → Bool
  | .external => true
  | .worker i => r.workers[i]? = some true
  | .reaper => false

def allExited (r : Runtime) : Bool := r.workers.all (!·)

def setHandle (r : Runtime) (j : Nat) (h : Handle) : Runtime :=
  { r with handles := r.handles.set j h }

/-- `~Impl`, which neither shuts down nor joins on a worker of its own. -/
def destroyImpl (r : Runtime) (t : Thread) : Destruction :=
  let onOwnWorker := match t with
    | .worker _ => true
    | .external | .reaper => false
  { thread := t
    initiators := r.initiators
    shutDown := !r.stopped && !onOwnWorker
    joinable := onOwnWorker && !r.joined }

/-- A reference is dropped; the last one destroys the `Impl` there and then. -/
def drop (r : Runtime) (t : Thread) : Runtime :=
  { r with
    useCount := r.useCount - 1
    destroyed := if r.useCount = 1 then some (r.destroyImpl t) else r.destroyed }

/-- `join_workers_and_publish_stopped`, once every worker has exited. -/
def joinWorkers (r : Runtime) : Runtime := { r with joined := true, stopped := true }

def handleStep (r : Runtime) (j : Nat) : Handle → Option Runtime
  | .readCount t => some (r.setHandle j (if r.useCount = 1 then .initiate t else .release t false))
  | .initiate (.worker i) =>
    some ({ r with
      stopRequested := true, initiators := r.initiators ++ [j] }.setHandle j (.handOver i))
  | .initiate t =>
    let r := { r with initiators := r.initiators ++ [j] }
    if r.stopped then some (r.setHandle j (.release t true))
    else some ({ r with stopRequested := true }.setHandle j .join)
  | .join =>
    if r.allExited then
      some ({ r.joinWorkers with slot := none }.setHandle j (.release .external true))
    else none
  | .handOver i =>
    -- without a slot the references are dropped again
    some ({ r with
      slot := r.slot.map fun _ => true
      useCount := if r.slot.isSome then r.useCount + 2 else r.useCount }.setHandle j
        (.release (.worker i) true))
  | .release t _ | .overwrite t => some ((r.drop t).setHandle j .released)
  | .held | .released => none

/-- The coordinator with the slot of this runtime. -/
def reaperStep (r : Runtime) : Option Runtime :=
  match r.reaper with
  | .idle =>
    match r.slot with
    | none => none
    | some handoff =>
      if r.allExited ∧ (handoff ∨ r.finalizing) then
        some { r with slot := none, reaper := if handoff then .cleaning true else .locking }
      else none
  | .locking =>
    if r.useCount = 0 then some { r with reaper := .idle }
    else some { r with useCount := r.useCount + 1, reaper := .cleaning false }
  | .cleaning handoff =>
    if r.allExited then
      some { r.joinWorkers with
        reaper := if handoff then .releasingFirst else .releasingLast false }
    else none
  | .releasingFirst => some { r.drop .reaper with reaper := .releasingLast true }
  | .releasingLast _ => some { r.drop .reaper with reaper := .idle }

def next (r : Runtime) : Label → Option Runtime
  | .copy j =>
    if r.handles[j]? = some .held then
      some { r with useCount := r.useCount + 1, handles := r.handles ++ [.held] }
    else none
  | .destroy j t =>
    if r.handles[j]? = some .held ∧ r.runs t then some (r.setHandle j (.readCount t)) else none
  | .assign j t =>
    if r.handles[j]? = some .held ∧ r.runs t then some (r.setHandle j (.overwrite t)) else none
  | .step j => r.handles[j]?.bind (r.handleStep j)
  | .workerExit i =>
    if r.workers[i]? = some true ∧ r.stopRequested ∧
        ∀ h ∈ r.handles, h.thread? ≠ some (.worker i) then
      some { r with workers := r.workers.set i false }
    else none
  | .finalize => some { r with finalizing := true, stopRequested := true }
  | .requestShutdown =>
    if .held ∈ r.handles then some { r with stopRequested := true } else none
  | .shutdownJoin =>
    if .held ∈ r.handles ∧ r.stopRequested ∧ r.allExited then
      some { r.joinWorkers with slot := none }
    else none
  | .reaper => r.reaperStep

/-- A runtime that has just been constructed, and its handle. -/
def constructed (workers : Nat) : Runtime where
  workers := List.replicate workers true

def machine : Machine Runtime Label where
  init r := ∃ workers, r = constructed workers
  next := next

/-- **Handed over exactly once.**  When the `Impl` is destroyed, exactly one handle has
initiated the shutdown or the handoff, and a destruction on one of the runtime's workers
finds no joinable thread. -/
structure HandedOver (r : Runtime) : Prop where
  atMostOnce : r.initiators.length ≤ 1
  once : ∀ d, r.destroyed = some d → d.initiators.length = 1
  thread : ∀ d i, r.destroyed = some d → d.thread = .worker i → d.joinable = false

/-- The step does not drop the last reference unknowingly: in an assignment, in a destructor
that has not read one, or for a cleanup while no destructor has read one. -/
def LastKnown (r : Runtime) : Label → Prop
  | .step j =>
    match r.handles[j]? with
    | some (.release _ false) | some (.overwrite _) => r.useCount ≠ 1
    | _ => True
  | .reaper => r.reaper = .releasingLast false → r.useCount = 1 → r.initiators ≠ []
  | _ => True

instance decidableLastKnown (r : Runtime) (a : Label) : Decidable (r.LastKnown a) := by
  unfold LastKnown
  split
  · split <;> infer_instance
  · infer_instance
  · infer_instance

end Runtime

/-! ## The invariant -/

namespace Handle

/-- The handle still has its reference. -/
def holds : Handle → Bool
  | .released => false
  | _ => true

/-- It has read one and not yet dropped its reference. -/
def last : Handle → Bool
  | .initiate _ | .join | .handOver _ | .release _ true => true
  | _ => false

/-- The same, past the call that it makes then. -/
def initiated : Handle → Bool
  | .join | .handOver _ | .release _ true => true
  | _ => false

theorem last_of_initiated {h : Handle} (hi : h.initiated = true) : h.last = true := by
  unfold initiated at hi
  unfold last
  split at hi <;> first | rfl | cases hi

end Handle

/-- The references of the coordinator. -/
def Reaper.held : Reaper → Nat
  | .idle | .locking => 0
  | .cleaning handoff => if handoff then 2 else 1
  | .releasingFirst => 2
  | .releasingLast _ => 1

/-- The coordinator works for a handoff. -/
def Reaper.handoff : Reaper → Bool
  | .cleaning handoff | .releasingLast handoff => handoff
  | .releasingFirst => true
  | .idle | .locking => false

/-- The references that are left in the registry. -/
def retained (slot : Option Bool) : Nat := if slot = some true then 2 else 0

namespace Runtime

/-- Where everything stands.  `alone`: a handle that has read one is the only one left, and
the only one that has. -/
structure Inv (r : Runtime) : Prop extends HandedOver r where
  count : r.useCount = r.handles.countP Handle.holds + retained r.slot + r.reaper.held
  alone : ∀ (j : Nat) h, r.handles[j]? = some h → h.last = true →
    ∀ (k : Nat) h', r.handles[k]? = some h' → k ≠ j → h' = .released
  initiator : ∀ (j : Nat) h, r.handles[j]? = some h → h.initiated = true → r.initiators = [j]
  waiting : ∀ (j : Nat) h, r.handles[j]? = some h → h.holds = true → h.initiated = false →
    r.initiators = []
  busy : ∀ h ∈ r.handles, ∀ i, h.thread? = some (.worker i) → r.workers[i]? = some true
  present : true ∈ r.workers → r.slot.isSome
  idle : r.slot.isSome → r.reaper = .idle
  handoff : r.slot = some true ∨ r.reaper.handoff = true → r.initiators ≠ []
  retains : ∀ i, .release (.worker i) true ∈ r.handles → r.slot = some true
  handedOff : r.slot = some true → ∀ h ∈ r.handles, h.holds = true →
    ∃ i, h = .release (.worker i) true
  gone : r.destroyed.isSome → r.useCount = 0

section
variable {r : Runtime} {j : Nat} {g g' : Handle}

/-- The handles after one of them has moved. -/
theorem getElem?_setHandle (hj : r.handles[j]? = some g) {k : Nat} {h : Handle}
    (hk : (r.handles.set j g')[k]? = some h) :
    k = j ∧ h = g' ∨ k ≠ j ∧ r.handles[k]? = some h := by
  by_cases hkj : j = k
  · subst hkj
    rw [List.getElem?_set_self (List.getElem?_eq_some_iff.mp hj).1] at hk
    exact .inl ⟨rfl, (Option.some.inj hk).symm⟩
  · rw [List.getElem?_set_ne hkj] at hk
    exact .inr ⟨Ne.symm hkj, hk⟩

/-- While a handle has read one, no other handle has a reference. -/
theorem Inv.only (h : Inv r) (hj : r.handles[j]? = some g) (hlast : g.last = true) {k : Nat}
    {h' : Handle} (hk : r.handles[k]? = some h') (hholds : h'.holds = true) : k = j := by
  by_contra hne
  rw [h.alone j g hj hlast k h' hk hne] at hholds
  cases hholds

/-- The references of the handles without handle `j`. -/
theorem countP_release (hj : r.handles[j]? = some g) (hg : g.holds = true) :
    (r.handles.set j .released).countP Handle.holds + 1 = r.handles.countP Handle.holds := by
  have hset := countP_set Handle.holds hj .released
  rw [hg, show Handle.holds .released = false from rfl] at hset
  simpa using hset

theorem countP_keep (hj : r.handles[j]? = some g) (hg : g.holds = true) (hg' : g'.holds = true) :
    (r.handles.set j g').countP Handle.holds = r.handles.countP Handle.holds := by
  have hset := countP_set Handle.holds hj g'
  rw [hg, hg'] at hset
  simpa using hset

/-- A count of one and a handle that holds: nothing else does. -/
theorem Inv.readsOne (h : Inv r) (hj : r.handles[j]? = some g) (hg : g.holds = true)
    (hone : r.useCount = 1) : ∀ (k : Nat) h', r.handles[k]? = some h' → k ≠ j → h' = .released := by
  intro k h' hk hne
  have hcount := h.count
  have hrelease := countP_release hj hg
  by_contra hholding
  have hk' : (r.handles.set j .released)[k]? = some h' := by
    rw [List.getElem?_set_ne (Ne.symm hne)]
    exact hk
  have hholds : h'.holds = true := by
    cases h' <;> first | rfl | exact absurd rfl hholding
  have hpos : 0 < (r.handles.set j .released).countP Handle.holds :=
    List.countP_pos_iff.mpr ⟨h', List.mem_of_getElem? hk', hholds⟩
  omega

/-- A handoff leaves no other reference than that of its own handle. -/
theorem Inv.notHandedOff (h : Inv r) (hj : r.handles[j]? = some g) (hg : g.holds = true)
    (hmoves : ∀ i, g ≠ .release (.worker i) true) : r.slot ≠ some true := by
  intro hslot
  obtain ⟨i, hi⟩ := h.handedOff hslot g (List.mem_of_getElem? hj) hg
  exact hmoves i hi

/-- **A handle moves and keeps its reference.**  It initiates, or it does not. -/
theorem Inv.moveHandle {stopRequested : Bool} {initiators : List Nat} (h : Inv r)
    (hj : r.handles[j]? = some g) (hg : g.holds = true) (hg' : g'.holds = true)
    (hlast : g'.last = true → ∀ (k : Nat) h', r.handles[k]? = some h' → k ≠ j → h' = .released)
    (hinit : g'.initiated = true ∧ initiators = [j] ∧ g.last = true ∨
      g'.initiated = false ∧ initiators = r.initiators ∧ g.initiated = false)
    (hbusy : ∀ i, g'.thread? = some (.worker i) → r.workers[i]? = some true)
    (hmoves : ∀ i, g ≠ .release (.worker i) true)
    (hretains : ∀ i, g' ≠ .release (.worker i) true) :
    Inv { r with
      stopRequested := stopRequested, initiators := initiators
      handles := r.handles.set j g' } := by
  have hold : g.initiated = false → r.initiators = [] := h.waiting j g hj hg
  have hslot : r.slot ≠ some true := h.notHandedOff hj hg hmoves
  refine
    { count := ?_, alone := ?_, initiator := ?_, waiting := ?_, atMostOnce := ?_, busy := ?_,
      present := h.present, idle := h.idle, handoff := ?_, retains := ?_,
      handedOff := fun hs => absurd hs hslot, gone := h.gone,
      once := h.once, thread := h.thread }
  · rcases hinit with ⟨-, rfl, -⟩ | ⟨-, rfl, -⟩
    · exact Nat.le_refl 1
    · exact h.atMostOnce
  · rw [countP_keep hj hg hg']
    exact h.count
  · intro a x ha hx b y hb hne
    rcases getElem?_setHandle hj ha with ⟨rfl, rfl⟩ | ⟨hna, ha⟩
    · rcases getElem?_setHandle hj hb with ⟨rfl, -⟩ | ⟨hnb, hb⟩
      · exact absurd rfl hne
      · exact hlast hx b y hb hnb
    · -- another handle that has read one: this one would have been released
      have := h.alone a x ha hx j g hj (Ne.symm hna)
      rw [this] at hg
      cases hg
  · intro a x ha hx
    rcases getElem?_setHandle hj ha with ⟨rfl, rfl⟩ | ⟨hna, ha⟩
    · rcases hinit with ⟨-, hi, -⟩ | ⟨hno, -⟩
      · exact hi
      · rw [hno] at hx
        cases hx
    · have := h.alone a x ha (Handle.last_of_initiated hx) j g hj (Ne.symm hna)
      rw [this] at hg
      cases hg
  · intro a x ha hx hxinit
    rcases getElem?_setHandle hj ha with ⟨rfl, rfl⟩ | ⟨hna, ha⟩
    · rcases hinit with ⟨hyes, -⟩ | ⟨-, hi, hno⟩
      · rw [hyes] at hxinit
        cases hxinit
      · exact hi.trans (hold hno)
    · rcases hinit with ⟨-, -, hglast⟩ | ⟨-, hi, -⟩
      · rw [h.alone j g hj hglast a x ha hna] at hx
        cases hx
      · exact hi.trans (h.waiting a x ha hx hxinit)
  · intro x hx i hi
    rcases List.mem_or_eq_of_mem_set hx with hx | rfl
    · exact h.busy x hx i hi
    · exact hbusy i hi
  · intro hslot
    rcases hinit with ⟨-, rfl, -⟩ | ⟨-, rfl, -⟩
    · exact List.cons_ne_nil j []
    · exact h.handoff hslot
  · intro i hi
    rcases List.mem_or_eq_of_mem_set hi with hi | heq
    · exact h.retains i hi
    · exact absurd heq.symm (hretains i)

/-- A dropped reference destroys the `Impl` or leaves it as it was. -/
theorem destroyed_drop {t : Thread} {d : Destruction} (hd : (r.drop t).destroyed = some d) :
    r.useCount = 1 ∧ d = r.destroyImpl t ∨ r.destroyed = some d := by
  simp only [drop] at hd
  split at hd
  · rename_i hone
    exact .inl ⟨hone, (Option.some.inj hd).symm⟩
  · exact .inr hd

/-- **A handle drops its reference**, which is the last one only if it has initiated. -/
theorem Inv.dropHandle {t : Thread} (h : Inv r) (hj : r.handles[j]? = some g)
    (hg : g = .overwrite t ∨ ∃ b, g = .release t b)
    (hok : r.useCount = 1 → g.initiated = true) :
    Inv ((r.drop t).setHandle j .released) := by
  have hholds : g.holds = true := by
    rcases hg with rfl | ⟨b, rfl⟩ <;> rfl
  have hcount := h.count
  have hrelease := countP_release hj hholds
  have halone : r.useCount = 1 → r.initiators = [j] := fun hone =>
    h.initiator j g hj (hok hone)
  -- on a worker the reference of the Reaper is left
  have hworker : ∀ i, t = .worker i → r.useCount ≠ 1 := by
    rintro i rfl hone
    have hinit := hok hone
    obtain rfl : g = .release (.worker i) true := by
      rcases hg with rfl | ⟨b, rfl⟩
      · cases hinit
      · cases b
        · cases hinit
        · rfl
    have hslot := h.retains i (List.mem_of_getElem? hj)
    simp only [retained, hslot, if_true] at hcount
    omega
  have hdestroyed : ∀ d, ((r.drop t).setHandle j .released).destroyed = some d →
      r.useCount = 1 ∧ d = r.destroyImpl t ∨ r.destroyed = some d :=
    fun _ => destroyed_drop
  refine
    { count := ?_, alone := ?_, initiator := ?_, waiting := ?_, atMostOnce := h.atMostOnce,
      busy := ?_, present := h.present, idle := h.idle, handoff := h.handoff, retains := ?_,
      handedOff := ?_, gone := ?_, once := ?_, thread := ?_ }
  · intro d hd
    rcases hdestroyed d hd with ⟨hone, rfl⟩ | hd
    · rw [show (r.destroyImpl t).initiators = r.initiators from rfl, halone hone]
      rfl
    · exact h.once d hd
  · intro d i hd hthread
    rcases hdestroyed d hd with ⟨hone, rfl⟩ | hd
    · exact absurd hone (hworker i hthread)
    · exact h.thread d i hd hthread
  · simp only [setHandle, drop]
    omega
  · intro a x ha hx b y hb hne
    rcases getElem?_setHandle hj ha with ⟨rfl, rfl⟩ | ⟨hna, ha⟩
    · cases hx
    · rcases getElem?_setHandle hj hb with ⟨rfl, rfl⟩ | ⟨-, hb⟩
      · rfl
      · exact h.alone a x ha hx b y hb hne
  · intro a x ha hx
    rcases getElem?_setHandle hj ha with ⟨rfl, rfl⟩ | ⟨-, ha⟩
    · cases hx
    · exact h.initiator a x ha hx
  · intro a x ha hx hno
    rcases getElem?_setHandle hj ha with ⟨rfl, rfl⟩ | ⟨-, ha⟩
    · cases hx
    · exact h.waiting a x ha hx hno
  · intro x hx i hi
    rcases List.mem_or_eq_of_mem_set hx with hx | rfl
    · exact h.busy x hx i hi
    · cases hi
  · intro i hi
    rcases List.mem_or_eq_of_mem_set hi with hi | heq
    · exact h.retains i hi
    · cases heq
  · intro hslot x hx hxholds
    rcases List.mem_or_eq_of_mem_set hx with hx | rfl
    · exact h.handedOff hslot x hx hxholds
    · cases hxholds
  · intro hd
    obtain ⟨d, hd⟩ := Option.isSome_iff_exists.mp hd
    simp only [setHandle, drop]
    rcases hdestroyed d hd with ⟨hone, -⟩ | hd
    · omega
    · rw [h.gone (by rw [hd]; rfl)]

/-! ## The steps -/

/-- **The joins of an external shutdown.**  They take the slot out of the registry, which is
that of a cleanup. -/
theorem Inv.join (h : Inv r) (hexited : r.allExited = true) (hslot : r.slot ≠ some true) :
    Inv { r.joinWorkers with slot := none } := by
  refine
    { h with
      count := ?_, present := ?_, idle := nofun, handoff := ?_, retains := ?_
      handedOff := nofun }
  · have hcount := h.count
    rw [retained, if_neg hslot] at hcount
    exact hcount
  · intro hrunning
    have := List.all_eq_true.mp hexited true hrunning
    cases this
  · intro hhandoff
    rcases hhandoff with hnone | hreaper
    · cases hnone
    · exact h.handoff (.inr hreaper)
  · intro i hi
    exact absurd (h.retains i hi) hslot

/-- **The handoff.**  The worker runs, so the slot is still there; two references stay in it. -/
theorem Inv.handOver {i : Nat} (h : Inv r) (hj : r.handles[j]? = some (.handOver i)) :
    Inv ({ r with
      slot := r.slot.map fun _ => true
      useCount := if r.slot.isSome then r.useCount + 2 else r.useCount }.setHandle j
        (.release (.worker i) true)) := by
  have hrunning : r.workers[i]? = some true := h.busy _ (List.mem_of_getElem? hj) i rfl
  have hpresent : r.slot.isSome := h.present (List.mem_of_getElem? hrunning)
  have hidle : r.reaper = .idle := h.idle hpresent
  have hno : r.slot ≠ some true := h.notHandedOff hj rfl nofun
  have hinit : r.initiators = [j] := h.initiator j _ hj rfl
  have halone := h.alone j _ hj rfl
  obtain ⟨b, hb⟩ := Option.isSome_iff_exists.mp hpresent
  have hcount := h.count
  rw [retained, if_neg hno] at hcount
  refine
    { count := ?_, alone := ?_, initiator := ?_, waiting := ?_, atMostOnce := h.atMostOnce,
      busy := ?_, present := ?_, idle := fun _ => hidle, handoff := ?_, retains := ?_
      handedOff := ?_, gone := ?_
      once := h.once, thread := h.thread }
  · have hkeep : (r.handles.set j (.release (.worker i) true)).countP Handle.holds =
        r.handles.countP Handle.holds := countP_keep hj rfl rfl
    simp only [setHandle, hkeep, hb, Option.map_some, retained, Option.isSome_some, if_true]
    omega
  · intro a x ha hx b y hy hne
    rcases getElem?_setHandle hj ha with ⟨rfl, rfl⟩ | ⟨hna, ha⟩
    · rcases getElem?_setHandle hj hy with ⟨rfl, -⟩ | ⟨hnb, hy⟩
      · exact absurd rfl hne
      · exact halone b y hy hnb
    · rw [halone a x ha hna] at hx
      cases hx
  · intro a x ha hx
    rcases getElem?_setHandle hj ha with ⟨rfl, rfl⟩ | ⟨hna, ha⟩
    · exact hinit
    · exact h.initiator a x ha hx
  · intro a x ha hx hno
    rcases getElem?_setHandle hj ha with ⟨rfl, rfl⟩ | ⟨hna, ha⟩
    · cases hno
    · exact h.waiting a x ha hx hno
  · intro x hx k hk
    rcases List.mem_or_eq_of_mem_set hx with hx | rfl
    · exact h.busy x hx k hk
    · obtain rfl : i = k := Thread.worker.inj (Option.some.inj hk)
      exact hrunning
  · intro _
    simp [setHandle, hb]
  · intro _ hnil
    rw [show r.initiators = [] from hnil] at hinit
    cases hinit
  · intro _ _
    simp [setHandle, hb]
  · intro _ x hx hxholds
    obtain ⟨a, ha⟩ := List.getElem?_of_mem hx
    rcases getElem?_setHandle hj ha with ⟨-, rfl⟩ | ⟨hna, ha⟩
    · exact ⟨i, rfl⟩
    · rw [halone a x ha hna] at hxholds
      cases hxholds
  · intro hd
    -- the reference of the handle itself is still there
    have hzero := h.gone hd
    have := countP_release hj rfl
    omega

/-- A handle takes a step. -/
theorem Inv.handleStep (h : Inv r) {r' : Runtime} (hj : r.handles[j]? = some g)
    (hok : r.LastKnown (.step j)) (hs : r.handleStep j g = some r') : Inv r' := by
  have hbusy := h.busy g (List.mem_of_getElem? hj)
  cases g with
  | held => cases hs
  | released => cases hs
  | readCount t =>
    obtain rfl := Option.some.inj hs
    by_cases hone : r.useCount = 1
    · rw [if_pos hone]
      exact h.moveHandle hj rfl rfl (fun _ => h.readsOne hj rfl hone) (.inr ⟨rfl, rfl, rfl⟩)
        hbusy nofun nofun
    · rw [if_neg hone]
      exact h.moveHandle hj rfl rfl nofun (.inr ⟨rfl, rfl, rfl⟩) hbusy nofun nofun
  | initiate t =>
    have halone := h.alone j _ hj rfl
    have hnone : r.initiators = [] := h.waiting j _ hj rfl rfl
    cases t with
    | worker i =>
      obtain rfl := Option.some.inj hs
      exact h.moveHandle hj rfl rfl (fun _ => halone)
        (.inl ⟨rfl, by rw [hnone]; rfl, rfl⟩) hbusy nofun nofun
    | external =>
      simp only [Runtime.handleStep] at hs
      split at hs <;> obtain rfl := Option.some.inj hs
      · exact h.moveHandle hj rfl rfl (fun _ => halone)
          (.inl ⟨rfl, by rw [hnone]; rfl, rfl⟩) nofun nofun (by simp)
      · exact h.moveHandle hj rfl rfl (fun _ => halone)
          (.inl ⟨rfl, by rw [hnone]; rfl, rfl⟩) nofun nofun nofun
    | reaper =>
      simp only [Runtime.handleStep] at hs
      split at hs <;> obtain rfl := Option.some.inj hs
      · exact h.moveHandle hj rfl rfl (fun _ => halone)
          (.inl ⟨rfl, by rw [hnone]; rfl, rfl⟩) nofun nofun (by simp)
      · exact h.moveHandle hj rfl rfl (fun _ => halone)
          (.inl ⟨rfl, by rw [hnone]; rfl, rfl⟩) nofun nofun nofun
  | join =>
    simp only [Runtime.handleStep] at hs
    split at hs
    · rename_i hexited
      obtain rfl := Option.some.inj hs
      exact (h.join hexited (h.notHandedOff hj rfl nofun)).moveHandle hj rfl rfl
        (fun _ => h.alone j _ hj rfl) (.inl ⟨rfl, h.initiator j _ hj rfl, rfl⟩) nofun nofun
        (by simp)
    · cases hs
  | handOver i =>
    obtain rfl := Option.some.inj hs
    exact h.handOver hj
  | release t b =>
    obtain rfl := Option.some.inj hs
    refine h.dropHandle hj (.inr ⟨b, rfl⟩) fun hone => ?_
    cases b with
    | true => rfl
    | false =>
      simp only [Runtime.LastKnown, hj] at hok
      exact absurd hone hok
  | overwrite t =>
    obtain rfl := Option.some.inj hs
    refine h.dropHandle hj (.inl rfl) fun hone => ?_
    simp only [Runtime.LastKnown, hj] at hok
    exact absurd hone hok

/-- A copy is one handle and one reference more. -/
theorem Inv.copy (h : Inv r) (hj : r.handles[j]? = some .held) :
    Inv { r with useCount := r.useCount + 1, handles := r.handles ++ [Handle.held] } := by
  have hno : r.slot ≠ some true := h.notHandedOff hj rfl nofun
  have hnone : r.initiators = [] := h.waiting j _ hj rfl rfl
  -- the handle that is copied has a reference, so no handle has read one
  have hlast : ∀ (a : Nat) x, r.handles[a]? = some x → x.last = false := by
    intro a x ha
    by_contra hx
    have hx : x.last = true := by simpa using hx
    obtain rfl := h.only ha hx hj rfl
    rw [hj] at ha
    obtain rfl := Option.some.inj ha
    cases hx
  have hold : ∀ (a : Nat) x, (r.handles ++ [Handle.held])[a]? = some x →
      r.handles[a]? = some x ∨ x = .held := by
    intro a x ha
    rcases List.mem_append.mp (List.mem_of_getElem? ha) with - | hx
    · by_cases hlt : a < r.handles.length
      · rw [List.getElem?_append_left hlt] at ha
        exact .inl ha
      · rw [List.getElem?_append_right (Nat.le_of_not_lt hlt)] at ha
        exact .inr (List.mem_singleton.mp (List.mem_of_getElem? ha))
    · exact .inr (List.mem_singleton.mp hx)
  refine
    { count := ?_, alone := ?_, initiator := ?_, waiting := ?_, atMostOnce := h.atMostOnce,
      busy := ?_, present := h.present, idle := h.idle, handoff := h.handoff, retains := ?_
      handedOff := fun hs => absurd hs hno, gone := ?_
      once := h.once, thread := h.thread }
  · have hcount := h.count
    simp only [List.countP_append, List.countP_singleton, Handle.holds, if_true]
    omega
  · intro a x ha hx
    rcases hold a x ha with ha | rfl
    · rw [hlast a x ha] at hx
      cases hx
    · cases hx
  · intro a x ha hx
    rcases hold a x ha with ha | rfl
    · have hxlast := Handle.last_of_initiated hx
      rw [hlast a x ha] at hxlast
      cases hxlast
    · cases hx
  · intro _ _ _ _ _
    exact hnone
  · intro x hx i hi
    rcases List.mem_append.mp hx with hx | hx
    · exact h.busy x hx i hi
    · obtain rfl := List.mem_singleton.mp hx
      cases hi
  · intro i hi
    rcases List.mem_append.mp hi with hi | hi
    · exact h.retains i hi
    · cases List.mem_singleton.mp hi
  · intro hd
    have := h.gone hd
    have hcount := h.count
    have := List.countP_pos_iff.mpr ⟨_, List.mem_of_getElem? hj, (rfl : Handle.holds .held = true)⟩
    omega

/-- A worker without an operation in progress exits. -/
theorem Inv.workerExit {i : Nat} (h : Inv r)
    (hfree : ∀ h ∈ r.handles, h.thread? ≠ some (.worker i)) :
    Inv { r with workers := r.workers.set i false } := by
  refine
    { h with
      busy := ?_, present := ?_ }
  · intro x hx k hk
    have hne : i ≠ k := by
      rintro rfl
      exact hfree x hx hk
    rw [List.getElem?_set_ne hne]
    exact h.busy x hx k hk
  · intro hrunning
    rcases List.mem_or_eq_of_mem_set hrunning with hrunning | heq
    · exact h.present hrunning
    · cases heq

/-- The coordinator takes a slot whose workers have exited. -/
theorem Inv.takeSlot {handoff : Bool} (h : Inv r) (hslot : r.slot = some handoff)
    (hexited : r.allExited = true) :
    Inv { r with slot := none, reaper := if handoff then .cleaning true else .locking } := by
  have hidle : r.reaper = .idle := h.idle (by rw [hslot]; rfl)
  have hcount := h.count
  have hrunning : true ∉ r.workers := fun hrunning =>
    nomatch List.all_eq_true.mp hexited true hrunning
  refine
    { h with
      count := ?_, present := fun hr => absurd hr hrunning, idle := nofun, handoff := ?_
      retains := ?_, handedOff := nofun }
  · rw [hidle, hslot] at hcount
    cases handoff <;> exact hcount
  · rintro (hnone | hreaper)
    · cases hnone
    · cases handoff
      · cases hreaper
      · exact h.handoff (.inl hslot)
  · -- no worker is left that could have an operation in progress
    intro i hi
    have := h.busy _ hi i rfl
    exact absurd (List.mem_of_getElem? this) hrunning

/-- The coordinator goes on, with the references that it has. -/
theorem Inv.moveReaper {useCount : Nat} {reaper : Reaper} (h : Inv r) (hslot : r.slot = none)
    (hcount : useCount + r.reaper.held = r.useCount + reaper.held)
    (hhandoff : reaper.handoff = true → r.reaper.handoff = true)
    (hgone : r.useCount = 0 → useCount = 0) :
    Inv { r with useCount := useCount, reaper := reaper } := by
  have := h.count
  refine
    { h with
      count := ?_, idle := ?_, handoff := ?_, gone := fun hd => hgone (h.gone hd) }
  · simp only
    omega
  · intro hsome
    rw [hslot] at hsome
    cases hsome
  · rintro (hs | hr)
    · exact h.handoff (.inl hs)
    · exact h.handoff (.inr (hhandoff hr))

theorem Inv.joinWorkers (h : Inv r) : Inv r.joinWorkers :=
  { h with }

/-- **The coordinator drops a reference**, which is the last one only after an initiation. -/
theorem Inv.dropReaper {reaper : Reaper} (h : Inv r) (hslot : r.slot = none)
    (hheld : r.reaper.held = reaper.held + 1)
    (hhandoff : reaper.handoff = true → r.reaper.handoff = true)
    (hok : r.useCount = 1 → r.initiators ≠ []) :
    Inv { r.drop .reaper with reaper := reaper } := by
  have hcount := h.count
  have hdestroyed : ∀ d, (r.drop .reaper).destroyed = some d →
      r.useCount = 1 ∧ d = r.destroyImpl .reaper ∨ r.destroyed = some d :=
    fun d => destroyed_drop
  have hmove : Inv { r with useCount := r.useCount - 1, reaper := reaper } :=
    h.moveReaper hslot (by omega) hhandoff (by omega)
  refine { hmove with once := ?_, thread := ?_, gone := ?_ }
  · intro d hd
    rcases hdestroyed d hd with ⟨hone, rfl⟩ | hd
    · have hpos := List.length_pos_iff.mpr (hok hone)
      exact Nat.le_antisymm h.atMostOnce hpos
    · exact h.once d hd
  · intro d i hd hthread
    rcases hdestroyed d hd with ⟨-, rfl⟩ | hd
    · cases hthread
    · exact h.thread d i hd hthread
  · intro hd
    obtain ⟨d, hd⟩ := Option.isSome_iff_exists.mp hd
    simp only [drop]
    rcases hdestroyed d hd with ⟨hone, -⟩ | hd
    · omega
    · have := h.gone (by rw [hd]; rfl)
      omega

/-- The coordinator takes a step. -/
theorem Inv.reaperStep (h : Inv r) {r' : Runtime} (hok : r.LastKnown .reaper)
    (hs : r.reaperStep = some r') : Inv r' := by
  have hcount := h.count
  have hslot : r.reaper ≠ .idle → r.slot = none := by
    intro hne
    by_contra hsome
    exact hne (h.idle (Option.isSome_iff_ne_none.mpr hsome))
  unfold Runtime.reaperStep at hs
  split at hs
  · split at hs
    · cases hs
    · rename_i handoff hsome
      split at hs
      · rename_i hready
        obtain rfl := Option.some.inj hs
        exact h.takeSlot hsome hready.1
      · cases hs
  · rename_i hlocking
    have hnone := hslot (by rw [hlocking]; nofun)
    split at hs
    · rename_i hzero
      obtain rfl := Option.some.inj hs
      exact h.moveReaper hnone (by rw [hlocking]; rfl) nofun id
    · rename_i hpos
      obtain rfl := Option.some.inj hs
      exact h.moveReaper hnone (by rw [hlocking]; rfl) nofun (fun hzero => absurd hzero hpos)
  · rename_i handoff hcleaning
    have hnone := hslot (by rw [hcleaning]; nofun)
    split at hs
    · obtain rfl := Option.some.inj hs
      refine h.joinWorkers.moveReaper hnone ?_ ?_ id
      · rw [show r.joinWorkers.reaper = r.reaper from rfl, hcleaning]
        cases handoff <;> rfl
      · rw [show r.joinWorkers.reaper = r.reaper from rfl, hcleaning]
        cases handoff
        · exact id
        · exact fun _ => rfl
    · cases hs
  · rename_i hreleasing
    obtain rfl := Option.some.inj hs
    have hnone := hslot (by rw [hreleasing]; nofun)
    refine h.dropReaper hnone (by rw [hreleasing]; rfl) (fun _ => by rw [hreleasing]; rfl) ?_
    exact fun _ => h.handoff (.inr (by rw [hreleasing]; rfl))
  · rename_i handoff hreleasing
    obtain rfl := Option.some.inj hs
    have hnone := hslot (by rw [hreleasing]; nofun)
    refine h.dropReaper hnone (by rw [hreleasing]; rfl) nofun fun hone => ?_
    cases handoff
    · exact hok hreleasing hone
    · exact h.handoff (.inr (by rw [hreleasing]; rfl))

theorem busy_of_runs {t : Thread} (hruns : r.runs t = true) (i : Nat)
    (ht : some t = some (.worker i)) : r.workers[i]? = some true := by
  obtain rfl := Option.some.inj ht
  exact of_decide_eq_true hruns

theorem Inv.step (h : Inv r) {a : Label} {r' : Runtime} (hok : r.LastKnown a)
    (hs : machine.next r a = some r') : Inv r' := by
  cases a with
  | copy k =>
    obtain ⟨hk, hs⟩ := Option.ite_none_right_eq_some.mp hs
    obtain rfl := Option.some.inj hs
    exact h.copy hk
  | destroy k t =>
    obtain ⟨⟨hk, hruns⟩, hs⟩ := Option.ite_none_right_eq_some.mp hs
    obtain rfl := Option.some.inj hs
    exact h.moveHandle hk rfl rfl nofun (.inr ⟨rfl, rfl, rfl⟩) (busy_of_runs hruns) nofun nofun
  | assign k t =>
    obtain ⟨⟨hk, hruns⟩, hs⟩ := Option.ite_none_right_eq_some.mp hs
    obtain rfl := Option.some.inj hs
    exact h.moveHandle hk rfl rfl nofun (.inr ⟨rfl, rfl, rfl⟩) (busy_of_runs hruns) nofun nofun
  | step k =>
    obtain ⟨g, hk, hs⟩ := Option.bind_eq_some_iff.mp hs
    exact h.handleStep hk hok hs
  | workerExit i =>
    obtain ⟨⟨-, -, hfree⟩, hs⟩ := Option.ite_none_right_eq_some.mp hs
    obtain rfl := Option.some.inj hs
    exact h.workerExit hfree
  | finalize =>
    obtain rfl := Option.some.inj hs
    exact { h with }
  | requestShutdown =>
    obtain ⟨-, hs⟩ := Option.ite_none_right_eq_some.mp hs
    obtain rfl := Option.some.inj hs
    exact { h with }
  | shutdownJoin =>
    obtain ⟨⟨hheld, -, hexited⟩, hs⟩ := Option.ite_none_right_eq_some.mp hs
    obtain rfl := Option.some.inj hs
    obtain ⟨k, hk⟩ := List.getElem?_of_mem hheld
    exact h.join hexited (h.notHandedOff hk rfl nofun)
  | reaper => exact h.reaperStep hok hs

theorem inv_constructed (workers : Nat) : Inv (constructed workers) := by
  have hheld : ∀ (k : Nat) x, (constructed workers).handles[k]? = some x → k = 0 ∧ x = .held := by
    intro k x hk
    cases k with
    | zero => exact ⟨rfl, (Option.some.inj hk).symm⟩
    | succ k => cases hk
  refine
    { atMostOnce := Nat.zero_le 1, once := nofun, thread := nofun, count := rfl, alone := ?_
      initiator := ?_, waiting := fun _ _ _ _ _ => rfl, busy := ?_, present := fun _ => rfl
      idle := fun _ => rfl, handoff := nofun, retains := ?_, handedOff := nofun, gone := nofun }
  · intro j x hj hx
    obtain ⟨-, rfl⟩ := hheld j x hj
    cases hx
  · intro j x hj hx
    obtain ⟨-, rfl⟩ := hheld j x hj
    cases hx
  · intro x hx i hi
    obtain rfl := List.mem_singleton.mp hx
    cases hi
  · intro i hi
    cases List.mem_singleton.mp hi

/-- **Anything else is the end of an `Impl` that nobody has handed over.** -/
theorem Inv.broken (h : Inv r) {a : Label} {r' : Runtime} (hbad : ¬ r.LastKnown a)
    (hs : machine.next r a = some r') : ¬ HandedOver r' := by
  -- the destruction has recorded that there was no initiator
  have hbroken : ∀ t r'', r''.destroyed = (r.drop t).destroyed → r.useCount = 1 →
      r.initiators = [] → ¬ HandedOver r'' := by
    intro t r'' heq hone hnone hover
    have hd : r''.destroyed = some (r.destroyImpl t) := by
      rw [heq]
      exact if_pos hone
    have := hover.once _ hd
    rw [show (r.destroyImpl t).initiators = r.initiators from rfl, hnone] at this
    cases this
  unfold LastKnown at hbad
  split at hbad
  · rename_i j
    obtain ⟨g, hj, hs⟩ := Option.bind_eq_some_iff.mp hs
    split at hbad
    · rename_i t heq
      obtain rfl := Option.some.inj (hj.symm.trans heq)
      obtain rfl := Option.some.inj hs
      exact hbroken t _ rfl (Decidable.not_not.mp hbad) (h.waiting j _ hj rfl rfl)
    · rename_i t heq
      obtain rfl := Option.some.inj (hj.symm.trans heq)
      obtain rfl := Option.some.inj hs
      exact hbroken t _ rfl (Decidable.not_not.mp hbad) (h.waiting j _ hj rfl rfl)
    · exact absurd trivial hbad
  · simp only [Classical.not_imp, Decidable.not_not] at hbad
    obtain ⟨hreleasing, hone, hnone⟩ := hbad
    simp only [machine, Runtime.next, Runtime.reaperStep, hreleasing] at hs
    obtain rfl := Option.some.inj hs
    exact hbroken .reaper _ rfl hone hnone
  · exact absurd trivial hbad

end

/-- **The last handle hands the runtime over exactly as long as no last reference is dropped
unknowingly.** -/
theorem handedOver_iff_lastKnown {r : Runtime} {as : List Label} (hinit : machine.init r)
    (hr : (machine.run r as).isSome) :
    machine.EveryState HandedOver r as ↔ machine.EveryStep LastKnown r as := by
  obtain ⟨workers, rfl⟩ := hinit
  exact Machine.everyState_iff_everyStep Inv (fun _ h => h.toHandedOver)
    (fun _ _ _ h hok hs => h.step hok hs) (fun _ _ _ h hbad hs => h.broken hbad hs)
    (inv_constructed workers) hr

/-- One handle goes on an external thread and another is assigned to; a worker destroys the
third and hands over, and the coordinator destroys the `Impl`. -/
def workerHandsOver : List Label :=
  [.copy 0, .copy 1, .destroy 0 .external, .step 0, .step 0, .assign 1 .external, .step 1,
    .destroy 2 (.worker 1), .step 2, .step 2, .step 2, .step 2, .workerExit 0, .workerExit 1,
    .reaper, .reaper, .reaper, .reaper]

/-- Two workers read a use count of two before either has dropped its reference. -/
def bothReadTwo : List Label :=
  [.copy 0, .destroy 0 (.worker 0), .destroy 1 (.worker 1), .step 0, .step 1, .step 0, .step 1]

theorem workerHandsOver_handedOver :
    machine.EveryState HandedOver (constructed 2) workerHandsOver ∧
      (machine.run (constructed 2) workerHandsOver).bind (·.destroyed) =
        some ⟨.reaper, [2], false, false⟩ :=
  ⟨(handedOver_iff_lastKnown ⟨2, rfl⟩ (by decide)).mpr (by decide), by decide⟩

/-- The `Impl` ends on the second worker, which is joinable, and nobody has handed it over. -/
theorem bothReadTwo_destroysOnWorker :
    ∃ r, machine.run (constructed 2) bothReadTwo = some r ∧
      r.destroyed = some ⟨.worker 1, [], false, true⟩ ∧ ¬ HandedOver r := by
  obtain ⟨r, hr⟩ := Option.isSome_iff_exists.mp
    (show (machine.run (constructed 2) bothReadTwo).isSome by decide)
  have hend : (machine.run (constructed 2) bothReadTwo).map (·.destroyed) =
      some (some ⟨.worker 1, [], false, true⟩) := by decide
  rw [hr] at hend
  have hd := Option.some.inj hend
  refine ⟨r, hr, hd, fun hover => ?_⟩
  have hfalse := hover.thread _ 1 hd rfl
  cases hfalse

end Runtime
end AstraScheduler.HandleRelease
