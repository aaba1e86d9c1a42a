import AstraScheduler.LinkedReadyQueues
import Mathlib.Data.List.Nodup
import Mathlib.Data.List.Pairwise

/-! # What is in the ready queues, container by container

The queues are a family of containers, and each operation but the sweep changes one of
them.  `tasksAt` reads a container as a list of tasks, whatever it is made of, and
`OnlyAt` says that an operation left the others alone: the raw links of a FIFO, the
flags kept in the objects and the pointers in a ring are all shared, so this is where
it matters that no invoker is in two containers.  `WellLinked` says that none is, and
each operation gets one lemma that gives its effect on its container. -/

namespace AstraScheduler
open LinkedFifo (Fifo Holds)

/-! ## Families of lists -/

section Families
variable {ι α : Type*} {f g : ι → List α} {k : ι} {ks : List ι} {xs ys : List α}

/-- Rearranging one member of a family against a list rearranges the whole family. -/
theorem flatMap_perm_of_one (hk : k ∈ ks) (hnd : ks.Nodup)
    (h : (g k ++ ys).Perm (f k ++ xs)) (hother : ∀ l, l ≠ k → g l = f l) :
    (ks.flatMap g ++ ys).Perm (ks.flatMap f ++ xs) := by
  obtain ⟨before, after, rfl⟩ := List.append_of_mem hk
  rw [List.nodup_append, List.nodup_cons] at hnd
  have hbefore : before.flatMap g = before.flatMap f :=
    List.flatMap_congr fun l hl => hother l fun heq => hnd.2.2 l hl k (by simp) heq
  have hafter : after.flatMap g = after.flatMap f :=
    List.flatMap_congr fun l hl => hother l fun heq => hnd.2.1.1 (heq ▸ hl)
  simp only [List.flatMap_append, List.flatMap_cons, hbefore, hafter, List.append_assoc]
  refine List.Perm.append_left _ ?_
  calc (g k ++ (after.flatMap f ++ ys)).Perm (g k ++ ys ++ after.flatMap f) := by
        rw [List.append_assoc]
        exact List.perm_append_comm.append_left _
    _ |>.Perm (f k ++ xs ++ after.flatMap f) := h.append_right _
    _ |>.Perm (f k ++ (after.flatMap f ++ xs)) := by
        rw [List.append_assoc]
        exact List.perm_append_comm.append_left _

end Families

/-! ## Containers -/

/-- A container of the ready queues. -/
inductive QueuePlace where
  | edf (band : Priority)
  | fifo (band : Priority)
  | localBand (workerIndex : Nat) (band : Priority)
  deriving DecidableEq, Repr

namespace QueuePlace

def globalPlaces : List QueuePlace :=
  Priority.bands.map .edf ++ Priority.bands.map .fifo

def localPlaces (workerCount : Nat) : List QueuePlace :=
  (List.range workerCount).flatMap fun w => Priority.bands.map (.localBand w)

theorem mem_bands (p : Priority) : p ∈ Priority.bands := by cases p <;> decide

theorem nodup_bands : Priority.bands.Nodup := by decide

theorem edf_mem (p : Priority) : .edf p ∈ globalPlaces := by cases p <;> decide

theorem fifo_mem (p : Priority) : .fifo p ∈ globalPlaces := by cases p <;> decide

theorem localBand_mem {w n : Nat} (p : Priority) (h : w < n) :
    .localBand w p ∈ localPlaces n :=
  List.mem_flatMap.mpr ⟨w, List.mem_range.mpr h, List.mem_map_of_mem (mem_bands p)⟩

theorem mem_localPlaces {k : QueuePlace} {n : Nat} (h : k ∈ localPlaces n) :
    ∃ w p, k = .localBand w p ∧ w < n := by
  obtain ⟨w, hw, hk⟩ := List.mem_flatMap.mp h
  obtain ⟨p, _, rfl⟩ := List.mem_map.mp hk
  exact ⟨w, p, rfl, List.mem_range.mp hw⟩

theorem localBand_notMem_global {w : Nat} {p : Priority} :
    .localBand w p ∉ globalPlaces := by
  intro h
  rcases List.mem_append.mp h with h | h
  · obtain ⟨_, _, heq⟩ := List.mem_map.mp h
    exact QueuePlace.noConfusion heq
  · obtain ⟨_, _, heq⟩ := List.mem_map.mp h
    exact QueuePlace.noConfusion heq

theorem nodup_globalPlaces : globalPlaces.Nodup := by decide

theorem nodup_localPlaces (n : Nat) : (localPlaces n).Nodup := by
  rw [localPlaces, List.nodup_flatMap]
  refine ⟨fun w _ => ?_, ?_⟩
  · exact nodup_bands.map fun p q h => (QueuePlace.localBand.inj h).2
  · refine List.nodup_range.imp fun {v w} hne k hv hw => ?_
    obtain ⟨p, _, rfl⟩ := List.mem_map.mp hv
    obtain ⟨q, _, heq⟩ := List.mem_map.mp hw
    exact hne (QueuePlace.localBand.inj heq).1.symm

end QueuePlace

open QueuePlace

variable {I : Type}

namespace LinkedReadyQueues

/-- The tasks in a container, in the order it keeps them. -/
def tasksAt (rq : LinkedReadyQueues I) : QueuePlace → List (QueuedTask I)
  | .edf p => (rq.globalEdfHeaps p).map (·.task)
  | .fifo p =>
    (LinkedFifo.nodes rq.links.readyNext (rq.globalFifoQueues p)).map rq.links.task
  | .localBand w p =>
    match rq.localBackend with
    | .locked => (rq.localQueues w).lockedBands p
    | .chaseLevLockFree => ((rq.localQueues w).chaseLevBands p).map rq.links.task

def queuedGlobal (rq : LinkedReadyQueues I) : List (QueuedTask I) :=
  globalPlaces.flatMap rq.tasksAt

def queuedLocal (rq : LinkedReadyQueues I) : List (QueuedTask I) :=
  (localPlaces rq.workerCount).flatMap rq.tasksAt

def queued (rq : LinkedReadyQueues I) : List (QueuedTask I) :=
  rq.queuedGlobal ++ rq.queuedLocal

def places (rq : LinkedReadyQueues I) : List QueuePlace :=
  globalPlaces ++ localPlaces rq.workerCount

/-- The links are in order, no invoker is queued twice, and only the workers' local
queues are in use. -/
structure WellLinked (rq : LinkedReadyQueues I) : Prop where
  fifos : ∀ p, Holds rq.links.readyNext (rq.globalFifoQueues p)
    (LinkedFifo.nodes rq.links.readyNext (rq.globalFifoQueues p))
  nodup : (rq.queued.map (·.invoker)).Nodup
  outside : ∀ w p, rq.workerCount ≤ w → rq.tasksAt (.localBand w p) = []

variable {rq rq' : LinkedReadyQueues I} {k l : QueuePlace} {t u : QueuedTask I}

theorem queued_eq (rq : LinkedReadyQueues I) : rq.queued = rq.places.flatMap rq.tasksAt := by
  simp [queued, queuedGlobal, queuedLocal, places]

theorem nodup_places (rq : LinkedReadyQueues I) : rq.places.Nodup := by
  refine List.nodup_append.mpr ⟨nodup_globalPlaces, nodup_localPlaces _, ?_⟩
  rintro k hk l hl rfl
  obtain ⟨w, p, rfl, -⟩ := mem_localPlaces hl
  exact localBand_notMem_global hk

namespace WellLinked

theorem mem_places (h : WellLinked rq) (ht : t ∈ rq.tasksAt k) : k ∈ rq.places := by
  cases k with
  | edf p => exact List.mem_append_left _ (edf_mem p)
  | fifo p => exact List.mem_append_left _ (fifo_mem p)
  | localBand w p =>
    refine List.mem_append_right _ (localBand_mem p ?_)
    by_contra hw
    rw [h.outside w p (by omega)] at ht
    cases ht

theorem mem_queued (h : WellLinked rq) (ht : t ∈ rq.tasksAt k) : t ∈ rq.queued := by
  rw [queued_eq]
  exact List.mem_flatMap.mpr ⟨k, h.mem_places ht, ht⟩

theorem nodup_family (h : WellLinked rq) :
    (rq.places.flatMap fun k => (rq.tasksAt k).map (·.invoker)).Nodup := by
  have hnd := h.nodup
  rwa [queued_eq, List.map_flatMap] at hnd

theorem nodup_at (h : WellLinked rq) (k : QueuePlace) :
    ((rq.tasksAt k).map (·.invoker)).Nodup := by
  cases htasks : rq.tasksAt k with
  | nil => exact List.nodup_nil
  | cons t ts =>
    have ht : t ∈ rq.tasksAt k := by simp [htasks]
    rw [← htasks]
    exact (List.nodup_flatMap.mp h.nodup_family).1 k (h.mem_places ht)

/-- No invoker is in two containers. -/
theorem apart (h : WellLinked rq) (hne : k ≠ l) (ht : t ∈ rq.tasksAt k)
    (hu : u ∈ rq.tasksAt l) : t.invoker ≠ u.invoker := by
  have hpw := (List.nodup_flatMap.mp h.nodup_family).2
  have : Std.Symm (Function.onFun List.Disjoint
      fun k => (rq.tasksAt k).map (·.invoker)) := ⟨fun _ _ hd _ hx hy => hd hy hx⟩
  have hdis := hpw.forall (h.mem_places ht) (h.mem_places hu) hne
  intro heq
  exact hdis (List.mem_map_of_mem ht) (heq ▸ List.mem_map_of_mem hu)

end WellLinked

/-! ## Reading through changed links -/

/-- `rq'` differs from `rq` in one container, and its links are in order. -/
structure OnlyAt (rq rq' : LinkedReadyQueues I) (k : QueuePlace) : Prop where
  workerCount : rq'.workerCount = rq.workerCount
  localBackend : rq'.localBackend = rq.localBackend
  fifos : ∀ p, Holds rq'.links.readyNext (rq'.globalFifoQueues p)
    (LinkedFifo.nodes rq'.links.readyNext (rq'.globalFifoQueues p))
  other : ∀ l, l ≠ k → rq'.tasksAt l = rq.tasksAt l

variable {links links' : ReadyLinks I} {raws : List I} {p : Priority} {w : Nat}

theorem mem_fifo {i : I}
    (h : i ∈ LinkedFifo.nodes rq.links.readyNext (rq.globalFifoQueues p)) :
    rq.links.task i ∈ rq.tasksAt (.fifo p) :=
  List.mem_map_of_mem h

theorem WellLinked.nodup_nodes (h : WellLinked rq) (p : Priority) :
    (LinkedFifo.nodes rq.links.readyNext (rq.globalFifoQueues p)).Nodup := by
  have hmap := h.nodup_at (.fifo p)
  rwa [tasksAt, List.map_map, show (fun u : QueuedTask I => u.invoker) ∘ rq.links.task = id
    from rfl, List.map_id] at hmap

theorem tasks_congr (hflag : ∀ i ∈ raws, links'.readyIsExternal i = links.readyIsExternal i) :
    raws.map links'.task = raws.map links.task :=
  List.map_congr_left fun i hi => by rw [ReadyLinks.task, ReadyLinks.task, hflag i hi]

/-- A FIFO whose nodes keep their fields keeps its tasks. -/
theorem fifo_congr (h : WellLinked rq) (rq' : LinkedReadyQueues I) (p : Priority)
    (hq : rq'.globalFifoQueues p = rq.globalFifoQueues p)
    (hnext : ∀ t ∈ rq.tasksAt (.fifo p),
      rq'.links.readyNext t.invoker = rq.links.readyNext t.invoker)
    (hflag : ∀ t ∈ rq.tasksAt (.fifo p),
      rq'.links.readyIsExternal t.invoker = rq.links.readyIsExternal t.invoker) :
    Holds rq'.links.readyNext (rq'.globalFifoQueues p)
        (LinkedFifo.nodes rq'.links.readyNext (rq'.globalFifoQueues p)) ∧
      rq'.tasksAt (.fifo p) = rq.tasksAt (.fifo p) := by
  have hnew : Holds rq'.links.readyNext (rq'.globalFifoQueues p)
      (LinkedFifo.nodes rq.links.readyNext (rq.globalFifoQueues p)) := by
    rw [hq]
    exact (h.fifos p).congr fun i hi => hnext (rq.links.task i) (mem_fifo hi)
  have hnodes := hnew.nodes_eq
  refine ⟨by rwa [hnodes], ?_⟩
  rw [tasksAt, tasksAt, hnodes]
  exact tasks_congr fun i hi => hflag (rq.links.task i) (mem_fifo hi)

/-- A local band whose objects keep their flags keeps its tasks. -/
theorem localBand_congr (hq : rq'.localQueues w = rq.localQueues w)
    (hb : rq'.localBackend = rq.localBackend)
    (hflag : ∀ t ∈ rq.tasksAt (.localBand w p),
      rq'.links.readyIsExternal t.invoker = rq.links.readyIsExternal t.invoker) :
    rq'.tasksAt (.localBand w p) = rq.tasksAt (.localBand w p) := by
  simp only [tasksAt] at hflag ⊢
  rw [hb, hq]
  cases hbackend : rq.localBackend with
  | locked => rfl
  | chaseLevLockFree =>
    rw [hbackend] at hflag
    exact tasks_congr fun i hi => hflag (rq.links.task i) (List.mem_map_of_mem hi)

theorem OnlyAt.countClaim (h : OnlyAt rq rq' k) : OnlyAt rq rq'.countClaim k :=
  ⟨h.workerCount, h.localBackend, h.fifos, h.other⟩

/-! ## The global containers -/

theorem onlyAt_setEdf (h : WellLinked rq) (band : Priority) (heap : List (EdfEntry I))
    (sequence : Nat) :
    OnlyAt rq { rq with
      globalAdmissionSequence := sequence
      globalEdfHeaps := Function.update rq.globalEdfHeaps band heap } (.edf band) := by
  refine ⟨rfl, rfl, h.fifos, fun l hl => ?_⟩
  cases l with
  | edf p =>
    have hp : p ≠ band := by simpa using hl
    simp only [tasksAt, Function.update_of_ne hp]
  | fifo p => rfl
  | localBand w p => rfl

theorem pushEdf_at (h : WellLinked rq) (t : QueuedTask I) (band : Priority) (deadline : Nat) :
    ((rq.pushEdf t band deadline).tasksAt (.edf band)).Perm (rq.tasksAt (.edf band) ++ [t]) ∧
      OnlyAt rq (rq.pushEdf t band deadline) (.edf band) := by
  refine ⟨?_, onlyAt_setEdf h ..⟩
  have hperm := BinaryHeap.pushHeap_perm EdfEntry.before (rq.globalEdfHeaps band ++
    [⟨deadline, rq.globalAdmissionSequence + 1, t⟩])
  simpa [tasksAt, pushEdf] using hperm.map (·.task)

theorem popEdf_at (h : WellLinked rq) {band : Priority} (hp : rq.popEdf band = some (t, rq')) :
    (rq'.tasksAt (.edf band) ++ [t]).Perm (rq.tasksAt (.edf band)) ∧
      OnlyAt rq rq' (.edf band) := by
  simp only [popEdf, Option.map_eq_some_iff, Prod.mk.injEq] at hp
  obtain ⟨entry, hlast, rfl, rfl⟩ := hp
  refine ⟨?_, onlyAt_setEdf h ..⟩
  obtain ⟨init, hinit⟩ := List.getLast?_eq_some_iff.mp hlast
  have hperm := BinaryHeap.popHeap_perm EdfEntry.before (rq.globalEdfHeaps band)
  rw [hinit] at hperm
  simpa [tasksAt, hinit] using hperm.map (·.task)

/-- A worker's queue with new containers, and links that differ at most where a local
task of that band is or was. -/
theorem onlyAt_setLocal (h : WellLinked rq) (links : ReadyLinks I) (w : Nat)
    (q : LocalContainers I) (band : Priority)
    (hbands : ∀ p, p ≠ band → q.lockedBands p = (rq.localQueues w).lockedBands p ∧
      q.chaseLevBands p = (rq.localQueues w).chaseLevBands p)
    (hlinks : ∀ l, l ≠ .localBand w band → ∀ u ∈ rq.tasksAt l,
      links.readyNext u.invoker = rq.links.readyNext u.invoker ∧
        links.readyIsExternal u.invoker = rq.links.readyIsExternal u.invoker) :
    OnlyAt rq ({ rq with links := links }.setLocal w q) (.localBand w band) := by
  have hfifo : ∀ p, _ := fun p =>
    fifo_congr h ({ rq with links := links }.setLocal w q) p rfl
      (fun u hu => (hlinks (.fifo p) (by simp) u hu).1)
      (fun u hu => (hlinks (.fifo p) (by simp) u hu).2)
  refine ⟨rfl, rfl, fun p => (hfifo p).1, fun l hl => ?_⟩
  cases l with
  | edf p => rfl
  | fifo p => exact (hfifo p).2
  | localBand v p =>
    by_cases hv : v = w
    · subst hv
      have hp : p ≠ band := by simpa using hl
      have hread := hlinks _ hl
      simp only [tasksAt, setLocal, Function.update_self, (hbands p hp).1,
        (hbands p hp).2] at hread ⊢
      cases hbackend : rq.localBackend with
      | locked => rfl
      | chaseLevLockFree =>
        rw [hbackend] at hread
        exact tasks_congr fun i hi => (hread (rq.links.task i) (List.mem_map_of_mem hi)).2
    · exact localBand_congr (Function.update_of_ne hv ..) rfl fun u hu => (hlinks _ hl u hu).2

section Effects
variable [DecidableEq I]

/-- What is written to an invoker of one container cannot be read in another. -/
theorem WellLinked.write_apart (h : WellLinked rq) (ht : t ∈ rq.tasksAt k) (hne : l ≠ k)
    (hu : u ∈ rq.tasksAt l) (next : Option I) (isExternal : Bool) :
    (rq.links.write t.invoker next isExternal).readyNext u.invoker =
        rq.links.readyNext u.invoker ∧
      (rq.links.write t.invoker next isExternal).readyIsExternal u.invoker =
        rq.links.readyIsExternal u.invoker :=
  ⟨Function.update_of_ne (h.apart hne hu ht) .., Function.update_of_ne (h.apart hne hu ht) ..⟩

theorem pushFifo_at (h : WellLinked rq) (ht : ∀ u ∈ rq.queued, u.invoker ≠ t.invoker)
    (band : Priority) :
    (rq.pushFifo t band).tasksAt (.fifo band) = rq.tasksAt (.fifo band) ++ [t] ∧
      OnlyAt rq (rq.pushFifo t band) (.fifo band) := by
  have hfresh : ∀ l, ∀ u ∈ rq.tasksAt l, u.invoker ≠ t.invoker :=
    fun l u hu => ht u (h.mem_queued hu)
  have hin : t.invoker ∉
      LinkedFifo.nodes rq.links.readyNext (rq.globalFifoQueues band) := fun hm =>
    hfresh (.fifo band) (rq.links.task t.invoker) (mem_fifo hm) rfl
  have hpush := (h.fifos band).pushBack (h.nodup_nodes band) hin
  have hflag : ∀ l, ∀ u ∈ rq.tasksAt l, (rq.pushFifo t band).links.readyIsExternal u.invoker =
      rq.links.readyIsExternal u.invoker :=
    fun l u hu => Function.update_of_ne (hfresh l u hu) ..
  have hself : (rq.pushFifo t band).globalFifoQueues band =
      (LinkedFifo.pushBack rq.links.readyNext (rq.globalFifoQueues band) t.invoker).2 :=
    Function.update_self ..
  have hnodes : LinkedFifo.nodes (rq.pushFifo t band).links.readyNext
      ((rq.pushFifo t band).globalFifoQueues band) =
      LinkedFifo.nodes rq.links.readyNext (rq.globalFifoQueues band) ++ [t.invoker] := by
    rw [hself]
    exact hpush.nodes_eq
  have hother : ∀ p, p ≠ band →
      Holds (rq.pushFifo t band).links.readyNext ((rq.pushFifo t band).globalFifoQueues p)
        (LinkedFifo.nodes (rq.pushFifo t band).links.readyNext
          ((rq.pushFifo t band).globalFifoQueues p)) ∧
      (rq.pushFifo t band).tasksAt (.fifo p) = rq.tasksAt (.fifo p) := by
    intro p hp
    refine fifo_congr h _ p (Function.update_of_ne hp ..) (fun u hu => ?_) (hflag _)
    refine (h.fifos band).pushBack_next (hfresh _ u hu) fun hm => ?_
    exact h.apart (k := .fifo p) (l := .fifo band) (by simpa using hp) hu (mem_fifo hm) rfl
  refine ⟨?_, rfl, rfl, fun p => ?_, fun l hl => ?_⟩
  · rw [tasksAt, tasksAt, hnodes, List.map_append]
    have hold : (LinkedFifo.nodes rq.links.readyNext (rq.globalFifoQueues band)).map
        (rq.pushFifo t band).links.task =
        (LinkedFifo.nodes rq.links.readyNext (rq.globalFifoQueues band)).map rq.links.task :=
      tasks_congr fun i hi => hflag (.fifo band) (rq.links.task i) (mem_fifo hi)
    have hnew : (rq.pushFifo t band).links.task t.invoker = t := by
      rw [ReadyLinks.task]
      exact congrArg (QueuedTask.mk t.invoker) (Function.update_self ..)
    rw [hold, List.map_singleton, hnew]
  · by_cases hp : p = band
    · subst hp
      rw [hnodes, hself]
      exact hpush
    · exact (hother p hp).1
  · cases l with
    | edf p => rfl
    | fifo p => exact (hother p (by simpa using hl)).2
    | localBand w p => exact localBand_congr rfl rfl (hflag _)

theorem popFifo_at (h : WellLinked rq) {band : Priority}
    (hp : rq.popFifo band = some (t, rq')) :
    rq.tasksAt (.fifo band) = t :: rq'.tasksAt (.fifo band) ∧ OnlyAt rq rq' (.fifo band) := by
  have hhold := h.fifos band
  have hnd := h.nodup_nodes band
  cases hraws : LinkedFifo.nodes rq.links.readyNext (rq.globalFifoQueues band) with
  | nil =>
    rw [hraws] at hhold
    simp [popFifo, IntrusiveFifo.popFront, hhold.popFront_nil] at hp
  | cons raw raws =>
    rw [hraws] at hhold hnd
    obtain ⟨q, hpop, hq⟩ := hhold.popFront_cons hnd
    simp only [popFifo, IntrusiveFifo.popFront, hpop, Option.map_some, Option.some.injEq,
      Prod.mk.injEq] at hp
    obtain ⟨rfl, rfl⟩ := hp
    have hraw : (⟨raw, rq.links.readyIsExternal raw⟩ : QueuedTask I) ∈
        rq.tasksAt (.fifo band) := mem_fifo (by rw [hraws]; simp)
    have hwrite : ∀ l, l ≠ .fifo band → ∀ u ∈ rq.tasksAt l, _ ∧ _ := fun l hl u hu =>
      h.write_apart hraw hl hu none false
    have hother : ∀ p, p ≠ band → _ := fun p hp =>
      fifo_congr h { rq with
          links := rq.links.write raw none false
          globalFifoQueues := Function.update rq.globalFifoQueues band q } p
        (Function.update_of_ne hp ..)
        (fun u hu => (hwrite (.fifo p) (by simpa using hp) u hu).1)
        (fun u hu => (hwrite (.fifo p) (by simpa using hp) u hu).2)
    refine ⟨?_, rfl, rfl, fun p => ?_, fun l hl => ?_⟩
    · simp only [tasksAt, hraws, Function.update_self, hq.nodes_eq, List.map_cons]
      refine congrArg (_ :: ·) (tasks_congr fun i hi => ?_).symm
      have hi' : i ≠ raw := by
        rintro rfl
        exact (List.nodup_cons.mp hnd).1 hi
      exact Function.update_of_ne hi' ..
    · by_cases hp : p = band
      · subst hp
        simpa only [Function.update_self, hq.nodes_eq] using hq
      · exact (hother p hp).1
    · cases l with
      | edf p => rfl
      | fifo p => exact (hother p (by simpa using hl)).2
      | localBand w p => exact localBand_congr rfl rfl fun u hu => (hwrite _ hl u hu).2

/-- A successful search has been successful at some band. -/
theorem firstClaim_band {α : Type} {claim : Priority → BandClaim α} {ps : List Priority} {a : α}
    (h : firstClaim claim ps = some a) : ∃ p, claim p = .success a := by
  induction ps with
  | nil => cases h
  | cons p ps ih =>
    unfold firstClaim at h
    cases hc : claim p with
    | success b =>
      rw [hc] at h
      obtain rfl : b = a := Option.some.inj h
      exact ⟨p, hc⟩
    | empty =>
      rw [hc] at h
      exact ih h
    | retry => simp [hc] at h

theorem BandClaim.ofOption_success {α : Type} {o : Option α} {a : α}
    (h : BandClaim.ofOption o = .success a) : o = some a := by
  cases o with
  | none => cases h
  | some b => rw [BandClaim.success.inj h]

theorem claimByCalendar_band {α : Type} {index index' : Nat} {claim : Priority → BandClaim α}
    {a : α} (h : claimByCalendar index claim = some (a, index')) :
    ∃ p, claim p = .success a := by
  simp only [claimByCalendar, Option.map_eq_some_iff, Prod.mk.injEq] at h
  obtain ⟨_, hfirst, rfl, -⟩ := h
  exact firstClaim_band hfirst

/-- A global claim takes one task out of one container of the claimed band. -/
theorem claimGlobalBandLocked_at (h : WellLinked rq) {band : Priority} {burst burst' : Nat}
    (hc : rq.claimGlobalBandLocked band burst = some (t, rq', burst')) :
    ∃ k ∈ globalPlaces, (rq'.tasksAt k ++ [t]).Perm (rq.tasksAt k) ∧ OnlyAt rq rq' k := by
  have hheap : ∀ {b}, (rq.popEdf band).map (fun p => (p.1, p.2, b)) =
      some (t, rq', burst') →
      ∃ k ∈ globalPlaces, (rq'.tasksAt k ++ [t]).Perm (rq.tasksAt k) ∧ OnlyAt rq rq' k := by
    intro b hb
    simp only [Option.map_eq_some_iff, Prod.mk.injEq, Prod.exists] at hb
    obtain ⟨_, _, hp, rfl, rfl, -⟩ := hb
    exact ⟨.edf band, edf_mem band, popEdf_at h hp⟩
  have hfifo : ∀ {b}, (rq.popFifo band).map (fun p => (p.1, p.2, b)) =
      some (t, rq', burst') →
      ∃ k ∈ globalPlaces, (rq'.tasksAt k ++ [t]).Perm (rq.tasksAt k) ∧ OnlyAt rq rq' k := by
    intro b hb
    simp only [Option.map_eq_some_iff, Prod.mk.injEq, Prod.exists] at hb
    obtain ⟨_, _, hp, rfl, rfl, -⟩ := hb
    obtain ⟨htasks, honly⟩ := popFifo_at h hp
    refine ⟨.fifo band, fifo_mem band, ?_, honly⟩
    rw [htasks]
    exact List.perm_append_singleton ..
  unfold claimGlobalBandLocked at hc
  split at hc
  · cases hc
  · split at hc
    · exact hheap hc
    · exact hfifo hc
  · exact hheap hc
  · exact hfifo hc

theorem claimGlobal_at (h : WellLinked rq) {index : Nat} {bursts bursts' : Priority → Nat}
    {c : Claimed I} (hc : rq.claimGlobal index bursts = some (c, bursts')) :
    ∃ k ∈ globalPlaces, (c.queues.tasksAt k ++ [c.out]).Perm (rq.tasksAt k) ∧
      OnlyAt rq c.queues k := by
  simp only [claimGlobal, Option.map_eq_some_iff, Prod.mk.injEq, Prod.exists] at hc
  obtain ⟨out, rq', _, _, hcal, rfl, -⟩ := hc
  obtain ⟨band, hband⟩ := claimByCalendar_band hcal
  replace hband := BandClaim.ofOption_success hband
  simp only [Option.map_eq_some_iff, Prod.mk.injEq, Prod.exists] at hband
  obtain ⟨_, _, _, hclaim, rfl, rfl, -⟩ := hband
  obtain ⟨k, hk, hperm, honly⟩ := claimGlobalBandLocked_at h hclaim
  exact ⟨k, hk, hperm, honly.countClaim⟩

/-! ## The local containers -/

theorem pushLocal_at (h : WellLinked rq) (ht : ∀ u ∈ rq.queued, u.invoker ≠ t.invoker)
    (hp : rq.pushLocal w t p = (rq', true)) :
    rq'.tasksAt (.localBand w p) = rq.tasksAt (.localBand w p) ++ [t] ∧
      OnlyAt rq rq' (.localBand w p) := by
  have hwrite : ∀ l, ∀ u ∈ rq.tasksAt l, _ ∧ _ := fun l u hu =>
    (⟨Function.update_of_ne (ht u (h.mem_queued hu)) ..,
      Function.update_of_ne (ht u (h.mem_queued hu)) ..⟩ :
      (rq.links.write t.invoker none t.isExternal).readyNext u.invoker = _ ∧
        (rq.links.write t.invoker none t.isExternal).readyIsExternal u.invoker = _)
  unfold pushLocal at hp
  split at hp
  case h_1 hbackend =>
    obtain rfl := (Prod.mk.inj hp).1
    refine ⟨by simp [tasksAt, setLocal, hbackend], ?_⟩
    refine onlyAt_setLocal h rq.links w _ p (fun p hp => ⟨?_, rfl⟩) fun _ _ _ _ => ⟨rfl, rfl⟩
    exact Function.update_of_ne hp ..
  case h_2 hbackend =>
    by_cases hroom : (rq.localQueues w).room p = some 0
    · simp [hroom] at hp
    rw [if_neg hroom] at hp
    obtain rfl := (Prod.mk.inj hp).1
    refine ⟨?_, ?_⟩
    · have hread := hwrite (.localBand w p)
      simp only [tasksAt, setLocal, hbackend, Function.update_self, List.map_append,
        List.map_singleton] at hread ⊢
      refine congrArg₂ (· ++ ·) ?_ ?_
      · exact tasks_congr fun i hi => (hread (rq.links.task i) (List.mem_map_of_mem hi)).2
      · simp [ReadyLinks.task, ReadyLinks.write]
    · refine onlyAt_setLocal h _ w _ p (fun p hp => ⟨?_, ?_⟩) fun l _ => hwrite l
      · rfl
      · exact Function.update_of_ne hp ..

/-- The links a push leaves behind when the ring cannot grow belong to the task alone. -/
theorem pushLocal_failed (h : WellLinked rq) (ht : ∀ u ∈ rq.queued, u.invoker ≠ t.invoker)
    (hp : rq.pushLocal w t p = (rq', false)) :
    rq'.workerCount = rq.workerCount ∧ rq'.localBackend = rq.localBackend ∧
      (∀ l, rq'.tasksAt l = rq.tasksAt l) ∧
      ∀ p, Holds rq'.links.readyNext (rq'.globalFifoQueues p)
        (LinkedFifo.nodes rq'.links.readyNext (rq'.globalFifoQueues p)) := by
  unfold pushLocal at hp
  split at hp
  · cases hp
  by_cases hroom : (rq.localQueues w).room p = some 0
  case neg => simp [hroom] at hp
  rw [if_pos hroom] at hp
  obtain rfl := (Prod.mk.inj hp).1
  have hne : ∀ l, ∀ u ∈ rq.tasksAt l, u.invoker ≠ t.invoker := fun l u hu =>
    ht u (h.mem_queued hu)
  have hfifo : ∀ p, _ := fun p =>
    fifo_congr h { rq with links := rq.links.write t.invoker none t.isExternal } p rfl
      (fun u hu => Function.update_of_ne (hne _ u hu) ..)
      (fun u hu => Function.update_of_ne (hne _ u hu) ..)
  refine ⟨rfl, rfl, fun l => ?_, fun p => (hfifo p).1⟩
  cases l with
  | edf p => rfl
  | fifo p => exact (hfifo p).2
  | localBand v p =>
    exact localBand_congr rfl rfl fun u hu => Function.update_of_ne (hne _ u hu) ..

theorem takeEnd_perm {α : Type} {fromBack : Bool} {xs rest : List α} {a : α}
    (h : takeEnd fromBack xs = some (a, rest)) : (rest ++ [a]).Perm xs := by
  cases fromBack with
  | true =>
    simp only [takeEnd, ↓reduceIte, Option.map_eq_some_iff, Prod.mk.injEq] at h
    obtain ⟨_, hlast, rfl, rfl⟩ := h
    obtain ⟨init, rfl⟩ := List.getLast?_eq_some_iff.mp hlast
    simp
  | false =>
    cases xs with
    | nil => cases h
    | cons x xs =>
      cases h
      exact List.perm_append_singleton ..

/-- A local claim takes one task out of one band of the worker. -/
theorem claimEnd_at (h : WellLinked rq) {index : Nat} {owner : Bool}
    {contended : Priority → Bool} {c : Claimed I}
    (hc : rq.claimEnd w index owner contended = some c) :
    ∃ p, (c.queues.tasksAt (.localBand w p) ++ [c.out]).Perm (rq.tasksAt (.localBand w p)) ∧
      OnlyAt rq c.queues (.localBand w p) := by
  unfold claimEnd at hc
  split at hc
  case h_1 hbackend =>
    simp only [Option.map_eq_some_iff, Prod.exists] at hc
    obtain ⟨out, links, bands, _, hcal, rfl⟩ := hc
    obtain ⟨p, hband⟩ := claimByCalendar_band hcal
    split at hband
    · cases hband
    have htake := BandClaim.ofOption_success hband
    simp only [Option.map_eq_some_iff, Prod.mk.injEq, Prod.exists] at htake
    obtain ⟨raw, rest, htake, rfl, rfl, rfl⟩ := htake
    have hperm := takeEnd_perm htake
    have hraw : rq.links.task raw ∈ rq.tasksAt (.localBand w p) := by
      simp only [tasksAt, hbackend]
      exact List.mem_map_of_mem (hperm.subset (by simp))
    refine ⟨p, ?_, ?_⟩
    · have hnd := h.nodup_at (.localBand w p)
      simp only [tasksAt, hbackend, List.map_map] at hnd
      have hnd' : (rest ++ [raw]).Nodup :=
        hperm.nodup_iff.mpr (by simpa [Function.comp_def, ReadyLinks.task] using hnd)
      have hrest : rest.map (rq.links.write raw none false).task = rest.map rq.links.task := by
        refine tasks_congr fun i hi => Function.update_of_ne ?_ ..
        rintro rfl
        exact (List.nodup_append.mp hnd').2.2 i hi i (by simp) rfl
      have hmap := hperm.map rq.links.task
      rw [List.map_append] at hmap
      simpa [tasksAt, setLocal, hbackend, hrest, ReadyLinks.task] using hmap
    · refine onlyAt_setLocal h _ w _ p (fun q hq => ⟨?_, ?_⟩) fun l hl u hu =>
        h.write_apart hraw hl hu none false
      · rfl
      · exact Function.update_of_ne hq ..
  case h_2 hbackend =>
    simp only [Option.map_eq_some_iff, Prod.exists] at hc
    obtain ⟨out, bands, _, hcal, rfl⟩ := hc
    obtain ⟨p, hband⟩ := claimByCalendar_band hcal
    have htake := BandClaim.ofOption_success hband
    simp only [Option.map_eq_some_iff, Prod.mk.injEq, Prod.exists] at htake
    obtain ⟨_, rest, htake, rfl, rfl⟩ := htake
    refine ⟨p, ?_, ?_⟩
    · simpa [tasksAt, setLocal, hbackend] using takeEnd_perm htake
    · refine onlyAt_setLocal h rq.links w _ p (fun q hq => ⟨?_, ?_⟩) fun _ _ _ _ => ⟨rfl, rfl⟩
      · exact Function.update_of_ne hq ..
      · rfl

theorem claimFrom_at (h : WellLinked rq) {index : Nat} {owner : Bool}
    {contended : Priority → Bool} {c : Claimed I}
    (hc : rq.claimFrom w index owner contended = some c) :
    ∃ k ∈ localPlaces rq.workerCount,
      (c.queues.tasksAt k ++ [c.out]).Perm (rq.tasksAt k) ∧ OnlyAt rq c.queues k := by
  unfold claimFrom at hc
  split at hc
  case isFalse => cases hc
  case isTrue hw =>
    obtain ⟨c, hclaim, rfl⟩ := Option.map_eq_some_iff.mp hc
    obtain ⟨p, hperm, honly⟩ := claimEnd_at h hclaim
    exact ⟨.localBand w p, localBand_mem p hw, hperm, honly.countClaim⟩

end Effects

/-! ## What leaves every task where it is -/

theorem tasksAt_ringRoom (rq : LinkedReadyQueues I) (w : Nat) (band : Priority)
    (room : Option Nat) (k : QueuePlace) :
    (ringRoom rq w band room).tasksAt k = rq.tasksAt k := by
  cases k with
  | edf p => rfl
  | fifo p => rfl
  | localBand v p =>
    by_cases hv : v = w
    · subst hv
      simp [tasksAt, ringRoom, setLocal]
    · simp [tasksAt, ringRoom, setLocal, Function.update_of_ne hv]

/-- Two states of the queues with the same links and the same tasks everywhere. -/
theorem wellLinked_congr (h : WellLinked rq) (rq' : LinkedReadyQueues I)
    (hcount : rq'.workerCount = rq.workerCount) (hlinks : rq'.links = rq.links)
    (hfifos : rq'.globalFifoQueues = rq.globalFifoQueues)
    (htasks : ∀ k, rq'.tasksAt k = rq.tasksAt k) :
    WellLinked rq' ∧ rq'.queuedGlobal = rq.queuedGlobal ∧ rq'.queuedLocal = rq.queuedLocal := by
  have hglobal : rq'.queuedGlobal = rq.queuedGlobal := by
    rw [queuedGlobal, queuedGlobal]
    exact List.flatMap_congr fun k _ => htasks k
  have hlocal : rq'.queuedLocal = rq.queuedLocal := by
    rw [queuedLocal, queuedLocal, hcount]
    exact List.flatMap_congr fun k _ => htasks k
  refine ⟨⟨?_, ?_, fun w p hw => ?_⟩, hglobal, hlocal⟩
  · rw [hlinks, hfifos]
    exact h.fifos
  · rw [queued, hglobal, hlocal]
    exact h.nodup
  · rw [htasks]
    exact h.outside w p (hcount ▸ hw)

theorem wellLinked_init (backend : LocalDequeBackend) (n : Nat) :
    let rq : LinkedReadyQueues I := { localBackend := backend, workerCount := n }
    WellLinked rq ∧ rq.queuedGlobal = [] ∧ rq.queuedLocal = [] := by
  intro rq
  have htasks : ∀ k, rq.tasksAt k = [] := by
    intro k
    cases k with
    | edf p => rfl
    | fifo p => rfl
    | localBand w p => cases backend <;> rfl
  have hglobal : rq.queuedGlobal = [] := List.flatMap_eq_nil_iff.mpr fun k _ => htasks k
  have hlocal : rq.queuedLocal = [] := List.flatMap_eq_nil_iff.mpr fun k _ => htasks k
  refine ⟨⟨fun p => LinkedFifo.holds_empty, ?_, fun w p _ => htasks _⟩, hglobal, hlocal⟩
  rw [queued, hglobal, hlocal]
  exact List.nodup_nil

end LinkedReadyQueues
end AstraScheduler
