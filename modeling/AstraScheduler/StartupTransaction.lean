import AstraScheduler.Startup

/-! # A construction that throws leaves nothing behind

The invariant of a construction, kept by every step but a failure in front of the `try`
block: the entries of the others are what they would be without the construction, its own
entry is there at most once and only between `register_runtime` and the rollback, and the
rollback waits at the gate until every worker has been joined. -/

namespace AstraScheduler.Startup
open Transition (Machine)
open Threads (countP_set)
open ReaperRegistry (Registry HandoffCapabilitySlot updateSlot takeReady)
open ShutdownGate (Runtime CallKind)

namespace Pc

/-- Where the registry may hold an entry of the runtime. -/
def registered : Pc → Bool
  | .registerInstance | .testOpen | .register | .unregisterInstance _ | .threw _ => false
  | _ => true

/-- Where the instance table may hold one. -/
def listed : Pc → Bool
  | .registerInstance | .threw _ => false
  | _ => true

/-- Before the first worker. -/
def early : Pc → Bool
  | .registerInstance | .testOpen | .register | .attach | .reserve => true
  | _ => false

/-- Past the joins of the rollback, or without any. -/
def finished : Pc → Bool
  | .unregister _ | .unregisterInstance _ | .threw _ => true
  | _ => false

end Pc

/-- A worker that has taken itself off `active_workers`. -/
def Worker.gone : Worker → Bool
  | .notifying | .exited => true
  | _ => false

/-- The slots of the runtime itself. -/
def Construction.own {κ ρ : Type} (s : Construction κ ρ) : List (HandoffCapabilitySlot κ ρ) :=
  slotsOf (only s.id) s.registry.slots

variable {κ ρ : Type}

/-- The tables: what is there without the runtime, and one entry of it at most. -/
structure TablesOk (s : Construction κ ρ) : Prop where
  slots : s.others.slots = slotsOf (but s.id) s.registry.slots
  ids : s.others.registeredIds = idsBut s.id s.registry.registeredIds
  instances : s.others.instances = unregisterInstance s.instances s.id
  stop : s.registry.coordinatorStop = false
  once : s.own.length ≤ 1
  idOnce : s.registry.registeredIds.count s.id.value ≤ 1

/-- Before the first worker nobody has anything to join. -/
structure Early (s : Construction κ ρ) : Prop where
  workers : s.workers = []
  gate : s.gate = none
  taken : s.taken = false
  ready : ∀ t ∈ s.own, t.joinReady = false

/-- While worker `i` is to be created: `active_workers` counts the workers that are not gone
and those still to come, so as long as some are to come nobody has notified the Reaper. -/
structure Creating (s : Construction κ ρ) (i : Nat) : Prop where
  length : s.workers.length = i
  le : i ≤ s.count
  counted : s.activeWorkers + s.workers.countP Worker.gone = s.count
  late : (.notifying ∈ s.workers ∨ (∃ t ∈ s.own, t.joinReady = true) ∨ s.taken = true) →
    s.activeWorkers = 0
  fixed : s.gate.isSome → i = s.count

/-- The gate of `reaper_cleanup_and_join`. -/
structure GateOk (s : Construction κ ρ) (r : Runtime) : Prop where
  inv : ShutdownGate.Inv r
  workers : r.workers = s.workers.length
  exited : ∀ k ∈ r.exited, s.workers[k]? = some .exited
  joined : ∀ k ∈ r.joins.map (·.2), k ∈ r.exited

structure Inv (s : Construction κ ρ) : Prop where
  tables : TablesOk s
  absent : s.pc.registered = false → s.own = [] ∧ s.id.value ∉ s.registry.registeredIds
  unlisted : s.pc.listed = false → s.id ∉ s.instances
  entered : s.pc = .attach ∨ s.pc = .reserve → s.own ≠ []
  early : s.pc.early = true → Early s
  reserving : s.pc = .reserve → s.activeWorkers = s.count
  creating : ∀ i, s.pc = .create i → Creating s i
  gate : ∀ r, s.gate = some r → GateOk s r
  cleaning : ∀ cause c, s.pc = .cleaning cause c → ∃ r call, s.gate = some r ∧
    r.calls[c]? = some call ∧ call.kind = .reaperCleanupAndJoin
  finished : s.pc.finished = true → ∀ w ∈ s.workers, w = .exited

section
variable {s s' : Construction κ ρ}

/-- **What the transaction promises, from the invariant.** -/
theorem Inv.transactional (h : Inv s) : s.Transactional := by
  intro cause hpc
  obtain ⟨hown, hid⟩ := h.absent (by rw [hpc]; rfl)
  have hnot : ∀ t ∈ s.registry.slots, t.runtimeId ≠ s.id := by
    intro t ht heq
    have : t ∈ s.own := mem_slotsOf_only.mpr ⟨ht, heq⟩
    rw [hown] at this
    cases this
  refine ⟨?_, ?_, ?_, h.finished (by rw [hpc]; rfl)⟩
  · rw [h.tables.slots, slotsOf_but_eq hnot]
  · rw [h.tables.ids, idsBut_eq hid]
  · rw [h.tables.instances]
    refine (List.filter_eq_self.mpr fun i hi => ?_).symm
    simp only [decide_eq_true_eq]
    rintro rfl
    exact h.unlisted (by rw [hpc]; rfl) hi

/-- Steps that touch neither the tables nor the workers nor the gate. -/
structure SameTables (s s' : Construction κ ρ) : Prop where
  id : s'.id = s.id
  registry : s'.registry = s.registry
  instances : s'.instances = s.instances
  others : s'.others = s.others
  workers : s'.workers = s.workers
  gate : s'.gate = s.gate
  taken : s'.taken = s.taken

theorem SameTables.own (e : SameTables s s') : s'.own = s.own := by
  simp only [Construction.own, e.id, e.registry]

theorem SameTables.tablesOk (e : SameTables s s') (h : TablesOk s) : TablesOk s' where
  slots := by rw [e.others, e.id, e.registry]; exact h.slots
  ids := by rw [e.others, e.id, e.registry]; exact h.ids
  instances := by rw [e.others, e.id, e.instances]; exact h.instances
  stop := by rw [e.registry]; exact h.stop
  once := by rw [e.own]; exact h.once
  idOnce := by rw [e.registry, e.id]; exact h.idOnce

theorem SameTables.early (e : SameTables s s') (h : Early s) : Early s' where
  workers := e.workers.trans h.workers
  gate := e.gate.trans h.gate
  taken := e.taken.trans h.taken
  ready := by rw [e.own]; exact h.ready

/-- The gate does not look at anything but the workers. -/
theorem GateOk.of_workers {r : Runtime} (h : GateOk s r) (hw : s'.workers = s.workers) :
    GateOk s' r :=
  ⟨h.inv, by rw [hw]; exact h.workers, by rw [hw]; exact h.exited, h.joined⟩

/-- Only the constructor moves on. -/
theorem Inv.move (h : Inv s) (e : SameTables s s')
    (habsent : s'.pc.registered = false → s.pc.registered = false)
    (hlisted : s'.pc.listed = false → s.pc.listed = false)
    (hentered : s'.pc = .attach ∨ s'.pc = .reserve → s.pc = .attach ∨ s.pc = .reserve)
    (hearly : s'.pc.early = true → s.pc.early = true)
    (hreserving : s'.pc = .reserve → s'.activeWorkers = s'.count)
    (hcreating : ∀ i, s'.pc = .create i → Creating s' i)
    (hcleaning : ∀ cause c, s'.pc ≠ .cleaning cause c)
    (hfinished : s'.pc.finished = true → ∀ w ∈ s.workers, w = .exited) : Inv s' where
  tables := e.tablesOk h.tables
  absent hpc := by
    rw [e.own, e.id, e.registry]
    exact h.absent (habsent hpc)
  unlisted hpc := by
    rw [e.id, e.instances]
    exact h.unlisted (hlisted hpc)
  entered hpc := by
    rw [e.own]
    exact h.entered (hentered hpc)
  early hpc := e.early (h.early (hearly hpc))
  reserving := hreserving
  creating := hcreating
  gate r hr := (h.gate r (e.gate ▸ hr)).of_workers e.workers
  cleaning cause c hpc := absurd hpc (hcleaning cause c)
  finished hpc := by
    rw [e.workers]
    exact hfinished hpc

/-! ## The gate -/

/-- The gate, or a new one. -/
theorem Inv.gateOk (h : Inv s) : GateOk s (s.gate.getD (Runtime.started s.workers.length)) := by
  cases hg : s.gate with
  | some r => exact h.gate r hg
  | none => exact ⟨ShutdownGate.inv_started _, rfl, nofun, nofun⟩

theorem GateOk.call {r : Runtime} (h : GateOk s r) (kind : CallKind) :
    GateOk s { r with calls := r.calls ++ [⟨kind, kind.start⟩] } :=
  ⟨h.inv.step (a := .call kind) rfl, h.workers, h.exited, h.joined⟩

theorem GateOk.step {r r' : Runtime} {c : Nat} {spurious : Bool} (h : GateOk s r)
    (hs : r.next (.step c spurious) = some r') : GateOk s r' := by
  obtain ⟨d, hd, hstep⟩ := Option.bind_eq_some_iff.mp hs
  obtain ⟨-, hworkers, hexited, hjoins⟩ := Runtime.callStep_frame hstep
  refine ⟨h.inv.step hs, hworkers.trans h.workers, hexited ▸ h.exited, fun k hk => ?_⟩
  rw [hexited]
  rcases hjoins k hk with hk | hk
  · exact h.joined k hk
  · exact hk

/-- Stopped has been published: every worker has been joined, so it has gone. -/
theorem GateOk.allExited {r : Runtime} (h : GateOk s r) (hp : r.publications ≠ []) :
    ∀ w ∈ s.workers, w = .exited := by
  intro w hw
  obtain ⟨k, hk⟩ := List.mem_iff_getElem?.mp hw
  have hlt : k < r.workers := h.workers ▸ (List.getElem?_eq_some_iff.mp hk).1
  have hexited := h.exited k (h.joined k ((h.inv.shared.published hp).1 k hlt))
  exact Option.some.inj (hk.symm.trans hexited)

/-! ## The constructor -/

/-- Every worker past the creation: nothing more is known of a construction that runs. -/
theorem Inv.late (h : Inv s) (e : SameTables s s')
    (hpc : s'.pc = .await ∨ s'.pc = .publish ∨ s'.pc = .returned ∨
      (∃ cause, s'.pc = .rollback cause) ∨ ∃ cause, s'.pc = .cleanup cause) : Inv s' := by
  have hcases : s'.pc.registered = true ∧ s'.pc.listed = true ∧ s'.pc.early = false ∧
      s'.pc.finished = false ∧ (∀ i, s'.pc ≠ .create i) ∧
      (∀ cause c, s'.pc ≠ .cleaning cause c) ∧ ¬ (s'.pc = .attach ∨ s'.pc = .reserve) := by
    rcases hpc with hpc | hpc | hpc | ⟨cause, hpc⟩ | ⟨cause, hpc⟩ <;> rw [hpc] <;>
      exact ⟨rfl, rfl, rfl, rfl, nofun, nofun, by simp⟩
  obtain ⟨h1, h2, h3, h4, h5, h6, h7⟩ := hcases
  exact h.move e (by simp [h1]) (by simp [h2]) (fun hpc => absurd hpc h7) (by simp [h3])
    (fun hpc => absurd (.inr hpc) h7) (fun i hi => absurd hi (h5 i)) h6 (by simp [h4])

theorem Inv.registerInstance (h : Inv s) (hpc : s.pc = .registerInstance) :
    Inv { s with
      instances := Startup.registerInstance s.instances s.id, pc := .testOpen } where
  tables :=
    { slots := h.tables.slots, ids := h.tables.ids, stop := h.tables.stop, once := h.tables.once,
      idOnce := h.tables.idOnce
      instances := by
        rw [show s.others.instances = _ from h.tables.instances]
        simp [Startup.registerInstance, unregisterInstance, List.filter_append,
          List.filter_filter] }
  absent _ := h.absent (by rw [hpc]; rfl)
  unlisted := nofun
  entered := by simp
  early _ := by
    have := h.early (by rw [hpc]; rfl)
    exact ⟨this.workers, this.gate, this.taken, this.ready⟩
  reserving := nofun
  creating := nofun
  gate r hr := (h.gate r hr).of_workers rfl
  cleaning := nofun
  finished := nofun

theorem Inv.register {slot : HandoffCapabilitySlot κ ρ} {registry : Registry κ ρ} (h : Inv s)
    (hpc : s.pc = .register) (hslots : registry.slots = s.registry.slots ++ [slot])
    (hid : slot.runtimeId = s.id) (hready : slot.joinReady = false)
    (hids : registry.registeredIds = s.registry.registeredIds ++ [s.id.value])
    (hstop : registry.coordinatorStop = false) :
    Inv { s with registry := registry, pc := .attach } := by
  obtain ⟨hown, hnot⟩ := h.absent (by rw [hpc]; rfl)
  have hearly := h.early (by rw [hpc]; rfl)
  have hown' : ({ s with registry := registry, pc := .attach } : Construction κ ρ).own = [slot] := by
    simp only [Construction.own] at hown ⊢
    rw [hslots, slotsOf_append, hown, slotsOf_cons_pos (by simp [only, hid])]
    rfl
  refine
    { tables := ⟨?_, ?_, h.tables.instances, hstop, by rw [hown']; rfl, ?_⟩,
      absent := (fun hno => by cases hno),
      unlisted := (fun hno => by cases hno), entered := fun _ => by simp [hown'],
      early := fun _ => ?_,
      reserving := (fun hno => by cases hno), creating := (fun _ hno => by cases hno),
      gate := fun r hr => (h.gate r hr).of_workers rfl, cleaning := (fun _ _ hno => by cases hno),
      finished := (fun hno => by cases hno) }
  · rw [hslots, slotsOf_append, slotsOf_cons_neg (by simp [but, hid])]
    exact h.tables.slots.trans (List.append_nil _).symm
  · rw [hids, idsBut, List.filter_append]
    exact h.tables.ids.trans (by simp [idsBut])
  · rw [hids, List.count_append, List.count_eq_zero.mpr hnot]
    simp
  · refine ⟨hearly.workers, hearly.gate, hearly.taken, fun t ht => ?_⟩
    rw [hown'] at ht
    rw [List.mem_singleton.mp ht]
    exact hready

theorem Inv.unregister {cause : Failure} (h : Inv s) (hpc : s.pc = .unregister cause) :
    Inv { s with
      registry := s.registry.unregisterRuntime s.id, pc := .unregisterInstance cause } := by
  have hown : slotsOf (only s.id) (s.registry.unregisterRuntime s.id).slots = [] := by
    refine (slotsOf_eraseP s.registry.slots).trans ?_
    rw [if_pos (by simp [only])]
    have honce := h.tables.once
    have hall : ∀ t ∈ s.own, t.runtimeId = s.id := fun t ht => (mem_slotsOf_only.mp ht).2
    change s.own.eraseP _ = []
    rcases hs : s.own with _ | ⟨t, _ | ⟨t', ts⟩⟩
    · rfl
    · rw [hs] at hall
      rw [List.eraseP_cons_of_pos (by simpa using hall t List.mem_cons_self)]
    · rw [hs] at honce
      simp at honce
  have hids : s.id.value ∉ s.registry.registeredIds.erase s.id.value := by
    rw [← List.count_eq_zero, List.count_erase_self]
    have := h.tables.idOnce
    omega
  refine
    { tables := ⟨?_, ?_, h.tables.instances, h.tables.stop, ?_, ?_⟩, absent := fun _ => ⟨hown, hids⟩,
      unlisted := (fun hno => by cases hno), entered := by simp,
      early := (fun hno => by cases hno), reserving := (fun hno => by cases hno),
      creating := (fun _ hno => by cases hno),
      gate := fun r hr => (h.gate r hr).of_workers rfl, cleaning := (fun _ _ hno => by cases hno),
      finished := fun _ => h.finished (by rw [hpc]; rfl) }
  · refine h.tables.slots.trans ?_
    exact ((slotsOf_eraseP s.registry.slots).trans (if_neg (by simp [but]))).symm
  · exact h.tables.ids.trans (idsBut_erase_self _).symm
  · simp only [Construction.own]
    rw [hown]
    exact Nat.zero_le _
  · simp only [Registry.unregisterRuntime, List.count_eq_zero.mpr hids]
    exact Nat.zero_le _

theorem Inv.unregisterInstance {cause : Failure} (h : Inv s)
    (hpc : s.pc = .unregisterInstance cause) :
    Inv { s with
      instances := Startup.unregisterInstance s.instances s.id, pc := .threw cause } where
  tables :=
    { slots := h.tables.slots, ids := h.tables.ids, stop := h.tables.stop, once := h.tables.once,
      idOnce := h.tables.idOnce
      instances := by
        rw [show s.others.instances = _ from h.tables.instances]
        simp [Startup.unregisterInstance, List.filter_filter] }
  absent _ := h.absent (by rw [hpc]; rfl)
  unlisted _ := by simp [Startup.unregisterInstance]
  entered := by simp
  early := nofun
  reserving := nofun
  creating := nofun
  gate r hr := (h.gate r hr).of_workers rfl
  cleaning := nofun
  finished _ := h.finished (by rw [hpc]; rfl)

/-- The constructor creates worker `i`. -/
theorem Creating.create {i : Nat} (h : Creating s i) (hlt : i < s.count) :
    Creating { s with workers := s.workers ++ [.starting], pc := .create (i + 1) } (i + 1) where
  length := by simp [h.length]
  le := hlt
  counted := by
    rw [← h.counted]
    simp [Worker.gone]
  late hl := h.late (hl.imp_left fun hw => by simpa using hw)
  fixed hg := by
    have := h.fixed hg
    omega

/-- **Every step of the constructor inside the `try` block, and in front of it every one that
does not fail.** -/
theorem Inv.construct {fails : Bool} (h : Inv s) (hok : s.InsideTry (.construct fails))
    (hs : s.construct fails = some s') : Inv s' := by
  have hsame : ∀ {s' : Construction κ ρ} {a : Nat} {b c d : Bool} {pc : Pc},
      s' = { s with
        activeWorkers := a, startupFailed := b, stopRequested := c, startupDone := d, pc := pc } →
      SameTables s s' := by
    rintro _ a b c d pc rfl
    exact ⟨rfl, rfl, rfl, rfl, rfl, rfl, rfl⟩
  have hnoworker : s.pc.early = true → ∀ w ∈ s.workers, w = .exited := by
    intro hearly w hw
    rw [(h.early hearly).workers] at hw
    cases hw
  cases hpc : s.pc <;> simp only [Construction.construct, hpc] at hs
  case registerInstance =>
    obtain rfl := Option.some.inj hs
    exact h.registerInstance hpc
  case testOpen =>
    split at hs <;> obtain rfl := Option.some.inj hs
    · exact h.move (hsame rfl) (by rw [hpc]; exact fun h => h) (fun hno => by cases hno) (by simp)
        (by rw [hpc]; exact fun h => h) (fun hno => by cases hno) (fun _ hno => by cases hno)
        (fun _ _ hno => by cases hno) (fun hno => by cases hno)
    · exact h.move (hsame rfl) (by rw [hpc]; exact fun h => h) (fun hno => by cases hno) (by simp)
        (fun hno => by cases hno) (fun hno => by cases hno) (fun _ hno => by cases hno)
        (fun _ _ hno => by cases hno) fun _ => hnoworker (by rw [hpc]; rfl)
  case register =>
    obtain ⟨hslots, hids, hstop⟩ := registerRuntime_tables s.registry s.id
      (some s.requestGraceful) (some s.requestImmediate) (some s.cleanupFn)
    split at hs <;> obtain rfl := Option.some.inj hs
    · rename_i hreg
      have hopen : s.registry.state = .opened := by
        by_contra hno
        simp [Registry.registerRuntime, hno] at hreg
      rw [if_pos hopen] at hslots hids
      exact h.register hpc hslots rfl rfl hids (hstop h.tables.stop)
    · exact h.move (hsame rfl) (by rw [hpc]; exact fun h => h) (fun hno => by cases hno) (by simp)
        (fun hno => by cases hno) (fun hno => by cases hno) (fun _ hno => by cases hno)
        (fun _ _ hno => by cases hno) fun _ => hnoworker (by rw [hpc]; rfl)
  case attach =>
    split at hs
    · rename_i hfail
      -- outside the `try` block nothing would take the registration back
      obtain ⟨hcollector, rfl⟩ := hfail
      rw [hok.1 hpc] at hcollector
      cases hcollector
    · obtain rfl := Option.some.inj hs
      exact h.move (hsame rfl) (fun hno => by cases hno) (fun hno => by cases hno)
        (fun _ => .inl hpc) (by rw [hpc]; exact fun h => h)
        (fun _ => rfl) (fun _ hno => by cases hno) (fun _ _ hno => by cases hno)
        (fun hno => by cases hno)
  case reserve =>
    split at hs
    · rename_i hfail
      -- the same holds of the reservation
      rw [hfail] at hok
      exact absurd hpc hok.2
    · obtain rfl := Option.some.inj hs
      have hearly := h.early (by rw [hpc]; rfl)
      refine h.move (hsame rfl) (fun hno => by cases hno) (fun hno => by cases hno) (by simp)
        (fun hno => by cases hno) (fun hno => by cases hno) ?_ (fun _ _ hno => by cases hno)
        (fun hno => by cases hno)
      intro i hi
      obtain rfl := Pc.create.inj hi
      refine ⟨by simp [hearly.workers], Nat.zero_le _, ?_, ?_, ?_⟩
      · simp [hearly.workers, h.reserving hpc]
      · rintro (hw | ⟨t, ht, hready⟩ | htaken)
        · simp [hearly.workers] at hw
        · rw [hearly.ready t ht] at hready
          cases hready
        · cases hearly.taken.symm.trans htaken
      · intro hg
        simp [hearly.gate] at hg
  case create i =>
    have hcreating := h.creating i hpc
    split at hs
    · rename_i hlt
      split at hs <;> obtain rfl := Option.some.inj hs
      -- a thread that cannot be created sends the constructor to its rollback
      · exact h.late (hsame rfl) (.inr (.inr (.inr (.inl ⟨_, rfl⟩))))
      · have hnogate : s.gate = none := by
          cases hg : s.gate with
          | none => rfl
          | some r =>
            have := hcreating.fixed (by rw [hg]; rfl)
            omega
        refine
          { tables := ⟨h.tables.slots, h.tables.ids, h.tables.instances, h.tables.stop,
              h.tables.once, h.tables.idOnce⟩
            absent := (fun hno => by cases hno), unlisted := (fun hno => by cases hno),
            entered := by simp, early := (fun hno => by cases hno),
            reserving := (fun hno => by cases hno),
            creating := ?_, gate := ?_, cleaning := (fun _ _ hno => by cases hno),
            finished := (fun hno => by cases hno) }
        · intro j hj
          obtain rfl := Pc.create.inj hj
          exact hcreating.create hlt
        · intro r hr
          cases hnogate.symm.trans hr
    · obtain rfl := Option.some.inj hs
      exact h.late (hsame rfl) (.inl rfl)
  case await =>
    split at hs
    · split at hs <;> obtain rfl := Option.some.inj hs
      · exact h.late (hsame rfl) (.inr (.inl rfl))
      · exact h.late (hsame rfl) (.inr (.inr (.inr (.inl ⟨_, rfl⟩))))
    · cases hs
  case publish =>
    obtain rfl := Option.some.inj hs
    exact h.late (hsame rfl) (.inr (.inr (.inl rfl)))
  case rollback cause =>
    obtain rfl := Option.some.inj hs
    exact h.late (hsame rfl) (.inr (.inr (.inr (.inr ⟨_, rfl⟩))))
  case cleanup cause =>
    obtain rfl := Option.some.inj hs
    refine
      { tables := ⟨h.tables.slots, h.tables.ids, h.tables.instances, h.tables.stop,
          h.tables.once, h.tables.idOnce⟩
        absent := (fun hno => by cases hno), unlisted := (fun hno => by cases hno),
        entered := by simp, early := (fun hno => by cases hno),
        reserving := (fun hno => by cases hno),
        creating := (fun _ hno => by cases hno), gate := ?_, cleaning := ?_,
        finished := (fun hno => by cases hno) }
    · intro r hr
      obtain rfl := Option.some.inj hr
      exact (h.gateOk.call .reaperCleanupAndJoin).of_workers rfl
    · intro cause' c hc
      obtain ⟨rfl, rfl⟩ := Pc.cleaning.inj hc
      exact ⟨_, _, rfl, List.getElem?_concat_length, rfl⟩
  case cleaning cause c =>
    split at hs
    · rename_i hret
      obtain rfl := Option.some.inj hs
      obtain ⟨r, call, hr, hcall, hkind⟩ := h.cleaning cause c hpc
      -- the call that has returned has joined every worker
      have hgate := h.gate r hr
      have hreturned : call.pc = .returned := by simpa [hr, hcall] using hret
      have hstage := (hgate.inv.calls c call hcall).stage
      rw [ShutdownGate.Call.Stage, hreturned] at hstage
      have hpublished := hstage fun mode hmode => by rw [hkind] at hmode; cases hmode
      exact h.move (hsame rfl) (fun hno => by cases hno) (fun hno => by cases hno) (by simp)
        (fun hno => by cases hno) (fun hno => by cases hno) (fun _ hno => by cases hno)
        (fun _ _ hno => by cases hno)
        fun _ => hgate.allExited hpublished
    · cases hs
  case unregister cause =>
    obtain rfl := Option.some.inj hs
    exact h.unregister hpc
  case unregisterInstance cause =>
    obtain rfl := Option.some.inj hs
    exact h.unregisterInstance hpc
  case returned => cases hs
  case threw => cases hs

/-! ## The workers and the gate -/

/-- Where there are workers that have not exited: not before the first, nor after the joins. -/
theorem Inv.busy (h : Inv s) {i : Nat} {w : Worker} (hw : s.workers[i]? = some w)
    (hne : w ≠ .exited) : s.pc.early = false ∧ s.pc.finished = false ∧
      s.pc.registered = true ∧ s.pc.listed = true := by
  have hmem : w ∈ s.workers := List.mem_of_getElem? hw
  have hearly : s.pc.early = false := by
    by_contra hpc
    have hearly := h.early (by simpa using hpc)
    rw [hearly.workers] at hmem
    cases hmem
  have hfinished : s.pc.finished = false := by
    by_contra hpc
    exact hne (h.finished (by simpa using hpc) w hmem)
  refine ⟨hearly, hfinished, ?_⟩
  cases hpc : s.pc <;> simp_all [Pc.early, Pc.finished, Pc.registered, Pc.listed]

/-- **A step of worker `i`**, which was not gone for good. -/
theorem Inv.workerMoves (h : Inv s) {i : Nat} {w w' : Worker} (hw : s.workers[i]? = some w)
    (hne : w ≠ .exited) (hpc : s'.pc = s.pc)
    (hworkers : s'.workers = s.workers.set i w') (hgate : s'.gate = s.gate)
    (htables : TablesOk s') (hcreating : ∀ j, s.pc = .create j → Creating s' j) : Inv s' := by
  obtain ⟨hearly, hfinished, hregistered, hlisted⟩ := h.busy hw hne
  refine
    { tables := htables, absent := ?_, unlisted := ?_, entered := ?_, early := ?_,
      reserving := ?_, creating := ?_, gate := ?_, cleaning := ?_, finished := ?_ }
  · rw [hpc, hregistered]
    nofun
  · rw [hpc, hlisted]
    nofun
  · rw [hpc]
    rintro (hp | hp) <;> rw [hp] at hearly <;> cases hearly
  · rw [hpc, hearly]
    nofun
  · rw [hpc]
    intro hp
    rw [hp] at hearly
    cases hearly
  · rw [hpc]
    exact hcreating
  · intro r hr
    have hok := h.gate r (hgate ▸ hr)
    refine ⟨hok.inv, by rw [hworkers, List.length_set]; exact hok.workers, fun k hk => ?_, hok.joined⟩
    have hexited := hok.exited k hk
    rw [hworkers, List.getElem?_set_ne]
    · exact hexited
    · rintro rfl
      exact hne (Option.some.inj (hw.symm.trans hexited))
  · rw [hpc, hgate]
    exact h.cleaning
  · rw [hpc, hfinished]
    nofun

/-- A worker that has not gone yet, at a place from which it does not go at once. -/
theorem Creating.workerMoves {i j : Nat} {w w' : Worker} (h : Creating s j)
    (hw : s.workers[i]? = some w) (hgone : w.gone = false) (hgone' : w'.gone = false)
    (hs' : s' = { s with workersReady := s'.workersReady, workers := s.workers.set i w' }) :
    Creating s' j := by
  have hcount := countP_set Worker.gone hw w'
  simp only [hgone, hgone', Bool.false_eq_true, if_false, Nat.add_zero] at hcount
  rw [hs']
  refine ⟨by simpa using h.length, h.le, by rw [← h.counted, ← hcount], fun hl => ?_, h.fixed⟩
  refine h.late (hl.imp_left fun hmem => ?_)
  rcases List.mem_or_eq_of_mem_set hmem with hmem | rfl
  · exact hmem
  · cases hgone'

/-- A worker takes itself off `active_workers`. -/
theorem Creating.decrement {i j : Nat} (h : Creating s j) (hw : s.workers[i]? = some .decrementing) :
    Creating { s with
      activeWorkers := s.activeWorkers - 1
      workers := s.workers.set i (if s.activeWorkers = 1 then .notifying else .exited) } j := by
  have hcount := countP_set Worker.gone hw (if s.activeWorkers = 1 then .notifying else .exited)
  have hgone : (if s.activeWorkers = 1 then Worker.notifying else .exited).gone = true := by
    split <;> rfl
  rw [hgone, show Worker.gone .decrementing = false from rfl] at hcount
  simp only [Bool.false_eq_true, if_false, if_true, Nat.add_zero] at hcount
  have hlt : s.workers.countP Worker.gone < s.workers.length := by
    refine Nat.lt_of_le_of_ne List.countP_le_length fun heq => ?_
    have hall := List.countP_eq_length.mp heq _ (List.mem_of_getElem? hw)
    cases hall
  have hlen := h.length
  have hle := h.le
  have hcounted := h.counted
  refine ⟨by simpa using h.length, h.le, ?_, fun hl => ?_, h.fixed⟩
  · simp only [hcount]
    omega
  · by_cases hone : s.activeWorkers = 1
    · simp only [hone]
    · have hzero := h.late (hl.imp_left fun hmem => by
        rw [if_neg hone] at hmem
        rcases List.mem_or_eq_of_mem_set hmem with hmem | heq
        · exact hmem
        · cases heq)
      simp only [hzero]

theorem Inv.notify (h : Inv s) {i : Nat} (hw : s.workers[i]? = some .notifying) :
    Inv { s with
      registry := s.registry.notifyJoinReady s.id, workers := s.workers.set i .exited } := by
  have hf : ∀ t : HandoffCapabilitySlot κ ρ, ({ t with joinReady := true } :
    HandoffCapabilitySlot κ ρ).runtimeId = t.runtimeId := fun t => rfl
  refine h.workerMoves hw (by simp) rfl rfl rfl ⟨?_, h.tables.ids, h.tables.instances,
    h.tables.stop, ?_, h.tables.idOnce⟩ ?_
  · exact h.tables.slots.trans
      ((slotsOf_updateSlot hf s.registry.slots).trans (if_neg (by simp [but]))).symm
  · have hown := (slotsOf_updateSlot hf s.registry.slots).trans
      (if_pos (show only s.id s.id = true by simp [only]))
    have hlength := congrArg List.length (@ReaperRegistry.updateSlot_ids κ ρ s.id _ hf s.own)
    simp only [List.length_map] at hlength
    exact Nat.le_trans (Nat.le_of_eq ((congrArg List.length hown).trans hlength)) h.tables.once
  · intro j hj
    have hc := h.creating j hj
    have hcount := countP_set Worker.gone hw .exited
    rw [show Worker.gone .notifying = true from rfl, show Worker.gone .exited = true from rfl]
      at hcount
    have hzero := hc.late (.inl (List.mem_of_getElem? hw))
    refine ⟨by simpa using hc.length, hc.le, ?_, fun _ => hzero, hc.fixed⟩
    rw [← hc.counted]
    simp only
    omega

theorem Inv.worker {i : Nat} {w : Worker} (h : Inv s) (hw : s.workers[i]? = some w)
    (hs : s.workerStep i w = some s') : Inv s' := by
  have htables : ∀ {s' : Construction κ ρ} {a b : Nat} {ws : List Worker},
      s' = { s with workersReady := a, activeWorkers := b, workers := ws } → TablesOk s' := by
    rintro _ a b ws rfl
    exact ⟨h.tables.slots, h.tables.ids, h.tables.instances, h.tables.stop, h.tables.once,
      h.tables.idOnce⟩
  cases w with
  | starting =>
    obtain rfl := Option.some.inj hs
    exact h.workerMoves hw nofun rfl rfl rfl (htables rfl) fun j hj =>
      (h.creating j hj).workerMoves hw rfl rfl rfl
  | atBarrier =>
    simp only [Construction.workerStep] at hs
    split at hs
    · obtain rfl := Option.some.inj hs
      exact h.workerMoves hw nofun rfl rfl rfl (htables rfl) fun j hj =>
        (h.creating j hj).workerMoves hw rfl rfl rfl
    · split at hs
      · obtain rfl := Option.some.inj hs
        exact h.workerMoves hw nofun rfl rfl rfl (htables rfl) fun j hj =>
          (h.creating j hj).workerMoves hw rfl rfl rfl
      · cases hs
  | decrementing =>
    obtain rfl := Option.some.inj hs
    exact h.workerMoves hw nofun rfl rfl rfl (htables rfl) fun j hj =>
      (h.creating j hj).decrement hw
  | notifying =>
    obtain rfl := Option.some.inj hs
    exact h.notify hw
  | exited => cases hs
  | running => cases hs

/-- The gate moves, or the coordinator has called the cleanup it had taken. -/
theorem Inv.gateMoves (h : Inv s) {gate : Option Runtime} {taken : Bool}
    (htaken : taken = true → s.taken = true) (hearly : s.pc.early = true → gate = none)
    (hfixed : ∀ i, s.pc = .create i → gate.isSome → i = s.count)
    (hgate : ∀ r, gate = some r → GateOk s r)
    (hcalls : ∀ (r : Runtime) (c : Nat) (call : ShutdownGate.Call), s.gate = some r →
      r.calls[c]? = some call →
        ∃ r' call', gate = some r' ∧ r'.calls[c]? = some call' ∧ call'.kind = call.kind) :
    Inv { s with gate := gate, taken := taken } where
  tables := ⟨h.tables.slots, h.tables.ids, h.tables.instances, h.tables.stop, h.tables.once,
    h.tables.idOnce⟩
  absent := h.absent
  unlisted := h.unlisted
  entered := h.entered
  early hpc := by
    have he := h.early hpc
    refine ⟨he.workers, hearly hpc, ?_, he.ready⟩
    by_contra hno
    cases he.taken.symm.trans (htaken (by simpa using hno))
  reserving := h.reserving
  creating i hpc := by
    have hc := h.creating i hpc
    exact ⟨hc.length, hc.le, hc.counted, fun hl => hc.late (hl.imp_right fun hl =>
      hl.imp_right htaken), hfixed i hpc⟩
  gate r hr := (hgate r hr).of_workers rfl
  cleaning cause c hpc := by
    obtain ⟨r, call, hr, hcall, hkind⟩ := h.cleaning cause c hpc
    obtain ⟨r', call', hr', hcall', hkind'⟩ := hcalls r c call hr hcall
    exact ⟨r', call', hr', hcall', hkind'.trans hkind⟩
  finished := h.finished

theorem Inv.coordinatorCleanup (h : Inv s) (htaken : s.taken = true) :
    Inv { s with
      gate := (s.gate.getD (Runtime.started s.workers.length)).next (.call .reaperCleanupAndJoin)
      taken := false } := by
  refine h.gateMoves nofun ?_ ?_ ?_ ?_
  · intro hpc
    cases (h.early hpc).taken.symm.trans htaken
  · intro i hpc _
    have hc := h.creating i hpc
    have hzero := hc.late (.inr (.inr htaken))
    have hle : s.workers.countP Worker.gone ≤ s.workers.length := List.countP_le_length
    have hcounted := hc.counted
    have hlen := hc.length
    have := hc.le
    omega
  · intro r hr
    obtain rfl := Option.some.inj hr
    exact h.gateOk.call .reaperCleanupAndJoin
  · intro r c call hr hcall
    refine ⟨_, call, rfl, ?_, rfl⟩
    rw [hr, Option.getD_some, List.getElem?_append_left (List.getElem?_eq_some_iff.mp hcall).1]
    exact hcall

/-- A step at the gate that is there. -/
theorem Inv.gateStep (h : Inv s) {r r' : Runtime} (hr : s.gate = some r) (hok : GateOk s r')
    (hcalls : ∀ (c : Nat) (call : ShutdownGate.Call), r.calls[c]? = some call →
      ∃ call', r'.calls[c]? = some call' ∧ call'.kind = call.kind) :
    Inv { s with gate := some r' } := by
  refine h.gateMoves (fun ht => ht) ?_ ?_ ?_ ?_
  · intro hpc
    cases (h.early hpc).gate.symm.trans hr
  · intro i hpc _
    exact (h.creating i hpc).fixed (by rw [hr]; rfl)
  · intro t ht
    obtain rfl := Option.some.inj ht
    exact hok
  · intro t c call ht hcall
    obtain rfl := Option.some.inj (hr.symm.trans ht)
    obtain ⟨call', hcall', hkind⟩ := hcalls c call hcall
    exact ⟨r', call', rfl, hcall', hkind⟩

theorem Inv.gateCallStep (h : Inv s) {r r' : Runtime} {c : Nat} {spurious : Bool}
    (hr : s.gate = some r) (hs : r.next (.step c spurious) = some r') :
    Inv { s with gate := some r' } := by
  refine h.gateStep hr ((h.gate r hr).step hs) fun c' call hcall => ?_
  obtain ⟨d, hd, hstep⟩ := Option.bind_eq_some_iff.mp hs
  obtain ⟨⟨pc, hcalls⟩, -⟩ := Runtime.callStep_frame hstep
  rw [hcalls]
  by_cases hcc : c = c'
  · subst hcc
    obtain rfl := Option.some.inj (hd.symm.trans hcall)
    exact ⟨_, List.getElem?_set_self (List.getElem?_eq_some_iff.mp hd).1, rfl⟩
  · exact ⟨call, by rw [List.getElem?_set_ne hcc]; exact hcall, rfl⟩

theorem Inv.gateExit (h : Inv s) {r r' : Runtime} {k : Nat} (hr : s.gate = some r)
    (hk : s.workers[k]? = some .exited) (hs : r.next (.workerExit k) = some r') :
    Inv { s with gate := some r' } := by
  have hok := h.gate r hr
  have hinv := hok.inv.step hs
  obtain rfl := Option.some.inj hs
  refine h.gateStep hr ⟨hinv, hok.workers, fun j hj => ?_, fun j hj => ?_⟩ fun c call hcall =>
    ⟨call, hcall, rfl⟩
  · rcases List.mem_cons.mp hj with rfl | hj
    · exact hk
    · exact hok.exited j hj
  · exact List.mem_cons_of_mem _ (hok.joined j hj)

/-! ## The others -/

theorem mem_of_passTakes {r : Registry κ ρ} {id : RuntimeId} (h : passTakes r id = true) :
    ∃ t ∈ slotsOf (only id) r.slots, t.joinReady = true := by
  obtain ⟨slots, hslots, hany⟩ := (Option.any_eq_true ..).mp h
  obtain ⟨t, ht, hid⟩ := List.any_eq_true.mp hany
  have hmem : t ∈ r.slots.filter (·.eligible r.state) := by
    unfold Registry.coordinatorPass at hslots
    split at hslots
    · cases hslots
    · obtain rfl := Option.some.inj hslots
      rwa [ReaperRegistry.takeReady_taken] at ht
  obtain ⟨hmem, heligible⟩ := List.mem_filter.mp hmem
  refine ⟨t, mem_slotsOf_only.mpr ⟨hmem, of_decide_eq_true hid⟩, ?_⟩
  simp only [HandoffCapabilitySlot.eligible, Bool.and_eq_true] at heligible
  exact heligible.1.2

theorem onInstances_but {op : Other κ ρ} {id : RuntimeId} (hne : op.runtime ≠ some id)
    (instances : List RuntimeId) :
    unregisterInstance (op.onInstances instances) id =
      op.onInstances (unregisterInstance instances id) := by
  have hid : ∀ {i : RuntimeId}, op.runtime = some i → i ≠ id := by
    rintro i hi rfl
    exact hne hi
  cases op with
  | registerInstance i =>
    simp [Other.onInstances, Startup.registerInstance, unregisterInstance, List.filter_append,
      List.filter_filter, hid rfl, Bool.and_comm]
  | unregisterInstance i =>
    simp [Other.onInstances, unregisterInstance, List.filter_filter, Bool.and_comm]
  | _ => rfl

/-- **A step of somebody else.** -/
theorem Inv.other {op : Other κ ρ} (h : Inv s) (hne : op.runtime ≠ some s.id) :
    Inv (s.other op) := by
  have ha : Aside s.id op s.registry := aside h.tables.stop hne
  have hshadow : s.shadow = { s.registry with
      slots := slotsOf (but s.id) s.registry.slots
      registeredIds := idsBut s.id s.registry.registeredIds } := by
    simp only [Construction.shadow, h.tables.slots, h.tables.ids]
  have hown : (s.other op).own = if op.isPass then s.own.filter (!·.eligible s.registry.state)
      else s.own := ha.own
  have hsub : ∀ t ∈ (s.other op).own, t ∈ s.own := by
    rw [hown]
    intro t ht
    split at ht
    · exact (List.mem_filter.mp ht).1
    · exact ht
  -- an entry that is not ready is not taken
  have hkept : (∀ t ∈ s.own, t.joinReady = false) → (s.other op).own = s.own ∧
      (s.other op).taken = s.taken := by
    intro hready
    constructor
    · rw [hown]
      split
      · refine List.filter_eq_self.mpr fun t ht => ?_
        simp [HandoffCapabilitySlot.eligible, hready t ht]
      · rfl
    · have hno : passTakes s.registry s.id = false := by
        by_contra htakes
        obtain ⟨t, ht, hjoin⟩ := mem_of_passTakes (by simpa using htakes)
        rw [hready t ht] at hjoin
        cases hjoin
      simp [Construction.other, hno]
  refine
    { tables := ⟨?_, ?_, ?_, ha.stop, ?_, Nat.le_trans ha.count h.tables.idOnce⟩, absent := ?_,
      unlisted := ?_, entered := ?_, early := ?_, reserving := h.reserving, creating := ?_,
      gate := fun r hr => (h.gate r hr).of_workers rfl, cleaning := h.cleaning,
      finished := h.finished }
  · exact (congrArg (fun r => (op.onRegistry r).slots) hshadow).trans ha.slots.symm
  · exact (congrArg (fun r => (op.onRegistry r).registeredIds) hshadow).trans ha.ids.symm
  · exact (congrArg op.onInstances h.tables.instances).trans (onInstances_but hne _).symm
  · rw [hown]
    split
    · exact Nat.le_trans (List.length_filter_le ..) h.tables.once
    · exact h.tables.once
  · intro hpc
    obtain ⟨hnone, hid⟩ := h.absent hpc
    refine ⟨List.eq_nil_iff_forall_not_mem.mpr fun t ht => ?_, fun hmem => ?_⟩
    · have := hsub t ht
      rw [hnone] at this
      cases this
    · have := Nat.le_trans (List.count_pos_iff.mpr hmem) ha.count
      rw [List.count_eq_zero.mpr hid] at this
      exact absurd this (Nat.not_succ_le_zero 0)
  · intro hpc hmem
    refine h.unlisted hpc ?_
    cases op with
    | registerInstance i =>
      have hi : s.id ≠ i := fun heq => hne (by rw [heq]; rfl)
      simpa [Construction.other, Other.onInstances, Startup.registerInstance, hi] using hmem
    | unregisterInstance i =>
      exact (List.mem_filter.mp hmem).1
    | _ => exact hmem
  · intro hpc
    have hearly := h.early (by rcases hpc with hpc | hpc <;> rw [show s.pc = _ from hpc] <;> rfl)
    rw [(hkept hearly.ready).1]
    exact h.entered hpc
  · intro hpc
    have hearly := h.early hpc
    obtain ⟨hownkept, htakenkept⟩ := hkept hearly.ready
    exact ⟨hearly.workers, hearly.gate, htakenkept.trans hearly.taken, hownkept ▸ hearly.ready⟩
  · intro i hpc
    have hc := h.creating i hpc
    refine ⟨hc.length, hc.le, hc.counted, fun hl => ?_, hc.fixed⟩
    rcases hl with hw | ⟨t, ht, hready⟩ | htaken
    · exact hc.late (.inl hw)
    · exact hc.late (.inr (.inl ⟨t, hsub t ht, hready⟩))
    · by_cases hbefore : s.taken = true
      · exact hc.late (.inr (.inr hbefore))
      · simp only [Construction.other, Bool.or_eq_true, Bool.and_eq_true] at htaken
        rcases htaken with htaken | ⟨-, htakes⟩
        · exact absurd htaken hbefore
        · exact hc.late (.inr (.inl (mem_of_passTakes htakes)))

/-! ## The transaction -/

/-- Every step that is not a failure in front of the `try` block. -/
theorem Inv.step (h : Inv s) {a : Label κ ρ} (hok : s.InsideTry a) (hs : s.next a = some s') :
    Inv s' := by
  cases a with
  | construct fails => exact h.construct hok hs
  | worker i =>
    obtain ⟨w, hw, hs⟩ := Option.bind_eq_some_iff.mp hs
    exact h.worker hw hs
  | requestStop =>
    obtain rfl := Option.some.inj hs
    exact
      { tables := ⟨h.tables.slots, h.tables.ids, h.tables.instances, h.tables.stop, h.tables.once,
          h.tables.idOnce⟩
        absent := h.absent, unlisted := h.unlisted, entered := h.entered
        early := fun hpc =>
          ⟨(h.early hpc).workers, (h.early hpc).gate, (h.early hpc).taken, (h.early hpc).ready⟩
        reserving := h.reserving
        creating := fun i hpc =>
          ⟨(h.creating i hpc).length, (h.creating i hpc).le, (h.creating i hpc).counted,
            (h.creating i hpc).late, (h.creating i hpc).fixed⟩
        gate := fun r hr => (h.gate r hr).of_workers rfl
        cleaning := h.cleaning, finished := h.finished }
  | coordinatorCleanup =>
    simp only [Construction.next] at hs
    split at hs
    · rename_i htaken
      obtain rfl := Option.some.inj hs
      exact h.coordinatorCleanup htaken
    · cases hs
  | gateStep c spurious =>
    obtain ⟨r, hr, hs⟩ := Option.bind_eq_some_iff.mp hs
    obtain ⟨r', hstep, rfl⟩ := Option.map_eq_some_iff.mp hs
    exact h.gateCallStep hr hstep
  | gateExit k =>
    simp only [Construction.next] at hs
    split at hs
    · rename_i hk
      obtain ⟨r, hr, hs⟩ := Option.bind_eq_some_iff.mp hs
      obtain ⟨r', hstep, rfl⟩ := Option.map_eq_some_iff.mp hs
      exact h.gateExit hr hk hstep
    · cases hs
  | other op =>
    simp only [Construction.next] at hs
    split at hs
    · cases hs
    · rename_i hne
      obtain rfl := Option.some.inj hs
      exact h.other hne

theorem inv_begins (h : s.Begins) : Inv s := by
  have hown : s.own = [] := List.eq_nil_iff_forall_not_mem.mpr fun t ht => by
    obtain ⟨hmem, hid⟩ := mem_slotsOf_only.mp ht
    exact h.slots t hmem hid
  have hpc : s.pc = .registerInstance := by rw [h.start]
  have hworkers : s.workers = [] := by rw [h.start]
  have hgate : s.gate = none := by rw [h.start]
  refine
    { tables := ⟨?_, ?_, ?_, h.stop, by simp [hown], by simp [List.count_eq_zero.mpr h.ids]⟩
      absent := fun _ => ⟨hown, h.ids⟩, unlisted := fun _ => h.instances, entered := ?_,
      early := fun _ => ⟨hworkers, hgate, by rw [h.start], by simp [hown]⟩, reserving := ?_,
      creating := ?_, gate := ?_, cleaning := ?_, finished := ?_ }
  · rw [slotsOf_but_eq h.slots]
    rw [h.start]
  · rw [idsBut_eq h.ids]
    rw [h.start]
  · have : unregisterInstance s.instances s.id = s.instances :=
      List.filter_eq_self.mpr fun i hi => by
        simp only [decide_eq_true_eq]
        rintro rfl
        exact h.instances hi
    rw [this]
    rw [h.start]
  · rw [hpc]
    simp
  · rw [hpc]
    intro hreserve
    cases hreserve
  · rw [hpc]
    intro i hcreate
    cases hcreate
  · rw [hgate]
    intro r hr
    cases hr
  · rw [hpc]
    intro cause c hcleaning
    cases hcleaning
  · rw [hpc]
    intro hfinished
    cases hfinished

/-- A failure in front of the `try` block leaves the entry of the runtime in the registry. -/
theorem Inv.broken (h : Inv s) {a : Label κ ρ} (hbad : ¬ s.InsideTry a)
    (hs : s.next a = some s') : ¬ s'.Transactional := by
  cases a with
  | construct fails =>
    cases fails with
    | false => exact absurd trivial hbad
    | true =>
      -- what is left of the slot is seen by comparing the tables
      have hleft : s.own ≠ [] → ∀ cause, ¬ ({ s with pc := .threw cause } :
          Construction κ ρ).Transactional := by
        intro hne cause htrans
        have hslots : s.registry.slots = s.others.slots := (htrans cause rfl).slots
        obtain ⟨t, ht⟩ := List.exists_mem_of_ne_nil _ hne
        obtain ⟨hmem, hid⟩ := mem_slotsOf_only.mp ht
        rw [hslots, h.tables.slots] at hmem
        have := (List.mem_filter.mp hmem).2
        simp [but, hid] at this
      by_cases hreserve : s.pc = .reserve
      · simp only [Construction.next, Construction.construct, hreserve, if_true] at hs
        obtain rfl := Option.some.inj hs
        exact hleft (h.entered (.inr hreserve)) _
      · have hattach : s.pc = .attach ∧ s.traceCollector = true := by
          by_contra hno
          refine hbad ⟨fun hpc => ?_, hreserve⟩
          by_contra hcollector
          exact hno ⟨hpc, by simpa using hcollector⟩
        simp only [Construction.next, Construction.construct, hattach.1] at hs
        rw [if_pos ⟨hattach.2, trivial⟩] at hs
        obtain rfl := Option.some.inj hs
        exact hleft (h.entered (.inl hattach.1)) _
  | _ => exact absurd trivial hbad

end

/-- **The startup transaction, exactly**: in a run every construction that has thrown has been
rolled back if and only if no step is a failure of `attach` or `reserve`. -/
theorem transactional_iff_insideTry {s : Construction κ ρ} {as : List (Label κ ρ)}
    (hs : s.Begins) (hr : (Construction.machine.run s as).isSome) :
    Construction.machine.EveryState Construction.Transactional s as ↔
      Construction.machine.EveryStep Construction.InsideTry s as :=
  Machine.everyState_iff_everyStep Inv (fun _ h => h.transactional)
    (fun _ _ _ h hok hs => h.step hok hs) (fun _ _ _ h hbad hs => h.broken hbad hs)
    (inv_begins hs) hr

/-- Runtime 2 with two workers, next to runtime 1. -/
def secondRuntime : Construction Nat Nat where
  id := ⟨2⟩
  count := 2
  traceCollector := true
  requestGraceful := 0
  requestImmediate := 1
  cleanupFn := 2
  registry := { registeredIds := [1], slots := [{ runtimeId := ⟨1⟩ }], coordinatorThread := true }
  instances := [⟨1⟩]
  others := { slots := [{ runtimeId := ⟨1⟩ }], registeredIds := [1], instances := [⟨1⟩] }

theorem begins_secondRuntime : secondRuntime.Begins :=
  ⟨by decide, by decide, by decide, by decide, by decide⟩

/-- The second worker cannot be created; meanwhile runtime 3 registers. -/
def secondWorkerFails : List (Label Nat Nat) :=
  (List.replicate 6 (.construct false) : List (Label Nat Nat)) ++
    ([.worker 0, .other (.registerRuntime ⟨3⟩ none none none), .construct true, .construct false,
      .construct false, .worker 0, .worker 0] : List (Label Nat Nat)) ++
    (List.replicate 4 (.gateStep 0 false) : List (Label Nat Nat)) ++
    ([.gateExit 0] : List (Label Nat Nat)) ++
    (List.replicate 8 (.gateStep 0 false) : List (Label Nat Nat)) ++
    (List.replicate 3 (.construct false) : List (Label Nat Nat))

theorem secondWorkerFails_transactional :
    (Construction.machine.run secondRuntime secondWorkerFails).map (·.pc) =
        some (.threw (.workerCreation 2)) ∧
      Construction.machine.EveryState Construction.Transactional secondRuntime
        secondWorkerFails := by
  have hend : (Construction.machine.run secondRuntime secondWorkerFails).map (·.pc) =
      some (.threw (.workerCreation 2)) := by decide
  refine ⟨hend, (transactional_iff_insideTry begins_secondRuntime ?_).mpr (by decide)⟩
  decide

/-- The allocation of the trace buffers throws. -/
def attachThrows : List (Label Nat Nat) :=
  (List.replicate 3 (.construct false) : List (Label Nat Nat)) ++
    ([.construct true] : List (Label Nat Nat))

/-- The exception leaves the slot, the id and the instance of runtime 2 behind. -/
theorem attachThrows_leaksEntry :
    ∃ t, Construction.machine.run secondRuntime attachThrows = some t ∧
      t.pc = .threw .attachThrew ∧ 2 ∈ t.registry.registeredIds ∧ ⟨2⟩ ∈ t.instances ∧
      ¬ t.Transactional := by
  obtain ⟨t, ht⟩ := Option.isSome_iff_exists.mp
    (show (Construction.machine.run secondRuntime attachThrows).isSome by decide)
  have hend : (Construction.machine.run secondRuntime attachThrows).map (fun t =>
      (t.pc, t.registry.registeredIds, t.instances, t.others.instances)) =
      some (.threw .attachThrew, [1, 2], [⟨1⟩, ⟨2⟩], [⟨1⟩]) := by decide
  rw [ht] at hend
  obtain ⟨hpc, hrest⟩ := Prod.mk.inj (Option.some.inj hend)
  obtain ⟨hids, hrest⟩ := Prod.mk.inj hrest
  obtain ⟨hinstances, hothers⟩ := Prod.mk.inj hrest
  refine ⟨t, ht, hpc, by rw [hids]; decide, by rw [hinstances]; decide, fun htrans => ?_⟩
  have heq := (htrans _ hpc).instances
  rw [hinstances, hothers] at heq
  revert heq
  decide

end AstraScheduler.Startup
