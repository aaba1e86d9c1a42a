import AstraScheduler.ReaperSafety

/-! # Lifecycle callbacks and the lifetime of a runtime

`close_registration` and `request_all_immediate` copy the callbacks of every runtime under the
registry's mutex and call them after releasing it.  A callback captures the raw `this` of the
runtime's `Impl`, and nothing makes `unregister_runtime` or the destructor wait for the copies:
the module says under which condition on these two steps no copy is called late. -/

namespace AstraScheduler.ReaperRegistry
variable {κ ρ : Type}

/-- **No callback is called after the runtime's `unregister_runtime` has returned**, and none
uses its `this` after the `Impl` is destroyed. -/
def NoLateCallback (s : Process κ ρ) : Prop :=
  ∀ u ∈ s.uses, (u.begins → u.afterUnregister = false) ∧ u.afterDestroy = false

/-- A broadcast holds a copy of a callback of the runtime that it has not called. -/
def Process.HoldsUncalled (s : Process κ ρ) (id : RuntimeId) : Prop :=
  ∃ b ∈ s.broadcasts, ∃ p ∈ b.pending, p.1 = id

/-- A broadcast is inside a callback of the runtime. -/
def Process.InCallback (s : Process κ ρ) (id : RuntimeId) : Prop :=
  ∃ b ∈ s.broadcasts, b.running = some id

/-- A runtime is unregistered only when no copy of its callbacks is left to call, and
destroyed only when, besides, none is running and its slot is out of the table. -/
def CallbacksDone (s : Process κ ρ) : Label κ ρ → Prop
  | .unregisterRuntime id => ¬ s.HoldsUncalled id
  | .destroyImpl id =>
    ¬ s.HoldsUncalled id ∧ ¬ s.InCallback id ∧ ∀ slot ∈ s.registry.slots, slot.runtimeId ≠ id
  | _ => True

/-! ## The invariant -/

/-- Neither unregistered nor destroyed. -/
def Process.Live (s : Process κ ρ) (id : RuntimeId) : Prop :=
  id ∉ s.unregistered ∧ id ∉ s.destroyed

/-- Every runtime in the table or among the uncalled copies is alive, and those whose
callbacks are running are not destroyed. -/
structure Attended (s : Process κ ρ) : Prop where
  slots : ∀ id ∈ s.registry.slots.map (·.runtimeId), s.Live id
  pending : ∀ id, s.HoldsUncalled id → s.Live id
  running : ∀ id, s.InCallback id → id ∉ s.destroyed
  used : ∀ id, id ∈ s.unregistered ∨ id ∈ s.destroyed → id ∈ s.used
  uses : NoLateCallback s

variable {s s' : Process κ ρ}

/-- Steps that keep the books, the broadcasts and the ids of the table. -/
theorem Attended.congr (h : Attended s)
    (hslots : s'.registry.slots.map (·.runtimeId) ⊆ s.registry.slots.map (·.runtimeId))
    (hbroadcasts : s'.broadcasts = s.broadcasts) (hunregistered : s'.unregistered = s.unregistered)
    (hdestroyed : s'.destroyed = s.destroyed) (hused : s'.used = s.used)
    (huses : s'.uses = s.uses) : Attended s' := by
  have hlive : ∀ id, s.Live id → s'.Live id := by
    intro id hid
    unfold Process.Live
    rwa [hunregistered, hdestroyed]
  constructor
  · exact fun id hid => hlive id (h.slots id (hslots hid))
  · intro id hid
    unfold Process.HoldsUncalled at hid
    rw [hbroadcasts] at hid
    exact hlive id (h.pending id hid)
  · intro id hid
    unfold Process.InCallback at hid
    rw [hbroadcasts] at hid
    rw [hdestroyed]
    exact h.running id hid
  · rw [hunregistered, hdestroyed, hused]
    exact h.used
  · unfold NoLateCallback
    rw [huses]
    exact h.uses

theorem Attended.update (h : Attended s) {id : RuntimeId}
    {f : HandoffCapabilitySlot κ ρ → HandoffCapabilitySlot κ ρ}
    (hid : ∀ x, (f x).runtimeId = x.runtimeId) :
    Attended { s with
      registry := { s.registry with slots := updateSlot id f s.registry.slots } } := by
  refine h.congr (fun x hx => ?_) rfl rfl rfl rfl rfl
  rwa [updateSlot_ids hid] at hx

theorem Attended.register (h : Attended s) {id : RuntimeId} (hfresh : id ∉ s.used)
    (graceful immediate cleanup : Option κ) :
    Attended (s.registerRuntime id graceful immediate cleanup) := by
  have hused : ∀ x, x ∈ s.unregistered ∨ x ∈ s.destroyed → x ∈ id :: s.used := fun x hx =>
    List.mem_cons_of_mem id (h.used x hx)
  unfold Process.registerRuntime
  obtain ⟨-, hout⟩ | ⟨-, r', hout, -, ⟨slot, hslots, rfl, -⟩, -⟩ :=
    registerRuntime_cases s.registry id graceful immediate cleanup
  · rw [hout]
    exact ⟨h.slots, h.pending, h.running, hused, h.uses⟩
  · rw [hout]
    refine ⟨?_, h.pending, h.running, hused, h.uses⟩
    dsimp only
    intro x hx
    rw [hslots, List.map_append] at hx
    rcases List.mem_append.mp hx with hx | hx
    · exact h.slots x hx
    · rw [List.map_singleton, List.mem_singleton] at hx
      subst hx
      exact ⟨fun hu => hfresh (h.used _ (Or.inl hu)), fun hd => hfresh (h.used _ (Or.inr hd))⟩

/-- The table has no second slot of a runtime. -/
theorem ne_of_mem_eraseP {id : RuntimeId} {ss : List (HandoffCapabilitySlot κ ρ)}
    (hnodup : (ss.map (·.runtimeId)).Nodup) {x : RuntimeId}
    (hx : x ∈ (ss.eraseP fun y => decide (y.runtimeId = id)).map (·.runtimeId)) : x ≠ id := by
  induction ss with
  | nil => cases hx
  | cons y ss ih =>
    obtain ⟨hnot, hnodup⟩ := List.nodup_cons.mp hnodup
    by_cases hy : y.runtimeId = id
    · rw [List.eraseP_cons_of_pos (by simpa using hy)] at hx
      rintro rfl
      rw [← hy] at hx
      exact hnot hx
    · rw [List.eraseP_cons_of_neg (by simpa using hy)] at hx
      rcases List.mem_cons.mp hx with rfl | hx
      · exact hy
      · exact ih hnodup hx

theorem Attended.unregister (h : Attended s) (hc : Consistent s) {id : RuntimeId}
    (hnone : ¬ s.HoldsUncalled id) : Attended (s.unregisterRuntime id) := by
  have hlive : ∀ x, x ≠ id → s.Live x → (s.unregisterRuntime id).Live x := by
    intro x hne hx
    refine ⟨?_, hx.2⟩
    simp only [Process.unregisterRuntime]
    split
    · exact List.not_mem_cons_of_ne_of_not_mem hne hx.1
    · exact hx.1
  have hsub : ((s.registry.slots.eraseP fun y => decide (y.runtimeId = id)).map
      (·.runtimeId)).Sublist (s.registry.slots.map (·.runtimeId)) := List.eraseP_sublist.map _
  refine ⟨?_, ?_, h.running, ?_, h.uses⟩
  · intro x hx
    exact hlive x (ne_of_mem_eraseP (List.nodup_append.mp hc.distinct).1 hx)
      (h.slots x (hsub.subset hx))
  · rintro x ⟨b, hb, p, hp, rfl⟩
    refine hlive p.1 ?_ (h.pending p.1 ⟨b, hb, p, hp, rfl⟩)
    rintro rfl
    exact hnone ⟨b, hb, p, hp, rfl⟩
  · intro x hx
    simp only [Process.unregisterRuntime] at hx
    split at hx
    · rcases hx with hx | hx
      · rcases List.mem_cons.mp hx with rfl | hx
        · assumption
        · exact h.used x (Or.inl hx)
      · exact h.used x (Or.inr hx)
    · exact h.used x hx

theorem Attended.destroy (h : Attended s) {id : RuntimeId} (hused : id ∈ s.used)
    (hok : CallbacksDone s (.destroyImpl id)) :
    Attended { s with destroyed := id :: s.destroyed } := by
  obtain ⟨hnone, hidle, hgone⟩ := hok
  have hlive : ∀ x, x ≠ id → s.Live x → x ∉ s.unregistered ∧ x ∉ id :: s.destroyed :=
    fun x hne hx => ⟨hx.1, List.not_mem_cons_of_ne_of_not_mem hne hx.2⟩
  refine ⟨?_, ?_, ?_, ?_, h.uses⟩
  · intro x hx
    refine hlive x ?_ (h.slots x hx)
    obtain ⟨slot, hslot, rfl⟩ := List.mem_map.mp hx
    exact hgone slot hslot
  · intro x hx
    refine hlive x ?_ (h.pending x hx)
    rintro rfl
    exact hnone hx
  · intro x hx
    refine List.not_mem_cons_of_ne_of_not_mem ?_ (h.running x hx)
    rintro rfl
    exact hidle hx
  · rintro x (hx | hx)
    · exact h.used x (Or.inl hx)
    · rcases List.mem_cons.mp hx with rfl | hx
      · exact hused
      · exact h.used x (Or.inr hx)

/-- A broadcast starts with copies of callbacks of runtimes in the table. -/
theorem Attended.broadcast (h : Attended s) {copies : List (RuntimeId × κ)}
    (hcopies : ∀ p ∈ copies, p.1 ∈ s.registry.slots.map (·.runtimeId))
    {r : Registry κ ρ} (hslots : r.slots = s.registry.slots) :
    Attended { s with registry := r, broadcasts := s.broadcasts ++ [{ pending := copies }] } := by
  refine ⟨?_, ?_, ?_, h.used, h.uses⟩
  · dsimp only
    rw [hslots]
    exact h.slots
  · rintro x ⟨b, hb, p, hp, rfl⟩
    rcases List.mem_append.mp hb with hb | hb
    · exact h.pending p.1 ⟨b, hb, p, hp, rfl⟩
    · rw [List.mem_singleton] at hb
      subst hb
      exact h.slots p.1 (hcopies p hp)
  · rintro x ⟨b, hb, hrun⟩
    rcases List.mem_append.mp hb with hb | hb
    · exact h.running x ⟨b, hb, hrun⟩
    · rw [List.mem_singleton] at hb
      subst hb
      cases hrun

/-- A broadcast goes on with part of its copies, to a callback of a live runtime or out of
the one it was in. -/
theorem Attended.advance (h : Attended s) {j : Nat} {b b' : Broadcast κ} {u : Use}
    (hb : s.broadcasts[j]? = some b) (hpending : ∀ p ∈ b'.pending, p ∈ b.pending)
    (hrunning : ∀ id, b'.running = some id → s.Live id)
    (hu : (u.begins → u.afterUnregister = false) ∧ u.afterDestroy = false) :
    Attended { s.setBroadcast j b' with uses := u :: s.uses } := by
  have hmem := List.mem_of_getElem? hb
  refine ⟨h.slots, ?_, ?_, h.used, ?_⟩
  · rintro x ⟨c, hc, p, hp, rfl⟩
    rcases List.mem_or_eq_of_mem_set hc with hc | rfl
    · exact h.pending p.1 ⟨c, hc, p, hp, rfl⟩
    · exact h.pending p.1 ⟨b, hmem, p, hpending p hp, rfl⟩
  · rintro x ⟨c, hc, hrun⟩
    rcases List.mem_or_eq_of_mem_set hc with hc | rfl
    · exact h.running x ⟨c, hc, hrun⟩
    · exact (hrunning x hrun).2
  · intro v hv
    rcases List.mem_cons.mp hv with rfl | hv
    · exact hu
    · exact h.uses v hv

/-! ## Every step -/

theorem mem_gracefulCallbacks {r : Registry κ ρ} {p : RuntimeId × κ}
    (hp : p ∈ r.closeRegistration.2) : p.1 ∈ r.slots.map (·.runtimeId) := by
  unfold Registry.closeRegistration at hp
  split at hp
  · obtain ⟨slot, hslot, hcopy⟩ := List.mem_filterMap.mp hp
    obtain ⟨f, -, rfl⟩ := Option.map_eq_some_iff.mp hcopy
    exact List.mem_map_of_mem hslot
  · cases hp

theorem mem_immediateCallbacks {r : Registry κ ρ} {p : RuntimeId × κ}
    (hp : p ∈ r.immediateCallbacks) : p.1 ∈ r.slots.map (·.runtimeId) := by
  obtain ⟨slot, hslot, hcopy⟩ := List.mem_filterMap.mp hp
  obtain ⟨f, -, rfl⟩ := Option.map_eq_some_iff.mp hcopy
  exact List.mem_map_of_mem hslot

theorem Attended.step (h : Attended s) (hc : Consistent s) {a : Label κ ρ}
    (hok : CallbacksDone s a) (hs : Process.next s a = some s') : Attended s' := by
  unfold Process.next at hs
  cases a with
  | registerRuntime id graceful immediate cleanup =>
    dsimp only at hs
    by_cases hfresh : id ∈ s.used
    · rw [if_pos hfresh] at hs
      cases hs
    · rw [if_neg hfresh] at hs
      cases hs
      exact h.register hfresh graceful immediate cleanup
  | unregisterRuntime id =>
    cases hs
    exact h.unregister hc hok
  | destroyImpl id =>
    dsimp only at hs
    split at hs <;> cases hs
    exact h.destroy ‹_› hok
  | replaceCleanupFn _ _ | executeWorkerHandoff _ _ _ | notifyJoinReady _ =>
    cases hs
    exact h.update fun _ => rfl
  | closeRegistration =>
    cases hs
    exact h.broadcast (fun p hp => mem_gracefulCallbacks hp)
      (Keeps.closeRegistration s.registry).slots
  | requestAllImmediate =>
    cases hs
    exact h.broadcast (fun p hp => mem_immediateCallbacks hp) rfl
  | beginCallback j =>
    obtain ⟨b, hb, hs⟩ := Option.bind_eq_some_iff.mp hs
    unfold Process.beginCallback at hs
    split at hs <;> cases hs
    rename_i id _ rest hrunning hpending
    have hlive : s.Live id := h.pending id
      ⟨b, List.mem_of_getElem? hb, _, by rw [hpending]; exact List.mem_cons_self, rfl⟩
    refine h.advance hb (fun p hp => by rw [hpending]; exact List.mem_cons_of_mem _ hp) ?_ ?_
    · rintro x ⟨⟩
      exact hlive
    · exact ⟨fun _ => decide_eq_false hlive.1, decide_eq_false hlive.2⟩
  | endCallback j =>
    obtain ⟨b, hb, hs⟩ := Option.bind_eq_some_iff.mp hs
    unfold Process.endCallback at hs
    split at hs <;> cases hs
    rename_i id hrunning
    have hlive := h.running id ⟨b, List.mem_of_getElem? hb, hrunning⟩
    exact h.advance hb (fun p hp => hp) (fun x hx => nomatch hx)
      ⟨fun hbegins => Bool.noConfusion hbegins, decide_eq_false hlive⟩
  | coordinatorPass =>
    dsimp only at hs
    split at hs
    · split at hs <;> cases hs
      by_cases hdrained : s.registry.drained
      · rw [coordinatorPass_leaves hc.running hdrained]
        exact h.congr (List.Subset.refl _) rfl rfl rfl rfl rfl
      · rw [coordinatorPass_takes hc (by simpa using hdrained)]
        exact h.congr (List.filter_sublist.map _).subset rfl rfl rfl rfl rfl
    · cases hs
  | coordinatorCleanup | coordinatorReturn =>
    dsimp only at hs
    split at hs <;> cases hs <;> exact h.congr (List.Subset.refl _) rfl rfl rfl rfl rfl
  | callWait call onWorker =>
    cases hs
    exact h.congr (List.Subset.refl _) rfl rfl rfl rfl rfl
  | waitStep i expired =>
    obtain ⟨w, -, hs⟩ := Option.bind_eq_some_iff.mp hs
    obtain ⟨out, hout, rfl⟩ := Option.map_eq_some_iff.mp hs
    refine h.congr (fun x hx => ?_) rfl rfl rfl rfl rfl
    exact (Keeps.waitStep hout).slots ▸ hx
  | waitJoin i =>
    obtain ⟨w, -, hs⟩ := Option.bind_eq_some_iff.mp hs
    dsimp only at hs
    split at hs <;> cases hs <;> exact h.congr (List.Subset.refl _) rfl rfl rfl rfl rfl

theorem attended_of_reachableUnder (h : Process.machine.ReachableUnder CallbacksDone s) :
    Attended s := by
  refine (h.invariant (fun s => Consistent s ∧ Attended s) ?_ ?_).2
  · rintro s rfl
    exact ⟨consistent_of_reachable (.initial rfl), ⟨nofun, nofun, nofun, nofun, nofun⟩⟩
  · exact fun s a s' h hok hs => ⟨h.1.step hs, h.2.step h.1 hok hs⟩

/-- **No callback is late, as long as a runtime is unregistered and destroyed only when its
callbacks are done.** -/
theorem noLateCallback_of_callbacksDone (h : Process.machine.ReachableUnder CallbacksDone s) :
    NoLateCallback s :=
  (attended_of_reachableUnder h).uses

instance (s : Process κ ρ) (id : RuntimeId) : Decidable (s.HoldsUncalled id) :=
  inferInstanceAs (Decidable (∃ b ∈ s.broadcasts, ∃ p ∈ b.pending, p.1 = id))

instance (s : Process κ ρ) (id : RuntimeId) : Decidable (s.InCallback id) :=
  inferInstanceAs (Decidable (∃ b ∈ s.broadcasts, b.running = some id))

instance (s : Process κ ρ) : (a : Label κ ρ) → Decidable (CallbacksDone s a)
  | .unregisterRuntime id => inferInstanceAs (Decidable (¬ s.HoldsUncalled id))
  | .destroyImpl _ => inferInstanceAs (Decidable (_ ∧ _ ∧ _))
  | .registerRuntime .. | .replaceCleanupFn .. | .executeWorkerHandoff .. | .notifyJoinReady _
  | .closeRegistration | .requestAllImmediate | .beginCallback _ | .endCallback _
  | .coordinatorPass | .coordinatorCleanup | .coordinatorReturn | .callWait .. | .waitStep ..
  | .waitJoin _ => .isTrue trivial

instance (s : Process κ ρ) : Decidable (NoLateCallback s) :=
  inferInstanceAs (Decidable (∀ u ∈ s.uses, _ ∧ _))

/-- Both broadcasts finish before the runtime is unregistered and destroyed. -/
def callbacksThenTeardown : List (Label Nat Nat) :=
  [.registerRuntime ⟨1⟩ (some 0) (some 1) (some 2), .closeRegistration, .requestAllImmediate,
    .beginCallback 0, .beginCallback 1, .endCallback 1, .endCallback 0, .unregisterRuntime ⟨1⟩,
    .destroyImpl ⟨1⟩]

/-- The runtime shuts down and is destroyed between the copy of its callback and the call. -/
def teardownBeforeCallback : List (Label Nat Nat) :=
  [.registerRuntime ⟨1⟩ (some 0) (some 1) (some 2), .requestAllImmediate,
    .unregisterRuntime ⟨1⟩, .destroyImpl ⟨1⟩, .beginCallback 0]

theorem callbacksThenTeardown_noLateCallback :
    ∃ s, Process.machine.run {} callbacksThenTeardown = some s ∧ s.uses.length = 4 ∧
      NoLateCallback s := by
  obtain ⟨s, hs⟩ := Option.isSome_iff_exists.mp
    (show (Process.machine.run {} callbacksThenTeardown).isSome by decide)
  have hend : (Process.machine.run {} callbacksThenTeardown).map (fun t => t.uses.length) =
      some 4 := by decide
  rw [hs] at hend
  have hreach : Process.machine.ReachableUnder CallbacksDone s :=
    (Transition.Machine.ReachableUnder.initial rfl).run (by decide) hs
  exact ⟨s, hs, Option.some.inj hend, noLateCallback_of_callbacksDone hreach⟩

/-- The callback begins on an `Impl` that is unregistered and destroyed. -/
theorem teardownBeforeCallback_late :
    ∃ s, Process.machine.run {} teardownBeforeCallback = some s ∧
      s.uses = [⟨⟨1⟩, true, true, true⟩] ∧ ¬ NoLateCallback s := by
  obtain ⟨s, hs⟩ := Option.isSome_iff_exists.mp
    (show (Process.machine.run {} teardownBeforeCallback).isSome by decide)
  have hend : (Process.machine.run {} teardownBeforeCallback).map (fun t => t.uses) =
      some [⟨⟨1⟩, true, true, true⟩] := by decide
  rw [hs] at hend
  have huses : s.uses = [⟨⟨1⟩, true, true, true⟩] := Option.some.inj hend
  refine ⟨s, hs, huses, fun h => ?_⟩
  unfold NoLateCallback at h
  rw [huses] at h
  exact absurd (h _ List.mem_cons_self).2 (by decide)

end AstraScheduler.ReaperRegistry
