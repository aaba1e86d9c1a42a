import AstraScheduler.ReaperRegistry

/-! # Safety of the Reaper registry

The two tables of the registry name the same runtimes, whatever the order in which
schedulers, workers, destructors, waits and the coordinator act.  The invariant carries the
slots in the table and the slots already taken together: no runtime id occurs twice among
them, so a slot that is taken is gone for good. -/

namespace AstraScheduler.ReaperRegistry
variable {κ ρ : Type}

/-! ## The locked sections and the tables -/

theorem updateSlot_ids {id : RuntimeId}
    {f : HandoffCapabilitySlot κ ρ → HandoffCapabilitySlot κ ρ}
    (hf : ∀ s, (f s).runtimeId = s.runtimeId) (ss : List (HandoffCapabilitySlot κ ρ)) :
    (updateSlot id f ss).map (·.runtimeId) = ss.map (·.runtimeId) := by
  induction ss with
  | nil => rfl
  | cons s ss ih =>
    unfold updateSlot
    split
    · simp only [List.map_cons, hf]
    · simp only [List.map_cons, ih]

theorem mem_updateSlot {id : RuntimeId}
    {f : HandoffCapabilitySlot κ ρ → HandoffCapabilitySlot κ ρ} {x : HandoffCapabilitySlot κ ρ}
    {ss : List (HandoffCapabilitySlot κ ρ)} (hx : x ∈ updateSlot id f ss) :
    x ∈ ss ∨ ∃ y ∈ ss, x = f y := by
  induction ss with
  | nil => cases hx
  | cons s ss ih =>
    unfold updateSlot at hx
    split at hx
    · rcases List.mem_cons.mp hx with rfl | hx
      · exact Or.inr ⟨s, List.mem_cons_self, rfl⟩
      · exact Or.inl (List.mem_cons_of_mem s hx)
    · rcases List.mem_cons.mp hx with rfl | hx
      · exact Or.inl List.mem_cons_self
      · rcases ih hx with hx | ⟨y, hy, rfl⟩
        · exact Or.inl (List.mem_cons_of_mem s hx)
        · exact Or.inr ⟨y, List.mem_cons_of_mem s hy, rfl⟩

/-- Erasing a runtime's slot and erasing its id are the same erasure. -/
theorem eraseP_ids (id : RuntimeId) (ss : List (HandoffCapabilitySlot κ ρ)) :
    (ss.eraseP fun s => decide (s.runtimeId = id)).map (·.runtimeId.value) =
      (ss.map (·.runtimeId.value)).erase id.value := by
  induction ss with
  | nil => rfl
  | cons s ss ih =>
    by_cases hs : s.runtimeId = id
    · simp [hs]
    · have hvalue : s.runtimeId.value ≠ id.value := fun he =>
        hs (RuntimeId.value_injective he)
      rw [List.eraseP_cons_of_neg (by simpa using hs), List.map_cons, List.map_cons,
        List.erase_cons_tail (by simpa using hvalue), ih]

theorem takeReady_taken (state : RegistrationState) (ss : List (HandoffCapabilitySlot κ ρ))
    (ids : List Nat) : (takeReady state ss ids).1 = ss.filter (·.eligible state) := by
  induction ss generalizing ids with
  | nil => rfl
  | cons s ss ih =>
    unfold takeReady
    by_cases hs : s.eligible state <;> simp [hs, ih]

theorem takeReady_kept (state : RegistrationState) (ss : List (HandoffCapabilitySlot κ ρ))
    (ids : List Nat) : (takeReady state ss ids).2.1 = ss.filter (!·.eligible state) := by
  induction ss generalizing ids with
  | nil => rfl
  | cons s ss ih =>
    unfold takeReady
    by_cases hs : s.eligible state <;> simp [hs, ih]

/-- The ids before the loop's position, `done`, are those of slots it has kept. -/
theorem takeReady_ids (state : RegistrationState) (ss : List (HandoffCapabilitySlot κ ρ))
    (done : List Nat) (hnodup : (done ++ ss.map (·.runtimeId.value)).Nodup) :
    (takeReady state ss (done ++ ss.map (·.runtimeId.value))).2.2 =
      done ++ (ss.filter (!·.eligible state)).map (·.runtimeId.value) := by
  induction ss generalizing done with
  | nil => rfl
  | cons s ss ih =>
    rw [List.map_cons] at hnodup ⊢
    unfold takeReady
    by_cases hs : s.eligible state
    · have hout : s.runtimeId.value ∉ done := fun hmem =>
        (List.disjoint_of_nodup_append hnodup) hmem List.mem_cons_self
      have herase : (done ++ s.runtimeId.value :: ss.map (·.runtimeId.value)).erase
          s.runtimeId.value = done ++ ss.map (·.runtimeId.value) := by
        rw [List.erase_append_right _ hout, List.erase_cons_head]
      have hrest : (done ++ ss.map (·.runtimeId.value)).Nodup :=
        hnodup.sublist ((List.sublist_cons_self ..).append_left done)
      simp only [hs, if_true, herase, ih done hrest]
      simp [hs]
    · have hassoc : done ++ s.runtimeId.value :: ss.map (·.runtimeId.value) =
          (done ++ [s.runtimeId.value]) ++ ss.map (·.runtimeId.value) := by simp
      rw [hassoc] at hnodup ⊢
      have hrest := ih _ hnodup
      simp only [hs, Bool.false_eq_true, if_false, hrest]
      simp [hs]

/-! ## Sections that leave the tables alone -/

/-- The tables are as before, and the registration state has not moved back. -/
structure Keeps (r r' : Registry κ ρ) : Prop where
  slots : r'.slots = r.slots
  ids : r'.registeredIds = r.registeredIds
  stop : r'.coordinatorStop = r.coordinatorStop
  forward : r.state.rank ≤ r'.state.rank

theorem Keeps.refl (r : Registry κ ρ) : Keeps r r := ⟨rfl, rfl, rfl, Nat.le_refl _⟩

theorem RegistrationState.rank_le_finalized (st : RegistrationState) :
    st.rank ≤ RegistrationState.finalized.rank := by
  cases st <;> decide

theorem Keeps.markFinalized (r : Registry κ ρ) : Keeps r r.markFinalized :=
  ⟨rfl, rfl, rfl, r.state.rank_le_finalized⟩

theorem Keeps.finishJoin (r : Registry κ ρ) : Keeps r r.finishJoin :=
  ⟨rfl, rfl, rfl, r.state.rank_le_finalized⟩

theorem Keeps.joinOr (r : Registry κ ρ) (otherwise : WaitPc) :
    Keeps r (r.joinOr otherwise).1 := by
  unfold Registry.joinOr Registry.tryJoinExitedCoordinator
  split
  case h_1 hjoin =>
    split at hjoin
    · cases hjoin
    · cases hjoin
      exact ⟨rfl, rfl, rfl, Nat.le_refl _⟩
  case h_2 => exact Keeps.refl r

theorem Keeps.waitFinalization (r : Registry κ ρ) : Keeps r r.waitFinalization.1 := by
  unfold Registry.waitFinalization
  split
  · exact Keeps.refl r
  · split
    · exact Keeps.markFinalized r
    · split
      · exact Keeps.joinOr r _
      · exact Keeps.refl r

theorem Keeps.waitFinalizationForLoop (r : Registry κ ρ) (expired : Bool) :
    Keeps r (r.waitFinalizationForLoop expired).1 := by
  unfold Registry.waitFinalizationForLoop
  split
  · exact Keeps.refl r
  · split
    · exact Keeps.joinOr r _
    · split <;> exact Keeps.refl r

theorem Keeps.waitFinalizationFor (r : Registry κ ρ) (positive expired : Bool) :
    Keeps r (r.waitFinalizationFor positive expired).1 := by
  unfold Registry.waitFinalizationFor
  split
  · exact Keeps.refl r
  · split
    · exact Keeps.markFinalized r
    · split
      · split
        · exact Keeps.joinOr r _
        · exact Keeps.refl r
      · exact Keeps.waitFinalizationForLoop r expired

theorem Keeps.waitStep {r : Registry κ ρ} {w : Wait} {expired : Bool}
    {out : Registry κ ρ × WaitPc} (hs : w.step r expired = some out) : Keeps r out.1 := by
  unfold Wait.step at hs
  split at hs
  · cases hs
    exact Keeps.refl r
  · cases hs
    exact Keeps.waitFinalization r
  · cases hs
    exact Keeps.waitFinalizationFor r _ expired
  · split at hs
    · cases hs
      exact Keeps.waitFinalization r
    · cases hs
  · split at hs
    · cases hs
      exact Keeps.waitFinalizationForLoop r expired
    · split at hs
      · cases hs
        split
        · exact Keeps.joinOr r _
        · exact Keeps.refl r
      · cases hs
  · split at hs
    · cases hs
      exact Keeps.refl r
    · cases hs
  · split at hs
    · cases hs
      exact Keeps.refl r
    · cases hs
  · cases hs
    exact Keeps.finishJoin r
  · cases hs
  · cases hs
  · cases hs

theorem Keeps.closeRegistration (r : Registry κ ρ) : Keeps r r.closeRegistration.1 := by
  unfold Registry.closeRegistration
  split
  case isTrue hopen =>
    dsimp only
    split
    · exact Keeps.markFinalized r
    · refine ⟨rfl, rfl, rfl, ?_⟩
      rw [hopen]
      exact Nat.zero_le _
  case isFalse => exact Keeps.refl r

/-! ## The invariant -/

/-- The tables name the same runtimes, a runtime's id is in the table or among the taken
slots at most once, and only ids that registrations have used are. -/
structure Consistent (s : Process κ ρ) : Prop where
  agree : s.registry.registeredIds = s.registry.slots.map (·.runtimeId.value)
  distinct : (s.registry.slots.map (·.runtimeId) ++ s.taken.map (·.1.runtimeId)).Nodup
  used : ∀ id ∈ s.registry.slots.map (·.runtimeId) ++ s.taken.map (·.1.runtimeId), id ∈ s.used
  unclaimed : ∀ slot ∈ s.registry.slots, slot.joinClaimed = false
  ready : ∀ t ∈ s.taken, t.1.joinReady ∧ (t.1.handoffExecuted ∨ t.2 = .finalizing)
  running : s.registry.coordinatorStop = false

variable {s s' : Process κ ρ}

theorem Consistent.keeps (h : Consistent s) (hkeeps : Keeps s.registry s'.registry)
    (htaken : s'.taken = s.taken) (hused : s'.used = s.used) : Consistent s' where
  agree := by rw [hkeeps.ids, hkeeps.slots]; exact h.agree
  distinct := by rw [hkeeps.slots, htaken]; exact h.distinct
  used := by rw [hkeeps.slots, htaken, hused]; exact h.used
  unclaimed := by rw [hkeeps.slots]; exact h.unclaimed
  ready := by rw [htaken]; exact h.ready
  running := hkeeps.stop.trans h.running

theorem Consistent.update (h : Consistent s) {id : RuntimeId}
    {f : HandoffCapabilitySlot κ ρ → HandoffCapabilitySlot κ ρ}
    (hid : ∀ x, (f x).runtimeId = x.runtimeId) (hclaimed : ∀ x, (f x).joinClaimed = x.joinClaimed) :
    Consistent { s with
      registry := { s.registry with slots := updateSlot id f s.registry.slots } } where
  agree := by
    have hids : (updateSlot id f s.registry.slots).map (·.runtimeId) =
        s.registry.slots.map (·.runtimeId) := updateSlot_ids hid s.registry.slots
    have hvalues := congrArg (List.map RuntimeId.value) hids
    simp only [List.map_map] at hvalues
    exact h.agree.trans hvalues.symm
  distinct := by
    rw [updateSlot_ids hid]
    exact h.distinct
  used := by
    rw [updateSlot_ids hid]
    exact h.used
  unclaimed := by
    intro x hx
    rcases mem_updateSlot hx with hx | ⟨y, hy, rfl⟩
    · exact h.unclaimed x hx
    · exact (hclaimed y).trans (h.unclaimed y hy)
  ready := h.ready
  running := h.running

theorem Consistent.unregister (h : Consistent s) (id : RuntimeId) :
    Consistent (s.unregisterRuntime id) := by
  have hsub : (s.registry.slots.eraseP fun x => decide (x.runtimeId = id)).Sublist
      s.registry.slots := List.eraseP_sublist
  have hids := (hsub.map (·.runtimeId)).append_right (s.taken.map (·.1.runtimeId))
  refine ⟨?_, h.distinct.sublist hids, fun x hx => h.used x (hids.subset hx), ?_, h.ready, h.running⟩
  · simp only [Process.unregisterRuntime, Registry.unregisterRuntime]
    rw [h.agree, eraseP_ids]
  · exact fun x hx => h.unclaimed x (hsub.subset hx)

/-- A refused registration leaves the registry as it was; a successful one appends a slot
that is not handed over, not ready and not claimed. -/
theorem registerRuntime_cases (r : Registry κ ρ) (id : RuntimeId)
    (graceful immediate cleanup : Option κ) :
    (r.state ≠ .opened ∧ r.registerRuntime id graceful immediate cleanup = (r, false)) ∨
    (r.state = .opened ∧ ∃ r', r.registerRuntime id graceful immediate cleanup = (r', true) ∧
      r'.state = .opened ∧
      (∃ slot : HandoffCapabilitySlot κ ρ, r'.slots = r.slots ++ [slot] ∧ slot.runtimeId = id ∧
        slot.joinClaimed = false) ∧
      r'.registeredIds = r.registeredIds ++ [id.value] ∧
      r'.coordinatorThread = true ∧
      (r.coordinatorStop = false → r'.coordinatorStop = false) ∧
      (r.coordinatorExited = false → r'.coordinatorExited = false)) := by
  unfold Registry.registerRuntime
  by_cases hopen : r.state = .opened
  · refine Or.inr ⟨hopen, ?_⟩
    rw [if_neg (not_not_intro hopen)]
    refine ⟨_, rfl, ?_⟩
    unfold Registry.ensureCoordinatorStarted
    split
    case isTrue hthread =>
      exact ⟨hopen, ⟨_, rfl, rfl, rfl⟩, rfl, hthread, fun hstop => hstop, fun hout => hout⟩
    case isFalse => exact ⟨hopen, ⟨_, rfl, rfl, rfl⟩, rfl, rfl, fun _ => rfl, fun _ => rfl⟩
  · exact Or.inl ⟨hopen, by rw [if_pos hopen]⟩

theorem Consistent.register (h : Consistent s) {id : RuntimeId} (hfresh : id ∉ s.used)
    (graceful immediate cleanup : Option κ) :
    Consistent (s.registerRuntime id graceful immediate cleanup) := by
  unfold Process.registerRuntime
  obtain ⟨-, hout⟩ | ⟨-, r', hout, -, ⟨slot, hslots, rfl, hclaimed⟩, hids, -, hstop, -⟩ :=
    registerRuntime_cases s.registry id graceful immediate cleanup
  · rw [hout]
    exact ⟨h.agree, h.distinct, fun x hx => List.mem_cons_of_mem _ (h.used x hx), h.unclaimed,
      h.ready, h.running⟩
  · rw [hout]
    have hmid : List.Perm
        ((s.registry.slots ++ [slot]).map (·.runtimeId) ++ s.taken.map (·.1.runtimeId))
        (slot.runtimeId ::
          (s.registry.slots.map (·.runtimeId) ++ s.taken.map (·.1.runtimeId))) := by
      simp only [List.map_append, List.map_cons, List.map_nil, List.append_assoc,
        List.singleton_append]
      exact List.perm_middle
    have hnew : slot.runtimeId ∉
        s.registry.slots.map (·.runtimeId) ++ s.taken.map (·.1.runtimeId) :=
      fun hmem => hfresh (h.used _ hmem)
    refine ⟨?_, ?_, ?_, ?_, h.ready, hstop h.running⟩
    · dsimp only
      rw [hids, hslots, h.agree, List.map_append]
      rfl
    · dsimp only
      rw [hslots]
      exact hmid.nodup_iff.mpr (List.nodup_cons.mpr ⟨hnew, h.distinct⟩)
    · dsimp only
      rw [hslots]
      intro x hx
      rcases List.mem_cons.mp (hmid.subset hx) with rfl | hx
      · exact List.mem_cons_self
      · exact List.mem_cons_of_mem _ (h.used x hx)
    · dsimp only
      rw [hslots]
      intro x hx
      rcases List.mem_append.mp hx with hx | hx
      · exact h.unclaimed x hx
      · rw [List.mem_singleton.mp hx]
        exact hclaimed

/-! ## The coordinator's pass -/

theorem coordinatorPass_leaves (hstop : s.registry.coordinatorStop = false)
    (hdrained : s.registry.drained) :
    s.coordinatorPass =
      { s with
        registry := { s.registry with coordinatorExited := true }
        coordinator := .left } := by
  simp [Process.coordinatorPass, Registry.coordinatorPass, hstop, hdrained]

/-- A pass that does not leave the loop takes all eligible slots and keeps the others. -/
theorem coordinatorPass_takes (h : Consistent s) (hdrained : s.registry.drained = false) :
    s.coordinatorPass =
      { s with
        registry :=
          { s.registry with
            slots := s.registry.slots.filter (!·.eligible s.registry.state)
            registeredIds :=
              (s.registry.slots.filter (!·.eligible s.registry.state)).map (·.runtimeId.value) }
        coordinator :=
          .cleaning ((s.registry.slots.filter (·.eligible s.registry.state)).map (·.readyWork))
        taken := s.taken ++ (s.registry.slots.filter (·.eligible s.registry.state)).map
          fun t => (t, s.registry.state) } := by
  have hnodup : (s.registry.slots.map (·.runtimeId.value)).Nodup := by
    have hids := (List.nodup_append.mp h.distinct).1
    have hvalues := hids.map RuntimeId.value_injective
    rwa [List.map_map] at hvalues
  have hids : (takeReady s.registry.state s.registry.slots s.registry.registeredIds).2.2 =
      (s.registry.slots.filter (!·.eligible s.registry.state)).map (·.runtimeId.value) := by
    rw [h.agree]
    exact takeReady_ids s.registry.state s.registry.slots [] hnodup
  simp [Process.coordinatorPass, Registry.coordinatorPass, h.running, hdrained, takeReady_taken,
    takeReady_kept, hids]

theorem Consistent.pass (h : Consistent s) : Consistent s.coordinatorPass := by
  by_cases hdrained : s.registry.drained
  · rw [coordinatorPass_leaves h.running hdrained]
    exact ⟨h.agree, h.distinct, h.used, h.unclaimed, h.ready, h.running⟩
  · rw [coordinatorPass_takes h (by simpa using hdrained)]
    set now := s.registry.slots.filter (·.eligible s.registry.state) with hnow
    set kept := s.registry.slots.filter (!·.eligible s.registry.state) with hkept
    have hsplit : List.Perm (now ++ kept) s.registry.slots :=
      List.filter_append_perm (·.eligible s.registry.state) s.registry.slots
    have hall : List.Perm
        (kept.map (·.runtimeId) ++ (s.taken ++ now.map fun t => (t, s.registry.state)).map
          (·.1.runtimeId))
        (s.registry.slots.map (·.runtimeId) ++ s.taken.map (·.1.runtimeId)) := by
      have hnowIds : (now.map fun t => (t, s.registry.state)).map (·.1.runtimeId) =
          now.map (·.runtimeId) := by simp
      rw [List.map_append, hnowIds]
      calc List.Perm _ (kept.map (·.runtimeId) ++ (now.map (·.runtimeId) ++
            s.taken.map (·.1.runtimeId))) := List.Perm.append_left _ List.perm_append_comm
        List.Perm _ ((kept.map (·.runtimeId) ++ now.map (·.runtimeId)) ++
            s.taken.map (·.1.runtimeId)) := by rw [List.append_assoc]
        List.Perm _ _ := by
          refine List.Perm.append_right _ ?_
          rw [← List.map_append]
          exact (List.perm_append_comm.trans hsplit).map _
    refine ⟨rfl, hall.nodup_iff.mpr h.distinct, fun x hx => h.used x (hall.subset hx), ?_, ?_,
      h.running⟩
    · intro x hx
      exact h.unclaimed x (List.mem_of_mem_filter hx)
    · intro t ht
      rcases List.mem_append.mp ht with ht | ht
      · exact h.ready t ht
      · obtain ⟨slot, hslot, rfl⟩ := List.mem_map.mp ht
        have helig := (List.mem_filter.mp hslot).2
        simp only [HandoffCapabilitySlot.eligible, Bool.and_eq_true, Bool.or_eq_true,
          decide_eq_true_eq] at helig
        exact ⟨helig.1.2, helig.1.1⟩

/-! ## Every step -/

theorem Consistent.step (h : Consistent s) {a : Label κ ρ}
    (hs : Process.next s a = some s') : Consistent s' := by
  unfold Process.next at hs
  cases a with
  | registerRuntime id graceful immediate cleanup =>
    dsimp only at hs
    by_cases hfresh : id ∈ s.used
    · rw [if_pos hfresh] at hs
      cases hs
    · rw [if_neg hfresh] at hs
      cases hs
      exact h.register hfresh graceful immediate cleanup
  | unregisterRuntime id =>
    cases hs
    exact h.unregister id
  | replaceCleanupFn id cleanup =>
    cases hs
    exact h.update (fun _ => rfl) fun _ => rfl
  | executeWorkerHandoff id state cleanup =>
    cases hs
    exact h.update (fun _ => rfl) fun _ => rfl
  | notifyJoinReady id =>
    cases hs
    exact h.update (fun _ => rfl) fun _ => rfl
  | closeRegistration =>
    cases hs
    exact h.keeps (Keeps.closeRegistration s.registry) rfl rfl
  | requestAllImmediate | callWait call onWorker =>
    cases hs
    exact h.keeps (Keeps.refl s.registry) rfl rfl
  | destroyImpl id =>
    dsimp only at hs
    split at hs <;> cases hs
    exact h.keeps (Keeps.refl s.registry) rfl rfl
  | beginCallback j =>
    obtain ⟨b, -, hs⟩ := Option.bind_eq_some_iff.mp hs
    unfold Process.beginCallback at hs
    split at hs <;> cases hs
    exact h.keeps (Keeps.refl s.registry) rfl rfl
  | endCallback j =>
    obtain ⟨b, -, hs⟩ := Option.bind_eq_some_iff.mp hs
    unfold Process.endCallback at hs
    split at hs <;> cases hs
    exact h.keeps (Keeps.refl s.registry) rfl rfl
  | coordinatorPass =>
    dsimp only at hs
    split at hs
    · split at hs <;> cases hs
      exact h.pass
    · cases hs
  | coordinatorCleanup | coordinatorReturn =>
    dsimp only at hs
    split at hs <;> cases hs <;> exact h.keeps (Keeps.refl s.registry) rfl rfl
  | waitStep i expired =>
    obtain ⟨w, -, hs⟩ := Option.bind_eq_some_iff.mp hs
    obtain ⟨out, hout, rfl⟩ := Option.map_eq_some_iff.mp hs
    exact h.keeps (Keeps.waitStep hout) rfl rfl
  | waitJoin i =>
    obtain ⟨w, -, hs⟩ := Option.bind_eq_some_iff.mp hs
    dsimp only at hs
    split at hs <;> cases hs <;> exact h.keeps (Keeps.refl s.registry) rfl rfl

theorem consistent_of_reachable (h : Process.machine.Reachable s) : Consistent s := by
  refine h.invariant Consistent ?_ fun s a s' hc _ hs => hc.step hs
  rintro s rfl
  exact ⟨rfl, List.nodup_nil, fun _ hid => absurd hid List.not_mem_nil,
    fun _ hslot => absurd hslot List.not_mem_nil, fun _ ht => absurd ht List.not_mem_nil, rfl⟩

/-- The registration state does not move back in a step. -/
theorem state_forward {a : Label κ ρ} (hs : Process.next s a = some s') :
    s.registry.state.rank ≤ s'.registry.state.rank := by
  unfold Process.next at hs
  cases a with
  | registerRuntime id graceful immediate cleanup =>
    dsimp only at hs
    split at hs <;> cases hs
    unfold Process.registerRuntime
    obtain ⟨-, hout⟩ | ⟨hopen, r', hout, hopen', -⟩ :=
      registerRuntime_cases s.registry id graceful immediate cleanup
    · rw [hout]
    · rw [hout]
      exact Nat.le_of_eq (by rw [hopen, hopen'])
  | closeRegistration =>
    cases hs
    exact (Keeps.closeRegistration s.registry).forward
  | unregisterRuntime _ | replaceCleanupFn _ _ | executeWorkerHandoff _ _ _ | notifyJoinReady _
  | requestAllImmediate | callWait _ _ =>
    cases hs
    exact Nat.le_refl _
  | destroyImpl id =>
    dsimp only at hs
    split at hs <;> cases hs
    exact Nat.le_refl _
  | beginCallback j =>
    obtain ⟨b, -, hs⟩ := Option.bind_eq_some_iff.mp hs
    unfold Process.beginCallback at hs
    split at hs <;> cases hs
    exact Nat.le_refl _
  | endCallback j =>
    obtain ⟨b, -, hs⟩ := Option.bind_eq_some_iff.mp hs
    unfold Process.endCallback at hs
    split at hs <;> cases hs
    exact Nat.le_refl _
  | coordinatorPass =>
    dsimp only at hs
    split at hs
    · split at hs <;> cases hs
      unfold Process.coordinatorPass Registry.coordinatorPass
      split <;> exact Nat.le_refl _
    · cases hs
  | coordinatorCleanup | coordinatorReturn =>
    dsimp only at hs
    split at hs <;> cases hs <;> exact Nat.le_refl _
  | waitStep i expired =>
    obtain ⟨w, -, hs⟩ := Option.bind_eq_some_iff.mp hs
    obtain ⟨out, hout, rfl⟩ := Option.map_eq_some_iff.mp hs
    exact (Keeps.waitStep hout).forward
  | waitJoin i =>
    obtain ⟨w, -, hs⟩ := Option.bind_eq_some_iff.mp hs
    dsimp only at hs
    split at hs <;> cases hs <;> exact Nat.le_refl _

theorem state_forward_run {as : List (Label κ ρ)} (hr : Process.machine.run s as = some s') :
    s.registry.state.rank ≤ s'.registry.state.rank := by
  refine Transition.Machine.run_keeps (m := Process.machine)
    (P := fun t => s.registry.state.rank ≤ t.registry.state.rank) ?_ (Nat.le_refl _) hr
  intro t a t' ht hs
  exact Nat.le_trans ht (state_forward hs)

/-- The coordinator's thread leaves its loop only in a pass over a drained registry. -/
theorem leaves_drained (h : Consistent s) {a : Label κ ρ} (hs : Process.next s a = some s')
    (hin : s.coordinator.inLoop) (hout : s'.coordinator.inLoop = false) :
    s.registry.drained := by
  unfold Process.next at hs
  have hsame : s'.coordinator = s.coordinator → s.registry.drained := fun he => by
    rw [he, hin] at hout
    cases hout
  cases a with
  | registerRuntime id graceful immediate cleanup =>
    dsimp only at hs
    split at hs <;> cases hs
    unfold Process.registerRuntime at hout hsame
    dsimp only at hout hsame
    split at hout
    · cases hout
    · exact hsame (if_neg ‹_›)
  | closeRegistration | unregisterRuntime _ | replaceCleanupFn _ _ | executeWorkerHandoff _ _ _
  | notifyJoinReady _ | requestAllImmediate | callWait _ _ =>
    cases hs
    exact hsame rfl
  | destroyImpl id =>
    dsimp only at hs
    split at hs <;> cases hs
    exact hsame rfl
  | beginCallback j =>
    obtain ⟨b, -, hs⟩ := Option.bind_eq_some_iff.mp hs
    unfold Process.beginCallback at hs
    split at hs <;> cases hs
    exact hsame rfl
  | endCallback j =>
    obtain ⟨b, -, hs⟩ := Option.bind_eq_some_iff.mp hs
    unfold Process.endCallback at hs
    split at hs <;> cases hs
    exact hsame rfl
  | coordinatorPass =>
    dsimp only at hs
    split at hs
    · split at hs <;> cases hs
      by_cases hdrained : s.registry.drained
      · exact hdrained
      · rw [coordinatorPass_takes h (by simpa using hdrained)] at hout
        cases hout
    · cases hs
  | coordinatorCleanup =>
    dsimp only at hs
    split at hs <;> cases hs <;> cases hout
  | coordinatorReturn =>
    dsimp only at hs
    split at hs <;> cases hs
    rename_i hleft
    rw [hleft] at hin
    cases hin
  | waitStep i expired =>
    obtain ⟨w, -, hs⟩ := Option.bind_eq_some_iff.mp hs
    obtain ⟨out, hout', rfl⟩ := Option.map_eq_some_iff.mp hs
    exact hsame rfl
  | waitJoin i =>
    obtain ⟨w, -, hs⟩ := Option.bind_eq_some_iff.mp hs
    dsimp only at hs
    split at hs <;> cases hs
    · exact hsame rfl
    · rename_i hfinished
      rw [hfinished] at hin
      cases hin

/-! ## The claim about whole runs -/

/-- What the registry guarantees in a state and in every run that goes on from it. -/
structure RegistrySafe (s : Process κ ρ) : Prop where
  /-- The slot table and the id list name the same runtimes, each once. -/
  agree : s.registry.registeredIds = s.registry.slots.map (·.runtimeId.value)
  distinct : (s.registry.slots.map (·.runtimeId)).Nodup
  /-- After `close_registration` no registration succeeds. -/
  closed : ∀ (as : List (Label κ ρ)) (s' : Process κ ρ),
    Process.machine.run s (.closeRegistration :: as) = some s' →
    ∀ id graceful immediate cleanup,
      (s'.registry.registerRuntime id graceful immediate cleanup).2 = false
  /-- The coordinator takes a runtime's slot at most once, -/
  takenOnce : (s.taken.map (·.1.runtimeId)).Nodup
  /-- and only when it is join-ready, and handed over or seen while finalizing. -/
  takenReady : ∀ t ∈ s.taken, t.1.joinReady ∧ (t.1.handoffExecuted ∨ t.2 = .finalizing)
  /-- A pass takes every slot that is eligible, whatever else is in the table. -/
  pass : ∀ s', Process.next s .coordinatorPass = some s' → ∀ slot ∈ s.registry.slots,
    slot.joinReady → slot.handoffExecuted ∨ s.registry.state = .finalizing →
      slot ∉ s'.registry.slots ∧ (slot, s.registry.state) ∈ s'.taken ∧
      ∃ works, s'.coordinator = .cleaning works ∧ slot.readyWork ∈ works
  /-- The registration state only moves forward. -/
  forward : ∀ (as : List (Label κ ρ)) (s' : Process κ ρ),
    Process.machine.run s as = some s' → s.registry.state.rank ≤ s'.registry.state.rank
  /-- The coordinator leaves its loop only when finalizing with both tables empty. -/
  leaves : ∀ a s', Process.next s a = some s' → s.coordinator.inLoop →
    s'.coordinator.inLoop = false →
      s.registry.state = .finalizing ∧ s.registry.slots = [] ∧ s.registry.registeredIds = []

theorem closed_of_close {as : List (Label κ ρ)}
    (hr : Process.machine.run s (.closeRegistration :: as) = some s') (id : RuntimeId)
    (graceful immediate cleanup : Option κ) :
    (s'.registry.registerRuntime id graceful immediate cleanup).2 = false := by
  obtain ⟨t, ht, hr⟩ := Option.bind_eq_some_iff.mp hr
  have hclosed : RegistrationState.opened.rank < t.registry.state.rank := by
    cases ht
    unfold Process.closeRegistration Registry.closeRegistration
    by_cases hopen : s.registry.state = .opened
    · rw [if_pos hopen]
      dsimp only
      split <;> exact Nat.zero_lt_succ _
    · rw [if_neg hopen]
      dsimp only
      cases hstate : s.registry.state with
      | opened => exact absurd hstate hopen
      | finalizing | finalized => exact Nat.zero_lt_succ _
  have hforward := state_forward_run hr
  have hne : s'.registry.state ≠ .opened := fun he => by
    rw [he] at hforward
    omega
  unfold Registry.registerRuntime
  rw [if_pos hne]

theorem pass_takes (h : Consistent s) (hs : Process.next s .coordinatorPass = some s')
    {slot : HandoffCapabilitySlot κ ρ} (hslot : slot ∈ s.registry.slots)
    (hready : slot.joinReady)
    (hdue : slot.handoffExecuted ∨ s.registry.state = .finalizing) :
    slot ∉ s'.registry.slots ∧ (slot, s.registry.state) ∈ s'.taken ∧
      ∃ works, s'.coordinator = .cleaning works ∧ slot.readyWork ∈ works := by
  have helig : slot.eligible s.registry.state := by
    simp [HandoffCapabilitySlot.eligible, hready, hdue, h.unclaimed slot hslot]
  have hdrained : s.registry.drained = false := by
    simp only [Registry.drained, Bool.and_eq_false_iff, List.isEmpty_eq_false_iff]
    exact Or.inl (Or.inr (List.ne_nil_of_mem hslot))
  have hs' : s' = s.coordinatorPass := by
    unfold Process.next at hs
    dsimp only at hs
    split at hs
    · split at hs <;> cases hs
      rfl
    · cases hs
  rw [hs', coordinatorPass_takes h hdrained]
  refine ⟨?_, ?_, _, rfl, ?_⟩
  · intro hmem
    have hkept := (List.mem_filter.mp hmem).2
    rw [helig] at hkept
    cases hkept
  · apply List.mem_append_right
    exact List.mem_map.mpr ⟨slot, List.mem_filter.mpr ⟨hslot, helig⟩, rfl⟩
  · exact List.mem_map.mpr ⟨slot, List.mem_filter.mpr ⟨hslot, helig⟩, rfl⟩

/-- **The Reaper registry is safe** in every reachable state: for any interleaving of
registrations under distinct ids, unregistrations, handoffs, join-ready notifications,
closes, waits and coordinator passes. -/
theorem registrySafe_of_reachable (h : Process.machine.Reachable s) : RegistrySafe s := by
  have hc := consistent_of_reachable h
  refine
    { agree := hc.agree
      distinct := (List.nodup_append.mp hc.distinct).1
      closed := fun as s' hr => closed_of_close hr
      takenOnce := (List.nodup_append.mp hc.distinct).2.1
      takenReady := hc.ready
      pass := fun s' hs slot hslot hready hdue => pass_takes hc hs hslot hready hdue
      forward := fun as s' hr => state_forward_run hr
      leaves := ?_ }
  intro a s' hs hin hout
  have hdrained := leaves_drained hc hs hin hout
  simp only [Registry.drained, Bool.and_eq_true, decide_eq_true_eq, List.isEmpty_iff] at hdrained
  exact ⟨hdrained.1.1, hdrained.1.2, hdrained.2⟩

/-- Runtime 1 is ready before it is handed over and runtime 2 the other way round; runtime 3
stays pending while both are taken, and is taken once the registry is closed. -/
def twoHandoffs : List (Label Nat Nat) :=
  [.registerRuntime ⟨1⟩ (some 0) (some 1) (some 2), .registerRuntime ⟨2⟩ none none none,
    .registerRuntime ⟨3⟩ none none (some 3), .notifyJoinReady ⟨1⟩,
    .executeWorkerHandoff ⟨1⟩ (some 7) (some 4), .executeWorkerHandoff ⟨2⟩ (some 8) (some 5),
    .notifyJoinReady ⟨2⟩, .coordinatorPass, .coordinatorCleanup, .coordinatorCleanup,
    .coordinatorCleanup, .closeRegistration, .notifyJoinReady ⟨3⟩, .coordinatorPass]

theorem registrySafe_twoHandoffs :
    ∃ s, Process.machine.run {} twoHandoffs = some s ∧ RegistrySafe s ∧
      s.taken.map (·.1.runtimeId) = [⟨1⟩, ⟨2⟩, ⟨3⟩] ∧ s.registry.slots = [] := by
  obtain ⟨s, hs⟩ := Option.isSome_iff_exists.mp
    (show (Process.machine.run {} twoHandoffs).isSome by decide)
  have hend : (Process.machine.run {} twoHandoffs).map (fun t =>
      (t.taken.map (·.1.runtimeId), t.registry.slots)) = some ([⟨1⟩, ⟨2⟩, ⟨3⟩], []) := by decide
  rw [hs] at hend
  have hpair := Prod.mk.inj (Option.some.inj hend)
  exact ⟨s, hs, registrySafe_of_reachable (Transition.Machine.reachable_of_run rfl hs),
    hpair.1, hpair.2⟩

end AstraScheduler.ReaperRegistry
