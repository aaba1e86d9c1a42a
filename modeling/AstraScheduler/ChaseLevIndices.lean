import AstraScheduler.ChaseLevDelivery

/-! # The indices fit in 64 bits

`push` rebases once an index has reached the high watermark, and a successful rebase
leaves fewer elements than the capacity.  So `bottom` exceeds neither the watermark nor
the capacity, whichever is the larger, and the capacity is never doubled past 2^63. -/

namespace AstraScheduler
namespace ChaseLevDeque

variable {α : Type*} {n : Nat} {l : TicketLedger α} {s s' : System α n}

theorem capacity_storeCell (d : Deque α) (buf i : Nat) (item : α) :
    (d.storeCell buf i item).activeBuffer.capacity = d.activeBuffer.capacity := by
  by_cases h : d.active = buf
  · subst h
    simp [Deque.storeCell, Deque.activeBuffer]
  · simp [Deque.storeCell, Deque.activeBuffer, h]

/-- The bound on `bottom`. -/
def Deque.limit (d : Deque α) : Nat := max rebaseHighWatermark d.activeBuffer.capacity

/-- The owner's locals respect the bound on `bottom` wherever they may be stored to it. -/
def Bounded (d : Deque α) : OwnerPc α → Prop
  | .pushReloadBottom _ => d.bottom < d.limit
  | .pushReloadTop _ b | .pushActive _ b _ | .pushStore _ b _ | .pushPublish _ b => b < d.limit
  | .growCopy _ b _ _ _ fresh | .growPublish _ b fresh =>
    b < d.limit ∧ fresh.capacity ≤ 2 ^ 63
  | .popActive b => 0 < b ∧ b ≤ d.limit
  | .popDecrement b _ | .popTop b _ | .popCell b _ _ | .popCas b _ | .popRestoreSuccess b _
  | .popRestoreEmpty b => b + 1 ≤ d.limit
  | .rebaseCopy live _ _ _ _ | .rebaseStoreTop live _ | .rebaseStoreBottom live _ =>
    live < d.limit
  | .rebaseClear result _ => result → d.bottom < d.limit
  | _ => True

/-- The bounds that hold between steps. -/
structure InRange (s : System α n) : Prop where
  capacity : s.deque.activeBuffer.capacity ≤ 2 ^ 63
  bottom : s.deque.bottom ≤ s.deque.limit
  owner : Bounded s.deque s.owner

theorem bounded_afterRebase {d : Deque α} {result : Bool} (h : result → d.bottom < d.limit)
    (caller : RebaseCaller α) : Bounded d (afterRebase result caller) := by
  cases caller with
  | push item =>
    cases result with
    | true => exact h rfl
    | false => trivial
  | pop => trivial
  | user => trivial

theorem InRange.goto {pc' : OwnerPc α} (h : InRange s) (hown : Bounded s.deque pc') :
    InRange { s with owner := pc' } :=
  ⟨h.capacity, h.bottom, hown⟩

theorem Bounded.congr {d d' : Deque α} {pc : OwnerPc α} (h : Bounded d pc)
    (hbottom : d'.bottom = d.bottom) (hlimit : d'.limit = d.limit) : Bounded d' pc := by
  cases pc <;> simp only [Bounded, hbottom, hlimit] at h ⊢ <;> exact h

/-- The thieves move `top` only. -/
theorem InRange.thiefStep {i : Fin n} (h : InRange s) (hs : thiefStep s i = some s') :
    InRange s' := by
  have hsame : s'.owner = s.owner ∧ s'.deque.bottom = s.deque.bottom ∧
      s'.deque.activeBuffer = s.deque.activeBuffer := by
    unfold ChaseLevDeque.thiefStep at hs
    split at hs
    case h_9 t item hpc =>
      split_ifs at hs <;> (obtain rfl := Option.some.inj hs; exact ⟨rfl, rfl, rfl⟩)
    all_goals first
      | cases hs; done
      | obtain rfl := Option.some.inj hs; exact ⟨rfl, rfl, rfl⟩
  obtain ⟨hpc, hbottom, hbuf⟩ := hsame
  have hlimit : s'.deque.limit = s.deque.limit := by simp only [Deque.limit, hbuf]
  refine ⟨hbuf ▸ h.capacity, ?_, ?_⟩
  · rw [hbottom, hlimit]
    exact h.bottom
  · rw [hpc]
    exact h.owner.congr hbottom hlimit

variable [Inhabited α]

theorem InRange.ownerStep {fail : Bool} (h : InRange s) (hl : Represents s l)
    (hs : ownerStep s fail = some s') : InRange s' := by
  have hb := h.owner
  have hown := hl.owner
  have hcap := h.capacity
  have hbottom := h.bottom
  have hle : s.deque.activeBuffer.capacity ≤ s.deque.limit := le_max_right _ _
  have hmark : rebaseHighWatermark ≤ s.deque.limit := le_max_left _ _
  cases hpc : s.owner with
  | idle => simp [hpc, ChaseLevDeque.ownerStep] at hs
  | pushTop item b =>
    simp only [hpc, ChaseLevDeque.ownerStep, Option.some.injEq] at hb hs
    subst hs
    -- from the high watermark on, the owner rebases before it pushes
    split_ifs with hwm
    · exact h.goto trivial
    · exact h.goto (show b < s.deque.limit by omega)
  | pushReloadBottom item | pushReloadTop item b =>
    simp only [hpc, ChaseLevDeque.ownerStep, Option.some.injEq] at hb hs
    subst hs
    exact h.goto hb
  | pushActive item b t =>
    simp only [hpc, ChaseLevDeque.ownerStep, Option.some.injEq] at hb hs
    subst hs
    refine h.goto ?_
    simp only [pushRoom]
    split_ifs with h1 h2 h3
    · trivial
    · exact hb
    · trivial
    · refine ⟨hb, ?_⟩
      rw [Buffer.capacity_doubled]
      omega
  | growCopy item b t buf i fresh =>
    simp only [hpc, ChaseLevDeque.ownerStep, Option.some.injEq] at hb hs
    subst hs
    split_ifs
    · exact h.goto hb
    · exact h.goto hb
  | growPublish item b fresh =>
    simp only [hpc, ChaseLevDeque.ownerStep] at hb hown hs
    split_ifs at hs
    · obtain rfl := Option.some.inj hs
      exact h.goto trivial
    · obtain rfl := Option.some.inj hs
      -- a larger buffer only raises the limit
      have hbuf := activeBuffer_publishBuffer (d := s.deque) fresh
      have hgrow := hown.2.2.1
      have hlimit : s.deque.limit ≤ (s.deque.publishBuffer fresh).limit := by
        simp only [Deque.limit, hbuf]
        omega
      refine ⟨?_, hbottom.trans hlimit, hb.1.trans_le hlimit⟩
      show (s.deque.publishBuffer fresh).activeBuffer.capacity ≤ 2 ^ 63
      rw [hbuf]
      exact hb.2
  | pushStore item b buf =>
    simp only [hpc, ChaseLevDeque.ownerStep, Option.some.injEq] at hb hs
    subst hs
    have hsame := capacity_storeCell s.deque buf b item
    refine ⟨hsame.trans_le hcap, ?_, ?_⟩
    · show s.deque.bottom ≤ max _ _
      rw [hsame]
      exact hbottom
    · show b < max _ _
      rw [hsame]
      exact hb
  | pushPublish item b =>
    simp only [hpc, ChaseLevDeque.ownerStep, Option.some.injEq] at hb hs
    subst hs
    exact ⟨hcap, hb, trivial⟩
  | popBottom =>
    simp only [hpc, ChaseLevDeque.ownerStep, Option.some.injEq] at hb hs
    subst hs
    split_ifs with hzero
    · exact h.goto trivial
    · exact h.goto ⟨Nat.pos_of_ne_zero hzero, hbottom⟩
  | popActive b =>
    simp only [hpc, ChaseLevDeque.ownerStep, Option.some.injEq] at hb hs
    subst hs
    obtain ⟨hpos, hle'⟩ := hb
    exact h.goto (show b - 1 + 1 ≤ s.deque.limit by omega)
  | popDecrement b buf =>
    simp only [hpc, ChaseLevDeque.ownerStep, Option.some.injEq] at hb hs
    subst hs
    -- `bottom` is one lower while the owner looks at `top`
    exact ⟨hcap, Nat.le_of_succ_le hb, hb⟩
  | popTop b buf =>
    simp only [hpc, ChaseLevDeque.ownerStep, Option.some.injEq] at hb hs
    subst hs
    split_ifs
    · exact h.goto hb
    · exact h.goto hb
  | popCell b buf t =>
    simp only [hpc, ChaseLevDeque.ownerStep] at hb hs
    split_ifs at hs
    · obtain rfl := Option.some.inj hs
      exact h.goto hb
    · obtain rfl := Option.some.inj hs
      exact ⟨hcap, hbottom, trivial⟩
  | popCas b item =>
    simp only [hpc, ChaseLevDeque.ownerStep] at hb hs
    split_ifs at hs
    · obtain rfl := Option.some.inj hs
      exact ⟨hcap, hbottom, hb⟩
    · obtain rfl := Option.some.inj hs
      exact h.goto hb
  | popRestoreSuccess b item | popRestoreEmpty b =>
    simp only [hpc, ChaseLevDeque.ownerStep, Option.some.injEq] at hb hs
    subst hs
    exact ⟨hcap, hb, trivial⟩
  | rebaseTop wm b caller | rebaseInject caller =>
    simp only [hpc, ChaseLevDeque.ownerStep, Option.some.injEq] at hb hs
    subst hs
    split_ifs
    · exact h.goto (bounded_afterRebase (by simp) caller)
    · exact h.goto trivial
  | rebaseSpin caller =>
    simp only [hpc, ChaseLevDeque.ownerStep, Option.some.injEq] at hb hs
    subst hs
    split_ifs
    · exact h.goto trivial
    · exact h.goto trivial
  | rebaseReloadActive b t caller =>
    simp only [hpc, ChaseLevDeque.ownerStep, Option.some.injEq] at hb hs
    subst hs
    have hpos := s.deque.activeBuffer.capacity_pos
    split_ifs
    · exact h.goto (by simp [Bounded])
    · exact h.goto (show 0 < s.deque.limit by omega)
    · exact h.goto (by simp [Bounded])
    · exact h.goto trivial
  | rebaseSnapshot t live buf snapshot caller =>
    simp only [hpc, ChaseLevDeque.ownerStep, Option.some.injEq] at hb hown hs
    subst hs
    split_ifs
    · exact h.goto trivial
    -- what is live fits into the buffer, so the new `bottom` is in range
    · have hlive := hown.2.2.1
      have hroom := hown.1.ring.room
      exact h.goto (show live < s.deque.limit by omega)
  | rebaseCopy live buf snapshot i caller =>
    simp only [hpc, ChaseLevDeque.ownerStep] at hb hs
    cases hitem : snapshot[i]? with
    | some item =>
      simp only [hitem, Option.some.injEq] at hs
      subst hs
      have hsame := capacity_storeCell s.deque buf i item
      refine ⟨hsame.trans_le hcap, ?_, ?_⟩
      · show s.deque.bottom ≤ max _ _
        rw [hsame]
        exact hbottom
      · show live < max _ _
        rw [hsame]
        exact hb
    | none =>
      simp only [hitem, Option.some.injEq] at hs
      subst hs
      exact h.goto hb
  | rebaseStoreTop live caller =>
    simp only [hpc, ChaseLevDeque.ownerStep, Option.some.injEq] at hb hs
    subst hs
    exact ⟨hcap, hbottom, hb⟩
  | rebaseStoreBottom live caller =>
    simp only [hpc, ChaseLevDeque.ownerStep, Option.some.injEq] at hb hs
    subst hs
    exact ⟨hcap, Nat.le_of_lt hb, fun _ => hb⟩
  | rebaseClear result caller =>
    simp only [hpc, ChaseLevDeque.ownerStep, Option.some.injEq] at hb hs
    subst hs
    exact ⟨hcap, hbottom, bounded_afterRebase hb caller⟩
  | pushBottom item | rebaseBottom wm caller | rebaseMaintain caller
  | rebaseReloadBottom caller | rebaseReloadTop b caller =>
    simp only [hpc, ChaseLevDeque.ownerStep, Option.some.injEq] at hs
    subst hs
    exact ⟨hcap, hbottom, trivial⟩

theorem InRange.step {a : Label α n} (h : InRange s) (hl : Represents s l)
    (hs : step s a = some s') : InRange s' := by
  cases a with
  | call op =>
    cases hpc : s.owner with
    | idle =>
      simp only [ChaseLevDeque.step, hpc, Option.some.injEq] at hs
      subst hs
      cases op with
      | push item => exact h.goto trivial
      | pop => exact h.goto trivial
      | maybeQuiescentRebase wm => exact h.goto trivial
    | _ => simp [ChaseLevDeque.step, hpc] at hs
  | owner fail => exact h.ownerStep hl hs
  | steal i =>
    cases hpc : s.thieves i with
    | idle =>
      simp only [ChaseLevDeque.step, hpc, Option.some.injEq] at hs
      subst hs
      exact ⟨h.capacity, h.bottom, h.owner⟩
    | _ => simp [ChaseLevDeque.step, hpc] at hs
  | thief i => exact h.thiefStep hs

theorem inRange_initial {k : Nat} (hk : k < 64) : InRange (initial α n k) where
  capacity := Nat.pow_le_pow_right (by decide) (by omega)
  bottom := Nat.zero_le _
  owner := trivial

/-- **The indices fit in 64 bits** in every reachable state: `bottom` has not passed both the
high watermark and the capacity, and the capacity is no more than 2^63. -/
theorem indices_inRange (h : (machine α n).Reachable s) :
    s.deque.bottom ≤ s.deque.limit ∧ s.deque.limit ≤ 2 ^ 63 ∧
      s.deque.activeBuffer.capacity ≤ 2 ^ 63 := by
  have hinv : (∃ l, Represents s l) ∧ InRange s := by
    refine h.invariant (fun s => (∃ l, Represents s l) ∧ InRange s) ?_ ?_
    · rintro s ⟨k, hk, rfl⟩
      exact ⟨⟨.empty, represents_initial k⟩, inRange_initial hk⟩
    · rintro s a s' ⟨⟨l, hl⟩, hr⟩ _ hs
      exact ⟨hl.step hs, hr.step hl hs⟩
  have hcap := hinv.2.capacity
  have hmark : rebaseHighWatermark ≤ 2 ^ 63 := by decide
  exact ⟨hinv.2.bottom, max_le hmark hcap, hcap⟩

/-- Two pushes into a ring of two, which the second one doubles. -/
def pushAndGrow : List (Label Nat 1) :=
  ([.call (.push 7)] : List (Label Nat 1)) ++
    (List.replicate 5 (.owner false) : List (Label Nat 1)) ++
    ([.call (.push 8)] : List (Label Nat 1)) ++
    (List.replicate 8 (.owner false) : List (Label Nat 1))

theorem indices_inRange_pushAndGrow :
    ∃ s, (machine Nat 1).run (initial Nat 1 1) pushAndGrow = some s ∧
      (s.deque.bottom, s.deque.activeBuffer.capacity) = (2, 4) ∧ s.deque.limit ≤ 2 ^ 63 := by
  obtain ⟨s, hs⟩ := Option.isSome_iff_exists.mp
    (show ((machine Nat 1).run (initial Nat 1 1) pushAndGrow).isSome by decide)
  have hend : ((machine Nat 1).run (initial Nat 1 1) pushAndGrow).map
      (fun s => (s.deque.bottom, s.deque.activeBuffer.capacity)) = some (2, 4) := by decide
  rw [hs] at hend
  exact ⟨s, hs, Option.some.inj hend,
    (indices_inRange (Transition.Machine.reachable_of_run ⟨1, by decide, rfl⟩ hs)).2.1⟩

end ChaseLevDeque
end AstraScheduler
