import AstraScheduler.ChaseLevOwner

/-! # Exactly-once delivery of the deque

Every step of the owner and of the thieves keeps a ledger for the state, so every
reachable state has one. -/

namespace AstraScheduler
namespace ChaseLevDeque

open Transition (Machine)

variable {α : Type*} {n : Nat} {l : TicketLedger α} {s s' : System α n}

/-! ## The owner -/

section Owner

/-- The owner is inside `push`, its rebase apart. -/
def OwnerPc.inPush : OwnerPc α → Bool
  | .pushBottom _ | .pushTop _ _ | .pushReloadBottom _ | .pushReloadTop _ _
  | .pushActive _ _ _ | .growCopy _ _ _ _ _ _ | .growPublish _ _ _ | .pushStore _ _ _
  | .pushPublish _ _ => true
  | _ => false

/-- The owner is inside `pop`, its rebase apart. -/
def OwnerPc.inPop : OwnerPc α → Bool
  | .popBottom | .popActive _ | .popDecrement _ _ | .popTop _ _ | .popCell _ _ _
  | .popCas _ _ | .popRestoreSuccess _ _ | .popRestoreEmpty _ => true
  | _ => false

variable [Inhabited α]

theorem Represents.pushStep {fail : Bool} (h : Represents s l)
    (hin : s.owner.inPush) (hs : ownerStep s fail = some s') : ∃ l', Represents s' l' := by
  have hown := h.owner
  cases hpc : s.owner with
  | pushBottom item =>
    simp only [hpc, ownerStep, Option.some.injEq] at hown hs
    subst hs
    exact ⟨l, h.goto_outside ⟨hown, rfl⟩ rfl⟩
  | pushTop item b =>
    simp only [hpc, ownerStep, Option.some.injEq] at hown hs
    subst hs
    obtain ⟨hset, rfl⟩ := hown
    have hlen := hset.length_lt
    refine ⟨l, ?_⟩
    split_ifs
    · exact h.goto_outside hset rfl
    · exact h.goto_outside ⟨hset, rfl, le_rfl, by omega⟩ rfl
  | pushReloadBottom item =>
    simp only [hpc, ownerStep, Option.some.injEq] at hown hs
    subst hs
    exact ⟨l, h.goto_outside ⟨hown, rfl⟩ rfl⟩
  | pushReloadTop item b =>
    simp only [hpc, ownerStep, Option.some.injEq] at hown hs
    subst hs
    obtain ⟨hset, rfl⟩ := hown
    have hlen := hset.length_lt
    exact ⟨l, h.goto_outside ⟨hset, rfl, le_rfl, by omega⟩ rfl⟩
  | pushActive item b t =>
    simp only [hpc, ownerStep, Option.some.injEq] at hown hs
    subst hs
    refine ⟨l, h.goto_outside (pushRoom_ok hown fail) ?_⟩
    simp only [pushRoom]
    split_ifs <;> rfl
  | growCopy item b t buf i fresh =>
    simp only [hpc, ownerStep, Option.some.injEq] at hown hs
    subst hs
    refine ⟨l, ?_⟩
    split_ifs with hi
    · exact h.goto_outside (growCopy_ok hown hi) rfl
    · exact h.goto_outside (growCopy_done hown hi) rfl
  | growPublish item b fresh =>
    simp only [hpc, ownerStep] at hown hs
    split_ifs at hs with hfail
    · obtain rfl := Option.some.inj hs
      exact ⟨l, h.goto_outside hown.1 rfl⟩
    · obtain rfl := Option.some.inj hs
      obtain ⟨hok, hkeep⟩ := growPublish_ok hown
      exact ⟨l, h.owner_outside h.issued h.delivered hok hkeep rfl rfl⟩
  | pushStore item b buf =>
    simp only [hpc, ownerStep, Option.some.injEq] at hown hs
    subst hs
    obtain ⟨hok, hkeep⟩ := pushStore_ok hown
    exact ⟨l, h.owner_outside h.issued h.delivered hok hkeep rfl rfl⟩
  | pushPublish item b =>
    simp only [hpc, ownerStep, Option.some.injEq] at hown hs
    subst hs
    obtain ⟨hok, hkeep⟩ := pushPublish_ok hown
    refine ⟨l.issue item, h.owner_outside ?_ (h.delivered.issue l item) hok hkeep rfl rfl⟩
    rw [TicketLedger.issued_issue, h.issued]
  | _ => simp [hpc, OwnerPc.inPush] at hin

theorem Represents.popStep {fail : Bool} (h : Represents s l)
    (hin : s.owner.inPop) (hs : ownerStep s fail = some s') : ∃ l', Represents s' l' := by
  have hown := h.owner
  cases hpc : s.owner with
  | popBottom =>
    simp only [hpc, ownerStep, Option.some.injEq] at hown hs
    subst hs
    refine ⟨l, ?_⟩
    split_ifs with hzero
    · exact h.goto_outside hown rfl
    · exact h.goto_outside ⟨hown, rfl, Nat.pos_of_ne_zero hzero⟩ rfl
  | popActive b =>
    simp only [hpc, ownerStep, Option.some.injEq] at hown hs
    subst hs
    obtain ⟨hset, hb, hpos⟩ := hown
    exact ⟨l, h.goto_outside ⟨hset, by omega, rfl⟩ rfl⟩
  | popDecrement b buf =>
    simp only [hpc, ownerStep, Option.some.injEq] at hown hs
    subst hs
    obtain ⟨hset, hb, hbuf⟩ := hown
    -- the element at the new `bottom` stays live until `top` is read
    have hring : Ring { s.deque with bottom := b } l (b + 1) :=
      (hb ▸ hset.ring).congr rfl rfl
    exact ⟨l, h.owner_outside h.issued h.delivered ⟨hring, hset.held, rfl, hbuf⟩
      (.of_eq rfl rfl rfl fun _ hx => hx) rfl rfl⟩
  | popTop b buf =>
    simp only [hpc, ownerStep, Option.some.injEq] at hown hs
    subst hs
    obtain ⟨l', hok, hkeep, hissued, hdelivered⟩ := popTop_ok hown
    refine ⟨l', h.owner_outside (hissued.trans h.issued) (hdelivered _ _ h.delivered) hok hkeep
      rfl ?_⟩
    split_ifs <;> rfl
  | popCell b buf t =>
    simp only [hpc, ownerStep] at hown hs
    obtain ⟨hb, rfl, hx | hx⟩ := hown
    · obtain ⟨hlt, hring, hholds⟩ := hx
      rw [if_neg (by omega)] at hs
      obtain rfl := Option.some.inj hs
      obtain ⟨l', hset, hlive, hvalue, hissued, hdelivered⟩ := hholds.deliver hring
      refine ⟨l', h.owner_outside (hissued.trans h.issued) (hdelivered _ _ h.delivered)
        (hset.congr rfl rfl hb) (.of_eq rfl rfl rfl ?_) rfl rfl⟩
      intro v hv
      rwa [HeadIs, hlive, hvalue]
    · obtain ⟨rfl, hle, hring, hnone⟩ := hx
      rw [if_pos rfl] at hs
      obtain rfl := Option.some.inj hs
      exact ⟨l, h.goto_outside ⟨hb, hle, hring, hnone, rfl⟩ rfl⟩
  | popCas b item =>
    simp only [hpc, ownerStep] at hown hs
    split_ifs at hs with htop
    · obtain rfl := Option.some.inj hs
      obtain ⟨l', hok, hissued, hdelivered⟩ := popCas_ok hown htop
      refine ⟨l', ?_⟩
      -- `top` moves: every thief that has read it is late
      exact {
        issued := hissued.trans h.issued
        delivered := hdelivered _ _ h.delivered
        owner := hok
        thieves := fun i => (h.thieves i).advance (by simp [htop]) rfl
        counted := h.counted
        maintained := by simp [OwnerPc.maintaining, OwnerPc.exclusive]
        excluded := by simp [OwnerPc.exclusive] }
    · obtain rfl := Option.some.inj hs
      exact ⟨l, h.goto_outside ⟨hown.1, hown.2.2.1, hown.2.2.2.1⟩ rfl⟩
  | popRestoreSuccess b item =>
    simp only [hpc, ownerStep, Option.some.injEq] at hown hs
    subst hs
    obtain ⟨hb, htop, hring, hholds⟩ := hown
    obtain ⟨l', hset, hlive, hvalue, hissued, hdelivered⟩ := hholds.deliver hring
    refine ⟨l', h.owner_outside (hissued.trans h.issued) (hdelivered _ _ h.delivered) hset
      (.of_eq rfl rfl rfl ?_) rfl rfl⟩
    intro v hv
    rwa [HeadIs, hlive, hvalue]
  | popRestoreEmpty b =>
    simp only [hpc, ownerStep, Option.some.injEq] at hown hs
    subst hs
    obtain ⟨hb, hring, hnone⟩ := hown
    exact ⟨l, h.owner_outside h.issued h.delivered ⟨hring.congr rfl rfl, hnone⟩
      (.of_eq rfl rfl rfl fun _ hx => hx) rfl rfl⟩
  | _ => simp [hpc, OwnerPc.inPop] at hin

theorem Represents.rebaseStep {fail : Bool} (h : Represents s l) (hpush : s.owner.inPush = false)
    (hpop : s.owner.inPop = false) (hs : ownerStep s fail = some s') :
    ∃ l', Represents s' l' := by
  have hown := h.owner
  cases hpc : s.owner with
  | idle => simp [hpc, ownerStep] at hs
  | rebaseBottom wm caller =>
    simp only [hpc, ownerStep, Option.some.injEq] at hown hs
    subst hs
    exact ⟨l, h.goto_outside hown rfl⟩
  | rebaseTop wm b caller =>
    simp only [hpc, ownerStep, Option.some.injEq] at hown hs
    subst hs
    refine ⟨l, ?_⟩
    split_ifs
    · exact h.goto_outside (afterRebase_ok hown _ _) (by simp)
    · exact h.goto_outside hown rfl
  | rebaseInject caller =>
    simp only [hpc, ownerStep, Option.some.injEq] at hown hs
    subst hs
    refine ⟨l, ?_⟩
    split_ifs
    · exact h.goto_outside (afterRebase_ok hown _ _) (by simp)
    · exact h.goto_outside hown rfl
  | rebaseMaintain caller =>
    simp only [hpc, ownerStep, Option.some.injEq] at hown hs
    subst hs
    -- from here on no thief enters; those inside are waited for
    have hset : Settled { s.deque with maintenance := true } l := Settled.congr hown rfl rfl rfl
    exact ⟨l, h.owner_next h.issued h.delivered hset
      (fun _ => .of_eq rfl rfl rfl fun _ hx => hx) rfl (fun _ => rfl)
      (by simp [OwnerPc.exclusive])⟩
  | rebaseSpin caller =>
    simp only [hpc, ownerStep, Option.some.injEq] at hown hs
    subst hs
    refine ⟨l, ?_⟩
    split_ifs with hzero
    -- the last thief has left, so the owner is alone
    · exact h.goto hown (fun _ => by rw [hpc]; rfl) fun _ => .inr hzero
    · exact h.goto hown (fun _ => by rw [hpc]; rfl) (by simp [OwnerPc.exclusive])
  | rebaseReloadBottom caller =>
    simp only [hpc, ownerStep, Option.some.injEq] at hown hs
    subst hs
    exact ⟨l, h.goto ⟨hown, rfl⟩ (fun _ => by rw [hpc]; rfl) fun _ => .inl (by rw [hpc]; rfl)⟩
  | rebaseReloadTop b caller =>
    simp only [hpc, ownerStep, Option.some.injEq] at hown hs
    subst hs
    exact ⟨l, h.goto ⟨hown.1, hown.2, rfl⟩ (fun _ => by rw [hpc]; rfl)
      fun _ => .inl (by rw [hpc]; rfl)⟩
  | rebaseReloadActive b t caller =>
    simp only [hpc, ownerStep, Option.some.injEq] at hown hs
    subst hs
    obtain ⟨hset, hb, ht⟩ := hown
    have hspan := hset.ring.span
    have hroom := hset.ring.room
    refine ⟨l, h.goto ?_ (fun _ => by rw [hpc]; rfl) fun _ => .inl (by rw [hpc]; rfl)⟩
    split_ifs with h1 h2 h3
    · exact hset
    · refine ⟨hset.held, by omega, by omega, ?_⟩
      intro j u hj
      have hlt := (List.getElem?_eq_some_iff.mp hj).1
      omega
    · exact hset
    · exact ⟨hset, ht, by omega, rfl, by simp, by simp⟩
  | rebaseSnapshot t live buf snapshot caller =>
    simp only [hpc, ownerStep, Option.some.injEq] at hown hs
    subst hs
    refine ⟨l, h.goto ?_ (fun _ => by rw [hpc]; rfl) fun _ => .inl (by rw [hpc]; rfl)⟩
    -- the snapshot takes the live items one by one, oldest first
    split_ifs with hlt
    · exact rebaseSnapshot_ok hown hlt
    · exact rebaseSnapshot_done hown hlt
  | rebaseCopy live buf snapshot i caller =>
    simp only [hpc, ownerStep] at hown hs
    cases hitem : snapshot[i]? with
    -- the snapshot is written back from index 0, cell by cell
    | some item =>
      simp only [hitem, Option.some.injEq] at hs
      subst hs
      exact ⟨l, h.owner_next h.issued h.delivered (rebaseCopy_ok hown hitem)
        (by simp [hpc, OwnerPc.exclusive]) rfl
        (fun _ => h.maintained (by rw [hpc]; rfl)) fun _ => .inl (by rw [hpc]; rfl)⟩
    | none =>
      simp only [hitem, Option.some.injEq] at hs
      subst hs
      exact ⟨l, h.goto (rebaseCopy_done hown hitem) (fun _ => by rw [hpc]; rfl)
        fun _ => .inl (by rw [hpc]; rfl)⟩
  | rebaseStoreTop live caller =>
    simp only [hpc, ownerStep, Option.some.injEq] at hown hs
    subst hs
    -- with `top` at 0 and the old `bottom` still there the deque is out of step
    obtain ⟨hheld, hlive, hlt, hcontents⟩ := hown
    exact ⟨l, h.owner_next h.issued h.delivered ⟨hheld, hlive, hlt, hcontents, rfl⟩
      (by simp [hpc, OwnerPc.exclusive]) rfl
      (fun _ => h.maintained (by rw [hpc]; rfl)) fun _ => .inl (by rw [hpc]; rfl)⟩
  | rebaseStoreBottom live caller =>
    simp only [hpc, ownerStep, Option.some.injEq] at hown hs
    subst hs
    exact ⟨l, h.owner_next h.issued h.delivered (rebaseStoreBottom_ok hown)
      (by simp [hpc, OwnerPc.exclusive]) rfl
      (fun _ => h.maintained (by rw [hpc]; rfl)) fun _ => .inl (by rw [hpc]; rfl)⟩
  | rebaseClear result caller =>
    simp only [hpc, ownerStep, Option.some.injEq] at hown hs
    subst hs
    have hset : Settled { s.deque with maintenance := false } l := Settled.congr hown rfl rfl rfl
    exact ⟨l, h.owner_outside h.issued h.delivered (afterRebase_ok hset result caller)
      (.of_eq rfl rfl rfl fun _ hx => hx) rfl (by simp)⟩
  | _ => simp [hpc, OwnerPc.inPush, OwnerPc.inPop] at hpush hpop

theorem Represents.ownerStep {fail : Bool} (h : Represents s l)
    (hs : ownerStep s fail = some s') : ∃ l', Represents s' l' := by
  by_cases hpush : s.owner.inPush
  · exact h.pushStep hpush hs
  · by_cases hpop : s.owner.inPop
    · exact h.popStep hpop hs
    · exact h.rebaseStep (by simpa using hpush) (by simpa using hpop) hs

end Owner

/-! ## The thieves -/

/-- A thief reads, or enters or leaves the count. -/
theorem Represents.thief_next (h : Represents s l) {i : Fin n} {pc' : ThiefPc α} {count' : Nat}
    (hok : ThiefOk s.deque l pc')
    (hcount : count' + (s.thieves i).entered.toNat = s.deque.activeThieves + pc'.entered.toNat)
    (hexcl : s.owner.exclusive → pc'.critical = false) :
    Represents { s.setThief i pc' with deque.activeThieves := count' } l where
  issued := h.issued
  delivered := h.delivered
  owner := h.owner.congr rfl rfl rfl rfl
  thieves := fun j => by
    have hkeep : KeepsHead s.deque l { s.deque with activeThieves := count' } l :=
      .of_eq rfl rfl rfl fun _ hx => hx
    show ThiefOk _ l (Function.update s.thieves i pc' j)
    by_cases hj : j = i
    · rw [hj, Function.update_self]
      exact hok.keep hkeep
    · rw [Function.update_of_ne hj]
      exact (h.thieves j).keep hkeep
  counted := by
    have hcard := card_enteredThieves_update s.thieves i pc'
    have hold := h.counted
    show (enteredThieves (Function.update s.thieves i pc')).card = count'
    omega
  maintained := h.maintained
  excluded := fun hx j => by
    show (Function.update s.thieves i pc' j).critical = false
    by_cases hj : j = i
    · rw [hj, Function.update_self]
      exact hexcl hx
    · rw [Function.update_of_ne hj]
      exact h.excluded hx j

/-- A thief that stays in the count moves on. -/
theorem Represents.thief_goto (h : Represents s l) {i : Fin n} {pc' : ThiefPc α}
    (hok : ThiefOk s.deque l pc') (hcount : (s.thieves i).entered = pc'.entered)
    (hexcl : s.owner.exclusive → pc'.critical = false) : Represents (s.setThief i pc') l :=
  h.thief_next hok (by rw [hcount]) hexcl

/-- The successful compare-exchange of `steal`. -/
theorem Represents.stealCas (h : Represents s l) {i : Fin n} {t : Nat} {item : α}
    (hpc : s.thieves i = .stealCas t item) (htop : s.deque.top = t) :
    ∃ l', Represents
      { s.setThief i .stealLeave with deque.top := t + 1, stolen := s.stolen ++ [item] } l' := by
  have hexcl := h.not_exclusive (i := i) (by rw [hpc]; rfl)
  have hok := h.thieves i
  rw [hpc] at hok
  obtain ⟨u, hu, hv⟩ := hok.2 htop.symm
  obtain ⟨rest, hlive⟩ := List.head?_eq_some_iff.mp hu
  have howner := h.owner.steal hexcl hlive
  rw [htop] at howner
  refine ⟨l.takeFront hlive, {
    issued := h.issued
    delivered := h.delivered.takeFront l hlive hv
    owner := howner
    thieves := fun j => ?_
    counted := ?_
    maintained := h.maintained
    excluded := fun hx => absurd hx (by simp [System.setThief, hexcl]) }⟩
  · show ThiefOk _ _ (Function.update s.thieves i .stealLeave j)
    by_cases hj : j = i
    · rw [hj, Function.update_self]
      trivial
    · rw [Function.update_of_ne hj]
      exact (h.thieves j).advance (by simp [htop]) rfl
  · have hcard := card_enteredThieves_update s.thieves i .stealLeave
    have hold := h.counted
    rw [hpc] at hcard
    exact (Nat.add_right_cancel hcard).trans hold

theorem Represents.thiefStep {i : Fin n} (h : Represents s l)
    (hs : thiefStep s i = some s') : ∃ l', Represents s' l' := by
  have hok := h.thieves i
  cases hpc : s.thieves i with
  | idle => simp [hpc, ChaseLevDeque.thiefStep] at hs
  | stealMaintenance =>
    simp only [hpc, ChaseLevDeque.thiefStep, Option.some.injEq] at hs
    subst hs
    refine ⟨l, ?_⟩
    split_ifs
    · exact h.thief_goto trivial (by rw [hpc]; rfl) fun _ => rfl
    · exact h.thief_goto trivial (by rw [hpc]; rfl) fun _ => rfl
  | stealEnter =>
    simp only [hpc, ChaseLevDeque.thiefStep, Option.some.injEq] at hs
    subst hs
    exact ⟨l, h.thief_next trivial (by rw [hpc]; rfl) fun _ => rfl⟩
  | stealCheck =>
    simp only [hpc, ChaseLevDeque.thiefStep, Option.some.injEq] at hs
    subst hs
    refine ⟨l, ?_⟩
    split_ifs with hmaint
    · exact h.thief_goto trivial (by rw [hpc]; rfl) fun _ => rfl
    · refine h.thief_goto trivial (by rw [hpc]; rfl) fun hx => ?_
      exact absurd (h.maintained (OwnerPc.maintaining_of_exclusive hx)) hmaint
  | stealTop =>
    simp only [hpc, ChaseLevDeque.thiefStep, Option.some.injEq] at hs
    subst hs
    have hexcl := h.not_exclusive (i := i) (by rw [hpc]; rfl)
    exact ⟨l, h.thief_goto le_rfl (by rw [hpc]; rfl) (by simp [hexcl])⟩
  | stealBottom t =>
    simp only [hpc, ChaseLevDeque.thiefStep, Option.some.injEq] at hok hs
    subst hs
    have hexcl := h.not_exclusive (i := i) (by rw [hpc]; rfl)
    refine ⟨l, ?_⟩
    split_ifs with hlt
    · refine h.thief_goto ⟨hok, fun heq => ?_⟩ (by rw [hpc]; rfl) (by simp [hexcl])
      obtain ⟨stop, hring, hle⟩ := h.owner.ring hexcl
      exact hring.live_ne_nil (by omega)
    · exact h.thief_goto trivial (by rw [hpc]; rfl) fun _ => rfl
  | stealActive t =>
    simp only [hpc, ChaseLevDeque.thiefStep, Option.some.injEq] at hok hs
    subst hs
    have hexcl := h.not_exclusive (i := i) (by rw [hpc]; rfl)
    obtain ⟨stop, hring, hle⟩ := h.owner.ring hexcl
    refine ⟨l, h.thief_goto ⟨hok.1, le_rfl, ?_⟩ (by rw [hpc]; rfl) (by simp [hexcl])⟩
    intro heq
    rw [heq]
    exact hring.contents.head (hok.2 heq)
  | stealCell t buf =>
    simp only [hpc, ChaseLevDeque.thiefStep, Option.some.injEq] at hok hs
    subst hs
    have hexcl := h.not_exclusive (i := i) (by rw [hpc]; rfl)
    exact ⟨l, h.thief_goto ⟨hok.1, hok.2.2⟩ (by rw [hpc]; rfl) (by simp [hexcl])⟩
  | stealCas t item =>
    simp only [hpc, ChaseLevDeque.thiefStep] at hs
    split_ifs at hs with htop
    · obtain rfl := Option.some.inj hs
      exact h.stealCas hpc htop
    · obtain rfl := Option.some.inj hs
      exact ⟨l, h.thief_goto trivial (by rw [hpc]; rfl) fun _ => rfl⟩
  | stealLeave =>
    simp only [hpc, ChaseLevDeque.thiefStep, Option.some.injEq] at hs
    subst hs
    have hpos : 0 < s.deque.activeThieves := by
      rw [← h.counted, Finset.card_pos]
      exact ⟨i, Finset.mem_filter.mpr ⟨Finset.mem_univ i, by rw [hpc]; rfl⟩⟩
    refine ⟨l, h.thief_next trivial ?_ fun _ => rfl⟩
    rw [hpc]
    show s.deque.activeThieves - 1 + 1 = s.deque.activeThieves + 0
    omega

/-! ## Runs -/

section Runs
variable [Inhabited α]

theorem Represents.step {a : Label α n} (h : Represents s l) (hs : step s a = some s') :
    ∃ l', Represents s' l' := by
  cases a with
  | call op =>
    cases hpc : s.owner with
    | idle =>
      simp only [ChaseLevDeque.step, hpc, Option.some.injEq] at hs
      subst hs
      have hown := h.owner
      rw [hpc] at hown
      cases op with
      | push item => exact ⟨l, h.goto_outside hown rfl⟩
      | pop => exact ⟨l, h.goto_outside hown rfl⟩
      | maybeQuiescentRebase wm => exact ⟨l, h.goto_outside hown rfl⟩
    | _ => simp [ChaseLevDeque.step, hpc] at hs
  | owner fail => exact h.ownerStep hs
  | steal i =>
    cases hpc : s.thieves i with
    | idle =>
      simp only [ChaseLevDeque.step, hpc, Option.some.injEq] at hs
      subst hs
      exact ⟨l, h.thief_goto trivial (by rw [hpc]; rfl) fun _ => rfl⟩
    | _ => simp [ChaseLevDeque.step, hpc] at hs
  | thief i => exact h.thiefStep hs

theorem represents_initial (k : Nat) : Represents (initial α n k) .empty where
  issued := rfl
  delivered := ⟨rfl, rfl⟩
  owner := ⟨⟨rfl, Buffer.capacity_pos _, by intro j t hj; simp [TicketLedger.empty] at hj⟩, rfl⟩
  thieves := fun _ => trivial
  counted := by simp [enteredThieves, initial, ThiefPc.entered]
  maintained := by simp [initial, OwnerPc.maintaining, OwnerPc.exclusive]
  excluded := by simp [initial, OwnerPc.exclusive]

/-- Every reachable state of the deque is accounted for. -/
theorem Reachable.represents (h : (machine α n).Reachable s) : ∃ l, Represents s l := by
  refine h.invariant (fun s => ∃ l, Represents s l) ?_ ?_
  · rintro s ⟨k, _, rfl⟩
    exact ⟨.empty, represents_initial k⟩
  · rintro s a s' ⟨l, hl⟩ _ hs
    exact hl.step hs

/-- A ledger gives each accepted `push` a ticket of its own, in push order; every ticket is
stolen at most once, in order, or popped at most once, or still there, and the values
returned are those pushed under the tickets.  Between operations the tickets still there
are the live interval of the ring. -/
def DeliversExactlyOnce (s : System α n) : Prop :=
  ∃ l : TicketLedger α, l.issued = s.pushed ∧ l.Delivered s.stolen s.popped ∧
    (s.Quiescent → l.held = none ∧ s.deque.top ≤ s.deque.bottom ∧
      s.deque.liveInterval.map some = l.live.map l.value)

/-- Two pushes, a steal that overlaps the second and the pop of what is left. -/
def pushStealPop : List (Label Nat 1) :=
  ([.call (.push 7)] : List (Label Nat 1)) ++
    (List.replicate 5 (.owner false) : List (Label Nat 1)) ++
    ([.call (.push 8), .steal 0] : List (Label Nat 1)) ++
    (List.replicate 5 (.thief 0) : List (Label Nat 1)) ++
    (List.replicate 5 (.owner false) : List (Label Nat 1)) ++
    (List.replicate 4 (.thief 0) : List (Label Nat 1)) ++ ([.call .pop] : List (Label Nat 1)) ++
    (List.replicate 7 (.owner false) : List (Label Nat 1))

/-- Values are delivered exactly once, whatever the thieves and the owner interleave. -/
theorem deliversExactlyOnce_of_reachable (h : (machine α n).Reachable s) :
    DeliversExactlyOnce s := by
  obtain ⟨l, hl⟩ := Reachable.represents h
  refine ⟨l, hl.issued, hl.delivered, ?_⟩
  rintro ⟨hidle, _⟩
  have hown := hl.owner
  rw [hidle] at hown
  have hset : Settled s.deque l := hown
  exact ⟨hset.held, hset.ring.top_le, hset.ring.liveInterval_eq⟩

theorem deliversExactlyOnce_pushStealPop :
    ∃ s, (machine Nat 1).run (initial Nat 1 2) pushStealPop = some s ∧
      s.stolen = [7] ∧ s.popped = [8] ∧ DeliversExactlyOnce s := by
  obtain ⟨s, hs⟩ := Option.isSome_iff_exists.mp
    (show ((machine Nat 1).run (initial Nat 1 2) pushStealPop).isSome by decide)
  have hlogs : ((machine Nat 1).run (initial Nat 1 2) pushStealPop).map
      (fun s => (s.stolen, s.popped)) = some ([7], [8]) := by decide
  rw [hs] at hlogs
  obtain ⟨hstolen, hpopped⟩ := Prod.mk.inj (Option.some.inj hlogs)
  exact ⟨s, hs, hstolen, hpopped,
    deliversExactlyOnce_of_reachable (Transition.Machine.reachable_of_run ⟨2, by decide, rfl⟩ hs)⟩

end Runs

end ChaseLevDeque
end AstraScheduler
