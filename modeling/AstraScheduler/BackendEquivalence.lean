import AstraScheduler.ChaseLevRefinement
import AstraScheduler.LocalBackends

/-! # The two backends answer alike

A band of the locked backend holds the tasks whose pointers are in the ring of the other
one, in the same order.  The flag of a task is beside it in the one and in the object in the
other, so the pointers in the rings must be different: a task has one owner. -/

namespace AstraScheduler
open ChaseLevDeque (Deque DequeOp DequeResultStatus ListDeque.perform)
variable {I : Type} {α β : Type}

/-! ## The ends of a band -/

theorem takeEnd_map (f : α → β) (fromBack : Bool) (xs : List α) :
    takeEnd fromBack (xs.map f) =
      (takeEnd fromBack xs).map fun (x, rest) => (f x, rest.map f) := by
  cases fromBack with
  | false => cases xs <;> rfl
  | true =>
    simp only [takeEnd, if_true, List.getLast?_map, Option.map_map, ← List.map_dropLast]
    rfl

theorem perm_of_takeEnd {fromBack : Bool} {xs rest : List α} {x : α}
    (h : takeEnd fromBack xs = some (x, rest)) : List.Perm xs (x :: rest) := by
  cases fromBack with
  | false =>
    cases xs with
    | nil => cases h
    | cons y ys =>
      obtain ⟨rfl, rfl⟩ := Prod.mk.inj (Option.some.inj h)
      exact .refl _
  | true =>
    obtain ⟨y, hy, hpair⟩ := Option.map_eq_some_iff.mp h
    obtain ⟨rfl, rfl⟩ := Prod.mk.inj hpair
    obtain ⟨ys, rfl⟩ := List.getLast?_eq_some_iff.mp hy
    rw [List.dropLast_concat]
    exact List.perm_append_singleton y ys

/-- A plain deque gives up its ends as a band does. -/
theorem perform_takeEnd (owner : Bool) (xs : List α) :
    ListDeque.perform xs (if owner then .pop else .steal) =
      match takeEnd owner xs with
      | none => (some (.empty, none), xs)
      | some (x, rest) => (some (.success, some x), rest) := by
  cases owner with
  | false => cases xs <;> rfl
  | true =>
    simp only [ListDeque.perform, takeEnd, if_true]
    cases xs.getLast? <;> rfl

/-- The steals of a band are one steal: nothing contends for it. -/
theorem takeBand_spec {d : Deque α} {c : Nat} (h : d.Ok c) (owner rebaseFails : Bool) :
    (takeBand d owner rebaseFails).2.Ok c ∧
      ListDeque.perform d.liveInterval (if owner then .pop else .steal) =
        (some (takeBand d owner rebaseFails).1, (takeBand d owner rebaseFails).2.liveInterval) := by
  cases owner with
  | true => exact h.pop rebaseFails
  | false =>
    obtain ⟨hok, hsteal⟩ := h.steal
    have hstatus : d.steal.1.1 ≠ .retry := by
      intro hretry
      have htaken := congrArg Prod.fst ((perform_takeEnd false _).symm.trans hsteal)
      cases htake : takeEnd false d.liveInterval with
      | none =>
        rw [htake] at htaken
        rw [← Option.some.inj htaken] at hretry
        cases hretry
      | some taken =>
        rw [htake] at htaken
        rw [← Option.some.inj htaken] at hretry
        cases hretry
    have honce : takeBand d false rebaseFails = d.steal := if_pos hstatus
    rw [honce]
    exact ⟨hok, hsteal⟩

/-! ## The relation -/

/-- `raws p` are the pointers in the ring of band `p`. -/
structure Same (raws : Priority → List I) (l : LockedLocalQueues I) (q : ChaseLevLocalQueues I) :
    Prop where
  ok : ∀ p, (q.chaseLevBands p).Ok (2 ^ 62)
  ring : ∀ p, (q.chaseLevBands p).liveInterval = (raws p).map some
  task : ∀ p, l.lockedBands p = (raws p).map q.links.task
  nodup : ∀ p, (raws p).Nodup
  apart : ∀ {p p' raw}, raw ∈ raws p → raw ∈ raws p' → p = p'

theorem Same.initial : Same (fun _ => []) ({} : LockedLocalQueues I) {} where
  ok _ := .new (by decide)
  ring _ := rfl
  task _ := rfl
  nodup _ := .nil
  apart hraw := by cases hraw

variable [DecidableEq I] {raws : Priority → List I} {l : LockedLocalQueues I}
  {q : ChaseLevLocalQueues I}

theorem ReadyLinks.map_task_write {links : ReadyLinks I} {raw : I} {next : Option I}
    {isExternal : Bool} {xs : List I} (h : raw ∉ xs) :
    xs.map (links.write raw next isExternal).task = xs.map links.task := by
  refine List.map_congr_left fun x hx => ?_
  have hne : x ≠ raw := fun heq => h (heq ▸ hx)
  simp only [ReadyLinks.task, ReadyLinks.write, Function.update_of_ne hne]

/-- The two claims, or two pushes, agree and leave related queues. -/
structure LocalClaim.Same (a : LocalClaim I (LockedLocalQueues I))
    (b : LocalClaim I (ChaseLevLocalQueues I)) : Prop where
  success : a.success = b.success
  out : a.out = b.out
  calendarIndex : a.calendarIndex = b.calendarIndex
  queues : ∃ raws, AstraScheduler.Same raws a.queues b.queues

/-- **One band**: both find a task or both do not, and then nothing changes but the ring. -/
theorem Same.claim (h : Same raws l q) (calendarIndex : Nat) (owner rebaseFails : Bool)
    (p : Priority) :
    (l.claim calendarIndex owner p).Same (q.claim calendarIndex owner rebaseFails p).2 ∧
      (q.claim calendarIndex owner rebaseFails p).1 =
        (if (l.claim calendarIndex owner p).success then .success else .empty) ∧
      ((l.claim calendarIndex owner p).success = false →
        (l.claim calendarIndex owner p).queues = l ∧
          (q.claim calendarIndex owner rebaseFails p).2.calendarIndex = calendarIndex) := by
  obtain ⟨hok, hperform⟩ := takeBand_spec (h.ok p) owner rebaseFails
  rw [h.ring, perform_takeEnd, takeEnd_map] at hperform
  have hlocked : takeEnd owner (l.lockedBands p) =
      (takeEnd owner (raws p)).map fun (raw, rest) =>
        (q.links.task raw, rest.map q.links.task) := by
    rw [h.task, takeEnd_map]
  have hoks : ∀ p', (Function.update q.chaseLevBands p
      (takeBand (q.chaseLevBands p) owner rebaseFails).2 p').Ok (2 ^ 62) :=
    (Function.forall_update_iff _ fun _ (band : Deque (Option I)) => band.Ok (2 ^ 62)).mpr
      ⟨hok, fun p' _ => h.ok p'⟩
  cases htake : takeEnd owner (raws p) with
  | none =>
    simp only [htake, Option.map_none] at hperform hlocked
    obtain ⟨htaken, hlive⟩ := Prod.mk.inj hperform
    have hstatus := Option.some.inj htaken
    have hrings : ∀ p', (Function.update q.chaseLevBands p
        (takeBand (q.chaseLevBands p) owner rebaseFails).2 p').liveInterval =
          (raws p').map some :=
      (Function.forall_update_iff _ fun p' (band : Deque (Option I)) =>
        band.liveInterval = (raws p').map some).mpr
        ⟨hlive.symm, fun p' _ => h.ring p'⟩
    have hclaim : l.claim calendarIndex owner p = ⟨false, none, calendarIndex, l⟩ := by
      simp only [LockedLocalQueues.claim, hlocked]
    have hclaim' : q.claim calendarIndex owner rebaseFails p =
        (.empty, ⟨false, none, calendarIndex, ⟨q.links, Function.update q.chaseLevBands p
          (takeBand (q.chaseLevBands p) owner rebaseFails).2⟩⟩) := by
      simp only [ChaseLevLocalQueues.claim, ← hstatus]
    rw [hclaim, hclaim']
    exact ⟨⟨rfl, rfl, rfl, raws, hoks, hrings, h.task, h.nodup, h.apart⟩, rfl,
      fun _ => ⟨rfl, rfl⟩⟩
  | some taken =>
    obtain ⟨raw, rest⟩ := taken
    simp only [htake, Option.map_some] at hperform hlocked
    obtain ⟨htaken, hlive⟩ := Prod.mk.inj hperform
    have hstatus := Option.some.inj htaken
    have hperm := perm_of_takeEnd htake
    have hnodup := hperm.nodup_iff.mp (h.nodup p)
    have hraw : raw ∈ raws p := hperm.mem_iff.mpr List.mem_cons_self
    -- the pointer that leaves is in no ring afterwards
    have hsub : ∀ {p' x}, x ∈ Function.update raws p rest p' → x ∈ raws p' ∧ x ≠ raw := by
      intro p' x hx
      by_cases hp : p' = p
      · subst hp
        rw [Function.update_self] at hx
        refine ⟨hperm.mem_iff.mpr (List.mem_cons_of_mem _ hx), fun heq => ?_⟩
        exact (List.nodup_cons.mp hnodup).1 (heq ▸ hx)
      · rw [Function.update_of_ne hp] at hx
        exact ⟨hx, fun heq => hp (h.apart hx (heq ▸ hraw))⟩
    have hafter : Same (Function.update raws p rest)
        ⟨Function.update l.lockedBands p (rest.map q.links.task)⟩
        ⟨q.links.write raw none false, Function.update q.chaseLevBands p
          (takeBand (q.chaseLevBands p) owner rebaseFails).2⟩ := by
      refine ⟨hoks, fun p' => ?_, fun p' => ?_, ?_, fun hx hx' => h.apart (hsub hx).1 (hsub hx').1⟩
      · by_cases hp : p' = p
        · subst hp
          simp only [Function.update_self, ← hlive]
        · simp only [Function.update_of_ne hp]
          exact h.ring p'
      · rw [ReadyLinks.map_task_write fun hx => (hsub hx).2 rfl]
        by_cases hp : p' = p
        · subst hp
          simp only [Function.update_self]
        · simp only [Function.update_of_ne hp]
          exact h.task p'
      · exact (Function.forall_update_iff _ fun _ xs => List.Nodup xs).mpr
          ⟨(List.nodup_cons.mp hnodup).2, fun p' _ => h.nodup p'⟩
    have hclaim : l.claim calendarIndex owner p = ⟨true, some (q.links.task raw),
        nextCalendarIndex calendarIndex,
        ⟨Function.update l.lockedBands p (rest.map q.links.task)⟩⟩ := by
      simp only [LockedLocalQueues.claim, hlocked]
    have hclaim' : q.claim calendarIndex owner rebaseFails p =
        (.success, ⟨true, some (q.links.task raw), nextCalendarIndex calendarIndex,
          ⟨q.links.write raw none false, Function.update q.chaseLevBands p
            (takeBand (q.chaseLevBands p) owner rebaseFails).2⟩⟩) := by
      simp only [ChaseLevLocalQueues.claim, ← hstatus, Option.join_some]
    rw [hclaim, hclaim']
    exact ⟨⟨rfl, rfl, rfl, _, hafter⟩, rfl, fun hno => by cases hno⟩

/-- **The fallback loop**, over whatever bands are left. -/
theorem Same.claimFallback (h : Same raws l q) (calendarIndex : Nat) (owner : Bool)
    (rebaseFails : Priority → Bool) (target : Priority) (priorities : List Priority) :
    (l.claimFallback calendarIndex owner target priorities).Same
      (q.claimFallback calendarIndex owner rebaseFails target priorities) := by
  induction priorities generalizing raws q with
  | nil => exact ⟨rfl, rfl, rfl, raws, h⟩
  | cons p priorities ih =>
    unfold LockedLocalQueues.claimFallback ChaseLevLocalQueues.claimFallback
    by_cases htarget : p = target
    · rw [if_pos htarget, if_neg fun hno => hno.1 htarget]
      exact ih h
    · rw [if_neg htarget]
      obtain ⟨hsame, hstatus, hkept⟩ := h.claim calendarIndex owner (rebaseFails p) p
      by_cases hsuccess : (l.claim calendarIndex owner p).success = true
      · rw [if_pos ⟨htarget, hsuccess⟩]
        rw [if_pos hsuccess] at hstatus
        simp only [hstatus, true_or, if_true]
        exact hsame
      · rw [if_neg fun hboth => hsuccess hboth.2]
        rw [if_neg hsuccess] at hstatus
        obtain ⟨hqueues, -⟩ := hkept (eq_false_of_ne_true hsuccess)
        obtain ⟨raws', hrel⟩ := hsame.queues
        rw [hqueues] at hrel
        simp only [hstatus, reduceCtorEq, and_false, or_false, if_false]
        exact ih hrel

/-- **A claim**: `choose_local_band` against `claim_chase_lev`. -/
theorem Same.claimByCalendar (h : Same raws l q) (calendarIndex : Nat) (owner : Bool)
    (rebaseFails : Priority → Bool) :
    (l.chooseLocalBand calendarIndex owner).Same
      (q.claimChaseLev calendarIndex owner rebaseFails) := by
  unfold LockedLocalQueues.chooseLocalBand ChaseLevLocalQueues.claimChaseLev
  obtain ⟨hsame, hstatus, hkept⟩ := h.claim calendarIndex owner
    (rebaseFails (calendarTarget calendarIndex)) (calendarTarget calendarIndex)
  by_cases hsuccess :
      (l.claim calendarIndex owner (calendarTarget calendarIndex)).success = true
  · rw [if_pos hsuccess] at hstatus ⊢
    simp only [hstatus, true_or, if_true]
    exact hsame
  · rw [if_neg hsuccess] at hstatus ⊢
    obtain ⟨hqueues, -⟩ := hkept (eq_false_of_ne_true hsuccess)
    obtain ⟨raws', hrel⟩ := hsame.queues
    rw [hqueues] at hrel
    simp only [hstatus, reduceCtorEq, and_false, or_false, if_false]
    exact hrel.claimFallback calendarIndex owner rebaseFails _ _

/-- **A push** that finds room in the ring. -/
theorem Same.push (h : Same raws l q) (task : QueuedTask I) (p : Priority)
    (hroom : (q.chaseLevBands p).size + 1 < (q.chaseLevBands p).activeBuffer.capacity ∨
      (q.chaseLevBands p).activeBuffer.capacity < 2 ^ 62)
    (hfresh : ∀ p', some task.invoker ∉ (q.chaseLevBands p').liveInterval) :
    (q.push task p false false).1 = true ∧
      Same (Function.update raws p (raws p ++ [task.invoker])) (l.push task p).2
        (q.push task p false false).2 := by
  have hspan := (h.ok p).span
  have hsize : (q.chaseLevBands p).size =
      (q.chaseLevBands p).bottom - (q.chaseLevBands p).top := by
    unfold Deque.size
    split
    · rfl
    · omega
  rw [hsize] at hroom
  have hperformed := (h.ok p).push_performed hroom (some task.invoker)
  obtain ⟨hok, hlive⟩ := (h.ok p).push (Nat.le_refl _) (some task.invoker) false false
  rw [hperformed, if_pos rfl, h.ring] at hlive
  have hnew : ∀ p', task.invoker ∉ raws p' := by
    intro p' hmem
    exact hfresh p' (h.ring p' ▸ List.mem_map_of_mem hmem)
  refine ⟨hperformed, ⟨?_, fun p' => ?_, fun p' => ?_, ?_, ?_⟩⟩
  · exact (Function.forall_update_iff _ fun _ (band : Deque (Option I)) => band.Ok (2 ^ 62)).mpr
      ⟨hok, fun p' _ => h.ok p'⟩
  · by_cases hp : p' = p
    · subst hp
      simp only [ChaseLevLocalQueues.push, Function.update_self, hlive, List.map_append,
        List.map_singleton]
    · simp only [ChaseLevLocalQueues.push, Function.update_of_ne hp]
      exact h.ring p'
  · by_cases hp : p' = p
    · subst hp
      simp only [LockedLocalQueues.push, ChaseLevLocalQueues.push, Function.update_self,
        List.map_append, List.map_singleton, ReadyLinks.map_task_write (hnew p'), h.task]
      simp only [ReadyLinks.task, ReadyLinks.write, Function.update_self]
    · simp only [LockedLocalQueues.push, ChaseLevLocalQueues.push, Function.update_of_ne hp,
        ReadyLinks.map_task_write (hnew p')]
      exact h.task p'
  · exact (Function.forall_update_iff _ fun _ xs => List.Nodup xs).mpr
      ⟨(List.perm_append_singleton _ _).nodup_iff.mpr
        (List.nodup_cons.mpr ⟨hnew p, h.nodup p⟩), fun p' _ => h.nodup p'⟩
  · intro p₁ p₂ raw h₁ h₂
    have hold : ∀ {p'}, raw ∈ Function.update raws p (raws p ++ [task.invoker]) p' →
        raw ∈ raws p' ∨ raw = task.invoker ∧ p' = p := by
      intro p' hmem
      by_cases hp : p' = p
      · subst hp
        rw [Function.update_self, List.mem_append, List.mem_singleton] at hmem
        exact hmem.imp_right fun heq => ⟨heq, rfl⟩
      · rw [Function.update_of_ne hp] at hmem
        exact .inl hmem
    rcases hold h₁ with hin₁ | ⟨rfl, rfl⟩
    · rcases hold h₂ with hin₂ | ⟨rfl, rfl⟩
      · exact h.apart hin₁ hin₂
      · exact absurd hin₁ (hnew _)
    · rcases hold h₂ with hin₂ | ⟨-, rfl⟩
      · exact absurd hin₂ (hnew _)
      · rfl

omit [DecidableEq I] in
theorem Same.empty (h : Same raws l q) : l.empty = q.empty := by
  have hband : ∀ p, (l.lockedBands p).isEmpty = (q.chaseLevBands p).empty := by
    intro p
    have hcount := congrArg List.length (h.ring p)
    rw [Deque.length_liveInterval, List.length_map] at hcount
    have hspan := (h.ok p).span
    rw [h.task, List.isEmpty_map, Deque.empty, Bool.eq_iff_iff, List.isEmpty_iff,
      decide_eq_true_iff, ← List.length_eq_zero_iff]
    omega
  simp only [LockedLocalQueues.empty, ChaseLevLocalQueues.empty, hband]

/-! ## Sequences of calls -/

namespace ChaseLevLocalQueues

/-- The ring of the band has room for the task or grows, and the task is not in a queue: the
caller owns it. -/
def Fits (s : Calendars (ChaseLevLocalQueues I)) : LocalCall I → Prop
  | .push task priority growFails rebaseFails =>
    (growFails = false ∧ rebaseFails = false ∧
      ((s.queues.chaseLevBands priority).size + 1 <
          (s.queues.chaseLevBands priority).activeBuffer.capacity ∨
        (s.queues.chaseLevBands priority).activeBuffer.capacity < 2 ^ 62)) ∧
      ∀ p, some task.invoker ∉ (s.queues.chaseLevBands p).liveInterval
  | .claimBack .. | .stealFront .. | .empty => True

instance (s : Calendars (ChaseLevLocalQueues I)) : (c : LocalCall I) → Decidable (Fits s c)
  | .push task priority growFails rebaseFails =>
    have (P : Priority → Prop) [DecidablePred P] : Decidable (∀ p, P p) :=
      decidable_of_iff (P .low ∧ P .normal ∧ P .high ∧ P .critical)
        ⟨fun h p => by rcases h with ⟨hl, hn, hh, hc⟩; cases p <;> assumption,
          fun h => ⟨h _, h _, h _, h _⟩⟩
    inferInstanceAs (Decidable ((growFails = false ∧ rebaseFails = false ∧
      ((s.queues.chaseLevBands priority).size + 1 <
          (s.queues.chaseLevBands priority).activeBuffer.capacity ∨
        (s.queues.chaseLevBands priority).activeBuffer.capacity < 2 ^ 62)) ∧
      ∀ p, some task.invoker ∉ (s.queues.chaseLevBands p).liveInterval))
  | .claimBack .. | .stealFront .. | .empty => .isTrue trivial

/-- The queues and their calendar indices as a machine whose labels are the calls. -/
def machine (I : Type) [DecidableEq I] :
    Transition.Machine (Calendars (ChaseLevLocalQueues I)) (LocalCall I) where
  init s := s.queues = {}
  next s c := some (call s c).2

end ChaseLevLocalQueues

/-- **One call** on both backends. -/
theorem Same.call {s : Calendars (LockedLocalQueues I)} {t : Calendars (ChaseLevLocalQueues I)}
    (h : Same raws s.queues t.queues) (hindex : s.calendarIndex = t.calendarIndex)
    {c : LocalCall I} (hfits : ChaseLevLocalQueues.Fits t c) :
    (LockedLocalQueues.call s c).1 = (ChaseLevLocalQueues.call t c).1 ∧
      (LockedLocalQueues.call s c).2.calendarIndex =
        (ChaseLevLocalQueues.call t c).2.calendarIndex ∧
      ∃ raws, Same raws (LockedLocalQueues.call s c).2.queues
        (ChaseLevLocalQueues.call t c).2.queues := by
  have hanswer {a : LocalClaim I (LockedLocalQueues I)} {b : LocalClaim I (ChaseLevLocalQueues I)}
      (hsame : a.Same b) (calendar : Nat) :
      (a.answer s calendar).1 = (b.answer t calendar).1 ∧
        (a.answer s calendar).2.calendarIndex = (b.answer t calendar).2.calendarIndex ∧
        ∃ raws, Same raws (a.answer s calendar).2.queues (b.answer t calendar).2.queues := by
    obtain ⟨hsuccess, hout, hcalendar, hqueues⟩ := hsame
    refine ⟨?_, ?_, hqueues⟩
    · simp only [LocalClaim.answer, hsuccess, hout, hcalendar]
    · simp only [LocalClaim.answer, hindex, hcalendar]
  cases c with
  | push task p growFails rebaseFails =>
    obtain ⟨⟨rfl, rfl, hroom⟩, hfresh⟩ := hfits
    obtain ⟨hperformed, hsame⟩ := h.push task p hroom hfresh
    refine ⟨?_, hindex, _, hsame⟩
    simp only [LockedLocalQueues.call, ChaseLevLocalQueues.call, hperformed, LockedLocalQueues.push]
  | claimBack calendar rebaseFails =>
    simp only [LockedLocalQueues.call, ChaseLevLocalQueues.call, hindex]
    exact hanswer (h.claimByCalendar _ _ _) calendar
  | stealFront calendar =>
    simp only [LockedLocalQueues.call, ChaseLevLocalQueues.call, hindex]
    exact hanswer (h.claimByCalendar _ _ _) calendar
  | empty =>
    refine ⟨?_, hindex, raws, h⟩
    simp only [LockedLocalQueues.call, ChaseLevLocalQueues.call, h.empty]

/-- Related queues answer every sequence of calls alike. -/
theorem Same.answers {s : Calendars (LockedLocalQueues I)}
    {t : Calendars (ChaseLevLocalQueues I)} (h : Same raws s.queues t.queues)
    (hindex : s.calendarIndex = t.calendarIndex) (calls : List (LocalCall I))
    (hfits : (ChaseLevLocalQueues.machine I).EveryStep ChaseLevLocalQueues.Fits t calls) :
    (answers LockedLocalQueues.call s calls).1 = (answers ChaseLevLocalQueues.call t calls).1 ∧
      (answers LockedLocalQueues.call s calls).2.calendarIndex =
        (answers ChaseLevLocalQueues.call t calls).2.calendarIndex := by
  induction calls generalizing raws s t with
  | nil => exact ⟨rfl, hindex⟩
  | cons c calls ih =>
    obtain ⟨hanswer, hindex', raws', hsame⟩ := h.call hindex hfits.1
    obtain ⟨hanswers, hend⟩ := ih hsame hindex' (hfits.2 _ rfl)
    refine ⟨?_, hend⟩
    simp only [AstraScheduler.answers, hanswer, hanswers]

/-- The two backends are equivalent. -/
theorem backends_agree (calendarIndex : Nat → Nat) (calls : List (LocalCall I))
    (hfits : (ChaseLevLocalQueues.machine I).EveryStep ChaseLevLocalQueues.Fits
      ⟨{}, calendarIndex⟩ calls) :
    (answers LockedLocalQueues.call ⟨{}, calendarIndex⟩ calls).1 =
        (answers ChaseLevLocalQueues.call ⟨{}, calendarIndex⟩ calls).1 ∧
      (answers LockedLocalQueues.call ⟨{}, calendarIndex⟩ calls).2.calendarIndex =
        (answers ChaseLevLocalQueues.call ⟨{}, calendarIndex⟩ calls).2.calendarIndex :=
  Same.initial.answers rfl calls hfits

/-- A thief that begins at the last calendar index there is, and the owner after it. -/
theorem backends_agree_three_tasks :
    (answers LockedLocalQueues.call ⟨{}, fun _ => 2 ^ 64 - 1⟩ [.push ⟨3, true⟩ .low false false,
        .push ⟨4, false⟩ .critical false false, .push ⟨5, true⟩ .low false false, .stealFront 1,
        .claimBack 0 fun _ => false, .stealFront 1, .empty]).1 =
      (answers ChaseLevLocalQueues.call ⟨({} : ChaseLevLocalQueues Nat), fun _ => 2 ^ 64 - 1⟩
        [.push ⟨3, true⟩ .low false false, .push ⟨4, false⟩ .critical false false,
          .push ⟨5, true⟩ .low false false, .stealFront 1, .claimBack 0 fun _ => false,
          .stealFront 1, .empty]).1 :=
  (backends_agree _ _ (by decide)).1

end AstraScheduler
