import AstraScheduler.CoroutineFrame
import Mathlib.Data.List.Basic

/-! # Who owns the frame

At any moment one party owns the frame of the coroutine: an invoker that has not resumed it
yet, the segment in its body, the armed handshake of the current suspension, or the segment
that found it at its final suspension.  Everybody else has lost the frame and knows it: a
segment that handed it over has read a sequence number that no longer is the current one,
or has at most the publication left to do.

`Owned s o` says this of the owner `o`, place by place; each step either keeps the owner or
passes the frame on. -/

namespace AstraScheduler
namespace AwaitHandshake

theorem trigger_not_armed (h : AwaitHandshake) : h.trigger.1.state ≠ .armed := by
  rcases h with ⟨state, cancelled⟩
  cases state <;> cases cancelled <;> decide

theorem triggerCancel_not_armed (h : AwaitHandshake) : h.triggerCancel.1.state ≠ .armed := by
  rcases h with ⟨state, cancelled⟩
  cases state <;> cases cancelled <;> decide

theorem triggerCancel_posts (h : AwaitHandshake) :
    h.triggerCancel.2 = decide (h.state = .armed) := by
  rcases h with ⟨state, cancelled⟩
  cases state <;> cases cancelled <;> rfl

/-- Arming that posts leaves nothing armed behind. -/
theorem arm_posts_not_armed {h : AwaitHandshake} (hpost : h.arm.2 = true) :
    h.arm.1.state ≠ .armed := by
  rcases h with ⟨state, cancelled⟩
  revert hpost
  cases state <;> cases cancelled <;> decide

end AwaitHandshake

namespace CoroutineFrame

open Transition (Machine)

/-! ## The invariant -/

inductive Owner
  | segment (i : Nat)
  | await (h : Nat)
  | nobody
  deriving DecidableEq, Repr

/-- The sequence number is already marked for the suspension under way. -/
def Body.marked : Body → Bool
  | .targetSuspend _ | .arm _ | .yieldPost | .publish => true
  | _ => false

/-- The await whose handshake is armed next for the marked suspension. -/
def Body.awaitOf : Body → Option Nat
  | .targetSuspend h | .arm h => some h
  | _ => none

/-- The frame waits, or will wait as soon as the suspension is published. -/
def Suspending (s : Run) : Prop := s.place = .atAwait ∨ ∃ j, s.place = .inBody j

def Resting (s : Run) : Prop := s.place = .cold ∨ s.place = .atAwait

/-- What its place in the code says about segment `i`. -/
def SegOk (s : Run) (o : Owner) (i : Nat) (g : Segment) : Prop :=
  match g.pc with
  | .queued =>
    o = .segment i ∧ g.suspension = s.seq ∧ if s.seq = 0 then s.place = .cold else Suspending s
  | .refused | .abandon => o = .segment i ∧ s.place = .cold
  | .awaiting need => o = .segment i ∧ g.suspension = s.seq ∧ need = s.seq ∧ Suspending s
  | .toRunning | .readSeq => o = .segment i ∧ g.suspension = s.seq ∧ Resting s
  | .checkDone before | .resume before =>
    o = .segment i ∧ g.suspension = s.seq ∧ before = s.seq ∧ Resting s
  | .inBody before body =>
    s.place = .inBody i ∧ before ≤ s.seq ∧
      (body.marked = true → before < s.seq ∧ s.published < s.seq) ∧
      (body ≠ .publish → o = .segment i) ∧
      ∀ h a, body.awaitOf = some h → s.awaits[h]? = some a → a.suspension = s.seq
  | .returned before => before < s.seq ∨ before = s.seq ∧ o = .segment i ∧ s.place = .final
  | .checkFinal | .destroy => o = .segment i ∧ s.place = .final
  | .ended => True

structure Owned (s : Run) (o : Owner) : Prop where
  segments : ∀ i g, s.segments[i]? = some g → SegOk s o i g
  armed : ∀ (h : Nat) (a : Await), s.awaits[h]? = some a → a.handshake.state = .armed →
    o = .await h ∧ a.suspension = s.seq ∧ 0 < s.seq ∧ Suspending s
  published : s.published ≤ s.seq
  resting : Resting s → s.published = s.seq
  cold : s.place = .cold → s.seq = 0
  occupied : ∀ i, s.place = .inBody i →
    ∃ k before body, s.segments[i]? = some ⟨k, .inBody before body⟩
  destroys : s.destroys = if s.place = .destroyed then 1 else 0

/-- A segment that has nothing to do with the frame any more, or only the publication. -/
def Passive (s : Run) (j : Nat) (g : Segment) : Prop :=
  match g.pc with
  | .inBody before body => body = .publish ∧ s.place = .inBody j ∧ before < s.seq
  | .returned before => before < s.seq
  | .ended => True
  | _ => False

section Frame
variable {s s' : Run} {o o' : Owner} {i j : Nat} {g : Segment}

/-- Whoever is not the owner is passive. -/
theorem SegOk.passive (h : SegOk s o j g) (ho : o ≠ .segment j) : Passive s j g := by
  rcases g with ⟨k, pc⟩
  cases pc with
  | inBody before body =>
    obtain ⟨hplace, -, hmarked, howner, -⟩ := h
    have hpublish : body = .publish := by
      by_contra hne
      exact ho (howner hne)
    subst hpublish
    exact ⟨rfl, hplace, (hmarked rfl).1⟩
  | returned before =>
    rcases h with hlt | ⟨-, howner, -⟩
    · exact hlt
    · exact absurd howner ho
  | ended => trivial
  | queued | refused | abandon | awaiting need | toRunning | readSeq | checkDone before
  | resume before | checkFinal | destroy => exact absurd h.1 ho

/-- The passive stay passive, whoever owns the frame: the sequence number only grows, and
nobody leaves the body for another. -/
theorem Passive.segOk (h : Passive s j g) (hseq : s.seq ≤ s'.seq)
    (hplace : s.place = .inBody j → s'.place = .inBody j ∧ s'.published < s'.seq) :
    SegOk s' o' j g := by
  rcases g with ⟨k, pc⟩
  cases pc with
  | inBody before body =>
    obtain ⟨rfl, hbody, hlt⟩ := h
    obtain ⟨hbody', hpublished⟩ := hplace hbody
    refine ⟨hbody', by omega, fun _ => ⟨by omega, hpublished⟩, ?_, ?_⟩
    · intro hne
      exact absurd rfl hne
    · intro h a hawait
      cases hawait
  | returned before => exact .inl (Nat.lt_of_lt_of_le h hseq)
  | ended => trivial
  | queued | refused | abandon | awaiting need | toRunning | readSeq | checkDone before
  | resume before | checkFinal | destroy => exact absurd h id

/-- Nobody but the segment in the body can be in it. -/
theorem Owned.inBody_eq (h : Owned s o) (hi : s.place = .inBody i) {k before : Nat} {body : Body}
    (hg : s.segments[j]? = some ⟨k, .inBody before body⟩) : j = i := by
  have hj := (h.segments j _ hg).1
  rw [hi] at hj
  exact (Place.inBody.inj hj).symm

/-- While another segment owns the frame, the one in the body is about to publish. -/
theorem Owned.publishing (h : Owned s o) (hj : s.place = .inBody j) (ho : o ≠ .segment j) :
    s.published < s.seq := by
  obtain ⟨k, before, body, hg⟩ := h.occupied j hj
  have hok := h.segments j _ hg
  obtain ⟨rfl, -, -⟩ := hok.passive ho
  exact (hok.2.2.1 rfl).2

theorem goto_self (hg : s.segments[i]? = some g) (pc : Pc) :
    (s.goto i pc).segments[i]? = some ⟨g.suspension, pc⟩ := by
  simp [Run.goto, hg]

theorem goto_ne (hj : j ≠ i) (pc : Pc) : (s.goto i pc).segments[j]? = s.segments[j]? := by
  simp [Run.goto, Ne.symm hj]

/-- The segments after one of them has moved on. -/
theorem forall_goto {P : Nat → Segment → Prop} {pc : Pc} (hg : s.segments[i]? = some g)
    (hi : P i ⟨g.suspension, pc⟩)
    (hrest : ∀ j, j ≠ i → ∀ x, s.segments[j]? = some x → P j x) :
    ∀ j x, (s.goto i pc).segments[j]? = some x → P j x := by
  intro j x hx
  by_cases hj : j = i
  · subst hj
    rw [goto_self hg] at hx
    cases hx
    exact hi
  · rw [goto_ne hj] at hx
    exact hrest j hj x hx

/-- The segments after a resume was posted. -/
theorem forall_post {P : Nat → Segment → Prop} {suspension : Nat}
    (hrest : ∀ j x, s.segments[j]? = some x → P j x)
    (hnew : P s.segments.length ⟨suspension, .queued⟩) :
    ∀ j x, (s.post suspension).segments[j]? = some x → P j x := by
  intro j x hx
  rw [Run.post, List.getElem?_append] at hx
  split at hx
  · exact hrest j x hx
  · rename_i hlt
    rw [List.getElem?_singleton] at hx
    split at hx
    · cases hx
      obtain rfl : j = s.segments.length := by omega
      exact hnew
    · cases hx

end Frame

/-! ## Steps that leave the frame alone -/

/-- Only the task state, the stop request or unarmed handshakes differ. -/
structure SameFrame (s s' : Run) : Prop where
  segments : s'.segments = s.segments
  seq : s'.seq = s.seq
  published : s'.published = s.published
  place : s'.place = s.place
  destroys : s'.destroys = s.destroys
  awaits : ∀ (h : Nat) (a : Await), s'.awaits[h]? = some a → a.handshake.state = .armed →
    s.awaits[h]? = some a

namespace SameFrame

theorem refl (s : Run) : SameFrame s s := ⟨rfl, rfl, rfl, rfl, rfl, fun _ _ h _ => h⟩

theorem requestCancel (s : Run) : SameFrame s s.requestCancel := by
  unfold Run.requestCancel
  split <;> exact ⟨rfl, rfl, rfl, rfl, rfl, fun _ _ h _ => h⟩

theorem toSuspended (s : Run) : SameFrame s s.toSuspended := by
  unfold Run.toSuspended
  split <;> exact ⟨rfl, rfl, rfl, rfl, rfl, fun _ _ h _ => h⟩

theorem toRunning (s : Run) : SameFrame s s.toRunning := by
  unfold Run.toRunning
  split <;> exact ⟨rfl, rfl, rfl, rfl, rfl, fun _ _ h _ => h⟩

theorem state (s : Run) (state : TaskState) : SameFrame s { s with state := state } :=
  ⟨rfl, rfl, rfl, rfl, rfl, fun _ _ h _ => h⟩

/-- A new handshake is not armed. -/
theorem newAwait (s : Run) : SameFrame s s.newAwait := by
  refine ⟨rfl, rfl, rfl, rfl, rfl, fun h a ha harmed => ?_⟩
  rw [Run.newAwait, List.getElem?_append] at ha
  split at ha
  · exact ha
  · rw [List.getElem?_singleton] at ha
    split at ha
    · cases ha
      cases harmed
    · cases ha

end SameFrame

section Steps
variable {s s' : Run} {o o' : Owner} {i j : Nat} {g : Segment} {pc : Pc}

/-- Nothing is armed while a segment owns the frame. -/
theorem Owned.not_armed (h : Owned s (.segment i)) {n : Nat} {a : Await}
    (ha : s.awaits[n]? = some a) : a.handshake.state ≠ .armed := by
  intro harmed
  cases (h.armed n a ha harmed).1

/-- **The owner goes on and stays the owner.** -/
theorem Owned.stay (h : Owned s (.segment i)) (hg : s.segments[i]? = some g)
    (hs : SameFrame s s') (hok : SegOk s' (.segment i) i ⟨g.suspension, pc⟩)
    (hbody : ∀ k before body, g = ⟨k, .inBody before body⟩ →
      ∃ before body, pc = .inBody before body) :
    Owned (s'.goto i pc) (.segment i) where
  segments := by
    refine forall_goto (by rw [hs.segments]; exact hg) hok fun j hj x hx => ?_
    rw [hs.segments] at hx
    have hne : Owner.segment i ≠ .segment j := fun he => hj (Owner.segment.inj he).symm
    refine ((h.segments j x hx).passive hne).segOk (Nat.le_of_eq hs.seq.symm) fun hplace => ?_
    refine ⟨hs.place.trans hplace, ?_⟩
    change s'.published < s'.seq
    rw [hs.published, hs.seq]
    exact h.publishing hplace hne
  armed := fun n a ha harmed => absurd harmed (h.not_armed (hs.awaits n a ha harmed))
  published := by
    change s'.published ≤ s'.seq
    rw [hs.published, hs.seq]
    exact h.published
  resting := by
    intro hresting
    change s'.published = s'.seq
    rw [hs.published, hs.seq]
    apply h.resting
    unfold Resting at hresting ⊢
    rwa [← hs.place]
  cold := fun hcold => hs.seq.trans (h.cold (hs.place.symm.trans hcold))
  occupied := by
    intro j hj
    replace hj : s.place = .inBody j := hs.place.symm.trans hj
    obtain ⟨k, before, body, hoccupied⟩ := h.occupied j hj
    by_cases hij : j = i
    · subst hij
      obtain ⟨before', body', rfl⟩ :=
        hbody k before body (Option.some.inj (hg.symm.trans hoccupied))
      exact ⟨_, before', body', goto_self (by rw [hs.segments]; exact hg) _⟩
    · refine ⟨k, before, body, ?_⟩
      rw [goto_ne hij, hs.segments]
      exact hoccupied
  destroys := by
    change s'.destroys = if s'.place = .destroyed then 1 else 0
    rw [hs.destroys, hs.place]
    exact h.destroys

/-- An invoker outside of the body is done with. -/
theorem Owned.leave (h : Owned s o) (hg : s.segments[i]? = some g)
    (hbody : ∀ k before body, g ≠ ⟨k, .inBody before body⟩) : Owned (s.goto i .ended) o where
  segments := forall_goto hg trivial fun j _ x hx => h.segments j x hx
  armed := h.armed
  published := h.published
  resting := h.resting
  cold := h.cold
  occupied := by
    intro j hj
    obtain ⟨k, before, body, hoccupied⟩ := h.occupied j hj
    have hij : j ≠ i := by
      rintro rfl
      exact hbody k before body (Option.some.inj (hg.symm.trans hoccupied))
    refine ⟨k, before, body, ?_⟩
    rw [goto_ne hij]
    exact hoccupied
  destroys := h.destroys

/-- Nobody takes a step in the code; the owner stays whoever it is. -/
theorem Owned.requestCancel (h : Owned s o) : Owned s.requestCancel o := by
  unfold Run.requestCancel
  split <;> exact ⟨h.segments, h.armed, h.published, h.resting, h.cold, h.occupied, h.destroys⟩

/-! ## Steps on the frame -/

/-- What the others keep when the owner changes the frame itself: nobody else is in it. -/
theorem Owned.others (h : Owned s (.segment i)) (hs : s'.segments = s.segments)
    (hseq : s.seq ≤ s'.seq) (hplace : ∀ j, s.place = .inBody j → j = i) :
    ∀ j, j ≠ i → ∀ x, s'.segments[j]? = some x → SegOk s' o' j x := by
  intro j hj x hx
  rw [hs] at hx
  have hne : Owner.segment i ≠ .segment j := fun he => hj (Owner.segment.inj he).symm
  refine ((h.segments j x hx).passive hne).segOk hseq fun hbody => ?_
  exact absurd (hplace j hbody) hj

theorem Owned.destroys_zero (h : Owned s o) (hplace : s.place ≠ .destroyed) :
    s.destroys = 0 := by
  have hdestroys := h.destroys
  rwa [if_neg hplace] at hdestroys

/-- `coro.resume()`: the owner enters the body. -/
theorem Owned.resume (h : Owned s o) {before : Nat} (hg : s.segments[i]? = some g)
    (hpc : g.pc = .resume before) :
    Owned ({ s with place := .inBody i }.goto i (.inBody before .code)) (.segment i) := by
  have hok := h.segments i g hg
  unfold SegOk at hok
  rw [hpc] at hok
  obtain ⟨rfl, -, hbefore, hresting⟩ := hok
  have hempty : ∀ j, s.place = .inBody j → j = i := by
    intro j hj
    rcases hresting with hcold | hawait
    · rw [hcold] at hj; cases hj
    · rw [hawait] at hj; cases hj
  have hplace : s.place ≠ .destroyed := by
    rcases hresting with hcold | hawait
    · rw [hcold]; decide
    · rw [hawait]; decide
  refine
    { segments := forall_goto (s := { s with place := .inBody i }) hg ?_
        (h.others rfl (Nat.le_refl _) hempty)
      armed := fun n a ha harmed => absurd harmed (h.not_armed ha)
      published := h.published
      resting := ?_
      cold := fun hcold => by cases hcold
      occupied := ?_
      destroys := h.destroys_zero hplace }
  · refine ⟨rfl, Nat.le_of_eq hbefore, fun hmarked => absurd hmarked (by decide), fun _ => rfl, ?_⟩
    intro n a hawait
    cases hawait
  · rintro (hcold | hawait)
    · cases hcold
    · cases hawait
  · intro j hj
    obtain rfl : i = j := Place.inBody.inj hj
    exact ⟨_, before, .code, goto_self (s := { s with place := .inBody i }) hg _⟩

/-- A suspension is marked: from here on the segment has given the frame away. -/
theorem Owned.mark (h : Owned s o) {k before : Nat} {body body' : Body}
    (hg : s.segments[i]? = some ⟨k, .inBody before body⟩) (hbody : body ≠ .publish)
    (hsegs : s'.segments = s.segments) (hseq : s'.seq = s.seq + 1)
    (hpublished : s'.published = s.published) (hplace : s'.place = s.place)
    (hdestroys : s'.destroys = s.destroys)
    (hawaits : ∀ (n : Nat) (a : Await), s'.awaits[n]? = some a → a.handshake.state ≠ .armed)
    (hawait : ∀ (n : Nat) (a : Await), body'.awaitOf = some n → s'.awaits[n]? = some a →
      a.suspension = s.seq + 1) :
    Owned (s'.goto i (.inBody before body')) (.segment i) := by
  obtain ⟨hin, hle, -, howner, -⟩ := h.segments i _ hg
  obtain rfl := howner hbody
  have hempty : ∀ j, s.place = .inBody j → j = i := by
    intro j hj
    rw [hin] at hj
    exact (Place.inBody.inj hj).symm
  have hin' : s'.place = .inBody i := hplace.trans hin
  have hlt := h.published
  refine
    { segments := forall_goto (by rw [hsegs]; exact hg) ?_
        (h.others hsegs (by omega) hempty)
      armed := fun n a ha harmed => absurd harmed (hawaits n a ha)
      published := ?_
      resting := ?_
      cold := fun hcold => ?_
      occupied := ?_
      destroys := ?_ }
  · change SegOk s' (.segment i) i ⟨k, .inBody before body'⟩
    refine ⟨hin', by omega, fun _ => ⟨by omega, by omega⟩, fun _ => rfl, ?_⟩
    intro n a hn ha
    exact (hawait n a hn ha).trans hseq.symm
  · change s'.published ≤ s'.seq
    omega
  · rintro (hcold | hwait)
    · cases hin'.symm.trans hcold
    · cases hin'.symm.trans hwait
  · cases hin'.symm.trans hcold
  · intro j hj
    obtain rfl : i = j := Place.inBody.inj (hin'.symm.trans hj)
    exact ⟨_, before, body', goto_self (by rw [hsegs]; exact hg) _⟩
  · change s'.destroys = if s'.place = .destroyed then 1 else 0
    rw [hdestroys, hplace]
    exact h.destroys

/-- The body ends: whoever is in it owns the frame, unless it was given away before. -/
theorem Owned.final (h : Owned s o) {k before : Nat}
    (hg : s.segments[i]? = some ⟨k, .inBody before .completed⟩) :
    Owned ({ s with place := .final }.goto i (.returned before)) (.segment i) := by
  obtain ⟨hin, hle, -, howner, -⟩ := h.segments i _ hg
  obtain rfl := howner (by decide)
  have hempty : ∀ j, s.place = .inBody j → j = i := by
    intro j hj
    rw [hin] at hj
    exact (Place.inBody.inj hj).symm
  have hplace : s.place ≠ .destroyed := by
    intro hdestroyed
    cases hin.symm.trans hdestroyed
  refine
    { segments := forall_goto (s := { s with place := .final }) hg ?_
        (h.others rfl (Nat.le_refl _) hempty)
      armed := fun n a ha harmed => absurd harmed (h.not_armed ha)
      published := h.published
      resting := ?_
      cold := fun hcold => by cases hcold
      occupied := fun j hj => by cases hj
      destroys := h.destroys_zero hplace }
  · rcases Nat.lt_or_eq_of_le hle with hlt | heq
    · exact .inl hlt
    · exact .inr ⟨heq, rfl, rfl⟩
  · rintro (hcold | hawait)
    · cases hcold
    · cases hawait

/-- `coro.destroy()`: by the owner only, and nobody owns the frame afterwards. -/
theorem Owned.destroy (h : Owned s (.segment i)) (hg : s.segments[i]? = some g)
    (hplace : s.place = .cold ∨ s.place = .final) :
    Owned (s.destroyFrame.goto i .ended) .nobody := by
  have hempty : ∀ j, s.place = .inBody j → j = i := by
    intro j hj
    rcases hplace with hcold | hfinal
    · rw [hcold] at hj; cases hj
    · rw [hfinal] at hj; cases hj
  have hlive : s.place ≠ .destroyed := by
    rcases hplace with hcold | hfinal
    · rw [hcold]; decide
    · rw [hfinal]; decide
  refine
    { segments := forall_goto (s := s.destroyFrame) hg trivial
        (h.others rfl (Nat.le_refl _) hempty)
      armed := fun n a ha harmed => absurd harmed (h.not_armed ha)
      published := h.published
      resting := ?_
      cold := fun hcold => by cases hcold
      occupied := fun j hj => by cases hj
      destroys := congrArg (· + 1) (h.destroys_zero hlive) }
  rintro (hcold | hawait)
  · cases hcold
  · cases hawait

/-- The publication: the frame is at rest, whoever owns it by now. -/
theorem Owned.publish (h : Owned s o) {k before : Nat}
    (hg : s.segments[i]? = some ⟨k, .inBody before .publish⟩) :
    Owned ({ s with published := s.seq, place := .atAwait }.goto i (.returned before)) o := by
  obtain ⟨hin, -, hmarked, -, -⟩ := h.segments i _ hg
  have hrest : ¬ Resting s := by
    rintro (hcold | hawait)
    · rw [hin] at hcold; cases hcold
    · rw [hin] at hawait; cases hawait
  have hsuspending : Suspending ({ s with published := s.seq, place := .atAwait } : Run) := .inl rfl
  have hplace : s.place ≠ .destroyed := by
    intro hdestroyed
    cases hin.symm.trans hdestroyed
  refine
    { segments := forall_goto (s := { s with published := s.seq, place := .atAwait }) hg
        (.inl (hmarked rfl).1) ?_
      armed := ?_
      published := Nat.le_refl _
      resting := fun _ => rfl
      cold := fun hcold => by cases hcold
      occupied := fun j hj => by cases hj
      destroys := h.destroys_zero hplace }
  · intro j hj x hx
    have hok := h.segments j x hx
    rcases x with ⟨l, pc⟩
    cases pc with
    | queued =>
      obtain ⟨howner, hl, hcold⟩ := hok
      refine ⟨howner, hl, ?_⟩
      split at hcold
      case isTrue => rw [hin] at hcold; cases hcold
      case isFalse hseq => exact (if_neg hseq).mpr hsuspending
    | awaiting need => exact ⟨hok.1, hok.2.1, hok.2.2.1, hsuspending⟩
    | refused | abandon => have hcold := hok.2; rw [hin] at hcold; cases hcold
    | toRunning | readSeq => exact absurd hok.2.2 hrest
    | checkDone b | resume b => exact absurd hok.2.2.2 hrest
    | inBody b body => exact absurd (h.inBody_eq hin hx) hj
    | returned b =>
      rcases hok with hlt | ⟨-, -, hfinal⟩
      · exact .inl hlt
      · rw [hin] at hfinal; cases hfinal
    | checkFinal | destroy => have hfinal := hok.2; rw [hin] at hfinal; cases hfinal
    | ended => trivial
  · intro n a ha harmed
    obtain ⟨howner, hsuspension, hpos, -⟩ := h.armed n a ha harmed
    exact ⟨howner, hsuspension, hpos, hsuspending⟩

/-! ## Handing the frame over -/

/-- A segment only asks whether it is the owner. -/
theorem SegOk.owner (h : SegOk s o j g) (ho : o = .segment j → o' = .segment j) :
    SegOk s o' j g := by
  rcases g with ⟨k, pc⟩
  cases pc with
  | inBody before body => exact ⟨h.1, h.2.1, h.2.2.1, fun hne => ho (h.2.2.2.1 hne), h.2.2.2.2⟩
  | returned before =>
    rcases h with hlt | ⟨heq, howner, hplace⟩
    · exact .inl hlt
    · exact .inr ⟨heq, ho howner, hplace⟩
  | ended => trivial
  | queued | refused | abandon | awaiting need | toRunning | readSeq | checkDone before
  | resume before | checkFinal | destroy => exact ⟨ho h.1, h.2⟩

/-- One handshake changes; if it is armed now, it owns the frame. -/
theorem Owned.setAwait (h : Owned s o) {n : Nat} {a : Await} (ha : s.awaits[n]? = some a)
    (o' : Owner) (a' : Await)
    (hsuspension : a'.suspension = a.suspension)
    (hsegment : ∀ j, o = .segment j → o' = .segment j)
    (hother : ∀ m, m ≠ n → o = .await m → o' = .await m)
    (harmed : a'.handshake.state = .armed →
      o' = .await n ∧ a.suspension = s.seq ∧ 0 < s.seq ∧ Suspending s) :
    Owned { s with awaits := s.awaits.set n a' } o' where
  segments := by
    intro j x hx
    have hok := (h.segments j x hx).owner (hsegment j)
    rcases x with ⟨k, pc⟩
    cases pc with
    | inBody before body =>
      refine ⟨hok.1, hok.2.1, hok.2.2.1, hok.2.2.2.1, fun m b hm hb => ?_⟩
      rw [List.getElem?_set] at hb
      split at hb
      case isTrue hmn =>
        subst hmn
        split at hb
        · cases hb
          exact hsuspension.trans (hok.2.2.2.2 n a hm ha)
        · cases hb
      case isFalse => exact hok.2.2.2.2 m b hm hb
    | queued | refused | abandon | awaiting need | toRunning | readSeq | checkDone before
    | resume before | returned before | checkFinal | destroy | ended => exact hok
  armed := by
    intro m b hb hstate
    rw [List.getElem?_set] at hb
    split at hb
    case isTrue hmn =>
      subst hmn
      split at hb
      · cases hb
        obtain ⟨howner, hseq, hpos, hsuspending⟩ := harmed hstate
        exact ⟨howner, hsuspension.trans hseq, hpos, hsuspending⟩
      · cases hb
    case isFalse hmn =>
      obtain ⟨howner, hrest⟩ := h.armed m b hb hstate
      exact ⟨hother m (Ne.symm hmn) howner, hrest⟩
  published := h.published
  resting := h.resting
  cold := h.cold
  occupied := h.occupied
  destroys := h.destroys

/-- The marked suspension is as good as handed over: only the publication is left. -/
theorem Owned.release (h : Owned s (.segment i)) {k before : Nat} {body : Body}
    (hg : s.segments[i]? = some ⟨k, .inBody before body⟩) (hmarked : body.marked = true) :
    Owned (s.goto i (.inBody before .publish)) .nobody where
  segments := by
    obtain ⟨hin, hle, hlt, -, -⟩ := h.segments i _ hg
    have hempty : ∀ j, s.place = .inBody j → j = i := by
      intro j hj
      rw [hin] at hj
      exact (Place.inBody.inj hj).symm
    refine forall_goto hg ?_ (h.others rfl (Nat.le_refl _) hempty)
    refine ⟨hin, hle, fun _ => hlt hmarked, fun hne => absurd rfl hne, ?_⟩
    intro n a hawait
    cases hawait
  armed := fun n a ha harmed => absurd harmed (h.not_armed ha)
  published := h.published
  resting := h.resting
  cold := h.cold
  occupied := by
    intro j hj
    obtain ⟨l, b, body', hoccupied⟩ := h.occupied j hj
    by_cases hij : j = i
    · subst hij
      exact ⟨_, before, .publish, goto_self hg _⟩
    · refine ⟨l, b, body', ?_⟩
      rw [goto_ne hij]
      exact hoccupied
  destroys := h.destroys

/-- The resume action: the frame nobody owned goes to a new invoker. -/
theorem Owned.post (h : Owned s .nobody) (hsuspending : Suspending s) (hpos : 0 < s.seq)
    {k : Nat} (hk : k = s.seq) : Owned (s.post k) (.segment s.segments.length) where
  segments := by
    refine forall_post (fun j x hx => ?_) ⟨rfl, hk, ?_⟩
    · have hne : Owner.nobody ≠ .segment j := nofun
      refine ((h.segments j x hx).passive hne).segOk (Nat.le_refl _) fun hplace => ?_
      exact ⟨hplace, h.publishing hplace hne⟩
    · exact (if_neg (Nat.ne_of_gt hpos)).mpr hsuspending
  armed := by
    intro n a ha harmed
    cases (h.armed n a ha harmed).1
  published := h.published
  resting := h.resting
  cold := h.cold
  occupied := by
    intro j hj
    obtain ⟨l, before, body, hbody⟩ := h.occupied j hj
    refine ⟨l, before, body, ?_⟩
    rw [Run.post, List.getElem?_append_left (List.getElem?_eq_some_iff.mp hbody).1]
    exact hbody
  destroys := h.destroys

/-- A trigger: an armed handshake passes the frame on to the invoker it posts; any other
changes nothing. -/
theorem Owned.shake (h : Owned s o) {op : AwaitHandshake → AwaitHandshake × Bool}
    (hposts : ∀ x : AwaitHandshake, (op x).2 = decide (x.state = .armed))
    (hdone : ∀ x : AwaitHandshake, (op x).1.state ≠ .armed) (n : Nat) :
    ∃ o', Owned (s.shake op n) o' := by
  unfold Run.shake
  cases ha : s.awaits[n]? with
  | none => exact ⟨o, h⟩
  | some a =>
    have hset : ∀ o', (∀ j, o = .segment j → o' = .segment j) →
        (∀ m, m ≠ n → o = .await m → o' = .await m) →
        Owned { s with awaits := s.awaits.set n { a with handshake := (op a.handshake).1 } } o' :=
      fun _ hsegment hother =>
        h.setAwait ha _ _ rfl hsegment hother fun harmed => absurd harmed (hdone a.handshake)
    by_cases harmed : a.handshake.state = .armed
    · obtain ⟨rfl, hsuspension, hpos, hsuspending⟩ := h.armed n a ha harmed
      have hpost : (op a.handshake).2 = true := by rw [hposts, harmed]; rfl
      have hnobody := hset .nobody (by intro j hj; cases hj)
        (by intro m hm he; exact absurd (Owner.await.inj he).symm hm)
      dsimp only
      rw [if_pos hpost]
      exact ⟨_, hnobody.post hsuspending hpos hsuspension⟩
    · have hpost : (op a.handshake).2 = false := by rw [hposts]; exact decide_eq_false harmed
      dsimp only
      rw [hpost]
      exact ⟨o, hset o (fun _ he => he) fun _ _ he => he⟩

theorem goto_eq_set (hg : s.segments[i]? = some g) (pc : Pc) :
    s.goto i pc = { s with segments := s.segments.set i ⟨g.suspension, pc⟩ } := by
  rw [Run.goto, List.modify_eq_set_getElem?, hg]
  rfl

theorem goto_post (hg : s.segments[i]? = some g) (k : Nat) (pc : Pc) :
    (s.post k).goto i pc = (s.goto i pc).post k := by
  have hi := (List.getElem?_eq_some_iff.mp hg).1
  have hpost : (s.post k).segments[i]? = some g := by
    rw [Run.post, List.getElem?_append_left hi]
    exact hg
  rw [goto_eq_set hpost, goto_eq_set hg]
  simp only [Run.post, List.set_append_left i _ hi]

/-- `AwaitHandshake::arm`: the frame goes to the handshake, or to the invoker it posts. -/
theorem Owned.arm (h : Owned s (.segment i)) {k before n : Nat}
    (hg : s.segments[i]? = some ⟨k, .inBody before (.arm n)⟩) :
    ∃ o', Owned ((s.shake AwaitHandshake.arm n).goto i (.inBody before .publish)) o' := by
  obtain ⟨hin, -, hmarked, -, hawait⟩ := h.segments i _ hg
  have hreleased := h.release hg rfl
  have hpos : 0 < s.seq := Nat.lt_of_le_of_lt (Nat.zero_le _) (hmarked rfl).1
  have hsuspending : Suspending (s.goto i (.inBody before .publish)) := .inr ⟨i, hin⟩
  unfold Run.shake
  cases ha : s.awaits[n]? with
  | none => exact ⟨_, hreleased⟩
  | some a =>
    have hsuspension := hawait n a rfl ha
    dsimp only
    split
    case isTrue hpost =>
      have hset := hreleased.setAwait ha .nobody
        { a with handshake := a.handshake.arm.1 } rfl (fun _ he => he)
        (fun _ _ he => he) fun harmed => absurd harmed (AwaitHandshake.arm_posts_not_armed hpost)
      rw [goto_post (by exact hg)]
      exact ⟨_, hset.post hsuspending hpos hsuspension⟩
    case isFalse hpost =>
      refine ⟨_, hreleased.setAwait ha (.await n)
        { a with handshake := a.handshake.arm.1 } rfl ?_ ?_
        fun _ => ⟨rfl, hsuspension, hpos, hsuspending⟩⟩
      · intro j hj; cases hj
      · intro m hm hj; cases hj

/-- `yield` posts its resume itself. -/
theorem Owned.yieldPost (h : Owned s (.segment i)) {k before : Nat}
    (hg : s.segments[i]? = some ⟨k, .inBody before .yieldPost⟩) :
    ∃ o', Owned ((s.post s.seq).goto i (.inBody before .publish)) o' := by
  obtain ⟨hin, -, hmarked, -, -⟩ := h.segments i _ hg
  have hpos : 0 < s.seq := Nat.lt_of_le_of_lt (Nat.zero_le _) (hmarked rfl).1
  rw [goto_post hg]
  exact ⟨_, (h.release hg rfl).post (.inr ⟨i, hin⟩) hpos rfl⟩

/-! ## Every step -/

/-- Marking touches one await, and its handshake not at all. -/
theorem mark_awaits {n m : Nat} {a : Await} (ha : (s.mark n).awaits[m]? = some a) :
    ∃ b, s.awaits[m]? = some b ∧ a.handshake = b.handshake ∧
      (m = n → a.suspension = s.seq + 1) := by
  rw [Run.mark, List.getElem?_modify] at ha
  obtain ⟨b, hb, hab⟩ := Option.map_eq_some_iff.mp ha
  refine ⟨b, hb, ?_⟩
  split at hab
  case isTrue => subst hab; exact ⟨rfl, fun _ => rfl⟩
  case isFalse hne => subst hab; exact ⟨rfl, fun he => absurd he.symm hne⟩

/-- The marking of an await, in both awaiters that have a handshake. -/
theorem Owned.markAwait (h : Owned s o) {k before n : Nat} {body body' : Body}
    (hg : s.segments[i]? = some ⟨k, .inBody before body⟩) (hbody : body ≠ .publish)
    (hawait : body'.awaitOf = some n) :
    Owned ((s.mark n).goto i (.inBody before body')) (.segment i) := by
  obtain rfl := (h.segments i _ hg).2.2.2.1 hbody
  refine h.mark hg hbody rfl rfl rfl rfl rfl (fun m a ha => ?_) fun m a hm ha => ?_
  · obtain ⟨b, hb, hhandshake, -⟩ := mark_awaits ha
    rw [hhandshake]
    exact h.not_armed hb
  · obtain ⟨b, -, -, hsuspension⟩ := mark_awaits ha
    exact hsuspension (Option.some.inj (hm.symm.trans hawait))

/-- From one place in the body to another, with nothing marked in between. -/
theorem Owned.bodyStay (h : Owned s o) {k before : Nat} {body body' : Body}
    (hg : s.segments[i]? = some ⟨k, .inBody before body⟩) (hbody : body ≠ .publish)
    (hs : SameFrame s s') (hmarked : body'.marked = true → body.marked = true)
    (hawait : ∀ (n : Nat) (a : Await), body'.awaitOf = some n → s'.awaits[n]? = some a →
      body.awaitOf = some n ∧ s.awaits[n]? = some a) :
    Owned (s'.goto i (.inBody before body')) (.segment i) := by
  obtain ⟨hin, hle, hlt, howner, hsuspension⟩ := h.segments i _ hg
  obtain rfl := howner hbody
  refine h.stay hg hs ⟨hs.place.trans hin, ?_, ?_, fun _ => rfl, ?_⟩
    fun _ _ _ _ => ⟨before, body', rfl⟩
  · rw [hs.seq]
    exact hle
  · rw [hs.seq, hs.published]
    exact fun hm => hlt (hmarked hm)
  · intro n a hn ha
    obtain ⟨hn', ha'⟩ := hawait n a hn ha
    rw [hs.seq]
    exact hsuspension n a hn' ha'

theorem Owned.bodyStep (h : Owned s o) {k before : Nat} {body : Body}
    (hg : s.segments[i]? = some ⟨k, .inBody before body⟩)
    (hs : bodyStep s i before body = some s') : ∃ o', Owned s' o' := by
  have hok := h.segments i _ hg
  cases body with
  | code => cases hs
  | targetMark n => cases hs; exact ⟨_, h.markAwait hg nofun rfl⟩
  | sleepMark n => cases hs; exact ⟨_, h.markAwait hg nofun rfl⟩
  | yieldMark =>
    cases hs
    obtain rfl := hok.2.2.2.1 nofun
    exact ⟨_, h.mark hg nofun rfl rfl rfl rfl rfl (fun m a ha => h.not_armed ha) nofun⟩
  | targetSuspend n =>
    cases hs
    have hsame : s.toSuspended.awaits = s.awaits := by unfold Run.toSuspended; split <;> rfl
    refine ⟨_, h.bodyStay hg nofun (SameFrame.toSuspended s) (fun _ => rfl) fun m a hm ha => ?_⟩
    rw [hsame] at ha
    exact ⟨hm, ha⟩
  | sleepSuspend n =>
    cases hs
    exact ⟨_, h.bodyStay hg nofun (SameFrame.toSuspended s) nofun nofun⟩
  | yieldSuspend =>
    cases hs
    exact ⟨_, h.bodyStay hg nofun (SameFrame.toSuspended s) nofun nofun⟩
  | sleepCheck n =>
    unfold CoroutineFrame.bodyStep at hs
    dsimp only at hs
    split at hs
    case isTrue => cases hs; exact ⟨_, h.bodyStay hg nofun (SameFrame.refl s) nofun nofun⟩
    case isFalse => cases hs; exact ⟨_, h.bodyStay hg nofun (SameFrame.refl s) nofun nofun⟩
  | arm n =>
    cases hs
    obtain rfl := hok.2.2.2.1 nofun
    exact h.arm hg
  | yieldPost =>
    cases hs
    obtain rfl := hok.2.2.2.1 nofun
    exact h.yieldPost hg
  | publish => cases hs; exact ⟨_, h.publish hg⟩
  | completed => cases hs; exact ⟨_, h.final hg⟩

theorem Owned.advance (h : Owned s o) (hg : s.segments[i]? = some g)
    (hs : advance s i g = some s') : ∃ o', Owned s' o' := by
  have hok := h.segments i g hg
  rcases g with ⟨k, pc⟩
  cases pc with
  | queued =>
    obtain ⟨rfl, hk, hplace⟩ := hok
    dsimp only at hk
    unfold CoroutineFrame.advance at hs
    dsimp only at hs
    by_cases hgate : k = 0
    · rw [if_pos hgate] at hs
      rw [if_pos (hk.symm.trans hgate)] at hplace
      split at hs <;> cases hs
      · exact ⟨_, h.stay hg (SameFrame.state s _) ⟨rfl, hk, .inl hplace⟩ nofun⟩
      · exact ⟨_, h.stay hg (SameFrame.refl s) ⟨rfl, hplace⟩ nofun⟩
    · rw [if_neg hgate] at hs
      rw [if_neg (fun he => hgate (hk.trans he))] at hplace
      cases hs
      exact ⟨_, h.stay hg (SameFrame.refl s) ⟨rfl, hk, rfl, hplace⟩ nofun⟩
  | refused =>
    cases hs
    obtain ⟨rfl, hcold⟩ := hok
    have hsame := SameFrame.requestCancel s
    exact ⟨_, h.stay hg hsame ⟨rfl, hsame.place.trans hcold⟩ nofun⟩
  | abandon =>
    cases hs
    obtain ⟨rfl, hcold⟩ := hok
    exact ⟨_, h.destroy hg (.inl hcold)⟩
  | awaiting need =>
    obtain ⟨rfl, hk, hneed, hsuspending⟩ := hok
    unfold CoroutineFrame.advance at hs
    dsimp only at hs
    split at hs
    case isTrue hpublished =>
      cases hs
      -- somebody still in the body would have to publish first
      have hresting : Resting s := by
        rcases hsuspending with hawait | ⟨j, hj⟩
        · exact .inr hawait
        · have hij : j ≠ i := by
            rintro rfl
            obtain ⟨l, b, body, hbody⟩ := h.occupied j hj
            cases hg.symm.trans hbody
          have hlt := h.publishing hj fun he => hij (Owner.segment.inj he).symm
          omega
      exact ⟨_, h.stay hg (SameFrame.refl s) ⟨rfl, hk, hresting⟩ nofun⟩
    case isFalse => cases hs
  | toRunning =>
    cases hs
    obtain ⟨rfl, hk, hresting⟩ := hok
    have hsame := SameFrame.toRunning s
    refine ⟨_, h.stay hg hsame ⟨rfl, hk.trans hsame.seq.symm, ?_⟩ nofun⟩
    unfold Resting
    rw [hsame.place]
    exact hresting
  | readSeq =>
    cases hs
    obtain ⟨rfl, hk, hresting⟩ := hok
    exact ⟨_, h.stay hg (SameFrame.refl s) ⟨rfl, hk, rfl, hresting⟩ nofun⟩
  | checkDone before =>
    obtain ⟨rfl, hk, hbefore, hresting⟩ := hok
    unfold CoroutineFrame.advance at hs
    dsimp only at hs
    split at hs
    case isTrue hfinal =>
      rcases hresting with hcold | hawait
      · cases hcold.symm.trans hfinal
      · cases hawait.symm.trans hfinal
    case isFalse =>
      cases hs
      exact ⟨_, h.stay hg (SameFrame.refl s) ⟨rfl, hk, hbefore, hresting⟩ nofun⟩
  | resume before => cases hs; exact ⟨_, h.resume hg rfl⟩
  | inBody before body => exact h.bodyStep hg hs
  | returned before =>
    unfold CoroutineFrame.advance at hs
    dsimp only at hs
    split at hs
    case isTrue hne =>
      cases hs
      exact ⟨_, h.leave hg nofun⟩
    case isFalse heq =>
      cases hs
      rcases hok with hlt | ⟨-, rfl, hfinal⟩
      · omega
      · exact ⟨_, h.stay hg (SameFrame.refl s) ⟨rfl, hfinal⟩ nofun⟩
  | checkFinal =>
    obtain ⟨rfl, hfinal⟩ := hok
    unfold CoroutineFrame.advance at hs
    dsimp only at hs
    rw [if_pos hfinal] at hs
    cases hs
    exact ⟨_, h.stay hg (SameFrame.refl s) ⟨rfl, hfinal⟩ nofun⟩
  | destroy =>
    cases hs
    obtain ⟨rfl, hfinal⟩ := hok
    exact ⟨_, h.destroy hg (.inr hfinal)⟩
  | ended => cases hs

theorem requestCancel_segments (s : Run) : s.requestCancel.segments = s.segments :=
  (SameFrame.requestCancel s).segments

/-- Every step keeps the frame owned. -/
theorem Owned.step (h : Owned s o) {a : Label} (hs : machine.next s a = some s') :
    ∃ o', Owned s' o' := by
  cases a with
  | advance i =>
    obtain ⟨g, hg, hs⟩ := Option.bind_eq_some_iff.mp hs
    exact h.advance hg hs
  | beginAwait i kind =>
    simp only [machine, next] at hs
    split at hs
    case h_1 k before hg =>
      cases hs
      unfold beginAwait
      split
      case isTrue => exact ⟨o, h⟩
      case isFalse =>
        cases kind with
        | target => exact ⟨_, h.bodyStay hg nofun (SameFrame.newAwait s) nofun nofun⟩
        | sleep => exact ⟨_, h.bodyStay hg nofun (SameFrame.newAwait s) nofun nofun⟩
        | yield => exact ⟨_, h.bodyStay hg nofun (SameFrame.refl s) nofun nofun⟩
    case h_2 => cases hs
  | complete i outcome =>
    simp only [machine, next] at hs
    split at hs
    case h_1 k before hg =>
      cases hs
      exact ⟨_, h.bodyStay hg nofun (SameFrame.state s _) nofun nofun⟩
    case h_2 => cases hs
  | armThrows i =>
    simp only [machine, next] at hs
    split at hs
    case h_1 k before n hg =>
      cases hs
      exact ⟨_, h.bodyStay hg nofun (SameFrame.refl s) nofun nofun⟩
    case h_2 k before n hg =>
      cases hs
      exact ⟨_, h.bodyStay hg nofun (SameFrame.refl s) nofun nofun⟩
    case h_3 k before hg =>
      cases hs
      exact ⟨_, h.bodyStay hg nofun (SameFrame.refl s) nofun nofun⟩
    case h_4 => cases hs
  | trigger n =>
    cases hs
    exact h.shake AwaitHandshake.trigger_posts AwaitHandshake.trigger_not_armed n
  | triggerCancel n =>
    cases hs
    exact h.shake AwaitHandshake.triggerCancel_posts AwaitHandshake.triggerCancel_not_armed n
  | requestCancel =>
    cases hs
    exact ⟨o, h.requestCancel⟩
  | discard i =>
    simp only [machine, next] at hs
    split at hs
    case h_1 hg =>
      cases hs
      refine ⟨o, h.requestCancel.leave (g := ⟨0, .queued⟩) ?_ nofun⟩
      rw [requestCancel_segments]
      exact hg
    case h_2 => cases hs
  | lose i =>
    simp only [machine, next] at hs
    split at hs
    case h_1 k hg =>
      cases hs
      exact ⟨o, h.leave hg nofun⟩
    case h_2 => cases hs

end Steps

theorem owned_initial : Owned {} (.segment 0) where
  segments := by
    intro i g hg
    cases i with
    | zero => cases hg; exact ⟨rfl, rfl, rfl⟩
    | succ i => cases hg
  armed := by
    intro n a ha
    cases ha
  published := Nat.le_refl _
  resting := fun _ => rfl
  cold := fun _ => rfl
  occupied := by
    intro i hi
    cases hi
  destroys := rfl

theorem owned_of_reachable {s : Run} (h : machine.Reachable s) : ∃ o, Owned s o := by
  apply h.invariant fun s => ∃ o, Owned s o
  · rintro s rfl
    exact ⟨_, owned_initial⟩
  · rintro s a s' ⟨o, ho⟩ _ hs
    exact ho.step hs

/-! ## The result -/

/-- Segment `i` is between `coro.resume()` and the publication of its suspension, or the
final one. -/
def Inside (s : Run) (i : Nat) : Prop :=
  ∃ k before body, s.segments[i]? = some ⟨k, .inBody before body⟩

/-- The segment calls `coro.destroy()` with its next step. -/
def Segment.destroysNext (g : Segment) : Prop := g.pc = .abandon ∨ g.pc = .destroy

structure FrameSafety (s : Run) : Prop where
  /-- No two threads are in the body. -/
  oneInside : ∀ i j, Inside s i → Inside s j → i = j
  /-- Whoever resumes the frame next finds it suspended and nobody in it; the suspension
  the resume is for was published. -/
  resumes : ∀ (i : Nat) (g : Segment) (before : Nat), s.segments[i]? = some g →
    g.pc = .resume before →
    (s.place = .cold ∨ s.place = .atAwait) ∧ (∀ j, ¬ Inside s j) ∧ g.suspension ≤ s.published
  /-- Whoever destroys the frame next finds it at its initial or its final suspension. -/
  destroys : ∀ (i : Nat) (g : Segment), s.segments[i]? = some g → g.destroysNext →
    (s.place = .cold ∨ s.place = .final) ∧ ∀ j, ¬ Inside s j
  /-- One party only is about to touch the frame. -/
  oneTouches : ∀ (i j : Nat) (g g' : Segment), s.segments[i]? = some g →
    s.segments[j]? = some g' → (g.destroysNext ∨ ∃ b, g.pc = .resume b) →
    (g'.destroysNext ∨ ∃ b, g'.pc = .resume b) → i = j
  destroyedOnce : s.destroys ≤ 1

section Result
variable {s : Run} {o : Owner} {i : Nat} {g : Segment}

/-- A segment at its `resume` or `destroy` owns the frame. -/
theorem Owned.toucher (h : Owned s o) (hg : s.segments[i]? = some g)
    (ht : g.destroysNext ∨ ∃ b, g.pc = .resume b) : o = .segment i := by
  have hok := h.segments i g hg
  unfold SegOk at hok
  rcases ht with (hpc | hpc) | ⟨b, hpc⟩ <;> rw [hpc] at hok <;> exact hok.1

theorem Owned.not_inside (h : Owned s o) (hplace : ∀ j, s.place ≠ .inBody j) (j : Nat) :
    ¬ Inside s j := by
  rintro ⟨k, before, body, hg⟩
  exact hplace j (h.segments j _ hg).1

theorem Owned.frameSafety (h : Owned s o) : FrameSafety s where
  oneInside := by
    rintro i j ⟨k, b, body, hi⟩ ⟨k', b', body', hj⟩
    exact h.inBody_eq (h.segments j _ hj).1 hi
  resumes := by
    intro i g before hg hpc
    have hok := h.segments i g hg
    unfold SegOk at hok
    rw [hpc] at hok
    obtain ⟨-, hsuspension, -, hresting⟩ := hok
    refine ⟨hresting, h.not_inside fun j hj => ?_, ?_⟩
    · rcases hresting with hcold | hawait
      · cases hcold.symm.trans hj
      · cases hawait.symm.trans hj
    · rw [h.resting hresting]
      exact Nat.le_of_eq hsuspension
  destroys := by
    intro i g hg hnext
    have hok := h.segments i g hg
    unfold SegOk at hok
    rcases hnext with hpc | hpc <;> rw [hpc] at hok
    · refine ⟨.inl hok.2, h.not_inside fun j hj => ?_⟩
      cases hok.2.symm.trans hj
    · refine ⟨.inr hok.2, h.not_inside fun j hj => ?_⟩
      cases hok.2.symm.trans hj
  oneTouches := by
    intro i j g g' hg hg' ht ht'
    exact Owner.segment.inj ((h.toucher hg ht).symm.trans (h.toucher hg' ht'))
  destroyedOnce := by
    rw [h.destroys]
    split <;> omega

end Result

theorem frameSafety_of_reachable {s : Run} (h : machine.Reachable s) : FrameSafety s := by
  obtain ⟨o, ho⟩ := owned_of_reachable h
  exact ho.frameSafety

/-- The trigger fires while the awaiter is still registering; the resume is claimed before
the suspension is published, waits for it and finishes the coroutine. -/
def earlyTrigger : List Label :=
  [.advance 0, .advance 0, .advance 0, .advance 0, .beginAwait 0 .target, .advance 0,
    .trigger 0, .advance 0, .advance 0, .advance 1, .requestCancel, .advance 0, .advance 1,
    .advance 1, .advance 1, .advance 1, .advance 1, .advance 0, .complete 1 .cancelled,
    .advance 1, .advance 1, .advance 1, .advance 1]

theorem frameSafety_earlyTrigger :
    ∃ s, machine.run {} earlyTrigger = some s ∧ s.place = .destroyed ∧ FrameSafety s := by
  obtain ⟨s, hs⟩ := Option.isSome_iff_exists.mp
    (show (machine.run {} earlyTrigger).isSome by decide)
  have hend : (machine.run {} earlyTrigger).map (fun t => t.place) = some .destroyed := by decide
  rw [hs] at hend
  exact ⟨s, hs, Option.some.inj hend, frameSafety_of_reachable (Machine.reachable_of_run rfl hs)⟩

end CoroutineFrame
end AstraScheduler
