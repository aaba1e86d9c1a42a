import AstraScheduler.CoroutineOwnership

/-! # Who destroys the frame

A coroutine that is terminal has its frame destroyed by one segment: the gate that could not
start it (`abandon_unstarted`), or the segment in which the body ended and which finds the
sequence number unchanged and `done()` true.  As long as the task is terminal and the frame
exists, that segment exists and is on its way (`Kept`).

Two things break this.  `ReadyQueues::cancel_unstarted` and the Immediate branch of the
worker loop call `cancel_pre_start` and destroy the invoker, whose destructor leaves the
frame alone.  And a body that ends in a segment in which an await threw after it was marked
leaves with a changed sequence number, as if it had handed the frame over. -/

namespace AstraScheduler
namespace CoroutineFrame

open Transition (Machine)

variable {s s' : Run} {o : Owner} {i : Nat} {g : Segment}

/-- The first invoker is not discarded, and a body ends only in segments in which the
sequence number has not moved. -/
def cleansUp (s : Run) : Label → Bool
  | .discard _ => false
  | .complete i _ =>
    match s.segments[i]? with
    | some ⟨_, .inBody before _⟩ => before == s.seq
    | _ => true
  | _ => true

abbrev CleansUp (s : Run) (a : Label) : Prop := cleansUp s a = true

/-! ## The segment on its way to destroy the frame -/

def WillDestroy (s : Run) (g : Segment) : Prop :=
  match g.pc with
  | .queued | .refused | .abandon => s.place = .cold
  | .inBody before .completed | .returned before => before = s.seq
  | .checkFinal | .destroy => True
  | _ => False

/-- It owns the frame, and nobody else is in the body. -/
theorem Owned.willDestroy (h : Owned s o) (hg : s.segments[i]? = some g)
    (hw : WillDestroy s g) : o = .segment i ∧ ∀ j, s.place = .inBody j → j = i := by
  have hok := h.segments i g hg
  rcases g with ⟨k, pc⟩
  cases pc with
  | queued => exact ⟨hok.1, fun j hj => by cases hj.symm.trans hw⟩
  | refused | abandon => exact ⟨hok.1, fun j hj => by cases hj.symm.trans hw⟩
  | inBody before body =>
    refine ⟨hok.2.2.2.1 ?_, fun j hj => (Place.inBody.inj (hj.symm.trans hok.1))⟩
    rintro rfl
    exact hw
  | returned before =>
    rcases hok with hlt | ⟨-, howner, hplace⟩
    · exact absurd hw (Nat.ne_of_lt hlt)
    · exact ⟨howner, fun j hj => by cases hj.symm.trans hplace⟩
  | checkFinal | destroy => exact ⟨hok.1, fun j hj => by cases hj.symm.trans hok.2⟩
  | awaiting need | toRunning | readSeq | checkDone before | resume before | ended =>
    exact absurd hw id

/-- What a step leaves as it is, segment `i` in particular. -/
structure Untouched (s s' : Run) (i : Nat) : Prop where
  segment : s'.segments[i]? = s.segments[i]?
  seq : s'.seq = s.seq
  place : s'.place = s.place

theorem Untouched.willDestroy (h : Untouched s s' i) (hw : WillDestroy s g) :
    WillDestroy s' g := by
  unfold WillDestroy at hw ⊢
  rwa [h.seq, h.place]

/-- Who takes the step. -/
def Label.actor : Label → Option Nat
  | .advance i | .beginAwait i _ | .complete i _ | .armThrows i | .discard i | .lose i => some i
  | .trigger _ | .triggerCancel _ | .requestCancel => none

theorem Untouched.goto_ne {j : Nat} (hj : j ≠ i) (pc : Pc) : Untouched s (s.goto j pc) i :=
  ⟨CoroutineFrame.goto_ne (Ne.symm hj) pc, rfl, rfl⟩

theorem Untouched.requestCancel (s : Run) (i : Nat) : Untouched s s.requestCancel i := by
  have hsame := SameFrame.requestCancel s
  exact ⟨by rw [hsame.segments], hsame.seq, hsame.place⟩

/-- A handshake that is not armed is only noted. -/
theorem Untouched.shake {op : AwaitHandshake → AwaitHandshake × Bool}
    (hposts : ∀ x : AwaitHandshake, (op x).2 = decide (x.state = .armed)) {n : Nat}
    (harmed : ∀ a : Await, s.awaits[n]? = some a → a.handshake.state ≠ .armed) (i : Nat) :
    Untouched s (s.shake op n) i := by
  unfold Run.shake
  cases ha : s.awaits[n]? with
  | none => exact ⟨rfl, rfl, rfl⟩
  | some a =>
    have hpost : (op a.handshake).2 = false := by
      rw [hposts]
      exact decide_eq_false (harmed a ha)
    dsimp only
    rw [hpost]
    exact ⟨rfl, rfl, rfl⟩

/-- A passive segment outside of the body does nothing to the frame; neither do the others,
as long as no handshake is armed. -/
theorem untouched_of_passive {a : Label}
    (hpassive : ∀ (j : Nat) (x : Segment), a.actor = some j → s.segments[j]? = some x →
      Passive s j x)
    (hbody : ∀ j, a.actor = some j → s.place ≠ .inBody j)
    (harmed : ∀ (n : Nat) (x : Await), s.awaits[n]? = some x → x.handshake.state ≠ .armed)
    (hi : a.actor ≠ some i) (hs : machine.next s a = some s') : Untouched s s' i := by
  cases a with
  | advance j =>
    have hj : j ≠ i := fun he => hi (congrArg some he)
    obtain ⟨⟨k, pc⟩, hg, hs⟩ := Option.bind_eq_some_iff.mp hs
    have hp := hpassive j _ rfl hg
    cases pc with
    | inBody before body => exact absurd hp.2.1 (hbody j rfl)
    | returned before =>
      have hne : s.seq ≠ before := Nat.ne_of_gt hp
      simp only [advance, if_pos hne, Option.some.injEq] at hs
      subst hs
      exact .goto_ne hj _
    | ended => cases hs
    | queued | refused | abandon | awaiting need | toRunning | readSeq | checkDone before
    | resume before | checkFinal | destroy => exact absurd hp id
  | beginAwait j kind =>
    simp only [machine, next] at hs
    split at hs
    case h_1 k before hg => exact absurd (hpassive j _ rfl hg).2.1 (hbody j rfl)
    case h_2 => cases hs
  | complete j outcome =>
    simp only [machine, next] at hs
    split at hs
    case h_1 k before hg => exact absurd (hpassive j _ rfl hg).2.1 (hbody j rfl)
    case h_2 => cases hs
  | armThrows j =>
    simp only [machine, next] at hs
    split at hs
    case h_1 k before n hg => exact absurd (hpassive j _ rfl hg).2.1 (hbody j rfl)
    case h_2 k before n hg => exact absurd (hpassive j _ rfl hg).2.1 (hbody j rfl)
    case h_3 k before hg => exact absurd (hpassive j _ rfl hg).2.1 (hbody j rfl)
    case h_4 => cases hs
  | trigger n => cases hs; exact .shake AwaitHandshake.trigger_posts (harmed n) i
  | triggerCancel n => cases hs; exact .shake AwaitHandshake.triggerCancel_posts (harmed n) i
  | requestCancel => cases hs; exact .requestCancel s i
  | discard j =>
    simp only [machine, next] at hs
    split at hs
    case h_1 hg => exact absurd (hpassive j _ rfl hg) id
    case h_2 => cases hs
  | lose j =>
    simp only [machine, next] at hs
    split at hs
    case h_1 k hg => exact absurd (hpassive j _ rfl hg) id
    case h_2 => cases hs

/-- While a segment owns the frame and nobody else is in the body, the steps of others leave
both alone. -/
theorem Owned.step_other (h : Owned s (.segment i)) (hbody : ∀ j, s.place = .inBody j → j = i)
    {a : Label} (ha : a.actor ≠ some i) (hs : machine.next s a = some s') :
    Untouched s s' i := by
  have hne : ∀ j, a.actor = some j → j ≠ i := by
    rintro j hj rfl
    exact ha hj
  refine untouched_of_passive ?_ ?_ (fun n x hx => h.not_armed hx) ha hs
  · intro j x hj hx
    exact (h.segments j x hx).passive fun he => hne j hj (Owner.segment.inj he).symm
  · intro j hj hplace
    exact hne j hj (hbody j hplace)

/-! ## A destroyed frame stays destroyed -/

theorem SegOk.passive_of_destroyed (h : SegOk s o i g) (hd : s.place = .destroyed) :
    Passive s i g := by
  rcases g with ⟨k, pc⟩
  cases pc with
  | queued =>
    obtain ⟨-, -, hplace⟩ := h
    split at hplace
    case isTrue => cases hd.symm.trans hplace
    case isFalse =>
      rcases hplace with hawait | ⟨j, hj⟩
      · cases hd.symm.trans hawait
      · cases hd.symm.trans hj
  | refused | abandon => cases hd.symm.trans h.2
  | awaiting need =>
    rcases h.2.2.2 with hawait | ⟨j, hj⟩
    · cases hd.symm.trans hawait
    · cases hd.symm.trans hj
  | toRunning | readSeq =>
    rcases h.2.2 with hcold | hawait
    · cases hd.symm.trans hcold
    · cases hd.symm.trans hawait
  | checkDone before | resume before =>
    rcases h.2.2.2 with hcold | hawait
    · cases hd.symm.trans hcold
    · cases hd.symm.trans hawait
  | inBody before body => cases hd.symm.trans h.1
  | returned before =>
    rcases h with hlt | ⟨-, -, hfinal⟩
    · exact hlt
    · cases hd.symm.trans hfinal
  | checkFinal | destroy => cases hd.symm.trans h.2
  | ended => trivial

theorem Owned.destroyed_step (h : Owned s o) (hd : s.place = .destroyed) {a : Label}
    (hs : machine.next s a = some s') : s'.place = .destroyed := by
  obtain ⟨i, hi⟩ : ∃ i, a.actor ≠ some i := by
    cases ha : a.actor with
    | none => exact ⟨0, nofun⟩
    | some j => exact ⟨j + 1, fun he => by cases he⟩
  refine (untouched_of_passive (i := i) ?_ ?_ ?_ hi hs).place.trans hd
  · intro j x _ hx
    exact (h.segments j x hx).passive_of_destroyed hd
  · intro j _ hplace
    cases hd.symm.trans hplace
  · intro n x hx harmed
    obtain ⟨-, -, -, hawait | ⟨j, hj⟩⟩ := h.armed n x hx harmed
    · cases hd.symm.trans hawait
    · cases hd.symm.trans hj

/-! ## The task state -/

theorem requestCancel_state (s : Run) :
    s.requestCancel.state = s.state ∨ s.state = .ready ∧ s.requestCancel.state = .cancelled := by
  unfold Run.requestCancel
  split
  case isTrue hready => exact .inr ⟨hready, rfl⟩
  case isFalse => exact .inl rfl

theorem toSuspended_state (s : Run) :
    s.toSuspended.state = s.state ∨ s.toSuspended.state = .suspended := by
  unfold Run.toSuspended
  split
  · exact .inr rfl
  · exact .inl rfl

theorem toRunning_state (s : Run) :
    s.toRunning.state = s.state ∨ s.toRunning.state = .running := by
  unfold Run.toRunning
  split
  · exact .inr rfl
  · exact .inl rfl

theorem shake_state (s : Run) (op : AwaitHandshake → AwaitHandshake × Bool) (n : Nat) :
    (s.shake op n).state = s.state := by
  unfold Run.shake
  split
  · rfl
  · dsimp only
    split <;> rfl

/-- How a step can write the task state. -/
def StateStep (s s' : Run) : Prop :=
  s'.state = s.state ∨ s'.state = .running ∨ s'.state = .suspended ∨
    s.state = .ready ∧ s'.state = .cancelled

theorem StateStep.of_suspended {s' : Run} (h : s'.state = s.toSuspended.state) :
    StateStep s s' := by
  rcases toSuspended_state s with heq | hsuspended
  · exact .inl (h.trans heq)
  · exact .inr (.inr (.inl (h.trans hsuspended)))

theorem bodyStep_state {before : Nat} {body : Body} (hs : bodyStep s i before body = some s') :
    StateStep s s' := by
  cases body with
  | code => cases hs
  | targetMark n | sleepMark n | yieldMark | yieldPost | publish | completed =>
    cases hs
    exact .inl rfl
  | targetSuspend n | sleepSuspend n | yieldSuspend => cases hs; exact .of_suspended rfl
  | sleepCheck n =>
    simp only [bodyStep] at hs
    split at hs
    case isTrue => cases hs; exact .inl rfl
    case isFalse => cases hs; exact .inl rfl
  | arm n => cases hs; exact .inl (shake_state s _ n)

theorem advance_state (hs : advance s i g = some s') : StateStep s s' := by
  rcases g with ⟨k, pc⟩
  cases pc with
  | queued =>
    simp only [advance] at hs
    split at hs
    · split at hs
      case isTrue => cases hs; exact .inr (.inl rfl)
      case isFalse => cases hs; exact .inl rfl
    · cases hs; exact .inl rfl
  | refused =>
    cases hs
    rcases requestCancel_state s with heq | hcancelled
    · exact .inl heq
    · exact .inr (.inr (.inr hcancelled))
  | toRunning =>
    cases hs
    rcases toRunning_state s with heq | hrunning
    · exact .inl heq
    · exact .inr (.inl hrunning)
  | awaiting need | checkDone before | returned before | checkFinal =>
    simp only [advance] at hs
    split at hs <;> cases hs <;> exact .inl rfl
  | abandon | readSeq | resume before | destroy => cases hs; exact .inl rfl
  | inBody before body => exact bodyStep_state hs
  | ended => cases hs

/-- Only the end of the body makes a started task terminal. -/
theorem next_state {a : Label} (hs : machine.next s a = some s') :
    StateStep s s' ∨ ∃ i outcome, a = .complete i outcome := by
  cases a with
  | advance i =>
    obtain ⟨g, -, hs⟩ := Option.bind_eq_some_iff.mp hs
    exact .inl (advance_state hs)
  | beginAwait i kind =>
    simp only [machine, next] at hs
    split at hs
    case h_1 =>
      cases hs
      unfold beginAwait
      split
      · exact .inl (.inl rfl)
      · cases kind <;> exact .inl (.inl rfl)
    case h_2 => cases hs
  | complete i outcome => exact .inr ⟨i, outcome, rfl⟩
  | armThrows i =>
    simp only [machine, next] at hs
    split at hs <;> cases hs <;> exact .inl (.inl rfl)
  | trigger n => cases hs; exact .inl (.inl (shake_state s _ n))
  | triggerCancel n => cases hs; exact .inl (.inl (shake_state s _ n))
  | requestCancel =>
    cases hs
    rcases requestCancel_state s with heq | hcancelled
    · exact .inl (.inl heq)
    · exact .inl (.inr (.inr (.inr hcancelled)))
  | discard i =>
    simp only [machine, next] at hs
    split at hs
    case h_1 =>
      cases hs
      rcases requestCancel_state s with heq | hcancelled
      · exact .inl (.inl heq)
      · exact .inl (.inr (.inr (.inr hcancelled)))
    case h_2 => cases hs
  | lose i =>
    simp only [machine, next] at hs
    split at hs
    case h_1 => cases hs; exact .inl (.inl rfl)
    case h_2 => cases hs

/-! ## The invariant -/

/-- A terminal task whose frame exists has somebody on the way to destroy it; a task that
is still ready has its gate. -/
structure Kept (s : Run) : Prop where
  terminal : s.state.terminal = true →
    s.place = .destroyed ∨ ∃ (i : Nat) (g : Segment), s.segments[i]? = some g ∧ WillDestroy s g
  ready : s.state = .ready → ∃ i : Nat, s.segments[i]? = some ⟨0, .queued⟩

/-- The gate of a ready task stays where it is until it starts the task. -/
theorem Owned.gate_step (h : Owned s o) (hg : s.segments[i]? = some ⟨0, .queued⟩)
    (hready : s.state = .ready) {a : Label} (hok : CleansUp s a)
    (hs : machine.next s a = some s') :
    s'.state = .running ∨ s'.segments[i]? = some ⟨0, .queued⟩ ∧ s'.place = .cold := by
  obtain ⟨rfl, hseq, hplace⟩ := h.segments i _ hg
  rw [if_pos hseq.symm] at hplace
  by_cases ha : a.actor = some i
  · cases a with
    | advance j =>
      obtain rfl : j = i := Option.some.inj ha
      obtain ⟨g, hg', hs⟩ := Option.bind_eq_some_iff.mp hs
      cases hg.symm.trans hg'
      simp only [CoroutineFrame.advance, if_pos hready, if_true, Option.some.injEq] at hs
      subst hs
      exact .inl rfl
    | beginAwait j kind | complete j outcome | armThrows j | lose j =>
      obtain rfl : j = i := Option.some.inj ha
      simp only [machine, next, hg] at hs
      cases hs
    | discard j => cases hok
    | trigger n | triggerCancel n | requestCancel => cases ha
  · have hother := h.step_other (fun j hj => by cases hplace.symm.trans hj) ha hs
    exact .inr ⟨hother.segment.trans hg, hother.place.trans hplace⟩

/-- The segment on its way takes its own step: it gets closer to the frame's end. -/
theorem Owned.willDestroy_step (h : Owned s o) (hg : s.segments[i]? = some g)
    (hw : WillDestroy s g) (hterminal : s.state.terminal = true) {a : Label}
    (ha : a.actor = some i) (hok : CleansUp s a) (hs : machine.next s a = some s') :
    s'.place = .destroyed ∨
      ∃ g' : Segment, s'.segments[i]? = some g' ∧ WillDestroy s' g' := by
  have hsegment := h.segments i g hg
  rcases g with ⟨k, pc⟩
  cases a with
  | advance j =>
    obtain rfl : j = i := Option.some.inj ha
    obtain ⟨x, hx, hs⟩ := Option.bind_eq_some_iff.mp hs
    cases hg.symm.trans hx
    cases pc with
    | queued =>
      obtain ⟨-, hk, hplace⟩ := hsegment
      have hgate : k = 0 := hk.trans (h.cold hw)
      have hne : s.state ≠ .ready := by
        intro hready
        rw [hready] at hterminal
        cases hterminal
      simp only [CoroutineFrame.advance, if_pos hgate, if_neg hne, Option.some.injEq] at hs
      subst hs
      exact .inr ⟨_, goto_self hg _, hw⟩
    | refused =>
      cases hs
      have hsame := SameFrame.requestCancel s
      refine .inr ⟨⟨k, .abandon⟩, ?_, hsame.place.trans hw⟩
      exact goto_self (g := ⟨k, .refused⟩) (by rw [hsame.segments]; exact hg) _
    | abandon => cases hs; exact .inl rfl
    | inBody before body =>
      cases body with
      | completed =>
        cases hs
        refine .inr ⟨⟨k, .returned before⟩, ?_, hw⟩
        exact goto_self (s := { s with place := .final }) hg _
      | code | targetMark n | targetSuspend n | sleepSuspend n | sleepCheck n | sleepMark n
      | arm n | yieldSuspend | yieldMark | yieldPost | publish => exact absurd hw id
    | returned before =>
      have heq : ¬ s.seq ≠ before := fun hne => hne (Eq.symm hw)
      simp only [CoroutineFrame.advance, if_neg heq, Option.some.injEq] at hs
      subst hs
      exact .inr ⟨_, goto_self hg _, trivial⟩
    | checkFinal =>
      simp only [CoroutineFrame.advance, if_pos hsegment.2, Option.some.injEq] at hs
      subst hs
      exact .inr ⟨_, goto_self hg _, trivial⟩
    | destroy => cases hs; exact .inl rfl
    | awaiting need | toRunning | readSeq | checkDone before | resume before | ended =>
      exact absurd hw id
  | beginAwait j kind | complete j outcome =>
    obtain rfl : j = i := Option.some.inj ha
    simp only [machine, next] at hs
    split at hs
    case h_1 l b hcode =>
      cases hg.symm.trans hcode
      exact absurd hw id
    case h_2 => cases hs
  | armThrows j =>
    obtain rfl : j = i := Option.some.inj ha
    simp only [machine, next] at hs
    split at hs
    case h_1 l b n hbody => cases hg.symm.trans hbody; exact absurd hw id
    case h_2 l b n hbody => cases hg.symm.trans hbody; exact absurd hw id
    case h_3 l b hbody => cases hg.symm.trans hbody; exact absurd hw id
    case h_4 => cases hs
  | discard j => cases hok
  | lose j =>
    obtain rfl : j = i := Option.some.inj ha
    simp only [machine, next] at hs
    split at hs
    case h_1 l hqueued =>
      -- the gate is no resume
      cases hg.symm.trans hqueued
      cases hsegment.2.1.trans (h.cold hw)
    case h_2 => cases hs
  | trigger n | triggerCancel n | requestCancel => cases ha

theorem Kept.step (h : Kept s) (ho : Owned s o) {a : Label} (hok : CleansUp s a)
    (hs : machine.next s a = some s') : Kept s' := by
  refine ⟨fun hterminal => ?_, fun hready => ?_⟩
  · rcases next_state hs with (heq | hrunning | hsuspended | ⟨hready, hcancelled⟩) | ⟨i, outcome, rfl⟩
    · rw [heq] at hterminal
      rcases h.terminal hterminal with hdestroyed | ⟨i, g, hg, hw⟩
      · exact .inl (ho.destroyed_step hdestroyed hs)
      · obtain ⟨rfl, hbody⟩ := ho.willDestroy hg hw
        by_cases ha : a.actor = some i
        · rcases ho.willDestroy_step hg hw hterminal ha hok hs with hdestroyed | ⟨g', hg', hw'⟩
          · exact .inl hdestroyed
          · exact .inr ⟨i, g', hg', hw'⟩
        · have hother := ho.step_other hbody ha hs
          exact .inr ⟨i, g, hother.segment.trans hg, hother.willDestroy hw⟩
    · rw [hrunning] at hterminal; cases hterminal
    · rw [hsuspended] at hterminal; cases hterminal
    · obtain ⟨i, hg⟩ := h.ready hready
      rcases ho.gate_step hg hready hok hs with hrunning | ⟨hgate, hcold⟩
      · cases hcancelled.symm.trans hrunning
      · exact .inr ⟨i, _, hgate, hcold⟩
    · -- the body ends in the segment whose sequence number is still the current one
      simp only [machine, next] at hs
      split at hs
      case h_1 k before hg =>
        cases hs
        rw [CleansUp, cleansUp, hg] at hok
        refine .inr ⟨i, ⟨k, .inBody before .completed⟩, ?_, beq_iff_eq.mp hok⟩
        exact goto_self (s := { s with state := outcome.state }) hg _
      case h_2 => cases hs
  · have hbefore : s.state = .ready := by
      rcases next_state hs with (heq | hrunning | hsuspended | ⟨-, hcancelled⟩) | ⟨i, outcome, rfl⟩
      · exact heq.symm.trans hready
      · cases hrunning.symm.trans hready
      · cases hsuspended.symm.trans hready
      · cases hcancelled.symm.trans hready
      · simp only [machine, next] at hs
        split at hs
        case h_1 => cases hs; cases outcome <;> cases hready
        case h_2 => cases hs
    obtain ⟨i, hg⟩ := h.ready hbefore
    rcases ho.gate_step hg hbefore hok hs with hrunning | ⟨hgate, -⟩
    · cases hrunning.symm.trans hready
    · exact ⟨i, hgate⟩

theorem kept_of_reachable (h : machine.ReachableUnder CleansUp s) : Kept s ∧ ∃ o, Owned s o := by
  apply h.invariant fun s => Kept s ∧ ∃ o, Owned s o
  · rintro s rfl
    exact ⟨⟨fun hterminal => (by cases hterminal), fun _ => ⟨0, rfl⟩⟩, _, owned_initial⟩
  · rintro s a s' ⟨hkept, o, ho⟩ hok hs
    exact ⟨hkept.step ho hok hs, ho.step hs⟩

/-! ## The result -/

/-- When the task is terminal and no invoker is left, the frame was destroyed, once. -/
structure FrameReleased (s : Run) : Prop where
  atMostOnce : s.destroys ≤ 1
  released : s.state.terminal = true → (∀ g ∈ s.segments, g.pc = .ended) → s.destroys = 1

theorem frameReleased_of_reachable (h : machine.ReachableUnder CleansUp s) :
    FrameReleased s := by
  obtain ⟨hkept, o, ho⟩ := kept_of_reachable h
  refine ⟨ho.frameSafety.destroyedOnce, fun hterminal hover => ?_⟩
  rcases hkept.terminal hterminal with hdestroyed | ⟨i, g, hg, hw⟩
  · rw [ho.destroys, if_pos hdestroyed]
  · rw [WillDestroy, hover g (List.mem_of_getElem? hg)] at hw
    exact absurd hw id

/-- Cancelled in the queue, then claimed: the gate abandons the frame. -/
def cancelThenClaim : List Label := [.requestCancel, .advance 0, .advance 0, .advance 0]

theorem frameReleased_cancelThenClaim :
    ∃ s, machine.run {} cancelThenClaim = some s ∧ s.destroys = 1 ∧ FrameReleased s := by
  obtain ⟨s, hs⟩ := Option.isSome_iff_exists.mp
    (show (machine.run {} cancelThenClaim).isSome by decide)
  have hend : (machine.run {} cancelThenClaim).map (fun t => t.destroys) = some 1 := by decide
  rw [hs] at hend
  have hinit : machine.ReachableUnder CleansUp {} := .initial rfl
  exact ⟨s, hs, Option.some.inj hend, frameReleased_of_reachable (hinit.run (by decide) hs)⟩

/-! ## A discarded gate

Nothing but the gate can start the coroutine, so a frame left alone by a discarded gate is
left for ever. -/

/-- No invoker is left, and the frame is at its initial suspension. -/
def Abandoned (s : Run) : Prop :=
  s.place = .cold ∧ ∀ (i : Nat) (g : Segment), s.segments[i]? = some g → g.pc = .ended

/-- An invoker that is done with takes no step. -/
theorem Abandoned.no_actor (h : Abandoned s) {a : Label} (ha : a.actor = some i) :
    machine.next s a = none := by
  have hnone : s.segments[i]? = none ∨ ∃ k, s.segments[i]? = some ⟨k, .ended⟩ := by
    cases hg : s.segments[i]? with
    | none => exact .inl rfl
    | some g =>
      rcases g with ⟨k, pc⟩
      obtain rfl : pc = .ended := h.2 i _ hg
      exact .inr ⟨k, rfl⟩
  cases a with
  | advance j | beginAwait j kind | complete j outcome | armThrows j | discard j | lose j =>
    obtain rfl : j = i := Option.some.inj ha
    rcases hnone with hg | ⟨k, hg⟩
    · simp [machine, next, hg]
    · simp [machine, next, advance, hg]
  | trigger n | triggerCancel n | requestCancel => cases ha

theorem Abandoned.step (h : Abandoned s) (ho : Owned s o) {a : Label}
    (hs : machine.next s a = some s') : Abandoned s' := by
  have hactor : a.actor = none := by
    cases ha : a.actor with
    | none => rfl
    | some i => cases (h.no_actor ha).symm.trans hs
  have huntouched : ∀ i, Untouched s s' i := by
    intro i
    refine untouched_of_passive ?_ ?_ ?_ (by rw [hactor]; exact nofun) hs
    · intro j x hj
      cases hactor.symm.trans hj
    · intro j hj
      cases hactor.symm.trans hj
    · intro n x hx harmed
      obtain ⟨-, -, -, hawait | ⟨j, hj⟩⟩ := ho.armed n x hx harmed
      · cases h.1.symm.trans hawait
      · cases h.1.symm.trans hj
  refine ⟨(huntouched 0).place.trans h.1, fun i g hg => h.2 i g ?_⟩
  rwa [(huntouched i).segment] at hg

/-- Once the gate is discarded, no run destroys the frame. -/
theorem destroys_zero_of_discard {t : Run} {as : List Label} (h : machine.Reachable s)
    (hs : machine.next s (.discard i) = some s') (hr : machine.run s' as = some t) :
    t.destroys = 0 := by
  obtain ⟨o, ho⟩ := owned_of_reachable h
  have hstart : Abandoned s' := by
    simp only [machine, next] at hs
    split at hs
    case h_1 hg =>
      cases hs
      obtain ⟨rfl, hseq, hplace⟩ := ho.segments i _ hg
      rw [if_pos hseq.symm] at hplace
      have hsame := SameFrame.requestCancel s
      refine ⟨hsame.place.trans hplace, ?_⟩
      refine forall_goto (g := ⟨0, .queued⟩) (by rw [hsame.segments]; exact hg) rfl ?_
      intro j hj x hx
      rw [hsame.segments] at hx
      have hpassive := (ho.segments j x hx).passive fun he => hj (Owner.segment.inj he).symm
      rcases x with ⟨k, pc⟩
      cases pc with
      | ended => rfl
      | inBody before body => cases hplace.symm.trans hpassive.2.1
      | returned before =>
        have hlt : before < s.seq := hpassive
        rw [← hseq] at hlt
        exact absurd hlt (Nat.not_lt_zero before)
      | queued | refused | abandon | awaiting need | toRunning | readSeq | checkDone before
      | resume before | checkFinal | destroy => exact absurd hpassive id
    case h_2 => cases hs
  have hend : (∃ o, Owned t o) ∧ Abandoned t := by
    refine Machine.run_keeps (P := fun t => (∃ o, Owned t o) ∧ Abandoned t) ?_
      ⟨ho.step hs, hstart⟩ hr
    rintro t a t' ⟨⟨o, ho⟩, habandoned⟩ hs
    exact ⟨ho.step hs, habandoned.step ho hs⟩
  obtain ⟨⟨o, ho⟩, hcold, -⟩ := hend
  apply ho.destroys_zero
  rw [hcold]
  decide

/-- A queue sweep, or a worker in the Immediate branch, discards the gate: the task is
cancelled, no invoker is left, and the frame still exists. -/
theorem discard_leaks :
    ∃ s, machine.run {} [.discard 0] = some s ∧ ¬ FrameReleased s := by
  refine ⟨_, rfl, fun h => ?_⟩
  have hone := h.released (by decide) (by decide)
  revert hone
  decide

end CoroutineFrame
end AstraScheduler
