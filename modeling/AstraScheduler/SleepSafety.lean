import AstraScheduler.SleepAwait

/-! # A sleep is resumed once and leaves no timer

The invariant says for each place of the arming call what is known of the await's timer, and
for each place of the callback whether a timer that it has missed is still in the arming
call's hands. -/

namespace AstraScheduler
namespace SleepAwait
open AwaitHandshake (Calls Pc)
variable {H R : Type} {s s' : SleepAwait H R}

/-! ## The invariant -/

/-- The queue holds no timer with this handshake. -/
def Unlisted (queue : TimerQueue H R) (handshake : H) : Prop :=
  ∀ e ∈ queue.heap.entries, e.handshake ≠ handshake

/-- All timers with this handshake have this id. -/
def OwnId (queue : TimerQueue H R) (handshake : H) (id : UInt64) : Prop :=
  ∀ e ∈ queue.heap.entries, e.handshake = handshake → e.timerId = id

/-- The timer has been registered. -/
def ArmPc.registered : ArmPc → Bool
  | .storing _ | .readingCancelled _ | .readingStop _ | .cancelling _ | .arming | .returned => true
  | .start | .emplacing | .inCallback | .checkingStop | .resetting | .registering | .threw => false

/-- The arming call cancels the timer if `ctx->cancelled` is set. -/
def ArmPc.mayCancel : ArmPc → Bool
  | .storing _ | .readingCancelled _ | .cancelling _ => true
  | _ => false

/-- The callback has begun its `trigger_cancel`. -/
def CallbackPc.called : CallbackPc → Bool
  | .triggering _ | .finished => true
  | _ => false

/-- What is known at a place of the arming call: the stored id, the call of `arm` and the
await's timers. -/
def ArmPc.Sound (timerId : UInt64) (armed : Pc) (queue : TimerQueue H R) (handshake : H) :
    ArmPc → Prop
  | .storing tid => timerId = 0 ∧ tid ≠ 0 ∧ OwnId queue handshake tid ∧ armed = .start
  | .readingCancelled tid | .readingStop tid | .cancelling tid =>
    timerId = tid ∧ tid ≠ 0 ∧ OwnId queue handshake tid ∧ armed = .start
  | .arming => timerId ≠ 0 ∧ OwnId queue handshake timerId
  | .returned => timerId ≠ 0 ∧ OwnId queue handshake timerId ∧ armed = .returned
  | .start | .emplacing | .inCallback | .checkingStop | .resetting | .registering | .threw =>
    timerId = 0 ∧ Unlisted queue handshake ∧ armed = .start

/-- What is known at a place of the callback: once it has looked for the id and perhaps found
none, the timer is `handled`. -/
def CallbackPc.Sound (timerId : UInt64) (cancelled : Bool) (handled : Prop) : CallbackPc → Prop
  | .loading => cancelled
  | .cancelling tid => cancelled ∧ (tid ≠ 0 ∧ tid = timerId ∨ tid = 0 ∧ handled)
  | .calling | .triggering _ | .finished => cancelled ∧ handled
  | .unset | .registered | .storing | .removed => True

/-- There is no timer to cancel, or the arming call is going to. -/
def Handled (s : SleepAwait H R) : Prop := Unlisted s.queue s.handshake ∨ s.arm.mayCancel

structure Inv (s : SleepAwait H R) : Prop where
  queue : s.queue.Inv
  calls : s.calls.Inv
  arm : s.arm.Sound s.timerId s.calls.arm s.queue s.handshake
  callback : s.callback.Sound s.timerId s.cancelled s.Handled
  /-- Only the callback triggers while the timer is not yet, or still, in the queue. -/
  callers : s.calls.triggers ≠ [] →
    s.callback.called ∨ s.arm.registered ∧ Unlisted s.queue s.handshake
  unset : s.arm = .start ∨ s.arm = .emplacing → s.callback = .unset

theorem ArmPc.sound_iff {timerId : UInt64} {armed : Pc} {queue : TimerQueue H R} {handshake : H}
    {pc : ArmPc} (hpc : pc.registered = false) : pc.Sound timerId armed queue handshake ↔
      timerId = 0 ∧ Unlisted queue handshake ∧ armed = .start := by
  cases pc with
  | start | emplacing | inCallback | checkingStop | resetting | registering | threw => exact .rfl
  | storing | readingCancelled | readingStop | cancelling | arming | returned => cases hpc

theorem ArmPc.Sound.mono {timerId : UInt64} {armed : Pc} {queue queue' : TimerQueue H R}
    {handshake : H} {pc : ArmPc} (h : pc.Sound timerId armed queue handshake)
    (hsub : ∀ e ∈ queue'.heap.entries, e.handshake = handshake → e ∈ queue.heap.entries) :
    pc.Sound timerId armed queue' handshake := by
  have hid : ∀ {id}, OwnId queue handshake id → OwnId queue' handshake id :=
    fun h e he hown => h e (hsub e he hown) hown
  cases pc with
  | storing tid | readingCancelled tid | readingStop tid | cancelling tid =>
    exact ⟨h.1, h.2.1, hid h.2.2.1, h.2.2.2⟩
  | arming => exact ⟨h.1, hid h.2⟩
  | returned => exact ⟨h.1, hid h.2.1, h.2.2⟩
  | start | emplacing | inCallback | checkingStop | resetting | registering | threw =>
    exact ⟨h.1, fun e he hown => h.2.1 e (hsub e he hown) hown, h.2.2⟩

theorem CallbackPc.Sound.mono {timerId : UInt64} {cancelled : Bool} {handled handled' : Prop}
    {pc : CallbackPc} (h : pc.Sound timerId cancelled handled) (himp : handled → handled') :
    pc.Sound timerId cancelled handled' := by
  cases pc with
  | loading => exact h
  | cancelling tid => exact ⟨h.1, h.2.imp_right fun hmissed => ⟨hmissed.1, himp hmissed.2⟩⟩
  | calling | triggering i | finished => exact ⟨h.1, himp h.2⟩
  | unset | registered | storing | removed => trivial

/-- The id is stored: whoever has loaded an id before has found none. -/
theorem CallbackPc.Sound.publish {cancelled : Bool} {handled : Prop} {pc : CallbackPc}
    (h : pc.Sound 0 cancelled handled) (tid : UInt64) : pc.Sound tid cancelled handled := by
  cases pc with
  | loading | calling | triggering | finished => exact h
  | cancelling id =>
    refine ⟨h.1, .inr ?_⟩
    rcases h.2 with ⟨hne, heq⟩ | hmissed
    · exact absurd heq hne
    · exact hmissed
  | unset | registered | storing | removed => trivial

/-- Without the flag the callback has not looked for the id. -/
theorem CallbackPc.Sound.of_unflagged {timerId : UInt64} {handled handled' : Prop}
    {pc : CallbackPc} (h : pc.Sound timerId false handled) : pc.Sound timerId false handled' := by
  cases pc with
  | loading => exact h
  | cancelling | calling | triggering | finished => exact absurd h.1 Bool.false_ne_true
  | unset | registered | storing | removed => trivial

/-- No registration is given the id 0 or the id of a live timer. -/
def IdsFresh (s : SleepAwait H R) : Label H R → Prop
  | .arm => s.arm = .registering → s.queue.nextTimerId ≠ 0 ∧
      ∀ e ∈ s.queue.heap.entries, e.timerId ≠ s.queue.nextTimerId
  | .timers op => s.queue.FreshId op
  | _ => True

theorem Initial.inv (h : s.Initial) : Inv s where
  queue := TimerQueue.inv_of_reachable h.queue
  calls := by
    rw [h.calls]
    exact .initial
  arm := by
    rw [h.arm, h.calls]
    exact ⟨h.timerId, h.unlisted, rfl⟩
  callback := by
    rw [h.callback]
    trivial
  callers hne := by
    rw [h.calls] at hne
    exact absurd rfl hne
  unset _ := h.callback

/-! ## The steps -/

/-- Timers leave the queue, and triggers are called only for a timer that has left. -/
theorem Inv.shrink (h : Inv s) {queue : TimerQueue H R} {calls : Calls} (hqueue : queue.Inv)
    (hcalls : calls.Inv) (harm : calls.arm = s.calls.arm)
    (hsub : ∀ e ∈ queue.heap.entries, e.handshake = s.handshake → e ∈ s.queue.heap.entries)
    (hcallers : calls.triggers ≠ [] → s.calls.triggers ≠ [] ∨
      s.arm.registered ∧ Unlisted queue s.handshake) :
    Inv { s with queue := queue, calls := calls } where
  queue := hqueue
  calls := hcalls
  arm := by
    rw [harm]
    exact h.arm.mono hsub
  callback := h.callback.mono (Or.imp_left fun hno e he hown => hno e (hsub e he hown) hown)
  callers hne := by
    rcases hcallers hne with hne | hgone
    · exact (h.callers hne).imp_right fun hgone =>
        ⟨hgone.1, fun e he hown => hgone.2 e (hsub e he hown) hown⟩
    · exact .inr hgone
  unset := h.unset

/-- A timer of this await that has left was the only one. -/
theorem Inv.only (h : Inv s) {e e' : TimerQueue.TimerEntry H R}
    (he : e ∈ s.queue.heap.entries) (hown : e.handshake = s.handshake)
    (he' : e' ∈ s.queue.heap.entries) (hown' : e'.handshake = s.handshake) :
    s.arm.registered ∧ e' = e := by
  have hids : s.arm.registered ∧ e'.timerId = e.timerId := by
    have hsound := h.arm
    cases harm : s.arm with
    | storing tid | readingCancelled tid | readingStop tid | cancelling tid =>
      rw [harm] at hsound
      exact ⟨rfl, (hsound.2.2.1 e' he' hown').trans (hsound.2.2.1 e he hown).symm⟩
    | arming =>
      rw [harm] at hsound
      exact ⟨rfl, (hsound.2 e' he' hown').trans (hsound.2 e he hown).symm⟩
    | returned =>
      rw [harm] at hsound
      exact ⟨rfl, (hsound.2.1 e' he' hown').trans (hsound.2.1 e he hown).symm⟩
    | start | emplacing | inCallback | checkingStop | resetting | registering | threw =>
      rw [harm] at hsound
      exact absurd hown (hsound.2.1 e he)
  exact ⟨hids.1, h.queue.eq_of_timerId he' he hids.2⟩

section
variable [DecidableEq H]

theorem deliver_nil_or (s : SleepAwait H R) (cancel : Bool)
    (items : List (TimerQueue.DueItem H R)) (hne : (s.deliver cancel items).triggers ≠ []) :
    s.calls.triggers ≠ [] ∨ ∃ item ∈ items, item.handshake = s.handshake := by
  by_cases hown : ∃ item ∈ items, item.handshake = s.handshake
  · exact .inr hown
  · refine .inl fun hnil => hne ?_
    have hnone : items.countP (fun item => item.handshake = s.handshake) = 0 :=
      List.countP_eq_zero.mpr fun item hitem heq => hown ⟨item, hitem, of_decide_eq_true heq⟩
    simp [deliver, Calls.begin, hnone, hnil]

theorem Inv.stepTimers (h : Inv s) {op : TimerQueue.Op H R} (hfresh : s.queue.FreshId op)
    (hs : s.stepTimers op = some s') : Inv s' := by
  cases op with
  | add wakeTime handshake resumeAction =>
    simp only [SleepAwait.stepTimers] at hs
    split at hs
    · cases hs
    · rename_i hother
      cases hs
      refine h.shrink (h.queue.add _ _ _ hfresh) h.calls rfl (fun e he hown => ?_) .inl
      rcases h.queue.placed.mem_add.mp he with rfl | he
      · exact absurd hown hother
      · exact he
  | cancel timerId =>
    cases hs
    exact h.shrink (h.queue.cancel timerId) h.calls rfl
      (fun e he _ => (h.queue.mem_cancel he).1) .inl
  | collectDue now =>
    cases hs
    have hqueue : (s.queue.collectDue now).2.Inv := (h.queue.popDue now).inv.withMetrics _
    refine h.shrink hqueue (h.calls.begin ..) rfl
      (fun e he _ => (h.queue.mem_collectDue he).1) fun hne => ?_
    refine (s.deliver_nil_or false _ hne).imp_right ?_
    rintro ⟨item, hitem, hown⟩
    obtain ⟨e, he, hdue, rfl⟩ := h.queue.due_collectDue hitem
    refine ⟨(h.only he hown he hown).1, fun e' he' hown' => ?_⟩
    obtain ⟨hmem, hlater⟩ := h.queue.mem_collectDue he'
    obtain rfl := (h.only he hown hmem hown').2
    omega
  | cancelAll =>
    cases hs
    have hqueue : s.queue.cancelAll.2.Inv := h.queue.popAll.inv.withMetrics _
    refine h.shrink hqueue (h.calls.begin ..) rfl
      (fun e he _ => absurd he (h.queue.not_mem_cancelAll e)) fun hne => ?_
    refine (s.deliver_nil_or true _ hne).imp_right ?_
    rintro ⟨item, hitem, hown⟩
    obtain ⟨e, he, rfl⟩ := h.queue.due_cancelAll hitem
    exact ⟨(h.only he hown he hown).1,
      fun e' he' _ => absurd he' (h.queue.not_mem_cancelAll e')⟩

end

/-- The callback moves on without a change of the queue and of the handshake. -/
theorem Inv.moveCallback (h : Inv s) (callback : CallbackPc) {cancelled : Bool}
    (hset : s.callback ≠ .unset) (hsound : callback.Sound s.timerId cancelled s.Handled)
    (hcalled : s.callback.called → callback.called) :
    Inv { s with callback := callback, cancelled := cancelled } where
  queue := h.queue
  calls := h.calls
  arm := h.arm
  callback := hsound
  callers hne := (h.callers hne).imp_left hcalled
  unset harm := absurd (h.unset harm) hset

theorem handled_of_timerId (harm : s.arm.Sound s.timerId s.calls.arm s.queue s.handshake)
    (hid : s.timerId = 0) : s.Handled := by
  unfold Handled
  cases hpc : s.arm with
  | storing tid => exact .inr rfl
  | readingCancelled tid | readingStop tid | cancelling tid =>
    rw [hpc] at harm
    exact absurd (harm.1.symm.trans hid) harm.2.1
  | arming | returned =>
    rw [hpc] at harm
    exact absurd hid harm.1
  | start | emplacing | inCallback | checkingStop | resetting | registering | threw =>
    rw [hpc] at harm
    exact .inl harm.2.1

/-- The id that the callback has loaded is the only one of the await's timers. -/
theorem ownId_of_timerId (harm : s.arm.Sound s.timerId s.calls.arm s.queue s.handshake)
    (hid : s.timerId ≠ 0) : OwnId s.queue s.handshake s.timerId := by
  cases hpc : s.arm with
  | storing tid =>
    rw [hpc] at harm
    exact absurd harm.1 hid
  | readingCancelled tid | readingStop tid | cancelling tid =>
    rw [hpc] at harm
    rw [harm.1]
    exact harm.2.2.1
  | arming =>
    rw [hpc] at harm
    exact harm.2
  | returned =>
    rw [hpc] at harm
    exact harm.2.1
  | start | emplacing | inCallback | checkingStop | resetting | registering | threw =>
    rw [hpc] at harm
    exact absurd harm.1 hid

theorem Inv.unlisted_cancel (h : Inv s) {tid : UInt64} (hid : OwnId s.queue s.handshake tid) :
    Unlisted (s.queue.cancel tid) s.handshake := by
  intro e he hown
  obtain ⟨hmem, hne⟩ := h.queue.mem_cancel he
  exact hne (hid e hmem hown)

theorem Inv.stepCallback (h : Inv s) (hs : s.stepCallback = some s') : Inv s' := by
  have hsound := h.callback
  have hset : s.callback ≠ .unset := by
    intro hunset
    simp [SleepAwait.stepCallback, hunset] at hs
  unfold SleepAwait.stepCallback at hs
  split at hs
  · cases hs
  · rename_i hpc
    split at hs
    · cases hs
      exact h.moveCallback _ hset trivial fun hcalled => by simp [hpc, CallbackPc.called] at hcalled
    · cases hs
  · rename_i hpc
    cases hs
    exact h.moveCallback _ hset rfl fun hcalled => by simp [hpc, CallbackPc.called] at hcalled
  · rename_i hpc
    cases hs
    rw [hpc] at hsound
    refine h.moveCallback _ hset ⟨hsound, ?_⟩ fun hcalled => ?_
    · by_cases hid : s.timerId = 0
      · exact .inr ⟨hid, handled_of_timerId h.arm hid⟩
      · exact .inl ⟨hid, rfl⟩
    · simp [hpc, CallbackPc.called] at hcalled
  · rename_i tid hpc
    cases hs
    rw [hpc] at hsound
    have hqueue : (if tid ≠ 0 then s.queue.cancel tid else s.queue).Inv := by
      split
      exacts [h.queue.cancel tid, h.queue]
    have hshrunk := h.shrink hqueue h.calls rfl
      (fun e he _ => by
        split at he
        · exact (h.queue.mem_cancel he).1
        · exact he) .inl
    refine hshrunk.moveCallback .calling hset ⟨hsound.1, ?_⟩ fun hcalled => ?_
    · rcases hsound.2 with ⟨hid, htid⟩ | ⟨hid, hhandled⟩
      · -- The id is the timer's: it is no longer in the queue.
        rw [if_pos hid]
        exact .inl (h.unlisted_cancel (htid ▸ ownId_of_timerId h.arm (htid ▸ hid)))
      · rw [if_neg (not_not_intro hid)]
        exact hhandled
    · simp [hpc, CallbackPc.called] at hcalled
  · rename_i hpc
    cases hs
    rw [hpc] at hsound
    exact ⟨h.queue, h.calls.begin true 1, h.arm, hsound, fun _ => .inl rfl,
      fun harm => absurd (h.unset harm) hset⟩
  · rename_i i hpc
    split at hs
    · cases hs
      rw [hpc] at hsound
      exact h.moveCallback _ hset hsound fun _ => rfl
    · cases hs
  · cases hs
  · cases hs

/-- The arming call moves on before the registration. -/
theorem Inv.moveEarly (h : Inv s) {arm : ArmPc} {callback : CallbackPc}
    (hold : s.arm.registered = false) (hnew : arm.registered = false)
    (hcallback : callback.Sound s.timerId s.cancelled s.Handled)
    (hcalled : s.callback.called → callback.called)
    (hunset : arm = .start ∨ arm = .emplacing → callback = .unset) :
    Inv { s with arm := arm, callback := callback } where
  queue := h.queue
  calls := h.calls
  arm := (ArmPc.sound_iff hnew).mpr ((ArmPc.sound_iff hold).mp h.arm)
  callback := hcallback.mono fun _ => .inl ((ArmPc.sound_iff hold).mp h.arm).2.1
  callers hne := by
    rcases h.callers hne with hyes | hno
    · exact .inl (hcalled hyes)
    · rw [hold] at hno
      exact absurd hno.1 Bool.false_ne_true
  unset := hunset

/-- The arming call moves on after the registration. -/
theorem Inv.moveLate (h : Inv s) (arm : ArmPc) {timerId : UInt64}
    (hnew : arm.registered) (harm : arm.Sound timerId s.calls.arm s.queue s.handshake)
    (hcallback : s.callback.Sound timerId s.cancelled
      (Unlisted s.queue s.handshake ∨ arm.mayCancel)) :
    Inv { s with arm := arm, timerId := timerId } where
  queue := h.queue
  calls := h.calls
  arm := harm
  callback := hcallback
  callers hne := (h.callers hne).imp_right fun hgone => ⟨hnew, hgone.2⟩
  unset := by rintro (rfl | rfl) <;> cases hnew

theorem Inv.stepArm (h : Inv s)
    (hfresh : s.arm = .registering → s.queue.nextTimerId ≠ 0 ∧
      ∀ e ∈ s.queue.heap.entries, e.timerId ≠ s.queue.nextTimerId)
    (hs : s.stepArm = some s') : Inv s' := by
  have hsound := h.arm
  have hcallback := h.callback
  unfold SleepAwait.stepArm at hs
  split at hs
  · rename_i hpc
    cases hs
    have hunset := h.unset (.inl hpc)
    refine h.moveEarly (by rw [hpc]; rfl) ?_ hcallback id fun _ => hunset
    split <;> rfl
  · rename_i hpc
    have hunset := h.unset (.inr hpc)
    split at hs
    · cases hs
      exact h.moveEarly (by rw [hpc]; rfl) rfl trivial
        (fun hcalled => by simp [hunset, CallbackPc.called] at hcalled) (fun hno => by simp at hno)
    · cases hs
      exact h.moveEarly (by rw [hpc]; rfl) rfl trivial
        (fun hcalled => by simp [hunset, CallbackPc.called] at hcalled) (fun hno => by simp at hno)
  · rename_i hpc
    split at hs
    · cases hs
      exact h.moveEarly (by rw [hpc]; rfl) rfl hcallback id (fun hno => by simp at hno)
    · cases hs
  · rename_i hpc
    cases hs
    refine h.moveEarly (by rw [hpc]; rfl) ?_ hcallback id fun hno => ?_
    · split <;> rfl
    · split at hno <;> simp at hno
  · rename_i hpc
    split at hs
    · rename_i hregistered
      cases hs
      exact h.moveEarly (by rw [hpc]; rfl) rfl trivial
        (fun hcalled => by simp [hregistered, CallbackPc.called] at hcalled)
        (fun hno => by simp at hno)
    · split at hs
      · cases hs
        exact h.moveEarly (by rw [hpc]; rfl) rfl hcallback id (fun hno => by simp at hno)
      · cases hs
  · rename_i hpc
    -- `add` under the queue's mutex: the timer gets an id that no other has
    obtain ⟨hnonzero, hnew⟩ := hfresh hpc
    obtain ⟨hid, hunlisted, harm⟩ := (ArmPc.sound_iff (by rw [hpc]; rfl)).mp hsound
    cases hs
    refine ⟨h.queue.add _ _ _ hnew, h.calls, ⟨hid, hnonzero, fun e he hown => ?_, harm⟩,
      hcallback.mono fun _ => .inr rfl, fun hne => ?_, fun hno => by simp at hno⟩
    · rcases h.queue.placed.mem_add.mp he with rfl | he
      · rfl
      · exact absurd hown (hunlisted e he)
    · refine (h.callers hne).imp_right fun hgone => ?_
      rw [hpc] at hgone
      exact absurd hgone.1 Bool.false_ne_true
  · rename_i tid hpc
    cases hs
    rw [hpc] at hsound
    obtain ⟨hid, hnonzero, hown, harm⟩ := hsound
    -- the id is published, and from here on the stop callback can cancel the timer
    rw [hid] at hcallback
    exact h.moveLate _ rfl ⟨rfl, hnonzero, hown, harm⟩
      ((hcallback.publish tid).mono fun _ => .inr rfl)
  · rename_i tid hpc
    cases hs
    rw [hpc] at hsound
    -- the callback may have run before the id was there: then the timer is cancelled here
    by_cases hcancelled : s.cancelled = true
    · rw [if_pos hcancelled]
      exact h.moveLate _ rfl hsound (hcallback.mono fun _ => .inr rfl)
    · rw [if_neg hcancelled]
      rw [eq_false_of_ne_true hcancelled] at hcallback
      refine h.moveLate _ rfl hsound ?_
      rw [eq_false_of_ne_true hcancelled]
      exact hcallback.of_unflagged
  · rename_i tid hpc
    cases hs
    rw [hpc] at hsound
    by_cases hstop : s.stopRequested = true
    · rw [if_pos hstop]
      exact h.moveLate _ rfl hsound (hcallback.mono fun _ => .inr rfl)
    · rw [if_neg hstop]
      refine h.moveLate _ rfl ⟨hsound.1 ▸ hsound.2.1, hsound.1 ▸ hsound.2.2.1⟩
        (hcallback.mono fun hhandled => ?_)
      rcases hhandled with hno | hmay
      · exact .inl hno
      · rw [hpc] at hmay
        exact absurd hmay Bool.false_ne_true
  · rename_i tid hpc
    cases hs
    rw [hpc] at hsound
    -- the late cancellation takes the timer out of the heap
    have hgone := h.unlisted_cancel hsound.2.2.1
    have hshrunk := h.shrink (h.queue.cancel tid) h.calls rfl
      (fun e he _ => (h.queue.mem_cancel he).1) .inl
    exact hshrunk.moveLate .arming rfl ⟨hsound.1 ▸ hsound.2.1,
      fun e he hown => absurd hown (hgone e he)⟩ (hcallback.mono fun _ => .inl hgone)
  · rename_i hpc
    obtain ⟨calls, hcalls, rfl⟩ := Option.map_eq_some_iff.mp hs
    rw [hpc] at hsound
    have hsame := Calls.stepArm_triggers hcalls
    refine ⟨h.queue, h.calls.stepArm hcalls, ?_, hcallback.mono fun hhandled => ?_,
      fun hne => ?_, fun hno => ?_⟩
    · dsimp only
      split
      · rename_i hreturned
        exact ⟨hsound.1, hsound.2, hreturned⟩
      · exact hsound
    · rcases hhandled with hno | hmay
      · exact .inl hno
      · rw [hpc] at hmay
        exact absurd hmay Bool.false_ne_true
    · rw [hsame] at hne
      refine (h.callers hne).imp_right fun hgone => ⟨?_, hgone.2⟩
      dsimp only
      split <;> rfl
    · dsimp only at hno
      split at hno <;> simp at hno
  · cases hs
  · cases hs

section
variable [DecidableEq H]

theorem Inv.step (h : Inv s) {label : Label H R} (hfresh : s.IdsFresh label)
    (hs : s.step label = some s') : Inv s' := by
  cases label with
  | arm => exact h.stepArm hfresh hs
  | requestCancel =>
    cases hs
    exact ⟨h.queue, h.calls, h.arm, h.callback, h.callers, h.unset⟩
  | callback => exact h.stepCallback hs
  | trigger i spurious =>
    obtain ⟨calls, hcalls, rfl⟩ := Option.map_eq_some_iff.mp hs
    obtain ⟨harm, hne⟩ := Calls.stepTrigger_arm hcalls
    exact h.shrink h.queue (h.calls.stepTrigger hcalls) harm (fun e he _ => he) fun _ => .inl hne
  | timers op => exact h.stepTimers hfresh hs
  | finishAwait =>
    simp only [SleepAwait.step] at hs
    split at hs
    · cases hs
    · cases hs
      by_cases hregistered : s.callback = .registered
      · simp only [hregistered, if_true]
        exact h.moveCallback _ (by simp [hregistered]) trivial
          fun hcalled => by simp [hregistered, CallbackPc.called] at hcalled
      · simp only [hregistered, if_false]
        exact h

theorem inv_of_reachable (h : (machine H R).ReachableUnder IdsFresh s) : Inv s := by
  induction h with
  | initial hinit => exact hinit.inv
  | step _ hfresh hs ih => exact ih.step hfresh hs

end

/-! ## Resumed once, and no timer left -/

/-- What a sleep promises at every moment. -/
structure ResumedOnce (s : SleepAwait H R) : Prop where
  /-- A call that throws posts no resume and registers no timer. -/
  threw : s.arm = .threw →
    s.calls.posts = 0 ∧ s.calls.posting = 0 ∧ Unlisted s.queue s.handshake
  atMostOnce : s.calls.posts + s.calls.posting ≤ 1
  /-- Once a trigger has taken effect, the resume is posted or a thread is about to post it. -/
  exactlyOnce : s.arm = .returned → s.calls.effects ≠ [] → s.calls.posts + s.calls.posting = 1
  /-- When all calls have returned, it is posted. -/
  posted : s.arm = .returned → s.calls.triggers ≠ [] →
    (∀ c ∈ s.calls.triggers, c.pc = .returned) → s.calls.posts = 1
  /-- The queue has no timer for an await that is resolved. -/
  unlisted : s.arm = .returned → s.callback.running = false → s.calls.raw.state = .resolved →
    Unlisted s.queue s.handshake ∧ ∀ id e, s.queue.map id = some e → e.handshake ≠ s.handshake

theorem Inv.resumedOnce (h : Inv s) : ResumedOnce s := by
  have hposts := h.calls.posts
  have hsound := h.arm
  have hcallback := h.callback
  constructor
  · intro hthrew
    rw [hthrew] at hsound
    obtain ⟨-, hunlisted, hstart⟩ := hsound
    have harm := h.calls.arm
    rw [hstart] at harm
    have hopen : s.calls.raw.state ≠ .resolved := by
      rcases harm with hraw | hraw <;> rw [hraw] <;> decide
    rw [if_neg hopen] at hposts
    exact ⟨by omega, by omega, hunlisted⟩
  · split at hposts <;> omega
  · intro hreturned heffects
    rw [hreturned] at hsound
    have harm := h.calls.arm
    rw [hsound.2.2] at harm
    rcases harm with hraw | hraw
    · have hrecorded := h.calls.recorded
      rw [hraw] at hrecorded
      exact absurd hrecorded.2.1 heffects
    · rwa [if_pos hraw] at hposts
  · intro hreturned hne hall
    rw [hreturned] at hsound
    have hnone := Calls.posting_eq_zero hsound.2.2 hall
    rw [if_pos (h.calls.resolved hsound.2.2 hne hall)] at hposts
    omega
  · intro hreturned hrunning hresolved
    have heffects : s.calls.effects ≠ [] := by
      have hrecorded := h.calls.recorded
      unfold Calls.Recorded at hrecorded
      rw [hresolved] at hrecorded
      rw [hrecorded.1]
      exact List.cons_ne_nil _ _
    have hunlisted : Unlisted s.queue s.handshake := by
      rcases h.callers (h.calls.called heffects) with hcalled | hgone
      · have hfinished : s.callback = .finished := by
          cases hpc : s.callback with
          | finished => rfl
          | _ => simp [hpc, CallbackPc.called, CallbackPc.running] at hcalled hrunning
        rw [hfinished] at hcallback
        rcases hcallback.2 with hno | hmay
        · exact hno
        · rw [hreturned] at hmay
          exact absurd hmay Bool.false_ne_true
      · exact hgone.2
    exact ⟨hunlisted, fun id e he => hunlisted e ((h.queue.mapped id e).mp he).1⟩

section
variable [DecidableEq H]

/-- **A sleep is resumed once and leaves no timer**, in every run in which the ids are fresh. -/
theorem resumedOnce_of_idsFresh (h : (machine H R).ReachableUnder IdsFresh s) : ResumedOnce s :=
  (inv_of_reachable h).resumedOnce

instance decidableIdsFresh (s : SleepAwait H R) : ∀ label, Decidable (IdsFresh s label)
  | .arm => inferInstanceAs (Decidable (s.arm = .registering → s.queue.nextTimerId ≠ 0 ∧
      ∀ e ∈ s.queue.heap.entries, e.timerId ≠ s.queue.nextTimerId))
  | .timers op => inferInstanceAs (Decidable (s.queue.FreshId op))
  | .requestCancel | .callback | .trigger .. | .finishAwait => .isTrue trivial

end

/-- A sleep that begins on this queue, which has no timer with the handshake 0. -/
def begun (queue : TimerQueue Nat Unit) : SleepAwait Nat Unit where
  handshake := 0
  resumeAction := ()
  wakeTime := 5
  wired := true
  queue := queue
  stopRequested := false

/-- The cancellation falls between the registration and the publication of the id: the
callback finds no id, and the arming call removes the timer. -/
theorem resumedOnce_cancelBeforeStore :
    ∃ s : SleepAwait Nat Unit, s.arm = .returned ∧ s.callback = .finished ∧ s.calls.posts = 1 ∧
      s.queue.size = 1 ∧ ResumedOnce s := by
  have hinit : (machine Nat Unit).init (begun (.new .off)) :=
    ⟨.initial ⟨.off, rfl⟩, fun _ he => (by cases he), rfl, rfl, rfl, rfl, rfl⟩
  let labels : List (Label Nat Unit) := [.timers (.add 3 7 ()), .arm, .arm, .arm, .arm,
    .requestCancel, .callback, .callback, .callback, .arm, .arm, .arm, .callback, .callback,
    .trigger 0 false, .trigger 0 false, .arm, .arm, .arm, .callback, .finishAwait]
  obtain ⟨s, hs⟩ := Option.isSome_iff_exists.mp
    (show ((machine Nat Unit).run (begun (.new .off)) labels).isSome by decide)
  have hend : ((machine Nat Unit).run (begun (.new .off)) labels).map (fun s => decide
      (s.arm = .returned ∧ s.callback = .finished ∧ s.calls.posts = 1 ∧ s.queue.size = 1)) =
        some true := by
    decide
  simp only [hs, Option.map_some, Option.some.injEq, decide_eq_true_eq] at hend
  have hstart : (machine Nat Unit).ReachableUnder IdsFresh (begun (.new .off)) := .initial hinit
  have hreach := hstart.run (by decide) hs
  exact ⟨s, hend.1, hend.2.1, hend.2.2.1, hend.2.2.2, resumedOnce_of_idsFresh hreach⟩

/-! ## The id 0 -/

theorem exists_nextTimerId (handshake : H) (resumeAction : R) (n : Nat) :
    ∃ q : TimerQueue H R, (TimerQueue.machine H R).ReachableUnder TimerQueue.FreshId q ∧
      q.heap.entries = [] ∧ q.nextTimerId = UInt64.ofNat (n + 1) := by
  induction n with
  | zero => exact ⟨.new .off, .initial ⟨.off, rfl⟩, rfl, rfl⟩
  | succ n ih =>
    obtain ⟨q, hq, hnil, hid⟩ := ih
    have hfresh : q.FreshId (.add 0 handshake resumeAction) := by
      intro e he
      rw [hnil] at he
      cases he
    have hadded := hq.step hfresh (rfl : (TimerQueue.machine H R).next q _ = some _)
    refine ⟨_, hadded.step (a := .cancel q.nextTimerId) trivial rfl, ?_, ?_⟩
    · refine List.eq_nil_iff_forall_not_mem.mpr fun e he => ?_
      obtain ⟨hmem, hne⟩ := (TimerQueue.inv_of_reachable hadded).mem_cancel he
      rcases (TimerQueue.inv_of_reachable hq).placed.mem_add.mp hmem with rfl | hmem
      · exact hne rfl
      · rw [hnil] at hmem
        cases hmem
    · have hsame : ∀ (q : TimerQueue H R) id, (q.cancel id).nextTimerId = q.nextTimerId := by
        intro q id
        unfold TimerQueue.cancel
        split <;> rfl
      show (TimerQueue.cancel _ _).nextTimerId = _
      rw [hsame]
      show q.nextTimerId + 1 = _
      rw [hid, UInt64.ofNat_add (n + 1)]
      rfl

/-- **The id 0**: after `2 ^ 64 - 1` registrations a sleep is given the id 0, which to the
callback means none.  The cancellation comes after the arming call's last look at the flag:
the await is resumed, and its timer stays. -/
theorem zeroId_leavesTimer :
    ∃ s : SleepAwait Nat Unit, (machine Nat Unit).Reachable s ∧ s.arm = .returned ∧
      s.callback = .finished ∧ s.calls.posts = 1 ∧ ¬ ResumedOnce s := by
  obtain ⟨q, hq, hnil, hid⟩ := exists_nextTimerId 7 () (2 ^ 64 - 1)
  have hzero : q.nextTimerId = 0 := hid.trans (by decide)
  have hinit : (machine Nat Unit).init (begun q) := by
    refine ⟨hq, fun e he => ?_, rfl, rfl, rfl, rfl, rfl⟩
    rw [show (begun q).queue.heap.entries = [] from hnil] at he
    cases he
  have hrun : (machine Nat Unit).run (begun q) [.arm, .arm, .arm, .arm, .arm, .arm, .arm, .arm,
      .requestCancel, .callback, .callback, .callback, .callback, .callback, .trigger 0 false,
      .trigger 0 false, .trigger 0 false, .callback] = some { begun q with
        queue := (q.add 5 0 ()).1, stopRequested := true, arm := .returned, callback := .finished
        cancelled := true
        calls :=
          { raw := ⟨.resolved, true⟩, arm := .returned, triggers := [⟨true, .returned⟩]
            effects := [true], armed := true, posts := 1 } } := by
    obtain ⟨metrics, next, sequence, heap, map, allocated⟩ := q
    obtain rfl : next = 0 := hzero
    rfl
  refine ⟨_, Transition.Machine.reachable_of_run hinit hrun, rfl, rfl, rfl, fun hresumed => ?_⟩
  refine (hresumed.unlisted rfl rfl rfl).1 (q.entryOf 5 0 ()) ?_ rfl
  exact (TimerQueue.inv_of_reachable hq).placed.mem_add.mpr (.inl rfl)

end SleepAwait
end AstraScheduler
