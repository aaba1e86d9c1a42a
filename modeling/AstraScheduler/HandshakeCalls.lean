import AstraScheduler.TaskControlBlock
import AstraScheduler.Threads
import AstraScheduler.Transition

/-! # The calls of a handshake, exchange by exchange

One call of `arm` and any number of calls of `trigger` and `trigger_cancel` on an
`AwaitHandshake`.  A step is one load, one compare-exchange or one execution of the resume
action.  `trigger_cancel` uses weak exchanges, which may fail although the value is the one
they expect. -/

namespace AstraScheduler
namespace AwaitHandshake

/-- How far a call has got. -/
inductive Pc where
  | start
  /-- The last access found this value. -/
  | found (raw : AwaitHandshake)
  /-- The exchange has resolved the handshake: `post_action` is next. -/
  | posting
  | returned
  deriving DecidableEq, Repr

/-- A call of `trigger` or of `trigger_cancel`. -/
structure Call where
  cancel : Bool
  pc : Pc := .start
  deriving DecidableEq, Repr

/-- The next access of `trigger`. -/
def triggerAccess (raw : AwaitHandshake) : Pc → AwaitHandshake × Pc
  | .start => if raw = {} then ({ state := .triggered }, .returned) else (raw, .found raw)
  | .found expected =>
    if expected.state = .armed ∧ raw = expected then
      ({ expected with state := .resolved }, .posting)
    else (raw, .returned)
  | .posting => (raw, .posting)
  | .returned => (raw, .returned)

/-- The next access of `trigger_cancel`. -/
def triggerCancelAccess (raw : AwaitHandshake) (spurious : Bool) : Pc → AwaitHandshake × Pc
  | .start => (raw, .found raw)
  | .found current =>
    match current.state with
    | .resolved | .triggered => (raw, .returned)
    | .init =>
      if raw = current ∧ ¬ spurious then ({ state := .triggered, cancelled := true }, .returned)
      else (raw, .found raw)
    | .armed =>
      if raw = current ∧ ¬ spurious then ({ state := .resolved, cancelled := true }, .posting)
      else (raw, .found raw)
  | .posting => (raw, .posting)
  | .returned => (raw, .returned)

/-- The next access of `arm`. -/
def armAccess (raw : AwaitHandshake) : Pc → AwaitHandshake × Pc
  | .start => if raw = {} then ({ state := .armed }, .returned) else (raw, .found raw)
  | .found expected =>
    if expected.state = .triggered ∧ raw = expected then
      ({ expected with state := .resolved }, .posting)
    else (raw, .returned)
  | .posting => (raw, .posting)
  | .returned => (raw, .returned)

def Call.access (c : Call) (raw : AwaitHandshake) (spurious : Bool) : AwaitHandshake × Pc :=
  if c.cancel then triggerCancelAccess raw spurious c.pc else triggerAccess raw c.pc

/-- A handshake and the calls on it.  The last three fields record what has happened; an
exchange that takes effect changes the value. -/
structure Calls where
  raw : AwaitHandshake := {}
  arm : Pc := .start
  triggers : List Call := []
  /-- The triggers whose exchange took effect: was it a cancel? -/
  effects : List Bool := []
  /-- An exchange of `arm` has taken effect. -/
  armed : Bool := false
  /-- How often the resume action has been executed. -/
  posts : Nat := 0
  deriving DecidableEq, Repr

inductive Label where
  /-- Some thread calls `trigger` or `trigger_cancel`. -/
  | call (cancel : Bool)
  | arm
  | trigger (i : Nat) (spurious : Bool)
  deriving DecidableEq, Repr

namespace Calls

/-- That many threads call `trigger` or `trigger_cancel`. -/
def begin (s : Calls) (cancel : Bool) (n : Nat) : Calls :=
  { s with triggers := s.triggers ++ List.replicate n { cancel := cancel } }

def stepArm (s : Calls) : Option Calls :=
  if s.arm = .returned then none
  else if s.arm = .posting then some { s with arm := .returned, posts := s.posts + 1 }
  else
    let access := armAccess s.raw s.arm
    some { s with
      raw := access.1
      arm := access.2
      armed := s.armed || decide (access.1 ≠ s.raw) }

def stepTrigger (s : Calls) (i : Nat) (spurious : Bool) : Option Calls :=
  match s.triggers[i]? with
  | none => none
  | some c =>
    if c.pc = .returned then none
    else if c.pc = .posting then
      some { s with triggers := s.triggers.set i { c with pc := .returned }, posts := s.posts + 1 }
    else
      let access := c.access s.raw spurious
      some { s with
        raw := access.1
        triggers := s.triggers.set i { c with pc := access.2 }
        effects := if access.1 = s.raw then s.effects else s.effects ++ [c.cancel] }

def step (s : Calls) : Label → Option Calls
  | .call cancel => some (s.begin cancel 1)
  | .arm => s.stepArm
  | .trigger i spurious => s.stepTrigger i spurious

/-- A new handshake, on which nothing has been called. -/
def machine : Transition.Machine Calls Label where
  init s := s = {}
  next := step

end Calls

/-! ## The accesses -/

/-- A trigger has taken effect. -/
def Spent (raw : AwaitHandshake) : Prop := raw.state = .triggered ∨ raw.state = .resolved

/-- The changes of the value. -/
inductive Moves : AwaitHandshake → AwaitHandshake → Prop
  | refl (raw : AwaitHandshake) : Moves raw raw
  | trigger (cancel : Bool) : Moves {} ⟨.triggered, cancel⟩
  | arm : Moves {} ⟨.armed, false⟩
  /-- By `arm`, which comes second, -/
  | resolve (cancel : Bool) : Moves ⟨.triggered, cancel⟩ ⟨.resolved, cancel⟩
  /-- or by a trigger, which comes second. -/
  | fire (cancel : Bool) : Moves ⟨.armed, false⟩ ⟨.resolved, cancel⟩

/-- What a call of `trigger` or `trigger_cancel` knows of the value. -/
def Pc.Sound (cancel : Bool) (raw : AwaitHandshake) : Pc → Prop
  | .start => True
  | .found e => cancel = true ∧ e = {} ∨ e = ⟨.armed, false⟩ ∧ (raw = e ∨ raw.Spent) ∨
      e.Spent ∧ raw.Spent
  | .posting => raw.state = .resolved
  | .returned => raw.Spent

/-- What the call of `arm` knows. -/
def Pc.SoundForArm (raw : AwaitHandshake) : Pc → Prop
  | .start => raw = {} ∨ raw.state = .triggered
  | .found e => e = raw ∧ raw.state = .triggered
  | .posting => raw.state = .resolved
  | .returned => raw = ⟨.armed, false⟩ ∨ raw.state = .resolved

theorem Pc.SoundForArm.triggered {pc : Pc} (h : pc.SoundForArm {}) (cancel : Bool) :
    pc.SoundForArm ⟨.triggered, cancel⟩ := by
  cases pc with
  | start => exact .inr rfl
  | found e => cases h.2
  | posting => cases h
  | returned => rcases h with h | h <;> cases h

theorem Pc.SoundForArm.fired {pc : Pc} (h : pc.SoundForArm ⟨.armed, false⟩) (cancel : Bool) :
    pc.SoundForArm ⟨.resolved, cancel⟩ := by
  cases pc with
  | start => rcases h with h | h <;> cases h
  | found e => cases h.2
  | posting => cases h
  | returned => exact .inr rfl

theorem Moves.spent {raw raw' : AwaitHandshake} (h : Moves raw raw') (hs : raw.Spent) :
    raw'.Spent := by
  cases h with
  | refl => exact hs
  | trigger cancel => exact .inl rfl
  | arm => rcases hs with hs | hs <;> cases hs
  | resolve cancel | fire cancel => exact .inr rfl

/-- What a trigger knows stays true. -/
theorem Pc.Sound.moves {cancel : Bool} {raw raw' : AwaitHandshake} {pc : Pc}
    (h : pc.Sound cancel raw) (hm : Moves raw raw') : pc.Sound cancel raw' := by
  cases pc with
  | start => trivial
  | found e =>
    rcases h with hinit | ⟨harmed, heq | hs⟩ | ⟨he, hs⟩
    · exact .inl hinit
    · refine .inr (.inl ⟨harmed, ?_⟩)
      subst heq
      cases hm with
      | refl => exact .inl rfl
      | fire cancel => exact .inr (.inr rfl)
      | trigger | arm | resolve => cases harmed
    · exact .inr (.inl ⟨harmed, .inr (hm.spent hs)⟩)
    · exact .inr (.inr ⟨he, hm.spent hs⟩)
  | posting =>
    cases hm with
    | refl => exact h
    | trigger | arm | resolve | fire => cases h
  | returned => exact hm.spent h

/-- What an access of a trigger does. -/
inductive TriggerOutcome (raw : AwaitHandshake) (cancel : Bool) : AwaitHandshake → Pc → Prop
  | none (pc : Pc) (h : pc.Sound cancel raw) (hpc : pc ≠ .posting) :
    TriggerOutcome raw cancel raw pc
  | first (h : raw = {}) : TriggerOutcome raw cancel ⟨.triggered, cancel⟩ .returned
  | second (h : raw = ⟨.armed, false⟩) : TriggerOutcome raw cancel ⟨.resolved, cancel⟩ .posting

/-- The values that a handshake takes. -/
def Regular (raw : AwaitHandshake) : Prop := raw = {} ∨ raw = ⟨.armed, false⟩ ∨ raw.Spent

theorem Regular.found {raw : AwaitHandshake} (h : raw.Regular) {cancel : Bool}
    (hne : raw = {} → cancel = true) : (Pc.found raw).Sound cancel raw := by
  rcases h with h | h | h
  · exact .inl ⟨hne h, h⟩
  · exact .inr (.inl ⟨h, .inl rfl⟩)
  · exact .inr (.inr ⟨h, h⟩)

theorem Call.access_outcome {c : Call} {raw : AwaitHandshake} (h : raw.Regular)
    (hc : c.pc.Sound c.cancel raw) (hpc : c.pc ≠ .posting ∧ c.pc ≠ .returned) (spurious : Bool) :
    TriggerOutcome raw c.cancel (c.access raw spurious).1 (c.access raw spurious).2 := by
  obtain ⟨cancel, pc⟩ := c
  cases pc with
  | posting => exact absurd rfl hpc.1
  | returned => exact absurd rfl hpc.2
  | start =>
    cases cancel with
    | true => exact .none _ (h.found fun _ => rfl) Pc.noConfusion
    | false =>
      by_cases hinit : raw = {}
      · subst hinit
        exact .first rfl
      · have hfound : Call.access ⟨false, .start⟩ raw spurious = (raw, .found raw) := if_neg hinit
        rw [hfound]
        exact .none _ (h.found fun hraw => absurd hraw hinit) Pc.noConfusion
  | found e =>
    cases cancel with
    | true =>
      rcases hc with ⟨-, rfl⟩ | ⟨rfl, hraw⟩ | ⟨he, hraw⟩
      · by_cases hcas : raw = {} ∧ ¬ spurious
        · obtain ⟨rfl, hs⟩ := hcas
          have htook : Call.access ⟨true, .found {}⟩ {} spurious =
              (⟨.triggered, true⟩, .returned) := by
            simp [Call.access, triggerCancelAccess, hs]
          rw [htook]
          exact .first rfl
        · have hfound : Call.access ⟨true, .found {}⟩ raw spurious = (raw, .found raw) :=
            if_neg hcas
          rw [hfound]
          exact .none _ (h.found fun _ => rfl) Pc.noConfusion
      · by_cases hcas : raw = ⟨.armed, false⟩ ∧ ¬ spurious
        · obtain ⟨rfl, hs⟩ := hcas
          have htook : Call.access ⟨true, .found ⟨.armed, false⟩⟩ ⟨.armed, false⟩ spurious =
              (⟨.resolved, true⟩, .posting) := by
            simp [Call.access, triggerCancelAccess, hs]
          rw [htook]
          exact .second rfl
        · have hfound : Call.access ⟨true, .found ⟨.armed, false⟩⟩ raw spurious =
              (raw, .found raw) := if_neg hcas
          rw [hfound]
          exact .none _ (h.found fun _ => rfl) Pc.noConfusion
      · have hlate : Call.access ⟨true, .found e⟩ raw spurious = (raw, .returned) := by
          rcases he with he | he <;> simp [Call.access, triggerCancelAccess, he]
        rw [hlate]
        exact .none _ hraw Pc.noConfusion
    | false =>
      rcases hc with ⟨hno, -⟩ | ⟨rfl, hraw⟩ | ⟨he, hraw⟩
      · cases hno
      · rcases hraw with rfl | hraw
        · exact .second rfl
        · have hlate : Call.access ⟨false, .found ⟨.armed, false⟩⟩ raw spurious =
              (raw, .returned) := by
            have hne : raw ≠ ⟨.armed, false⟩ := by
              rintro rfl
              rcases hraw with hraw | hraw <;> cases hraw
            simp [Call.access, triggerAccess, hne]
          rw [hlate]
          exact .none _ hraw Pc.noConfusion
      · have hlate : Call.access ⟨false, .found e⟩ raw spurious = (raw, .returned) := by
          rcases he with he | he <;> simp [Call.access, triggerAccess, he]
        rw [hlate]
        exact .none _ hraw Pc.noConfusion

/-- What an access of `arm` does. -/
inductive ArmOutcome (raw : AwaitHandshake) : AwaitHandshake → Pc → Prop
  | none (hs : raw.state = .triggered) : ArmOutcome raw raw (.found raw)
  | first (h : raw = {}) : ArmOutcome raw ⟨.armed, false⟩ .returned
  | second (cancel : Bool) (h : raw = ⟨.triggered, cancel⟩) :
    ArmOutcome raw ⟨.resolved, cancel⟩ .posting

theorem armAccess_outcome {raw : AwaitHandshake} {pc : Pc} (h : pc.SoundForArm raw)
    (hpc : pc ≠ .posting ∧ pc ≠ .returned) :
    ArmOutcome raw (armAccess raw pc).1 (armAccess raw pc).2 := by
  cases pc with
  | posting => exact absurd rfl hpc.1
  | returned => exact absurd rfl hpc.2
  | start =>
    rcases h with rfl | h
    · exact .first rfl
    · have hfound : armAccess raw .start = (raw, .found raw) := by
        refine if_neg fun hraw => ?_
        rw [hraw] at h
        cases h
      rw [hfound]
      exact .none h
  | found e =>
    obtain ⟨rfl, he⟩ := h
    obtain ⟨state, cancel⟩ := e
    obtain rfl : state = .triggered := he
    have htook : armAccess ⟨.triggered, cancel⟩ (.found ⟨.triggered, cancel⟩) =
        (⟨.resolved, cancel⟩, .posting) := by
      simp [armAccess]
    rw [htook]
    exact .second cancel rfl

namespace Calls
variable {s s' : Calls}

/-! ## The invariant -/

/-- What the record says of a value. -/
def Recorded (raw : AwaitHandshake) (effects : List Bool) (armed : Bool) : Prop :=
  match raw.state with
  | .init => raw.cancelled = false ∧ effects = [] ∧ armed = false
  | .armed => raw.cancelled = false ∧ effects = [] ∧ armed = true
  | .triggered => effects = [raw.cancelled] ∧ armed = false
  | .resolved => effects = [raw.cancelled] ∧ armed = true

/-- The calls that are about to execute the resume action. -/
def posting (s : Calls) : Nat :=
  (if s.arm = .posting then 1 else 0) + s.triggers.countP fun c => c.pc = .posting

structure Inv (s : Calls) : Prop where
  recorded : Recorded s.raw s.effects s.armed
  posts : s.posts + s.posting = if s.raw.state = .resolved then 1 else 0
  arm : s.arm.SoundForArm s.raw
  triggers : ∀ c ∈ s.triggers, c.pc.Sound c.cancel s.raw
  called : s.effects ≠ [] → s.triggers ≠ []

theorem Recorded.regular {raw : AwaitHandshake} {effects : List Bool} {armed : Bool}
    (h : Recorded raw effects armed) : raw.Regular := by
  obtain ⟨state, cancelled⟩ := raw
  cases state with
  | init =>
    obtain rfl : cancelled = false := h.1
    exact .inl rfl
  | armed =>
    obtain rfl : cancelled = false := h.1
    exact .inr (.inl rfl)
  | triggered => exact .inr (.inr (.inl rfl))
  | resolved => exact .inr (.inr (.inr rfl))

theorem Inv.initial : Inv {} where
  recorded := ⟨rfl, rfl, rfl⟩
  posts := rfl
  arm := .inl rfl
  triggers _ hc := by cases hc
  called hne := absurd rfl hne

@[simp] theorem posting_begin (s : Calls) (cancel : Bool) (n : Nat) :
    (s.begin cancel n).posting = s.posting := by
  simp [posting, begin, List.countP_append, List.countP_replicate]
  rfl

theorem Inv.begin (h : Inv s) (cancel : Bool) (n : Nat) : Inv (s.begin cancel n) where
  recorded := h.recorded
  posts := by
    rw [posting_begin]
    exact h.posts
  arm := h.arm
  triggers := by
    intro c hc
    rcases List.mem_append.mp hc with hc | hc
    · exact h.triggers c hc
    · obtain rfl := List.eq_of_mem_replicate hc
      trivial
  called hne := List.append_ne_nil_of_left_ne_nil (h.called hne) _

theorem stepArm_triggers (hs : s.stepArm = some s') : s'.triggers = s.triggers := by
  unfold Calls.stepArm at hs
  split at hs
  · cases hs
  · split at hs <;> cases hs <;> rfl

theorem stepTrigger_arm {i : Nat} {spurious : Bool} (hs : s.stepTrigger i spurious = some s') :
    s'.arm = s.arm ∧ s.triggers ≠ [] := by
  unfold Calls.stepTrigger at hs
  split at hs
  · cases hs
  · rename_i c hc
    refine ⟨?_, List.ne_nil_of_mem (List.mem_of_getElem? hc)⟩
    split at hs
    · cases hs
    · split at hs <;> cases hs <;> rfl

/-- Every step of `arm` keeps the invariant. -/
theorem Inv.stepArm (h : Inv s) (hs : s.stepArm = some s') : Inv s' := by
  have hposts := h.posts
  have harm := h.arm
  unfold Calls.stepArm at hs
  split at hs
  · cases hs
  rename_i hreturned
  split at hs
  · rename_i hpc
    cases hs
    rw [hpc] at harm
    refine ⟨h.recorded, ?_, .inr harm, h.triggers, h.called⟩
    simp only [posting, hpc, if_true] at hposts
    simp only [posting, reduceCtorEq, if_false]
    omega
  · rename_i hposting
    have houtcome := armAccess_outcome harm ⟨hposting, hreturned⟩
    cases hs
    generalize (armAccess s.raw s.arm).1 = raw at houtcome
    generalize (armAccess s.raw s.arm).2 = pc at houtcome
    simp only [posting, hposting, if_false] at hposts
    cases houtcome with
    | none hs =>
      refine ⟨?_, ?_, ⟨rfl, hs⟩, h.triggers, h.called⟩
      · simpa using h.recorded
      · simpa [posting] using hposts
    | first hraw =>
      have hrecorded := h.recorded
      rw [hraw] at hrecorded hposts
      refine ⟨⟨rfl, hrecorded.2.1, by simp [hraw]⟩, ?_, .inl rfl, fun c hc => ?_, h.called⟩
      · simpa [posting] using hposts
      · exact (h.triggers c hc).moves (hraw ▸ .arm)
    | second cancel hraw =>
      have hrecorded := h.recorded
      rw [hraw] at hrecorded hposts
      refine ⟨⟨hrecorded.1, by simp [hraw]⟩, ?_, rfl, fun c hc => ?_, h.called⟩
      · simp only [posting, if_true, reduceCtorEq, if_false] at hposts ⊢
        omega
      · exact (h.triggers c hc).moves (hraw ▸ .resolve cancel)

/-- Every step of a trigger keeps the invariant. -/
theorem Inv.stepTrigger {i : Nat} {spurious : Bool} (h : Inv s)
    (hs : s.stepTrigger i spurious = some s') : Inv s' := by
  have hposts := h.posts
  unfold Calls.stepTrigger at hs
  split at hs
  · cases hs
  rename_i c hc
  have hsound := h.triggers c (List.mem_of_getElem? hc)
  have hcount := Threads.countP_set (fun c : Call => decide (c.pc = .posting)) hc
  have hset : ∀ {raw : AwaitHandshake} {pc : Pc}, Moves s.raw raw → pc.Sound c.cancel raw →
      ∀ d ∈ s.triggers.set i { c with pc := pc }, d.pc.Sound d.cancel raw := by
    intro raw pc hmoves hpc d hd
    rcases List.mem_or_eq_of_mem_set hd with hd | rfl
    · exact (h.triggers d hd).moves hmoves
    · exact hpc
  have hne : ∀ {pc : Pc}, s.triggers.set i { c with pc := pc } ≠ [] := by
    intro pc hnil
    rw [List.set_eq_nil_iff] at hnil
    rw [hnil] at hc
    cases hc
  split at hs
  · cases hs
  rename_i hreturned
  split at hs
  · rename_i hpc
    cases hs
    rw [hpc] at hsound
    refine ⟨h.recorded, ?_, h.arm, hset (.refl _) (.inr hsound), fun _ => hne⟩
    have hnew := hcount { c with pc := .returned }
    simp only [posting, hpc, decide_true, if_true, reduceCtorEq, decide_false,
      Bool.false_eq_true, if_false] at hposts hnew ⊢
    omega
  · rename_i hposting
    have houtcome := c.access_outcome h.recorded.regular hsound ⟨hposting, hreturned⟩ spurious
    cases hs
    generalize (c.access s.raw spurious).1 = raw at houtcome
    generalize (c.access s.raw spurious).2 = pc at houtcome
    have hnew := hcount { c with pc := pc }
    simp only [hposting, decide_false, Bool.false_eq_true, if_false] at hnew
    cases houtcome with
    | none _ hpc hposting' =>
      refine ⟨?_, ?_, h.arm, hset (.refl _) hpc, fun _ => hne⟩
      · simpa using h.recorded
      · simp only [hposting', decide_false, Bool.false_eq_true, if_false] at hnew
        simp only [posting] at hposts ⊢
        omega
    | first hraw =>
      have hrecorded := h.recorded
      rw [hraw] at hrecorded hposts
      refine ⟨⟨?_, hrecorded.2.2⟩, ?_, ?_, hset (hraw ▸ .trigger _) (.inl rfl), fun _ => hne⟩
      · simp [hraw, hrecorded.2.1]
      · simp only [posting, reduceCtorEq, decide_false, Bool.false_eq_true, if_false] at hposts hnew ⊢
        omega
      · exact (hraw ▸ h.arm : s.arm.SoundForArm {}).triggered _
    | second hraw =>
      have hrecorded := h.recorded
      rw [hraw] at hrecorded hposts
      refine ⟨⟨?_, hrecorded.2.2⟩, ?_, ?_, hset (hraw ▸ .fire _) rfl, fun _ => hne⟩
      · simp [hraw, hrecorded.2.1]
      · simp only [posting, reduceCtorEq, decide_true, if_true, if_false] at hposts hnew ⊢
        omega
      · exact (hraw ▸ h.arm : s.arm.SoundForArm ⟨.armed, false⟩).fired _

theorem Inv.step {label : Label} (h : Inv s) (hs : s.step label = some s') : Inv s' := by
  cases label with
  | call cancel =>
    obtain rfl := Option.some.inj hs
    exact h.begin cancel 1
  | arm => exact h.stepArm hs
  | trigger i spurious => exact h.stepTrigger hs

theorem inv_of_reachable (h : machine.Reachable s) : Inv s := by
  induction h with
  | initial hinit =>
    obtain rfl := hinit
    exact .initial
  | step _ _ hs ih => exact ih.step hs

/-! ## One execution of the resume action -/

/-- What a handshake promises at every moment. -/
structure ResumedOnce (s : Calls) : Prop where
  atMostOnce : s.posts ≤ 1
  /-- The resume action waits for `arm`. -/
  notBeforeArm : 0 < s.posts → s.armed
  /-- When all calls have returned, it has been executed. -/
  exactlyOnce : s.arm = .returned → s.triggers ≠ [] → (∀ c ∈ s.triggers, c.pc = .returned) →
    s.posts = 1
  /-- The first trigger to take effect decides the attribution. -/
  attribution : s.raw.cancelled ↔ s.effects.head? = some true

theorem Recorded.armed {raw : AwaitHandshake} {effects : List Bool} {armed : Bool}
    (h : Recorded raw effects armed) (hraw : raw.state = .resolved) : armed := by
  unfold Recorded at h
  rw [hraw] at h
  exact h.2

theorem Recorded.attribution {raw : AwaitHandshake} {effects : List Bool} {armed : Bool}
    (h : Recorded raw effects armed) : raw.cancelled ↔ effects.head? = some true := by
  obtain ⟨state, cancelled⟩ := raw
  cases state with
  | init | armed =>
    obtain ⟨rfl, rfl, -⟩ := h
    simp
  | triggered | resolved =>
    obtain ⟨rfl, -⟩ := h
    simp

theorem Inv.resolved (h : Inv s) (harm : s.arm = .returned) (hne : s.triggers ≠ [])
    (hall : ∀ c ∈ s.triggers, c.pc = .returned) : s.raw.state = .resolved := by
  have hsound := h.arm
  rw [harm] at hsound
  obtain ⟨c, hc⟩ := List.exists_mem_of_ne_nil _ hne
  have hspent := h.triggers c hc
  rw [hall c hc] at hspent
  rcases hsound with hraw | hraw
  · rw [hraw] at hspent
    rcases hspent with hspent | hspent <;> cases hspent
  · exact hraw

theorem posting_eq_zero (harm : s.arm = .returned)
    (hall : ∀ c ∈ s.triggers, c.pc = .returned) : s.posting = 0 := by
  simp only [posting, harm, reduceCtorEq, if_false, Nat.zero_add, List.countP_eq_zero]
  intro c hc
  simp [hall c hc]

/-- Whatever the order of the exchanges, the resume action is executed exactly once. -/
theorem resumedOnce_of_reachable (h : machine.Reachable s) : ResumedOnce s := by
  have hinv := inv_of_reachable h
  have hposts := hinv.posts
  constructor
  · split at hposts <;> omega
  · intro hpos
    refine hinv.recorded.armed (Classical.byContradiction fun hraw => ?_)
    rw [if_neg hraw] at hposts
    omega
  · intro harm hne hall
    have hnone := posting_eq_zero harm hall
    rw [if_pos (hinv.resolved harm hne hall)] at hposts
    omega
  · exact hinv.recorded.attribution

/-- A plain trigger reads the armed value; before its exchange a cancel takes effect, whose
exchange has failed once for no reason. -/
theorem resumedOnce_lateTrigger :
    ∃ s : Calls, machine.Reachable s ∧ s.raw.cancelled ∧ s.effects = [true] ∧ s.posts = 1 ∧
      ResumedOnce s := by
  obtain ⟨s, hs⟩ := Option.isSome_iff_exists.mp (show (machine.run {} [.arm, .call false,
    .call true, .trigger 0 false, .trigger 1 false, .trigger 1 true, .trigger 1 false,
    .trigger 0 false, .trigger 1 false]).isSome by decide)
  have hend : (machine.run {} [.arm, .call false, .call true, .trigger 0 false,
      .trigger 1 false, .trigger 1 true, .trigger 1 false, .trigger 0 false,
      .trigger 1 false]).map
        (fun s => decide (s.raw.cancelled ∧ s.effects = [true] ∧ s.posts = 1)) = some true := by
    decide
  simp only [hs, Option.map_some, Option.some.injEq, decide_eq_true_eq] at hend
  have hreach := Transition.Machine.reachable_of_run (m := machine) rfl hs
  exact ⟨s, hreach, hend.1, hend.2.1, hend.2.2, resumedOnce_of_reachable hreach⟩

end Calls
end AwaitHandshake
end AstraScheduler
