import Mathlib.Algebra.Ring.Nat
import Mathlib.Logic.Function.Basic

/-! # Labelled machines, their runs and their invariants

A machine is a state type with a partial step function: every choice a scheduler
or an environment could make is read off the label, so `next` is a function and a
run is a list of labels.  A run may be restricted by a condition `ok` on its steps
(the state before the step and its label); the invariant rules below are stated
for restricted runs, and the unrestricted ones are the case `ok = any`. -/

namespace Transition

/-- Schedules name the threads of a machine that has one or two of them by numerals. -/
instance oneThread : NeZero 1 := ⟨Nat.one_ne_zero⟩

instance twoThreads : NeZero 2 := ⟨Nat.succ_ne_zero 1⟩

/-- States `σ`, labels `ι`; `next s a = none` when the step `a` is not enabled. -/
structure Machine (σ ι : Type*) where
  init : σ → Prop
  next : σ → ι → Option σ

namespace Machine
variable {σ ι : Type*} (m : Machine σ ι)

/-- The state after a run of labels, if every step of it is enabled. -/
def run : σ → List ι → Option σ
  | s, [] => some s
  | s, a :: as => (m.next s a).bind fun s' => run s' as

theorem run_append (s : σ) (as bs : List ι) :
    m.run s (as ++ bs) = (m.run s as).bind fun s' => m.run s' bs := by
  induction as generalizing s with
  | nil => rfl
  | cons a as ih =>
    simp only [List.cons_append, run, Option.bind_assoc]
    congr 1
    funext s'
    exact ih s'

/-- Every step of the run meets `ok`. -/
def EveryStep (ok : σ → ι → Prop) : σ → List ι → Prop
  | _, [] => True
  | s, a :: as => ok s a ∧ ∀ s', m.next s a = some s' → EveryStep ok s' as

/-- Every state the run visits, its first and its last included, satisfies `P`. -/
def EveryState (P : σ → Prop) : σ → List ι → Prop
  | s, [] => P s
  | s, a :: as => P s ∧ ∀ s', m.next s a = some s' → EveryState P s' as

theorem everyStep_cons {ok : σ → ι → Prop} {s t : σ} {a : ι} {as : List ι}
    (ht : m.next s a = some t) :
    m.EveryStep ok s (a :: as) ↔ ok s a ∧ m.EveryStep ok t as := by
  refine ⟨fun h => ⟨h.1, h.2 t ht⟩, fun h => ⟨h.1, fun s' hs' => ?_⟩⟩
  obtain rfl : t = s' := Option.some.inj (ht.symm.trans hs')
  exact h.2

/-- A condition that can be decided step by step can be decided along a run. -/
instance decidableEveryStep {ok : σ → ι → Prop} [∀ s a, Decidable (ok s a)] :
    ∀ (s : σ) (as : List ι), Decidable (m.EveryStep ok s as)
  | _, [] => .isTrue trivial
  | s, a :: as =>
    match h : m.next s a with
    | none => decidable_of_iff (ok s a) ⟨fun ho => ⟨ho, by simp [h]⟩, fun ho => ho.1⟩
    | some t =>
      have : Decidable (m.EveryStep ok t as) := decidableEveryStep t as
      decidable_of_iff (ok s a ∧ m.EveryStep ok t as) (m.everyStep_cons h).symm

theorem everyState_cons {P : σ → Prop} {s t : σ} {a : ι} {as : List ι}
    (ht : m.next s a = some t) :
    m.EveryState P s (a :: as) ↔ P s ∧ m.EveryState P t as := by
  refine ⟨fun h => ⟨h.1, h.2 t ht⟩, fun h => ⟨h.1, fun s' hs' => ?_⟩⟩
  obtain rfl : t = s' := Option.some.inj (ht.symm.trans hs')
  exact h.2

instance decidableEveryState {P : σ → Prop} [∀ s, Decidable (P s)] :
    ∀ (s : σ) (as : List ι), Decidable (m.EveryState P s as)
  | s, [] => inferInstanceAs (Decidable (P s))
  | s, a :: as =>
    match h : m.next s a with
    | none => decidable_of_iff (P s) ⟨fun hp => ⟨hp, by simp [h]⟩, fun hp => hp.1⟩
    | some t =>
      have : Decidable (m.EveryState P t as) := decidableEveryState t as
      decidable_of_iff (P s ∧ m.EveryState P t as) (m.everyState_cons h).symm

/-- The states reached by runs all of whose steps meet `ok`. -/
inductive ReachableUnder (ok : σ → ι → Prop) : σ → Prop
  | initial {s : σ} : m.init s → ReachableUnder ok s
  | step {s s' : σ} {a : ι} :
      ReachableUnder ok s → ok s a → m.next s a = some s' → ReachableUnder ok s'

/-- No condition on the steps. -/
def any : σ → ι → Prop := fun _ _ => True

/-- The states reached by any run. -/
abbrev Reachable : σ → Prop := m.ReachableUnder any

variable {m}

/-- **The invariant rule**: what holds initially and is preserved by every step
meeting `ok` holds of every state such steps reach. -/
theorem ReachableUnder.invariant {ok : σ → ι → Prop} (Inv : σ → Prop)
    (hinit : ∀ s, m.init s → Inv s)
    (hstep : ∀ s a s', Inv s → ok s a → m.next s a = some s' → Inv s')
    {s : σ} (h : m.ReachableUnder ok s) : Inv s := by
  induction h with
  | initial hs => exact hinit _ hs
  | step _ hok hn ih => exact hstep _ _ _ ih hok hn

/-- A stronger condition on the steps reaches fewer states. -/
theorem ReachableUnder.mono {ok ok' : σ → ι → Prop} (hok : ∀ s a, ok s a → ok' s a)
    {s : σ} (h : m.ReachableUnder ok s) : m.ReachableUnder ok' s := by
  induction h with
  | initial hs => exact .initial hs
  | step _ ho hn ih => exact .step ih (hok _ _ ho) hn

/-- What holds of every state reached may be required of the states stepped from. -/
theorem ReachableUnder.strengthen {ok : σ → ι → Prop} {Inv : σ → Prop}
    (hinv : ∀ s, m.ReachableUnder ok s → Inv s) {s : σ} (h : m.ReachableUnder ok s) :
    m.ReachableUnder (fun s a => Inv s ∧ ok s a) s := by
  induction h with
  | initial hs => exact .initial hs
  | step hr ho hn ih => exact .step ih ⟨hinv _ hr, ho⟩ hn

theorem ReachableUnder.reachable {ok : σ → ι → Prop} {s : σ}
    (h : m.ReachableUnder ok s) : m.Reachable s :=
  h.mono fun _ _ _ => trivial

/-- A run of permitted steps keeps to the reachable states. -/
theorem ReachableUnder.run {ok : σ → ι → Prop} {s s' : σ} {as : List ι}
    (h : m.ReachableUnder ok s) (hok : m.EveryStep ok s as) (hr : m.run s as = some s') :
    m.ReachableUnder ok s' := by
  induction as generalizing s with
  | nil =>
    cases hr
    exact h
  | cons a as ih =>
    obtain ⟨t, ht, hr⟩ := Option.bind_eq_some_iff.mp hr
    exact ih (h.step hok.1 ht) (hok.2 t ht) hr

theorem EveryState.last {P : σ → Prop} {s s' : σ} {as : List ι}
    (h : m.EveryState P s as) (hr : m.run s as = some s') : P s' := by
  induction as generalizing s with
  | nil =>
    cases hr
    exact h
  | cons a as ih =>
    obtain ⟨t, ht, hr⟩ := Option.bind_eq_some_iff.mp hr
    exact ih (h.2 t ht) hr

/-- What follows of each state from an invariant follows along a run. -/
theorem EveryState.imp {P Q : σ → Prop} (Inv : σ → Prop)
    (hstep : ∀ s a s', Inv s → m.next s a = some s' → Inv s') (himp : ∀ s, Inv s → P s → Q s)
    {s : σ} {as : List ι} (hs : Inv s) (h : m.EveryState P s as) : m.EveryState Q s as := by
  induction as generalizing s with
  | nil => exact himp s hs h
  | cons a as ih =>
    exact ⟨himp s hs h.1, fun s' hs' => ih (hstep s a s' hs hs') (h.2 s' hs')⟩

theorem everyStep_any (s : σ) (as : List ι) : m.EveryStep any s as := by
  induction as generalizing s with
  | nil => trivial
  | cons a as ih => exact ⟨trivial, fun s' _ => ih s'⟩

/-- What every step that meets `ok` keeps, a run of such steps keeps. -/
theorem EveryStep.keeps {ok : σ → ι → Prop} {P : σ → Prop}
    (hstep : ∀ s a s', P s → ok s a → m.next s a = some s' → P s')
    {s s' : σ} {as : List ι} (hok : m.EveryStep ok s as) (hs : P s) (hr : m.run s as = some s') :
    P s' := by
  induction as generalizing s with
  | nil =>
    cases hr
    exact hs
  | cons a as ih =>
    obtain ⟨t, ht, hr⟩ := Option.bind_eq_some_iff.mp hr
    exact ih (hok.2 t ht) (hstep s a t hs hok.1 ht) hr

/-- What every step keeps, a run keeps. -/
theorem run_keeps {P : σ → Prop} (hstep : ∀ s a s', P s → m.next s a = some s' → P s')
    {s s' : σ} {as : List ι} (hs : P s) (hr : m.run s as = some s') : P s' :=
  (m.everyStep_any s as).keeps (fun s a s' hp _ hn => hstep s a s' hp hn) hs hr

/-- Executing labels is one way to reach a state. -/
theorem reachable_of_run {s s' : σ} {as : List ι} (hs : m.init s)
    (hr : m.run s as = some s') : m.Reachable s' :=
  (ReachableUnder.initial hs).run (everyStep_any s as) hr

/-- **Restricted runs keep the invariant, and only restricted runs do.**  If `Inv`
survives every step meeting `ok` and implies `P`, and every other step out of an
`Inv` state breaks `P`, then a run visits `P` states only exactly when all its
steps meet `ok`. -/
theorem everyState_iff_everyStep {ok : σ → ι → Prop} (Inv : σ → Prop) {P : σ → Prop}
    (hP : ∀ s, Inv s → P s)
    (hstep : ∀ s a s', Inv s → ok s a → m.next s a = some s' → Inv s')
    (hbad : ∀ s a s', Inv s → ¬ ok s a → m.next s a = some s' → ¬ P s')
    {s : σ} {as : List ι} (hs : Inv s) (hr : (m.run s as).isSome) :
    m.EveryState P s as ↔ m.EveryStep ok s as := by
  induction as generalizing s with
  | nil => simpa [EveryState, EveryStep] using hP s hs
  | cons a as ih =>
    obtain ⟨e, he⟩ := Option.isSome_iff_exists.mp hr
    obtain ⟨t, ht, hr⟩ := Option.bind_eq_some_iff.mp he
    have hsome : (m.run t as).isSome := by simp [hr]
    constructor
    · rintro ⟨_, hall⟩
      have hok : ok s a := by
        by_contra hno
        refine hbad s a t hs hno ht ?_
        cases as with
        | nil => exact hall t ht
        | cons _ _ => exact (hall t ht).1
      refine ⟨hok, fun s' hs' => ?_⟩
      obtain rfl : t = s' := Option.some.inj (ht.symm.trans hs')
      exact (ih (hstep s a t hs hok ht) hsome).mp (hall t ht)
    · rintro ⟨hok, hall⟩
      refine ⟨hP s hs, fun s' hs' => ?_⟩
      obtain rfl : t = s' := Option.some.inj (ht.symm.trans hs')
      exact (ih (hstep s a t hs hok ht) hsome).mpr (hall t ht)

end Machine
end Transition
