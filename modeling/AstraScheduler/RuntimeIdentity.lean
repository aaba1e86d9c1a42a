import AstraScheduler.ExecutionIdentity
import AstraScheduler.RetryLoops
import Mathlib.Data.List.Nodup

/-! # Identities

`runtime_identity.hpp`, and `allocate_runtime_id` of `scheduler.cpp`.  One sequence of the
process numbers the runtimes; every runtime has one for its tasks (submitted, spawned, or
nodes of a graph) and one for its graph runs.  A sequence is an atomic word that starts at
zero and is raised by a compare-exchange loop, by any number of threads; at the largest value
the loop throws.

An identity is a pair of two such numbers, so that it is unique only if no two runtimes ever
get the same number.  Sequences belong to an `Impl`, whatever its number is: that the numbers
differ is proved, not built in. -/

namespace AstraScheduler
namespace RuntimeIdentity

open Transition (Machine)
open RetryLoops (Memory Entry Legal replay)
open ExecutionIdentity (GraphRunId)

/-- The atomic words: `global_runtime_sequence`, and `task_sequence_` and
`graph_run_sequence_` of the allocator of the `impl`-th `Impl`. -/
inductive Sequence where
  | runtime
  | task (impl : Nat)
  | graphRun (impl : Nat)
  deriving DecidableEq, Repr

def Sequence.taskImpl : Sequence → Option Nat
  | .task impl => some impl
  | _ => none

def Sequence.graphRunImpl : Sequence → Option Nat
  | .graphRun impl => some impl
  | _ => none

/-- The largest number a sequence can reach. -/
def maxSequence : Nat := 2 ^ 64 - 1

/-- `allocate_sequence` and `allocate_runtime_id`: what to put in the word, which is also what
the call returns; `none` when it throws the overflow error. -/
def allocateSequence (_ : Unit) (current : Nat) : Option Nat :=
  if current = maxSequence then none else some (current + 1)

/-- An `Impl` and the call of `allocate_runtime_id` its constructor was given the result of. -/
structure Impl where
  call : Nat
  runtimeId : RuntimeId
  deriving DecidableEq, Repr

/-- The words with the calls on them, and the `Impl`s in the order of their construction. -/
structure Process where
  words : Memory Sequence Nat Unit
  impls : List Impl := []

inductive Action where
  | access (label : RetryLoops.Label Sequence Unit)
  /-- `make_shared<Impl>(id, …)` with the result of a call.  It may also never come to this, if
  the constructor throws before. -/
  | construct (call : Nat)

namespace Process

/-- A member function of the `impl`-th allocator can be called once it is there. -/
def Callable (s : Process) : Sequence → Bool
  | .runtime => true
  | .task impl | .graphRun impl => impl < s.impls.length

def construct (s : Process) (call : Nat) : Option Process :=
  match s.words.log[call]? with
  | some ⟨.runtime, op, found⟩ =>
    if call ∈ s.impls.map (·.call) then none
    else (allocateSequence op found).map fun id =>
      { s with impls := s.impls ++ [⟨call, ⟨id⟩⟩] }
  | _ => none

def next (s : Process) : Action → Option Process
  | .access (.begin program) =>
    if program.all fun c => s.Callable c.1 then
      (s.words.next allocateSequence (.begin program)).map fun words => { s with words }
    else none
  | .access label => (s.words.next allocateSequence label).map fun words => { s with words }
  | .construct call => s.construct call

def machine : Machine Process Action where
  init s := s = { words := { value := fun _ => 0 } }
  next := next

def runtimeIds (s : Process) : List RuntimeId := s.impls.map (·.runtimeId)

/-- The runtime and the number of every call on an allocator that has returned; `impl` picks one
of the two sequences. -/
def issuedBy (s : Process) (impl : Sequence → Option Nat) : List (RuntimeId × Nat) :=
  s.words.log.filterMap fun e => do
    return ((← s.impls[← impl e.word]?).runtimeId, ← allocateSequence e.op e.found)

/-- `allocate_task`. -/
def taskIds (s : Process) : List TaskId :=
  (s.issuedBy Sequence.taskImpl).map fun p => ⟨p.1, p.2⟩

/-- `allocate_graph_run`. -/
def graphRunIds (s : Process) : List GraphRunId :=
  (s.issuedBy Sequence.graphRunImpl).map fun p => ⟨p.1, p.2⟩

/-- What the calls on a word have returned, in order. -/
def sequences (s : Process) (q : Sequence) : List Nat :=
  s.words.log.filterMap fun e => if e.word = q then allocateSequence e.op e.found else none

end Process

/-- `GraphRunId::valid`. -/
def valid (id : GraphRunId) : Bool := id.runtimeId.value != 0 && id.sequence != 0

/-! ## One word -/

theorem allocateSequence_eq_some {op : Unit} {v w : Nat} :
    allocateSequence op v = some w ↔ v ≠ maxSequence ∧ w = v + 1 := by
  unfold allocateSequence
  split
  · simp [*]
  · simp [*, eq_comm]

theorem allocateSequence_eq_none {op : Unit} {v : Nat} :
    allocateSequence op v = none ↔ v = maxSequence := by
  simp [allocateSequence]

theorem le_effect (op : Unit) (v : Nat) : v ≤ RetryLoops.effect allocateSequence op v := by
  unfold RetryLoops.effect allocateSequence
  split <;> simp

theorem effect_le {op : Unit} {v : Nat} (h : v ≤ maxSequence) :
    RetryLoops.effect allocateSequence op v ≤ maxSequence := by
  unfold RetryLoops.effect allocateSequence
  split <;> simp <;> omega

variable {q : Sequence} {v : Nat} {log : List (Entry Sequence Nat Unit)}

/-- The word only grows: every later call finds at least what is there now. -/
theorem le_found (h : Legal allocateSequence q v log) :
    ∀ e ∈ log, e.word = q → v ≤ e.found := by
  induction log generalizing v with
  | nil => nofun
  | cons f log ih =>
    intro e he hword
    rcases List.mem_cons.mp he with rfl | he
    · exact le_of_eq (h.1 hword).symm
    · refine le_trans ?_ (ih h.2 e he hword)
      split
      · exact le_effect _ _
      · exact le_refl _

/-- A call that returns a number leaves a larger one for the calls after it. -/
theorem found_increasing {start : Sequence → Nat} (h : ∀ q, Legal allocateSequence q (start q) log) :
    log.Pairwise fun e f =>
      e.word = f.word → (allocateSequence e.op e.found).isSome → e.found < f.found := by
  induction log generalizing start with
  | nil => exact .nil
  | cons e log ih =>
    refine .cons (fun f hf hword hsome => ?_) (ih fun q => (h q).2)
    obtain ⟨hfound, hlegal⟩ := h e.word
    rw [if_pos rfl, ← hfound rfl] at hlegal
    obtain ⟨w, hw⟩ := Option.isSome_iff_exists.mp hsome
    have hle := le_found hlegal f hf hword.symm
    obtain ⟨-, rfl⟩ := allocateSequence_eq_some.mp hw
    exact Nat.lt_of_succ_le (by simpa [RetryLoops.effect, hw] using hle)

/-- **A word hands out one number after the other**, without a gap. -/
theorem sequences_of_legal (h : Legal allocateSequence q v log) (hv : v ≤ maxSequence) :
    v ≤ replay allocateSequence q v log ∧ replay allocateSequence q v log ≤ maxSequence ∧
      (log.filterMap fun e => if e.word = q then allocateSequence e.op e.found else none) =
        List.range' (v + 1) (replay allocateSequence q v log - v) := by
  induction log generalizing v with
  | nil => simp [replay, hv]
  | cons e log ih =>
    obtain ⟨hfound, hlegal⟩ := h
    by_cases hword : e.word = q
    · rw [if_pos hword] at hlegal
      obtain ⟨hle, hmax, heq⟩ := ih hlegal (effect_le hv)
      simp only [replay, if_pos hword, List.filterMap_cons, hfound hword]
      cases ha : allocateSequence e.op v with
      | none =>
        simp only [RetryLoops.effect, ha, Option.getD_none] at hle hmax heq ⊢
        exact ⟨hle, hmax, heq⟩
      | some w =>
        obtain ⟨-, rfl⟩ := allocateSequence_eq_some.mp ha
        simp only [RetryLoops.effect, ha, Option.getD_some] at hle hmax heq ⊢
        refine ⟨by omega, hmax, ?_⟩
        rw [heq, ← List.range'_succ]
        congr 1
        omega
    · rw [if_neg hword] at hlegal
      simpa [replay, hword] using ih hlegal hv

/-- After the overflow error the word stays at the largest number. -/
theorem exhausted_of_legal (h : Legal allocateSequence q v log) (hv : v ≤ maxSequence)
    {e : Entry Sequence Nat Unit} (he : e ∈ log) (hword : e.word = q)
    (hnone : allocateSequence e.op e.found = none) :
    replay allocateSequence q v log = maxSequence := by
  induction log generalizing v with
  | nil => cases he
  | cons f log ih =>
    have heffect : (if f.word = q then RetryLoops.effect allocateSequence f.op v else v)
        ≤ maxSequence := by
      split
      · exact effect_le hv
      · exact hv
    rcases List.mem_cons.mp he with rfl | he
    · have hmax : v = maxSequence := h.1 hword ▸ allocateSequence_eq_none.mp hnone
      obtain ⟨hlegal, hbound⟩ := And.intro h.2 (sequences_of_legal h.2 heffect)
      have := hbound.1
      have := hbound.2.1
      have hgrow := le_effect e.op v
      simp only [hword, if_true, replay] at *
      omega
    · exact ih h.2 heffect he

/-! ## The process -/

/-- An `Impl` has its number from a call of its own. -/
structure Process.Sound (s : Process) : Prop where
  words : RetryLoops.Linearized allocateSequence (fun _ => 0) s.words
  calls : (s.impls.map (·.call)).Nodup
  issued : ∀ o ∈ s.impls, ∃ e, s.words.log[o.call]? = some e ∧ e.word = .runtime ∧
    allocateSequence e.op e.found = some o.runtimeId.value

variable {s s' : Process}

/-- Of the process, an access changes the words only. -/
theorem next_access {label : RetryLoops.Label Sequence Unit}
    (h : s.next (.access label) = some s') :
    ∃ words, s.words.next allocateSequence label = some words ∧
      s' = { s with words := words } := by
  cases label with
  | begin program =>
    simp only [Process.next] at h
    split at h
    · obtain ⟨words, hw, rfl⟩ := Option.map_eq_some_iff.mp h
      exact ⟨words, hw, rfl⟩
    · cases h
  | step i spurious =>
    obtain ⟨words, hw, rfl⟩ := Option.map_eq_some_iff.mp h
    exact ⟨words, hw, rfl⟩

theorem construct_cases {call : Nat} (h : s.construct call = some s') :
    ∃ e id, s.words.log[call]? = some e ∧ e.word = .runtime ∧
      call ∉ s.impls.map (·.call) ∧ allocateSequence e.op e.found = some id ∧
      s' = { s with impls := s.impls ++ [⟨call, ⟨id⟩⟩] } := by
  unfold Process.construct at h
  split at h
  case h_1 op found he =>
    split at h
    · cases h
    · obtain ⟨id, hid, rfl⟩ := Option.map_eq_some_iff.mp h
      exact ⟨_, id, he, rfl, ‹_›, hid, rfl⟩
  case h_2 => cases h

theorem Process.Sound.next (hs : s.Sound) {a : Action} (h : s.next a = some s') : s'.Sound := by
  cases a with
  | access label =>
    obtain ⟨words, hw, rfl⟩ := next_access h
    refine ⟨hs.words.next hw, hs.calls, fun o ho => ?_⟩
    obtain ⟨e, he, hrest⟩ := hs.issued o ho
    obtain ⟨more, hmore⟩ := RetryLoops.log_prefix hw
    refine ⟨e, ?_, hrest⟩
    rw [← hmore, List.getElem?_append_left (List.getElem?_eq_some_iff.mp he).1]
    exact he
  | construct call =>
    obtain ⟨e, id, he, hword, hcall, hid, rfl⟩ := construct_cases h
    refine ⟨hs.words, ?_, fun o ho => ?_⟩
    · rw [List.map_append, List.nodup_append]
      refine ⟨hs.calls, List.nodup_singleton _, ?_⟩
      rintro a ha b hb rfl
      obtain rfl := List.mem_singleton.mp hb
      exact hcall ha
    · rcases List.mem_append.mp ho with ho | ho
      · exact hs.issued o ho
      · obtain rfl := List.mem_singleton.mp ho
        exact ⟨e, he, hword, hid⟩

theorem sound_of_reachable (h : Process.machine.Reachable s) : s.Sound := by
  refine h.invariant Process.Sound ?_ fun s a s' hs _ hn => hs.next hn
  rintro _ rfl
  exact ⟨RetryLoops.linearized_of_reachable (.initial rfl), List.nodup_nil, nofun⟩

/-- Two calls on one word never return the same number. -/
theorem Process.Sound.issued_injective (hs : s.Sound) {i j : Nat} {e f : Entry Sequence Nat Unit}
    {n : Nat} (hi : s.words.log[i]? = some e) (hj : s.words.log[j]? = some f)
    (hword : e.word = f.word) (he : allocateSequence e.op e.found = some n)
    (hf : allocateSequence f.op f.found = some n) : i = j := by
  have hpairs := List.pairwise_iff_getElem.mp (found_increasing hs.words.legal)
  obtain ⟨hil, rfl⟩ := List.getElem?_eq_some_iff.mp hi
  obtain ⟨hjl, rfl⟩ := List.getElem?_eq_some_iff.mp hj
  obtain ⟨-, hen⟩ := allocateSequence_eq_some.mp he
  obtain ⟨-, hfn⟩ := allocateSequence_eq_some.mp hf
  rcases Nat.lt_trichotomy i j with hlt | heq | hlt
  · have := hpairs i j hil hjl hlt hword (by simp [he])
    omega
  · exact heq
  · have := hpairs j i hjl hil hlt hword.symm (by simp [hf])
    omega

/-- No two `Impl`s have the same number. -/
theorem Process.Sound.runtimeIds_nodup (hs : s.Sound) : s.runtimeIds.Nodup := by
  refine (List.Nodup.of_map _ hs.calls).map_on fun o ho o' ho' hid => ?_
  obtain ⟨e, he, hword, hissued⟩ := hs.issued o ho
  obtain ⟨e', he', hword', hissued'⟩ := hs.issued o' ho'
  have hcall := hs.issued_injective he he' (hword.trans hword'.symm) hissued (hid ▸ hissued')
  cases o
  cases o'
  simp_all

theorem mem_issuedBy {impl : Sequence → Option Nat} {e : Entry Sequence Nat Unit}
    {p : RuntimeId × Nat} :
    (do return ((← s.impls[← impl e.word]?).runtimeId, ← allocateSequence e.op e.found) :
      Option (RuntimeId × Nat)) = some p ↔
      ∃ i o, impl e.word = some i ∧ s.impls[i]? = some o ∧ o.runtimeId = p.1 ∧
        allocateSequence e.op e.found = some p.2 := by
  constructor
  · intro h
    obtain ⟨i, hi, h⟩ := Option.bind_eq_some_iff.mp h
    obtain ⟨o, ho, h⟩ := Option.bind_eq_some_iff.mp h
    obtain ⟨n, hn, h⟩ := Option.bind_eq_some_iff.mp h
    obtain rfl := Option.some.inj h
    exact ⟨i, o, hi, ho, rfl, hn⟩
  · rintro ⟨i, o, hi, ho, hruntime, hn⟩
    simp [hi, ho, hn, hruntime]

/-- Pairs of a runtime and a number of one of its sequences never repeat. -/
theorem Process.Sound.issuedBy_nodup (hs : s.Sound) {impl : Sequence → Option Nat}
    (himpl : ∀ q q' i, impl q = some i → impl q' = some i → q = q') : (s.issuedBy impl).Nodup := by
  rw [List.Nodup, Process.issuedBy, List.pairwise_filterMap]
  refine (found_increasing hs.words.legal).imp ?_
  rintro e f hlt p hp _ hp' rfl
  obtain ⟨i, o, hi, ho, hruntime, hn⟩ := mem_issuedBy.mp hp
  obtain ⟨j, o', hj, ho', hruntime', hn'⟩ := mem_issuedBy.mp hp'
  obtain rfl : i = j := by
    obtain ⟨hil, rfl⟩ := List.getElem?_eq_some_iff.mp ho
    obtain ⟨hjl, rfl⟩ := List.getElem?_eq_some_iff.mp ho'
    have hil' : i < s.runtimeIds.length := by simpa [Process.runtimeIds] using hil
    have hjl' : j < s.runtimeIds.length := by simpa [Process.runtimeIds] using hjl
    refine (@List.Nodup.getElem_inj_iff _ _ hs.runtimeIds_nodup i hil' j hjl').mp ?_
    simpa [Process.runtimeIds] using hruntime.trans hruntime'.symm
  have := hlt (himpl _ _ i hi hj) (by simp [hn])
  obtain ⟨-, h⟩ := allocateSequence_eq_some.mp hn
  obtain ⟨-, h'⟩ := allocateSequence_eq_some.mp hn'
  omega

/-- Both parts of such a pair are valid. -/
theorem Process.Sound.issuedBy_valid (hs : s.Sound) {impl : Sequence → Option Nat} :
    ∀ p ∈ s.issuedBy impl, p.1.value ≠ 0 ∧ p.2 ≠ 0 := by
  intro p hp
  obtain ⟨e, -, he⟩ := List.mem_filterMap.mp hp
  obtain ⟨i, o, -, ho, hruntime, hn⟩ := mem_issuedBy.mp he
  obtain ⟨e', -, -, hissued⟩ := hs.issued o (List.mem_of_getElem? ho)
  obtain ⟨-, hvalue⟩ := allocateSequence_eq_some.mp hissued
  obtain ⟨-, hnumber⟩ := allocateSequence_eq_some.mp hn
  rw [← hruntime]
  omega

/-- **No identity is ever given twice**, and every one is valid: runtimes in the process, and
tasks and graph runs over all runtimes, whichever threads ask and however often their
exchanges fail. -/
theorem identities_unique (h : Process.machine.Reachable s) :
    s.runtimeIds.Nodup ∧ s.taskIds.Nodup ∧ s.graphRunIds.Nodup ∧
      (∀ r ∈ s.runtimeIds, r.value ≠ 0) ∧ (∀ t ∈ s.taskIds, t.valid) ∧
      ∀ g ∈ s.graphRunIds, valid g := by
  have hs := sound_of_reachable h
  refine ⟨hs.runtimeIds_nodup, ?_, ?_, ?_, ?_, ?_⟩
  · refine (hs.issuedBy_nodup ?_).map (by simp [Function.Injective])
    intro q q' i hq hq'
    cases q <;> cases q' <;> simp_all [Sequence.taskImpl]
  · refine (hs.issuedBy_nodup ?_).map (by simp [Function.Injective])
    intro q q' i hq hq'
    cases q <;> cases q' <;> simp_all [Sequence.graphRunImpl]
  · intro r hr
    obtain ⟨o, ho, rfl⟩ := List.mem_map.mp hr
    obtain ⟨e, -, -, hissued⟩ := hs.issued o ho
    obtain ⟨-, hvalue⟩ := allocateSequence_eq_some.mp hissued
    omega
  · intro t ht
    obtain ⟨p, hp, rfl⟩ := List.mem_map.mp ht
    simpa [TaskId.valid] using hs.issuedBy_valid p hp
  · intro g hg
    obtain ⟨p, hp, rfl⟩ := List.mem_map.mp hg
    simpa [valid] using hs.issuedBy_valid p hp

/-- Two constructors race for their numbers, one of them loses an exchange; then two threads
submit to both runtimes. -/
def twoRuntimes : List Action :=
  [.access (.begin [(.runtime, ())]), .access (.begin [(.runtime, ())]),
    .access (.step 0 false), .access (.step 1 false), .access (.step 1 false),
    .access (.step 0 false), .access (.step 0 true), .access (.step 0 false),
    .construct 1, .construct 0,
    .access (.begin [(.task 0, ()), (.task 1, ())]), .access (.begin [(.task 0, ())]),
    .access (.step 2 false), .access (.step 3 false), .access (.step 2 false),
    .access (.step 3 false), .access (.step 3 false), .access (.step 2 false),
    .access (.step 2 false)]

theorem identities_unique_twoRuntimes :
    ∃ s, Process.machine.run { words := { value := fun _ => 0 } } twoRuntimes = some s ∧
      s.runtimeIds = [⟨2⟩, ⟨1⟩] ∧ s.taskIds = [⟨⟨2⟩, 1⟩, ⟨⟨2⟩, 2⟩, ⟨⟨1⟩, 1⟩] ∧
      s.taskIds.Nodup := by
  obtain ⟨s, hs⟩ := Option.isSome_iff_exists.mp
    (show (Process.machine.run { words := { value := fun _ => 0 } } twoRuntimes).isSome by decide)
  have hend : (Process.machine.run { words := { value := fun _ => 0 } } twoRuntimes).map
      (fun t => (t.runtimeIds, t.taskIds)) =
      some ([⟨2⟩, ⟨1⟩], [⟨⟨2⟩, 1⟩, ⟨⟨2⟩, 2⟩, ⟨⟨1⟩, 1⟩]) := by decide
  rw [hs] at hend
  obtain ⟨hruntimes, htasks⟩ := Prod.mk.inj (Option.some.inj hend)
  exact ⟨s, hs, hruntimes, htasks,
    (identities_unique (Transition.Machine.reachable_of_run rfl hs)).2.1⟩

/-- **A sequence is handed out in order and without a gap**, a thread gets growing numbers, and
the overflow error comes only when all `2 ^ 64 - 1` numbers are gone, after which every call
throws.  When no call is under way, each has returned or thrown once. -/
theorem sequences_exhaust (h : Process.machine.Reachable s) :
    (∀ q, s.sequences q = List.range' 1 (s.words.value q) ∧ s.words.value q ≤ maxSequence) ∧
      (∀ e ∈ s.words.log, allocateSequence e.op e.found = none →
        (s.sequences e.word).length = maxSequence ∧
          ∀ label words, s.words.next allocateSequence label = some words →
            words.value e.word = maxSequence) ∧
      (∀ t ∈ s.words.threads, t.done.Pairwise fun e f =>
        e.word = f.word → (allocateSequence e.op e.found).isSome → e.found < f.found) ∧
      (s.words.Quiescent →
        (s.words.log.map fun e => (e.word, e.op)).Perm (s.words.threads.flatMap (·.program))) := by
  have hs := sound_of_reachable h
  have hword : ∀ q, s.sequences q = List.range' 1 (s.words.value q) ∧
      s.words.value q ≤ maxSequence := by
    intro q
    obtain ⟨-, hmax, heq⟩ := sequences_of_legal (hs.words.legal q) (Nat.zero_le _)
    rw [hs.words.value q]
    exact ⟨heq, hmax⟩
  refine ⟨hword, fun e he hnone => ⟨?_, fun label words hnext => ?_⟩, fun t ht => ?_,
    hs.words.effects_perm⟩
  · rw [(hword e.word).1, List.length_range', hs.words.value e.word]
    exact exhausted_of_legal (hs.words.legal e.word) (Nat.zero_le _) he rfl hnone
  · -- the overflow stays in the log of the next state
    have hnext' := hs.words.next hnext
    rw [hnext'.value e.word]
    exact exhausted_of_legal (hnext'.legal e.word) (Nat.zero_le _)
      ((RetryLoops.log_prefix hnext).subset he) rfl hnone
  · exact (found_increasing hs.words.legal).sublist (hs.words.ordered t ht)

theorem sequences_exhaust_twoRuntimes :
    ∃ s, Process.machine.run { words := { value := fun _ => 0 } } twoRuntimes = some s ∧
      s.sequences (.task 0) = List.range' 1 (s.words.value (.task 0)) := by
  obtain ⟨s, hs⟩ := Option.isSome_iff_exists.mp
    (show (Process.machine.run { words := { value := fun _ => 0 } } twoRuntimes).isSome by decide)
  exact ⟨s, hs, ((sequences_exhaust (Transition.Machine.reachable_of_run rfl hs)).1 (.task 0)).1⟩

end RuntimeIdentity
end AstraScheduler
