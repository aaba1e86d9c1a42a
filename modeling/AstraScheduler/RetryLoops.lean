import AstraScheduler.Threads
import AstraScheduler.Transition
import Mathlib.Data.List.Perm.Basic

/-! # Compare-exchange loops

A shared word is changed by a loop: load it, compute from what was loaded, exchange it if it
still is that, and otherwise start again from what the exchange has read.  A loop may also
leave the word alone and be over.  A weak exchange may fail although the word is what it
expects.  Threads run any number of such loops, one after the other, on a family of words.

A loop takes effect at its exchange, or, if it leaves the word alone, at the read that makes
it do so.  In the order of these effects every word goes through one sequential run
(`Linearized`). -/

namespace RetryLoops
open Transition (Machine)

variable {κ α β : Type*} [DecidableEq κ]

/-- A loop that is over: the word, the operation, and what it found in the word. -/
structure Entry (κ α β : Type*) where
  word : κ
  op : β
  found : α

/-- A thread and the loops it still has to run.  `loaded` is what the current one has read and
what it wants to put there instead; `program` and `done` record. -/
structure Thread (κ α β : Type*) where
  program : List (κ × β)
  todo : List (κ × β)
  loaded : Option (α × α) := none
  done : List (Entry κ α β) := []

/-- The words, the threads, and the loops that are over in the order of their effects. -/
structure Memory (κ α β : Type*) where
  value : κ → α
  threads : List (Thread κ α β) := []
  log : List (Entry κ α β) := []

inductive Label (κ β : Type*) where
  | begin (program : List (κ × β))
  /-- The next access of a thread; a weak exchange may fail spuriously. -/
  | step (i : Nat) (spurious : Bool)

section Loops
-- what an operation puts in the place of a value; `none` when it leaves the word alone
variable (update : β → α → Option α)

/-- What a loop makes of the word all in all. -/
def effect (op : β) (v : α) : α := (update op v).getD v

namespace Memory

/-- The current loop of a thread is over, and it has found `v`. -/
def finish (m : Memory κ α β) (i : Nat) (t : Thread κ α β) (k : κ) (op : β) (v : α)
    (rest : List (κ × β)) : Memory κ α β :=
  { m with
    threads := m.threads.set i
      { t with todo := rest, loaded := none, done := t.done ++ [⟨k, op, v⟩] }
    log := m.log ++ [⟨k, op, v⟩] }

/-- The word is read, by the load or by an exchange that fails. -/
def read (m : Memory κ α β) (i : Nat) (t : Thread κ α β) (k : κ) (op : β)
    (rest : List (κ × β)) : Memory κ α β :=
  match update op (m.value k) with
  | some w => { m with threads := m.threads.set i { t with loaded := some (m.value k, w) } }
  | none => m.finish i t k op (m.value k) rest

def threadStep [DecidableEq α] (m : Memory κ α β) (i : Nat) (spurious : Bool) (t : Thread κ α β) :
    Option (Memory κ α β) :=
  match t.todo, t.loaded with
  | [], _ => none
  | (k, op) :: rest, none => some (m.read update i t k op rest)
  | (k, op) :: rest, some (v, w) =>
    if m.value k = v ∧ ¬ spurious then
      some ({ m with value := Function.update m.value k w }.finish i t k op v rest)
    else some (m.read update i t k op rest)

def next [DecidableEq α] (m : Memory κ α β) : Label κ β → Option (Memory κ α β)
  | .begin program => some { m with threads := m.threads ++ [{ program, todo := program }] }
  | .step i spurious => m.threads[i]?.bind (m.threadStep update i spurious)

/-- Every thread has run all its loops. -/
def Quiescent (m : Memory κ α β) : Prop := ∀ t ∈ m.threads, t.todo = []

end Memory

/-- Any threads, from given values of the words. -/
def machine [DecidableEq α] (start : κ → α) : Machine (Memory κ α β) (Label κ β) where
  init m := m = { value := start }
  next := Memory.next update

/-! ## Sequential runs of one word -/

/-- What the loops make of the word `k`, one after the other. -/
def replay (k : κ) : α → List (Entry κ α β) → α
  | v, [] => v
  | v, e :: es => replay k (if e.word = k then effect update e.op v else v) es

/-- One after the other, every loop on `k` finds what the ones before it have left. -/
def Legal (k : κ) : α → List (Entry κ α β) → Prop
  | _, [] => True
  | v, e :: es =>
    (e.word = k → e.found = v) ∧ Legal k (if e.word = k then effect update e.op v else v) es

theorem replay_append (k : κ) (v : α) (es fs : List (Entry κ α β)) :
    replay update k v (es ++ fs) = replay update k (replay update k v es) fs := by
  induction es generalizing v with
  | nil => rfl
  | cons e es ih => exact ih _

theorem legal_concat (k : κ) (v : α) (es : List (Entry κ α β)) (e : Entry κ α β) :
    Legal update k v (es ++ [e]) ↔
      Legal update k v es ∧ (e.word = k → e.found = replay update k v es) := by
  induction es generalizing v with
  | nil => simp [Legal, replay]
  | cons f es ih => simp [Legal, replay, ih, and_assoc]

/-- What is found plays no part in what is left. -/
theorem replay_eq_foldl (k : κ) (v : α) (es : List (Entry κ α β)) :
    replay update k v es =
      (es.map fun e => (e.word, e.op)).foldl
        (fun v c => if c.1 = k then effect update c.2 v else v) v := by
  induction es generalizing v with
  | nil => rfl
  | cons e es ih => exact ih _

/-- The loops of a list, one after the other, on all words. -/
def runAll (calls : List (κ × β)) (value : κ → α) : κ → α :=
  calls.foldl (fun value c => Function.update value c.1 (effect update c.2 (value c.1))) value

theorem runAll_apply (calls : List (κ × β)) (value : κ → α) (k : κ) :
    runAll update calls value k =
      calls.foldl (fun v c => if c.1 = k then effect update c.2 v else v) (value k) := by
  induction calls generalizing value with
  | nil => rfl
  | cons c calls ih =>
    refine (ih _).trans ?_
    by_cases hc : c.1 = k
    · subst hc
      simp
    · simp [hc, Function.update_of_ne (Ne.symm hc)]

theorem runAll_append (calls calls' : List (κ × β)) (value : κ → α) :
    runAll update (calls ++ calls') value = runAll update calls' (runAll update calls value) :=
  List.foldl_append

/-- The other words stay as they are. -/
theorem runAll_frame {calls : List (κ × β)} {k : κ} (h : ∀ c ∈ calls, c.1 ≠ k) (value : κ → α) :
    runAll update calls value k = value k := by
  induction calls generalizing value with
  | nil => rfl
  | cons c calls ih =>
    obtain ⟨hc, hcalls⟩ := List.forall_mem_cons.mp h
    exact (ih hcalls _).trans (Function.update_of_ne hc.symm _ _)

/-! ## The linearization -/

/-- **The loops take effect one after the other**, each between its beginning and its end: the
log is a legal sequential run of every word and ends in the word's value, it consists of what
the threads have done, and a thread's loops are in it in the thread's order. -/
structure Linearized (start : κ → α) (m : Memory κ α β) : Prop where
  legal : ∀ k, Legal update k (start k) m.log
  value : ∀ k, m.value k = replay update k (start k) m.log
  perm : m.log.Perm (m.threads.flatMap (·.done))
  ordered : ∀ t ∈ m.threads, t.done.Sublist m.log
  program : ∀ t ∈ m.threads, t.program = t.done.map (fun e => (e.word, e.op)) ++ t.todo
  loaded : ∀ t ∈ m.threads, ∀ k op rest v w,
    t.todo = (k, op) :: rest → t.loaded = some (v, w) → update op v = some w

end Loops

/-- One thread appends to its part of a list that the threads make up together. -/
theorem flatMap_set_perm {σ τ : Type*} (f : σ → List τ) {ts : List σ} {i : Nat} {t u : σ}
    {extra : List τ} (ht : ts[i]? = some t) (hu : f u = f t ++ extra) :
    (ts.flatMap f ++ extra).Perm ((ts.set i u).flatMap f) := by
  induction ts generalizing i with
  | nil => cases ht
  | cons s ts ih =>
    cases i with
    | zero =>
      obtain rfl : s = t := Option.some.inj ht
      rw [List.set_cons_zero, List.flatMap_cons, List.flatMap_cons, hu, List.append_assoc,
        List.append_assoc]
      exact List.perm_append_comm.append_left (f s)
    | succ i =>
      rw [List.set_cons_succ, List.flatMap_cons, List.flatMap_cons, List.append_assoc]
      exact (ih ht).append_left (f s)

variable {update : β → α → Option α} {start : κ → α} {m m' : Memory κ α β}

/-- Loops that are over stay in the log at their place. -/
theorem log_prefix [DecidableEq α] {a : Label κ β} (h : m.next update a = some m') :
    m.log <+: m'.log := by
  have hread : ∀ i t k op rest, m.log <+: (m.read update i t k op rest).log := by
    intro i t k op rest
    unfold Memory.read
    split
    · exact List.prefix_rfl
    · exact List.prefix_append _ _
  cases a with
  | begin program =>
    cases h
    exact List.prefix_rfl
  | step i spurious =>
    obtain ⟨t, -, h⟩ := Option.bind_eq_some_iff.mp h
    unfold Memory.threadStep at h
    split at h
    case h_1 => cases h
    case h_2 =>
      cases h
      exact hread ..
    case h_3 =>
      split at h
      · cases h
        exact List.prefix_append _ _
      · cases h
        exact hread ..

namespace Linearized

/-- A thread that only reads. -/
theorem load (h : Linearized update start m) {i : Nat} {t : Thread κ α β}
    (ht : m.threads[i]? = some t) {k : κ} {op : β} {rest : List (κ × β)}
    (htodo : t.todo = (k, op) :: rest) {v w : α} (hw : update op v = some w) :
    Linearized update start
      { m with threads := m.threads.set i { t with loaded := some (v, w) } } := by
  have hmem : t ∈ m.threads := List.mem_of_getElem? ht
  have hold : ∀ u ∈ m.threads.set i { t with loaded := some (v, w) },
      u ∈ m.threads ∨ u = { t with loaded := some (v, w) } := fun u hu =>
    List.mem_or_eq_of_mem_set hu
  refine ⟨h.legal, h.value, ?_, ?_, ?_, ?_⟩
  · have hset := flatMap_set_perm (fun t : Thread κ α β => t.done) ht
      (u := { t with loaded := some (v, w) }) (List.append_nil t.done).symm
    rw [List.append_nil] at hset
    exact h.perm.trans hset
  · intro u hu
    rcases hold u hu with hu | rfl
    · exact h.ordered u hu
    · exact h.ordered t hmem
  · intro u hu
    rcases hold u hu with hu | rfl
    · exact h.program u hu
    · exact h.program t hmem
  · intro u hu k' op' rest' v' w' htodo' hloaded
    rcases hold u hu with hu | rfl
    · exact h.loaded u hu k' op' rest' v' w' htodo' hloaded
    · obtain ⟨⟨rfl, rfl⟩, rfl⟩ := by simpa using htodo.symm.trans htodo'
      obtain ⟨rfl, rfl⟩ := by simpa using hloaded
      exact hw

/-- A loop takes effect: the word it has found becomes what the loop makes of it. -/
theorem finish (h : Linearized update start m) {i : Nat} {t : Thread κ α β}
    (ht : m.threads[i]? = some t) {k : κ} {op : β} {rest : List (κ × β)}
    (htodo : t.todo = (k, op) :: rest) {value : κ → α}
    (hword : value k = effect update op (m.value k))
    (hothers : ∀ j, j ≠ k → value j = m.value j) :
    Linearized update start
      ({ m with value := value }.finish i t k op (m.value k) rest) := by
  have hmem : t ∈ m.threads := List.mem_of_getElem? ht
  have hold : ∀ u ∈ ({ m with value := value }.finish i t k op (m.value k) rest).threads,
      u ∈ m.threads ∨ u =
        { t with todo := rest, loaded := none, done := t.done ++ [⟨k, op, m.value k⟩] } :=
    fun u hu => List.mem_or_eq_of_mem_set hu
  refine ⟨fun j => ?_, fun j => ?_, ?_, ?_, ?_, ?_⟩
  · refine (legal_concat update j (start j) m.log _).mpr ⟨h.legal j, ?_⟩
    rintro rfl
    exact h.value _
  · show value j = replay update j (start j) (m.log ++ [⟨k, op, m.value k⟩])
    rw [replay_append, ← h.value j]
    by_cases hj : j = k
    · subst hj
      simp [replay, hword]
    · simp [replay, hothers j hj, Ne.symm hj]
  · exact (h.perm.append_right _).trans (flatMap_set_perm (fun t => t.done) ht rfl)
  · intro u hu
    rcases hold u hu with hu | rfl
    · exact (h.ordered u hu).trans (List.sublist_append_left _ _)
    · exact (h.ordered t hmem).append_right _
  · intro u hu
    rcases hold u hu with hu | rfl
    · exact h.program u hu
    · simp [h.program t hmem, htodo]
  · intro u hu k' op' rest' v w htodo' hloaded
    rcases hold u hu with hu | rfl
    · exact h.loaded u hu k' op' rest' v w htodo' hloaded
    · cases hloaded

/-- An access to the word: the loop goes on, or it leaves the word alone. -/
theorem read (h : Linearized update start m) {i : Nat} {t : Thread κ α β}
    (ht : m.threads[i]? = some t) {k : κ} {op : β} {rest : List (κ × β)}
    (htodo : t.todo = (k, op) :: rest) :
    Linearized update start (m.read update i t k op rest) := by
  unfold Memory.read
  split
  · exact h.load ht htodo ‹_›
  · exact h.finish ht htodo (by simp [effect, *]) fun _ _ => rfl

theorem next [DecidableEq α] (h : Linearized update start m) {a : Label κ β}
    (hs : m.next update a = some m') : Linearized update start m' := by
  cases a with
  | begin program =>
    cases hs
    refine ⟨h.legal, h.value, ?_, ?_, ?_, ?_⟩
    · simpa using h.perm
    · intro t ht
      rcases List.mem_append.mp ht with ht | ht
      · exact h.ordered t ht
      · obtain rfl := List.mem_singleton.mp ht
        exact List.nil_sublist _
    · intro t ht
      rcases List.mem_append.mp ht with ht | ht
      · exact h.program t ht
      · obtain rfl := List.mem_singleton.mp ht
        rfl
    · intro t ht k op rest v w htodo hloaded
      rcases List.mem_append.mp ht with ht | ht
      · exact h.loaded t ht k op rest v w htodo hloaded
      · obtain rfl := List.mem_singleton.mp ht
        cases hloaded
  | step i spurious =>
    obtain ⟨t, ht, hs⟩ := Option.bind_eq_some_iff.mp hs
    unfold Memory.threadStep at hs
    split at hs
    case h_1 => cases hs
    case h_2 k op rest htodo _ =>
      cases hs
      exact h.read ht htodo
    case h_3 k op rest v w htodo hloaded =>
      split at hs
      case isTrue hsame =>
        cases hs
        obtain ⟨rfl, -⟩ := hsame
        have hw := h.loaded t (List.mem_of_getElem? ht) k op rest _ w htodo hloaded
        refine h.finish ht htodo ?_ fun j hj => ?_
        · simp [effect, hw]
        · simp [hj]
      case isFalse =>
        cases hs
        exact h.read ht htodo

end Linearized

/-- **Every run is linearized**, whatever the schedule and however often exchanges fail. -/
theorem linearized_of_reachable [DecidableEq α] (h : (machine update start).Reachable m) :
    Linearized update start m := by
  refine h.invariant (Linearized update start) ?_ fun s a s' hs _ hn => hs.next hn
  rintro _ rfl
  exact ⟨fun _ => trivial, fun _ => rfl, .refl _, nofun, nofun, nofun⟩

/-- A step changes a word by the effect of one loop, if at all. -/
theorem Linearized.value_next [DecidableEq α] (h : Linearized update start m) {a : Label κ β}
    (hs : m.next update a = some m') (k : κ) :
    m'.value k = m.value k ∨ ∃ op, m'.value k = effect update op (m.value k) := by
  have hread : ∀ i t j op rest, (m.read update i t j op rest).value = m.value := by
    intro i t j op rest
    unfold Memory.read
    split <;> rfl
  cases a with
  | begin program =>
    cases hs
    exact .inl rfl
  | step i spurious =>
    obtain ⟨t, ht, hs⟩ := Option.bind_eq_some_iff.mp hs
    unfold Memory.threadStep at hs
    split at hs
    case h_1 => cases hs
    case h_2 =>
      cases hs
      exact .inl (congrFun (hread ..) k)
    case h_3 j op rest v w htodo hloaded =>
      split at hs
      case isTrue hsame =>
        cases hs
        obtain ⟨rfl, -⟩ := hsame
        have hw := h.loaded t (List.mem_of_getElem? ht) j op rest _ w htodo hloaded
        by_cases hk : k = j
        · subst hk
          exact .inr ⟨op, by simp [Memory.finish, effect, hw]⟩
        · exact .inl (by simp [Memory.finish, hk])
      case isFalse =>
        cases hs
        exact .inl (congrFun (hread ..) k)

/-- Threads keep to the program they began with. -/
theorem programs_next [DecidableEq α] {i : Nat} {spurious : Bool}
    (hs : m.next update (.step i spurious) = some m') :
    m'.threads.map (·.program) = m.threads.map (·.program) := by
  have hset : ∀ {t u : Thread κ α β}, m.threads[i]? = some t → u.program = t.program →
      (m.threads.set i u).map (·.program) = m.threads.map (·.program) := by
    intro t u ht hu
    obtain ⟨hi, rfl⟩ := List.getElem?_eq_some_iff.mp ht
    have hget : u.program = (m.threads.map (·.program)).get ⟨i, by simpa using hi⟩ := by
      simpa using hu
    rw [List.map_set, hget]
    exact List.set_getElem_self _
  obtain ⟨t, ht, hs⟩ := Option.bind_eq_some_iff.mp hs
  have hread : ∀ k op rest, (m.read update i t k op rest).threads.map (·.program) =
      m.threads.map (·.program) := by
    intro k op rest
    unfold Memory.read
    split <;> exact hset ht rfl
  unfold Memory.threadStep at hs
  split at hs
  case h_1 => cases hs
  case h_2 =>
    cases hs
    exact hread ..
  case h_3 =>
    split at hs
    · cases hs
      exact hset ht rfl
    · cases hs
      exact hread ..

/-- When all loops are over, each has taken effect exactly once. -/
theorem Linearized.effects_perm (h : Linearized update start m) (hq : m.Quiescent) :
    (m.log.map fun e => (e.word, e.op)).Perm (m.threads.flatMap (·.program)) := by
  have hprogram : ∀ t ∈ m.threads, t.program = t.done.map fun e => (e.word, e.op) := by
    intro t ht
    rw [h.program t ht, hq t ht, List.append_nil]
  have hmap := h.perm.map fun e => (e.word, e.op)
  rw [List.map_flatMap] at hmap
  rwa [List.flatMap_congr hprogram]

/-- **Loops whose effects commute need no order**: when all are over, the words are as if they
had been run one after the other, in any order. -/
theorem Linearized.value_eq_runAll (h : Linearized update start m) (hq : m.Quiescent)
    {calls : List (κ × β)} (hcalls : (m.threads.flatMap (·.program)).Perm calls)
    (hcomm : ∀ a ∈ calls, ∀ b ∈ calls, a.1 = b.1 → ∀ v,
      effect update b.2 (effect update a.2 v) = effect update a.2 (effect update b.2 v)) :
    m.value = runAll update calls start := by
  funext k
  have hperm := (h.effects_perm hq).trans hcalls
  rw [h.value k, replay_eq_foldl, runAll_apply]
  refine hperm.foldl_eq' (fun a ha b hb v => ?_) (start k)
  split <;> split <;> try rfl
  exact hcomm a (hperm.subset ha) b (hperm.subset hb) (by simp_all) v

end RetryLoops
