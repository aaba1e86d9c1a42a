import AstraScheduler.GraphMetricsBooks
import Mathlib.Algebra.BigOperators.Fin

/-! # The accounts of a runtime that runs graphs

Every run has an account of its own next to those of its nodes.  It takes the bulk admission
until the graph is materialized, and from then on it says whether the run is active.  As long
as no coroutine node is posted, the metrics hold what all accounts have posted. -/

namespace AstraScheduler
namespace GraphMetrics

open RuntimeMetrics Postings
open GraphExecution (PlainRun)

/-- The counter that bounds a gauge. -/
def bound : Gauge → Counter
  | .activeGraphRuns => .graphRunsAccepted
  | .readyTasks | .runningTasks | .suspendedTasks => .acceptedTaskIdentities

/-- The items that the accounts are about. -/
def covered (k : Counter ⊕ Gauge) : Bool :=
  Standing.tracked k || decide (k = .inl .graphRunsAccepted)

/-! ## The account of a node -/

/-- A node says nothing about the runs. -/
theorem posted_runs (t : Standing) {r left : List Update} (hr : r ∈ t.records)
    (hleft : left <:+ r) : t.posted left (.inl .graphRunsAccepted) = 0 ∧
      t.posted left (.inr .activeGraphRuns) = 0 := by
  have hall : ∀ r ∈ t.records, ∀ u ∈ r, u.posting.item ≠ .inl .graphRunsAccepted ∧
      u.posting.item ≠ .inr .activeGraphRuns := by
    clear hr hleft
    rcases t with ⟨stage, hasDeadline, disposition⟩
    cases stage with
    | ready published | cancelledBeforeStart published =>
      cases published <;> cases hasDeadline <;> cases disposition <;> decide
    | running | suspended => cases hasDeadline <;> cases disposition <;> decide
    | completed completion =>
      cases completion <;> cases hasDeadline <;> cases disposition <;> decide
  have hitem : ∀ p ∈ left.map Update.posting, p.item ≠ .inl .graphRunsAccepted ∧
      p.item ≠ .inr .activeGraphRuns := by
    intro p hp
    obtain ⟨u, hu, rfl⟩ := List.mem_map.mp hp
    exact hall r hr u (hleft.mem hu)
  constructor
  · show (0 : Int) - outstanding (left.map Update.posting) _ = 0
    rw [outstanding_of_ne fun p hp => (hitem p hp).1, Int.sub_zero]
  · show (0 : Int) - outstanding (left.map Update.posting) _ = 0
    rw [outstanding_of_ne fun p hp => (hitem p hp).2, Int.sub_zero]

theorem covered_cases {k : Counter ⊕ Gauge} (hk : covered k) :
    Standing.tracked k ∨ k = .inl .graphRunsAccepted := by
  simpa [covered] using hk

theorem node_nonneg (t : Standing) {r left : List Update} (hr : r ∈ t.records)
    (hleft : left <:+ r) {k : Counter ⊕ Gauge} (hk : covered k) : 0 ≤ t.posted left k := by
  rcases covered_cases hk with hk | rfl
  · exact t.posted_nonneg hr hleft k hk
  · exact Int.le_of_eq (posted_runs t hr hleft).1.symm

theorem node_gauge_le (t : Standing) {r left : List Update} (hr : r ∈ t.records)
    (hleft : left <:+ r) (g : Gauge) : t.posted left (.inr g) ≤ t.posted left (.inl (bound g)) := by
  cases g with
  | activeGraphRuns =>
    obtain ⟨hruns, hactive⟩ := posted_runs t hr hleft
    rw [hactive, show bound .activeGraphRuns = .graphRunsAccepted from rfl, hruns]
  | readyTasks | runningTasks | suspendedTasks => exact t.posted_gauge_le hr hleft _

/-- When a record begins, nothing has been posted that was not before. -/
theorem moves_posted {t t' : Standing} {r : List Update} (h : Standing.Moves t r t')
    {k : Counter ⊕ Gauge} (hk : covered k) : t'.posted r k = t.posted [] k := by
  rcases covered_cases hk with hk | rfl
  · exact h.posted k hk
  · exact (posted_runs t' h.mem_records (List.suffix_refl r)).1

/-! ## The account of a run -/

/-- What a run comes to whose nodes do not account for themselves, or none of which does. -/
def runDue (count : Nat) (active : Bool) : Counter ⊕ Gauge → Int
  | .inl .acceptedTaskIdentities | .inr .readyTasks => count
  | .inl .graphRunsAccepted => 1
  | .inr .activeGraphRuns => active.toInt
  | _ => 0

/-- The account of a run while its admission is recorded. -/
def admissionAccount (count : Nat) (left : List Update) : Account (Counter ⊕ Gauge) where
  due := runDue count (0 < count)
  left := left.map Update.posting

/-- The admission has posted less than nothing to no item, and no gauge before its counter. -/
theorem admission_posted {count : Nat} {left : List Update}
    (hleft : left <:+ recordAdmission count) :
    (∀ k, 0 ≤ (admissionAccount count left).posted k) ∧
      ∀ g, (admissionAccount count left).posted (.inr g) ≤
        (admissionAccount count left).posted (.inl (bound g)) := by
  have hb : left ∈ (recordAdmission count).tails := (List.mem_tails _ _).mpr hleft
  by_cases hzero : count = 0
  · subst hzero
    have hall : ∀ left ∈ (recordAdmission 0).tails,
        (∀ c : Counter, 0 ≤ (admissionAccount 0 left).posted (.inl c)) ∧
          (∀ g : Gauge, 0 ≤ (admissionAccount 0 left).posted (.inr g)) ∧
            ∀ g, (admissionAccount 0 left).posted (.inr g) ≤
              (admissionAccount 0 left).posted (.inl (bound g)) := by decide
    obtain ⟨hc, hg, hle⟩ := hall left hb
    refine ⟨fun k => ?_, hle⟩
    rcases k with c | g
    · exact hc c
    · exact hg g
  · have hpos : decide (0 < count) = true := decide_eq_true (Nat.pos_of_ne_zero hzero)
    simp only [recordAdmission, recordAcquired, recordGraphStarted, if_neg hzero, List.append_nil,
      List.cons_append, List.nil_append, List.tails, List.mem_cons, List.not_mem_nil,
      or_false] at hb
    refine ⟨fun k => ?_, fun g => ?_⟩
    · rcases hb with rfl | rfl | rfl | rfl | rfl <;> rcases k with c | g <;>
        (first | cases c | cases g) <;>
        simp [admissionAccount, Account.posted, runDue, hpos, outstanding, Update.posting]
    · rcases hb with rfl | rfl | rfl | rfl | rfl <;> cases g <;>
        simp [admissionAccount, Account.posted, runDue, hpos, outstanding, Update.posting, bound]

/-- A full admission is still to be posted. -/
theorem admission_begins (count : Nat) (k : Counter ⊕ Gauge) :
    (admissionAccount count (recordAdmission count)).posted k = 0 := by
  by_cases hzero : count = 0
  · subst hzero
    rcases k with c | g
    · cases c <;> decide
    · cases g <;> decide
  · have hpos : decide (0 < count) = true := decide_eq_true (Nat.pos_of_ne_zero hzero)
    rcases k with c | g
    · cases c <;> simp [admissionAccount, Account.posted, runDue, hpos, outstanding, hzero,
        recordAdmission, recordAcquired, recordGraphStarted, Update.posting]
    · cases g <;> simp [admissionAccount, Account.posted, runDue, hpos, outstanding, hzero,
        recordAdmission, recordAcquired, recordGraphStarted, Update.posting]

/-- A node that begins to account for itself takes over one identity and one ready task. -/
theorem runDue_split {count : Nat} (active : Bool) (d : Fin count → Bool) (k : Counter ⊕ Gauge) :
    runDue count active k =
      runDue 0 active k + ∑ m, (⟨.ready false, d m, .none⟩ : Standing).due k := by
  have hdue : ∀ b : Bool, (⟨.ready false, b, .none⟩ : Standing).due k =
      if k = .inl .acceptedTaskIdentities ∨ k = .inr .readyTasks then 1 else 0 := by
    intro b
    rcases k with c | g
    · cases c <;> cases b <;> rfl
    · cases g <;> cases b <;> rfl
  simp only [hdue, Finset.sum_const, Finset.card_univ, Fintype.card_fin, nsmul_eq_mul]
  rcases k with c | g
  · cases c <;> simp [runDue]
  · cases g <;> simp [runDue]

theorem runDue_posted (active : Bool) (k : Counter ⊕ Gauge) :
    0 ≤ runDue 0 active k ∧ ∀ g, runDue 0 active (.inr g) ≤ runDue 0 active (.inl (bound g)) := by
  have hall : ∀ active, (∀ c, 0 ≤ runDue 0 active (.inl c)) ∧ (∀ g, 0 ≤ runDue 0 active (.inr g)) ∧
      ∀ g, runDue 0 active (.inr g) ≤ runDue 0 active (.inl (bound g)) := by decide
  obtain ⟨hc, hg, hle⟩ := hall active
  refine ⟨?_, hle⟩
  rcases k with c | g
  · exact hc c
  · exact hg g

/-! ## All accounts -/

section Accounts
variable {W : Workload} {k : Nat} {E : Type} {s s' : State W k E} {r : Fin W.count}

/-- The run is not completed. -/
def MeteredRun.active {n : Nat} (x : MeteredRun n k E) : Bool :=
  decide (0 < n) && decide (x.run.completions = [])

def Phase.account {n : Nat} (g : FrozenTaskGraph n) (deadline : Fin n → Option Nat) :
    Phase n k E → Option (Fin n) → Account (Counter ⊕ Gauge)
  | .admitting left, none => admissionAccount n left
  | .admitted x, none => { due := runDue 0 x.active }
  | .admitted x, some m => (x.standing g deadline m).account (x.pending m)
  | .uncalled, _ | .admitting _, some _ => { due := fun _ => 0 }

/-- A run, or a node of it. -/
abbrev Owner (W : Workload) := (r : Fin W.count) × Option (Fin (W.size r))

def State.account (s : State W k E) (i : Owner W) : Account (Counter ⊕ Gauge) :=
  (s.runs i.1).account (W.graph i.1) (W.deadline i.1) i.2

/-- The metrics hold what the accounts have posted, as long as nothing is lost. -/
def InBooks (s : State W k E) : Prop :=
  s.metrics.level ≠ .off → s.metrics.Exact → ∀ c, covered c →
    Balanced Finset.univ s.account s.metrics.books c

/-- The runs are as their steps have left them. -/
structure Orderly (s : State W k E) : Prop where
  admitted : ∀ r x, s.runs r = .admitted x → RunKept (W.graph r) (W.deadline r) s.metrics.level x
  admitting : ∀ r left, s.runs r = .admitting left → left <:+ recordAdmission (W.size r) ∧
    (s.metrics.level = .off → left = [])

/-- No account has posted less than nothing, and none has raised a gauge before its counter. -/
theorem Orderly.posted (h : Orderly s) (i : Owner W) :
    (∀ c, covered c → 0 ≤ (s.account i).posted c) ∧
      ∀ g, (s.account i).posted (.inr g) ≤ (s.account i).posted (.inl (bound g)) := by
  obtain ⟨r, o⟩ := i
  have hnone : ∀ c, (({ due := fun _ => 0 } : Account (Counter ⊕ Gauge))).posted c = 0 :=
    fun _ => rfl
  unfold State.account
  cases hphase : s.runs r with
  | uncalled => exact ⟨fun c _ => Int.le_of_eq (hnone c).symm, fun g => Int.le_refl _⟩
  | admitting left =>
    cases o with
    | none =>
      obtain ⟨hnonneg, hle⟩ := admission_posted (h.admitting r left hphase).1
      exact ⟨fun c _ => hnonneg c, hle⟩
    | some m => exact ⟨fun c _ => Int.le_of_eq (hnone c).symm, fun g => Int.le_refl _⟩
  | admitted x =>
    cases o with
    | none =>
      have hdue : ∀ c, (({ due := runDue 0 x.active } : Account (Counter ⊕ Gauge))).posted c =
          runDue 0 x.active c := fun c => Int.sub_zero _
      refine ⟨fun c _ => ?_, fun g => ?_⟩
      · show 0 ≤ Account.posted _ c
        rw [Phase.account, hdue]
        exact (runDue_posted x.active c).1
      · show Account.posted _ _ ≤ Account.posted _ _
        rw [Phase.account, hdue, hdue]
        exact (runDue_posted x.active (.inr g)).2 g
    | some m =>
      obtain ⟨record, hrecord, hleft⟩ := ((h.admitted r x hphase).node m).recorded
      exact ⟨fun c hc => node_nonneg _ hrecord hleft hc, node_gauge_le _ hrecord hleft⟩

/-! ### One run moves on -/

theorem setPhase_self (s : State W k E) (phase : Phase (W.size r) k E) :
    (s.setPhase r phase).runs r = phase := Function.update_self ..

theorem setPhase_other (s : State W k E) (phase : Phase (W.size r) k E) {r' : Fin W.count}
    (hr : r' ≠ r) : (s.setPhase r phase).runs r' = s.runs r' := Function.update_of_ne hr ..

theorem account_self (s : State W k E) (phase : Phase (W.size r) k E) (o : Option (Fin (W.size r))) :
    (s.setPhase r phase).account ⟨r, o⟩ = phase.account (W.graph r) (W.deadline r) o := by
  rw [State.account, setPhase_self]

theorem account_other (s : State W k E) (phase : Phase (W.size r) k E) (i : Owner W)
    (hi : i.1 ≠ r) : (s.setPhase r phase).account i = s.account i := by
  rw [State.account, setPhase_other s phase hi, State.account]

/-- The accounts of the run move on without posting anything. -/
theorem InBooks.change {phase phase' : Phase (W.size r) k E} (h : InBooks s)
    (hphase : s.runs r = phase) (hposted : s.metrics.level ≠ .off → ∀ o c, covered c →
      (phase'.account (W.graph r) (W.deadline r) o).posted c =
        (phase.account (W.graph r) (W.deadline r) o).posted c) :
    InBooks (s.setPhase r phase') := by
  intro hlevel hexact c hc
  refine (h hlevel hexact c hc).of_eq rfl fun i _ => ?_
  by_cases hi : i.1 = r
  · obtain ⟨r', o⟩ := i
    subst hi
    rw [account_self, State.account, hphase]
    exact hposted hlevel o c hc
  · rw [account_other s phase' i hi]

/-- One account of the run posts an update. -/
theorem InBooks.post {phase phase' : Phase (W.size r) k E} {worker : Option Nat} {u : Update}
    (o : Option (Fin (W.size r))) (h : InBooks s) (ho : Orderly s)
    (ho' : Orderly ((s.setPhase r phase').apply worker [u])) (hphase : s.runs r = phase)
    (hpost : s.metrics.level ≠ .off → ∀ c, covered c →
      (phase'.account (W.graph r) (W.deadline r) o).posted c =
        (phase.account (W.graph r) (W.deadline r) o).posted c + outstanding [u.posting] c)
    (hothers : ∀ o' ≠ o, phase'.account (W.graph r) (W.deadline r) o' =
      phase.account (W.graph r) (W.deadline r) o') :
    InBooks ((s.setPhase r phase').apply worker [u]) := by
  intro hlevel hexact c hc
  have hlevel' : s.metrics.level ≠ .off := by
    rw [← apply_level s.metrics worker u]
    exact hlevel
  refine Exact.balanced_apply (K := fun c => covered c) (i := ⟨r, o⟩) hexact (Finset.mem_univ _)
    (h hlevel' (Exact.before hexact)) (fun c hc => ?_) (fun j _ hj c => ?_)
    (fun j _ c hc => (ho.posted j).1 c hc) (fun c hc => (ho'.posted ⟨r, o⟩).1 c hc)
    (fun j _ g => (ho'.posted j).2 g) (fun g => ⟨by cases g <;> rfl, by cases g <;> rfl⟩) c hc
  · show ((s.setPhase r phase').account ⟨r, o⟩).posted c = _
    rw [account_self, State.account, hphase]
    exact hpost hlevel' c hc
  · show ((s.setPhase r phase').account j).posted c = _
    by_cases hjr : j.1 = r
    · obtain ⟨r', o'⟩ := j
      subst hjr
      have ho' : o' ≠ o := fun heq => hj (by rw [heq])
      rw [account_self, State.account, hphase, hothers o' ho']
    · rw [account_other s phase' j hjr]

end Accounts

end GraphMetrics
end AstraScheduler
