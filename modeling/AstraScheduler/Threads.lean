import Mathlib.Algebra.Ring.Nat
import Mathlib.Data.List.Basic

/-! # Threads in a list

The threads of a machine are a list of local states; a thread is named by its position and
never leaves the list.  An invariant of the threads is a predicate on a position and a local
state, so that shared state may name the thread that owns something. -/

namespace Threads
variable {α : Type*} {P Q : Nat → α → Prop} {ts : List α} {i : Nat} {t : α}

/-- Every thread satisfies `P` at its position. -/
def Each (P : Nat → α → Prop) (ts : List α) : Prop :=
  ∀ i t, ts[i]? = some t → P i t

theorem Each.nil : Each P ([] : List α) := nofun

theorem Each.imp (h : Each P ts) (hpq : ∀ i t, ts[i]? = some t → P i t → Q i t) : Each Q ts :=
  fun i t ht => hpq i t ht (h i t ht)

/-- **A step of one thread**: it reaches `Q` itself, and what the others know is stable. -/
theorem Each.set (h : Each P ts) (hown : Q i t)
    (hothers : ∀ j u, j ≠ i → ts[j]? = some u → P j u → Q j u) : Each Q (ts.set i t) := by
  intro j u hu
  by_cases hj : i = j
  · subst hj
    rw [List.getElem?_set] at hu
    simp only [if_true] at hu
    split at hu
    · obtain rfl := Option.some.inj hu
      exact hown
    · cases hu
  · rw [List.getElem?_set_ne hj] at hu
    exact hothers j u (Ne.symm hj) hu (h j u hu)

/-- A new thread. -/
theorem Each.append (h : Each P ts) (hnew : P ts.length t) : Each P (ts ++ [t]) := by
  intro j u hu
  rcases Nat.lt_trichotomy j ts.length with hj | rfl | hj
  · rw [List.getElem?_append_left hj] at hu
    exact h j u hu
  · rw [List.getElem?_concat_length] at hu
    obtain rfl := Option.some.inj hu
    exact hnew
  · rw [List.getElem?_eq_none (by simp; omega)] at hu
    cases hu

/-- A counter of the threads that are at some place: what a step of one thread does to it. -/
theorem countP_set (p : α → Bool) (h : ts[i]? = some t) (u : α) :
    (ts.set i u).countP p + (if p t then 1 else 0) = ts.countP p + (if p u then 1 else 0) := by
  obtain ⟨hi, rfl⟩ := List.getElem?_eq_some_iff.mp h
  rw [List.countP_set hi]
  have hpos : p ts[i] = true → 0 < ts.countP p := fun hp =>
    List.countP_pos_iff.mpr ⟨_, List.getElem_mem hi, hp⟩
  by_cases hp : p ts[i] = true
  · have := hpos hp
    simp only [hp, if_true]
    omega
  · simp only [hp, if_false, Bool.false_eq_true]
    omega

/-- An account the threads share: what a step of one thread does to it. -/
theorem sum_set (f : α → Nat) (h : ts[i]? = some t) (u : α) :
    ((ts.set i u).map f).sum + f t = (ts.map f).sum + f u := by
  induction ts generalizing i with
  | nil => cases h
  | cons s ts ih =>
    cases i with
    | zero =>
      obtain rfl : s = t := Option.some.inj h
      simp only [List.set_cons_zero, List.map_cons, List.sum_cons]
      omega
    | succ i =>
      have hrest := ih h
      simp only [List.set_cons_succ, List.map_cons, List.sum_cons]
      omega

/-- A number of threads as an account. -/
theorem countP_eq_sum (p : α → Bool) (ts : List α) :
    ts.countP p = (ts.map fun t => if p t then 1 else 0).sum := by
  induction ts with
  | nil => rfl
  | cons t ts ih =>
    rw [List.countP_cons, List.map_cons, List.sum_cons, ih, Nat.add_comm]

/-- The other threads are still there after a step of thread `i`. -/
theorem mem_set_of_ne (h : ts[i]? = some t) {u v : α} (hv : v ∈ ts) (hne : v ≠ t) :
    v ∈ ts.set i u := by
  obtain ⟨j, hj⟩ := List.mem_iff_getElem?.mp hv
  refine List.mem_iff_getElem?.mpr ⟨j, ?_⟩
  rwa [List.getElem?_set_ne]
  rintro rfl
  exact hne (Option.some.inj (hj.symm.trans h))

theorem mem_set_self (h : ts[i]? = some t) (u : α) : u ∈ ts.set i u :=
  List.mem_iff_getElem?.mpr
    ⟨i, List.getElem?_set_self (List.getElem?_eq_some_iff.mp h).1⟩

end Threads
