import Mathlib.Algebra.BigOperators.Group.Finset.Basic
import Mathlib.Algebra.BigOperators.Group.List.Basic
import Mathlib.Algebra.Order.BigOperators.Group.Finset
import Mathlib.Algebra.Ring.Nat
import Mathlib.Data.Fintype.BigOperators
import Mathlib.Logic.Function.Basic

/-! # Stacks of work and what they weigh

Finitely many threads, each with a stack of work to do.  A weight gives every piece of
work a number; what all stacks weigh together changes only by what one thread takes off
its stack and puts there instead.  Accounting for resources that travel with the work is
then a matter of linear equations between weights. -/

namespace WorkStacks
variable {ι F : Type*} [Fintype ι]

/-- What one stack weighs. -/
def stackWeight (f : F → Nat) (stack : List F) : Nat := (stack.map f).sum

@[simp] theorem stackWeight_nil (f : F → Nat) : stackWeight f [] = 0 := rfl

@[simp] theorem stackWeight_cons (f : F → Nat) (a : F) (stack : List F) :
    stackWeight f (a :: stack) = f a + stackWeight f stack := by
  simp [stackWeight]

theorem stackWeight_append (f : F → Nat) (l l' : List F) :
    stackWeight f (l ++ l') = stackWeight f l + stackWeight f l' := by
  simp [stackWeight]

/-- What all stacks weigh together. -/
def weight (f : F → Nat) (threads : ι → List F) : Nat := ∑ i, stackWeight f (threads i)

section Update
variable [DecidableEq ι] {f : F → Nat} {threads : ι → List F} {i : ι}

/-- One thread changes its stack. -/
theorem weight_update (f : F → Nat) (threads : ι → List F) (i : ι) (stack : List F) :
    weight f (Function.update threads i stack) + stackWeight f (threads i) =
      weight f threads + stackWeight f stack := by
  have hrest : ∀ j ∈ Finset.univ.erase i,
      stackWeight f (Function.update threads i stack j) = stackWeight f (threads j) := by
    intro j hj
    rw [Function.update_of_ne (Finset.ne_of_mem_erase hj)]
  have hmem := Finset.mem_univ i
  rw [weight, weight, ← Finset.add_sum_erase _ _ hmem, ← Finset.add_sum_erase _ _ hmem,
    Finset.sum_congr rfl hrest, Function.update_self]
  omega

/-- The topmost piece of work is replaced by others. -/
theorem weight_replace {a : F} {rest : List F} (h : threads i = a :: rest) (l : List F) :
    weight f (Function.update threads i (l ++ rest)) + f a =
      weight f threads + stackWeight f l := by
  have hupdate := weight_update f threads i (l ++ rest)
  rw [h, stackWeight_cons, stackWeight_append] at hupdate
  omega

/-- Work is put on top of a stack. -/
theorem weight_push (l : List F) :
    weight f (Function.update threads i (l ++ threads i)) =
      weight f threads + stackWeight f l := by
  have hupdate := weight_update f threads i (l ++ threads i)
  rw [stackWeight_append] at hupdate
  omega

omit [Fintype ι] in
/-- What is on the stacks after a replacement is new or was below the top. -/
theorem mem_replace {a : F} {rest l : List F} {j : ι}
    (h : a ∈ Function.update threads i (l ++ rest) j) :
    a ∈ l ∨ a ∈ Function.update threads i rest j := by
  by_cases hj : j = i
  · subst hj
    rw [Function.update_self] at h ⊢
    exact List.mem_append.mp h
  · rw [Function.update_of_ne hj] at h ⊢
    exact .inr h

omit [Fintype ι] in
theorem mem_of_mem_rest {a b : F} {rest : List F} (h : threads i = a :: rest) {j : ι}
    (hb : b ∈ Function.update threads i rest j) : b ∈ threads j := by
  by_cases hj : j = i
  · subst hj
    rw [Function.update_self] at hb
    rw [h]
    exact List.mem_cons_of_mem a hb
  · rwa [Function.update_of_ne hj] at hb

omit [Fintype ι] in
/-- What is on the stacks is the top of one, or stays when that is replaced. -/
theorem mem_or_top {a b : F} {rest : List F} (h : threads i = a :: rest) {j : ι}
    (hb : b ∈ threads j) : b = a ∨ ∀ l, b ∈ Function.update threads i (l ++ rest) j := by
  by_cases hj : j = i
  · subst hj
    rw [h] at hb
    rcases List.mem_cons.mp hb with hb | hb
    · exact .inl hb
    · refine .inr fun l => ?_
      rw [Function.update_self]
      exact List.mem_append_right l hb
  · refine .inr fun l => ?_
    rwa [Function.update_of_ne hj]

end Update

theorem stackWeight_le_weight (f : F → Nat) (threads : ι → List F) (i : ι) :
    stackWeight f (threads i) ≤ weight f threads :=
  Finset.single_le_sum (f := fun i => stackWeight f (threads i)) (fun _ _ => Nat.zero_le _)
    (Finset.mem_univ i)

/-- No piece of work weighs more than all of it. -/
theorem le_weight {f : F → Nat} {threads : ι → List F} {i : ι} {a : F} (h : a ∈ threads i) :
    f a ≤ weight f threads :=
  (List.le_sum_of_mem (List.mem_map_of_mem h)).trans (stackWeight_le_weight f threads i)

theorem weight_empty (f : F → Nat) {threads : ι → List F} (h : ∀ i, threads i = []) :
    weight f threads = 0 := by
  simp [weight, h]

/-- Something that weighs is on a stack. -/
theorem exists_of_weight_pos {f : F → Nat} {threads : ι → List F} (h : 0 < weight f threads) :
    ∃ i, ∃ a ∈ threads i, 0 < f a := by
  by_contra hno
  have hzero : ∀ i, ∀ a ∈ threads i, f a = 0 := by
    intro i a ha
    by_contra hne
    exact hno ⟨i, a, ha, Nat.pos_of_ne_zero hne⟩
  have hsum : weight f threads = 0 := by
    refine Finset.sum_eq_zero fun i _ => ?_
    refine List.sum_eq_zero fun x hx => ?_
    obtain ⟨a, ha, rfl⟩ := List.mem_map.mp hx
    exact hzero i a ha
  omega

theorem weight_mono {f g : F → Nat} (hfg : ∀ a, f a ≤ g a) (threads : ι → List F) :
    weight f threads ≤ weight g threads :=
  Finset.sum_le_sum fun _ _ => List.sum_le_sum fun a _ => hfg a

theorem weight_add (f g : F → Nat) (threads : ι → List F) :
    weight (fun a => f a + g a) threads = weight f threads + weight g threads := by
  simp [weight, stackWeight, List.sum_map_add, Finset.sum_add_distrib]

end WorkStacks
