import Mathlib.Algebra.BigOperators.Group.List.Basic
import Mathlib.Algebra.Ring.Nat
import Mathlib.Data.List.Nodup
import Mathlib.Logic.Function.Basic

/-! # Merging under one flag

Many values are added up at once, and all the additions share a flag that each of them may
raise.  A flag that is down in the end was never raised, so each addition was one that keeps
it down; what such an addition does (`R`) is therefore known of every value of the merge. -/

namespace FlaggedMerge
variable {κ V : Type*}

/-- An addition of the second value to the first, and what it makes of the flag. -/
abbrev Addition (V : Type*) := V × Bool → V → V × Bool

/-- An addition that leaves the flag down found it down, and relates its operands to its
result. -/
def Unflagged (add : Addition V) (R : V → V → V → Prop) : Prop :=
  ∀ dst src, (add dst src).2 = false → dst.2 = false ∧ R dst.1 src (add dst src).1

/-! ## Key by key -/

section Keys
variable [DecidableEq κ] (add : Addition V)

/-- The value at one key is added to that at the same key. -/
def mergeAt (src : κ → V) (dst : (κ → V) × Bool) (k : κ) : (κ → V) × Bool :=
  let sum := add (dst.1 k, dst.2) (src k)
  (Function.update dst.1 k sum.1, sum.2)

def mergeKeys (keys : List κ) : Addition (κ → V) := fun dst src =>
  keys.foldl (mergeAt add src) dst

variable {add} {R : V → V → V → Prop}

theorem Unflagged.mergeKeys_rest (h : Unflagged add R) {keys : List κ} (hkeys : keys.Nodup)
    (dst : (κ → V) × Bool) (src : κ → V) (hflag : (mergeKeys add keys dst src).2 = false) :
    dst.2 = false ∧ (∀ k ∈ keys, R (dst.1 k) (src k) ((mergeKeys add keys dst src).1 k)) ∧
      ∀ k ∉ keys, (mergeKeys add keys dst src).1 k = dst.1 k := by
  induction keys generalizing dst with
  | nil => exact ⟨hflag, fun _ hk => absurd hk List.not_mem_nil, fun _ _ => rfl⟩
  | cons k keys ih =>
    obtain ⟨hnew, hkeys⟩ := List.nodup_cons.mp hkeys
    obtain ⟨hmid, hin, hout⟩ := ih hkeys (mergeAt add src dst k) hflag
    obtain ⟨hdst, hadd⟩ := h (dst.1 k, dst.2) (src k) hmid
    have hother : ∀ {l}, l ≠ k → (mergeAt add src dst k).1 l = dst.1 l := by
      intro l hl
      exact Function.update_of_ne hl _ _
    refine ⟨hdst, ?_, ?_⟩
    · intro l hl
      rcases List.mem_cons.mp hl with rfl | hl
      · have hsame := (hout l hnew).trans (Function.update_self ..)
        change R _ _ ((mergeKeys add keys (mergeAt add src dst l) src).1 l)
        rw [hsame]
        exact hadd
      · have hne : l ≠ k := fun heq => hnew (heq ▸ hl)
        have hmerged := hin l hl
        rwa [hother hne] at hmerged
    · intro l hl
      rw [List.mem_cons, not_or] at hl
      obtain ⟨hne, hl⟩ := hl
      exact (hout l hl).trans (hother hne)

/-- A merge of all keys is an addition of its own. -/
theorem Unflagged.mergeKeys (h : Unflagged add R) {keys : List κ} (hkeys : keys.Nodup) :
    Unflagged (mergeKeys add keys) fun a b c => ∀ k ∈ keys, R (a k) (b k) (c k) := by
  intro dst src hflag
  obtain ⟨hdst, hin, -⟩ := h.mergeKeys_rest hkeys dst src hflag
  exact ⟨hdst, hin⟩

end Keys

/-! ## Source by source -/

/-- An exact addition below a bound that the operand may not reach. -/
structure Exact (bound a b c : Nat) : Prop where
  operand : b ≠ bound
  sum : c = a + b
  le : a ≤ bound → c ≤ bound

section Sources
variable {add : Addition V} {R : V → V → V → Prop}

theorem Unflagged.foldl_flag (h : Unflagged add R) (srcs : List V) (dst : V × Bool)
    (hflag : (srcs.foldl add dst).2 = false) : dst.2 = false := by
  induction srcs generalizing dst with
  | nil => exact hflag
  | cons src srcs ih => exact (h dst src (ih _ hflag)).1

/-- A part of the value that every addition adds up exactly is the sum of those parts of the
sources. -/
theorem Unflagged.foldl_sum (h : Unflagged add R) {bound : Nat} (part : V → Nat)
    (hR : ∀ {a b c}, R a b c → Exact bound (part a) (part b) (part c)) (srcs : List V)
    (dst : V × Bool) (hdst : part dst.1 ≤ bound) (hflag : (srcs.foldl add dst).2 = false) :
    (∀ src ∈ srcs, part src ≠ bound) ∧
      part (srcs.foldl add dst).1 = part dst.1 + (srcs.map part).sum ∧
      part (srcs.foldl add dst).1 ≤ bound := by
  induction srcs generalizing dst with
  | nil => exact ⟨fun _ hmem => absurd hmem List.not_mem_nil, rfl, hdst⟩
  | cons src srcs ih =>
    have hadd := hR (h dst src (h.foldl_flag srcs _ hflag)).2
    obtain ⟨hne, hsum, hle⟩ := ih (add dst src) (hadd.le hdst) hflag
    refine ⟨List.forall_mem_cons.mpr ⟨hadd.operand, hne⟩, ?_, hle⟩
    rw [List.foldl_cons, hsum, hadd.sum, List.map_cons, List.sum_cons, Nat.add_assoc]

/-- A part of which every addition keeps the larger one is the largest of all. -/
theorem Unflagged.foldl_max (h : Unflagged add R) (part : V → Nat)
    (hR : ∀ {a b c}, R a b c → part c = max (part a) (part b)) (srcs : List V)
    (dst : V × Bool) (hflag : (srcs.foldl add dst).2 = false) :
    part (srcs.foldl add dst).1 = (srcs.map part).foldl max (part dst.1) := by
  induction srcs generalizing dst with
  | nil => rfl
  | cons src srcs ih =>
    have hadd := hR (h dst src (h.foldl_flag srcs _ hflag)).2
    rw [List.foldl_cons, ih _ hflag, hadd, List.map_cons, List.foldl_cons]

end Sources

end FlaggedMerge
