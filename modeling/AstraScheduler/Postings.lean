import Mathlib.Algebra.BigOperators.Group.Finset.Basic
import Mathlib.Algebra.Order.BigOperators.Group.Finset
import Mathlib.Algebra.Order.Group.Int

/-! # Books that many hands post to

Finitely many accounts are kept in one set of books.  When something happens to an account,
what it comes to is posted item by item, and other hands may post in between; the account
carries the postings that are still to be made.  For every item the books then hold the sum
of what the accounts have posted, and an account that has posted a positive amount keeps the
books positive. -/

namespace Postings
variable {ι κ : Type*} [DecidableEq κ]

/-- One entry to be made: an amount for an item. -/
structure Posting (κ : Type*) where
  item : κ
  amount : Int
  deriving DecidableEq

/-- What the postings of a list come to for an item. -/
def outstanding : List (Posting κ) → κ → Int
  | [], _ => 0
  | p :: left, k => (if p.item = k then p.amount else 0) + outstanding left k

@[simp] theorem outstanding_nil (k : κ) : outstanding [] k = 0 := rfl

theorem outstanding_cons (p : Posting κ) (left : List (Posting κ)) (k : κ) :
    outstanding (p :: left) k = outstanding [p] k + outstanding left k := by
  simp [outstanding]

/-- Postings for other items come to nothing. -/
theorem outstanding_of_ne {left : List (Posting κ)} {k : κ} (h : ∀ p ∈ left, p.item ≠ k) :
    outstanding left k = 0 := by
  induction left with
  | nil => rfl
  | cons p left ih =>
    rw [outstanding, if_neg (h p (List.mem_cons_self ..)),
      ih fun q hq => h q (List.mem_cons_of_mem _ hq), Int.add_zero]

/-- An account: what it is due, and what of that is still to be posted. -/
structure Account (κ : Type*) where
  due : κ → Int
  left : List (Posting κ) := []

namespace Account

/-- What the account has posted. -/
def posted (a : Account κ) (k : κ) : Int := a.due k - outstanding a.left k

/-- One posting is made. -/
theorem posted_post (a : Account κ) (p : Posting κ) (left : List (Posting κ)) (k : κ)
    (h : a.left = p :: left) :
    ({ a with left := left } : Account κ).posted k = a.posted k + outstanding [p] k := by
  have hleft : outstanding a.left k = outstanding [p] k + outstanding left k := by
    rw [h, outstanding_cons]
  show a.due k - outstanding left k = a.due k - outstanding a.left k + outstanding [p] k
  omega

end Account

/-! ## The books -/

/-- The books hold for item `k` what the accounts have posted. -/
def Balanced (accounts : Finset ι) (account : ι → Account κ) (books : κ → Int) (k : κ) : Prop :=
  books k = ∑ i ∈ accounts, (account i).posted k

namespace Balanced
variable {accounts : Finset ι} {account account' : ι → Account κ} {books books' : κ → Int} {k : κ}

/-- No account has posted anything. -/
theorem of_eq (h : Balanced accounts account books k) (hbooks : books' k = books k)
    (hsame : ∀ i ∈ accounts, (account' i).posted k = (account i).posted k) :
    Balanced accounts account' books' k := by
  rw [Balanced, hbooks, Finset.sum_congr rfl hsame]
  exact h

/-- One account posts, and the books take it down. -/
theorem of_post [DecidableEq ι] (h : Balanced accounts account books k) {i : ι} (hi : i ∈ accounts)
    {amount : Int} (hbooks : books' k = books k + amount)
    (hpost : (account' i).posted k = (account i).posted k + amount)
    (hsame : ∀ j ∈ accounts, j ≠ i → (account' j).posted k = (account j).posted k) :
    Balanced accounts account' books' k := by
  have hrest : ∑ j ∈ accounts.erase i, (account' j).posted k =
      ∑ j ∈ accounts.erase i, (account j).posted k :=
    Finset.sum_congr rfl fun j hj =>
      hsame j (Finset.mem_of_mem_erase hj) (Finset.ne_of_mem_erase hj)
  rw [Balanced, ← Finset.add_sum_erase _ _ hi] at h ⊢
  rw [hbooks, h, hpost, hrest]
  omega

/-- An account opens. -/
theorem of_open [DecidableEq ι] (h : Balanced accounts account books k) {i : ι}
    (hi : i ∉ accounts) (hbooks : books' k = books k) (hnew : (account' i).posted k = 0)
    (hsame : ∀ j ∈ accounts, (account' j).posted k = (account j).posted k) :
    Balanced (insert i accounts) account' books' k := by
  rw [Balanced, Finset.sum_insert hi, hnew, hbooks, Finset.sum_congr rfl hsame, Int.zero_add]
  exact h

/-- No account has posted less than nothing: none has posted more than all. -/
theorem posted_le (h : Balanced accounts account books k)
    (hnonneg : ∀ j ∈ accounts, 0 ≤ (account j).posted k) {i : ι} (hi : i ∈ accounts) :
    (account i).posted k ≤ books k := by
  rw [h]
  exact Finset.single_le_sum (f := fun i => (account i).posted k) hnonneg hi

/-- Empty books, and accounts that have posted nothing at all. -/
theorem of_zero (hbooks : books k = 0) (hnone : ∀ i ∈ accounts, (account i).posted k = 0) :
    Balanced accounts account books k := by
  rw [Balanced, hbooks, Finset.sum_eq_zero hnone]

end Balanced

end Postings
