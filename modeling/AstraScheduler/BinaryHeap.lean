import Mathlib.Data.List.Perm.Basic

/-! # Binary heaps in a list

The children of position `i` are `2 * i + 1` and `2 * i + 2`, and the first element is
one that none comes before.  `before a b` says that `a` leaves the heap ahead of `b`.
Every operation rearranges: what it returns is a permutation of what it was given. -/

namespace BinaryHeap
variable {α : Type*} (before : α → α → Bool)

/-- Moves the element at `i` up while it comes before its parent. -/
def siftUp : Nat → List α → Nat → List α
  | 0, xs, _ => xs
  | fuel + 1, xs, i =>
    match xs[i]?, xs[(i - 1) / 2]? with
    | some child, some parent =>
      if 0 < i ∧ before child parent then siftUp fuel (xs.swap i ((i - 1) / 2)) ((i - 1) / 2)
      else xs
    | _, _ => xs

/-- The child of `i` that leaves first, if there is a child. -/
def firstChild (xs : List α) (i : Nat) : Option (Nat × α) :=
  match xs[2 * i + 1]?, xs[2 * i + 2]? with
  | some left, some right =>
    if before right left then some (2 * i + 2, right) else some (2 * i + 1, left)
  | some left, none => some (2 * i + 1, left)
  | none, _ => none

/-- Moves the element at `i` down while one of its children comes before it. -/
def siftDown : Nat → List α → Nat → List α
  | 0, xs, _ => xs
  | fuel + 1, xs, i =>
    match xs[i]?, firstChild before xs i with
    | some parent, some (j, child) =>
      if before child parent then siftDown fuel (xs.swap i j) j else xs
    | _, _ => xs

/-- `std::push_heap`: the last element joins the heap in front of it. -/
def pushHeap (xs : List α) : List α := siftUp before xs.length xs (xs.length - 1)

/-- `std::pop_heap`: the first element goes to the end, the others form a heap. -/
def popHeap (xs : List α) : List α :=
  let last := xs.length - 1
  let swapped := xs.swap 0 last
  siftDown before last (swapped.take last) 0 ++ swapped.drop last

/-- `std::make_heap`. -/
def makeHeap (xs : List α) : List α :=
  (List.range (xs.length / 2)).foldr (fun i ys => siftDown before xs.length ys i) xs

theorem siftUp_perm (fuel : Nat) (xs : List α) (i : Nat) :
    (siftUp before fuel xs i).Perm xs := by
  induction fuel generalizing xs i with
  | zero => exact .refl _
  | succ fuel ih =>
    unfold siftUp
    split
    · split
      · exact (ih _ _).trans (List.swap_perm ..)
      · exact .refl _
    · exact .refl _

theorem siftDown_perm (fuel : Nat) (xs : List α) (i : Nat) :
    (siftDown before fuel xs i).Perm xs := by
  induction fuel generalizing xs i with
  | zero => exact .refl _
  | succ fuel ih =>
    unfold siftDown
    split
    · split
      · exact (ih _ _).trans (List.swap_perm ..)
      · exact .refl _
    · exact .refl _

theorem pushHeap_perm (xs : List α) : (pushHeap before xs).Perm xs :=
  siftUp_perm before ..

theorem popHeap_perm (xs : List α) : (popHeap before xs).Perm xs := by
  have hsift := siftDown_perm before (xs.length - 1)
    ((xs.swap 0 (xs.length - 1)).take (xs.length - 1)) 0
  refine (hsift.append_right _).trans ?_
  rw [List.take_append_drop]
  exact List.swap_perm ..

theorem makeHeap_perm (xs : List α) : (makeHeap before xs).Perm xs := by
  unfold makeHeap
  generalize List.range (xs.length / 2) = is
  induction is with
  | nil => exact .refl _
  | cons i is ih => exact (siftDown_perm before ..).trans ih

end BinaryHeap
