import AstraScheduler.Threads
import Mathlib.Data.List.Nodup

/-! # Custody of resources

Objects own resources, and end or hand over what they own.  `born` lists the resources that
have come into being, `ended` those that no object owns any more, in the order of their end.
The books are balanced if every resource is in as many places as it has come into being; what
the operations of a program have to keep is this count, one resource at a time.

If nothing came into being twice, nothing is owned by two objects, owned after its end, or
ended twice. -/

namespace Custody
open Threads (sum_set)

variable {α ρ : Type*} [DecidableEq ρ] {owns : α → List ρ} {objects : List α}
  {ended ended' born born' : List ρ} {i j : Nat} {o o' p p' : α} {r : ρ}

/-- How often the objects own `r`. -/
def held (owns : α → List ρ) (objects : List α) (r : ρ) : Nat :=
  (objects.map fun o => (owns o).count r).sum

/-- Everything that came into being is owned or has ended. -/
def Balanced (owns : α → List ρ) (objects : List α) (ended born : List ρ) : Prop :=
  ∀ r, held owns objects r + ended.count r = born.count r

theorem held_append (objects new : List α) (r : ρ) :
    held owns (objects ++ new) r = held owns objects r + held owns new r := by
  rw [held, List.map_append, List.sum_append]
  rfl

theorem held_set (owns : α → List ρ) (ho : objects[i]? = some o) (o' : α) (r : ρ) :
    held owns (objects.set i o') r + (owns o).count r =
      held owns objects r + (owns o').count r :=
  sum_set (fun o => (owns o).count r) ho o'

theorem held_cons (o : α) (objects : List α) (r : ρ) :
    held owns (o :: objects) r = (owns o).count r + held owns objects r :=
  rfl

/-- One object owns its part. -/
theorem count_le_held (owns : α → List ρ) (ho : objects[i]? = some o) (r : ρ) :
    (owns o).count r ≤ held owns objects r := by
  induction objects generalizing i with
  | nil => cases ho
  | cons q objects ih =>
    rw [held_cons]
    cases i with
    | zero =>
      obtain rfl : q = o := Option.some.inj ho
      exact Nat.le_add_right ..
    | succ i => exact Nat.le_add_left_of_le (ih ho)

/-- Two objects own their parts besides each other. -/
theorem count_add_le_held (owns : α → List ρ) (ho : objects[i]? = some o)
    (hp : objects[j]? = some p) (hij : i ≠ j) (r : ρ) :
    (owns o).count r + (owns p).count r ≤ held owns objects r := by
  induction objects generalizing i j with
  | nil => cases ho
  | cons q objects ih =>
    rw [held_cons]
    cases i with
    | zero =>
      cases j with
      | zero => exact absurd rfl hij
      | succ j =>
        obtain rfl : q = o := Option.some.inj ho
        have hp' : objects[j]? = some p := hp
        exact Nat.add_le_add_left (count_le_held owns hp' r) _
    | succ i =>
      cases j with
      | zero =>
        obtain rfl : q = p := Option.some.inj hp
        have ho' : objects[i]? = some o := ho
        rw [Nat.add_comm]
        exact Nat.add_le_add_left (count_le_held owns ho' r) _
      | succ j => exact Nat.le_add_left_of_le (ih ho hp fun h => hij (congrArg _ h))

theorem held_eq_zero (h : ∀ o ∈ objects, owns o = []) (r : ρ) : held owns objects r = 0 := by
  induction objects with
  | nil => rfl
  | cons q objects ih =>
    rw [held_cons, h q (List.mem_cons_self ..), ih fun o ho => h o (List.mem_cons_of_mem _ ho)]
    rfl

/-- What a list of parts owns together. -/
theorem count_flatMap (owns : α → List ρ) (objects : List α) (r : ρ) :
    (objects.flatMap owns).count r = held owns objects r := by
  induction objects with
  | nil => rfl
  | cons q objects ih => rw [List.flatMap_cons, List.count_append, held_cons, ih]

namespace Balanced

/-! ## What the operations of a program do -/

theorem nil : Balanced owns [] [] [] := fun _ => rfl

/-- A new object, and what comes into being with it. -/
theorem construct (h : Balanced owns objects ended born) (o : α) :
    Balanced owns (objects ++ [o]) ended (born ++ owns o) := by
  intro r
  have hr := h r
  have hnew : held owns [o] r = (owns o).count r := by simp [held]
  rw [held_append, hnew, List.count_append]
  omega

/-- An object changes: it may acquire what comes into being, and what it owns no more has
ended. -/
theorem acquire (h : Balanced owns objects ended born) (ho : objects[i]? = some o)
    (hcount : ∀ r, (owns o').count r + ended'.count r + born.count r =
      (owns o).count r + ended.count r + born'.count r) :
    Balanced owns (objects.set i o') ended' born' := by
  intro r
  have hset := held_set owns ho o' r
  have hr := h r
  have hc := hcount r
  omega

/-- An object changes; what it owned and owns no more has ended. -/
theorem replace (h : Balanced owns objects ended born) (ho : objects[i]? = some o)
    (hcount : ∀ r, (owns o').count r + ended'.count r = (owns o).count r + ended.count r) :
    Balanced owns (objects.set i o') ended' born :=
  h.acquire ho fun r => by rw [hcount r]

/-- Two objects change together. -/
theorem exchange (h : Balanced owns objects ended born) (ho : objects[i]? = some o)
    (hp : objects[j]? = some p) (hij : i ≠ j)
    (hcount : ∀ r, (owns o').count r + (owns p').count r + ended'.count r =
      (owns o).count r + (owns p).count r + ended.count r) :
    Balanced owns ((objects.set i o').set j p') ended' born := by
  intro r
  have hp' : (objects.set i o')[j]? = some p := by rw [List.getElem?_set_ne hij, hp]
  have hset := held_set owns ho o' r
  have hset' := held_set owns hp' p' r
  have hr := h r
  have hc := hcount r
  omega

/-- An object changes and another one is constructed. -/
theorem split (h : Balanced owns objects ended born) (ho : objects[i]? = some o)
    (hcount : ∀ r, (owns o').count r + (owns p).count r + ended'.count r =
      (owns o).count r + ended.count r) :
    Balanced owns (objects.set i o' ++ [p]) ended' born := by
  intro r
  have hset := held_set owns ho o' r
  have hnew : held owns [p] r = (owns p).count r := by simp [held]
  have hr := h r
  have hc := hcount r
  rw [held_append, hnew]
  omega

/-! ## What balanced books say -/

theorem le_one (h : Balanced owns objects ended born) (hborn : born.Nodup) (r : ρ) :
    held owns objects r + ended.count r ≤ 1 := by
  rw [h r]
  exact List.nodup_iff_count_le_one.mp hborn r

theorem nodup_owns (h : Balanced owns objects ended born) (hborn : born.Nodup)
    (ho : objects[i]? = some o) : (owns o).Nodup := by
  refine List.nodup_iff_count_le_one.mpr fun r => ?_
  have := h.le_one hborn r
  have := count_le_held owns ho r
  omega

/-- Nothing is owned by two objects. -/
theorem eq_of_mem (h : Balanced owns objects ended born) (hborn : born.Nodup)
    (ho : objects[i]? = some o) (hp : objects[j]? = some p) (hro : r ∈ owns o)
    (hrp : r ∈ owns p) : i = j := by
  by_contra hij
  have := h.le_one hborn r
  have := count_add_le_held owns ho hp hij r
  have := List.count_pos_iff.mpr hro
  have := List.count_pos_iff.mpr hrp
  omega

/-- Nothing is owned after its end. -/
theorem not_mem_ended (h : Balanced owns objects ended born) (hborn : born.Nodup)
    (ho : objects[i]? = some o) (hr : r ∈ owns o) : r ∉ ended := by
  intro hended
  have := h.le_one hborn r
  have := count_le_held owns ho r
  have := List.count_pos_iff.mpr hr
  have := List.count_pos_iff.mpr hended
  omega

/-- Nothing ends twice. -/
theorem nodup_ended (h : Balanced owns objects ended born) (hborn : born.Nodup) :
    ended.Nodup := by
  refine List.nodup_iff_count_le_one.mpr fun r => ?_
  have := h.le_one hborn r
  omega

/-- Nothing ends that never came into being, and nothing of that kind is owned. -/
theorem mem_born (h : Balanced owns objects ended born) (ho : objects[i]? = some o)
    (hr : r ∈ owns o) : r ∈ born := by
  have := h r
  have := count_le_held owns ho r
  have := List.count_pos_iff.mpr hr
  exact List.count_pos_iff.mp (by omega)

theorem mem_born_of_ended (h : Balanced owns objects ended born) (hr : r ∈ ended) : r ∈ born := by
  have := h r
  have := List.count_pos_iff.mpr hr
  exact List.count_pos_iff.mp (by omega)

/-- What has not ended has an owner. -/
theorem exists_owner (h : Balanced owns objects ended born) (hborn : r ∈ born) (hr : r ∉ ended) :
    ∃ (i : Nat) (o : α), objects[i]? = some o ∧ r ∈ owns o := by
  have hcount := h r
  have hpos := List.count_pos_iff.mpr hborn
  rw [List.count_eq_zero.mpr hr, ← count_flatMap] at hcount
  obtain ⟨o, ho, hro⟩ := List.mem_flatMap.mp (List.count_pos_iff.mp (hcount ▸ hpos))
  obtain ⟨i, hi⟩ := List.mem_iff_getElem?.mp ho
  exact ⟨i, o, hi, hro⟩

/-- Once nobody owns anything, everything has ended. -/
theorem ended_perm (h : Balanced owns objects ended born) (hempty : ∀ o ∈ objects, owns o = []) :
    ended.Perm born := by
  refine List.perm_iff_count.mpr fun r => ?_
  have := h r
  rw [held_eq_zero hempty] at this
  omega

end Balanced
end Custody
