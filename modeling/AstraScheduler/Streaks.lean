import Mathlib.Data.List.Basic
import Mathlib.Data.List.Induction

/-! # Streaks in a record

Some events of a record count and some break a streak of them.  A component that keeps its
streaks below a limit breaks off in every segment in which more events count. -/

namespace Streaks

variable {ε : Type*} {counts breaks : ε → Bool} {record segment : List ε} {limit : Nat}

/-- The streak after one more event. -/
def extend (counts breaks : ε → Bool) (streak : Nat) (e : ε) : Nat :=
  if breaks e then 0 else if counts e then streak + 1 else streak

/-- How many events count since the last break. -/
def streak (counts breaks : ε → Bool) (record : List ε) : Nat :=
  record.foldl (extend counts breaks) 0

@[simp] theorem streak_concat (record : List ε) (e : ε) :
    streak counts breaks (record ++ [e]) = extend counts breaks (streak counts breaks record) e :=
  List.foldl_concat ..

/-- A segment without break is part of the streak it ends in. -/
theorem countP_le_streak (record : List ε) (hunbroken : ∀ e ∈ segment, breaks e = false) :
    segment.countP counts ≤ streak counts breaks (record ++ segment) := by
  induction segment using List.reverseRecOn with
  | nil => exact Nat.zero_le _
  | append_singleton segment e ih =>
    have hbefore := ih fun e' he' => hunbroken e' (List.mem_append_left _ he')
    have hlast : breaks e = false := hunbroken e (List.mem_append_right _ List.mem_cons_self)
    rw [← List.append_assoc, streak_concat, List.countP_append, List.countP_singleton, extend, hlast]
    by_cases he : counts e
    · simpa [he] using hbefore
    · simpa [he] using hbefore

/-- At no time was there a longer streak. -/
def Bounded (counts breaks : ε → Bool) (limit : Nat) (record : List ε) : Prop :=
  ∀ front, front <+: record → streak counts breaks front ≤ limit

theorem Bounded.nil : Bounded counts breaks limit [] := by
  intro front hfront
  rw [List.prefix_nil.mp hfront]
  exact Nat.zero_le _

theorem Bounded.concat {e : ε} (h : Bounded counts breaks limit record)
    (he : streak counts breaks (record ++ [e]) ≤ limit) :
    Bounded counts breaks limit (record ++ [e]) := by
  intro front hfront
  rcases List.prefix_concat_iff.mp hfront with rfl | hfront
  · exact he
  · exact h front hfront

/-- Where more events count than a streak may have, one of the segment breaks it. -/
theorem Bounded.exists_break {before after : List ε}
    (h : Bounded counts breaks limit (before ++ segment ++ after))
    (hmany : limit < segment.countP counts) : ∃ e ∈ segment, breaks e := by
  by_contra hnone
  have hunbroken : ∀ e ∈ segment, breaks e = false := by
    intro e he
    exact eq_false_of_ne_true fun hbreak => hnone ⟨e, he, hbreak⟩
  have hle : segment.countP counts ≤ streak counts breaks (before ++ segment) :=
    countP_le_streak before hunbroken
  have hbound := h (before ++ segment) (List.prefix_append _ _)
  omega

end Streaks
