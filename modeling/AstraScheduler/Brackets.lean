import Mathlib.Data.List.Induction

/-! # Logs of brackets

A log in which some entries open something, some close it again, and others do neither.  What
is open after a log is a stack; a log that closes anything but the top of the stack is not
bracketed. -/

namespace Brackets
variable {ε α : Type*} [DecidableEq α]

inductive Bracket (α : Type*) where
  | opens (a : α)
  | closes (a : α)
  | neutral

/-- What one entry does to the stack of what is open. -/
def push : List α → Bracket α → Option (List α)
  | stack, .opens a => some (a :: stack)
  | a :: stack, .closes b => if a = b then some stack else none
  | [], .closes _ => none
  | stack, .neutral => some stack

/-- What is open after a log. -/
def openAfter (kind : ε → Bracket α) (log : List ε) : Option (List α) :=
  log.foldlM (fun stack e => push stack (kind e)) []

def opensSome (p : α → Bool) : Bracket α → Bool
  | .opens a => p a
  | _ => false

def closesSome (p : α → Bool) : Bracket α → Bool
  | .closes a => p a
  | _ => false

variable {kind : ε → Bracket α} {log : List ε} {e : ε} {a : α} {stack stack' : List α}

theorem openAfter_concat (kind : ε → Bracket α) (log : List ε) (e : ε) :
    openAfter kind (log ++ [e]) = (openAfter kind log).bind fun stack => push stack (kind e) := by
  rw [openAfter, List.foldlM_append, openAfter]
  cases h : List.foldlM (fun stack e => push stack (kind e)) [] log with
  | none => rfl
  | some stack => cases hpush : push stack (kind e) <;> simp [hpush]

theorem openAfter_opens (h : openAfter kind log = some stack) (he : kind e = .opens a) :
    openAfter kind (log ++ [e]) = some (a :: stack) := by
  rw [openAfter_concat, h, Option.bind_some, he]
  rfl

theorem openAfter_closes (h : openAfter kind log = some (a :: stack)) (he : kind e = .closes a) :
    openAfter kind (log ++ [e]) = some stack := by
  rw [openAfter_concat, h, Option.bind_some, he]
  simp [push]

theorem openAfter_neutral (h : openAfter kind log = some stack) (he : kind e = .neutral) :
    openAfter kind (log ++ [e]) = some stack := by
  rw [openAfter_concat, h, Option.bind_some, he]
  cases stack <;> rfl

/-- One entry balances. -/
theorem push_balanced (p : α → Bool) {b : Bracket α} (h : push stack b = some stack') :
    stack.countP p + (if opensSome p b then 1 else 0) =
      stack'.countP p + if closesSome p b then 1 else 0 := by
  cases b with
  | opens a =>
    obtain rfl : a :: stack = stack' := Option.some.inj (by cases stack <;> exact h)
    rw [List.countP_cons]
    rfl
  | closes a =>
    cases stack with
    | nil => cases h
    | cons b stack =>
      simp only [push] at h
      split at h
      case isTrue hba =>
        obtain rfl := Option.some.inj h
        subst hba
        rw [List.countP_cons]
        rfl
      case isFalse => cases h
  | neutral =>
    obtain rfl : stack = stack' := Option.some.inj (by cases stack <;> exact h)
    simp [opensSome, closesSome]

/-- **What has been opened has been closed or is open**, of any kind. -/
theorem opened_eq (p : α → Bool) (h : openAfter kind log = some stack) :
    log.countP (fun e => opensSome p (kind e)) =
      log.countP (fun e => closesSome p (kind e)) + stack.countP p := by
  induction log using List.reverseRecOn generalizing stack with
  | nil =>
    obtain rfl : [] = stack := Option.some.inj h
    rfl
  | append_singleton log e ih =>
    rw [openAfter_concat] at h
    obtain ⟨before, hbefore, hpush⟩ := Option.bind_eq_some_iff.mp h
    have hlog := ih hbefore
    have hentry := push_balanced p hpush
    simp only [List.countP_append, List.countP_singleton]
    omega

end Brackets
