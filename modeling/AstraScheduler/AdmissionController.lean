import AstraScheduler.Status

/-! # Admission

`AdmissionController` counts the external work that is pending and lets in no more than
the runtime's capacity.  Work that comes from the runtime's own workers is let in without
being counted.  `pending_` is a `std::size_t`: a sum wraps around, and a release of more
than is pending sets the counter to zero. -/

namespace AstraScheduler

/-- `AdmissionDecision` (scheduler.hpp). -/
inductive AdmissionDecision where
  | success
  | stopping
  | stopped
  | capacityExhausted
  deriving DecidableEq, Repr

/-- `ExternalBackpressure` (scheduler_options.hpp). -/
inductive ExternalBackpressure where
  | reject
  | block
  deriving DecidableEq, Repr

structure AdmissionController where
  capacity : Nat
  backpressure : ExternalBackpressure := .reject
  pending : Nat := 0
  deriving DecidableEq, Repr

namespace AdmissionController

/-- `acquire`, from taking the mutex to the decision; `none` when the caller waits for
`slot_cv_` and will decide again. -/
def acquire (a : AdmissionController) (st : SchedulerStatus) (count : Nat)
    (block isInternal : Bool) : Option (AdmissionDecision × AdmissionController) :=
  if count = 0 then
    if st.state = .stopped then some (.stopped, a)
    else if st.state = .stopping ∧ (¬isInternal ∨ st.shutdownMode ≠ .graceful) then
      some (.stopping, a)
    else some (.success, a)
  else
    match st.state with
    | .stopped => some (.stopped, a)
    | .stopping =>
      if isInternal ∧ st.shutdownMode = .graceful then some (.success, a) else some (.stopping, a)
    | .running =>
      if isInternal then some (.success, a)
      else if a.capacity < count then some (.capacityExhausted, a)
      else if (a.pending + count) % 2 ^ 64 ≤ a.capacity then
        some (.success, { a with pending := (a.pending + count) % 2 ^ 64 })
      else if !block ∨ a.backpressure ≠ .block then some (.capacityExhausted, a)
      else none

/-- `release`. -/
def release (a : AdmissionController) (count : Nat) : AdmissionController :=
  if count = 0 then a
  else { a with pending := if count ≤ a.pending then a.pending - count else 0 }

/-- `release` would set the counter to zero for want of pending units. -/
def clamps (a : AdmissionController) (count : Nat) : Bool := decide (a.pending < count)

variable {a a' : AdmissionController} {st : SchedulerStatus} {count : Nat}
  {block isInternal : Bool} {decision : AdmissionDecision}

/-- The units a call of `acquire` counts. -/
def counted (count : Nat) (isInternal : Bool) : Nat := if isInternal then 0 else count

/-- What a decision does to the counter: it counts all the units or, for internal work
and for a rejection, none. -/
theorem acquire_cases (hpending : a.pending ≤ a.capacity) (hcap : a.capacity < 2 ^ 63)
    (h : a.acquire st count block isInternal = some (decision, a')) :
    a'.capacity = a.capacity ∧ a'.pending ≤ a.capacity ∧
      if decision = .success then a'.pending = a.pending + counted count isInternal
      else a' = a := by
  have hsame : a' = a → counted count isInternal = 0 ∨ decision ≠ .success →
      a'.capacity = a.capacity ∧ a'.pending ≤ a.capacity ∧
        if decision = .success then a'.pending = a.pending + counted count isInternal
        else a' = a := by
    rintro rfl hnone
    refine ⟨rfl, hpending, ?_⟩
    split
    case isTrue hs =>
      have := hnone.resolve_right fun hne => hne hs
      omega
    case isFalse => rfl
  unfold acquire at h
  split at h
  case isTrue hzero =>
    have hnone : counted count isInternal = 0 := by simp [counted, hzero]
    split at h
    · cases h; exact hsame rfl (.inl hnone)
    · split at h <;> cases h <;> exact hsame rfl (.inl hnone)
  case isFalse hzero =>
    cases hstate : st.state <;> simp only [hstate] at h
    case stopped => cases h; exact hsame rfl (.inr nofun)
    case stopping =>
      split at h
      case isTrue hint => cases h; exact hsame rfl (.inl (by simp [counted, hint.1]))
      case isFalse => cases h; exact hsame rfl (.inr nofun)
    case running =>
      split at h
      case isTrue hint => cases h; exact hsame rfl (.inl (by simp [counted, hint]))
      case isFalse hext =>
        split at h
        · cases h; exact hsame rfl (.inr nofun)
        case isFalse hfits =>
          split at h
          case isTrue hroom =>
            cases h
            have hlt : a.pending + count < 2 ^ 64 := by omega
            rw [Nat.mod_eq_of_lt hlt] at hroom ⊢
            exact ⟨rfl, hroom, by simp [counted, hext]⟩
          case isFalse =>
            split at h
            · cases h; exact hsame rfl (.inr nofun)
            · cases h

theorem release_pending (h : count ≤ a.pending) :
    (a.release count).pending = a.pending - count ∧ (a.release count).capacity = a.capacity ∧
      a.clamps count = false := by
  refine ⟨?_, ?_, decide_eq_false (by omega)⟩ <;> unfold release <;> split
  · omega
  · rfl
  · rfl
  · rfl

end AdmissionController
end AstraScheduler
