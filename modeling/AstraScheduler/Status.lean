import Mathlib.Algebra.Ring.Nat
import Mathlib.Logic.Function.Basic

/-! # Identities, states and modes

The value types every component shares (`id.hpp`, `status.hpp`, `task_options.hpp`).
Identifiers are 64-bit sequence numbers that are never reused; zero is the invalid
value, which is also what a default-constructed identifier holds. -/

namespace AstraScheduler

/-- `RuntimeId` (id.hpp); `value = 0` is invalid. -/
structure RuntimeId where
  value : Nat := 0
  deriving DecidableEq, Repr

theorem RuntimeId.value_injective : Function.Injective RuntimeId.value := by
  rintro ⟨v⟩ ⟨w⟩ h
  exact congrArg RuntimeId.mk h

/-- `TaskId` (id.hpp): the owning runtime and a sequence number within it. -/
structure TaskId where
  runtimeId : RuntimeId := {}
  sequence : Nat := 0
  deriving DecidableEq, Repr

/-- `TaskId::valid`. -/
def TaskId.valid (t : TaskId) : Bool := t.runtimeId.value != 0 && t.sequence != 0

/-- `Priority` (task_options.hpp), weakest first. -/
inductive Priority where
  | low
  | normal
  | high
  | critical
  deriving DecidableEq, Repr

/-- `static_cast<std::size_t>(priority)`: the index of a queue band. -/
def Priority.band : Priority → Nat
  | .low => 0
  | .normal => 1
  | .high => 2
  | .critical => 3

/-- `SchedulerState` (status.hpp). -/
inductive SchedulerState where
  | running
  | stopping
  | stopped
  deriving DecidableEq, Repr

/-- `ShutdownMode` (status.hpp). -/
inductive ShutdownMode where
  | none
  | graceful
  | immediate
  deriving DecidableEq, Repr

/-- `SchedulerStatus` (status.hpp): the pair the status word packs. -/
structure SchedulerStatus where
  state : SchedulerState := .running
  shutdownMode : ShutdownMode := .none
  deriving DecidableEq, Repr

/-- The value of a `SchedulerState` enumerator. -/
def SchedulerState.code : SchedulerState → UInt16
  | .running => 0
  | .stopping => 1
  | .stopped => 2

/-- The value of a `ShutdownMode` enumerator. -/
def ShutdownMode.code : ShutdownMode → UInt16
  | .none => 0
  | .graceful => 1
  | .immediate => 2

/-- The enumerator with a given value; the code stores no value past the last one. -/
def SchedulerState.ofCode (c : UInt16) : SchedulerState :=
  if c = 0 then .running else if c = 1 then .stopping else .stopped

/-- The enumerator with a given value; the code stores no value past the last one. -/
def ShutdownMode.ofCode (c : UInt16) : ShutdownMode :=
  if c = 0 then .none else if c = 1 then .graceful else .immediate

/-- `RuntimeState::pack`: the state in the high byte, the mode in the low byte. -/
def pack (state : SchedulerState) (mode : ShutdownMode) : UInt16 :=
  (state.code <<< 8) ||| mode.code

/-- `RuntimeState::unpack`. -/
def unpack (value : UInt16) : SchedulerStatus :=
  { state := .ofCode ((value >>> 8) &&& 0xFF)
    shutdownMode := .ofCode (value &&& 0xFF) }

@[simp] theorem unpack_pack (state : SchedulerState) (mode : ShutdownMode) :
    unpack (pack state mode) = ⟨state, mode⟩ := by
  cases state <;> cases mode <;> rfl

/-- The pairs the header of status.hpp lists: Running goes with None, and Stopping
and Stopped with Graceful or Immediate. -/
def SchedulerStatus.legal (s : SchedulerStatus) : Bool :=
  match s.state with
  | .running => s.shutdownMode = .none
  | .stopping | .stopped => s.shutdownMode ≠ .none

/-- Position in the life of a runtime. -/
def SchedulerState.rank : SchedulerState → Nat
  | .running => 0
  | .stopping => 1
  | .stopped => 2

theorem SchedulerState.rank_le_stopped (s : SchedulerState) :
    s.rank ≤ SchedulerState.stopped.rank := by
  cases s <;> decide

/-- Escalation order of the modes. -/
def ShutdownMode.rank : ShutdownMode → Nat
  | .none => 0
  | .graceful => 1
  | .immediate => 2

theorem ShutdownMode.eq_of_rank {m m' : ShutdownMode} (h : m.rank = m'.rank) : m = m' := by
  cases m <;> cases m' <;> first | rfl | cases h

/-- `s` may be followed by `t`: the lifecycle does not go back, and neither does the
shutdown mode. -/
def SchedulerStatus.le (s t : SchedulerStatus) : Prop :=
  s.state.rank ≤ t.state.rank ∧ s.shutdownMode.rank ≤ t.shutdownMode.rank

instance (s t : SchedulerStatus) : Decidable (s.le t) :=
  inferInstanceAs (Decidable (_ ∧ _))

theorem SchedulerStatus.le_refl (s : SchedulerStatus) : s.le s :=
  ⟨Nat.le_refl _, Nat.le_refl _⟩

theorem SchedulerStatus.le_trans {s t u : SchedulerStatus} (h : s.le t) (h' : t.le u) : s.le u :=
  ⟨Nat.le_trans h.1 h'.1, Nat.le_trans h.2 h'.2⟩

/-- A legal word that is not Running and None has left Running and has a mode. -/
theorem SchedulerStatus.mode_of_legal {s : SchedulerStatus} (h : s.legal)
    (hs : s.state ≠ .running) : s.shutdownMode ≠ .none := by
  rcases s with ⟨_ | _ | _, mode⟩
  · exact absurd rfl hs
  · simpa [SchedulerStatus.legal] using h
  · simpa [SchedulerStatus.legal] using h

theorem SchedulerStatus.eq_of_running {s : SchedulerStatus} (h : s.legal)
    (hs : s.state = .running) : s = ⟨.running, .none⟩ := by
  rcases s with ⟨_ | _ | _, mode⟩
  · simpa [SchedulerStatus.legal] using h
  · cases hs
  · cases hs

/-- `TaskState` (status.hpp). -/
inductive TaskState where
  | waiting
  | ready
  | running
  | suspended
  | succeeded
  | failed
  | cancelled
  deriving DecidableEq, Repr

/-- The irreversible states: succeeded, failed and cancelled. -/
def TaskState.terminal : TaskState → Bool
  | .succeeded | .failed | .cancelled => true
  | .waiting | .ready | .running | .suspended => false

end AstraScheduler
