import Mathlib.Algebra.Order.Ring.Int
import Mathlib.Tactic.Common

/-! # Computing a deadline

`steady_clock` counts nanoseconds in a signed 64-bit integer, and so do the durations of
`<chrono>`, each in its own unit.  Five functions turn a duration into a deadline: they convert
it to nanoseconds, compare it with what the clock can still represent or do not, and add it to
`now()`.  A signed overflow has no value: `none` is the outcome of a computation with one.  A
call that computes no deadline ends in `some none`. -/

namespace AstraScheduler
namespace DeadlineArithmetic

/-- The values of a signed 64-bit integer. -/
def Representable (x : Int) : Prop := -2 ^ 63 ≤ x ∧ x < 2 ^ 63

instance decidableRepresentable (x : Int) : Decidable (Representable x) :=
  inferInstanceAs (Decidable (_ ∧ _))

/-- A signed 64-bit operation with this exact result. -/
def checked (x : Int) : Option Int := if Representable x then some x else none

/-- `time_point::min()` and `time_point::max()`. -/
def timePointMin : Int := -2 ^ 63

def timePointMax : Int := 2 ^ 63 - 1

/-- The units of `<chrono>`; each count is a signed 64-bit integer. -/
inductive ChronoUnit where
  | nanoseconds
  | microseconds
  | milliseconds
  | seconds
  | minutes
  | hours
  | days
  | weeks
  | months
  | years
  deriving DecidableEq, Repr

/-- The period of a unit in nanoseconds. -/
def ChronoUnit.period : ChronoUnit → Int
  | .nanoseconds => 1
  | .microseconds => 1000
  | .milliseconds => 1000000
  | .seconds => 1000000000
  | .minutes => 60 * 1000000000
  | .hours => 3600 * 1000000000
  | .days => 86400 * 1000000000
  | .weeks => 604800 * 1000000000
  | .months => 2629746 * 1000000000
  | .years => 31556952 * 1000000000

/-- A duration argument. -/
structure Duration where
  unit : ChronoUnit
  count : Int64

/-- Its exact length in nanoseconds. -/
def Duration.exact (d : Duration) : Int := d.count.toInt * d.unit.period

/-- `duration_cast<nanoseconds>`, also in the implicit conversion of a sum's operand. -/
def durationCast (d : Duration) : Option Int := checked (d.count.toInt * d.unit.period)

/-! ## The five functions -/

/-- `TaskHandle::wait_for`. -/
def taskHandleWaitFor (now : Int64) (duration : Duration) : Option (Option Int) :=
  if duration.count.toInt ≤ 0 then some none
  else do
    let added ← durationCast duration
    let deadline ← checked (now.toInt + added)
    return some deadline

/-- A wait on a condition variable with a timeout in nanoseconds; `waits` when the call has not
returned before it looks at the timeout. -/
def nanosecondsWaitFor (waits : Bool) (now : Int64) (timeout : Int) : Option (Option Int) :=
  if !waits ∨ timeout ≤ 0 then some none
  else do
    let deadline ← checked (now.toInt + timeout)
    return some deadline

/-- `GraphRun::wait_for`; a run that has ended is not waited for. -/
def graphRunWaitFor (running : Bool) (now : Int64) (timeout : Duration) : Option (Option Int) := do
  let timeoutNs ← durationCast timeout
  nanosecondsWaitFor running now timeoutNs

/-- `FinalizationControl::wait_for` and `ReaperRegistry::wait_finalization_for`, which returns
at once when the finalization is over or has no coordinator to wait for. -/
def waitFinalizationFor (pending : Bool) (now : Int64) (timeout : Duration) :
    Option (Option Int) := do
  let timeoutNs ← durationCast timeout
  nanosecondsWaitFor pending now timeoutNs

/-- `sleep_for`. -/
def sleepFor (now : Int64) (d : Duration) : Option (Option Int) :=
  if d.count.toInt ≤ 0 then do
    let added ← durationCast d
    let wakeTime ← checked (now.toInt + added)
    return some wakeTime
  else do
    let maxDur ← checked (timePointMax - now.toInt)
    let dNs ← durationCast d
    if maxDur < dNs then return some timePointMax
    let wakeTime ← checked (now.toInt + dNs)
    return some wakeTime

/-- `TaskDeadline::after`. -/
def taskDeadlineAfter (now : Int64) (dur : Duration) : Option (Option Int) := do
  let reqDur ← durationCast dur
  if 0 ≤ reqDur then
    let maxAdd ← checked (timePointMax - now.toInt)
    if maxAdd < reqDur then return some timePointMax
  else
    let earliest ← checked (timePointMin - reqDur)
    if now.toInt < earliest then return some timePointMin
  let target ← checked (now.toInt + reqDur)
  return some target

/-- One of their calls. -/
inductive DeadlineCall where
  | taskHandleWaitFor
  | graphRunWaitFor (running : Bool)
  | waitFinalizationFor (pending : Bool)
  | sleepFor
  | taskDeadlineAfter

def DeadlineCall.computed (now : Int64) (d : Duration) : DeadlineCall → Option (Option Int)
  | .taskHandleWaitFor => DeadlineArithmetic.taskHandleWaitFor now d
  | .graphRunWaitFor running => DeadlineArithmetic.graphRunWaitFor running now d
  | .waitFinalizationFor pending => DeadlineArithmetic.waitFinalizationFor pending now d
  | .sleepFor => DeadlineArithmetic.sleepFor now d
  | .taskDeadlineAfter => DeadlineArithmetic.taskDeadlineAfter now d

/-! ## What they are to compute -/

/-- The nearest value the clock can represent. -/
def clamp (x : Int) : Int := max timePointMin (min timePointMax x)

/-- No overflow, and a deadline is the exact sum as far as the clock can represent it. -/
def Exact (now : Int64) (d : Duration) (computed : Option (Option Int)) : Prop :=
  ∃ deadline, computed = some deadline ∧ ∀ t, deadline = some t → t = clamp (now.toInt + d.exact)

/-- When a call computes its deadline without an overflow. -/
def WithinBounds (now : Int64) (d : Duration) : DeadlineCall → Prop
  | .taskHandleWaitFor => 0 < d.count.toInt →
    Representable d.exact ∧ now.toInt + d.exact ≤ timePointMax
  | .graphRunWaitFor waits | .waitFinalizationFor waits =>
    Representable d.exact ∧ (waits → 0 < d.count.toInt → now.toInt + d.exact ≤ timePointMax)
  | .sleepFor => Representable d.exact ∧
    if d.count.toInt ≤ 0 then timePointMin ≤ now.toInt + d.exact else 0 ≤ now.toInt
  | .taskDeadlineAfter => Representable d.exact ∧ (0 ≤ d.count.toInt → 0 ≤ now.toInt)

theorem period_pos (u : ChronoUnit) : 0 < u.period := by
  cases u <;> decide

theorem exact_pos (d : Duration) : 0 < d.exact ↔ 0 < d.count.toInt :=
  mul_pos_iff_of_pos_right (period_pos d.unit)

theorem exact_nonneg (d : Duration) : 0 ≤ d.exact ↔ 0 ≤ d.count.toInt :=
  mul_nonneg_iff_of_pos_right (period_pos d.unit)

theorem representable_toInt (n : Int64) : Representable n.toInt := ⟨n.le_toInt, n.toInt_lt⟩

section Sites
variable {now : Int64} {d : Duration}

@[simp] theorem not_exact_none : ¬ Exact now d none := fun ⟨_, h, _⟩ => by cases h

@[simp] theorem exact_noDeadline : Exact now d (some none) :=
  ⟨none, rfl, fun _ h => by cases h⟩

@[simp] theorem exact_deadline {t : Int} :
    Exact now d (some (some t)) ↔ t = clamp (now.toInt + d.exact) := by
  refine ⟨fun ⟨_, h, ht⟩ => ?_, fun h => ⟨_, rfl, fun _ hs => (Option.some.inj hs) ▸ h⟩⟩
  obtain rfl := Option.some.inj h
  exact ht t rfl

theorem durationCast_eq : durationCast d = if Representable d.exact then some d.exact else none :=
  rfl

/-- A sum within the range of the clock is exact. -/
theorem clamp_of_representable {x : Int} (h : Representable x) : clamp x = x := by
  unfold clamp timePointMin timePointMax Representable at *
  omega

theorem exact_checked {x : Int} (hx : x = now.toInt + d.exact) :
    Exact now d ((checked x).bind fun deadline => some (some deadline)) ↔ Representable x := by
  unfold checked
  by_cases h : Representable x
  · rw [if_pos h, Option.bind_some, exact_deadline, ← hx, clamp_of_representable h]
    exact iff_of_true rfl h
  · rw [if_neg h, Option.bind_none]
    exact iff_of_false not_exact_none h

/-- A sum that is not compared with anything before. -/
theorem exact_sum (h : 0 < d.exact) :
    Exact now d ((checked (now.toInt + d.exact)).bind fun deadline => some (some deadline)) ↔
      now.toInt + d.exact ≤ timePointMax := by
  have hn := representable_toInt now
  rw [exact_checked rfl]
  unfold Representable timePointMax at *
  omega

theorem exact_nanosecondsWaitFor (waits : Bool) :
    Exact now d ((durationCast d).bind fun timeout => nanosecondsWaitFor waits now timeout) ↔
      Representable d.exact ∧
        (waits → 0 < d.count.toInt → now.toInt + d.exact ≤ timePointMax) := by
  rw [durationCast_eq, ← exact_pos]
  by_cases hd : Representable d.exact
  · rw [if_pos hd, Option.bind_some, and_iff_right hd]
    unfold nanosecondsWaitFor
    by_cases hwaits : !waits ∨ d.exact ≤ 0
    · rw [if_pos hwaits]
      refine iff_of_true exact_noDeadline fun hw hpos => ?_
      rcases hwaits with hnot | hle
      · simp [hw] at hnot
      · omega
    · rw [if_neg hwaits]
      rw [not_or, Int.not_le] at hwaits
      have hw : waits = true := by simpa using hwaits.1
      refine (exact_sum hwaits.2).trans ⟨fun h _ _ => h, fun h => h hw hwaits.2⟩
  · rw [if_neg hd, Option.bind_none]
    exact iff_of_false not_exact_none fun h => hd h.1

theorem exact_taskHandleWaitFor :
    Exact now d (taskHandleWaitFor now d) ↔ WithinBounds now d .taskHandleWaitFor := by
  unfold taskHandleWaitFor WithinBounds
  by_cases hcount : d.count.toInt ≤ 0
  · rw [if_pos hcount]
    exact iff_of_true exact_noDeadline fun hpos => absurd hpos (Int.not_lt.mpr hcount)
  · have hpos := (exact_pos d).mpr (Int.not_le.mp hcount)
    rw [if_neg hcount, durationCast_eq]
    by_cases hd : Representable d.exact
    · rw [if_pos hd]
      exact (exact_sum hpos).trans ⟨fun h _ => ⟨hd, h⟩, fun h => (h (Int.not_le.mp hcount)).2⟩
    · rw [if_neg hd]
      exact iff_of_false not_exact_none fun h => hd (h (Int.not_le.mp hcount)).1

/-- A sum that is compared with what the clock has left. -/
theorem exact_clamped (h : 0 ≤ d.exact) :
    Exact now d ((checked (timePointMax - now.toInt)).bind fun maxAdd =>
        if maxAdd < d.exact then some (some timePointMax)
        else (checked (now.toInt + d.exact)).bind fun deadline => some (some deadline)) ↔
      0 ≤ now.toInt := by
  have hn := representable_toInt now
  by_cases hnow : 0 ≤ now.toInt
  · have hmax : Representable (timePointMax - now.toInt) := by
      unfold Representable timePointMax at *
      omega
    refine iff_of_true ?_ hnow
    rw [checked, if_pos hmax, Option.bind_some]
    by_cases hlt : timePointMax - now.toInt < d.exact
    · rw [if_pos hlt, exact_deadline]
      unfold clamp timePointMin timePointMax at *
      omega
    · rw [if_neg hlt, exact_checked rfl]
      unfold Representable timePointMax at *
      omega
  · have hmax : ¬ Representable (timePointMax - now.toInt) := by
      unfold Representable timePointMax at *
      omega
    rw [checked, if_neg hmax]
    exact iff_of_false not_exact_none hnow

theorem exact_sleepFor : Exact now d (sleepFor now d) ↔ WithinBounds now d .sleepFor := by
  have hn := representable_toInt now
  show _ ↔ Representable d.exact ∧
    if d.count.toInt ≤ 0 then timePointMin ≤ now.toInt + d.exact else 0 ≤ now.toInt
  unfold sleepFor
  rw [durationCast_eq]
  by_cases hd : Representable d.exact
  case neg =>
    refine iff_of_false ?_ fun h => hd h.1
    rw [if_neg hd]
    split
    · exact not_exact_none
    · cases checked (timePointMax - now.toInt) <;> exact not_exact_none
  rw [if_pos hd, and_iff_right hd]
  by_cases hcount : d.count.toInt ≤ 0
  · have hneg : d.exact ≤ 0 := Int.not_lt.mp ((exact_pos d).not.mpr (Int.not_lt.mpr hcount))
    rw [if_pos hcount, if_pos hcount]
    refine (exact_checked rfl).trans ?_
    unfold Representable timePointMin at *
    omega
  · have hpos := (exact_pos d).mpr (Int.not_le.mp hcount)
    rw [if_neg hcount, if_neg hcount]
    exact exact_clamped (Int.le_of_lt hpos)

theorem exact_taskDeadlineAfter :
    Exact now d (taskDeadlineAfter now d) ↔ WithinBounds now d .taskDeadlineAfter := by
  have hn := representable_toInt now
  show _ ↔ Representable d.exact ∧ (0 ≤ d.count.toInt → 0 ≤ now.toInt)
  unfold taskDeadlineAfter
  rw [durationCast_eq, ← exact_nonneg]
  by_cases hd : Representable d.exact
  case neg =>
    rw [if_neg hd]
    exact iff_of_false not_exact_none fun h => hd h.1
  rw [if_pos hd, and_iff_right hd]
  show Exact now d (if 0 ≤ d.exact then
      (checked (timePointMax - now.toInt)).bind fun maxAdd =>
        if maxAdd < d.exact then some (some timePointMax)
        else (checked (now.toInt + d.exact)).bind fun deadline => some (some deadline)
    else
      (checked (timePointMin - d.exact)).bind fun earliest =>
        if now.toInt < earliest then some (some timePointMin)
        else (checked (now.toInt + d.exact)).bind fun deadline => some (some deadline)) ↔ _
  by_cases hnonneg : 0 ≤ d.exact
  · rw [if_pos hnonneg, exact_clamped hnonneg]
    exact ⟨fun h _ => h, fun h => h hnonneg⟩
  · have hmin : Representable (timePointMin - d.exact) := by
      unfold Representable timePointMin at *
      omega
    rw [if_neg hnonneg]
    refine iff_of_true ?_ fun h => absurd h hnonneg
    rw [checked, if_pos hmin, Option.bind_some]
    by_cases hlt : now.toInt < timePointMin - d.exact
    · rw [if_pos hlt, exact_deadline]
      unfold clamp timePointMin timePointMax at *
      omega
    · rw [if_neg hlt, exact_checked rfl]
      unfold Representable timePointMin at *
      omega

end Sites

/-- **The deadlines of all five functions**, for every duration and clock reading. -/
theorem exact_iff_withinBounds (now : Int64) (d : Duration) (call : DeadlineCall) :
    Exact now d (call.computed now d) ↔ WithinBounds now d call := by
  cases call with
  | taskHandleWaitFor => exact exact_taskHandleWaitFor
  | graphRunWaitFor running => exact exact_nanosecondsWaitFor running
  | waitFinalizationFor pending => exact exact_nanosecondsWaitFor pending
  | sleepFor => exact exact_sleepFor
  | taskDeadlineAfter => exact exact_taskDeadlineAfter

/-- Waiting for the longest duration there is, one nanosecond after the clock's epoch. -/
theorem waitForMax_overflows :
    ¬ ∀ (now : Int64) (d : Duration) (call : DeadlineCall), Exact now d (call.computed now d) := by
  intro hall
  obtain ⟨deadline, hdeadline, -⟩ := hall 1 ⟨.nanoseconds, Int64.maxValue⟩ .taskHandleWaitFor
  have hnone :
      DeadlineCall.computed 1 ⟨.nanoseconds, Int64.maxValue⟩ .taskHandleWaitFor = none := by
    decide
  rw [hnone] at hdeadline
  cases hdeadline

end DeadlineArithmetic
end AstraScheduler
