import Mathlib.Algebra.Ring.Nat
import Mathlib.Data.List.Nodup
import Mathlib.Data.List.Perm.Basic
import Mathlib.Logic.Function.Iterate

/-! # Which workers a thief visits

`generate_steal_victims` of `src/runtime/scheduler.cpp` shuffles the other workers, but only
as far as it needs victims: round `i` exchanges the candidate at `i` with one at `i` or
behind it, and emits it.  An access out of range or a division by zero has no result here.

The generator behind it is a xorshift: three steps that can be undone. -/

namespace AstraScheduler
namespace StealVictims

/-! ## The generator -/

/-- The state of the generator after the next draw. -/
def nextState (state : UInt64) : UInt64 :=
  let state := state ^^^ (state >>> 12)
  let state := state ^^^ (state <<< 25)
  state ^^^ (state >>> 27)

/-- `next_random`: the number drawn, and the state behind it. -/
def nextRandom (state : UInt64) : UInt64 × UInt64 :=
  (nextState state * 0x2545F4914F6CDD1D, nextState state)

/-- Adding a linear map of a word to the word loses nothing if the map fixes only zero. -/
theorem xor_injective {f : UInt64 → UInt64} (hadd : ∀ x y, f (x ^^^ y) = f x ^^^ f y)
    (hfix : ∀ x, f x = x → x = 0) : Function.Injective fun x => x ^^^ f x := by
  intro x y (h : x ^^^ f x = y ^^^ f y)
  have hdiff : f (x ^^^ y) = x ^^^ y := by
    rw [hadd]
    calc f x ^^^ f y = x ^^^ (x ^^^ f x) ^^^ f y := by
          rw [← UInt64.xor_assoc x x, UInt64.xor_self, UInt64.zero_xor]
      _ = x ^^^ (y ^^^ f y) ^^^ f y := by rw [h]
      _ = x ^^^ y := by
          rw [UInt64.xor_assoc, UInt64.xor_assoc y, UInt64.xor_self, UInt64.xor_zero]
  exact UInt64.xor_eq_zero_iff.mp (hfix _ hdiff)

theorem eq_zero_of_shiftRight {x k : UInt64} (hk : k.toNat % 64 ≠ 0) (h : x >>> k = x) :
    x = 0 := by
  have hnat : x.toNat / 2 ^ (k.toNat % 64) = x.toNat := by
    rw [← Nat.shiftRight_eq_div_pow, ← UInt64.toNat_shiftRight, h]
  by_contra hne
  have hpos : 0 < x.toNat := by
    rw [Nat.pos_iff_ne_zero]
    exact fun hzero => hne (UInt64.toNat_inj.mp hzero)
  have hlt := Nat.div_lt_self hpos (Nat.one_lt_two_pow hk)
  omega

/-- Each bit is shifted in from a lower one, and the lowest is zero. -/
theorem eq_zero_of_shiftLeft {x k : UInt64} (hk : k.toNat % 64 ≠ 0) (h : x <<< k = x) :
    x = 0 := by
  have hnat : x.toNat * 2 ^ (k.toNat % 64) % 2 ^ 64 = x.toNat := by
    rw [← Nat.shiftLeft_eq, ← UInt64.toNat_shiftLeft, h]
  have hdvd : ∀ i ≤ 64, 2 ^ i ∣ x.toNat := by
    intro i
    induction i with
    | zero => exact fun _ => Nat.one_dvd _
    | succ i ih =>
      intro hi
      have hmul := Nat.mul_dvd_mul (ih (by omega)) (Nat.pow_dvd_pow 2 (Nat.pos_of_ne_zero hk))
      rw [← hnat]
      exact (Nat.dvd_mod_iff (Nat.pow_dvd_pow 2 hi)).mpr hmul
  have hzero := Nat.eq_zero_of_dvd_of_lt (hdvd 64 (Nat.le_refl _)) x.toNat_lt
  exact UInt64.toNat_inj.mp hzero

theorem nextState_injective : Function.Injective nextState := by
  have hfirst := xor_injective (f := (· >>> 12)) (fun _ _ => UInt64.shiftRight_xor)
    fun _ => eq_zero_of_shiftRight (by decide)
  have hsecond := xor_injective (f := (· <<< 25)) (fun _ _ => UInt64.shiftLeft_xor)
    fun _ => eq_zero_of_shiftLeft (by decide)
  have hthird := xor_injective (f := (· >>> 27)) (fun _ _ => UInt64.shiftRight_xor)
    fun _ => eq_zero_of_shiftRight (by decide)
  exact hthird.comp (hsecond.comp hfirst)

theorem nextState_ne_zero {state : UInt64} (h : state ≠ 0) : nextState state ≠ 0 := by
  intro hzero
  exact h (nextState_injective hzero)

/-- No number of draws makes the state zero. -/
theorem iterate_nextState_ne_zero {state : UInt64} (h : state ≠ 0) (draws : Nat) :
    nextState^[draws] state ≠ 0 := by
  induction draws with
  | zero => exact h
  | succ draws ih =>
    rw [Function.iterate_succ_apply']
    exact nextState_ne_zero ih

/-! ## The shuffle -/

/-- The local variables of the loop, and the caller's generator. -/
structure Sampling where
  candidates : List Nat
  outVictims : List Nat := []
  rngState : UInt64
  deriving DecidableEq, Repr

/-- `a % b` of `std::uint64_t` and `std::size_t`. -/
def checkedMod (a b : Nat) : Option Nat := if b = 0 then none else some (a % b)

/-- `std::swap(candidates[i], candidates[j])`. -/
def checkedSwap (candidates : List Nat) (i j : Nat) : Option (List Nat) :=
  if i < candidates.length ∧ j < candidates.length then some (candidates.swap i j) else none

/-- Round `i` of the loop. -/
def sampleRound (numCandidates : Nat) (s : Sampling) (i : Nat) : Option Sampling := do
  let (drawn, rngState) := nextRandom s.rngState
  let offset ← checkedMod drawn.toNat (numCandidates - i)
  let candidates ← checkedSwap s.candidates i (i + offset)
  let victim ← candidates[i]?
  some ⟨candidates, s.outVictims ++ [victim], rngState⟩

/-- The workers other than `self_index`, in their order. -/
def otherWorkers (selfIndex workerCount : Nat) : List Nat :=
  (List.range workerCount).filter (· != selfIndex)

/-- `generate_steal_victims`: what it leaves in `out_victims`, which it clears first, and in
`rng_state`. -/
def generateStealVictims (selfIndex workerCount probeLimit : Nat) (rngState : UInt64) :
    Option (List Nat × UInt64) :=
  if workerCount ≤ 1 ∨ probeLimit = 0 then some ([], rngState)
  else do
    let numCandidates := workerCount - 1
    let k := min probeLimit numCandidates
    let s ← (List.range k).foldlM (sampleRound numCandidates)
      ⟨otherWorkers selfIndex workerCount, [], rngState⟩
    some (s.outVictims, s.rngState)

theorem mem_otherWorkers {selfIndex workerCount v : Nat} :
    v ∈ otherWorkers selfIndex workerCount ↔ v < workerCount ∧ v ≠ selfIndex := by
  simp [otherWorkers]

theorem nodup_otherWorkers (selfIndex workerCount : Nat) :
    (otherWorkers selfIndex workerCount).Nodup :=
  List.nodup_range.filter _

theorem length_otherWorkers {selfIndex workerCount : Nat} (h : selfIndex < workerCount) :
    (otherWorkers selfIndex workerCount).length = workerCount - 1 := by
  have herase := List.nodup_range.erase_eq_filter selfIndex (l := List.range workerCount)
  rw [otherWorkers, ← herase, List.length_erase_of_mem (List.mem_range.mpr h), List.length_range]

/-- What the rounds keep: the candidates are the other workers in some order, and those in
front have been emitted. -/
structure Sampled (others : List Nat) (i : Nat) (s : Sampling) : Prop where
  perm : s.candidates.Perm others
  emitted : s.outVictims = s.candidates.take i

/-- A round finds what it accesses, and divides by a positive number. -/
theorem Sampled.round {others : List Nat} {i : Nat} {s : Sampling} (h : Sampled others i s)
    (hi : i < others.length) :
    ∃ s', sampleRound others.length s i = some s' ∧ Sampled others (i + 1) s' ∧
      s'.rngState = nextState s.rngState := by
  have hlength := h.perm.length_eq
  have hpos : others.length - i ≠ 0 := by omega
  have hmod := Nat.mod_lt (nextRandom s.rngState).1.toNat (Nat.pos_of_ne_zero hpos)
  let j := i + (nextRandom s.rngState).1.toNat % (others.length - i)
  have hj : j < s.candidates.length := by
    change i + _ < _
    omega
  have hi' : i < s.candidates.length := by omega
  have hget : (s.candidates.swap i j)[i]? = some s.candidates[j] := by
    rw [List.getElem?_eq_getElem (by rwa [List.length_swap]), List.getElem_swap_left_of_lt hj]
  have hoffset : checkedMod (nextRandom s.rngState).1.toNat (others.length - i) =
      some ((nextRandom s.rngState).1.toNat % (others.length - i)) := if_neg hpos
  have hswap : checkedSwap s.candidates i j = some (s.candidates.swap i j) :=
    if_pos ⟨hi', hj⟩
  have hround : sampleRound others.length s i =
      some ⟨s.candidates.swap i j, s.outVictims ++ [s.candidates[j]], nextState s.rngState⟩ := by
    change (checkedMod (nextRandom s.rngState).1.toNat _).bind _ = _
    rw [hoffset, Option.bind_some]
    change (checkedSwap s.candidates i j).bind _ = _
    rw [hswap, Option.bind_some]
    change ((s.candidates.swap i j)[i]?).bind _ = _
    rw [hget]
    rfl
  refine ⟨_, hround, ⟨(List.swap_perm ..).trans h.perm, ?_⟩, rfl⟩
  change s.outVictims ++ _ = (s.candidates.swap i j).take (i + 1)
  have htake : (s.candidates.swap i j).take i = s.candidates.take i := by
    rw [List.swap_eq_of_lt hi' hj, List.take_set_of_le (Nat.le_add_right ..),
      List.take_set_of_le (Nat.le_refl _)]
  rw [List.take_add_one, htake, hget, h.emitted]
  rfl

/-- `k` rounds, no more than there are candidates. -/
theorem Sampled.rounds {others : List Nat} {s : Sampling} (h : Sampled others 0 s) {k : Nat}
    (hk : k ≤ others.length) :
    ∃ s', (List.range k).foldlM (sampleRound others.length) s = some s' ∧ Sampled others k s' ∧
      s'.rngState = nextState^[k] s.rngState := by
  induction k with
  | zero => exact ⟨s, rfl, h, rfl⟩
  | succ k ih =>
    obtain ⟨t, ht, hsampled, hstate⟩ := ih (by omega)
    obtain ⟨s', hs', hsampled', hstate'⟩ := hsampled.round (by omega)
    refine ⟨s', ?_, hsampled', ?_⟩
    · rw [List.range_succ, List.foldlM_append, ht]
      simpa using hs'
    · rw [hstate', hstate, Function.iterate_succ_apply']

/-- **A sample without repetition**: as many other workers as the limit allows, no access out
of range and no division by zero on the way, and a generator that never gets stuck at zero. -/
theorem generateStealVictims_sample {selfIndex workerCount : Nat} (h : selfIndex < workerCount)
    (probeLimit : Nat) (rngState : UInt64) :
    ∃ victims rngState', generateStealVictims selfIndex workerCount probeLimit rngState =
        some (victims, rngState') ∧
      victims.length = min probeLimit (workerCount - 1) ∧ victims.Nodup ∧
      (∀ v ∈ victims, v < workerCount ∧ v ≠ selfIndex) ∧
      (workerCount - 1 ≤ probeLimit → ∀ v < workerCount, v ≠ selfIndex → v ∈ victims) ∧
      rngState' = nextState^[victims.length] rngState ∧
      (rngState ≠ 0 → ∀ draws, nextState^[draws] rngState ≠ 0) := by
  have hlength := length_otherWorkers h
  have hstart : Sampled (otherWorkers selfIndex workerCount) 0
      ⟨otherWorkers selfIndex workerCount, [], rngState⟩ := ⟨.refl _, rfl⟩
  by_cases hnone : workerCount ≤ 1 ∨ probeLimit = 0
  · refine ⟨[], rngState, if_pos hnone, ?_, List.nodup_nil, ?_, ?_, rfl,
      iterate_nextState_ne_zero⟩
    · rw [List.length_nil]
      omega
    · intro v hv
      cases hv
    · intro hall v hv hne
      omega
  · obtain ⟨s, hs, hsampled, hstate⟩ :=
      hstart.rounds (k := min probeLimit (workerCount - 1)) (by omega)
    have hcandidates := hsampled.perm.length_eq
    have hvictims : s.outVictims.length = min probeLimit (workerCount - 1) := by
      rw [hsampled.emitted, List.length_take]
      omega
    refine ⟨s.outVictims, s.rngState, ?_, hvictims, ?_, ?_, ?_, ?_, iterate_nextState_ne_zero⟩
    · rw [hlength] at hs
      rw [generateStealVictims, if_neg hnone]
      simp only [hs, Option.bind_eq_bind, Option.bind_some]
    · rw [hsampled.emitted]
      exact (hsampled.perm.nodup_iff.mpr (nodup_otherWorkers ..)).sublist (List.take_sublist ..)
    · intro v hv
      rw [hsampled.emitted] at hv
      exact mem_otherWorkers.mp (hsampled.perm.subset (List.mem_of_mem_take hv))
    · intro hall v hv hne
      have hmem := hsampled.perm.symm.subset (mem_otherWorkers.mpr ⟨hv, hne⟩)
      rwa [hsampled.emitted, List.take_of_length_le (by omega)]
    · rw [hvictims]
      exact hstate

/-- Worker 1 of five visits three others. -/
theorem generateStealVictims_fiveWorkers :
    ∃ victims rngState', generateStealVictims 1 5 3 42 = some (victims, rngState') ∧
      victims.length = 3 ∧ victims.Nodup ∧ (∀ v ∈ victims, v < 5 ∧ v ≠ 1) ∧
      rngState' ≠ 0 := by
  obtain ⟨victims, rngState', heq, hlength, hnodup, hothers, -, hstate, hzero⟩ :=
    generateStealVictims_sample (show 1 < 5 by decide) 3 42
  exact ⟨victims, rngState', heq, hlength, hnodup, hothers,
    hstate ▸ hzero (by decide) victims.length⟩

end StealVictims
end AstraScheduler
