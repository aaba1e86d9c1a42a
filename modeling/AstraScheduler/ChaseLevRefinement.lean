import AstraScheduler.ChaseLevIndices
import AstraScheduler.ChaseLevSequential

/-! # The deques against a plain one

The live interval of a deque is the contents of a plain double-ended queue, through growth,
wrap-around of the slots and rebase.  The deque's 64-bit indices stay below their limit
because a push at the high watermark comes after a rebase.  The reference deque never
rebases: it follows the plain one until a push would have to step over the largest signed
index. -/

namespace AstraScheduler
namespace ChaseLevDeque
variable {α : Type*}

/-! ## Runs of cells -/

namespace Buffer
variable {buf buf' : Buffer α} {t t' n : Nat}

/-- The cells of `n` indices from `t` on. -/
def interval (buf : Buffer α) (t n : Nat) : List α := (List.range n).map fun j => buf.loadCell (t + j)

@[simp] theorem length_interval : (buf.interval t n).length = n := by simp [interval]

theorem interval_succ : buf.interval t (n + 1) = buf.interval t n ++ [buf.loadCell (t + n)] := by
  simp [interval, List.range_succ]

theorem interval_cons : buf.interval t (n + 1) = buf.loadCell t :: buf.interval (t + 1) n := by
  simp only [interval, List.range_succ_eq_map, List.map_cons, List.map_map, Nat.add_zero]
  congr 1
  refine List.map_congr_left fun j _ => ?_
  show buf.loadCell (t + (j + 1)) = buf.loadCell (t + 1 + j)
  congr 1
  omega

theorem interval_congr (h : ∀ j < n, buf.loadCell (t + j) = buf'.loadCell (t' + j)) :
    buf.interval t n = buf'.interval t' n :=
  List.map_congr_left fun j hj => h j (List.mem_range.mp hj)

/-- A store behind `n` indices that leave a cell free extends them. -/
theorem interval_storeCell (hroom : n < buf.capacity) (item : α) :
    (buf.storeCell (t + n) item).interval t (n + 1) = buf.interval t n ++ [item] := by
  rw [interval_succ, loadCell_storeCell_same]
  congr 1
  exact interval_congr fun j hj => buf.loadCell_storeCell_of_lt item (by omega) (by omega)

/-- Stores to no more indices than there are cells are all kept. -/
theorem foldl_storeCell (f : Nat → α) (lo : Nat) (hn : n ≤ buf.capacity) :
    ((List.range' lo n).foldl (fun buf i => buf.storeCell i (f i)) buf).capacity = buf.capacity ∧
      ∀ i, lo ≤ i → i < lo + n →
        ((List.range' lo n).foldl (fun buf i => buf.storeCell i (f i)) buf).loadCell i = f i := by
  induction n with
  | zero => exact ⟨rfl, fun i _ _ => by omega⟩
  | succ n ih =>
    obtain ⟨hcap, hload⟩ := ih (by omega)
    rw [List.range'_1_concat, List.foldl_append]
    refine ⟨hcap, fun i hlo hi => ?_⟩
    show (((List.range' lo n).foldl (fun buf i => buf.storeCell i (f i)) buf).storeCell (lo + n)
      (f (lo + n))).loadCell i = f i
    by_cases hin : i = lo + n
    · subst hin
      exact loadCell_storeCell_same ..
    · rw [loadCell_storeCell_of_lt _ _ (by omega) (by omega)]
      exact hload i hlo (by omega)

theorem copyFrom_spec (old : Buffer α) {fresh : Buffer α} {t b : Nat}
    (h : b - t ≤ fresh.capacity) :
    (fresh.copyFrom old t b).capacity = fresh.capacity ∧
      (fresh.copyFrom old t b).interval t (b - t) = old.interval t (b - t) := by
  obtain ⟨hcap, hload⟩ := foldl_storeCell old.loadCell t h
  exact ⟨hcap, interval_congr fun j hj => hload (t + j) (by omega) (by omega)⟩

theorem restore_spec {snapshot : List α} (h : snapshot.length ≤ buf.capacity) :
    (buf.restore snapshot).capacity = buf.capacity ∧
      (buf.restore snapshot).interval 0 snapshot.length = snapshot := by
  let f : Nat → α := fun i => if hi : i < snapshot.length then snapshot[i] else buf.loadCell i
  have hfold : buf.restore snapshot =
      (List.range' 0 snapshot.length).foldl (fun buf i => buf.storeCell i (f i)) buf := by
    rw [restore, List.range_eq_range']
    refine List.foldl_ext _ _ _ fun buf i hi => ?_
    have hlt : i < snapshot.length := by
      have := List.mem_range'_1.mp hi
      omega
    simp only [List.getElem?_eq_getElem hlt, f, dif_pos hlt]
  obtain ⟨hcap, hload⟩ := foldl_storeCell f 0 h
  rw [hfold]
  refine ⟨hcap, List.ext_getElem (by simp) fun i hi hi' => ?_⟩
  simp only [interval, List.getElem_map, List.getElem_range]
  rw [hload _ (by omega) (by omega)]
  simp only [Nat.zero_add, f, dif_pos hi']

theorem capacity_doubled_le [Inhabited α] {m : Nat} (h : buf.capacity < 2 ^ m) :
    buf.doubled.capacity ≤ 2 ^ m := by
  obtain ⟨k, hk⟩ := buf.isPowerOfTwo
  rw [hk] at h
  rw [capacity_doubled, hk, ← Nat.pow_succ]
  exact Nat.pow_le_pow_right (by omega) ((Nat.pow_lt_pow_iff_right (by omega)).mp h)

end Buffer

/-! ## The deque -/

namespace Deque
variable {d : Deque α} {c : Nat}

/-- What holds between two calls; `c` bounds the capacity. -/
structure Ok (c : Nat) (d : Deque α) : Prop where
  span : d.top ≤ d.bottom
  room : d.bottom - d.top < d.activeBuffer.capacity
  open_ : d.maintenance = false
  capacity : d.activeBuffer.capacity ≤ c
  bounded : d.bottom ≤ d.limit

theorem liveInterval_eq (d : Deque α) :
    d.liveInterval = d.activeBuffer.interval d.top (d.bottom - d.top) := rfl

theorem length_liveInterval (d : Deque α) : d.liveInterval.length = d.bottom - d.top :=
  Buffer.length_interval

theorem Ok.new [Inhabited α] {k : Nat} (hk : 2 ^ k ≤ c) : Ok c (new α k) where
  span := Nat.le_refl 0
  room := Buffer.capacity_pos _
  open_ := rfl
  capacity := hk
  bounded := Nat.zero_le _

theorem Ok.maybeQuiescentRebase (h : d.Ok c) (highWatermark : Nat) (fails : Bool) :
    (d.maybeQuiescentRebase highWatermark fails).2.Ok c ∧
      (d.maybeQuiescentRebase highWatermark fails).2.liveInterval = d.liveInterval ∧
      ((d.maybeQuiescentRebase highWatermark fails).1 = true →
        (d.maybeQuiescentRebase highWatermark fails).2.bottom <
          (d.maybeQuiescentRebase highWatermark fails).2.limit) := by
  unfold Deque.maybeQuiescentRebase
  split
  · exact ⟨h, rfl, fun hno => by cases hno⟩
  split
  · exact ⟨h, rfl, fun hno => by cases hno⟩
  rw [if_neg (Nat.not_lt.mpr h.span)]
  have hroom := h.room
  have hfits : d.liveInterval.length ≤ d.activeBuffer.capacity := by
    rw [length_liveInterval]
    omega
  obtain ⟨hcap, hcells⟩ := Buffer.restore_spec hfits
  rw [length_liveInterval] at hcells
  have hactive : ({ d with
      history := Function.update d.history d.active (d.activeBuffer.restore d.liveInterval)
      top := 0
      bottom := d.bottom - d.top
      maintenance := false } : Deque α).activeBuffer = d.activeBuffer.restore d.liveInterval :=
    Function.update_self ..
  have hlimit : d.bottom - d.top < ({ d with
      history := Function.update d.history d.active (d.activeBuffer.restore d.liveInterval)
      top := 0
      bottom := d.bottom - d.top
      maintenance := false } : Deque α).limit := by
    rw [Deque.limit, hactive, hcap]
    omega
  refine ⟨⟨Nat.zero_le _, ?_, rfl, ?_, Nat.le_of_lt hlimit⟩, ?_, fun _ => hlimit⟩
  · refine Nat.lt_of_lt_of_eq hroom ?_
    exact (congrArg Buffer.capacity hactive |>.trans hcap).symm
  · exact Nat.le_trans (Nat.le_of_eq (congrArg Buffer.capacity hactive |>.trans hcap)) h.capacity
  · refine (congrArg (fun buf : Buffer α => buf.interval 0 (d.bottom - d.top)) hactive).trans ?_
    exact hcells

theorem Ok.capacity_maybeQuiescentRebase (h : d.Ok c) (highWatermark : Nat) (fails : Bool) :
    (d.maybeQuiescentRebase highWatermark fails).2.activeBuffer.capacity =
      d.activeBuffer.capacity := by
  unfold Deque.maybeQuiescentRebase
  split
  · rfl
  split
  · rfl
  rw [if_neg (Nat.not_lt.mpr h.span)]
  have hroom := h.room
  have hfits : d.liveInterval.length ≤ d.activeBuffer.capacity := by
    rw [length_liveInterval]
    omega
  obtain ⟨hcap, -⟩ := Buffer.restore_spec hfits
  refine (congrArg Buffer.capacity ?_).trans hcap
  exact Function.update_self ..

theorem activeBuffer_publishBuffer (fresh : Buffer α) :
    (d.publishBuffer fresh).activeBuffer = fresh := Function.update_self ..

/-- Growth keeps the contents and makes room. -/
theorem Ok.grow [Inhabited α] {g : Deque α} {fails : Bool} (h : d.Ok c) (hc : 2 ^ 62 ≤ c)
    (hg : d.grow d.bottom d.top fails = some g) :
    g.Ok c ∧ g.liveInterval = d.liveInterval ∧ g.top = d.top ∧ g.bottom = d.bottom ∧
      d.limit ≤ g.limit ∧ g.bottom - g.top + 1 < g.activeBuffer.capacity := by
  simp only [Deque.grow] at hg
  split at hg
  · cases hg
  rename_i hsmall
  obtain rfl := Option.some.inj hg
  have hroom := h.room
  have hfits : d.bottom - d.top ≤ d.activeBuffer.doubled.capacity := by
    rw [Buffer.capacity_doubled]
    omega
  obtain ⟨hcap, hcells⟩ := Buffer.copyFrom_spec d.activeBuffer hfits
  have hle : d.activeBuffer.doubled.capacity ≤ 2 ^ 62 :=
    Buffer.capacity_doubled_le (by omega)
  rw [Buffer.capacity_doubled] at hcap hle
  have hactive := activeBuffer_publishBuffer (d := d)
    (d.activeBuffer.doubled.copyFrom d.activeBuffer d.top d.bottom)
  have hlimit : d.limit ≤ (d.publishBuffer
      (d.activeBuffer.doubled.copyFrom d.activeBuffer d.top d.bottom)).limit := by
    rw [Deque.limit, Deque.limit, hactive, hcap]
    omega
  refine ⟨⟨h.span, ?_, h.open_, ?_, Nat.le_trans h.bounded hlimit⟩, ?_, rfl, rfl, hlimit, ?_⟩
  · rw [hactive, hcap]
    exact Nat.lt_of_lt_of_le hroom (by omega)
  · rw [hactive, hcap]
    omega
  · rw [liveInterval_eq, hactive]
    exact hcells
  · rw [hactive, hcap]
    show d.bottom - d.top + 1 < _
    omega

/-- The store of a push, where a cell stays free. -/
theorem Ok.storeBottom (h : d.Ok c) (hroom : d.bottom - d.top + 1 < d.activeBuffer.capacity)
    (hlimit : d.bottom < d.limit) (item : α) :
    ({ d.storeCell d.active d.bottom item with bottom := d.bottom + 1 } : Deque α).Ok c ∧
      ({ d.storeCell d.active d.bottom item with bottom := d.bottom + 1 } : Deque α).liveInterval =
        d.liveInterval ++ [item] := by
  have hactive : ({ d.storeCell d.active d.bottom item with
      bottom := d.bottom + 1 } : Deque α).activeBuffer =
      d.activeBuffer.storeCell d.bottom item := Function.update_self ..
  have hspan := h.span
  have hcount : d.bottom + 1 - d.top = d.bottom - d.top + 1 := by omega
  refine ⟨⟨Nat.le_succ_of_le hspan, ?_, h.open_, ?_, ?_⟩, ?_⟩
  · rw [hactive]
    show d.bottom + 1 - d.top < d.activeBuffer.capacity
    omega
  · rw [hactive]
    exact h.capacity
  · rw [Deque.limit, hactive]
    exact hlimit
  · rw [liveInterval_eq, hactive]
    show (d.activeBuffer.storeCell d.bottom item).interval d.top (d.bottom + 1 - d.top) = _
    have hb : d.bottom = d.top + (d.bottom - d.top) := by omega
    have hstore := Buffer.interval_storeCell (t := d.top) (Nat.lt_of_succ_lt hroom) item
    rw [← hb] at hstore
    rw [hcount, hstore, liveInterval_eq]

theorem Ok.pushItem [Inhabited α] (h : d.Ok c) (hc : 2 ^ 62 ≤ c) (hlimit : d.bottom < d.limit)
    (item : α) (growFails : Bool) :
    (d.pushItem item growFails).2.Ok c ∧
      (d.pushItem item growFails).2.liveInterval =
        if (d.pushItem item growFails).1 then d.liveInterval ++ [item] else d.liveInterval := by
  unfold Deque.pushItem
  rw [if_neg (Nat.not_lt.mpr h.span)]
  split
  · split
    · exact ⟨h, rfl⟩
    · rename_i g hg
      obtain ⟨hok, hlive, htop, hbottom, hlim, hroom⟩ := h.grow hc hg
      have hstore := hok.storeBottom hroom (by omega) item
      rw [hbottom, hlive] at hstore
      exact hstore
  · exact h.storeBottom (by omega) hlimit item

theorem Ok.push [Inhabited α] (h : d.Ok c) (hc : 2 ^ 62 ≤ c) (item : α)
    (growFails rebaseFails : Bool) :
    (d.push item growFails rebaseFails).2.Ok c ∧
      (d.push item growFails rebaseFails).2.liveInterval =
        if (d.push item growFails rebaseFails).1 then d.liveInterval ++ [item]
        else d.liveInterval := by
  unfold Deque.push
  split
  · obtain ⟨hok, hlive, hlimit⟩ := h.maybeQuiescentRebase rebaseHighWatermark rebaseFails
    split
    · rename_i d' hr
      rw [hr] at hok hlive
      exact ⟨hok, hlive⟩
    · rename_i d' hr
      rw [hr] at hok hlive hlimit
      rw [← hlive]
      exact hok.pushItem hc (hlimit rfl) item growFails
  · exact h.pushItem hc (by unfold Deque.limit; omega) item growFails

theorem Ok.pop (h : d.Ok c) (rebaseFails : Bool) :
    (d.pop rebaseFails).2.Ok c ∧
      ListDeque.perform d.liveInterval .pop =
        (some (d.pop rebaseFails).1, (d.pop rebaseFails).2.liveInterval) := by
  have hspan := h.span
  have hempty : d.bottom ≤ d.top → d.liveInterval = [] := fun hle =>
    List.length_eq_zero_iff.mp (by rw [length_liveInterval]; omega)
  simp only [Deque.pop]
  split
  · obtain ⟨hok, hlive, -⟩ := h.maybeQuiescentRebase rebaseHighWatermark rebaseFails
    refine ⟨hok, ?_⟩
    rw [hlive, hempty (by omega)]
    rfl
  split
  · rename_i hle
    -- the interval ends with the cell that is read
    have hlast : d.liveInterval =
        d.activeBuffer.interval d.top (d.bottom - 1 - d.top) ++
          [d.activeBuffer.loadCell (d.bottom - 1)] := by
      have hcount : d.bottom - d.top = d.bottom - 1 - d.top + 1 := by omega
      rw [liveInterval_eq, hcount, Buffer.interval_succ]
      congr 3
      omega
    have hpop : ListDeque.perform d.liveInterval .pop =
        (some (.success, some (d.activeBuffer.loadCell (d.bottom - 1))),
          d.activeBuffer.interval d.top (d.bottom - 1 - d.top)) := by
      rw [hlast]
      simp [ListDeque.perform]
    have hroom := h.room
    have hlimit := h.bounded
    split
    · rename_i hone
      refine ⟨⟨Nat.le_refl _, ?_, h.open_, h.capacity, ?_⟩, ?_⟩
      · show d.bottom - 1 + 1 - (d.bottom - 1 + 1) < d.activeBuffer.capacity
        omega
      · show d.bottom - 1 + 1 ≤ d.limit
        omega
      · rw [hpop]
        congr 1
        refine (List.length_eq_zero_iff.mp ?_).trans (List.length_eq_zero_iff.mp ?_).symm
        · rw [Buffer.length_interval]
          omega
        · rw [length_liveInterval]
          exact Nat.sub_self _
    · refine ⟨⟨hle, ?_, h.open_, h.capacity, ?_⟩, hpop⟩
      · show d.bottom - 1 - d.top < d.activeBuffer.capacity
        omega
      · show d.bottom - 1 ≤ d.limit
        omega
  · have hback : ({ d with bottom := d.bottom - 1 + 1 } : Deque α) = d := by
      rw [Nat.sub_add_cancel (by omega)]
    simp only [hback]
    obtain ⟨hok, hlive, -⟩ := h.maybeQuiescentRebase rebaseHighWatermark rebaseFails
    refine ⟨hok, ?_⟩
    rw [hlive, hempty (by omega)]
    rfl

theorem Ok.steal (h : d.Ok c) :
    d.steal.2.Ok c ∧ ListDeque.perform d.liveInterval .steal =
      (some d.steal.1, d.steal.2.liveInterval) := by
  have hspan := h.span
  have hroom := h.room
  have hopen : ¬ d.maintenance = true := by simp [h.open_]
  simp only [Deque.steal, if_neg hopen]
  split
  · rename_i hlt
    refine ⟨⟨hlt, ?_, h.open_, h.capacity, h.bounded⟩, ?_⟩
    · show d.bottom - (d.top + 1) < d.activeBuffer.capacity
      omega
    · have hcount : d.bottom - d.top = d.bottom - (d.top + 1) + 1 := by omega
      rw [liveInterval_eq, hcount, Buffer.interval_cons]
      rfl
  · refine ⟨h, ?_⟩
    have hnil : d.liveInterval = [] :=
      List.length_eq_zero_iff.mp (by rw [length_liveInterval]; omega)
    rw [hnil]
    rfl

/-- **One call**: what it performs is performed on the live interval as on a plain deque. -/
theorem Ok.call [Inhabited α] (h : d.Ok c) (hc : 2 ^ 62 ≤ c) (dc : DequeCall α) :
    (d.call dc).2.Ok c ∧
      match (d.call dc).1 with
      | some (op, answer) =>
        ListDeque.perform d.liveInterval op = (answer, (d.call dc).2.liveInterval)
      | none => (d.call dc).2.liveInterval = d.liveInterval := by
  cases dc with
  | push item growFails rebaseFails =>
    obtain ⟨hok, hlive⟩ := h.push hc item growFails rebaseFails
    refine ⟨hok, ?_⟩
    show match (if (d.push item growFails rebaseFails).1 then some (DequeOp.push item, none)
      else none : Option (DequeOp α × Answer α)) with
      | some (op, answer) => ListDeque.perform d.liveInterval op =
          (answer, (d.push item growFails rebaseFails).2.liveInterval)
      | none => (d.push item growFails rebaseFails).2.liveInterval = d.liveInterval
    rw [hlive]
    cases (d.push item growFails rebaseFails).1 <;> rfl
  | pop rebaseFails => exact h.pop rebaseFails
  | steal => exact h.steal
  | maybeQuiescentRebase highWatermark fails =>
    obtain ⟨hok, hlive, -⟩ := h.maybeQuiescentRebase highWatermark fails
    exact ⟨hok, hlive⟩

/-- **A sequence of calls**. -/
theorem Ok.run [Inhabited α] (h : d.Ok c) (hc : 2 ^ 62 ≤ c) (calls : List (DequeCall α)) :
    (d.run calls).2.Ok c ∧
      ListDeque.run d.liveInterval ((d.run calls).1.map Prod.fst) =
        ((d.run calls).1.map Prod.snd, (d.run calls).2.liveInterval) := by
  induction calls generalizing d with
  | nil => exact ⟨h, rfl⟩
  | cons dc calls ih =>
    obtain ⟨hok, hcall⟩ := h.call hc dc
    obtain ⟨hend, hrun⟩ := ih hok
    refine ⟨hend, ?_⟩
    simp only [Deque.run]
    cases hperformed : (d.call dc).1 with
    | none =>
      rw [hperformed] at hcall
      rw [hcall] at hrun
      exact hrun
    | some performed =>
      obtain ⟨op, answer⟩ := performed
      rw [hperformed] at hcall
      simp only [Option.toList_some, List.singleton_append, List.map_cons, ListDeque.run, hcall,
        hrun]

/-- Where nothing fails a push finds room: the ring has a free cell or can be doubled. -/
theorem Ok.push_performed [Inhabited α] (h : d.Ok c)
    (hroom : d.bottom - d.top + 1 < d.activeBuffer.capacity ∨ d.activeBuffer.capacity < 2 ^ 62)
    (item : α) : (d.push item false false).1 = true := by
  have hitem {d : Deque α} (h : d.Ok c)
      (hroom : d.bottom - d.top + 1 < d.activeBuffer.capacity ∨
        d.activeBuffer.capacity < 2 ^ 62) : (d.pushItem item false).1 = true := by
    unfold Deque.pushItem
    rw [if_neg (Nat.not_lt.mpr h.span)]
    split
    · have hgrow : ¬ (false = true ∨ (2 ^ 64 - 1) / 2 < d.activeBuffer.capacity ∨
          2 ^ 62 ≤ d.activeBuffer.capacity) := by
        simp only [Bool.false_eq_true, false_or]
        omega
      simp only [Deque.grow, if_neg hgrow]
    · rfl
  unfold Deque.push
  split
  · rename_i hhigh
    obtain ⟨hok, hlive, -⟩ := h.maybeQuiescentRebase rebaseHighWatermark false
    have hcount := congrArg List.length hlive
    rw [length_liveInterval, length_liveInterval] at hcount
    have hcap := h.capacity_maybeQuiescentRebase rebaseHighWatermark false
    have hdone : (d.maybeQuiescentRebase rebaseHighWatermark false).1 = true := by
      have hlow : ¬ (d.bottom < rebaseHighWatermark ∧ d.top < rebaseHighWatermark) := by omega
      simp only [Deque.maybeQuiescentRebase, if_neg hlow, Bool.false_eq_true, if_false,
        if_neg (Nat.not_lt.mpr h.span)]
    split
    · rename_i d' hr
      rw [hr] at hdone
      cases hdone
    · rename_i d' hr
      rw [hr] at hok hcount hcap
      exact hitem hok (by rw [hcount, hcap]; exact hroom)
  · exact hitem h hroom

end Deque

/-! ## The reference deque -/

namespace Oracle
variable {o : Oracle α} {l : List α}

/-- The reference deque holds `l`. -/
structure Holds (o : Oracle α) (l : List α) : Prop where
  nonneg : 0 ≤ o.top
  span : o.bottom = o.top + l.length
  bounded : o.bottom < 2 ^ 63
  room : l.length ≤ o.published.capacity
  capacity : o.published.capacity ≤ 2 ^ 62
  contents : o.published.interval o.top.toNat l.length = l

theorem Holds.new [Inhabited α] {k : Nat} (hk : k ≤ 62) : Holds (new α k) [] where
  nonneg := Int.le_refl 0
  span := rfl
  bounded := Int.pow_pos (by omega)
  room := Nat.zero_le _
  capacity := Nat.pow_le_pow_right (by omega) hk
  contents := rfl

/-- A push does not step over the largest signed index. -/
def Fits (o : Oracle α) : DequeOp α → Prop
  | .push _ => o.bottom + 1 < 2 ^ 63
  | .pop | .steal => True

instance : (op : DequeOp α) → Decidable (o.Fits op)
  | .push _ => inferInstanceAs (Decidable (o.bottom + 1 < 2 ^ 63))
  | .pop | .steal => .isTrue trivial

/-- The ring a push writes to has a free cell and the old contents. -/
theorem Holds.ring [Inhabited α] (h : o.Holds l) (hlen : l.length < 2 ^ 62) :
    ∃ buf, (if int64OfSize o.published.capacity ≤ o.bottom - o.top then o.grow o.bottom o.top
        else some o.published) = some buf ∧
      l.length < buf.capacity ∧ buf.capacity ≤ 2 ^ 62 ∧
      buf.interval o.top.toNat l.length = l := by
  have hsize : int64OfSize o.published.capacity = o.published.capacity :=
    if_pos (Nat.lt_of_le_of_lt h.capacity (by decide))
  have hspan := h.span
  have hroom := h.room
  have hpos := o.published.capacity_pos
  rw [hsize]
  split
  · have hsmall : o.published.capacity < 2 ^ 62 := by omega
    have hdouble : ¬ 2 ^ 64 ≤ o.published.capacity * 2 := by omega
    have hnonneg := h.nonneg
    have hcount : o.bottom.toNat - o.top.toNat = l.length := by omega
    have hfits : o.bottom.toNat - o.top.toNat ≤ o.published.doubled.capacity := by
      rw [Buffer.capacity_doubled]
      omega
    obtain ⟨hcap, hcells⟩ := Buffer.copyFrom_spec o.published hfits
    rw [hcount, h.contents] at hcells
    refine ⟨_, if_neg hdouble, ?_, ?_, hcells⟩
    · rw [hcap, Buffer.capacity_doubled]
      omega
    · rw [hcap]
      exact Buffer.capacity_doubled_le hsmall
  · refine ⟨_, rfl, by omega, h.capacity, h.contents⟩

theorem Holds.push [Inhabited α] (h : o.Holds l) (hlen : l.length < 2 ^ 62)
    (hfits : o.bottom + 1 < 2 ^ 63) (item : α) :
    ∃ o', o.push item = some o' ∧ o'.Holds (l ++ [item]) := by
  obtain ⟨buf, hbuf, hroom, hcap, hcells⟩ := h.ring hlen
  have hnonneg := h.nonneg
  have hspan := h.span
  refine ⟨{ o with published := buf.storeCell o.bottom.toNat item, bottom := o.bottom + 1 }, ?_, ?_⟩
  · simp only [Oracle.push, hbuf, Option.bind_some, if_neg (Int.not_le.mpr hfits)]
  · have hb : o.bottom.toNat = o.top.toNat + l.length := by omega
    refine ⟨hnonneg, ?_, hfits, ?_, hcap, ?_⟩
    · simp only [List.length_append, List.length_singleton]
      omega
    · simp only [List.length_append, List.length_singleton, Buffer.capacity_storeCell]
      omega
    · rw [List.length_append, List.length_singleton, hb, Buffer.interval_storeCell hroom, hcells]

theorem Holds.pop (h : o.Holds l) :
    ∃ o', (some o.pop.1, o.pop.2) = ((ListDeque.perform l .pop).1, o') ∧
      o'.Holds (ListDeque.perform l .pop).2 := by
  have hnonneg := h.nonneg
  have hspan := h.span
  have hbounded := h.bounded
  have hroom := h.room
  rcases List.eq_nil_or_concat' l with rfl | ⟨rest, item, rfl⟩
  · have hempty : ¬ o.top ≤ o.bottom - 1 := by
      simp only [List.length_nil] at hspan
      omega
    have hback : ({ o with bottom := o.bottom - 1 + 1 } : Oracle α) = o := by
      rw [Int.sub_add_cancel]
    refine ⟨o, ?_, h⟩
    simp only [Oracle.pop, if_neg hempty, hback]
    rfl
  · have hcells := h.contents
    simp only [List.length_append, List.length_singleton] at hspan hroom hcells
    rw [Buffer.interval_succ] at hcells
    obtain ⟨hrest, hitem⟩ := List.append_inj hcells (Buffer.length_interval)
    have hb : (o.bottom - 1).toNat = o.top.toNat + rest.length := by omega
    have hitem : o.published.loadCell (o.bottom - 1).toNat = item := by
      rw [hb]
      exact List.singleton_inj.mp hitem
    have hperform : ListDeque.perform (rest ++ [item]) .pop = (some (.success, some item), rest) := by
      simp [ListDeque.perform]
    rw [hperform]
    have hle : o.top ≤ o.bottom - 1 := by omega
    simp only [Oracle.pop, if_pos hle, hitem]
    split
    · rename_i hone
      obtain rfl : rest = [] := List.length_eq_zero_iff.mp (by omega)
      refine ⟨_, rfl, ⟨?_, ?_, ?_, Nat.zero_le _, h.capacity, rfl⟩⟩
      · show 0 ≤ o.top + 1
        omega
      · show o.bottom - 1 + 1 = o.top + 1 + 0
        omega
      · show o.bottom - 1 + 1 < 2 ^ 63
        omega
    · refine ⟨_, rfl, ⟨hnonneg, ?_, ?_, Nat.le_of_succ_le hroom, h.capacity, hrest⟩⟩
      · show o.bottom - 1 = o.top + rest.length
        omega
      · show o.bottom - 1 < 2 ^ 63
        omega

theorem Holds.steal (h : o.Holds l) :
    ∃ o', (some o.steal.1, o.steal.2) = ((ListDeque.perform l .steal).1, o') ∧
      o'.Holds (ListDeque.perform l .steal).2 := by
  have hnonneg := h.nonneg
  have hspan := h.span
  have hroom := h.room
  cases l with
  | nil =>
    have hempty : ¬ o.top < o.bottom := by
      simp only [List.length_nil] at hspan
      omega
    refine ⟨o, ?_, h⟩
    simp only [Oracle.steal, if_neg hempty]
    rfl
  | cons item rest =>
    have hcells := h.contents
    simp only [List.length_cons] at hspan hroom hcells
    rw [Buffer.interval_cons] at hcells
    obtain ⟨hitem, hrest⟩ := List.cons.inj hcells
    have hlt : o.top < o.bottom := by omega
    have ht : (o.top + 1).toNat = o.top.toNat + 1 := by omega
    simp only [Oracle.steal, if_pos hlt, hitem]
    refine ⟨_, rfl, ⟨?_, ?_, h.bounded, Nat.le_of_succ_le hroom, h.capacity, ?_⟩⟩
    · show 0 ≤ o.top + 1
      omega
    · show o.bottom = o.top + 1 + rest.length
      omega
    · show o.published.interval (o.top + 1).toNat rest.length = rest
      rw [ht]
      exact hrest

/-- **One operation** of the reference deque. -/
theorem Holds.perform [Inhabited α] (h : o.Holds l) {op : DequeOp α} (hfits : o.Fits op)
    (hlen : (ListDeque.perform l op).2.length ≤ 2 ^ 62) :
    ∃ o', o.perform op = some ((ListDeque.perform l op).1, o') ∧
      o'.Holds (ListDeque.perform l op).2 := by
  cases op with
  | push item =>
    have hlen' : l.length < 2 ^ 62 := by
      simp only [ListDeque.perform, List.length_append, List.length_singleton] at hlen
      omega
    obtain ⟨o', ho', hholds⟩ := h.push hlen' hfits item
    exact ⟨o', by simp only [Oracle.perform, ho', Option.map_some, ListDeque.perform], hholds⟩
  | pop =>
    obtain ⟨o', ho', hholds⟩ := h.pop
    exact ⟨o', congrArg some ho', hholds⟩
  | steal =>
    obtain ⟨o', ho', hholds⟩ := h.steal
    exact ⟨o', congrArg some ho', hholds⟩

/-- The reference deque as a machine whose labels are its operations. -/
def machine (α : Type*) [Inhabited α] (k : Nat) : Transition.Machine (Oracle α) (DequeOp α) where
  init o := o = new α k
  next o op := (o.perform op).map Prod.snd

end Oracle

/-- **A sequence of calls**, with the reference deque beside it. -/
theorem Oracle.Holds.run [Inhabited α] {d : Deque α} {o : Oracle α} {k : Nat}
    (h : d.Ok (2 ^ 62)) (ho : o.Holds d.liveInterval) (calls : List (DequeCall α))
    (hfits : (machine α k).EveryStep Fits o ((d.run calls).1.map Prod.fst)) :
    ∃ o', o.run ((d.run calls).1.map Prod.fst) = some ((d.run calls).1.map Prod.snd, o') ∧
      o'.Holds (d.run calls).2.liveInterval := by
  induction calls generalizing d o with
  | nil => exact ⟨o, rfl, ho⟩
  | cons dc calls ih =>
    obtain ⟨hok, hcall⟩ := h.call (Nat.le_refl _) dc
    simp only [Deque.run] at hfits ⊢
    cases hperformed : (d.call dc).1 with
    | none =>
      rw [hperformed] at hcall hfits
      exact ih hok (by rw [hcall]; exact ho) hfits
    | some performed =>
      obtain ⟨op, answer⟩ := performed
      rw [hperformed] at hcall
      simp only [hperformed, Option.toList_some, List.singleton_append, List.map_cons] at hfits ⊢
      have hlen : (ListDeque.perform d.liveInterval op).2.length ≤ 2 ^ 62 := by
        simp only [hcall, Deque.length_liveInterval]
        have := hok.room
        have := hok.capacity
        omega
      obtain ⟨o₁, hstep, hholds⟩ := ho.perform hfits.1 hlen
      rw [hcall] at hstep hholds
      obtain ⟨o', hrun, hend⟩ := ih hok hholds (hfits.2 o₁ (by simp only [machine, hstep]; rfl))
      refine ⟨o', ?_, hend⟩
      simp only [Oracle.run, hstep, Option.bind_some, hrun, Option.map_some]

/-! ## The three deques side by side -/

/-- Every sequence of calls performs its operations as a plain deque does, and so does the
reference deque until a push would step over its largest index. -/
theorem run_refines [Inhabited α] {k : Nat} (hk : k < 64) (calls : List (DequeCall α)) :
    let trace := ((Deque.new α k).run calls).1
    let d := ((Deque.new α k).run calls).2
    (ListDeque.run [] (trace.map Prod.fst) = (trace.map Prod.snd, d.liveInterval) ∧
      d.top ≤ d.bottom ∧ d.bottom ≤ 2 ^ 63 ∧
      ∀ dc, (d.call dc).1 = none → (d.call dc).2.liveInterval = d.liveInterval) ∧
    (k ≤ 62 → (Oracle.machine α k).EveryStep Oracle.Fits (Oracle.new α k) (trace.map Prod.fst) →
      ∃ o, (Oracle.new α k).run (trace.map Prod.fst) = some (trace.map Prod.snd, o) ∧
        o.Holds d.liveInterval) := by
  intro trace d
  have hcap : 2 ^ k ≤ 2 ^ 63 := Nat.pow_le_pow_right (by omega) (by omega)
  obtain ⟨hok, hrun⟩ := (Deque.Ok.new (α := α) hcap).run (by omega) calls
  refine ⟨⟨hrun, hok.span, ?_, fun dc hnone => ?_⟩, fun hsmall hfits => ?_⟩
  · have hbounded : d.bottom ≤ d.limit := hok.bounded
    have hcapacity : d.activeBuffer.capacity ≤ 2 ^ 63 := hok.capacity
    unfold Deque.limit rebaseHighWatermark at hbounded
    omega
  · have hcall := (hok.call (by omega) dc).2
    rw [hnone] at hcall
    exact hcall
  · exact Oracle.Holds.run (.new (Nat.pow_le_pow_right (by omega) hsmall))
      (.new hsmall) calls hfits

/-- The ring of two cells is grown by the second push. -/
theorem run_refines_grown :
    let trace := ((Deque.new Nat 1).run [.push 7 false false, .push 8 true false,
      .push 9 false false, .steal, .pop false, .pop true]).1
    ListDeque.run [] (trace.map Prod.fst) = (trace.map Prod.snd, []) ∧
      ∃ o, (Oracle.new Nat 1).run (trace.map Prod.fst) = some (trace.map Prod.snd, o) ∧
        o.Holds [] := by
  intro trace
  have h := run_refines (α := Nat) (k := 1) (by decide) [.push 7 false false, .push 8 true false,
    .push 9 false false, .steal, .pop false, .pop true]
  refine ⟨h.1.1, h.2 (by decide) ?_⟩
  decide

section Overflow
variable [Inhabited α]

/-- `n` times a push and a steal, then a push. -/
def rounds (item : α) : Nat → List (DequeCall α)
  | 0 => [.push item false false]
  | n + 1 => .push item false false :: .steal :: rounds item n

def roundOps (item : α) : Nat → List (DequeOp α)
  | 0 => [.push item]
  | n + 1 => .push item :: .steal :: roundOps item n

/-- The deque performs every round: at the high watermark it rebases. -/
theorem Deque.Ok.run_rounds {d : Deque α} {c : Nat} (h : d.Ok c) (hc : 2 ^ 62 ≤ c)
    (hempty : d.liveInterval = []) (item : α) (n : Nat) :
    (d.run (rounds item n)).1.map Prod.fst = roundOps item n := by
  have hperformed {d : Deque α} (h : d.Ok c) (hempty : d.liveInterval = []) :
      (d.push item false false).1 = true := by
    have hcount := congrArg List.length hempty
    rw [length_liveInterval, List.length_nil] at hcount
    exact h.push_performed (by omega) item
  induction n generalizing d with
  | zero =>
    simp only [rounds, Deque.run, Deque.call, hperformed h hempty, if_true, Option.toList_some]
    rfl
  | succ n ih =>
    obtain ⟨hok, hlive⟩ := h.push hc item false false
    rw [hperformed h hempty, if_pos rfl, hempty] at hlive
    obtain ⟨hok', hsteal⟩ := hok.steal
    rw [hlive] at hsteal
    have hrest := ih hok' (Prod.mk.inj hsteal).2.symm
    simp only [rounds, roundOps, Deque.run, Deque.call, hperformed h hempty, if_true,
      Option.toList_some, List.singleton_append, List.map_cons, hrest]

theorem Oracle.bottom_push {o o' : Oracle α} {item : α} (h : o.push item = some o') :
    o'.bottom = o.bottom + 1 := by
  obtain ⟨buf, -, hbuf⟩ := Option.bind_eq_some_iff.mp h
  split at hbuf
  · cases hbuf
  · rw [← Option.some.inj hbuf]

omit [Inhabited α] in
theorem Oracle.bottom_steal (o : Oracle α) : o.steal.2.bottom = o.bottom := by
  unfold Oracle.steal
  split <;> rfl

/-- The reference deque has no index for the push after the last round. -/
theorem Oracle.Holds.run_rounds {o : Oracle α} (h : o.Holds []) (item : α) (n : Nat)
    (hn : o.bottom + n + 1 = 2 ^ 63) : o.run (roundOps item n) = none := by
  induction n generalizing o with
  | zero =>
    obtain ⟨buf, hbuf, -⟩ := h.ring (Nat.two_pow_pos 62)
    have hover : 2 ^ 63 ≤ o.bottom + 1 := by omega
    simp only [roundOps, Oracle.run, Oracle.perform, Oracle.push, hbuf, Option.bind_some,
      if_pos hover, Option.map_none, Option.bind_none]
  | succ n ih =>
    obtain ⟨o₁, hpush, hholds⟩ := h.push (Nat.two_pow_pos 62) (by omega) item
    obtain ⟨o₂, hsteal, hholds'⟩ := hholds.steal
    obtain rfl : o₁.steal.2 = o₂ := (Prod.mk.inj hsteal).2
    have hbottom : o₁.steal.2.bottom = o.bottom + 1 := by
      rw [bottom_steal, bottom_push hpush]
    have hrest := ih hholds' (by omega)
    simp only [roundOps, Oracle.run, Oracle.perform, hpush, Option.map_some, Option.bind_some,
      hrest, Option.map_none]

end Overflow

/-- After `2 ^ 63 - 1` pushes the reference deque has no index left, and one of `2 ^ 63` cells
takes its size for a negative one: both fail at a push the deque performs. -/
theorem oracle_overflows :
    ((Deque.new Nat 6).run (rounds 0 (2 ^ 63 - 1))).1.map Prod.fst = roundOps 0 (2 ^ 63 - 1) ∧
      (Oracle.new Nat 6).run (roundOps 0 (2 ^ 63 - 1)) = none ∧
      ((Deque.new Nat 63).run [.push 0 false false]).1.map Prod.fst = [.push 0] ∧
      (Oracle.new Nat 63).run [.push 0] = none := by
  refine ⟨?_, ?_, ?_, ?_⟩
  · exact (Deque.Ok.new (c := 2 ^ 62) (by decide)).run_rounds (Nat.le_refl _) rfl 0 _
  · exact (Oracle.Holds.new (by decide)).run_rounds 0 _ (by decide)
  · exact (Deque.Ok.new (c := 2 ^ 63) (Nat.le_refl _)).run_rounds (by decide) rfl 0 0
  · decide

end ChaseLevDeque
end AstraScheduler
