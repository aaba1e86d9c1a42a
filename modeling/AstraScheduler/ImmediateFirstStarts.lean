import AstraScheduler.ImmediateClaims

/-! # No first start in Immediate mode, but for the helping loops

What a worker loop claims in Immediate mode it looks at the mode for once more before it
executes it, and the mode stays.  The helping loop looks at the mode only before it claims
from the global queues, so its claims from the local queues, and a claim from the global
ones made after the mode has changed behind its look, begin what they find. -/

namespace AstraScheduler
namespace ImmediateClaims

open Transition (Machine)
open HelpingWait (Segment)

variable {n : Nat} {s s' : Runtime n} {w : Fin n}

/-! ## What later states keep -/

/-- The task of an invoker has been accepted. -/
def Runtime.known (s : Runtime n) (g : Segment) : Prop := (s.tasks g.task).isSome

/-- What no step takes back. -/
structure Later (s s' : Runtime n) : Prop where
  mode : s.status.shutdownMode = .immediate → s'.status.shutdownMode = .immediate
  known : ∀ {g}, s.known g → s'.known g
  settled : ∀ {g}, s.known g → ¬ s.begins g → ¬ s'.begins g

theorem begins_congr {g : Segment} (htasks : s'.tasks = s.tasks)
    (hcancel : s'.cancelRequested = s.cancelRequested) : s'.begins g = s.begins g := by
  simp only [Runtime.begins, htasks, hcancel]

/-- Steps that touch neither the status nor a task. -/
theorem Later.of_eq (hstatus : s'.status = s.status) (htasks : s'.tasks = s.tasks)
    (hcancel : s'.cancelRequested = s.cancelRequested) : Later s s' where
  mode h := hstatus ▸ h
  known h := by rwa [Runtime.known, htasks]
  settled _ h := by rwa [begins_congr htasks hcancel]

theorem Later.setLocal (v : Fin n) (queue : List Segment) : Later s (s.setLocal v queue) :=
  .of_eq rfl rfl rfl

theorem Later.trans {t : Runtime n} (h : Later s t) (h' : Later t s') : Later s s' where
  mode hm := h'.mode (h.mode hm)
  known hk := h'.known (h.known hk)
  settled hk hb := h'.settled (h.known hk) (h.settled hk hb)

/-- A task that is cancelled or begun is not begun afterwards. -/
theorem Later.setStart (t : TaskId) {start : Start} (hstart : start ≠ .unstarted) :
    Later s (s.setStart t start) where
  mode := id
  known {g} h := by
    by_cases ht : g.task = t
    · simp only [Runtime.known, Runtime.setStart, ht, Function.update_self, Option.isSome_map]
      exact ht ▸ h
    · simp only [Runtime.known, Runtime.setStart, Function.update_of_ne ht]
      exact h
  settled {g} _ h := by
    by_cases ht : g.task = t
    · simp only [Runtime.begins, Runtime.setStart, ht, Function.update_self]
      cases hentry : s.tasks t with
      | none => simp
      | some entry =>
        obtain ⟨body, old⟩ := entry
        cases body <;> cases start <;> simp_all
    · simp only [Runtime.begins, Runtime.setStart, Function.update_of_ne ht] at h ⊢
      exact h

theorem Later.cancelPreStart (g : Segment) : Later s (s.cancelPreStart g) := by
  unfold Runtime.cancelPreStart
  split
  · exact .setStart _ (by decide)
  · exact .of_eq rfl rfl rfl

theorem Later.cancelAll (gs : List Segment) : Later s (gs.foldl Runtime.cancelPreStart s) := by
  induction gs generalizing s with
  | nil => exact .of_eq rfl rfl rfl
  | cons g gs ih => exact (Later.cancelPreStart g).trans ih

theorem Later.accept (t : TaskId) (body : Body) (accepted : List TaskId) (hnew : s.tasks t = none) :
    Later s { s with
      tasks := Function.update s.tasks t (some { body := body }), accepted := accepted } where
  mode := id
  known {g} h := by
    by_cases ht : g.task = t
    · simp only [Runtime.known, ht, Function.update_self, Option.isSome_some]
    · simp only [Runtime.known, Function.update_of_ne ht]
      exact h
  settled {g} hk h := by
    have ht : g.task ≠ t := by
      rintro rfl
      rw [Runtime.known, hnew] at hk
      cases hk
    simp only [Runtime.begins, Function.update_of_ne ht] at h ⊢
    exact h

theorem Later.cancelRun (t : TaskId) :
    Later s { s with cancelRequested := Function.update s.cancelRequested t true } where
  mode := id
  known := id
  settled {g} _ h := by
    by_cases ht : g.task = t
    · simp only [Runtime.begins, ht, Function.update_self] at h ⊢
      split <;> simp_all
    · simp only [Runtime.begins, Function.update_of_ne ht] at h ⊢
      exact h

/-! ## The invariant -/

/-- `g` is in a queue, or a sweep is about to put it into one. -/
def Runtime.holds (s : Runtime n) (g : Segment) : Prop :=
  g ∈ s.global ∨ (∃ v, g ∈ s.locals v) ∨ ∃ resumes, s.sweep = some resumes ∧ g ∈ resumes

/-- What holds of a worker's claim: one made in Immediate mode begins nothing, except that
the worker loop has still to find out. -/
def Sound (s : Runtime n) (x : Worker) : Prop :=
  match x.loc with
  | .claimed c =>
    s.known c.segment ∧ (c.claimedIn = .immediate →
      s.status.shutdownMode = .immediate ∧ (x.frames ≠ [] → ¬ s.begins c.segment))
  | .executing c => s.known c.segment ∧ (c.claimedIn = .immediate → ¬ s.begins c.segment)
  | _ => True

structure Inv (s : Runtime n) : Prop where
  running : s.status.state = .running → s.status.shutdownMode ≠ .immediate
  queued : ∀ {g}, s.holds g → s.known g
  accepted : ∀ t ∈ s.accepted, (s.tasks t).isSome
  workers : ∀ w, Sound s (s.workers w)

theorem Sound.later {x : Worker} (hl : Later s s') (h : Sound s x) : Sound s' x := by
  obtain ⟨loc, frames⟩ := x
  cases loc with
  | claimed c =>
    obtain ⟨hknown, hlate⟩ := h
    exact ⟨hl.known hknown, fun hc => ⟨hl.mode (hlate hc).1,
      fun hf => hl.settled hknown ((hlate hc).2 hf)⟩⟩
  | executing c => exact ⟨hl.known h.1, fun hc => hl.settled h.1 (h.2 hc)⟩
  | search => trivial
  | holding status => trivial
  | cancelling c => trivial

/-- A step: what it puts into the queues is known, and the workers it moves are sound. -/
theorem Inv.next (h : Inv s) (hl : Later s s')
    (hrun : s'.status.state = .running → s'.status.shutdownMode ≠ .immediate)
    (hqueued : ∀ {g}, s'.holds g → s.holds g ∨ s'.known g)
    (haccepted : ∀ t ∈ s'.accepted, t ∈ s.accepted ∨ (s'.tasks t).isSome)
    (hworkers : ∀ w, s'.workers w = s.workers w ∨ Sound s' (s'.workers w)) : Inv s' where
  running := hrun
  queued hg := (hqueued hg).elim (fun hold => hl.known (h.queued hold)) id
  accepted t ht := by
    rcases haccepted t ht with hold | hnew
    · exact hl.known (g := ⟨t, false⟩) (h.accepted t hold)
    · exact hnew
  workers w := by
    rcases hworkers w with heq | hsound
    · rw [heq]
      exact (h.workers w).later hl
    · exact hsound

/-- A step of worker `w` that changes nothing but its own place and takes what it claims out
of the queues. -/
theorem Inv.moves (h : Inv s) (hl : Later s s') (hstatus : s'.status = s.status)
    (hqueued : ∀ {g}, s'.holds g → s.holds g) (haccepted : s'.accepted = s.accepted)
    {x : Worker} (hworkers : s'.workers = Function.update s.workers w x) (hx : Sound s' x) :
    Inv s' := by
  refine h.next hl (hstatus ▸ h.running) (fun hg => .inl (hqueued hg)) (fun t ht => .inl ?_)
    fun v => ?_
  · exact haccepted ▸ ht
  · rw [hworkers]
    by_cases hv : v = w
    · subst hv
      rw [Function.update_self]
      exact .inr hx
    · rw [Function.update_of_ne hv]
      exact .inl rfl

theorem holds_of_erase_local {g g' : Segment} {v : Fin n}
    (hg : (s.setLocal v ((s.locals v).erase g)).holds g') : s.holds g' := by
  rcases hg with hg | ⟨u, hg⟩ | hg
  · exact .inl hg
  · refine .inr (.inl ⟨u, ?_⟩)
    by_cases hu : u = v
    · subst hu
      simp only [Runtime.setLocal, Function.update_self] at hg
      exact List.mem_of_mem_erase hg
    · simp only [Runtime.setLocal, Function.update_of_ne hu] at hg
      exact hg
  · exact .inr (.inr hg)

theorem holds_of_enqueue {g g' : Segment} {place : Option (Fin n)}
    (hg : (s.enqueue place g).holds g') : s.holds g' ∨ g' = g := by
  cases place with
  | none =>
    rcases hg with hg | hg | hg
    · rcases List.mem_append.mp hg with hg | hg
      · exact .inl (.inl hg)
      · exact .inr (List.mem_singleton.mp hg)
    · exact .inl (.inr (.inl hg))
    · exact .inl (.inr (.inr hg))
  | some v =>
    rcases hg with hg | ⟨u, hg⟩ | hg
    · exact .inl (.inl hg)
    · by_cases hu : u = v
      · subst hu
        simp only [Runtime.enqueue, Runtime.setLocal, Function.update_self] at hg
        rcases List.mem_append.mp hg with hg | hg
        · exact .inl (.inr (.inl ⟨u, hg⟩))
        · exact .inr (List.mem_singleton.mp hg)
      · simp only [Runtime.enqueue, Runtime.setLocal, Function.update_of_ne hu] at hg
        exact .inl (.inr (.inl ⟨u, hg⟩))
    · exact .inl (.inr (.inr hg))

/-- Cancelling changes nothing but the tasks. -/
theorem cancelPreStart_frame (g : Segment) :
    s.cancelPreStart g = { s with tasks := (s.cancelPreStart g).tasks } := by
  unfold Runtime.cancelPreStart
  split <;> rfl

theorem cancelAll_frame (gs : List Segment) :
    gs.foldl Runtime.cancelPreStart s =
      { s with tasks := (gs.foldl Runtime.cancelPreStart s).tasks } := by
  induction gs generalizing s with
  | nil => rfl
  | cons g gs ih =>
    rw [List.foldl_cons, ih, cancelPreStart_frame]

/-- An exchange leaves Running, and never Immediate mode. -/
theorem exchanged_keeps {mode : ShutdownMode} {st st' : SchedulerStatus}
    (hrun : st.state = .running → st.shutdownMode ≠ .immediate)
    (h : Drain.exchanged mode st = some st') :
    st'.state = .stopping ∧ (st.shutdownMode = .immediate → st'.shutdownMode = .immediate) := by
  unfold Drain.exchanged at h
  split at h
  · rename_i hstate
    obtain rfl := Option.some.inj h
    exact ⟨rfl, fun hmode => absurd hmode (hrun hstate)⟩
  · split at h
    · obtain rfl := Option.some.inj h
      exact ⟨rfl, fun _ => rfl⟩
    · cases h
  · cases h

/-! ## The steps -/

/-- **A claim**, from whichever queue: a helping loop's begins nothing in Immediate mode. -/
theorem Inv.claimBy (h : Inv s) {g : Segment} (hg : s.holds g)
    (hok : s.helpsLate w → ¬ s.begins g)
    (htasks : s'.tasks = s.tasks) (hcancel : s'.cancelRequested = s.cancelRequested)
    (hstatus : s'.status = s.status) (haccepted : s'.accepted = s.accepted)
    (hqueued : ∀ {g}, s'.holds g → s.holds g)
    (hworkers : s'.workers = (s.claimBy w g).workers) : Inv s' := by
  have hl : Later s s' := .of_eq hstatus htasks hcancel
  refine h.moves hl hstatus hqueued haccepted hworkers ⟨hl.known (h.queued hg), fun hmode => ?_⟩
  refine ⟨hl.mode hmode, fun hframes => ?_⟩
  rw [begins_congr htasks hcancel]
  exact hok ⟨hmode, hframes⟩

theorem Inv.outsideStep (h : Inv s) {e : OutsideStep n} (hs : outsideStep s e = some s') :
    Inv s' := by
  cases e with
  | accept t body isInternal =>
    simp only [ImmediateClaims.outsideStep] at hs
    split at hs
    · rename_i hcond
      obtain rfl := Option.some.inj hs
      refine h.next (.accept t body _ hcond.2) h.running (fun hg => .inl hg) (fun u hu => ?_)
        fun _ => .inl rfl
      rcases List.mem_cons.mp hu with rfl | hu
      · exact .inr (by simp only [Function.update_self, Option.isSome_some])
      · exact .inl hu
    · cases hs
  | publish t place =>
    simp only [ImmediateClaims.outsideStep] at hs
    split at hs
    · rename_i hin
      obtain rfl := Option.some.inj hs
      -- the invoker goes from the admitted ones into a queue, so its task is known
      have hl : Later s ({ s with accepted := s.accepted.erase t }.enqueue place ⟨t, false⟩) := by
        cases place <;> exact .of_eq rfl rfl rfl
      refine h.next hl (by cases place <;> exact h.running) (fun hg => ?_) (fun u hu => .inl ?_)
        fun _ => .inl (by cases place <;> rfl)
      · rcases holds_of_enqueue hg with hg | rfl
        · exact .inl hg
        · exact .inr (hl.known (g := ⟨t, false⟩) (h.accepted t hin))
      · cases place <;> exact List.mem_of_mem_erase hu
    · cases hs
  | post t place =>
    simp only [ImmediateClaims.outsideStep] at hs
    split at hs
    · rename_i hbegun
      obtain rfl := Option.some.inj hs
      have hl : Later s (s.enqueue place ⟨t, true⟩) := by cases place <;> exact .of_eq rfl rfl rfl
      refine h.next hl (by cases place <;> exact h.running) (fun hg => ?_)
        (fun u hu => .inl (by cases place <;> exact hu)) fun _ => .inl (by cases place <;> rfl)
      rcases holds_of_enqueue hg with hg | rfl
      · exact .inl hg
      · refine .inr (hl.known (g := ⟨t, true⟩) ?_)
        obtain ⟨e, he, -⟩ := (Option.any_eq_true _ _).mp hbegun
        exact Option.isSome_of_eq_some he
    · cases hs
  | cancel t =>
    simp only [ImmediateClaims.outsideStep] at hs
    split at hs
    · obtain rfl := Option.some.inj hs
      exact h.next (.setStart t (by decide)) h.running (fun hg => .inl hg) (fun u hu => .inl hu)
        fun _ => .inl rfl
    · obtain rfl := Option.some.inj hs
      exact h
    · obtain rfl := Option.some.inj hs
      exact h.next (.cancelRun t) h.running (fun hg => .inl hg) (fun u hu => .inl hu)
        fun _ => .inl rfl
    · cases hs
  | request mode =>
    simp only [ImmediateClaims.outsideStep] at hs
    split at hs
    · rename_i status hx
      split at hs
      · cases hs
      · obtain rfl := Option.some.inj hs
        -- the mode only goes up, and what may have begun in it has
        obtain ⟨hstopping, hmode⟩ := exchanged_keeps h.running hx
        refine h.next ⟨hmode, id, fun _ hb => hb⟩ (fun hrun => ?_) (fun hg => .inl hg)
          (fun u hu => .inl hu) fun _ => .inl rfl
        rw [hstopping] at hrun
        cases hrun
    · obtain rfl := Option.some.inj hs
      exact h
  | sweepGlobal =>
    simp only [ImmediateClaims.outsideStep] at hs
    split at hs
    · obtain rfl := Option.some.inj hs
      have hl : Later s { s.global.foldl Runtime.cancelPreStart s with
          global := s.global.filter Segment.resume
          lifecycleMutex := true
          sweep := some [] } := (Later.cancelAll s.global).trans (.of_eq rfl rfl rfl)
      rw [cancelAll_frame] at hl ⊢
      -- what is queued after the sweep was queued before it
      refine h.next hl h.running (fun hg => .inl ?_) (fun u hu => .inl hu) fun _ => .inl rfl
      rcases hg with hg | hg | ⟨resumes, hsome, hg⟩
      · exact .inl (List.mem_filter.mp hg).1
      · exact .inr (.inl hg)
      · rw [← Option.some.inj hsome] at hg
        cases hg
    · cases hs
  | sweepLocal v g =>
    simp only [ImmediateClaims.outsideStep] at hs
    split at hs
    · rename_i resumes hsweep
      split at hs
      · rename_i hin
        split at hs
        · obtain rfl := Option.some.inj hs
          refine h.next (.of_eq rfl rfl rfl) h.running (fun hg => .inl ?_) (fun u hu => .inl hu)
            fun _ => .inl rfl
          rcases hg with hg | hg | ⟨resumes', hsome, hg⟩
          · exact .inl hg
          · exact holds_of_erase_local (.inr (.inl hg))
          · rw [← Option.some.inj hsome] at hg
            rcases List.mem_append.mp hg with hg | hg
            · exact .inr (.inr ⟨resumes, hsweep, hg⟩)
            · exact List.mem_singleton.mp hg ▸ .inr (.inl ⟨v, hin⟩)
        · obtain rfl := Option.some.inj hs
          have hl : Later s ((s.setLocal v ((s.locals v).erase g)).cancelPreStart g) :=
            (Later.setLocal v _).trans (.cancelPreStart g)
          rw [cancelPreStart_frame] at hl ⊢
          exact h.next hl h.running (fun hg => .inl (holds_of_erase_local hg))
            (fun u hu => .inl hu) fun _ => .inl rfl
      · cases hs
    · cases hs
  | sweepEnd =>
    simp only [ImmediateClaims.outsideStep] at hs
    split at hs
    · rename_i resumes hsweep
      obtain rfl := Option.some.inj hs
      refine h.next (.of_eq rfl rfl rfl) h.running (fun hg => .inl ?_) (fun u hu => .inl hu)
        fun _ => .inl rfl
      rcases hg with hg | hg | ⟨resumes', hnone, -⟩
      · rcases List.mem_append.mp hg with hg | hg
        · exact .inl hg
        · exact .inr (.inr ⟨resumes, hsweep, hg⟩)
      · exact .inr (.inl hg)
      · cases hnone
    · cases hs

theorem Inv.workerStep (h : Inv s) {e : WorkerStep n} (hok : HelpersKeepOff s (.worker w e))
    (hs : workerStep s w e = some s') : Inv s' := by
  cases e with
  | claimLocal g =>
    simp only [ImmediateClaims.workerStep] at hs
    split at hs
    · rename_i hcond
      split at hs
      · obtain rfl := Option.some.inj hs
        exact h.claimBy (.inr (.inl ⟨w, hcond.1⟩)) (fun hlate hb => hok hlate ⟨g, hcond.1, hb⟩)
          rfl rfl rfl rfl (fun hg => holds_of_erase_local hg) rfl
      · split at hs
        · obtain rfl := Option.some.inj hs
          exact h.claimBy (.inr (.inl ⟨w, hcond.1⟩)) (fun hlate hb => hok hlate ⟨g, hcond.1, hb⟩)
            rfl rfl rfl rfl (fun hg => holds_of_erase_local hg) rfl
        · cases hs
      · cases hs
    · cases hs
  | steal v g =>
    simp only [ImmediateClaims.workerStep] at hs
    split at hs
    · rename_i hcond
      obtain rfl := Option.some.inj hs
      have hg := hcond.2.2.2
      exact h.claimBy (.inr (.inl ⟨v, hg⟩)) (fun hlate hb => hok hlate ⟨g, hg, hb⟩)
        rfl rfl rfl rfl (fun hg => holds_of_erase_local hg) rfl
    · cases hs
  | lock =>
    simp only [ImmediateClaims.workerStep] at hs
    split at hs
    · obtain rfl := Option.some.inj hs
      exact h.moves (.of_eq rfl rfl rfl) rfl (fun hg => hg) rfl rfl trivial
    · cases hs
  | readStatus =>
    simp only [ImmediateClaims.workerStep] at hs
    split at hs
    · obtain rfl := Option.some.inj hs
      exact h.moves (.of_eq rfl rfl rfl) rfl (fun hg => hg) rfl rfl trivial
    · cases hs
  | claimGlobal g =>
    simp only [ImmediateClaims.workerStep] at hs
    split at hs
    · rename_i looked hloc
      split at hs
      · rename_i hcond
        obtain rfl := Option.some.inj hs
        refine h.claimBy (.inl hcond.1) (fun hlate hb => ?_) rfl rfl rfl rfl
          (fun hg => hg.imp_left List.mem_of_mem_erase) rfl
        -- the look has permitted the claim, so it has not seen Immediate mode
        obtain ⟨status, rfl, hpermits⟩ :=
          (Option.any_eq_true _ _).mp (hcond.2.resolve_left hlate.2)
        have hmode := hok hlate ⟨g, hcond.1, hb⟩ status hloc
        exact (of_decide_eq_true hpermits).2 hmode
      · cases hs
    · cases hs
  | unlock =>
    simp only [ImmediateClaims.workerStep] at hs
    split at hs
    · obtain rfl := Option.some.inj hs
      exact h.moves (.of_eq rfl rfl rfl) rfl (fun hg => hg) rfl rfl trivial
    · cases hs
  | dispatch =>
    simp only [ImmediateClaims.workerStep] at hs
    split at hs
    · rename_i c hloc
      have hsound := h.workers w
      simp only [Sound, hloc] at hsound
      split at hs
      · obtain rfl := Option.some.inj hs
        exact h.moves (.of_eq rfl rfl rfl) rfl (fun hg => hg) rfl rfl trivial
      · rename_i hcond
        obtain rfl := Option.some.inj hs
        refine h.moves (.of_eq rfl rfl rfl) rfl (fun hg => hg) rfl rfl ⟨hsound.1, fun hlate => ?_⟩
        obtain ⟨hmode, hhelping⟩ := hsound.2 hlate
        by_cases hframes : (s.workers w).frames = []
        · -- the worker loop has looked: only a resume passes
          have hresume : c.segment.resume = true := by
            by_contra hno
            exact hcond ⟨hframes, hmode, hno⟩
          show ¬ s.begins c.segment = true
          simp only [Runtime.begins, hresume, Bool.not_true, Bool.false_and, Bool.false_eq_true,
            not_false_iff]
        · exact hhelping hframes
    · cases hs
  | cancelPreStart =>
    simp only [ImmediateClaims.workerStep] at hs
    split at hs
    · rename_i c hloc
      obtain rfl := Option.some.inj hs
      have hl := Later.cancelPreStart (s := s) c.segment
      rw [cancelPreStart_frame] at hl ⊢
      exact h.moves (hl.trans (.of_eq rfl rfl rfl)) rfl (fun hg => hg) rfl rfl trivial
    · cases hs
  | execute =>
    simp only [ImmediateClaims.workerStep] at hs
    split at hs
    · rename_i c hloc
      split at hs
      · obtain rfl := Option.some.inj hs
        exact h.moves (.of_eq rfl rfl rfl) rfl (fun hg => hg) rfl rfl trivial
      split at hs
      · obtain rfl := Option.some.inj hs
        exact h.moves ((Later.setStart _ (by decide)).trans (.of_eq rfl rfl rfl)) rfl
          (fun hg => hg) rfl rfl trivial
      · obtain rfl := Option.some.inj hs
        exact h.moves (.of_eq rfl rfl rfl) rfl (fun hg => hg) rfl rfl trivial
    · cases hs
  | beginWait =>
    simp only [ImmediateClaims.workerStep] at hs
    split at hs
    · rename_i hloc hframes
      obtain rfl := Option.some.inj hs
      refine h.moves (.of_eq rfl rfl rfl) rfl (fun hg => hg) rfl rfl ?_
      simp only [Sound, hloc]
    · cases hs
  | endWait =>
    simp only [ImmediateClaims.workerStep] at hs
    split at hs
    · rename_i hloc hframes
      obtain rfl := Option.some.inj hs
      refine h.moves (.of_eq rfl rfl rfl) rfl (fun hg => hg) rfl rfl ?_
      simp only [Sound, hloc]
    · cases hs
  | segmentReturn =>
    simp only [ImmediateClaims.workerStep] at hs
    split at hs
    · rename_i hloc hframes
      split at hs
      · cases hs
      · obtain rfl := Option.some.inj hs
        refine h.moves (.of_eq rfl rfl rfl) rfl (fun hg => hg) rfl rfl ?_
        simp only [Sound, hloc]
    · cases hs

/-- **One step** while the helping loops keep off. -/
theorem Inv.step (h : Inv s) {a : Label n} (hok : HelpersKeepOff s a) (hs : step s a = some s') :
    Inv s' := by
  cases a with
  | outside e => exact h.outsideStep hs
  | worker w e => exact h.workerStep hok hs

theorem inv_initial : Inv ({} : Runtime n) where
  running _ hmode := by cases hmode
  queued hg := by
    rcases hg with hg | ⟨v, hg⟩ | ⟨resumes, hsome, -⟩
    · cases hg
    · cases hg
    · cases hsome
  accepted t ht := by cases ht
  workers _ := trivial

/-- An executing claim made in Immediate mode begins nothing. -/
theorem Inv.noLateStart (h : Inv s) (a : Label n) : NoLateStart s a := by
  intro c hfirst hlate
  cases a with
  | outside e => exact hfirst.elim
  | worker w e =>
    cases e with
    | execute =>
      obtain ⟨hloc, hbegins⟩ := hfirst
      have hsound := h.workers w
      simp only [Sound, hloc] at hsound
      exact hsound.2 hlate hbegins
    | _ => exact hfirst.elim

theorem everyStep_noLateStart (h : Inv s) {as : List (Label n)}
    (hok : (machine n).EveryStep HelpersKeepOff s as) : (machine n).EveryStep NoLateStart s as := by
  induction as generalizing s with
  | nil => trivial
  | cons a as ih =>
    exact ⟨h.noLateStart a, fun s' hs' => ih (h.step hok.1 hs') (hok.2 s' hs')⟩

/-- What a helping loop has claimed in Immediate mode it goes on to begin. -/
theorem claimed_begins {g : Segment} (hlate : s.helpsLate w) (hbegins : s.begins g)
    (s' : Runtime n) (hworkers : s'.workers = (s.claimBy w g).workers) (htasks : s'.tasks = s.tasks)
    (hcancel : s'.cancelRequested = s.cancelRequested) :
    ∃ t c, (machine n).run s' [.worker w .dispatch] = some t ∧
      FirstStart t (.worker w .execute) c ∧ c.claimedIn = .immediate := by
  let claim : Claim := ⟨g, s.status.shutdownMode⟩
  have hx : s'.workers w = { s.workers w with loc := .claimed claim } := by
    rw [hworkers]
    exact Function.update_self ..
  have hcond : ¬ ((s.workers w).frames = [] ∧ s'.status.shutdownMode = .immediate ∧
      ¬ claim.segment.resume) := fun h => hlate.2 h.1
  refine ⟨s'.setWorker w { s.workers w with loc := .executing claim }, claim, ?_, ⟨?_, ?_⟩, hlate.1⟩
  · simp only [Machine.run, machine, step, ImmediateClaims.workerStep, hx, if_neg hcond]
    rfl
  · simp only [Runtime.setWorker, Function.update_self]
  · rw [← hbegins]
    exact begins_congr htasks hcancel

/-- The condition leaves out no claim too many: where one breaks it, the same queue has an
invoker to claim that nothing but a cancellation keeps from being begun. -/
theorem late_claim_begins {a : WorkerStep n} (hno : ¬ HelpersKeepOff s (.worker w a))
    (hs : workerStep s w a = some s') :
    ∃ a' s' t c, workerStep s w a' = some s' ∧ (machine n).run s' [.worker w .dispatch] = some t ∧
      FirstStart t (.worker w .execute) c ∧ c.claimedIn = .immediate := by
  cases a with
  | claimLocal g =>
    simp only [HelpersKeepOff, Classical.not_imp, Classical.not_not] at hno
    obtain ⟨hlate, g', hin, hbegins⟩ := hno
    simp only [ImmediateClaims.workerStep] at hs
    split at hs
    · rename_i hcond
      split at hs
      · rename_i hloc
        obtain ⟨t, c, hbegun⟩ := claimed_begins hlate hbegins
          ((s.claimBy w g').setLocal w ((s.locals w).erase g')) rfl rfl rfl
        refine ⟨.claimLocal g', _, t, c, ?_, hbegun⟩
        simp only [ImmediateClaims.workerStep, if_pos (And.intro hin hcond.2), hloc]
      · rw [if_neg hlate.2] at hs
        cases hs
      · cases hs
    · cases hs
  | steal v g =>
    simp only [HelpersKeepOff, Classical.not_imp, Classical.not_not] at hno
    obtain ⟨hlate, g', hin, hbegins⟩ := hno
    simp only [ImmediateClaims.workerStep] at hs
    split at hs
    · rename_i hcond
      obtain ⟨hloc, hlooping, hother, -⟩ := hcond
      obtain ⟨t, c, hbegun⟩ := claimed_begins hlate hbegins
        ((s.claimBy w g').setLocal v ((s.locals v).erase g')) rfl rfl rfl
      exact ⟨.steal v g', _, t, c, if_pos ⟨hloc, hlooping, hother, hin⟩, hbegun⟩
    · cases hs
  | claimGlobal g =>
    simp only [HelpersKeepOff, Classical.not_imp, not_forall] at hno
    obtain ⟨hlate, ⟨g', hin, hbegins⟩, looked, hloc, -⟩ := hno
    simp only [ImmediateClaims.workerStep, hloc] at hs
    split at hs
    · rename_i hcond
      obtain ⟨t, c, hbegun⟩ := claimed_begins hlate hbegins
        { s.claimBy w g' with global := s.global.erase g', lifecycleMutex := false } rfl rfl rfl
      refine ⟨.claimGlobal g', _, t, c, ?_, hbegun⟩
      simp only [ImmediateClaims.workerStep, hloc, if_pos (And.intro hin hcond.2)]
    · cases hs
  | _ => exact absurd trivial hno

instance (s : Runtime n) : (a : Label n) → Decidable (NoLateStart s a)
  | .outside _ => .isTrue fun _ hfirst => hfirst.elim
  | .worker w .execute =>
    match hloc : (s.workers w).loc with
    | .executing c =>
      decidable_of_iff (s.begins c.segment → c.claimedIn ≠ .immediate)
        ⟨fun h c' ⟨hc, hb⟩ => by
          obtain rfl : c = c' := by
            rw [hloc] at hc
            exact WorkerLoc.executing.inj hc
          exact h hb, fun h hb => h c ⟨hloc, hb⟩⟩
    | .search | .holding _ | .claimed _ | .cancelling _ =>
      .isTrue fun c hfirst => by
        have := hloc ▸ hfirst.1
        cases this
  | .worker _ (.claimLocal _) | .worker _ (.steal _ _) | .worker _ .lock | .worker _ .readStatus
  | .worker _ (.claimGlobal _) | .worker _ .unlock | .worker _ .dispatch
  | .worker _ .cancelPreStart | .worker _ .beginWait | .worker _ .endWait
  | .worker _ .segmentReturn => .isTrue fun _ hfirst => hfirst.elim

instance (s : Runtime n) (w : Fin n) : Decidable (s.helpsLate w) :=
  inferInstanceAs (Decidable (_ ∧ _))

instance (s : Runtime n) (queue : List Segment) : Decidable (s.unstartedIn queue) :=
  inferInstanceAs (Decidable (∃ g ∈ queue, s.begins g))

instance (s : Runtime n) : (a : Label n) → Decidable (HelpersKeepOff s a)
  | .worker w (.claimLocal _) =>
    inferInstanceAs (Decidable (s.helpsLate w → ¬ s.unstartedIn (s.locals w)))
  | .worker w (.steal v _) =>
    inferInstanceAs (Decidable (s.helpsLate w → ¬ s.unstartedIn (s.locals v)))
  | .worker w (.claimGlobal _) =>
    match hloc : (s.workers w).loc with
    | .holding (some looked) =>
      decidable_of_iff (s.helpsLate w → s.unstartedIn s.global → looked.shutdownMode = .immediate)
        ⟨fun h hlate hin looked' heq => by
          rw [hloc] at heq
          rw [← Option.some.inj (WorkerLoc.holding.inj heq)]
          exact h hlate hin, fun h hlate hin => h hlate hin looked hloc⟩
    | .holding none | .search | .claimed _ | .cancelling _ | .executing _ =>
      .isTrue fun _ _ _ heq => by
        have := hloc ▸ heq
        cases this
  | .outside _ | .worker _ .lock | .worker _ .readStatus | .worker _ .unlock
  | .worker _ .dispatch | .worker _ .cancelPreStart | .worker _ .execute | .worker _ .beginWait
  | .worker _ .endWait | .worker _ .segmentReturn => .isTrue trivial

/-- While no helping loop claims, in Immediate mode, from a local queue with first segments in
it or behind a look that the mode has changed after, no body is begun by a claim made in that
mode. -/
theorem immediate_begins_nothing {as : List (Label n)}
    (hok : (machine n).EveryStep HelpersKeepOff {} as) : (machine n).EveryStep NoLateStart {} as :=
  everyStep_noLateStart inv_initial hok

/-- The parent of two tasks, and what it runs until it waits for them. -/
def parentWaits : List (Label 1) :=
  [.outside (.accept ⟨⟨1⟩, 1⟩ .submitted false), .outside (.publish ⟨⟨1⟩, 1⟩ none),
    .worker 0 .lock, .worker 0 (.claimGlobal ⟨⟨⟨1⟩, 1⟩, false⟩), .worker 0 .dispatch,
    .worker 0 .execute, .outside (.accept ⟨⟨1⟩, 2⟩ .submitted true),
    .outside (.accept ⟨⟨1⟩, 3⟩ .submitted false), .worker 0 .beginWait]

/-- Published before the mode changes and claimed by the worker loop after it. -/
def claimedByLoop : List (Label 1) :=
  parentWaits ++
    ([.outside (.publish ⟨⟨1⟩, 2⟩ (some 0)), .worker 0 .endWait, .worker 0 .segmentReturn,
      .outside (.request .immediate), .worker 0 (.claimLocal ⟨⟨⟨1⟩, 2⟩, false⟩),
      .worker 0 .dispatch, .worker 0 .cancelPreStart] : List (Label 1))

theorem loop_begins_nothing :
    ((machine 1).run {} claimedByLoop).isSome ∧
      (machine 1).EveryStep NoLateStart {} claimedByLoop :=
  ⟨by decide, immediate_begins_nothing (by decide)⟩

/-- The helping loop claims a child from its own queue before the sweep gets there, or one
from the global queues after its look at the mode, and begins it. -/
def claimedBeforeSweep : List (Label 1) :=
  parentWaits ++
    ([.outside (.publish ⟨⟨1⟩, 2⟩ (some 0)), .outside (.request .immediate),
      .worker 0 (.claimLocal ⟨⟨⟨1⟩, 2⟩, false⟩), .worker 0 .dispatch,
      .worker 0 .execute] : List (Label 1))

def claimedAfterLook : List (Label 1) :=
  parentWaits ++
    ([.outside (.publish ⟨⟨1⟩, 3⟩ none), .worker 0 .lock, .worker 0 .readStatus,
      .outside (.request .immediate), .worker 0 (.claimGlobal ⟨⟨⟨1⟩, 3⟩, false⟩),
      .worker 0 .dispatch, .worker 0 .execute] : List (Label 1))

theorem helper_begins_late :
    (((machine 1).run {} claimedBeforeSweep).isSome ∧
      ¬ (machine 1).EveryStep NoLateStart {} claimedBeforeSweep) ∧
    ((machine 1).run {} claimedAfterLook).isSome ∧
      ¬ (machine 1).EveryStep NoLateStart {} claimedAfterLook := by
  decide

end ImmediateClaims
end AstraScheduler
