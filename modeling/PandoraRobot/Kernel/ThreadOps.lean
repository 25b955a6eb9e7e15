import PandoraRobot.Kernel.ReadyTable

/-! # What the thread operations do

One lemma for each operation that returns: the state it returns, written with
`removedThread` and `insertedThread`, and the invariant of the scheduler in it.
-/

namespace PandoraRobot.Kernel

open PandoraRobot.RingList

namespace State

variable {T U I : Type}

variable {lo : Int} {out : Set T} {k k' : State T U I} {σ : ListHead I → List T}
  {zs : List (T ⊕ U)} {t : T}

/-! ## Timers -/

theorem liftTimers_eq_ok {α : Type} {f : Timers (T ⊕ U) → Exec α} {set : α → Timers (T ⊕ U)} :
    k.liftTimers f set = .ok k' ↔ ∃ a, f k.timers = .ok a ∧ k' = k.withTimers (set a) := by
  simp only [liftTimers, exec_bind_ok, exec_pure_ok]
  exact exists_congr fun a => and_congr_right fun _ => eq_comm

section

variable [DecidableEq T] [DecidableEq U] [Fintype T] [Fintype U]

theorem liftTimers_stop {x : T ⊕ U} (h : k.liftTimers (·.rtTimerStop x) Prod.fst = .ok k') :
    ∃ s, (TimerOp.stop x).exec k.timers = .ok s ∧ k' = k.withTimers s := by
  obtain ⟨⟨s, err⟩, hstop, rfl⟩ := liftTimers_eq_ok.mp h
  exact ⟨s, by simp [TimerOp.exec, hstop], rfl⟩

theorem liftTimers_setTime {x : T ⊕ U} {tick : Tick}
    (h : k.liftTimers (·.rtTimerControl x .setTime tick) Prod.fst = .ok k') :
    ∃ s, (TimerOp.control x .setTime tick).exec k.timers = .ok s ∧ k' = k.withTimers s := by
  obtain ⟨⟨s, out⟩, hcontrol, rfl⟩ := liftTimers_eq_ok.mp h
  exact ⟨s, by simp [TimerOp.exec, hcontrol], rfl⟩

end

theorem Wf.withTimers (hk : Wf lo out k σ zs) {s : Timers (T ⊕ U)} {zs' : List (T ⊕ U)}
    (hs : s.Sorted lo zs')
    (hact : ∀ t, .inl t ∈ zs' → (s.timer (.inl t)).flag.activated = true)
    (hone : ∀ t, (s.timer (.inl t)).flag.periodic = false ∧ (s.timer (.inl t)).freed = false)
    (hclosed : ∀ t ∉ out, (s.timer (.inl t)).type = .null ↔
      (k.thread t).stat = .close ∨ (k.thread t).type = .null)
    (hwait : ∀ t ∉ out, .inl t ∈ zs' →
      (k.thread t).stat = .suspend ∨ (k.thread t).stat = .init) :
    Wf lo out (k.withTimers s) σ zs' :=
  { hk with
    sorted := hs, activated := hact, embedded := hone, closed := hclosed, waiting := hwait }

section

variable [DecidableEq T] [DecidableEq U] [Fintype T] [Fintype U]

/-- A timer operation keeps the invariant, if it leaves the timers of threads one-shot and
    deletes none, initialises and detaches none outside `out`, and starts one only while its
    thread waits. -/
theorem Wf.timerOp (hk : Wf lo out k σ zs) {op : TimerOp (T ⊕ U)} {s : Timers (T ⊕ U)}
    (h : op.exec k.timers = .ok s)
    (hmode : ∀ t, op.timer = .inl t → op.periodicAfter false = false ∧ op ≠ .delete (.inl t))
    (hinit : ∀ t ∉ out, op.timer = .inl t →
      op = .start (.inl t) ∨ op = .stop (.inl t) ∨ ∃ cmd arg, op = .control (.inl t) cmd arg)
    (hwait : ∀ t ∉ out, op = .start (.inl t) →
      (k.thread t).stat = .suspend ∨ (k.thread t).stat = .init) :
    ∃ zs', Wf lo out (k.withTimers s) σ zs' ∧ op.Effect k.timers zs s zs' ∧
      s.rtTick = k.timers.rtTick := by
  obtain ⟨zs', heff⟩ := TimerOp.exec_effect hk.sorted.linked hk.sorted.registered h
  -- a start links a timer at its place, and nothing else adds one
  obtain ⟨hsorted, htick⟩ : s.Sorted lo zs' ∧ s.rtTick = k.timers.rtTick := by
    obtain ⟨x, rfl, hst⟩ | ⟨ys, hu⟩ :=
      TimerOp.exec_cases hk.sorted.linked hk.sorted.registered h
    · obtain ⟨as, bs, -, hs, -, -⟩ := hk.sorted.start hk.low.1 hk.low.2 hst
      rw [show zs' = as ++ x :: bs from
        congrFun (Holds.unique heff.linked hs.linked) ()]
      exact ⟨hs, hst.rtTick⟩
    · have hs := hu.sorted hk.sorted
      rw [show zs' = ys from congrFun (Holds.unique heff.linked hs.linked) ()]
      exact ⟨hs, hu.rtTick⟩
  refine ⟨zs', hk.withTimers hsorted ?_ ?_ ?_ ?_, heff, htick⟩
  -- a timer in the list is active
  · intro t ht
    by_cases hop : .inl t = op.timer
    · have hown := heff.own
      have hact := hk.activated t
      rw [hop] at ht hact ⊢
      cases op with
      | start x => exact hown.2.2.2.2.1
      | stop x =>
        obtain ⟨hm, hoff⟩ := hown.2.2.2.2.2.mp ht
        rw [hact hm] at hoff
        cases hoff
      | control x cmd arg => exact hown.2.2.2.2.1.trans (hact (hown.2.2.2.2.2.mp ht))
      | init | create => exact absurd ht hown.2.2.2.2.2
      | detach => exact absurd ht hown.2.2.2.2.2
      | delete => exact absurd ht hown.2.2.2.2
    · obtain ⟨htimer, hm⟩ := heff.other _ hop
      rw [htimer]
      exact hk.activated t (hm.mp ht)
  -- the timers of threads stay one-shot and part of them
  · intro t
    by_cases hop : .inl t = op.timer
    · have hown := heff.own.1
      rw [← hop] at hown
      obtain ⟨hmode, hdelete⟩ := hmode t hop.symm
      rw [hown, (hk.embedded t).1]
      refine ⟨hmode, ?_⟩
      have hfreed := heff.own
      cases op with
      | init | create => exact hop ▸ hfreed.2.2.2.1
      | start | stop | control | detach =>
        rw [show Sum.inl t = _ from hop, hfreed.2.2.2.1]
        exact hop ▸ (hk.embedded t).2
      | delete x => exact absurd (by rw [show Sum.inl t = x from hop]) hdelete
    · rw [(heff.other _ hop).1]
      exact hk.embedded t
  -- a thread that is there keeps its timer
  · intro t hout
    rw [← hk.closed t hout]
    by_cases hop : .inl t = op.timer
    · have hown := heff.own
      rw [← hop] at hown
      obtain rfl | rfl | ⟨cmd, arg, rfl⟩ := hinit t hout hop.symm <;>
        simp [hown.2.1, hown.2.2.1]
    · rw [(heff.other _ hop).1]
  -- and its timer runs only while it waits
  · intro t hout ht
    by_cases hop : .inl t = op.timer
    · cases op with
      | start x =>
        change Sum.inl t = x at hop
        exact hwait t hout (by rw [hop])
      | stop x =>
        rw [hop] at ht
        have hm := (heff.own.2.2.2.2.2.mp ht).1
        rw [← hop] at hm
        exact hk.waiting t hout hm
      | control x cmd arg =>
        rw [hop] at ht
        have hm := heff.own.2.2.2.2.2.mp ht
        rw [← hop] at hm
        exact hk.waiting t hout hm
      | init | create => exact absurd (hop ▸ ht) heff.own.2.2.2.2.2
      | detach => exact absurd (hop ▸ ht) heff.own.2.2.2.2.2
      | delete => exact absurd (hop ▸ ht) heff.own.2.2.2.2
    · exact hk.waiting t hout ((heff.other _ hop).2.mp ht)

/-- A call about a timer of no thread. -/
theorem Wf.userTimerOp (hk : Wf lo out k σ zs) {op : TimerOp (T ⊕ U)} {s : Timers (T ⊕ U)}
    (hop : ∀ t, op.timer ≠ .inl t) (h : op.exec k.timers = .ok s) :
    ∃ zs', Wf lo out (k.withTimers s) σ zs' ∧ op.Effect k.timers zs s zs' ∧
      s.rtTick = k.timers.rtTick :=
  hk.timerOp h (fun t heq => absurd heq (hop t)) (fun t _ heq => absurd heq (hop t))
    (fun t _ heq => absurd (by rw [heq]; rfl) (hop t))

/-- Stopping the timer of a thread unlinks it. -/
theorem Wf.stopTimer (hk : Wf lo out k σ zs) {s : Timers (T ⊕ U)}
    (h : (TimerOp.stop (.inl t)).exec k.timers = .ok s) :
    ∃ zs', Wf lo out (k.withTimers s) σ zs' ∧
      (TimerOp.stop (.inl t)).Effect k.timers zs s zs' ∧ .inl t ∉ zs' ∧
      s.rtTick = k.timers.rtTick := by
  obtain ⟨zs', hk', heff, htick⟩ := hk.timerOp h (fun _ _ => ⟨rfl, by simp⟩) (by simp [TimerOp.timer])
    (fun _ _ hop => by cases hop)
  refine ⟨zs', hk', heff, ?_, htick⟩
  intro hm
  obtain ⟨hbefore, hoff⟩ := heff.own.2.2.2.2.2.mp hm
  have hon := hk.activated t hbefore
  exact absurd (hon.symm.trans hoff) (by simp)

/-- Detaching the timer of a thread unlinks it. -/
theorem Wf.detachTimer (hk : Wf lo (insert t out) k σ zs) {s : Timers (T ⊕ U)}
    (h : (TimerOp.detach (.inl t)).exec k.timers = .ok s) :
    ∃ zs', Wf lo (insert t out) (k.withTimers s) σ zs' ∧
      (TimerOp.detach (.inl t)).Effect k.timers zs s zs' ∧ .inl t ∉ zs' ∧
      s.rtTick = k.timers.rtTick := by
  obtain ⟨zs', hk', heff, htick⟩ := hk.timerOp h (fun _ _ => ⟨rfl, by simp⟩)
    (fun u hu hop => absurd (by simpa [TimerOp.timer] using hop) fun heq : t = u => hu (by simp [heq]))
    (fun _ _ hop => by cases hop)
  exact ⟨zs', hk', heff, heff.own.2.2.2.2.2, htick⟩

end

/-! ## Where a thread sits -/

theorem Wf.not_ready (hk : Wf lo out k σ zs) (hstat : (k.thread t).stat ≠ .ready) (p : Nat) :
    t ∉ σ (.ready p) := by
  intro hm
  by_cases hout : t ∈ out
  · exact hk.outside t hout _ hm
  · exact hstat ((hk.ready t hout p).mp hm).1

theorem Wf.fresh_of_init (hk : Wf lo out k σ zs) (hstat : (k.thread t).stat = .init) :
    Fresh σ t := by
  intro h hm
  cases h with
  | ready p => exact hk.not_ready (by simp [hstat]) p hm
  | defunct =>
    have := (hk.defunct t hm).1
    simp [hstat] at this
  | suspend i =>
    have := hk.suspended i t hm
    simp [hstat] at this

/-- A thread that is in no list may be taken out. -/
theorem Wf.takeOut (hk : Wf lo out k σ zs) (hfresh : Fresh σ t) :
    Wf lo (insert t out) k σ zs := by
  refine { hk with outside := ?_, sound := ?_, ready := ?_, closed := ?_, waiting := ?_ }
  · intro u hu
    cases hu with
    | inl hut => exact hut ▸ hfresh
    | inr hu => exact hk.outside u hu
  all_goals intro u hu
  all_goals have hout : u ∉ out := fun h => hu (by simp [h])
  · exact hk.sound u hout
  · exact hk.ready u hout
  · exact hk.closed u hout
  · exact hk.waiting u hout

/-! ## `rt_schedule` -/

/-- The thread `rt_schedule` picks is at the front of the first ready list that is not empty. -/
theorem Wf.highestReady (hk : Wf lo out k σ zs) {p : Nat}
    (h : k.highestReadyThread = .ok (p, t)) :
    p < 32 ∧ (∃ rest, σ (.ready p) = t :: rest) ∧ ∀ q < p, σ (.ready q) = [] := by
  unfold highestReadyThread at h
  by_cases hzero : k.rtThreadReadyPriorityGroup = 0
  · rw [hzero] at h
    simp [rtFfs] at h
  · obtain ⟨p', hffs, hset, hclear⟩ := rtFfs_spec hzero
    rw [hffs] at h
    simp only at h
    have hlt : p' < 32 := by
      by_contra hge
      rw [BitVec.getLsbD_of_ge _ _ (by omega)] at hset
      cases hset
    cases hnext : k.tlist.next (.inl (.ready p')) with
    | inl head => simp [hnext] at h
    | inr u =>
      simp only [hnext, exec_pure_ok, Prod.mk.injEq] at h
      obtain ⟨rfl, rfl⟩ := h
      refine ⟨hlt, hk.holds.next_head_eq_elem hnext, ?_⟩
      intro q hq
      have hbit := (hk.group q (by omega)).not.mp (by simp [hclear q hq])
      simpa using hbit

/-- As long as the group is not zero, there is a thread to pick. -/
theorem Wf.highestReady_exists (hk : Wf lo out k σ zs)
    (hgroup : k.rtThreadReadyPriorityGroup ≠ 0) :
    ∃ p t, k.highestReadyThread = .ok (p, t) := by
  obtain ⟨p, hffs, hset, -⟩ := rtFfs_spec hgroup
  have hlt : p < 32 := by
    by_contra hge
    rw [BitVec.getLsbD_of_ge _ _ (by omega)] at hset
    cases hset
  have hne := (hk.group p hlt).mp hset
  have hnext := hk.holds.next_head (.ready p)
  cases hσ : σ (.ready p) with
  | nil => exact absurd hσ hne
  | cons t rest =>
    rw [hσ, firstOr_cons] at hnext
    exact ⟨p, t, by simp [highestReadyThread, hffs, hnext, pure, Except.pure]⟩

/-- `k` with the scheduler switched to another thread. -/
def switchedTo (k : State T U I) (current : Option T) (priority : Nat) : State T U I :=
  { k with rtCurrentThread := current, rtCurrentPriority := priority }

@[simp] theorem switchedTo_thread (c : Option T) (p : Nat) :
    (k.switchedTo c p).thread = k.thread := rfl
@[simp] theorem switchedTo_timers (c : Option T) (p : Nat) :
    (k.switchedTo c p).timers = k.timers := rfl
@[simp] theorem switchedTo_current (c : Option T) (p : Nat) :
    (k.switchedTo c p).rtCurrentThread = c := rfl

theorem Wf.switched (hk : Wf lo out k σ zs) (c : Option T) (p : Nat) :
    Wf lo out (k.switchedTo c p) σ zs := { hk with }

variable [DecidableEq T]

theorem rtSchedule_eq (h : k.rtSchedule = .ok k') :
    ∃ c p, k' = k.switchedTo c p ∧
      (k.rtSchedulerLockNest ≠ 0 → c = k.rtCurrentThread) ∧
      (k.rtSchedulerLockNest = 0 → ∃ q t, k.highestReadyThread = .ok (q, t) ∧ c = some t) := by
  unfold rtSchedule at h
  split at h
  case isTrue hlock =>
    simp only [exec_bind_ok] at h
    obtain ⟨⟨q, t⟩, hpick, h⟩ := h
    simp only at h
    cases hcur : k.rtCurrentThread with
    | none => simp [hcur] at h
    | some current =>
      simp only [hcur] at h
      split at h
      · simp only [exec_pure_ok] at h
        exact ⟨some t, q, h.symm, fun hne => absurd hlock hne, fun _ => ⟨q, t, hpick, rfl⟩⟩
      case isFalse hsame =>
        simp only [exec_pure_ok] at h
        refine ⟨some current, k.rtCurrentPriority, ?_, fun _ => rfl, fun _ => ⟨q, t, hpick, ?_⟩⟩
        · rw [← h, ← hcur]
          rfl
        · rw [not_not.mp hsame]
  case isFalse hlock =>
    simp only [exec_pure_ok] at h
    exact ⟨k.rtCurrentThread, k.rtCurrentPriority, h.symm, fun _ => rfl,
      fun hzero => absurd hzero hlock⟩

theorem rtSchedule_returns {p : Nat} {c : T} (hpick : k.highestReadyThread = .ok (p, t))
    (hcur : k.rtCurrentThread = some c) (hlock : k.rtSchedulerLockNest = 0) :
    ∃ k', k.rtSchedule = .ok k' ∧ k'.rtCurrentThread = some t := by
  by_cases hsame : t = c
  · refine ⟨k, ?_, hsame ▸ hcur⟩
    simp [rtSchedule, hlock, hpick, hcur, hsame, bind, Except.bind, pure, Except.pure]
  · refine ⟨k.switchedTo (some t) p, ?_, rfl⟩
    simp [rtSchedule, hlock, hpick, hcur, hsame, bind, Except.bind, pure, Except.pure, switchedTo]

/-- While a thread is ready, `rt_schedule` returns. -/
theorem Wf.rtSchedule_total (hk : Wf lo out k σ zs) (ht : t ∉ out)
    (hstat : (k.thread t).stat = .ready) (hrunning : k.rtCurrentThread.isSome) :
    ∃ k', k.rtSchedule = .ok k' := by
  by_cases hlock : k.rtSchedulerLockNest = 0
  · have hmem := (hk.ready t ht (k.thread t).currentPriority).mpr ⟨hstat, rfl⟩
    have hbit := (hk.group _ (hk.sound t ht).currentPriority).mpr (List.ne_nil_of_mem hmem)
    obtain ⟨p, u, hpick⟩ := hk.highestReady_exists fun hzero => by simp [hzero] at hbit
    obtain ⟨c, hcur⟩ := Option.isSome_iff_exists.mp hrunning
    obtain ⟨k', hschedule, -⟩ := rtSchedule_returns hpick hcur hlock
    exact ⟨k', hschedule⟩
  · exact ⟨k, by rw [State.rtSchedule, if_neg hlock]; rfl⟩

/-! ## Operations on one thread -/

/-- An operation on `t` leaves the other threads and the other timers as they are, and every
    list but for `t`. -/
structure Touches (t : T) (k : State T U I) (σ : ListHead I → List T) (zs : List (T ⊕ U))
    (k' : State T U I) (σ' : ListHead I → List T) (zs' : List (T ⊕ U)) : Prop where
  thread : ∀ u, u ≠ t → k'.thread u = k.thread u
  lists : erase σ' t = erase σ t
  timer : ∀ x, x ≠ .inl t → k'.timers.timer x = k.timers.timer x ∧ (x ∈ zs' ↔ x ∈ zs)
  rtTick : k'.timers.rtTick = k.timers.rtTick
  lock : k'.rtSchedulerLockNest = k.rtSchedulerLockNest

theorem Touches.refl (t : T) (k : State T U I) (σ : ListHead I → List T) (zs : List (T ⊕ U)) :
    Touches t k σ zs k σ zs :=
  ⟨fun _ _ => rfl, rfl, fun _ _ => ⟨rfl, Iff.rfl⟩, rfl, rfl⟩

theorem Touches.trans {k₁ k₂ k₃ : State T U I} {σ₁ σ₂ σ₃ : ListHead I → List T}
    {zs₁ zs₂ zs₃ : List (T ⊕ U)} (h₁ : Touches t k₁ σ₁ zs₁ k₂ σ₂ zs₂)
    (h₂ : Touches t k₂ σ₂ zs₂ k₃ σ₃ zs₃) : Touches t k₁ σ₁ zs₁ k₃ σ₃ zs₃ where
  thread u hu := (h₂.thread u hu).trans (h₁.thread u hu)
  lists := h₂.lists.trans h₁.lists
  timer x hx := ⟨(h₂.timer x hx).1.trans (h₁.timer x hx).1,
    (h₂.timer x hx).2.trans (h₁.timer x hx).2⟩
  rtTick := h₂.rtTick.trans h₁.rtTick
  lock := h₂.lock.trans h₁.lock

theorem Touches.switched {σ' : ListHead I → List T} {zs' : List (T ⊕ U)}
    (h : Touches t k σ zs k' σ' zs') (c : Option T) (p : Nat) :
    Touches t k σ zs (k'.switchedTo c p) σ' zs' := { h with }

/-- Only fields of `t` and links change. -/
theorem Touches.ofThread {σ' : ListHead I → List T} (hthread : ∀ u, u ≠ t → k'.thread u = k.thread u)
    (hlists : erase σ' t = erase σ t) (htimers : k'.timers = k.timers)
    (hlock : k'.rtSchedulerLockNest = k.rtSchedulerLockNest) :
    Touches t k σ zs k' σ' zs :=
  ⟨hthread, hlists, fun _ _ => ⟨by rw [htimers], Iff.rfl⟩, by rw [htimers], hlock⟩

/-- A call about the timer of `t`. -/
theorem Touches.timerOp {op : TimerOp (T ⊕ U)} {s : Timers (T ⊕ U)} {zs' : List (T ⊕ U)}
    (heff : op.Effect k.timers zs s zs') (hop : op.timer = .inl t)
    (htick : s.rtTick = k.timers.rtTick) : Touches t k σ zs (k.withTimers s) σ zs' :=
  ⟨fun _ _ => rfl, rfl, fun x hx => heff.other x (hop ▸ hx), htick, rfl⟩

/-! ## Suspending and resuming -/

variable [DecidableEq U] [DecidableEq I] [Fintype T] [Fintype U]

theorem Wf.rtThreadSuspend (hk : Wf lo out k σ zs) (ht : t ∉ out) {err : Err}
    (h : k.rtThreadSuspend t = .ok (k', err)) :
    (k.thread t).type ≠ .null ∧
      ((err = .error ∧ k' = k ∧ (k.thread t).stat ≠ .ready) ∨
        (err = .eok ∧ (k.thread t).stat = .ready ∧ ∃ s zs',
          k' = ((k.removedThread t).setStat t .suspend).withTimers s ∧ .inl t ∉ zs' ∧
          Wf lo out k' (erase σ t) zs' ∧ Touches t k σ zs k' (erase σ t) zs')) := by
  simp only [State.rtThreadSuspend, exec_bind_ok, rtAssert_eq_ok] at h
  obtain ⟨_, htype, h⟩ := h
  refine ⟨htype, ?_⟩
  by_cases hstat : (k.thread t).stat = .ready
  · simp only [hstat, ne_eq, not_true_eq_false, if_false, exec_bind_ok, exec_pure_ok,
      Prod.mk.injEq] at h
    obtain ⟨k₁, hremove, k₂, hstop, rfl, rfl⟩ := h
    obtain ⟨-, rfl⟩ := rtScheduleRemoveThread_eq hremove
    obtain ⟨s, hexec, rfl⟩ := liftTimers_stop hstop
    rw [removedThread_setStat] at hexec ⊢
    have hremoved := (hk.removeThread ht).change fun th => { th with stat := .suspend }
    obtain ⟨zs', hstopped, heff, hgone, htick⟩ := hremoved.stopTimer hexec
    have hregistered : (s.timer (.inl t)).type ≠ .null := heff.own.2.2.1
    refine .inr ⟨rfl, hstat, s, zs', rfl, hgone, hstopped.settle ?_ ?_ ?_ ?_, ?_⟩
    · simpa using (hk.sound t ht).restat .suspend (.inl htype) fun _ => .inl hstat
    · simp
    · simp [htype, hregistered]
    · exact fun hm => absurd hm hgone
    · have hlinks : Touches t k σ zs ((k.removedThread t).setStat t .suspend) (erase σ t) zs :=
        .ofThread (fun u hu => by simp [hu]) (hk.holds.erase_erase t) rfl rfl
      exact hlinks.trans (.timerOp heff rfl htick)
  · simp only [hstat, ne_eq, not_false_eq_true, if_true, exec_pure_ok, Prod.mk.injEq] at h
    exact .inl ⟨h.2.symm, h.1.symm, hstat⟩

omit [DecidableEq I] [Fintype T] [Fintype U] in
theorem liftTimers_stop_returns {x : T ⊕ U} (h : (k.timers.timer x).type ≠ .null) :
    ∃ k', k.liftTimers (·.rtTimerStop x) Prod.fst = .ok k' := by
  have hstop : ∃ out, k.timers.rtTimerStop x = .ok out := by
    unfold Timers.rtTimerStop
    split <;> exact ⟨_, exec_bind_ok.mpr ⟨(), rtAssert_eq_ok.mpr h, rfl⟩⟩
  obtain ⟨out, hout⟩ := hstop
  exact ⟨_, liftTimers_eq_ok.mpr ⟨out, hout, rfl⟩⟩

omit [Fintype T] [Fintype U] in
theorem Wf.rtThreadSuspend_returns (hk : Wf lo out k σ zs) (ht : t ∉ out)
    (hstat : (k.thread t).stat = .ready) : ∃ k', k.rtThreadSuspend t = .ok (k', .eok) := by
  obtain ⟨htype, hregistered⟩ := hk.alive ht (.inl hstat)
  have hremove : (k.setStat t .suspend).rtScheduleRemoveThread t =
      .ok ((k.setStat t .suspend).removedThread t) :=
    rtScheduleRemoveThread_returns (by simpa using (hk.sound t ht).currentPriority)
  obtain ⟨k', hstop⟩ := liftTimers_stop_returns
    (k := (k.setStat t .suspend).removedThread t) (x := .inl t) hregistered
  refine ⟨k', exec_bind_ok.mpr ⟨(), rtAssert_eq_ok.mpr htype, ?_⟩⟩
  rw [if_neg (by simp [hstat])]
  exact exec_bind_ok.mpr ⟨_, hremove, exec_bind_ok.mpr ⟨k', hstop, rfl⟩⟩

/-- After the first critical section of `rt_thread_resume` the thread is in no list and its
    timer is stopped. -/
theorem Wf.rtThreadResumeUnlink (hk : Wf lo out k σ zs) (ht : t ∉ out)
    (hstat : (k.thread t).stat = .suspend) (h : k.rtThreadResumeUnlink t = .ok k') :
    ∃ s zs', k' = (k.unlink t).withTimers s ∧ .inl t ∉ zs' ∧ Wf lo out k' (erase σ t) zs' ∧
      Touches t k σ zs k' (erase σ t) zs' := by
  obtain ⟨s, hexec, rfl⟩ := liftTimers_stop h
  have hunlinked := hk.unlink (hk.not_ready (t := t) (by simp [hstat]))
  obtain ⟨zs', hstopped, heff, hgone, htick⟩ := hunlinked.stopTimer hexec
  have hregistered : (s.timer (.inl t)).type ≠ .null := heff.own.2.2.1
  refine ⟨s, zs', rfl, hgone, hstopped.settle (hk.sound t ht) (by simp [hstat])
    (by simp [hstat, (hk.alive ht (.inr hstat)).1, hregistered]) (fun hm => absurd hm hgone), ?_⟩
  have hlinks : Touches t k σ zs (k.unlink t) (erase σ t) zs :=
    .ofThread (fun _ _ => rfl) (hk.holds.erase_erase t) rfl rfl
  exact hlinks.trans (.timerOp heff rfl htick)

section

omit [DecidableEq U] [Fintype T] [Fintype U]

/-- A waiting thread that is in no list, its timer stopped, goes into its ready list. -/
theorem Wf.insertWaiting (hk : Wf lo out k σ zs) (ht : t ∉ out)
    (hstat : (k.thread t).stat = .suspend) (hfresh : Fresh σ t) (htimer : .inl t ∉ zs) :
    Wf lo out (k.insertedThread t) (pushBack σ (.ready (k.thread t).currentPriority) t) zs := by
  obtain ⟨htype, hregistered⟩ := hk.alive ht (.inr hstat)
  refine (hk.takeOut hfresh).insertThread ht ?_ htimer hregistered
  simpa using (hk.sound t ht).restat .ready (.inl htype) fun _ => .inr hstat

theorem Touches.insertedThread (hfresh : Fresh σ t) :
    Touches t k σ zs (k.insertedThread t)
      (pushBack σ (.ready (k.thread t).currentPriority) t) zs :=
  .ofThread (fun u hu => by simp [hu]) (by rw [erase_pushBack hfresh, erase_of_fresh hfresh])
    rfl rfl

end

theorem Wf.rtThreadResume (hk : Wf lo out k σ zs) (ht : t ∉ out) {err : Err}
    (h : k.rtThreadResume t = .ok (k', err)) :
    (k.thread t).type ≠ .null ∧
      ((err = .error ∧ k' = k ∧ (k.thread t).stat ≠ .suspend) ∨
        (err = .eok ∧ (k.thread t).stat = .suspend ∧ ∃ s zs' σ',
          k' = ((k.unlink t).withTimers s).insertedThread t ∧ .inl t ∉ zs' ∧
          σ' = pushBack (erase σ t) (.ready (k.thread t).currentPriority) t ∧
          Wf lo out k' σ' zs' ∧ Touches t k σ zs k' σ' zs')) := by
  simp only [State.rtThreadResume, exec_bind_ok, rtAssert_eq_ok] at h
  obtain ⟨_, htype, h⟩ := h
  refine ⟨htype, ?_⟩
  by_cases hstat : (k.thread t).stat = .suspend
  · simp only [hstat, ne_eq, not_true_eq_false, if_false, exec_bind_ok, exec_pure_ok,
      Prod.mk.injEq] at h
    obtain ⟨k₁, hunlink, k₂, hinsert, rfl, rfl⟩ := h
    obtain ⟨s, zs', rfl, hgone, hk₁, htouch⟩ := hk.rtThreadResumeUnlink ht hstat hunlink
    obtain ⟨-, rfl⟩ := rtScheduleInsertThread_eq hinsert
    have hfresh := hk.holds.fresh_erase t
    exact .inr ⟨rfl, hstat, s, zs', _, rfl, hgone, rfl, hk₁.insertWaiting ht hstat hfresh hgone,
      htouch.trans (.insertedThread hfresh)⟩
  · simp only [hstat, ne_eq, not_false_eq_true, if_true, exec_pure_ok, Prod.mk.injEq] at h
    exact .inl ⟨h.2.symm, h.1.symm, hstat⟩

theorem Wf.rtThreadResume_returns (hk : Wf lo out k σ zs) (ht : t ∉ out)
    (hstat : (k.thread t).stat = .suspend) : ∃ k', k.rtThreadResume t = .ok (k', .eok) := by
  obtain ⟨htype, hregistered⟩ := hk.alive ht (.inr hstat)
  obtain ⟨k₁, hunlink⟩ : ∃ k₁, k.rtThreadResumeUnlink t = .ok k₁ :=
    liftTimers_stop_returns hregistered
  obtain ⟨s, -, rfl, -⟩ := hk.rtThreadResumeUnlink ht hstat hunlink
  have hinsert : ((k.unlink t).withTimers s).rtScheduleInsertThread t =
      .ok (((k.unlink t).withTimers s).insertedThread t) :=
    rtScheduleInsertThread_returns (by simpa using (hk.sound t ht).currentPriority)
  refine ⟨((k.unlink t).withTimers s).insertedThread t, exec_bind_ok.mpr ⟨(), rtAssert_eq_ok.mpr htype, ?_⟩⟩
  rw [if_neg (by simp [hstat])]
  exact exec_bind_ok.mpr ⟨_, hunlink, exec_bind_ok.mpr ⟨_, hinsert, rfl⟩⟩

/-- A thread whose wait has timed out. -/
def timedOut (k : State T U I) (t : T) : State T U I :=
  ((k.setError t .etimeout).unlink t).insertedThread t

section

omit [DecidableEq U] [Fintype T] [Fintype U]

@[simp] theorem timedOut_thread : (k.timedOut t).thread =
    Function.update k.thread t { k.thread t with stat := .ready, error := .etimeout } := by
  simp [timedOut]
@[simp] theorem timedOut_timers : (k.timedOut t).timers = k.timers := rfl

theorem Wf.timedOut (hk : Wf lo out k σ zs) (ht : t ∉ out) (htimer : .inl t ∉ zs)
    (hstat : (k.thread t).stat = .suspend) :
    Wf lo out (k.timedOut t) (pushBack (erase σ t) (.ready (k.thread t).currentPriority) t) zs ∧
      Touches t k σ zs (k.timedOut t)
        (pushBack (erase σ t) (.ready (k.thread t).currentPriority) t) zs := by
  obtain ⟨htype, hregistered⟩ := hk.alive ht (.inr hstat)
  have hout := (hk.unlink (hk.not_ready (t := t) (by simp [hstat]))).change
    fun th => { th with error := .etimeout }
  have hsound : ((((k.setError t .etimeout).unlink t).setStat t .ready).thread t).Sound := by
    have hs := (hk.sound t ht).restat .ready (.inl htype) fun _ => .inr hstat
    exact ⟨by simpa using hs.null, by simpa using hs.initPriority,
      by simpa using hs.currentPriority, by simpa using hs.mask, by simpa using hs.masked⟩
  have hinserted := hout.insertThread ht hsound htimer hregistered
  have hprio : (((k.unlink t).modifyThread t fun th => { th with error := .etimeout }).thread
      t).currentPriority = (k.thread t).currentPriority := by simp
  rw [hprio] at hinserted
  exact ⟨hinserted, .ofThread (fun u hu => by simp [hu])
    (erase_pushBack (hk.holds.fresh_erase t)) rfl rfl⟩

/-- `rt_thread_timeout`, for a thread whose timer is out of the timer list. -/
theorem Wf.rtThreadTimeout (hk : Wf lo out k σ zs) (ht : t ∉ out) (htimer : .inl t ∉ zs)
    (h : k.rtThreadTimeout t = .ok k') :
    (k.thread t).stat = .suspend ∧ ∃ c p σ',
      k' = (k.timedOut t).switchedTo c p ∧
      σ' = pushBack (erase σ t) (.ready (k.thread t).currentPriority) t ∧
      Wf lo out k' σ' zs ∧ Touches t k σ zs k' σ' zs := by
  simp only [State.rtThreadTimeout, exec_bind_ok, rtAssert_eq_ok] at h
  obtain ⟨_, hstat, _, htype, k₁, hinsert, hschedule⟩ := h
  obtain ⟨-, rfl⟩ := rtScheduleInsertThread_eq hinsert
  obtain ⟨c, p, rfl, -, -⟩ := rtSchedule_eq hschedule
  obtain ⟨hk', htouch⟩ := hk.timedOut ht htimer hstat
  exact ⟨hstat, c, p, _, rfl, rfl, hk'.switched c p, htouch.switched c p⟩

theorem Wf.rtThreadTimeout_returns (hk : Wf lo out k σ zs) (ht : t ∉ out) (htimer : .inl t ∉ zs)
    (hstat : (k.thread t).stat = .suspend) (hrunning : k.rtCurrentThread.isSome) :
    ∃ k', k.rtThreadTimeout t = .ok k' := by
  have hinsert : ((k.setError t .etimeout).unlink t).rtScheduleInsertThread t =
      .ok (k.timedOut t) :=
    rtScheduleInsertThread_returns (by simpa using (hk.sound t ht).currentPriority)
  obtain ⟨hk', -⟩ := hk.timedOut ht htimer hstat
  obtain ⟨k', hschedule⟩ := hk'.rtSchedule_total ht (by simp) hrunning
  exact ⟨k', exec_bind_ok.mpr ⟨(), rtAssert_eq_ok.mpr hstat, exec_bind_ok.mpr
    ⟨(), rtAssert_eq_ok.mpr (hk.alive ht (.inr hstat)).1, exec_bind_ok.mpr
      ⟨_, hinsert, hschedule⟩⟩⟩⟩

end

end State

end PandoraRobot.Kernel
