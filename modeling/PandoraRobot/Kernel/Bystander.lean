import PandoraRobot.Kernel.WaitList

/-! # Threads an operation is not about

An operation is about one thread.  Any other keeps its fields, its timer and its list
(`Untouched`), and runs afterwards only if it did before or the scheduler has picked
it (`RunsOn`).
-/

namespace PandoraRobot.Kernel

open PandoraRobot.RingList

namespace State

variable {T U I : Type}

variable {lo : Int} {out : Set T} {k k' : State T U I} {σ σ' : ListHead I → List T}
  {zs zs' : List (T ⊕ U)} {t : T}

/-- `t` is as before but for its time slice, in the state `k'` with the lists `σ'` and `zs'`. -/
structure Untouched (t : T) (k : State T U I) (σ : ListHead I → List T) (zs : List (T ⊕ U))
    (k' : State T U I) (σ' : ListHead I → List T) (zs' : List (T ⊕ U)) : Prop where
  thread : ∃ remainingTick, k'.thread t = { k.thread t with remainingTick := remainingTick }
  timer : k'.timers.timer (.inl t) = k.timers.timer (.inl t)
  linked : .inl t ∈ zs' ↔ .inl t ∈ zs
  lists : ∀ h, t ∈ σ' h ↔ t ∈ σ h
  rtTick : k'.timers.rtTick = k.timers.rtTick

theorem Untouched.stat (h : Untouched t k σ zs k' σ' zs') :
    (k'.thread t).stat = (k.thread t).stat := by
  obtain ⟨n, hn⟩ := h.thread
  rw [hn]

variable [DecidableEq T] in
theorem Touches.untouched {u : T} (h : Touches u k σ zs k' σ' zs') (hne : t ≠ u) :
    Untouched t k σ zs k' σ' zs' := by
  refine ⟨⟨_, h.thread t hne⟩, (h.timer (.inl t) (by simpa using hne)).1,
    (h.timer (.inl t) (by simpa using hne)).2, fun head => ?_, h.rtTick⟩
  have hlists := congrFun h.lists head
  rw [← List.mem_erase_of_ne hne, ← List.mem_erase_of_ne hne (l := σ head)]
  exact iff_of_eq (congrArg (t ∈ ·) hlists)

/-- Only the links of ready lists, the running thread and fields of no thread change. -/
theorem Untouched.refl (hthread : k'.thread = k.thread) (htimers : k'.timers = k.timers) :
    Untouched t k σ zs k' σ zs :=
  ⟨⟨_, congrFun hthread t⟩, by rw [htimers], Iff.rfl, fun _ => Iff.rfl, by rw [htimers]⟩

theorem Untouched.trans {k₁ : State T U I} {σ₁ : ListHead I → List T} {zs₁ : List (T ⊕ U)}
    (h₁ : Untouched t k σ zs k₁ σ₁ zs₁) (h₂ : Untouched t k₁ σ₁ zs₁ k' σ' zs') :
    Untouched t k σ zs k' σ' zs' where
  thread := by
    obtain ⟨n, hn⟩ := h₁.thread
    obtain ⟨m, hm⟩ := h₂.thread
    exact ⟨m, by rw [hm, hn]⟩
  timer := h₂.timer.trans h₁.timer
  linked := h₂.linked.trans h₁.linked
  lists head := (h₂.lists head).trans (h₁.lists head)
  rtTick := h₂.rtTick.trans h₁.rtTick

/-- The same thread runs, under the same lock. -/
def SameRun (k k' : State T U I) : Prop :=
  k'.rtCurrentThread = k.rtCurrentThread ∧ k'.rtSchedulerLockNest = k.rtSchedulerLockNest

theorem SameRun.trans {k₁ k₂ k₃ : State T U I} (h₁ : SameRun k₁ k₂) (h₂ : SameRun k₂ k₃) :
    SameRun k₁ k₃ :=
  ⟨h₂.1.trans h₁.1, h₂.2.trans h₁.2⟩

theorem liftTimers_sameRun {α : Type} {f : Timers (T ⊕ U) → Exec α} {set : α → Timers (T ⊕ U)}
    (h : k.liftTimers f set = .ok k') : SameRun k k' := by
  obtain ⟨_, -, rfl⟩ := liftTimers_eq_ok.mp h
  exact ⟨rfl, rfl⟩

variable [DecidableEq T] [DecidableEq I]

theorem rtScheduleRemoveThread_sameRun (h : k.rtScheduleRemoveThread t = .ok k') :
    SameRun k k' := by
  obtain ⟨-, rfl⟩ := rtScheduleRemoveThread_eq h
  exact ⟨rfl, rfl⟩

theorem rtScheduleInsertThread_sameRun (h : k.rtScheduleInsertThread t = .ok k') :
    SameRun k k' := by
  obtain ⟨-, rfl⟩ := rtScheduleInsertThread_eq h
  exact ⟨rfl, rfl⟩

variable [DecidableEq U] in
theorem rtThreadInitFields_sameRun {priority : Nat} {tick : Tick}
    (h : k.rtThreadInitFields t priority tick = .ok k') : SameRun k k' := by
  simp only [rtThreadInitFields, exec_bind_ok] at h
  obtain ⟨_, -, h⟩ := h
  have hsame := liftTimers_sameRun h
  exact ⟨hsame.1, hsame.2⟩

theorem leaveScheduler_sameRun (h : k.leaveScheduler t = .ok k') : SameRun k k' := by
  unfold leaveScheduler at h
  split at h
  · exact rtScheduleRemoveThread_sameRun h
  · simp only [exec_pure_ok] at h
    exact h ▸ ⟨rfl, rfl⟩

theorem detachOrDefunct_sameRun : SameRun k (k.detachOrDefunct t) := by
  unfold detachOrDefunct
  split <;> exact ⟨rfl, rfl⟩

section

variable [DecidableEq U]

theorem rtThreadSuspend_sameRun {err : Err} (h : k.rtThreadSuspend t = .ok (k', err)) :
    SameRun k k' := by
  simp only [rtThreadSuspend, exec_bind_ok] at h
  obtain ⟨_, -, h⟩ := h
  split at h
  · simp only [exec_pure_ok, Prod.mk.injEq] at h
    exact h.1 ▸ ⟨rfl, rfl⟩
  · simp only [exec_bind_ok, exec_pure_ok, Prod.mk.injEq] at h
    obtain ⟨k₁, hremove, k₂, hstop, rfl, -⟩ := h
    have hstat : SameRun k (k.setStat t .suspend) := ⟨rfl, rfl⟩
    exact (hstat.trans (rtScheduleRemoveThread_sameRun hremove)).trans (liftTimers_sameRun hstop)

theorem rtThreadResume_sameRun {err : Err} (h : k.rtThreadResume t = .ok (k', err)) :
    SameRun k k' := by
  simp only [rtThreadResume, exec_bind_ok] at h
  obtain ⟨_, -, h⟩ := h
  split at h
  · simp only [exec_pure_ok, Prod.mk.injEq] at h
    exact h.1 ▸ ⟨rfl, rfl⟩
  · simp only [exec_bind_ok, exec_pure_ok, Prod.mk.injEq] at h
    obtain ⟨k₁, hunlink, k₂, hinsert, rfl, -⟩ := h
    have hlinks : SameRun k (k.unlink t) := ⟨rfl, rfl⟩
    exact (hlinks.trans (liftTimers_sameRun hunlink)).trans (rtScheduleInsertThread_sameRun hinsert)

theorem changePriority_sameRun {priority : Nat}
    (h : k.rtThreadControl t (.changePriority priority) = .ok k') : SameRun k k' := by
  simp only [rtThreadControl, exec_bind_ok] at h
  obtain ⟨_, -, h⟩ := h
  split at h
  · simp only [exec_bind_ok] at h
    obtain ⟨k₁, hremove, hinsert⟩ := h
    have hfields : SameRun k₁ (k₁.modifyThread t (·.withPriority priority)) := ⟨rfl, rfl⟩
    exact ((rtScheduleRemoveThread_sameRun hremove).trans hfields).trans
      (rtScheduleInsertThread_sameRun hinsert)
  · simp only [exec_pure_ok] at h
    exact h ▸ ⟨rfl, rfl⟩

end

/-- If `t` runs in `k'`, it ran in `k` already, or the scheduler has picked it. -/
structure RunsOn (t : T) (k k' : State T U I) : Prop where
  picked : k'.rtCurrentThread = some t →
    (k.rtCurrentThread = some t ∧ k'.rtSchedulerLockNest = k.rtSchedulerLockNest) ∨
      ((k'.thread t).stat = .ready ∧ k'.rtSchedulerLockNest = 0)
  running : k.rtCurrentThread.isSome → k'.rtCurrentThread.isSome

omit [DecidableEq T] [DecidableEq I] in
theorem SameRun.runsOn (h : SameRun k k') : RunsOn t k k' :=
  ⟨fun hruns => .inl ⟨h.1 ▸ hruns, h.2⟩, fun hsome => by rwa [h.1]⟩

omit [DecidableEq I] in
/-- `rt_schedule` picks a ready thread, and none while the scheduler is locked. -/
theorem Wf.runsOn_schedule {k₁ : State T U I} (hk' : Wf lo out k' σ zs) (hsame : SameRun k k₁)
    (h : k₁.rtSchedule = .ok k') : RunsOn t k k' := by
  obtain ⟨c, p, rfl, hlocked, hfree⟩ := rtSchedule_eq h
  by_cases hzero : k₁.rtSchedulerLockNest = 0
  · obtain ⟨q, u, hpick, rfl⟩ := hfree hzero
    refine ⟨fun hruns => .inr ?_, fun _ => rfl⟩
    obtain rfl : u = t := Option.some.inj hruns
    have hk₁ : Wf lo out k₁ σ zs := { hk' with }
    obtain ⟨-, ⟨rest, hσ⟩, -⟩ := hk₁.highestReady hpick
    have hmem : u ∈ σ (.ready q) := by simp [hσ]
    have hout : u ∉ out := fun hout => hk₁.outside u hout _ hmem
    exact ⟨((hk₁.ready u hout q).mp hmem).1, hzero⟩
  · rw [hlocked hzero]
    exact SameRun.runsOn hsame

omit [DecidableEq T] [DecidableEq I] in
theorem RunsOn.trans {k₁ : State T U I} (h₁ : RunsOn t k k₁) (h₂ : RunsOn t k₁ k')
    (hstat : (k'.thread t).stat = (k₁.thread t).stat) : RunsOn t k k' := by
  refine ⟨fun hruns => ?_, fun hsome => h₂.running (h₁.running hsome)⟩
  rcases h₂.picked hruns with ⟨hruns₁, hlock⟩ | hready
  · rcases h₁.picked hruns₁ with ⟨hruns₀, hlock₀⟩ | ⟨hready, hlock₀⟩
    · exact .inl ⟨hruns₀, hlock.trans hlock₀⟩
    · exact .inr ⟨hstat.trans hready, hlock.trans hlock₀⟩
  · exact .inr hready

theorem rtThreadYield_schedules (h : k.rtThreadYield = .ok k') :
    SameRun k k' ∨ ∃ k₁ : State T U I, SameRun k k₁ ∧ k₁.rtSchedule = .ok k' := by
  simp only [rtThreadYield, exec_bind_ok] at h
  obtain ⟨u, -, h⟩ := h
  split at h
  · split at h
    · simp at h
    · exact .inr ⟨_, by exact ⟨rfl, rfl⟩, h⟩
  · simp only [exec_pure_ok] at h
    exact .inl (h ▸ ⟨rfl, rfl⟩)

theorem Wf.runsOn_timeout {u : T} (hk' : Wf lo out k' σ zs) (h : k.rtThreadTimeout u = .ok k') :
    RunsOn t k k' := by
  simp only [State.rtThreadTimeout, exec_bind_ok] at h
  obtain ⟨_, -, _, -, k₁, hinsert, hschedule⟩ := h
  have hsame := rtScheduleInsertThread_sameRun hinsert
  exact hk'.runsOn_schedule ⟨hsame.1, hsame.2⟩ hschedule

end State

end PandoraRobot.Kernel
