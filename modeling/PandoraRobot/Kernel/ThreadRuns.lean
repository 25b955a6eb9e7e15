import PandoraRobot.Kernel.KernelOp

/-! # Runs of the scheduler

A run begins before any thread exists and goes on with any calls of the thread
operations, on any threads, with blocking on IPC objects, with the idle thread and
with tick interrupts.  In an interrupt the timeout functions of timers may make
calls as well: which ones is an arbitrary function of the timer and the state.
-/

namespace PandoraRobot.Kernel

open PandoraRobot.RingList

namespace State

variable {T U I : Type} [DecidableEq T] [DecidableEq U] [DecidableEq I] [Fintype T] [Fintype U]

/-- The calls the timeout function of a timer makes. -/
abbrev Callback (T U I : Type) := U → State T U I → List (KernelOp T U I)

def timeoutFunc (cb : Callback T U I) (u : U) (k : State T U I) : Exec (State T U I) :=
  (cb u k).foldlM (fun k op => op.exec k) k

inductive Step (cb : Callback T U I) : State T U I → State T U I → Prop where
  | call {k k' : State T U I} (op : KernelOp T U I) : op.exec k = .ok k' → Step cb k k'
  /-- The running thread blocks on an IPC object. -/
  | wait {k k' : State T U I} (i : I) (flag : IpcFlag) (t : T) : k.rtCurrentThread = some t →
      (k.thread t).stat = .ready → k.rtIpcListSuspend i t flag = .ok k' → Step cb k k'
  | idle {k k' : State T U I} (fuel : Nat) : k.rtThreadIdleExcute fuel = .ok k' → Step cb k k'
  | tick {k k' : State T U I} (fuel : Nat) :
      k.rtTickIncrease (timeoutFunc cb) fuel = .ok k' → Step cb k k'
  | start {k k' : State T U I} : k.rtSystemSchedulerStart = .ok k' → Step cb k k'

abbrev Runs (cb : Callback T U I) : State T U I → State T U I → Prop :=
  Relation.ReflTransGen (Step cb)

/-- The state `rt_system_scheduler_init` and `rt_system_timer_init` leave, at any tick. -/
structure Initial (k : State T U I) : Prop where
  tlist : Holds k.tlist fun _ => []
  timerList : k.timers.Linked []
  thread : ∀ t, k.thread t = {}
  timer : ∀ x, k.timers.timer x = {}
  group : k.rtThreadReadyPriorityGroup = 0
  lock : k.rtSchedulerLockNest = 0

/-- The invariant of the scheduler between two calls. -/
def Good (lo : Int) (k : State T U I) : Prop := ∃ σ zs, Wf lo ∅ k σ zs

variable {cb : Callback T U I} {lo : Int} {k k' : State T U I}

omit [DecidableEq T] [DecidableEq U] [DecidableEq I] [Fintype T] [Fintype U] in
theorem Initial.good (hi : Initial k) : Good 0 k := by
  refine ⟨fun _ => [], [], ⟨by omega, le_refl _⟩, hi.tlist, by simp, ?_, ?_, by simp, by simp,
    by simp [hi.group], ⟨hi.timerList, by simp, List.Pairwise.nil, by simp⟩, by simp,
    by simp [hi.timer], by simp [hi.timer, hi.thread], by simp⟩
  · intro t _
    rw [hi.thread t]
    constructor <;> simp [rtThreadPriorityMax]
  · intro t _ p
    simp [hi.thread t]

theorem Good.exec (hg : Good lo k) {op : KernelOp T U I} (h : op.exec k = .ok k') :
    Good lo k' := by
  obtain ⟨σ, zs, hk⟩ := hg
  obtain ⟨σ', zs', hk', -⟩ := hk.exec (by simp) h
  exact ⟨σ', zs', hk'⟩

theorem Good.calls (hg : Good lo k) {ops : List (KernelOp T U I)}
    (h : ops.foldlM (fun k op => op.exec k) k = .ok k') : Good lo k' := by
  induction ops generalizing k with
  | nil =>
    simp only [List.foldlM_nil, exec_pure_ok] at h
    exact h ▸ hg
  | cons op ops ih =>
    simp only [List.foldlM_cons, exec_bind_ok] at h
    obtain ⟨k₁, hexec, hrest⟩ := h
    exact ih (hg.exec hexec) hrest

/-! ## The tick interrupt -/

/-- The states `rt_tick_increase` goes through, from the call of `rt_timer_check` on. -/
inductive InTick (cb : Callback T U I) (k : State T U I) : State T U I → Prop where
  | check {k₁ : State T U I} : k.rtTickBegin = .ok k₁ → InTick cb k k₁
  | fire {k₁ k₂ : State T U I} (x : T ⊕ U) : InTick cb k k₁ →
      k₁.timers.rtTimerList.next (.inl ()) = .inr x →
      k₁.timers.due k₁.timers.rtTick x = true →
      (host (timeoutFunc cb)).fire x k₁ = .ok k₂ → InTick cb k k₂

theorem inTick_of_rtTickIncrease {fuel : Nat}
    (h : k.rtTickIncrease (timeoutFunc cb) fuel = .ok k') :
    InTick cb k k' ∧ ∀ x, k'.timers.rtTimerList.next (.inl ()) = .inr x →
      k'.timers.due k'.timers.rtTick x = false := by
  simp only [rtTickIncrease, exec_bind_ok] at h
  obtain ⟨k₁, hbegin, hcheck⟩ := h
  exact TimerHost.rtTimerCheck_rule (host (timeoutFunc cb))
    (fun q x q' hq hnext hdue hfired => .fire x hq hnext hdue hfired) (.check hbegin) hcheck

theorem Good.fire (hg : Good lo k) {x : T ⊕ U}
    (hnext : k.timers.rtTimerList.next (.inl ()) = .inr x)
    (h : (host (timeoutFunc cb)).fire x k = .ok k') : Good lo k' := by
  obtain ⟨σ, zs, hk⟩ := hg
  obtain ⟨rest, hzs⟩ := Holds.next_head_eq_elem hk.sorted.linked hnext
  change zs = x :: rest at hzs
  subst hzs
  cases x with
  | inl t =>
    obtain ⟨-, σ', zs', -, hk', -⟩ := hk.fireThread (by simp) h
    exact ⟨σ', zs', hk'⟩
  | inr u =>
    obtain ⟨k₁, hcall, hend⟩ := TimerHost.fire_cases h
    have hg₁ : Good lo k₁ := Good.calls ⟨σ, rest, hk.removeFront⟩ hcall
    obtain ⟨σ₁, zs₁, hk₁⟩ := hg₁
    obtain ⟨zs', hk', -⟩ := hk₁.fireEnd hend
    exact ⟨σ₁, zs', hk'⟩

theorem Good.inTick (hg : Good 0 k) (h : InTick cb k k') : Good (-1) k' := by
  induction h with
  | @check k₁ hbegin =>
    obtain ⟨σ, zs, hk⟩ := hg
    cases hcur : k.rtCurrentThread with
    | none => simp [State.rtTickBegin, rtThreadSelf, hcur] at hbegin
    | some t =>
      obtain ⟨σ₁, hk₁, -⟩ := hk.rtTickBegin hcur hbegin
      exact ⟨σ₁, zs, hk₁⟩
  | fire x _ hnext _ hfired ih => exact ih.fire hnext hfired

theorem Good.tick (hg : Good 0 k) {fuel : Nat}
    (h : k.rtTickIncrease (timeoutFunc cb) fuel = .ok k') : Good 0 k' := by
  obtain ⟨hin, hfront⟩ := inTick_of_rtTickIncrease h
  obtain ⟨σ', zs', hk'⟩ := hg.inTick hin
  exact ⟨σ', zs', hk'.mono fun x hx => hfront x (hk'.next_timer hx)⟩

theorem Good.step (hg : Good 0 k) (h : Step cb k k') : Good 0 k' := by
  cases h with
  | call op h => exact hg.exec h
  | wait i flag t hcur hstat h =>
    obtain ⟨σ, zs, hk⟩ := hg
    obtain ⟨xs, ys, zs', -, -, -, hk', -⟩ := hk.rtIpcListSuspend (by simp) hstat h
    exact ⟨_, zs', hk'⟩
  | idle fuel h =>
    obtain ⟨σ, zs, hk⟩ := hg
    obtain ⟨σ', hk', -⟩ := hk.rtThreadIdleExcute h
    exact ⟨σ', zs, hk'⟩
  | tick fuel h => exact hg.tick h
  | start h =>
    obtain ⟨σ, zs, hk⟩ := hg
    simp only [rtSystemSchedulerStart, exec_bind_ok, exec_pure_ok] at h
    obtain ⟨⟨p, t⟩, -, rfl⟩ := h
    exact ⟨σ, zs, { hk with }⟩

theorem Good.runs (hg : Good 0 k) (hr : Runs cb k k') : Good 0 k' := by
  induction hr with
  | refl => exact hg
  | tail _ hstep ih => exact ih.step hstep

theorem runs_good {k₀ : State T U I} (hi : Initial k₀) (hr : Runs cb k₀ k) : Good 0 k :=
  hi.good.runs hr

/-- The ready table of `k` is in order: `σ` are the lists the links of `k` spell out. -/
structure ReadyTable (k : State T U I) (σ : ListHead I → List T) : Prop where
  holds : Holds k.tlist σ
  /-- A bit of the group is set exactly when its list is not empty. -/
  group : ∀ p < rtThreadPriorityMax,
    k.rtThreadReadyPriorityGroup.getLsbD p = true ↔ σ (.ready p) ≠ []
  /-- A ready thread is in the list of its priority and in no other. -/
  listed : ∀ t, (k.thread t).stat = .ready →
    (k.thread t).currentPriority < rtThreadPriorityMax ∧
      ∀ h, t ∈ σ h ↔ h = .ready (k.thread t).currentPriority
  /-- No other thread is in a ready list. -/
  others : ∀ t p, t ∈ σ (.ready p) → (k.thread t).stat = .ready
  /-- `rt_schedule` switches to the front of the first list that is not empty, which is the one
      that `__rt_ffs` of the group names. -/
  picks : ∀ current, k.rtThreadReadyPriorityGroup ≠ 0 → k.rtSchedulerLockNest = 0 →
    k.rtCurrentThread = some current →
    ∃ p t rest k', rtFfs k.rtThreadReadyPriorityGroup = p + 1 ∧ σ (.ready p) = t :: rest ∧
      (∀ q < p, σ (.ready q) = []) ∧ k.rtSchedule = .ok k' ∧ k'.rtCurrentThread = some t

/-- The ready table is in order in every state a run reaches. -/
theorem ready_table_consistent (cb : Callback T U I) {k₀ k : State T U I} (hi : Initial k₀)
    (hr : Runs cb k₀ k) : ∃ σ, ReadyTable k σ := by
  obtain ⟨σ, zs, hk⟩ := runs_good hi hr
  have hready := fun t => hk.ready t (by simp)
  refine ⟨σ, hk.holds, hk.group, ?_, fun t p hm => ((hready t p).mp hm).1, ?_⟩
  · intro t hstat
    have hmem := (hready t (k.thread t).currentPriority).mpr ⟨hstat, rfl⟩
    refine ⟨(hk.sound t (by simp)).currentPriority, fun h => ⟨fun hm => ?_, fun heq => ?_⟩⟩
    · exact hk.holds.disjoint h _ t hm hmem
    · exact heq ▸ hmem
  · intro current hgroup hlock hcur
    obtain ⟨p, t, hpick⟩ := hk.highestReady_exists hgroup
    obtain ⟨hlt, ⟨rest, hσ⟩, hempty⟩ := hk.highestReady hpick
    obtain ⟨k', hschedule, hcur'⟩ := rtSchedule_returns hpick hcur hlock
    obtain ⟨p', hffs, hset, hclear⟩ := rtFfs_spec hgroup
    -- the lowest set bit is the first list that is not empty
    have hp : p' = p := by
      have hbit := (hk.group p hlt).mpr (by simp [hσ])
      rcases Nat.lt_trichotomy p' p with h | h | h
      · have := (hk.group p' (by omega)).mp hset
        exact absurd (hempty p' h) this
      · exact h
      · rw [hclear p h] at hbit
        cases hbit
    exact ⟨p, t, rest, k', hp ▸ hffs, hσ, hempty, hschedule, hcur'⟩

/-- The calls of a run, with `none` for a tick interrupt. -/
def script (cb : Callback T U I) (events : List (Option (KernelOp T U I))) (k : State T U I) :
    Exec (State T U I) :=
  events.foldlM (fun k event =>
    match event with
    | some op => op.exec k
    | none => k.rtTickIncrease (timeoutFunc cb) (Fintype.card (T ⊕ U) + 1)) k

theorem script_runs {events : List (Option (KernelOp T U I))}
    (h : k.script cb events = .ok k') : Runs cb k k' := by
  apply foldlM_runs (fun k event k' hstep => ?_) h
  cases event with
  | some op => exact .call op hstep
  | none => exact .tick _ hstep

/-- The kernel before any thread exists. -/
def boot : State T U I where
  timers := { rtTick := 0, rtTimerList := ⟨id, id⟩, timer := fun _ => {} }
  tlist := ⟨id, id⟩
  thread := fun _ => {}
  rtThreadReadyPriorityGroup := 0
  rtCurrentThread := none
  rtCurrentPriority := rtThreadPriorityMax - 1
  rtSchedulerLockNest := 0

omit [DecidableEq T] [DecidableEq U] [DecidableEq I] [Fintype T] [Fintype U] in
theorem boot_initial : Initial (boot : State T U I) :=
  ⟨holds_empty, holds_empty, fun _ => rfl, fun _ => rfl, rfl, rfl⟩

/-- The threads are set up with the given priorities, and the scheduler is started. -/
def booted (threads : List (T × Nat)) : Exec (State T U I) := do
  let k ← (threads.flatMap fun (t, priority) =>
    [KernelOp.init t priority 5, KernelOp.startup t]).foldlM (fun k op => op.exec k) boot
  k.rtSystemSchedulerStart

theorem booted_reached {threads : List (T × Nat)} (h : booted threads = .ok k) :
    ∃ k₀, Initial k₀ ∧ Runs cb k₀ k := by
  simp only [booted, exec_bind_ok] at h
  obtain ⟨k₁, hcalls, hstart⟩ := h
  have hruns : Runs cb boot k₁ := foldlM_runs (fun _ op _ hexec => .call op hexec) hcalls
  exact ⟨boot, boot_initial, hruns.tail (.start hstart)⟩

/-- A thread of priority 10 sleeps for two ticks, while the idle thread runs, and is back. -/
theorem ready_table_consistent_after_sleep :
    ∃ k : State (Fin 2) (Fin 0) (Fin 0), Runs (fun _ _ => []) boot k ∧
      k.rtThreadReadyPriorityGroup = 0x80000400 ∧ k.rtCurrentThread = some 1 ∧
      ∃ σ, ReadyTable k σ := by
  let cb : Callback (Fin 2) (Fin 0) (Fin 0) := fun _ _ => []
  let setUp : List (Option (KernelOp (Fin 2) (Fin 0) (Fin 0))) :=
    [some (.init 0 31 5), some (.startup 0), some (.init 1 10 5), some (.startup 1)]
  let run : Exec (State (Fin 2) (Fin 0) (Fin 0)) := do
    let k ← State.script cb setUp boot
    let k ← k.rtSystemSchedulerStart
    k.script cb [some (.sleep 2), none, none]
  obtain ⟨k, hk, hdata⟩ := exec_exists_ok (show
    run.map (fun k : State _ _ _ => (k.rtThreadReadyPriorityGroup, k.rtCurrentThread)) =
      .ok (0x80000400, some 1) by decide +kernel)
  simp only [run, exec_bind_ok] at hk
  obtain ⟨k₁, hsetUp, k₂, hstart, hsleep⟩ := hk
  simp only [Prod.mk.injEq] at hdata
  have hruns : Runs cb boot k :=
    ((script_runs hsetUp).tail (.start hstart)).trans (script_runs hsleep)
  exact ⟨k, hruns, hdata.1, hdata.2, ready_table_consistent cb boot_initial hruns⟩

end State

end PandoraRobot.Kernel
