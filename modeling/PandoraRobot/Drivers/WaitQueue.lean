import PandoraRobot.Kernel.Blocking

/-! # Wait queues

`rt_wqueue_wait` and `rt_wqueue_wakeup` of `waitqueue.c`, on one queue for which any number of
threads wait.  A stretch of code between `rt_hw_interrupt_disable` and `rt_hw_interrupt_enable` is
one step, and so are the test of the condition and of the time that begins a wait, and the
`rt_wqueue_remove` that ends it.

A wait that has timed out stays in the list until its thread runs again, and a wake-up in between
goes to it.  A wait that ends clears the flag, also where the flag was set for another thread.
-/

namespace PandoraRobot.Drivers

open PandoraRobot.Kernel

/-- `RT_WAITING_FOREVER`. -/
def WaitQueue.rtWaitingForever : Tick := 0xffffffff

section Code

variable {T U I : Type} [DecidableEq T] [DecidableEq U] [DecidableEq I] [Fintype T] [Fintype U]

/-- `rt_wqueue_wait` from the first `rt_hw_interrupt_disable` on, up to `rt_schedule` or to the
    end of the stretch at `__exit_wakeup`.  The queue is its flag, true for `RT_WQ_FLAG_WAKEUP`,
    and the threads of `waiting_list`.  The last part tells whether the thread is suspended. -/
def rtWqueueWait (tid : T) (tick : Tick) (flag : Bool) (waitingList : List T) (k : State T U I) :
    Exec (State T U I × Bool × List T × Bool) :=
  if flag then pure (k, false, waitingList, false)
  else do
    let (k, _) ← k.rtThreadSuspend tid
    let k ← if tick ≠ WaitQueue.rtWaitingForever then k.startThreadTimer tid tick else pure k
    pure (k, flag, waitingList ++ [tid], true)

/-- `rt_wqueue_wakeup` up to its `rt_schedule`.  All nodes have `__wqueue_default_wake`, so that
    the loop ends at the first one. -/
def rtWqueueWakeup (waitingList : List T) (k : State T U I) :
    Exec (State T U I × Bool × List T) :=
  match waitingList with
  | [] => pure (k, true, [])
  | thread :: rest => do
    let (k, _) ← k.rtThreadResume thread
    pure (k, true, rest)

end Code

/-- How far a thread is in `rt_wqueue_wait`. -/
inductive WqStage where
  | outside
  /-- It has found the condition false, and is about to disable the interrupts. -/
  | sampled (tick : Tick)
  /-- It has been suspended. -/
  | waiting
  /-- It has cleared the flag, and is about to remove its node and to return. -/
  | cleared
  deriving DecidableEq, Repr

def WqStage.isSampled : WqStage → Bool
  | .sampled _ => true
  | _ => false

/-- The kernel and the queue. -/
structure WaitQueue (T U I : Type) where
  kernel : State T U I
  flag : Bool
  waitingList : List T
  stage : T → WqStage
  /-- A wake-up has been issued since the thread sampled its condition. -/
  woken : T → Bool

namespace WaitQueue

variable {T U I : Type} [DecidableEq T]

def goto (t : T) (stage : WqStage) (s : WaitQueue T U I) : WaitQueue T U I :=
  { s with stage := Function.update s.stage t stage }

/-- `t` calls `rt_wqueue_wait`. -/
def sample (t : T) (condition : Bool) (msec : BitVec 32) (s : WaitQueue T U I) :
    WaitQueue T U I :=
  let tick := State.rtTickFromMillisecond msec
  if condition = true ∨ tick = 0 then s
  else { s.goto t (.sampled tick) with woken := Function.update s.woken t false }

section

variable [DecidableEq U] [DecidableEq I] [Fintype T] [Fintype U]

def suspend (t : T) (tick : Tick) (s : WaitQueue T U I) : Exec (WaitQueue T U I) := do
  let (k, flag, waitingList, suspended) ← rtWqueueWait t tick s.flag s.waitingList s.kernel
  pure { s.goto t (if suspended then .waiting else .cleared) with
    kernel := k, flag := flag, waitingList := waitingList }

/-- What `rt_wqueue_wait` does once its `rt_schedule` has returned. -/
def clear (t : T) (s : WaitQueue T U I) : WaitQueue T U I :=
  { s.goto t .cleared with flag := false }

/-- `rt_wqueue_remove`, and the return. -/
def remove (t : T) (s : WaitQueue T U I) : WaitQueue T U I :=
  { s.goto t .outside with waitingList := s.waitingList.erase t }

def wakeup (s : WaitQueue T U I) : Exec (WaitQueue T U I) := do
  let (k, flag, waitingList) ← rtWqueueWakeup s.waitingList s.kernel
  pure { s with kernel := k, flag := flag, waitingList := waitingList, woken := fun _ => true }

inductive Act (T : Type) where
  | sample (t : T)
  | suspend (t : T)
  | clear (t : T)
  | remove (t : T)
  | wakeup
  | elsewhere
  deriving DecidableEq, Repr

inductive Step (cb : State.Callback T U I) :
    Act T → WaitQueue T U I → WaitQueue T U I → Prop where
  | sample {s : WaitQueue T U I} (t : T) (condition : Bool) (msec : BitVec 32) :
      s.kernel.Running t → s.stage t = .outside →
      Step cb (.sample t) s (s.sample t condition msec)
  | suspend {s s' : WaitQueue T U I} (t : T) (tick : Tick) : s.kernel.Running t →
      s.stage t = .sampled tick → s.suspend t tick = .ok s' → Step cb (.suspend t) s s'
  | clear {s : WaitQueue T U I} (t : T) : s.kernel.Running t → s.stage t = .waiting →
      Step cb (.clear t) s (s.clear t)
  | remove {s : WaitQueue T U I} (t : T) : s.kernel.Running t → s.stage t = .cleared →
      Step cb (.remove t) s (s.remove t)
  | wakeup {s s' : WaitQueue T U I} : s.wakeup = .ok s' → Step cb .wakeup s s'
  | elsewhere {s : WaitQueue T U I} {k : State T U I} :
      State.Elsewhere cb (fun u => s.stage u ≠ .outside) s.kernel k →
      Step cb .elsewhere s { s with kernel := k }

/-- The thread is suspended in the queue: it has neither been woken, nor has it timed out. -/
def Waits (s : WaitQueue T U I) (t : T) : Prop :=
  s.stage t = .waiting ∧ (s.kernel.thread t).stat = .suspend

/-- A wake-up resumes a thread that waits, if there is one, and a wake-up before a thread is
    suspended makes its wait return. -/
def Right : Act T → WaitQueue T U I → WaitQueue T U I → Prop
  | .wakeup, s, s' => (∃ t, s.Waits t) → ∃ t, s.Waits t ∧ (s'.kernel.thread t).stat = .ready
  | .suspend t, s, s' => s.woken t = true → s'.stage t = .cleared ∧ s'.kernel = s.kernel
  | _, _, _ => True

/-- No other thread has sampled its condition before the last wake-up, and is still to be
    suspended. -/
def Alone (t : T) (s : WaitQueue T U I) : Prop :=
  ∀ u, u ≠ t → ∀ tick, s.stage u = .sampled tick → s.woken u = false

/-- A wake-up does not come while the first thread of the list has timed out and others behind it
    wait, and no wait clears a flag that has been set for another thread. -/
def Meets : Act T → WaitQueue T U I → Prop
  | .wakeup, s => (∃ t, s.Waits t) →
      ∀ t ∈ s.waitingList.head?, (s.kernel.thread t).stat = .suspend
  | .suspend t, s => s.flag = true → s.Alone t
  | .clear t, s => s.Alone t
  | _, _ => True

/-- The runs whose steps meet the condition. -/
abbrev Runs (cb : State.Callback T U I) : WaitQueue T U I → WaitQueue T U I → Prop :=
  Relation.ReflTransGen fun s s' => ∃ act, Meets act s ∧ Step cb act s s'

/-- Any kernel state a run reaches in which no thread waits, after `rt_wqueue_init`. -/
structure Initial (cb : State.Callback T U I) (s : WaitQueue T U I) : Prop where
  reached : ∃ k₀, State.Initial k₀ ∧ State.Runs cb k₀ s.kernel
  empty : ∀ i, rtListIsempty (.inl (.suspend i)) s.kernel.tlist = true
  flag : s.flag = false
  waitingList : s.waitingList = []
  stage : ∀ t, s.stage t = .outside

end

@[simp] theorem goto_kernel (t : T) (stage : WqStage) (s : WaitQueue T U I) :
    (s.goto t stage).kernel = s.kernel := rfl
@[simp] theorem goto_flag (t : T) (stage : WqStage) (s : WaitQueue T U I) :
    (s.goto t stage).flag = s.flag := rfl
@[simp] theorem goto_stage (t : T) (stage : WqStage) (s : WaitQueue T U I) :
    (s.goto t stage).stage = Function.update s.stage t stage := rfl

/-! ## The list and the flag -/

/-- A thread that waits is in the list, and a thread that has been woken finds the flag set. -/
structure Inv (s : WaitQueue T U I) (v : View T I) : Prop where
  shows_ : State.Shows 0 s.kernel v
  nobody : ∀ i, v.waits i = []
  nodup : s.waitingList.Nodup
  listed : ∀ t ∈ s.waitingList, s.stage t = .waiting ∨ s.stage t = .cleared
  waits : ∀ t, s.stage t = .waiting → (v.thread t).stat = .suspend → t ∈ s.waitingList
  awake : ∀ t, s.stage t ≠ .outside → s.stage t ≠ .waiting → (v.thread t).stat ≠ .suspend
  woken : ∀ t tick, s.stage t = .sampled tick → s.woken t = true → s.flag = true

variable {cb : State.Callback T U I} {s s' : WaitQueue T U I} {v v' : View T I} {t : T}

section

omit [DecidableEq T]

theorem Inv.ready (hi : Inv s v) (hrunning : s.kernel.Running t) : (v.thread t).stat = .ready := by
  have hready := hrunning.2
  rwa [hi.shows_.thread] at hready

theorem Inv.waits_iff (hi : Inv s v) :
    s.Waits t ↔ s.stage t = .waiting ∧ (v.thread t).stat = .suspend := by
  rw [Waits, hi.shows_.thread]

end

/-- A thread that is not suspended goes on. -/
theorem Inv.goto (hi : Inv s v) (hawake : (v.thread t).stat ≠ .suspend) (stage : WqStage)
    (hlisted : t ∈ s.waitingList → stage = .waiting ∨ stage = .cleared)
    (hwoken : ∀ tick, stage = .sampled tick → s.woken t = true → s.flag = true) :
    Inv (s.goto t stage) v := by
  refine ⟨hi.shows_, hi.nobody, hi.nodup, fun u hu => ?_, fun u hwaiting hstat => ?_,
    fun u hout hwaiting => ?_, fun u tick hsampled => ?_⟩
  · by_cases heq : u = t
    · subst heq
      simpa using hlisted hu
    · simpa [heq] using hi.listed u hu
  · have hne : u ≠ t := fun heq => hawake (heq ▸ hstat)
    exact hi.waits u (by simpa [hne] using hwaiting) hstat
  · by_cases heq : u = t
    · exact heq ▸ hawake
    · exact hi.awake u (by simpa [heq] using hout) (by simpa [heq] using hwaiting)
  · by_cases heq : u = t
    · subst heq
      exact hwoken tick (by simpa using hsampled)
    · exact hi.woken u tick (by simpa [heq] using hsampled)

theorem Inv.sample (hi : Inv s v) (hrunning : s.kernel.Running t) (hstage : s.stage t = .outside)
    (condition : Bool) (msec : BitVec 32) : Inv (s.sample t condition msec) v := by
  dsimp only [WaitQueue.sample]
  split
  · exact hi
  have hforgets : Inv { s with woken := Function.update s.woken t false } v := by
    refine { hi with woken := fun u tick hsampled hwoken => ?_ }
    have hne : u ≠ t := fun heq => by simp [heq, hstage] at hsampled
    exact hi.woken u tick hsampled (by simpa [hne] using hwoken)
  refine hforgets.goto (by simp [hi.ready hrunning]) _ (fun hmem => ?_) fun tick _ hwoken => ?_
  · rcases hi.listed t hmem with h | h <;> simp [hstage] at h
  · simp at hwoken

theorem Inv.clear (hi : Inv s v) (hawake : (v.thread t).stat ≠ .suspend) (halone : s.Alone t) :
    Inv (s.clear t) v := by
  have hgone := hi.goto hawake .cleared (fun _ => .inr rfl) (by simp)
  refine { hgone with woken := fun u tick hsampled hwoken => ?_ }
  have hsampled : (s.goto t .cleared).stage u = .sampled tick := hsampled
  have hne : u ≠ t := fun heq => by simp [heq] at hsampled
  have hfalse := halone u hne tick (by simpa [hne] using hsampled)
  exact absurd (hfalse.symm.trans hwoken) (by simp)

theorem Inv.remove (hi : Inv s v) (hawake : (v.thread t).stat ≠ .suspend) :
    Inv (s.remove t) v := by
  have herased : Inv { s with waitingList := s.waitingList.erase t } v :=
    { hi with
      nodup := hi.nodup.erase t
      listed := fun u hu => hi.listed u (List.mem_of_mem_erase hu)
      waits := fun u hwaiting hstat => hi.nodup.mem_erase_iff.mpr
        ⟨fun heq => hawake (heq ▸ hstat), hi.waits u hwaiting hstat⟩ }
  exact herased.goto hawake .outside (fun hmem => absurd hmem hi.nodup.not_mem_erase) (by simp)

variable [DecidableEq U] [DecidableEq I] [Fintype T] [Fintype U]

/-- The thread finds the flag set, or it is put into the list and suspended. -/
theorem Inv.suspend (hi : Inv s v) (hrunning : s.kernel.Running t) {tick : Tick}
    (hstage : s.stage t = .sampled tick) (hmeets : s.flag = true → s.Alone t)
    (h : s.suspend t tick = .ok s') : ∃ v', Inv s' v' := by
  have hready := hi.ready hrunning
  simp only [WaitQueue.suspend, rtWqueueWait, exec_bind_ok] at h
  obtain ⟨⟨k, flag, waitingList, suspended⟩, hwait, h⟩ := h
  simp only [exec_pure_ok] at h
  subst h
  split at hwait
  -- the event came in between, and the flag is cleared
  case isTrue hflag =>
    simp only [exec_pure_ok, Prod.mk.injEq] at hwait
    obtain ⟨rfl, rfl, rfl, rfl⟩ := hwait
    exact ⟨v, hi.clear (by simp [hready]) (hmeets hflag)⟩
  case isFalse hflag =>
    simp only [exec_bind_ok] at hwait
    obtain ⟨⟨k₁, err⟩, hsuspend, hwait⟩ := hwait
    have hs₁ := hi.shows_.rtThreadSuspend hready hsuspend
    obtain ⟨hs₂, rfl, rfl, rfl⟩ :
        State.Shows 0 k (v.modifyThread t fun th => { th with stat := .suspend }) ∧
        flag = s.flag ∧ waitingList = s.waitingList ++ [t] ∧ suspended = true := by
      split at hwait
      · simp only [exec_bind_ok, exec_pure_ok, Prod.mk.injEq] at hwait
        obtain ⟨k₂, htimer, rfl, rfl, rfl, rfl⟩ := hwait
        exact ⟨hs₁.startThreadTimer (by simp) htimer, rfl, rfl, rfl⟩
      · simp only [exec_pure_ok, pure_bind, Prod.mk.injEq] at hwait
        obtain ⟨rfl, rfl, rfl, rfl⟩ := hwait
        exact ⟨hs₁, rfl, rfl, rfl⟩
    -- the thread is not in the list from an earlier wait
    have hnew : t ∉ s.waitingList := by
      intro hmem
      rcases hi.listed t hmem with h | h <;> simp [hstage] at h
    refine ⟨_, hs₂, hi.nobody, ?_, fun u hu => ?_, fun u hwaiting hstat => ?_,
      fun u hout hwaiting => ?_, fun u tick' hsampled hwoken => ?_⟩
    · exact List.concat_eq_append ▸ hi.nodup.concat hnew
    · by_cases heq : u = t
      · simp [heq]
      · simpa [heq] using hi.listed u (by simpa [heq] using hu)
    · by_cases heq : u = t
      · simp [heq]
      · have hmem := hi.waits u (by simpa [heq] using hwaiting) (by simpa [heq] using hstat)
        simp [hmem]
    · by_cases heq : u = t
      · simp [heq] at hwaiting
      · have hne := hi.awake u (by simpa [heq] using hout) (by simpa [heq] using hwaiting)
        simpa [heq] using hne
    · have hne : u ≠ t := fun heq => by simp [heq] at hsampled
      exact hi.woken u tick' (by simpa [hne] using hsampled) hwoken

/-- The first thread of the list is taken off, and resumed if it is suspended. -/
theorem Inv.wakeup (hi : Inv s v) (h : s.wakeup = .ok s') : ∃ v', Inv s' v' ∧
    ∀ t ∈ s.waitingList.head?, (v.thread t).stat = .suspend → (v'.thread t).stat = .ready := by
  simp only [WaitQueue.wakeup, rtWqueueWakeup, exec_bind_ok] at h
  obtain ⟨⟨k, flag, waitingList⟩, hwake, h⟩ := h
  simp only [exec_pure_ok] at h
  subst h
  split at hwake
  case h_1 hnil =>
    simp only [exec_pure_ok, Prod.mk.injEq] at hwake
    obtain ⟨rfl, rfl, rfl⟩ := hwake
    exact ⟨v, { hi with
      nodup := List.nodup_nil
      listed := fun u hu => absurd hu List.not_mem_nil
      waits := fun u hwaiting hstat => hnil ▸ hi.waits u hwaiting hstat
      woken := fun _ _ _ _ => rfl }, by simp [hnil]⟩
  case h_2 u rest hlist =>
    simp only [exec_bind_ok, exec_pure_ok, Prod.mk.injEq] at hwake
    obtain ⟨⟨k₁, err⟩, hresume, rfl, rfl, rfl⟩ := hwake
    have hnodup := hi.nodup
    rw [hlist, List.nodup_cons] at hnodup
    -- the node goes, whether its thread is resumed or has timed out
    have hrest : ∀ v', State.Shows 0 k₁ v' → (∀ i, v'.waits i = []) →
        (∀ w, w ≠ u → (v'.thread w).stat = (v.thread w).stat) → (v'.thread u).stat ≠ .suspend →
        Inv { s with kernel := k₁, flag := true, waitingList := rest, woken := fun _ => true } v' := by
      intro v' hs' hnil hother hself
      refine ⟨hs', hnil, hnodup.2, fun w hw => ?_, fun w hwaiting hstat => ?_,
        fun w hout hwaiting => ?_, fun _ _ _ _ => rfl⟩
      · exact hi.listed w (hlist ▸ List.mem_cons_of_mem u hw)
      · have hne : w ≠ u := fun heq => hself (heq ▸ hstat)
        have hmem := hi.waits w hwaiting (by rw [← hother w hne]; exact hstat)
        rw [hlist] at hmem
        exact (List.mem_cons.mp hmem).resolve_left hne
      · by_cases heq : w = u
        · exact heq ▸ hself
        · rw [hother w heq]
          exact hi.awake w hout hwaiting
    by_cases hstat : (v.thread u).stat = .suspend
    · have hs' := hi.shows_.rtThreadResume hstat hresume
      refine ⟨_, hrest _ hs' (fun i => by simp [hi.nobody]) (fun w hw => by simp [hw]) (by simp), ?_⟩
      simp [hlist]
    · obtain ⟨σ, zs, hk, hwaits, hthread⟩ := hi.shows_
      obtain ⟨-, ⟨-, rfl, -⟩ | ⟨-, hsuspended, -⟩⟩ := hk.rtThreadResume (by simp) hresume
      · refine ⟨v, hrest v hi.shows_ hi.nobody (fun _ _ => rfl) hstat, ?_⟩
        simp [hlist, hstat]
      · exact absurd (hthread ▸ hsuspended) hstat

/-- Threads in `rt_wqueue_wait` time out, and nothing else happens to them. -/
theorem Inv.elsewhere (hi : Inv s v) {k : State T U I}
    (h : State.Elsewhere cb (fun u => s.stage u ≠ .outside) s.kernel k) :
    ∃ v', Inv { s with kernel := k } v' := by
  obtain ⟨v', hsteps, hs'⟩ := hi.shows_.elsewhere (fun i t hm => by simp [hi.nobody] at hm) h
  have hkept : (∀ i, v'.waits i = []) ∧ ∀ t, s.stage t ≠ .outside →
      (v'.thread t).stat = .suspend → (v.thread t).stat = .suspend := by
    clear hs'
    induction hsteps with
    | refl => exact ⟨hi.nobody, fun _ _ hstat => hstat⟩
    | tail _ hstep ih =>
      obtain ⟨hnil, hstill⟩ := ih
      cases hstep with
      | other hthread hwaits =>
        refine ⟨fun i => by rw [hwaits]; exact hnil i, fun t ht hstat => hstill t ht ?_⟩
        obtain ⟨n, hn⟩ := hthread t ht
        rw [hn] at hstat
        exact hstat
      | timeout u hu hstat =>
        refine ⟨fun i => by simp [hnil], fun t ht ht' => hstill t ht ?_⟩
        by_cases heq : t = u
        · simp [heq] at ht'
        · simpa [heq] using ht'
  exact ⟨v', { hi with
    shows_ := hs'
    nobody := hkept.1
    waits := fun t hwaiting hstat =>
      hi.waits t hwaiting (hkept.2 t (fun hout => by cases hwaiting.symm.trans hout) hstat)
    awake := fun t hout hwaiting hstat => hi.awake t hout hwaiting (hkept.2 t hout hstat) }⟩

theorem Inv.step (hi : Inv s v) {act : Act T} (hmeets : Meets act s) (h : Step cb act s s') :
    ∃ v', Inv s' v' := by
  cases h with
  | sample t condition msec hrunning hstage => exact ⟨v, hi.sample hrunning hstage condition msec⟩
  | suspend t tick hrunning hstage hsuspend => exact hi.suspend hrunning hstage hmeets hsuspend
  | clear t hrunning _ => exact ⟨v, hi.clear (by simp [hi.ready hrunning]) hmeets⟩
  | remove t hrunning _ => exact ⟨v, hi.remove (by simp [hi.ready hrunning])⟩
  | wakeup hwakeup =>
    obtain ⟨v', hi', -⟩ := hi.wakeup hwakeup
    exact ⟨v', hi'⟩
  | elsewhere helse => exact hi.elsewhere helse

theorem Initial.inv (h : Initial cb s) : ∃ v, Inv s v := by
  obtain ⟨k₀, hboot, hruns⟩ := h.reached
  obtain ⟨v, hs⟩ := (State.runs_good hboot hruns).shows
  refine ⟨v, hs, fun i => ?_, by simp [h.waitingList], by simp [h.waitingList],
    fun t hw => by simp [h.stage] at hw, fun t hout => absurd (h.stage t) hout,
    fun t tick hw => by simp [h.stage] at hw⟩
  have := h.empty i
  rw [hs.isempty] at this
  simpa using this

theorem Inv.runs (hi : Inv s v) (hr : Runs cb s s') : ∃ v', Inv s' v' := by
  induction hr with
  | refl => exact ⟨v, hi⟩
  | tail _ hstep ih =>
    obtain ⟨v₁, hi₁⟩ := ih
    obtain ⟨act, hmeets, hstep⟩ := hstep
    exact hi₁.step hmeets hstep

/-- The head of the list waits, and a thread that has been woken finds the flag set. -/
theorem Inv.right (hi : Inv s v) {act : Act T} (hmeets : Meets act s) (h : Step cb act s s') :
    Right act s s' := by
  cases h with
  | sample | clear | remove | elsewhere => trivial
  | suspend t tick hrunning hstage hsuspend =>
    intro hwoken
    have hflag := hi.woken t tick hstage hwoken
    simp only [WaitQueue.suspend, rtWqueueWait, hflag, if_true, exec_bind_ok, exec_pure_ok] at hsuspend
    obtain ⟨_, rfl, rfl⟩ := hsuspend
    exact ⟨by simp, rfl⟩
  | wakeup hwakeup =>
    intro hwaits
    have hhead := hmeets hwaits
    obtain ⟨t, ht⟩ := hwaits
    rw [hi.waits_iff] at ht
    have hmem := hi.waits t ht.1 ht.2
    cases hlist : s.waitingList with
    | nil => simp [hlist] at hmem
    | cons u rest =>
      have hstat : (s.kernel.thread u).stat = .suspend := hhead u (by simp [hlist])
      have hlisted := hi.listed u (by simp [hlist])
      obtain ⟨v', hi', hready⟩ := hi.wakeup hwakeup
      rw [hi.shows_.thread] at hstat
      have hstage : s.stage u = .waiting := by
        refine hlisted.resolve_right fun hcleared => ?_
        exact hi.awake u (by simp [hcleared]) (by simp [hcleared]) hstat
      refine ⟨u, hi.waits_iff.mpr ⟨hstage, hstat⟩, ?_⟩
      rw [hi'.shows_.thread]
      exact hready u (by simp [hlist]) hstat

/-- Every wake-up finds a thread that waits, or makes the waits return that are about to begin,
    as long as the steps before it have met the condition. -/
theorem rt_wqueue_wakes (cb : State.Callback T U I) {s₀ s s' : WaitQueue T U I}
    (hi : Initial cb s₀) (hr : Runs cb s₀ s) {act : Act T} (hmeets : Meets act s)
    (hstep : Step cb act s s') : Right act s s' := by
  obtain ⟨v₀, hi₀⟩ := hi.inv
  obtain ⟨v, hv⟩ := hi₀.runs hr
  exact hv.right hmeets hstep

/-! ## Runs, event by event -/

inductive Event (T : Type) where
  | sample (t : T) (condition : Bool) (msec : BitVec 32)
  | suspend (t : T)
  | clear (t : T)
  | remove (t : T)
  | wakeup
  | schedule
  | tick

/-- The act that an event is. -/
def Event.act : Event T → Act T
  | .sample t _ _ => .sample t
  | .suspend t => .suspend t
  | .clear t => .clear t
  | .remove t => .remove t
  | .wakeup => .wakeup
  | .schedule | .tick => .elsewhere

def play (may : Act T → WaitQueue T U I → Prop) [∀ act s, Decidable (may act s)]
    (s : WaitQueue T U I) (event : Event T) : Exec (WaitQueue T U I) := do
  rtAssert (may event.act s)
  match event with
  | .sample t condition msec => do
    rtAssert (s.kernel.rtCurrentThread = some t ∧ (s.kernel.thread t).stat = .ready)
    rtAssert (s.stage t = .outside)
    pure (s.sample t condition msec)
  | .suspend t =>
    match s.stage t with
    | .sampled tick => do
      rtAssert (s.kernel.rtCurrentThread = some t ∧ (s.kernel.thread t).stat = .ready)
      s.suspend t tick
    | _ => throw .assertion
  | .clear t => do
    rtAssert (s.kernel.rtCurrentThread = some t ∧ (s.kernel.thread t).stat = .ready)
    rtAssert (s.stage t = .waiting)
    pure (s.clear t)
  | .remove t => do
    rtAssert (s.kernel.rtCurrentThread = some t ∧ (s.kernel.thread t).stat = .ready)
    rtAssert (s.stage t = .cleared)
    pure (s.remove t)
  | .wakeup => s.wakeup
  | .schedule => do
    let k ← s.kernel.rtSchedule
    pure { s with kernel := k }
  | .tick => do
    let k ← s.kernel.rtTickIncrease (State.timeoutFunc fun _ _ => []) (Fintype.card (T ⊕ U) + 1)
    pure { s with kernel := k }

theorem play_step {may : Act T → WaitQueue T U I → Prop} [∀ act s, Decidable (may act s)]
    {event : Event T} (h : play may s event = .ok s') :
    may event.act s ∧ Step (fun _ _ => []) event.act s s' := by
  simp only [play, exec_bind_ok, rtAssert_eq_ok] at h
  obtain ⟨_, hmay, h⟩ := h
  refine ⟨hmay, ?_⟩
  cases event with
  | sample t condition msec =>
    simp only [exec_bind_ok, rtAssert_eq_ok, exec_pure_ok] at h
    obtain ⟨_, hrunning, _, hstage, rfl⟩ := h
    exact .sample t condition msec hrunning hstage
  | suspend t =>
    cases hstage : s.stage t with
    | sampled tick =>
      simp only [hstage, exec_bind_ok, rtAssert_eq_ok] at h
      obtain ⟨_, hrunning, hsuspend⟩ := h
      exact .suspend t tick hrunning hstage hsuspend
    | outside | waiting | cleared => simp [hstage] at h
  | clear t =>
    simp only [exec_bind_ok, rtAssert_eq_ok, exec_pure_ok] at h
    obtain ⟨_, hrunning, _, hstage, rfl⟩ := h
    exact .clear t hrunning hstage
  | remove t =>
    simp only [exec_bind_ok, rtAssert_eq_ok, exec_pure_ok] at h
    obtain ⟨_, hrunning, _, hstage, rfl⟩ := h
    exact .remove t hrunning hstage
  | wakeup => exact .wakeup h
  | schedule =>
    simp only [exec_bind_ok, exec_pure_ok] at h
    obtain ⟨k, hschedule, rfl⟩ := h
    exact .elsewhere (.call .schedule (by simp [State.Foreign, KernelOp.target])
      (by simp [KernelOp.own]) hschedule)
  | tick =>
    simp only [exec_bind_ok, exec_pure_ok] at h
    obtain ⟨k, htick, rfl⟩ := h
    exact .elsewhere (.tick _ (by simp) htick)

instance (t : T) (s : WaitQueue T U I) : Decidable (s.Alone t) :=
  decidable_of_iff (∀ u, u ≠ t → WqStage.isSampled (s.stage u) = true → s.woken u = false) (by
    refine forall₂_congr fun u _ => ⟨fun h tick hstage => h (by rw [hstage]; rfl), fun h => ?_⟩
    cases hstage : s.stage u with
    | sampled tick => exact fun _ => h tick hstage
    | outside | waiting | cleared => exact fun hfalse => absurd hfalse (by simp [WqStage.isSampled]))

instance (s : WaitQueue T U I) (t : T) : Decidable (s.Waits t) :=
  inferInstanceAs (Decidable (_ ∧ _))

instance (act : Act T) (s : WaitQueue T U I) : Decidable (Meets act s) :=
  match act with
  | .sample _ => isTrue trivial
  | .suspend t => inferInstanceAs (Decidable (s.flag = true → s.Alone t))
  | .clear t => inferInstanceAs (Decidable (s.Alone t))
  | .remove _ => isTrue trivial
  | .wakeup => inferInstanceAs (Decidable ((∃ t, s.Waits t) →
      ∀ t ∈ s.waitingList.head?, (s.kernel.thread t).stat = .suspend))
  | .elsewhere => isTrue trivial

/-- The queue, after `rt_wqueue_init`. -/
def init (k : State T U I) : WaitQueue T U I where
  kernel := k
  flag := false
  waitingList := []
  stage _ := .outside
  woken _ := false

theorem init_initial {threads : List (T × Nat)} {k : State T U I}
    (hk : State.booted threads = .ok k)
    (hempty : ∀ i, rtListIsempty (.inl (.suspend i)) k.tlist = true) :
    Initial (fun _ _ => []) (init k) :=
  ⟨State.booted_reached hk, hempty, rfl, rfl, fun _ => rfl⟩

/-- Threads of priorities 10 and 11 wait, the first of them for ever, and a wake-up comes. -/
theorem rt_wqueue_wakes_first :
    ∃ s₀ s s' : WaitQueue (Fin 3) (Fin 0) (Fin 0), Initial (fun _ _ => []) s₀ ∧
      Runs (fun _ _ => []) s₀ s ∧ (∃ t, s.Waits t) ∧ Step (fun _ _ => []) .wakeup s s' ∧
      Right .wakeup s s' := by
  let run : Exec (WaitQueue (Fin 3) (Fin 0) (Fin 0) × WaitQueue (Fin 3) (Fin 0) (Fin 0) ×
      WaitQueue (Fin 3) (Fin 0) (Fin 0)) := do
    let k ← State.booted [(0, 31), (1, 10), (2, 11)]
    let s ← [Event.sample 1 false 0xffffffff, .suspend 1, .schedule, .sample 2 false 50,
      .suspend 2, .schedule, .tick].foldlM (play Meets) (init k)
    let s' ← play Meets s .wakeup
    pure (init k, s, s')
  obtain ⟨⟨s₀, s, s'⟩, hrun, hdata⟩ := exec_exists_ok (show
    run.map (fun x => decide (∃ t, x.2.1.Waits t)) = .ok true by decide +kernel)
  simp only [run, exec_bind_ok, exec_pure_ok, Prod.mk.injEq] at hrun
  obtain ⟨k, hk, s, hplay, s', hwakeup, rfl, rfl, rfl⟩ := hrun
  have hinitial := init_initial hk finZeroElim
  have hruns : Runs (fun _ _ => []) (init k) s :=
    foldlM_runs (fun _ event _ h => ⟨event.act, play_step h⟩) hplay
  obtain ⟨hmeets, hstep⟩ := play_step hwakeup
  exact ⟨init k, s, s', hinitial, hruns, of_decide_eq_true hdata, hstep,
    rt_wqueue_wakes _ hinitial hruns hmeets hstep⟩

/-- The first of the two threads has timed out and has not run again.  The wake-up goes to it, and
    the other one is left suspended. -/
theorem rt_wqueue_wakeup_lost :
    ∃ s₀ s s' : WaitQueue (Fin 3) (Fin 0) (Fin 0), Initial (fun _ _ => []) s₀ ∧
      Relation.ReflTransGen (fun s s' => ∃ act, Step (fun _ _ => []) act s s') s₀ s ∧
      Step (fun _ _ => []) .wakeup s s' ∧ ¬ Right .wakeup s s' := by
  let run : Exec (WaitQueue (Fin 3) (Fin 0) (Fin 0) × WaitQueue (Fin 3) (Fin 0) (Fin 0) ×
      WaitQueue (Fin 3) (Fin 0) (Fin 0)) := do
    let k ← State.booted [(0, 31), (1, 10), (2, 11)]
    let s ← [Event.sample 1 false 1, .suspend 1, .schedule, .sample 2 false 0xffffffff,
      .suspend 2, .schedule, .tick].foldlM (play fun _ _ => True) (init k)
    let s' ← play (fun _ _ => True) s .wakeup
    pure (init k, s, s')
  obtain ⟨⟨s₀, s, s'⟩, hrun, hdata⟩ := exec_exists_ok (show
    run.map (fun x => (decide (∃ t, x.2.1.Waits t),
      decide (∃ t, x.2.1.Waits t ∧ (x.2.2.kernel.thread t).stat = .ready))) = .ok (true, false) by
    decide +kernel)
  simp only [run, exec_bind_ok, exec_pure_ok, Prod.mk.injEq] at hrun
  obtain ⟨k, hk, s, hplay, s', hwakeup, rfl, rfl, rfl⟩ := hrun
  simp only [Prod.mk.injEq, decide_eq_true_eq, decide_eq_false_iff_not] at hdata
  exact ⟨init k, s, s', init_initial hk finZeroElim,
    foldlM_runs (fun _ event _ h => ⟨event.act, (play_step h).2⟩) hplay, (play_step hwakeup).2,
    fun hright => hdata.2 (hright hdata.1)⟩

/-- A thread has sampled its condition when a wake-up comes.  The thread that the wake-up resumes
    clears the flag, and the other one is suspended. -/
theorem rt_wqueue_flag_lost :
    ∃ s₀ s s' : WaitQueue (Fin 3) (Fin 0) (Fin 0), Initial (fun _ _ => []) s₀ ∧
      Relation.ReflTransGen (fun s s' => ∃ act, Step (fun _ _ => []) act s s') s₀ s ∧
      Step (fun _ _ => []) (.suspend 2) s s' ∧ ¬ Right (.suspend 2) s s' := by
  let run : Exec (WaitQueue (Fin 3) (Fin 0) (Fin 0) × WaitQueue (Fin 3) (Fin 0) (Fin 0) ×
      WaitQueue (Fin 3) (Fin 0) (Fin 0)) := do
    let k ← State.booted [(0, 31), (1, 10), (2, 11)]
    let s ← [Event.sample 1 false 0xffffffff, .suspend 1, .schedule, .sample 2 false 0xffffffff,
      .wakeup, .schedule, .clear 1, .remove 1, .sample 1 false 0xffffffff, .suspend 1,
      .schedule].foldlM (play fun _ _ => True) (init k)
    let s' ← play (fun _ _ => True) s (.suspend 2)
    pure (init k, s, s')
  obtain ⟨⟨s₀, s, s'⟩, hrun, hdata⟩ := exec_exists_ok (show
    run.map (fun x => (x.2.1.woken 2, x.2.2.stage 2)) = .ok (true, .waiting) by decide +kernel)
  simp only [run, exec_bind_ok, exec_pure_ok, Prod.mk.injEq] at hrun
  obtain ⟨k, hk, s, hplay, s', hsuspend, rfl, rfl, rfl⟩ := hrun
  simp only [Prod.mk.injEq] at hdata
  refine ⟨init k, s, s', init_initial hk finZeroElim,
    foldlM_runs (fun _ event _ h => ⟨event.act, (play_step h).2⟩) hplay, (play_step hsuspend).2,
    fun hright => ?_⟩
  have hcleared := (hright hdata.1).1
  rw [hdata.2] at hcleared
  cases hcleared

end WaitQueue

end PandoraRobot.Drivers
