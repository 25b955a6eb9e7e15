import PandoraRobot.Kernel.Priority
import PandoraRobot.Lib.RankedList

/-! # The order of wait lists

A thread goes into a wait list with `RT_IPC_FLAG_PRIO` by its priority of that moment.  From then
on the calls of the kernel only take threads out of the list; but
`RT_THREAD_CTRL_CHANGE_PRIORITY` gives a thread another priority where it is.
-/

namespace PandoraRobot.Kernel

open PandoraRobot.RingList PandoraRobot.RankedList

namespace View

variable {T I : Type}

def priority (v : View T I) (t : T) : Nat := (v.thread t).currentPriority

/-- The wait lists only lose threads, and those by priority stay in order. -/
structure Narrows (flag : I → IpcFlag) (v v' : View T I) : Prop where
  sub : ∀ i, (v'.waits i).Sublist (v.waits i)
  ranked : ∀ i, flag i = .prio → Ranked v.priority (v.waits i) → Ranked v'.priority (v'.waits i)

variable {flag : I → IpcFlag} {v v' v'' : View T I} {t : T}

theorem Narrows.refl (v : View T I) : Narrows flag v v := ⟨fun _ => .refl _, fun _ _ => id⟩

theorem Narrows.trans (h : Narrows flag v v') (h' : Narrows flag v' v'') :
    Narrows flag v v'' :=
  ⟨fun i => (h'.sub i).trans (h.sub i), fun i hflag hr => h'.ranked i hflag (h.ranked i hflag hr)⟩

/-- Threads leave, and the priorities of the others stay. -/
theorem Narrows.ofSub (hsub : ∀ i, (v'.waits i).Sublist (v.waits i))
    (hsame : ∀ i, ∀ t ∈ v'.waits i, v'.priority t = v.priority t) : Narrows flag v v' :=
  ⟨hsub, fun i _ hr => Ranked.congr (hr.sublist (hsub i)) (hsame i)⟩

variable [DecidableEq T]

theorem Narrows.modify {f : Thread → Thread}
    (hf : (f (v.thread t)).currentPriority = (v.thread t).currentPriority) :
    Narrows flag v (v.modifyThread t f) := by
  refine .ofSub (fun _ => .refl _) fun _ u _ => ?_
  by_cases hu : u = t
  · subst hu
    simpa [priority] using hf
  · simp [priority, hu]

theorem Narrows.wake (t : T) : Narrows flag v (v.wake t) :=
  .ofSub (fun _ => List.erase_sublist) fun _ _ _ => wake_priority

theorem ranked_setPriority_iff {priority : Nat} {l : List T} (hn : l.Nodup)
    (h : Ranked v.priority l) :
    Ranked (v.setPriority t priority).priority l ↔ Between v.priority l t priority := by
  have hpriority : (v.setPriority t priority).priority = Function.update v.priority t priority := by
    funext u
    rw [View.priority, setPriority_priority, Function.update_apply]
    rfl
  rw [hpriority]
  exact ranked_update_iff hn h

/-- A priority between those of the neighbours in every list. -/
theorem Narrows.setPriority {priority : Nat} (hn : ∀ i, (v.waits i).Nodup)
    (hbetween : ∀ i, flag i = .prio → Between v.priority (v.waits i) t priority) :
    Narrows flag v (v.setPriority t priority) :=
  ⟨fun _ => .refl _, fun i hflag hr => (ranked_setPriority_iff (hn i) hr).mpr (hbetween i hflag)⟩

variable [DecidableEq I]

/-- The thread that goes into a list is not what puts the others out of order. -/
theorem ranked_of_enqueue {i j : I} {xs ys : List T} (hsplit : v.waits i = xs ++ ys)
    (h : Ranked (v.enqueue i xs t ys).priority ((v.enqueue i xs t ys).waits j)) :
    Ranked v.priority (v.waits j) := by
  have hpriority : (v.enqueue i xs t ys).priority = v.priority := by
    funext u
    exact enqueue_priority
  rw [hpriority] at h
  by_cases hj : j = i
  · subst hj
    rw [enqueue_waits, Function.update_self] at h
    rw [hsplit]
    exact (ranked_around.mp h).1
  · rwa [enqueue_waits, Function.update_of_ne hj] at h

end View

namespace State

variable {T U I : Type} [Fintype T]

/-- The threads of a wait list from a node on. -/
def waitersFrom (k : State T U I) : Nat → ListHead I ⊕ T → List T
  | 0, _ => []
  | _ + 1, .inl _ => []
  | fuel + 1, .inr t => t :: k.waitersFrom fuel (k.tlist.next (.inr t))

/-- The threads of the wait list of `i`, from its head on. -/
def waiters (i : I) (k : State T U I) : List T :=
  k.waitersFrom (Fintype.card T) (k.tlist.next (.inl (.suspend i)))

def priority (k : State T U I) (t : T) : Nat := (k.thread t).currentPriority

/-- In every wait list by priority, the priority is between those of the neighbours of `t`. -/
def InPlace (flag : I → IpcFlag) (t : T) (priority : Nat) (k : State T U I) : Prop :=
  ∀ i, flag i = .prio → Between k.priority (k.waiters i) t priority

end State

namespace KernelOp

variable {T U I : Type} [Fintype T]

/-- The call moves no waiting thread past its neighbours. -/
def Orderly (flag : I → IpcFlag) (k : State T U I) : KernelOp T U I → Prop
  | changePriority t priority => k.InPlace flag t priority
  | _ => True

end KernelOp

namespace State

variable {T U I : Type}

variable {lo : Int} {out : Set T} {k k' : State T U I} {σ σ' : ListHead I → List T}
  {zs : List (T ⊕ U)} {v : View T I} {t : T} {i : I} {flag : I → IpcFlag}

theorem waitersFrom_eq (hholds : Holds k.tlist σ) :
    ∀ {fuel : Nat} {xs ys : List T}, σ (.suspend i) = xs ++ ys → ys.length ≤ fuel →
      k.waitersFrom fuel (firstOr (.suspend i) ys) = ys := by
  intro fuel
  induction fuel with
  | zero =>
    intro xs ys _ hfuel
    obtain rfl := List.length_eq_zero_iff.mp (Nat.le_zero.mp hfuel)
    rfl
  | succ fuel ih =>
    intro xs ys hσ hfuel
    cases ys with
    | nil => rfl
    | cons y ys =>
      have hnext := (hholds.adjacent (.suspend i) (xs ++ [y]) ys (by simp [hσ])).1
      rw [lastOr_concat] at hnext
      rw [firstOr_cons, waitersFrom, hnext]
      rw [ih (show σ (.suspend i) = (xs ++ [y]) ++ ys by simp [hσ]) (by simpa using hfuel)]

variable [Fintype T]

theorem Shows.waiters (hs : Shows lo k v) (i : I) : k.waiters i = v.waits i := by
  obtain ⟨σ, zs, hk, hwaits, -⟩ := hs
  have hlength : (σ (.suspend i)).length ≤ Fintype.card T := (hk.holds.nodup _).length_le_card
  have hsplit : σ (.suspend i) = [] ++ σ (.suspend i) := rfl
  rw [State.waiters, hk.holds.next_head, waitersFrom_eq hk.holds hsplit hlength, hwaits]

omit [Fintype T] in
theorem Shows.priority (hs : Shows lo k v) : k.priority = v.priority := by
  funext t
  rw [State.priority, hs.thread, View.priority]

theorem Shows.inPlace_iff (hs : Shows lo k v) {priority : Nat} :
    k.InPlace flag t priority ↔
      ∀ i, flag i = .prio → Between v.priority (v.waits i) t priority := by
  simp only [State.InPlace, hs.priority, hs.waiters]

variable [DecidableEq T]

theorem Shows.inPlace_setError (hs : Shows lo k v) {err : Err} {u : T} {priority : Nat} :
    (k.setError t err).InPlace flag u priority ↔ k.InPlace flag u priority := by
  have hs₁ : Shows lo (k.setError t err) (v.setError t err) := hs.setError err
  have hpriority : (v.setError t err).priority = v.priority := by
    funext u
    exact View.setError_priority
  rw [hs₁.inPlace_iff, hs.inPlace_iff, hpriority]
  rfl

omit [Fintype T] in
theorem Shows.priority_setError (hs : Shows lo k v) {err : Err} :
    (k.setError t err).priority = k.priority := by
  have hs₁ : Shows lo (k.setError t err) (v.setError t err) := hs.setError err
  rw [hs₁.priority, hs.priority]
  funext u
  exact View.setError_priority

/-! ## What the calls do to wait lists -/

variable [DecidableEq I] [DecidableEq U] [Fintype U]

omit [DecidableEq U] [Fintype T] [Fintype U] in
theorem detachOrDefunct_stat (u : T) :
    ((k.detachOrDefunct t).thread u).stat = (k.thread u).stat := by
  unfold detachOrDefunct
  split
  · by_cases hu : u = t
    · subst hu
      simp
    · simp [hu]
  · rfl

/-- A call about a waiting thread that goes on waiting changes no list, and a priority only if it
    is there for that. -/
theorem Wf.exec_waiting (hk : Wf lo out k σ zs) (ht : t ∉ out) {op : KernelOp T U I}
    (hsub : op.subject k = some t) (hstat : (k.thread t).stat = .suspend)
    (hstat' : (k'.thread t).stat = .suspend) (h : op.exec k = .ok k') :
    k'.tlist = k.tlist ∧
      (k'.priority t = k.priority t ∨
        ∃ priority, op = .changePriority t priority ∧ k'.priority t = priority) := by
  obtain ⟨htype, -⟩ := hk.alive ht (.inr hstat)
  have hclosed : (k'.thread t).stat ≠ .close := by simp [hstat']
  have hready : (k'.thread t).stat ≠ .ready := by simp [hstat']
  -- calls that need another state of the thread fail, and those that leave it in another are
  -- excluded
  cases op with
  | schedule => cases hsub
  | timer op => cases hsub
  | init u priority tick =>
    obtain rfl := Option.some.inj hsub
    simp only [KernelOp.exec, State.rtThreadInit, exec_bind_ok, rtAssert_eq_ok] at h
    obtain ⟨_, hnull, -⟩ := h
    exact absurd hnull htype
  | create u priority tick =>
    obtain rfl := Option.some.inj hsub
    simp only [KernelOp.exec, State.rtThreadCreate, exec_bind_ok, rtAssert_eq_ok] at h
    obtain ⟨_, hnull, -⟩ := h
    exact absurd hnull htype
  | setCleanup u cleanup =>
    obtain rfl := Option.some.inj hsub
    simp only [KernelOp.exec, State.setCleanup, exec_bind_ok, exec_pure_ok] at h
    obtain ⟨_, -, rfl⟩ := h
    exact ⟨rfl, .inl (by simp [State.priority])⟩
  | startup u =>
    obtain rfl := Option.some.inj hsub
    simp only [KernelOp.exec, State.rtThreadStartup, exec_bind_ok, rtAssert_eq_ok] at h
    obtain ⟨_, hinit, -⟩ := h
    rw [hstat] at hinit
    cases hinit
  | detach u =>
    obtain rfl := Option.some.inj hsub
    simp only [KernelOp.exec, State.rtThreadDetach, exec_bind_ok, exec_pure_ok] at h
    obtain ⟨_, -, _, -, k₁, -, k₂, -, rfl⟩ := h
    exact absurd (by rw [detachOrDefunct_stat]; simp) hclosed
  | delete u =>
    obtain rfl := Option.some.inj hsub
    simp only [KernelOp.exec, State.rtThreadDelete, exec_bind_ok, exec_pure_ok] at h
    obtain ⟨_, -, _, -, k₁, -, k₂, -, rfl⟩ := h
    exact absurd (by simp [State.insertDefunct]) hclosed
  | changePriority u priority =>
    obtain rfl := Option.some.inj hsub
    simp only [KernelOp.exec, State.rtThreadControl, exec_bind_ok] at h
    obtain ⟨_, -, h⟩ := h
    -- only a ready thread is moved to the list of its new priority
    rw [if_neg (by simp [hstat])] at h
    simp only [exec_pure_ok] at h
    subst h
    exact ⟨rfl, .inr ⟨priority, rfl, by simp [State.priority]⟩⟩
  | suspend u =>
    obtain rfl := Option.some.inj hsub
    simp only [KernelOp.exec, exec_bind_ok, exec_pure_ok] at h
    obtain ⟨⟨k₁, err⟩, hsuspend, rfl⟩ := h
    -- a thread that is not ready is refused
    obtain ⟨-, ⟨-, rfl, -⟩ | ⟨-, hwas, -⟩⟩ := hk.rtThreadSuspend ht hsuspend
    · exact ⟨rfl, .inl rfl⟩
    · rw [hstat] at hwas
      cases hwas
  | resume u =>
    obtain rfl := Option.some.inj hsub
    simp only [KernelOp.exec, exec_bind_ok, exec_pure_ok] at h
    obtain ⟨⟨k₁, err⟩, hresume, rfl⟩ := h
    obtain ⟨-, ⟨-, rfl, -⟩ | ⟨-, -, s, zs', σ', rfl, -⟩⟩ := hk.rtThreadResume ht hresume
    · exact ⟨rfl, .inl rfl⟩
    · exact absurd (by simp) hready
  | yield =>
    obtain rfl | ⟨-, hwas, -⟩ := hk.rtThreadYield hsub h
    · exact ⟨rfl, .inl rfl⟩
    · rw [hstat] at hwas
      cases hwas
  | sleep tick =>
    have hcur : k.rtCurrentThread = some t := hsub
    simp only [KernelOp.exec, State.rtThreadSleep, hcur, exec_bind_ok, exec_pure_ok] at h
    obtain ⟨u, rfl, _, -, ⟨k₁, err⟩, hsuspend, k₂, hset, k₃, hstart, hschedule⟩ := h
    obtain ⟨c, p, rfl, -⟩ := rtSchedule_eq hschedule
    obtain ⟨s₂, -, rfl⟩ := liftTimers_setTime hset
    obtain ⟨s₃, -, rfl⟩ := liftTimers_eq_ok.mp hstart
    obtain ⟨-, ⟨-, rfl, -⟩ | ⟨-, hwas, -⟩⟩ := hk.rtThreadSuspend ht hsuspend
    · exact ⟨rfl, .inl rfl⟩
    · rw [hstat] at hwas
      cases hwas
  | sleepReturn u =>
    obtain rfl := Option.some.inj hsub
    simp only [KernelOp.exec, State.rtThreadSleepReturn, exec_pure_ok] at h
    subst h
    split
    · exact ⟨rfl, .inl (by simp [State.priority])⟩
    · exact ⟨rfl, .inl rfl⟩
  | exit =>
    simp only [KernelOp.exec, State.rtThreadExit, exec_bind_ok] at h
    obtain ⟨u, hself, k₁, -, k₂, hdetach, hschedule⟩ := h
    obtain rfl : u = t := Option.some.inj ((rtThreadSelf_eq hself).symm.trans hsub)
    obtain ⟨c, p, rfl, -⟩ := rtSchedule_eq hschedule
    obtain ⟨s, -, rfl⟩ := liftTimers_eq_ok.mp hdetach
    exact absurd (by rw [switchedTo_thread, detachOrDefunct_stat]; simp) hclosed
  | enterCritical =>
    simp only [KernelOp.exec, exec_pure_ok] at h
    subst h
    exact ⟨rfl, .inl rfl⟩
  | exitCritical =>
    obtain ⟨n, c, p, rfl⟩ := rtExitCritical_eq h
    exact ⟨rfl, .inl rfl⟩
  | listResume i =>
    obtain ⟨u, rest, zs', σ', -, hσ, -, -, -, -, hthread, -⟩ := hk.rtIpcListResume h
    obtain rfl : u = t := by simpa [KernelOp.subject, hk.holds.next_head, hσ] using hsub
    exact absurd (by simp [hthread]) hready

/-- A call takes threads out of wait lists, and changes no priority there but the one it is
    for. -/
theorem Shows.exec (hs : Shows lo k v) {op : KernelOp T U I} (hop : op.Orderly flag k)
    (h : op.exec k = .ok k') : ∃ v', Shows lo k' v' ∧ v.Narrows flag v' := by
  by_cases hchange : ∃ t priority, op = .changePriority t priority
  · obtain ⟨t, priority, rfl⟩ := hchange
    exact ⟨_, hs.changePriority priority.isLt h,
      .setPriority hs.nodup (hs.inPlace_iff.mp hop)⟩
  have hpriority := hs.priority
  obtain ⟨σ, zs, hk, hwaits, hthread⟩ := hs
  by_cases hapart : op.Apart
  · obtain ⟨zs', hk', hsame, -⟩ := hk.exec_apart hapart h
    exact ⟨v, ⟨σ, zs', hk', hwaits, hsame.trans hthread⟩, .refl v⟩
  obtain ⟨t, hsub, hkeeps⟩ := hk.exec_keeps hapart h
  obtain ⟨σ', zs', hk', htouch, hin⟩ := hkeeps (Set.notMem_empty t)
  refine ⟨⟨fun i => σ' (.suspend i), k'.thread⟩, ⟨σ', zs', hk', fun _ => rfl, rfl⟩, ?_⟩
  by_cases hwaiting : ∃ i, t ∈ σ' (.suspend i)
  · -- the thread goes on waiting, so that no list has changed
    obtain ⟨i, hm⟩ := hwaiting
    obtain ⟨hlinks, hpriority'⟩ := hk.exec_waiting (Set.notMem_empty t) hsub
      (hk.suspended i t (hin i hm)) (hk'.suspended i t hm) h
    have hσ : σ' = σ := Holds.unique (hlinks ▸ hk'.holds) hk.holds
    subst hσ
    have hothers : ∀ u, u ≠ t → k'.priority u = k.priority u := fun u hu => by
      rw [State.priority, htouch.thread u hu, State.priority]
    obtain hsame | ⟨priority, hop, -⟩ := hpriority'
    · refine .ofSub (fun i => hwaits i ▸ .refl _) fun _ u _ => ?_
      show k'.priority u = v.priority u
      rw [← hpriority]
      by_cases hu : u = t
      · exact hu ▸ hsame
      · exact hothers u hu
    · exact absurd ⟨t, priority, hop⟩ hchange
  · -- the thread is in no wait list any more
    rw [not_exists] at hwaiting
    have hlists : ∀ i, σ' (.suspend i) = (v.waits i).erase t := by
      intro i
      have heq := congrFun htouch.lists (.suspend i)
      rwa [erase_of_notMem (hwaiting i), erase, hwaits i] at heq
    refine .ofSub (fun i => ?_) fun i u hu => ?_
    · show (σ' (.suspend i)).Sublist (v.waits i)
      rw [hlists i]
      exact List.erase_sublist
    have hne : u ≠ t := by
      rintro rfl
      exact hwaiting i hu
    show (k'.thread u).currentPriority = (v.thread u).currentPriority
    rw [htouch.thread u hne, hthread]

/-- Calls one after the other, of which none moves a waiting thread past its neighbours. -/
def CallsOrderly (flag : I → IpcFlag) : List (KernelOp T U I) → State T U I → Prop
  | [], _ => True
  | op :: ops, k => op.Orderly flag k ∧ ∀ k', op.exec k = .ok k' → CallsOrderly flag ops k'

/-- In a tick interrupt no timeout function moves a waiting thread past its neighbours. -/
def TickOrderly (cb : Callback T U I) (flag : I → IpcFlag) (k : State T U I) : Prop :=
  ∀ k₁ u, InTick cb k k₁ → k₁.timers.rtTimerList.next (.inl ()) = .inr (.inr u) →
    k₁.timers.due k₁.timers.rtTick (.inr u) = true →
    let k₂ := k₁.withTimers (k₁.timers.rtTimerRemove (.inr u))
    CallsOrderly flag (cb u k₂) k₂

theorem Shows.calls (hs : Shows lo k v) {ops : List (KernelOp T U I)}
    (hops : CallsOrderly flag ops k) (h : ops.foldlM (fun k op => op.exec k) k = .ok k') :
    ∃ v', Shows lo k' v' ∧ v.Narrows flag v' := by
  induction ops generalizing k v with
  | nil =>
    simp only [List.foldlM_nil, exec_pure_ok] at h
    exact ⟨v, h ▸ hs, .refl v⟩
  | cons op ops ih =>
    simp only [List.foldlM_cons, exec_bind_ok] at h
    obtain ⟨k₁, hexec, hrest⟩ := h
    obtain ⟨v₁, hs₁, hn₁⟩ := hs.exec hops.1 hexec
    obtain ⟨v', hs', hn'⟩ := ih hs₁ (hops.2 k₁ hexec) hrest
    exact ⟨v', hs', hn₁.trans hn'⟩

variable {cb : Callback T U I}

omit [DecidableEq U] [Fintype T] [Fintype U] in
/-- The start of a tick interrupt changes time slices and ready lists. -/
theorem Shows.begin (hs : Shows 0 k v) (h : k.rtTickBegin = .ok k') :
    ∃ v', Shows (-1) k' v' ∧ v.Narrows flag v' := by
  obtain ⟨σ, zs, hk, hwaits, hthread⟩ := hs
  cases hcur : k.rtCurrentThread with
  | none => simp [State.rtTickBegin, rtThreadSelf, hcur] at h
  | some u =>
    obtain ⟨σ', hk', -, -, hfields, -, hlists⟩ := hk.rtTickBegin hcur h
    refine ⟨⟨v.waits, k'.thread⟩,
      ⟨σ', zs, hk', fun i => (hlists i).trans (hwaits i), rfl⟩,
      .ofSub (fun _ => .refl _) fun _ t _ => ?_⟩
    obtain ⟨n, hn⟩ := hfields t
    show (k'.thread t).currentPriority = (v.thread t).currentPriority
    rw [hn, hthread]

/-- A timer that fires ends the wait of its thread, or makes calls. -/
theorem Shows.fire (hs : Shows lo k v) {x : T ⊕ U}
    (hcalls : ∀ u, x = .inr u →
      let k₂ := k.withTimers (k.timers.rtTimerRemove (.inr u))
      CallsOrderly flag (cb u k₂) k₂)
    (hnext : k.timers.rtTimerList.next (.inl ()) = .inr x)
    (h : (host (timeoutFunc cb)).fire x k = .ok k') :
    ∃ v', Shows lo k' v' ∧ v.Narrows flag v' := by
  obtain ⟨σ, zs, hk, hwaits, hthread⟩ := hs
  obtain ⟨rest, hzs⟩ := Holds.next_head_eq_elem hk.sorted.linked hnext
  change zs = x :: rest at hzs
  subst hzs
  cases x with
  | inl t =>
    obtain ⟨-, σ', zs', hσ', hk', -, -, hthread', -⟩ := hk.fireThread (by simp) h
    have hlists : ∀ i, σ' (.suspend i) = (v.waits i).erase t := by
      intro i
      rw [hσ', pushBack_other (by simp), erase, hwaits i]
    refine ⟨(v.wake t).modifyThread t fun th => { th with error := .etimeout },
      ⟨σ', zs', hk', hlists, ?_⟩, (View.Narrows.wake t).trans (.modify rfl)⟩
    rw [hthread', hthread]
    simp
  | inr u =>
    obtain ⟨k₁, hcall, hend⟩ := TimerHost.fire_cases h
    have hremoved : Shows lo (k.withTimers (k.timers.rtTimerRemove (.inr u))) v :=
      ⟨σ, rest, hk.removeFront, hwaits, hthread⟩
    obtain ⟨v₁, ⟨σ₁, zs₁, hk₁, hwaits₁, hthread₁⟩, hn₁⟩ := hremoved.calls (hcalls u rfl) hcall
    obtain ⟨zs', hk', -, huntouched⟩ := hk₁.fireEnd hend
    refine ⟨⟨v₁.waits, k'.thread⟩, ⟨σ₁, zs', hk', hwaits₁, rfl⟩,
      hn₁.trans (.ofSub (fun _ => .refl _) fun _ t _ => ?_)⟩
    obtain ⟨n, hn⟩ := (huntouched t).thread
    show (k'.thread t).currentPriority = (v₁.thread t).currentPriority
    rw [hn, hthread₁]

theorem Shows.tick (hs : Shows 0 k v) (horder : TickOrderly cb flag k) {fuel : Nat}
    (h : k.rtTickIncrease (timeoutFunc cb) fuel = .ok k') :
    ∃ v', Shows 0 k' v' ∧ v.Narrows flag v' := by
  obtain ⟨hin, hfront⟩ := inTick_of_rtTickIncrease h
  have hends : ∃ v', Shows (-1) k' v' ∧ v.Narrows flag v' := by
    clear hfront h
    induction hin with
    | check hbegin => exact hs.begin hbegin
    | fire x hin₁ hnext hdue hfired ih =>
      obtain ⟨v₁, hs₁, hn₁⟩ := ih
      have hcalls : ∀ u, x = .inr u → _ := fun u hx =>
        horder _ u hin₁ (hx ▸ hnext) (hx ▸ hdue)
      obtain ⟨v', hs', hn'⟩ := hs₁.fire hcalls hnext hfired
      exact ⟨v', hs', hn₁.trans hn'⟩
  obtain ⟨v', ⟨σ, zs, hk, hwaits, hthread⟩, hn⟩ := hends
  exact ⟨v', ⟨σ, zs, hk.mono fun x hx => hfront x (hk.next_timer hx), hwaits, hthread⟩, hn⟩

omit [DecidableEq U] [Fintype T] [Fintype U] in
theorem Shows.idle (hs : Shows lo k v) {fuel : Nat} (h : k.rtThreadIdleExcute fuel = .ok k') :
    ∃ v', Shows lo k' v' ∧ v.Narrows flag v' := by
  obtain ⟨σ, zs, hk, hwaits, hthread⟩ := hs
  obtain ⟨σ', hk', hlists, hothers⟩ := hk.rtThreadIdleExcute h
  refine ⟨⟨v.waits, k'.thread⟩, ⟨σ', zs, hk', fun i => (hlists i).trans (hwaits i), rfl⟩,
    .ofSub (fun _ => .refl _) fun i t hm => ?_⟩
  -- a thread that waits is not closed
  have hstat := hk.suspended i t (hwaits i ▸ hm)
  obtain ⟨n, hn⟩ := (hothers t (by simp [hstat])).1.thread
  show (k'.thread t).currentPriority = (v.thread t).currentPriority
  rw [hn, hthread]

omit [DecidableEq T] [DecidableEq I] [DecidableEq U] [Fintype T] [Fintype U] in
theorem Shows.start (hs : Shows lo k v) (h : k.rtSystemSchedulerStart = .ok k') :
    Shows lo k' v := by
  obtain ⟨σ, zs, hk, hwaits, hthread⟩ := hs
  simp only [rtSystemSchedulerStart, exec_bind_ok, exec_pure_ok] at h
  obtain ⟨⟨p, t⟩, -, rfl⟩ := h
  exact ⟨σ, zs, { hk with }, hwaits, hthread⟩

end State

end PandoraRobot.Kernel
