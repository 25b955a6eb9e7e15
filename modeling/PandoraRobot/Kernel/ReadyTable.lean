import PandoraRobot.Kernel.Thread
import PandoraRobot.Kernel.TimerFlags

/-! # The ready table

`Wf lo out k σ zs` is the invariant of the scheduler: the links of `k` spell out
the lists `σ` and the timer list `zs`, a bit of `rt_thread_ready_priority_group` is
set exactly when its list is not empty, and each thread sits where its state says.
A thread in `out` is taken out of all lists, and nothing is said of its fields:
this is where a thread stands between two of the assignments an operation makes.
-/

namespace PandoraRobot.Kernel

open PandoraRobot.RingList

/-- The fields of a thread that the scheduler relies on. -/
structure Thread.Sound (th : Thread) : Prop where
  null : th.type = .null → th.stat = .init ∨ th.stat = .close
  initPriority : th.initPriority < rtThreadPriorityMax
  currentPriority : th.currentPriority < rtThreadPriorityMax
  mask : th.numberMask = 0 ∨ th.numberMask = 1#32 <<< th.currentPriority
  masked : th.stat = .ready ∨ th.stat = .suspend → th.numberMask = 1#32 <<< th.currentPriority

theorem Thread.Sound.restat {th : Thread} (hs : th.Sound) (stat : ThreadStat)
    (htype : th.type ≠ .null ∨ stat = .init ∨ stat = .close)
    (hmask : stat = .ready ∨ stat = .suspend → th.stat = .ready ∨ th.stat = .suspend) :
    ({ th with stat := stat } : Thread).Sound where
  null h := htype.resolve_left (not_not.mpr h)
  initPriority := hs.initPriority
  currentPriority := hs.currentPriority
  mask := hs.mask
  masked h := hs.masked (hmask h)

/-- What `RT_THREAD_CTRL_CHANGE_PRIORITY` writes. -/
def Thread.withPriority (th : Thread) (priority : Nat) : Thread :=
  { th with currentPriority := priority, numberMask := 1#32 <<< priority }

theorem Thread.Sound.withPriority {th : Thread} (hs : th.Sound) {priority : Nat}
    (hp : priority < rtThreadPriorityMax) : (th.withPriority priority).Sound :=
  ⟨hs.null, hs.initPriority, hp, .inr rfl, fun _ => rfl⟩

theorem bit_getLsbD {p q : Nat} (hq : q < 32) :
    (1#32 <<< p).getLsbD q = decide (q = p) := by
  rw [BitVec.getLsbD_shiftLeft, BitVec.getLsbD_one]
  by_cases h : q = p
  · subst h
    simp [hq]
  · simp [h, hq]
    omega

namespace State

variable {T U I : Type}

structure Wf (lo : Int) (out : Set T) (k : State T U I) (σ : ListHead I → List T)
    (zs : List (T ⊕ U)) : Prop where
  low : -1 ≤ lo ∧ lo ≤ 0
  holds : Holds k.tlist σ
  outside : ∀ t ∈ out, Fresh σ t
  sound : ∀ t ∉ out, (k.thread t).Sound
  ready : ∀ t ∉ out, ∀ p, t ∈ σ (.ready p) ↔
    (k.thread t).stat = .ready ∧ (k.thread t).currentPriority = p
  defunct : ∀ t ∈ σ .defunct, (k.thread t).stat = .close ∧ (k.thread t).type ≠ .null
  suspended : ∀ i, ∀ t ∈ σ (.suspend i), (k.thread t).stat = .suspend
  group : ∀ p < 32, k.rtThreadReadyPriorityGroup.getLsbD p = true ↔ σ (.ready p) ≠ []
  sorted : k.timers.Sorted lo zs
  activated : ∀ t, .inl t ∈ zs → (k.timers.timer (.inl t)).flag.activated = true
  /-- The timer of a thread is one-shot and lives as long as the thread. -/
  embedded : ∀ t, (k.timers.timer (.inl t)).flag.periodic = false ∧
    (k.timers.timer (.inl t)).freed = false
  closed : ∀ t ∉ out, (k.timers.timer (.inl t)).type = .null ↔
    (k.thread t).stat = .close ∨ (k.thread t).type = .null
  waiting : ∀ t ∉ out, .inl t ∈ zs → (k.thread t).stat = .suspend ∨ (k.thread t).stat = .init

variable {lo : Int} {out : Set T} {k k' : State T U I} {σ : ListHead I → List T}
  {zs : List (T ⊕ U)} {t : T}

/-- A ready or waiting thread is an object, and so is its timer. -/
theorem Wf.alive (hk : Wf lo out k σ zs) (ht : t ∉ out)
    (hstat : (k.thread t).stat = .ready ∨ (k.thread t).stat = .suspend) :
    (k.thread t).type ≠ .null ∧ (k.timers.timer (.inl t)).type ≠ .null := by
  have htype : (k.thread t).type ≠ .null := by
    intro hnull
    cases (hk.sound t ht).null hnull with
    | _ h => simp [h] at hstat
  refine ⟨htype, fun hnull => ?_⟩
  cases (hk.closed t ht).mp hnull with
  | inl h => simp [h] at hstat
  | inr h => exact htype h

/-! ## Field lemmas -/

variable [DecidableEq T]

section Fields

variable (f : Thread → Thread) (stat : ThreadStat) (err : Err)

@[simp] theorem modifyThread_thread :
    (k.modifyThread t f).thread = Function.update k.thread t (f (k.thread t)) := rfl
@[simp] theorem modifyThread_tlist : (k.modifyThread t f).tlist = k.tlist := rfl
@[simp] theorem modifyThread_timers : (k.modifyThread t f).timers = k.timers := rfl
@[simp] theorem modifyThread_group : (k.modifyThread t f).rtThreadReadyPriorityGroup =
    k.rtThreadReadyPriorityGroup := rfl
@[simp] theorem modifyThread_current :
    (k.modifyThread t f).rtCurrentThread = k.rtCurrentThread := rfl
@[simp] theorem setStat_thread : (k.setStat t stat).thread =
    Function.update k.thread t { k.thread t with stat := stat } := rfl
@[simp] theorem setStat_timers : (k.setStat t stat).timers = k.timers := rfl
@[simp] theorem setStat_tlist : (k.setStat t stat).tlist = k.tlist := rfl
@[simp] theorem setStat_current : (k.setStat t stat).rtCurrentThread = k.rtCurrentThread := rfl
@[simp] theorem setError_thread : (k.setError t err).thread =
    Function.update k.thread t { k.thread t with error := err } := rfl
@[simp] theorem setError_timers : (k.setError t err).timers = k.timers := rfl
@[simp] theorem setError_current : (k.setError t err).rtCurrentThread = k.rtCurrentThread := rfl

section

omit [DecidableEq T]

@[simp] theorem withTimers_thread (s : Timers (T ⊕ U)) : (k.withTimers s).thread = k.thread := rfl
@[simp] theorem withTimers_tlist (s : Timers (T ⊕ U)) : (k.withTimers s).tlist = k.tlist := rfl
@[simp] theorem withTimers_timers (s : Timers (T ⊕ U)) : (k.withTimers s).timers = s := rfl
@[simp] theorem withTimers_current (s : Timers (T ⊕ U)) :
    (k.withTimers s).rtCurrentThread = k.rtCurrentThread := rfl

end

variable [DecidableEq I]

@[simp] theorem unlink_thread : (k.unlink t).thread = k.thread := rfl
@[simp] theorem unlink_timers : (k.unlink t).timers = k.timers := rfl
@[simp] theorem unlink_current : (k.unlink t).rtCurrentThread = k.rtCurrentThread := rfl

end Fields

/-! ## Taking a thread out and putting it back -/

/-- A thread that is out may be changed at will. -/
theorem Wf.change (hk : Wf lo (insert t out) k σ zs) (f : Thread → Thread) :
    Wf lo (insert t out) (k.modifyThread t f) σ zs := by
  have hfresh := hk.outside t (by simp)
  have hother : ∀ u, u ≠ t → (k.modifyThread t f).thread u = k.thread u := by
    intro u hu
    simp [hu]
  refine { hk with
    sound := ?_, ready := ?_, defunct := ?_, suspended := ?_, closed := ?_, waiting := ?_ }
  · intro u hu
    rw [hother u fun h => hu (by simp [h])]
    exact hk.sound u hu
  · intro u hu
    rw [hother u fun h => hu (by simp [h])]
    exact hk.ready u hu
  · intro u hu
    rw [hother u fun h => hfresh _ (h ▸ hu)]
    exact hk.defunct u hu
  · intro i u hu
    rw [hother u fun h => hfresh _ (h ▸ hu)]
    exact hk.suspended i u hu
  · intro u hu
    rw [hother u fun h => hu (by simp [h])]
    exact hk.closed u hu
  · intro u hu
    rw [hother u fun h => hu (by simp [h])]
    exact hk.waiting u hu

variable [DecidableEq I]

/-- A thread of no ready list leaves the list it is in. -/
theorem Wf.unlink (hk : Wf lo out k σ zs) (hready : ∀ p, t ∉ σ (.ready p)) :
    Wf lo (insert t out) (k.unlink t) (erase σ t) zs := by
  have hsub : ∀ {h u}, u ∈ erase σ t h → u ∈ σ h := fun hu => (hk.holds.mem_erase.mp hu).2
  refine { hk with
    holds := hk.holds.remove t, outside := ?_, sound := ?_, ready := ?_, defunct := ?_
    suspended := ?_, group := ?_, closed := ?_, waiting := ?_ }
  · intro u hu h hm
    cases hu with
    | inl hut => exact hk.holds.fresh_erase t h (hut ▸ hm)
    | inr hout => exact hk.outside u hout h (hsub hm)
  · exact fun u hu => hk.sound u fun h => hu (by simp [h])
  · intro u hu p
    rw [hk.holds.mem_erase]
    have hne : u ≠ t := fun h => hu (by simp [h])
    simp only [hne, ne_eq, not_false_eq_true, true_and]
    exact hk.ready u (fun h => hu (by simp [h])) p
  · exact fun u hu => hk.defunct u (hsub hu)
  · exact fun i u hu => hk.suspended i u (hsub hu)
  · intro p hp
    rw [erase_of_notMem (hready p)]
    exact hk.group p hp
  · exact fun u hu => hk.closed u fun h => hu (by simp [h])
  · exact fun u hu => hk.waiting u fun h => hu (by simp [h])

omit [DecidableEq I] in
/-- A thread stays out of the lists but is accounted for again. -/
theorem Wf.settle (hk : Wf lo (insert t out) k σ zs) (hsound : (k.thread t).Sound)
    (hstat : (k.thread t).stat ≠ .ready)
    (hclosed : (k.timers.timer (.inl t)).type = .null ↔
      (k.thread t).stat = .close ∨ (k.thread t).type = .null)
    (hwait : .inl t ∈ zs → (k.thread t).stat = .suspend ∨ (k.thread t).stat = .init) :
    Wf lo out k σ zs := by
  have hfresh := hk.outside t (by simp)
  refine { hk with outside := ?_, sound := ?_, ready := ?_, closed := ?_, waiting := ?_ }
  · exact fun u hu => hk.outside u (by simp [hu])
  all_goals intro u hu
  all_goals by_cases hut : u = t
  · exact hut ▸ hsound
  · exact hk.sound u (by simp [hut, hu])
  · subst hut
    intro p
    simp [hfresh (.ready p), hstat]
  · exact hk.ready u (by simp [hut, hu])
  · exact hut ▸ hclosed
  · exact hk.closed u (by simp [hut, hu])
  · exact hut ▸ hwait
  · exact hk.waiting u (by simp [hut, hu])

omit [DecidableEq T] in
/-- A thread of no list goes into the defunct list or a wait list. -/
theorem Wf.enlist (hk : Wf lo out k σ zs) (ht : t ∉ out)
    {h : ListHead I} {xs ys : List T} (hσ : σ h = xs ++ ys) {tlist : Links (ListHead I ⊕ T)}
    (hholds : Holds tlist (insertAt σ h xs t ys)) (hhead : ∀ p, h ≠ .ready p)
    (hdefunct : h = .defunct → (k.thread t).stat = .close ∧ (k.thread t).type ≠ .null)
    (hsuspend : ∀ i, h = .suspend i → (k.thread t).stat = .suspend) :
    Wf lo out { k with tlist := tlist } (insertAt σ h xs t ys) zs := by
  have hready : ∀ p, insertAt σ h xs t ys (.ready p) = σ (.ready p) := fun p =>
    insertAt_other (fun heq => hhead p heq.symm) _ _ _
  refine { hk with
    holds := hholds, outside := ?_, ready := ?_, defunct := ?_, suspended := ?_, group := ?_ }
  · intro u hu h' hm
    cases (mem_insertAt hσ).mp hm with
    | inl heq => exact ht (heq.2 ▸ hu)
    | inr hm => exact hk.outside u hu h' hm
  · intro u hu p
    rw [hready]
    exact hk.ready u hu p
  · intro u hm
    cases (mem_insertAt hσ).mp hm with
    | inl heq => exact heq.2 ▸ hdefunct heq.1.symm
    | inr hm => exact hk.defunct u hm
  · intro i u hm
    cases (mem_insertAt hσ).mp hm with
    | inl heq => exact heq.2 ▸ hsuspend i heq.1.symm
    | inr hm => exact hk.suspended i u hm
  · intro p hp
    rw [hready]
    exact hk.group p hp

/-! ## `rt_schedule_insert_thread` and `rt_schedule_remove_thread` -/

/-- `k` with `t` at the back of the list of its priority. -/
def insertedThread (k : State T U I) (t : T) : State T U I :=
  { k.setStat t .ready with
    tlist := rtListInsertBefore (.inl (.ready (k.thread t).currentPriority)) (.inr t) k.tlist
    rtThreadReadyPriorityGroup := k.rtThreadReadyPriorityGroup ||| (k.thread t).numberMask }

@[simp] theorem insertedThread_thread : (k.insertedThread t).thread =
    Function.update k.thread t { k.thread t with stat := .ready } := rfl
@[simp] theorem insertedThread_timers : (k.insertedThread t).timers = k.timers := rfl
@[simp] theorem insertedThread_current :
    (k.insertedThread t).rtCurrentThread = k.rtCurrentThread := rfl

theorem rtScheduleInsertThread_eq (h : k.rtScheduleInsertThread t = .ok k') :
    (k.thread t).currentPriority < rtThreadPriorityMax ∧ k' = k.insertedThread t := by
  unfold rtScheduleInsertThread at h
  have hprio : ((k.setStat t .ready).thread t).currentPriority = (k.thread t).currentPriority := by
    simp [setStat]
  have hmask : ((k.setStat t .ready).thread t).numberMask = (k.thread t).numberMask := by
    simp [setStat]
  simp only [hprio] at h
  split at h
  · simp at h
  case isFalse hlt =>
    simp only [exec_pure_ok] at h
    obtain ⟨_, -, rfl⟩ := h
    exact ⟨Nat.not_le.mp hlt, by simp [insertedThread, setStat]⟩

theorem rtScheduleInsertThread_returns (h : (k.thread t).currentPriority < rtThreadPriorityMax) :
    k.rtScheduleInsertThread t = .ok (k.insertedThread t) := by
  have hreturns : ∃ k', k.rtScheduleInsertThread t = .ok k' := by
    unfold rtScheduleInsertThread
    dsimp only
    rw [if_neg (by simpa using h)]
    exact ⟨_, rfl⟩
  obtain ⟨k', hk'⟩ := hreturns
  rw [hk', (rtScheduleInsertThread_eq hk').2]

/-- The thread joins the back of the list of its priority. -/
theorem Wf.insertThread (hk : Wf lo (insert t out) k σ zs) (ht : t ∉ out)
    (hsound : ((k.setStat t .ready).thread t).Sound) (htimer : .inl t ∉ zs)
    (hregistered : (k.timers.timer (.inl t)).type ≠ .null) :
    Wf lo out (k.insertedThread t) (pushBack σ (.ready (k.thread t).currentPriority) t) zs := by
  have hfresh := hk.outside t (by simp)
  have hc := hk.change fun th => { th with stat := .ready }
  have hmask : (k.thread t).numberMask = 1#32 <<< (k.thread t).currentPriority := by
    simpa [setStat] using hsound.masked (by simp [setStat])
  refine ⟨hk.low, hk.holds.insertBefore_head _ hfresh, ?_, ?_, ?_, ?_, ?_, ?_, hk.sorted, hk.activated,
    hk.embedded, ?_, ?_⟩
  · intro u hu h hm
    cases mem_pushBack.mp hm with
    | inl heq => exact ht (heq.2 ▸ hu)
    | inr hm => exact hk.outside u (by simp [hu]) h hm
  · intro u hu
    by_cases hut : u = t
    · exact hut ▸ hsound
    · exact hc.sound u (by simp [hut, hu])
  · intro u hu p
    rw [mem_pushBack]
    by_cases hut : u = t
    · subst hut
      simp [hfresh (.ready p), eq_comm]
    · simp only [hut, and_false, false_or]
      exact hc.ready u (by simp [hut, hu]) p
  · intro u hu
    refine hc.defunct u ?_
    simpa using hu
  · intro i u hu
    refine hc.suspended i u ?_
    simpa using hu
  · intro p hp
    -- the bit of the priority is set, whether or not another thread had set it
    show (k.rtThreadReadyPriorityGroup ||| (k.thread t).numberMask).getLsbD p = true ↔ _
    rw [BitVec.getLsbD_or, hmask, bit_getLsbD hp, Bool.or_eq_true, hk.group p hp]
    by_cases heq : p = (k.thread t).currentPriority
    · subst heq
      simp
    · rw [pushBack_other (by simpa using heq)]
      simp [heq]
  · intro u hu
    by_cases hut : u = t
    · subst hut
      have hnull := hsound.null
      simp only [setStat_thread, Function.update_self, reduceCtorEq, or_self, imp_false] at hnull
      simp [hregistered, hnull]
    · exact hc.closed u (by simp [hut, hu])
  · intro u hu hm
    by_cases hut : u = t
    · exact absurd (hut ▸ hm) htimer
    · exact hc.waiting u (by simp [hut, hu]) hm

/-- The group once `t` has left its list. -/
def groupWithout (k : State T U I) (t : T) : BitVec 32 :=
  if rtListIsempty (.inl (.ready (k.thread t).currentPriority)) (k.unlink t).tlist then
    k.rtThreadReadyPriorityGroup &&& ~~~ (k.thread t).numberMask
  else k.rtThreadReadyPriorityGroup

/-- `k` with `t` out of its list. -/
def removedThread (k : State T U I) (t : T) : State T U I :=
  { k.unlink t with rtThreadReadyPriorityGroup := k.groupWithout t }

@[simp] theorem removedThread_thread : (k.removedThread t).thread = k.thread := rfl
@[simp] theorem removedThread_timers : (k.removedThread t).timers = k.timers := rfl
@[simp] theorem removedThread_current :
    (k.removedThread t).rtCurrentThread = k.rtCurrentThread := rfl

/-- Leaving the list does not look at the state of the thread. -/
theorem removedThread_setStat (stat : ThreadStat) :
    (k.setStat t stat).removedThread t = (k.removedThread t).setStat t stat := by
  simp [removedThread, groupWithout, setStat, modifyThread, State.unlink]

theorem rtScheduleRemoveThread_eq (h : k.rtScheduleRemoveThread t = .ok k') :
    (k.thread t).currentPriority < rtThreadPriorityMax ∧
      k' = k.removedThread t := by
  unfold rtScheduleRemoveThread at h
  dsimp only at h
  by_cases hlt : rtThreadPriorityMax ≤ ((k.unlink t).thread t).currentPriority
  · rw [if_pos hlt] at h
    simp at h
  · rw [if_neg hlt] at h
    refine ⟨Nat.not_le.mp hlt, ?_⟩
    unfold removedThread groupWithout
    split at h
    case isTrue hempty =>
      simp only [exec_pure_ok] at h
      rw [if_pos (by exact hempty), ← h]
      rfl
    case isFalse hempty =>
      simp only [exec_pure_ok] at h
      rw [if_neg (by exact hempty), ← h]
      rfl

theorem rtScheduleRemoveThread_returns (h : (k.thread t).currentPriority < rtThreadPriorityMax) :
    k.rtScheduleRemoveThread t = .ok (k.removedThread t) := by
  have hreturns : ∃ k', k.rtScheduleRemoveThread t = .ok k' := by
    unfold rtScheduleRemoveThread
    dsimp only
    rw [if_neg (by simpa using h)]
    split <;> exact ⟨_, rfl⟩
  obtain ⟨k', hk'⟩ := hreturns
  rw [hk', (rtScheduleRemoveThread_eq hk').2]

theorem Wf.removeThread (hk : Wf lo out k σ zs) (ht : t ∉ out) :
    Wf lo (insert t out) (k.removedThread t) (erase σ t) zs := by
  have hsub : ∀ {h u}, u ∈ erase σ t h → u ∈ σ h := fun hu => (hk.holds.mem_erase.mp hu).2
  have hholds := hk.holds.remove t
  have hsound := hk.sound t ht
  have hempty : rtListIsempty (Sum.inl (.ready (k.thread t).currentPriority)) (k.unlink t).tlist =
      decide (erase σ t (.ready (k.thread t).currentPriority) = []) := by
    simp only [rtListIsempty, State.unlink]
    exact decide_eq_decide.mpr (hholds.next_head_eq_self _)
  have hlist : ∀ p, p ≠ (k.thread t).currentPriority → erase σ t (.ready p) = σ (.ready p) := by
    intro p hp
    exact erase_of_notMem fun hm => hp ((hk.ready t ht p).mp hm).2.symm
  refine { hk with
    holds := hholds, outside := ?_, sound := ?_, ready := ?_, defunct := ?_
    suspended := ?_, group := ?_, closed := ?_, waiting := ?_ }
  · intro u hu h hm
    cases hu with
    | inl hut => exact hk.holds.fresh_erase t h (hut ▸ hm)
    | inr hout => exact hk.outside u hout h (hsub hm)
  · exact fun u hu => hk.sound u fun h => hu (by simp [h])
  · intro u hu p
    rw [hk.holds.mem_erase]
    have hne : u ≠ t := fun h => hu (by simp [h])
    simp only [hne, ne_eq, not_false_eq_true, true_and]
    exact hk.ready u (fun h => hu (by simp [h])) p
  · exact fun u hu => hk.defunct u (hsub hu)
  · exact fun i u hu => hk.suspended i u (hsub hu)
  · intro p hp
    have hbit := hk.group p hp
    show (k.groupWithout t).getLsbD p = true ↔ _
    rw [groupWithout, hempty]
    by_cases heq : p = (k.thread t).currentPriority
    · subst heq
      by_cases hnil : erase σ t (.ready (k.thread t).currentPriority) = []
      · simp only [hnil, decide_true, if_true, ne_eq, not_true_eq_false, iff_false]
        cases hsound.mask with
        | inl hzero =>
          -- without a mask the thread was in no ready list, so the list was empty before
          have hnot : t ∉ σ (.ready (k.thread t).currentPriority) := by
            intro hm
            have := hsound.masked (.inl ((hk.ready t ht _).mp hm).1)
            have hset := congrArg (·.getLsbD (k.thread t).currentPriority) (hzero.symm.trans this)
            simp only [bit_getLsbD hp] at hset
            simp at hset
          rw [erase_of_notMem hnot] at hnil
          simp [hzero, hbit, hnil]
        | inr hmask => simp [hmask, bit_getLsbD hp]
      · have hne : σ (.ready (k.thread t).currentPriority) ≠ [] := by
          intro h'
          exact hnil (by simp [erase, h'])
        simp only [hnil, decide_false, Bool.false_eq_true, if_false, ne_eq, not_false_eq_true,
          iff_true]
        exact hbit.mpr hne
    · rw [hlist p heq, ← hbit]
      have hmask : (k.thread t).numberMask.getLsbD p = false := by
        cases hsound.mask with
        | inl hzero => simp [hzero]
        | inr hmask => simp only [hmask, bit_getLsbD hp, heq, decide_false]
      split
      · rw [BitVec.getLsbD_and, BitVec.getLsbD_not, hmask]
        simp [hp]
      · rfl
  · exact fun u hu => hk.closed u fun h => hu (by simp [h])
  · exact fun u hu => hk.waiting u fun h => hu (by simp [h])

end State

end PandoraRobot.Kernel
