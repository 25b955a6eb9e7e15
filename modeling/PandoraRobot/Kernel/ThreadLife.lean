import PandoraRobot.Kernel.ThreadOps

/-! # The life of a thread

Initialisation, start, change of priority, sleep and the end of a thread, and the
idle thread that disposes of it.  Each operation is about one thread, `Keeps` the
invariant of the scheduler, and leaves everything else as it is.
-/

namespace PandoraRobot.Kernel

open PandoraRobot.RingList

namespace State

variable {T U I : Type} [DecidableEq T]

variable {lo : Int} {out : Set T} {k k' : State T U I} {σ : ListHead I → List T}
  {zs : List (T ⊕ U)} {t : T}

/-- `k'` comes from `k` by an operation on `t` that keeps the invariant and puts `t` into no
    wait list. -/
def Keeps (lo : Int) (out : Set T) (t : T) (k : State T U I) (σ : ListHead I → List T)
    (zs : List (T ⊕ U)) (k' : State T U I) : Prop :=
  ∃ σ' zs', Wf lo out k' σ' zs' ∧ Touches t k σ zs k' σ' zs' ∧
    ∀ i, t ∈ σ' (.suspend i) → t ∈ σ (.suspend i)

theorem Wf.keeps_refl (hk : Wf lo out k σ zs) (t : T) : Keeps lo out t k σ zs k :=
  ⟨σ, zs, hk, .refl t k σ zs, fun _ => id⟩

theorem Keeps.switched (h : Keeps lo out t k σ zs k') (c : Option T) (p : Nat) :
    Keeps lo out t k σ zs (k'.switchedTo c p) := by
  obtain ⟨σ', zs', hk', htouch, hwaits⟩ := h
  exact ⟨σ', zs', hk'.switched c p, htouch.switched c p, hwaits⟩

theorem Keeps.schedule (h : Keeps lo out t k σ zs k') {k'' : State T U I}
    (hs : k'.rtSchedule = .ok k'') : Keeps lo out t k σ zs k'' := by
  obtain ⟨c, p, rfl, -, -⟩ := rtSchedule_eq hs
  exact h.switched c p

/-- Fields the scheduler does not look at may change. -/
theorem Wf.modify (hk : Wf lo out k σ zs) {f : Thread → Thread}
    (hf : ∀ th, (f th).type = th.type ∧ (f th).stat = th.stat ∧
      (f th).currentPriority = th.currentPriority ∧ (f th).initPriority = th.initPriority ∧
      (f th).numberMask = th.numberMask) : Wf lo out (k.modifyThread t f) σ zs := by
  obtain ⟨htype, hstat, hcur, hinit, hmask⟩ := hf (k.thread t)
  have heq : ∀ u, ((k.modifyThread t f).thread u).stat = (k.thread u).stat ∧
      ((k.modifyThread t f).thread u).type = (k.thread u).type ∧
      ((k.modifyThread t f).thread u).currentPriority = (k.thread u).currentPriority := by
    intro u
    by_cases hut : u = t
    · subst hut
      simp [hstat, htype, hcur]
    · simp [hut]
  refine { hk with
    sound := ?_, ready := ?_, defunct := ?_, suspended := ?_, closed := ?_, waiting := ?_ }
  · intro u hu
    by_cases hut : u = t
    · subst hut
      have hs := hk.sound u hu
      rw [modifyThread_thread, Function.update_self]
      exact ⟨by rw [htype, hstat]; exact hs.null, by rw [hinit]; exact hs.initPriority,
        by rw [hcur]; exact hs.currentPriority, by rw [hmask, hcur]; exact hs.mask,
        by rw [hstat, hmask, hcur]; exact hs.masked⟩
    · simpa [hut] using hk.sound u hu
  · intro u hu p
    rw [(heq u).1, (heq u).2.2]
    exact hk.ready u hu p
  · intro u hu
    rw [(heq u).1, (heq u).2.1]
    exact hk.defunct u hu
  · intro i u hu
    rw [(heq u).1]
    exact hk.suspended i u hu
  · intro u hu
    rw [(heq u).1, (heq u).2.1]
    exact hk.closed u hu
  · intro u hu
    rw [(heq u).1]
    exact hk.waiting u hu

theorem Wf.keeps_modify (hk : Wf lo out k σ zs) {f : Thread → Thread}
    (hf : ∀ th, (f th).type = th.type ∧ (f th).stat = th.stat ∧
      (f th).currentPriority = th.currentPriority ∧ (f th).initPriority = th.initPriority ∧
      (f th).numberMask = th.numberMask) : Keeps lo out t k σ zs (k.modifyThread t f) :=
  ⟨σ, zs, hk.modify hf, .ofThread (fun u hu => by simp [hu]) rfl rfl rfl, fun _ => id⟩

/-! ## Initialisation and start -/

omit [DecidableEq T] in
theorem Wf.fresh_of_null (hk : Wf lo out k σ zs) (ht : t ∉ out)
    (hnull : (k.thread t).type = .null) : Fresh σ t := by
  have hstat := (hk.sound t ht).null hnull
  intro h hm
  cases h with
  | ready p => exact hk.not_ready (by cases hstat with | _ h => simp [h]) p hm
  | defunct => exact (hk.defunct t hm).2 hnull
  | suspend i =>
    have hsusp := hk.suspended i t hm
    cases hstat with
    | _ h => simp [h] at hsusp

variable [DecidableEq U] [DecidableEq I] [Fintype T] [Fintype U]

/-- `_rt_thread_init` of a thread that is out of all lists. -/
theorem Wf.rtThreadInitFields (hk : Wf lo (insert t out) k σ zs)
    (htype : (k.thread t).type ≠ .null) {priority : Nat} {tick : Tick} (h : k.rtThreadInitFields t priority tick = .ok k') :
    Keeps lo out t k σ zs k' := by
  have hfresh := hk.outside t (by simp)
  have hself : k.tlist.initNode (.inr t) = k.tlist := hk.holds.initNode hfresh
  simp only [State.rtThreadInitFields, rtListInit, hself, exec_bind_ok, rtAssert_eq_ok] at h
  obtain ⟨_, hlt, hinit⟩ := h
  obtain ⟨s, hexec, rfl⟩ := liftTimers_eq_ok.mp hinit
  have hchanged := hk.change fun th => { th with
    initPriority := priority
    currentPriority := priority
    numberMask := 0
    initTick := tick
    remainingTick := tick
    error := .eok
    stat := .init
    cleanup := false }
  have hexec' : (TimerOp.init (.inl t) 0 {}).exec k.timers = .ok s := hexec
  obtain ⟨zs', hk', heff, htick⟩ := hchanged.timerOp hexec' (fun _ _ => ⟨rfl, by simp⟩)
    (fun u hu hop => absurd (by simpa [TimerOp.timer] using hop) fun heq : t = u =>
      hu (by simp [heq]))
    (fun _ _ hop => by cases hop)
  have hregistered : (s.timer (.inl t)).type ≠ .null := heff.own.2.2.1
  refine ⟨σ, zs', hk'.settle ?_ (by simp) (by simp [htype, hregistered]) (by simp), ?_,
    fun _ => id⟩
  · constructor <;> simp [hlt]
  · have hfields : Touches t k σ zs (k.modifyThread t fun th => { th with
        initPriority := priority
        currentPriority := priority
        numberMask := 0
        initTick := tick
        remainingTick := tick
        error := .eok
        stat := .init
        cleanup := false }) σ zs := .ofThread (fun u hu => by simp [hu]) rfl rfl rfl
    exact hfields.trans (.timerOp heff rfl htick)

theorem Wf.rtThreadInit (hk : Wf lo out k σ zs) (ht : t ∉ out) {priority : Nat} {tick : Tick}
    (h : k.rtThreadInit t priority tick = .ok k') : Keeps lo out t k σ zs k' := by
  simp only [State.rtThreadInit, exec_bind_ok, rtAssert_eq_ok] at h
  obtain ⟨_, hnull, hfields⟩ := h
  have hout := (hk.takeOut (hk.fresh_of_null ht hnull)).change
    fun th => { th with type := .static }
  obtain ⟨σ', zs', hk', htouch, hwaits⟩ := hout.rtThreadInitFields (by simp) hfields
  have htype : Touches t k σ zs (k.modifyThread t fun th => { th with type := .static }) σ zs :=
    .ofThread (fun u hu => by simp [hu]) rfl rfl rfl
  exact ⟨σ', zs', hk', htype.trans htouch, hwaits⟩

theorem Wf.rtThreadCreate (hk : Wf lo out k σ zs) (ht : t ∉ out) {priority : Nat} {tick : Tick}
    (h : k.rtThreadCreate t priority tick = .ok k') : Keeps lo out t k σ zs k' := by
  simp only [State.rtThreadCreate, exec_bind_ok, rtAssert_eq_ok] at h
  obtain ⟨_, hnull, hfields⟩ := h
  have hout := (hk.takeOut (hk.fresh_of_null ht hnull)).change fun _ => { type := .allocated }
  obtain ⟨σ', zs', hk', htouch, hwaits⟩ := hout.rtThreadInitFields (by simp) hfields
  have htype : Touches t k σ zs (k.modifyThread t fun _ => { type := .allocated }) σ zs :=
    .ofThread (fun u hu => by simp [hu]) rfl rfl rfl
  exact ⟨σ', zs', hk', htype.trans htouch, hwaits⟩

omit [DecidableEq U] [DecidableEq I] [Fintype T] [Fintype U] in
theorem Wf.setCleanup (hk : Wf lo out k σ zs) {cleanup : Bool}
    (h : k.setCleanup t cleanup = .ok k') : Keeps lo out t k σ zs k' := by
  simp only [State.setCleanup, exec_bind_ok, exec_pure_ok] at h
  obtain ⟨_, -, rfl⟩ := h
  exact hk.keeps_modify fun _ => ⟨rfl, rfl, rfl, rfl, rfl⟩

theorem Wf.rtThreadStartup (hk : Wf lo out k σ zs) (ht : t ∉ out)
    (h : k.rtThreadStartup t = .ok k') : Keeps lo out t k σ zs k' := by
  simp only [State.rtThreadStartup, exec_bind_ok, rtAssert_eq_ok] at h
  obtain ⟨_, hstat, _, htype, ⟨k₁, err⟩, hresume, hend⟩ := h
  have hs := hk.sound t ht
  let started := k.modifyThread t fun th => { th with
    currentPriority := th.initPriority
    numberMask := 1#32 <<< th.initPriority
    stat := .suspend }
  have hstarted : Wf lo out started σ zs := by
    have hregistered := (hk.closed t ht).not.mpr (by simp [hstat, htype])
    refine ((hk.takeOut (hk.fresh_of_init hstat)).change _).settle ?_ (by simp)
      (by simpa [htype] using hregistered) (by simp)
    constructor <;> simp [htype, hs.initPriority]
  have hfields : Touches t k σ zs started σ zs :=
    .ofThread (fun u hu => by simp [started, hu]) rfl rfl rfl
  have hkept : Keeps lo out t k σ zs k₁ := by
    obtain ⟨-, ⟨-, rfl, -⟩ | ⟨-, -, s, zs', σ', -, -, hσ', hk', htouch⟩⟩ :=
      hstarted.rtThreadResume ht hresume
    · exact ⟨σ, zs, hstarted, hfields, fun _ => id⟩
    · refine ⟨σ', zs', hk', hfields.trans htouch, fun i hm => ?_⟩
      rw [hσ', mem_pushBack] at hm
      simp only [reduceCtorEq, false_and, false_or] at hm
      exact absurd hm (hstarted.holds.fresh_erase t _)
  split at hend
  · exact hkept.schedule hend
  · simp only [exec_pure_ok] at hend
    exact hend ▸ hkept

/-! ## The end of a thread -/

omit [DecidableEq U] [Fintype T] [Fintype U] in
/-- The first critical section of `rt_thread_detach` and `rt_thread_delete`. -/
theorem Wf.leaveScheduler (hk : Wf lo out k σ zs) (ht : t ∉ out)
    (h : k.leaveScheduler t = .ok k') :
    Wf lo (insert t out) k' (erase σ t) zs ∧ Touches t k σ zs k' (erase σ t) zs ∧
      k'.thread = k.thread ∧ k'.timers = k.timers ∧ k'.rtCurrentThread = k.rtCurrentThread := by
  have hlists := hk.holds.erase_erase t
  unfold State.leaveScheduler at h
  split at h
  · obtain ⟨-, rfl⟩ := rtScheduleRemoveThread_eq h
    exact ⟨hk.removeThread ht, .ofThread (fun _ _ => rfl) hlists rfl rfl, rfl, rfl, rfl⟩
  case isFalse hinit =>
    simp only [exec_pure_ok] at h
    subst h
    have hfresh := hk.fresh_of_init (not_not.mp hinit)
    rw [erase_of_fresh hfresh]
    exact ⟨hk.takeOut hfresh, .refl t k σ zs, rfl, rfl, rfl⟩

omit [DecidableEq I] in
/-- A thread that is out is closed, once its timer is detached. -/
theorem Wf.close (hk : Wf lo (insert t out) k σ zs) (hsound : (k.thread t).Sound)
    {s : Timers (T ⊕ U)} (h : (TimerOp.detach (.inl t)).exec k.timers = .ok s) :
    ∃ zs', Wf lo out ((k.withTimers s).setStat t .close) σ zs' ∧
      Touches t k σ zs ((k.withTimers s).setStat t .close) σ zs' ∧ Fresh σ t := by
  obtain ⟨zs', hdetached, heff, hgone, htick⟩ := hk.detachTimer h
  have hnull : (s.timer (.inl t)).type = .null := heff.own.2.2.1
  refine ⟨zs', (hdetached.change fun th => { th with stat := .close }).settle ?_ (by simp)
    (by simp [hnull]) (fun hm => absurd hm hgone), ?_, hk.outside t (by simp)⟩
  · simpa using hsound.restat .close (.inr (.inr rfl)) (by simp)
  · have htimer : Touches t k σ zs (k.withTimers s) σ zs' := .timerOp heff rfl htick
    exact htimer.trans (.ofThread (fun u hu => by simp [hu]) rfl rfl rfl)

section

omit [DecidableEq U] [Fintype T] [Fintype U]

/-- A closed thread goes into the defunct list. -/
theorem Wf.insertDefunct (hk : Wf lo out k σ zs) (ht : t ∉ out) (hfresh : Fresh σ t)
    (hclose : (k.thread t).stat = .close) (htype : (k.thread t).type ≠ .null) :
    Wf lo out (k.insertDefunct t) (pushFront σ .defunct t) zs ∧
      Touches t k σ zs (k.insertDefunct t) (pushFront σ .defunct t) zs := by
  refine ⟨hk.enlist ht (by simp) (hk.holds.insertAfter_head _ hfresh) (by simp)
    (fun _ => ⟨hclose, htype⟩) (by simp), .ofThread (fun _ _ => rfl) ?_ rfl rfl⟩
  rw [pushFront, erase_insertAt hfresh (by simp), erase_of_fresh hfresh]

theorem Wf.detachOrDefunct (hk : Wf lo out k σ zs) (ht : t ∉ out) (hfresh : Fresh σ t)
    (hclose : (k.thread t).stat = .close) (htype : (k.thread t).type ≠ .null) :
    Keeps lo out t k σ zs (k.detachOrDefunct t) := by
  unfold State.detachOrDefunct
  split
  · have hs := hk.sound t ht
    refine ⟨σ, zs, ((hk.takeOut hfresh).change fun th => { th with type := .null }).settle
      ?_ (by simp [hclose]) ?_ ?_, .ofThread (fun u hu => by simp [hu]) rfl rfl rfl,
      fun _ => id⟩
    · constructor <;> simp [hclose, hs.initPriority, hs.currentPriority]
      exact hs.mask
    · simp [(hk.closed t ht).mpr (.inl hclose)]
    · intro hm
      cases hk.waiting t ht hm with
      | _ h => simp [hclose] at h
  · obtain ⟨hk', htouch⟩ := hk.insertDefunct ht hfresh hclose htype
    exact ⟨_, zs, hk', htouch, fun i hm => by simpa using hm⟩

end

theorem Wf.rtThreadDelete (hk : Wf lo out k σ zs) (ht : t ∉ out)
    (h : k.rtThreadDelete t = .ok k') : Keeps lo out t k σ zs k' := by
  simp only [State.rtThreadDelete, exec_bind_ok, rtAssert_eq_ok, exec_pure_ok] at h
  obtain ⟨_, htype, _, -, k₁, hleave, k₂, hdetach, rfl⟩ := h
  obtain ⟨hk₁, htouch₁, hthread, -, -⟩ := hk.leaveScheduler ht hleave
  obtain ⟨s, hexec, rfl⟩ := liftTimers_eq_ok.mp hdetach
  obtain ⟨zs', hk₂, htouch₂, hfresh⟩ := hk₁.close (hthread ▸ hk.sound t ht) hexec
  obtain ⟨hk', htouch'⟩ := hk₂.insertDefunct ht hfresh (by simp) (by simpa [hthread] using htype)
  refine ⟨_, zs', hk', (htouch₁.trans htouch₂).trans htouch', fun i hm => ?_⟩
  simp only [mem_pushFront, reduceCtorEq, false_and, false_or] at hm
  exact absurd hm (hfresh _)

theorem Wf.rtThreadDetach (hk : Wf lo out k σ zs) (ht : t ∉ out)
    (h : k.rtThreadDetach t = .ok k') : Keeps lo out t k σ zs k' := by
  simp only [State.rtThreadDetach, exec_bind_ok, rtAssert_eq_ok, exec_pure_ok] at h
  obtain ⟨_, htype, _, -, k₁, hleave, k₂, hdetach, rfl⟩ := h
  obtain ⟨hk₁, htouch₁, hthread, -, -⟩ := hk.leaveScheduler ht hleave
  obtain ⟨s, hexec, rfl⟩ := liftTimers_eq_ok.mp hdetach
  obtain ⟨zs', hk₂, htouch₂, hfresh⟩ := hk₁.close (hthread ▸ hk.sound t ht) hexec
  obtain ⟨σ', zs'', hk', htouch', hwaits⟩ :=
    hk₂.detachOrDefunct ht hfresh (by simp) (by simpa [hthread] using htype)
  exact ⟨σ', zs'', hk', (htouch₁.trans htouch₂).trans htouch',
    fun i hm => absurd (hwaits i hm) (hfresh _)⟩

omit [DecidableEq T] [DecidableEq U] [DecidableEq I] [Fintype T] [Fintype U] in
theorem rtThreadSelf_eq (h : k.rtThreadSelf = .ok t) : k.rtCurrentThread = some t := by
  unfold rtThreadSelf at h
  cases hcur : k.rtCurrentThread with
  | none => simp [hcur] at h
  | some u =>
    simp only [hcur, exec_pure_ok] at h
    rw [h]

/-- The running thread, once it has exited. -/
theorem Wf.rtThreadExit (hk : Wf lo out k σ zs) (hcur : k.rtCurrentThread = some t)
    (ht : t ∉ out) (h : k.rtThreadExit = .ok k') : Keeps lo out t k σ zs k' := by
  simp only [State.rtThreadExit, exec_bind_ok] at h
  obtain ⟨u, hself, k₁, hremove, k₂, hdetach, hschedule⟩ := h
  obtain rfl : u = t := Option.some.inj ((rtThreadSelf_eq hself).symm.trans hcur)
  obtain ⟨-, rfl⟩ := rtScheduleRemoveThread_eq hremove
  obtain ⟨s, hexec, rfl⟩ := liftTimers_eq_ok.mp hdetach
  have hregistered : (k.timers.timer (.inl u)).type ≠ .null := by
    simp only [Timers.rtTimerDetach, exec_bind_ok, rtAssert_eq_ok] at hexec
    obtain ⟨_, hne, -⟩ := hexec
    exact hne
  have htouch₁ : Touches u k σ zs (k.removedThread u) (erase σ u) zs :=
    .ofThread (fun _ _ => rfl) (hk.holds.erase_erase u) rfl rfl
  obtain ⟨zs', hk₂, htouch₂, hfresh⟩ := (hk.removeThread ht).close (hk.sound u ht) hexec
  -- an unregistered thread has a timer that is not registered either
  have htype : (k.thread u).type ≠ .null := fun hnull =>
    hregistered ((hk.closed u ht).mpr (.inr hnull))
  obtain ⟨σ', zs'', hk', htouch', hwaits⟩ :=
    hk₂.detachOrDefunct ht hfresh (by simp) (by simpa using htype)
  have hkept : Keeps lo out u k σ zs _ := ⟨σ', zs'', hk', (htouch₁.trans htouch₂).trans htouch',
    fun i hm => absurd (hwaits i hm) (hfresh _)⟩
  exact hkept.schedule hschedule

/-! ## Yielding, sleeping, changing the priority -/

/-- `k` with `t` moved to the back of the list of its priority. -/
def rotated (k : State T U I) (t : T) : State T U I :=
  let tlist := (k.unlink t).tlist
  { k with tlist := rtListInsertBefore (.inl (.ready (k.thread t).currentPriority)) (.inr t) tlist }

section

omit [DecidableEq U] [Fintype T] [Fintype U]

theorem Wf.rotated (hk : Wf lo out k σ zs) (ht : t ∉ out) (hstat : (k.thread t).stat = .ready) :
    Wf lo out (k.rotated t) (pushBack (erase σ t) (.ready (k.thread t).currentPriority) t) zs := by
  have hsound := hk.sound t ht
  have htimer : .inl t ∉ zs := by
    intro hm
    cases hk.waiting t ht hm with
    | _ h => simp [hstat] at h
  obtain ⟨htype, hregistered⟩ := hk.alive ht (.inl hstat)
  have hmoved := (hk.removeThread ht).insertThread ht (by
    simpa using hsound.restat .ready (.inl htype) fun _ => .inl hstat) htimer hregistered
  have hthread : ((k.removedThread t).insertedThread t).thread = k.thread := by
    funext u
    by_cases hut : u = t
    · subst hut
      simp [← hstat]
    · simp [hut]
  have hsame := hthread ▸ hmoved.ready
  refine { hmoved with
    sound := hthread ▸ hmoved.sound, ready := hsame, defunct := hthread ▸ hmoved.defunct
    suspended := hthread ▸ hmoved.suspended, group := ?_
    closed := hthread ▸ hmoved.closed, waiting := hthread ▸ hmoved.waiting }
  intro p hp
  have hmem := (hk.ready t ht (k.thread t).currentPriority).mpr ⟨hstat, rfl⟩
  show k.rtThreadReadyPriorityGroup.getLsbD p = true ↔ _
  rw [hk.group p hp]
  by_cases heq : p = (k.thread t).currentPriority
  · subst heq
    simp [List.ne_nil_of_mem hmem]
  · have hnot : t ∉ σ (.ready p) := fun hm => heq ((hk.ready t ht p).mp hm).2.symm
    rw [pushBack_other (by simpa using heq), erase_of_notMem hnot]

/-- `rt_thread_yield` of the running thread `t`. -/
theorem Wf.rtThreadYield (hk : Wf lo out k σ zs) (hcur : k.rtCurrentThread = some t)
    (h : k.rtThreadYield = .ok k') :
    k' = k ∨ (t ∉ out ∧ (k.thread t).stat = .ready ∧ ∃ c p σ',
      k' = (k.rotated t).switchedTo c p ∧
      σ' = pushBack (erase σ t) (.ready (k.thread t).currentPriority) t ∧
      Wf lo out k' σ' zs ∧ Touches t k σ zs k' σ' zs) := by
  simp only [State.rtThreadYield, exec_bind_ok] at h
  obtain ⟨u, hself, h⟩ := h
  obtain rfl : u = t := Option.some.inj ((rtThreadSelf_eq hself).symm.trans hcur)
  split at h
  case isTrue hcond =>
    obtain ⟨hstat, hlinked⟩ := hcond
    right
    -- a thread that is out is linked to itself, so the test of the code keeps it out
    have hu : u ∉ out := by
      intro hout
      have halone := hk.holds.alone u (hk.outside u hout)
      exact hlinked (halone.1.trans halone.2.symm)
    by_cases hlt : rtThreadPriorityMax ≤ ((k.unlink u).thread u).currentPriority
    · rw [if_pos hlt] at h
      simp at h
    · rw [if_neg hlt] at h
      obtain ⟨c, p, rfl, -, -⟩ := rtSchedule_eq h
      have htouch : Touches u k σ zs (k.rotated u)
          (pushBack (erase σ u) (.ready (k.thread u).currentPriority) u) zs :=
        .ofThread (fun _ _ => rfl) (erase_pushBack (hk.holds.fresh_erase u)) rfl rfl
      exact ⟨hu, hstat, c, p, _, rfl, rfl, (hk.rotated hu hstat).switched c p,
        htouch.switched c p⟩
  · simp only [exec_pure_ok] at h
    exact .inl h.symm

end

theorem Wf.rtThreadSleep (hk : Wf lo out k σ zs) (hcur : k.rtCurrentThread = some t)
    (ht : t ∉ out) {tick : Tick} (h : k.rtThreadSleep tick = .ok k') :
    Keeps lo out t k σ zs k' := by
  simp only [State.rtThreadSleep, hcur, exec_bind_ok, exec_pure_ok, rtAssert_eq_ok] at h
  obtain ⟨u, rfl, _, htype, ⟨k₁, err⟩, hsuspend, k₂, hset, k₃, hstart, hschedule⟩ := h
  obtain ⟨s₂, hexec₂, rfl⟩ := liftTimers_setTime hset
  obtain ⟨s₃, hexec₃, rfl⟩ := liftTimers_eq_ok.mp hstart
  have hkept : Keeps lo out t k σ zs k₁ ∧ (k₁.thread t).stat ≠ .ready := by
    obtain ⟨-, ⟨-, rfl, hstat⟩ | ⟨-, -, s, zs', rfl, -, hk₁, htouch⟩⟩ :=
      hk.rtThreadSuspend ht hsuspend
    · exact ⟨hk.keeps_refl t, hstat⟩
    · exact ⟨⟨_, zs', hk₁, htouch, fun i hm => (hk.holds.mem_erase.mp hm).2⟩, by simp⟩
  obtain ⟨⟨σ₁, zs₁, hk₁, htouch₁, hwaits₁⟩, hstat₁⟩ := hkept
  obtain ⟨zs₂, hk₂, heff₂, htick₂⟩ := hk₁.timerOp hexec₂ (fun _ _ => ⟨rfl, by simp⟩)
    (by simp [TimerOp.timer]) (fun _ _ hop => by cases hop)
  -- the timer is registered, so the thread is not closed
  have hwaits : (k₁.thread t).stat = .suspend ∨ (k₁.thread t).stat = .init := by
    have hregistered : (k₁.timers.timer (.inl t)).type ≠ .null := heff₂.own.2.1
    cases hstat : (k₁.thread t).stat with
    | init => exact .inr rfl
    | ready => exact absurd hstat hstat₁
    | suspend => exact .inl rfl
    | close => exact absurd ((hk₁.closed t ht).mpr (.inl hstat)) hregistered
  have hexec₃' : (TimerOp.start (.inl t)).exec s₂ = .ok s₃ := hexec₃
  obtain ⟨zs₃, hk₃, heff₃, htick₃⟩ := hk₂.timerOp hexec₃'
    (fun _ _ => ⟨rfl, by simp⟩) (by simp [TimerOp.timer]) (fun v _ hop => by
      simp only [TimerOp.start.injEq, Sum.inl.injEq] at hop
      exact hop ▸ hwaits)
  have htouch₂ : Touches t k₁ σ₁ zs₁ (k₁.withTimers s₂) σ₁ zs₂ := .timerOp heff₂ rfl htick₂
  have htouch₃ : Touches t (k₁.withTimers s₂) σ₁ zs₂ ((k₁.withTimers s₂).withTimers s₃) σ₁ zs₃ :=
    .timerOp heff₃ rfl htick₃
  have hslept : Keeps lo out t k σ zs ((k₁.withTimers s₂).withTimers s₃) :=
    ⟨σ₁, zs₃, hk₃, (htouch₁.trans htouch₂).trans htouch₃, hwaits₁⟩
  exact hslept.schedule hschedule

omit [DecidableEq U] [DecidableEq I] [Fintype T] [Fintype U] in
theorem Wf.rtThreadSleepReturn (hk : Wf lo out k σ zs) :
    Keeps lo out t k σ zs (k.rtThreadSleepReturn t) := by
  unfold State.rtThreadSleepReturn
  split
  · exact hk.keeps_modify fun _ => ⟨rfl, rfl, rfl, rfl, rfl⟩
  · exact hk.keeps_refl t

omit [Fintype T] [Fintype U] in
/-- A change of priority moves a ready thread to its new list, and no other thread. -/
theorem Wf.changePriority (hk : Wf lo out k σ zs) (ht : t ∉ out) {priority : Nat}
    (hp : priority < rtThreadPriorityMax)
    (h : k.rtThreadControl t (.changePriority priority) = .ok k') :
    ∃ σ', Wf lo out k' σ' zs ∧ Touches t k σ zs k' σ' zs ∧
      k'.thread = Function.update k.thread t ((k.thread t).withPriority priority) ∧
      k'.timers = k.timers ∧ k'.rtCurrentThread = k.rtCurrentThread ∧
      ∀ i, σ' (.suspend i) = σ (.suspend i) := by
  simp only [rtThreadControl, exec_bind_ok, rtAssert_eq_ok] at h
  obtain ⟨_, htype, h⟩ := h
  split at h
  case isTrue hstat =>
    simp only [exec_bind_ok] at h
    -- the thread leaves the list of the old priority before it gets the new one
    obtain ⟨k₁, hremove, hinsert⟩ := h
    obtain ⟨-, rfl⟩ := rtScheduleRemoveThread_eq hremove
    obtain ⟨-, rfl⟩ := rtScheduleInsertThread_eq hinsert
    have hchanged := (hk.removeThread ht).change (·.withPriority priority)
    -- a ready thread has no timer running
    have htimer : .inl t ∉ zs := by
      intro hm
      cases hk.waiting t ht hm with
      | _ h => simp [hstat] at h
    have hinserted := hchanged.insertThread ht (by
      have hs := ((hk.sound t ht).withPriority hp).restat .ready (.inl htype)
        fun _ => .inl hstat
      simpa using hs) htimer (hk.alive ht (.inl hstat)).2
    refine ⟨_, hinserted, .ofThread (fun u hu => by simp [hu])
      (erase_pushBack (hk.holds.fresh_erase t)) rfl rfl, ?_, rfl, rfl, ?_⟩
    · funext u
      by_cases hut : u = t
      · subst hut
        simp [Thread.withPriority, ← hstat]
      · simp [hut]
    · intro i
      rw [pushBack_other (by simp)]
      refine erase_of_notMem fun hm => ?_
      have := hk.suspended i t hm
      simp [hstat] at this
  case isFalse hstat =>
    simp only [exec_pure_ok] at h
    subst h
    refine ⟨σ, ?_, .ofThread (fun u hu => by simp [hu]) rfl rfl rfl, rfl, rfl, rfl, fun _ => rfl⟩
    -- any other thread stays where it is, and takes its place by priority when it is ready again
    have hfields : ∀ u, ((k.modifyThread t (·.withPriority priority)).thread u).stat =
        (k.thread u).stat ∧ ((k.modifyThread t (·.withPriority priority)).thread u).type =
        (k.thread u).type := by
      intro u
      by_cases hut : u = t
      · subst hut
        simp [Thread.withPriority]
      · simp [hut]
    refine { hk with
      sound := ?_, ready := ?_, defunct := ?_, suspended := ?_, closed := ?_, waiting := ?_ }
    · intro u hu
      by_cases hut : u = t
      · subst hut
        rw [modifyThread_thread, Function.update_self]
        exact (hk.sound u hu).withPriority hp
      · simpa [hut] using hk.sound u hu
    · intro u hu p
      by_cases hut : u = t
      · subst hut
        simp [hstat, hk.not_ready hstat p]
      · simpa [hut] using hk.ready u hu p
    · intro u hm
      exact (hfields u).1 ▸ (hfields u).2 ▸ hk.defunct u hm
    · intro i u hm
      exact (hfields u).1 ▸ hk.suspended i u hm
    · intro u hu
      have hsame := hk.closed u hu
      rw [← (hfields u).1, ← (hfields u).2] at hsame
      exact hsame
    · intro u hu hm
      exact (hfields u).1 ▸ hk.waiting u hu hm

end State

end PandoraRobot.Kernel
