import PandoraRobot.Kernel.Bystander

/-! # The idle thread and the tick interrupt

`rt_thread_idle_excute` empties the defunct list.  `rt_tick_increase` may rotate the
list of the running thread, and then fires the timers that are due: that of a thread
resumes the thread.
-/

namespace PandoraRobot.Kernel

open PandoraRobot.RingList

namespace State

variable {T U I : Type}

variable {lo : Int} {out : Set T} {k k' : State T U I} {σ σ' : ListHead I → List T}
  {zs zs' : List (T ⊕ U)} {t : T}

/-! ## `rt_thread_idle_excute` -/

theorem Wf.rtEnterCritical (hk : Wf lo out k σ zs) : Wf lo out k.rtEnterCritical σ zs :=
  { hk with }

variable [DecidableEq T]

theorem rtExitCritical_eq (h : k.rtExitCritical = .ok k') :
    ∃ n c p, k' = { k.switchedTo c p with rtSchedulerLockNest := n } := by
  simp only [State.rtExitCritical] at h
  split at h
  · split at h
    · obtain ⟨c, p, rfl, -, -⟩ := rtSchedule_eq h
      exact ⟨0, c, p, rfl⟩
    · simp only [exec_pure_ok] at h
      exact ⟨0, k.rtCurrentThread, k.rtCurrentPriority, h.symm⟩
  · simp only [exec_pure_ok] at h
    exact ⟨k.rtSchedulerLockNest - 1, k.rtCurrentThread, k.rtCurrentPriority, h.symm⟩

theorem Wf.rtExitCritical (hk : Wf lo out k σ zs) (h : k.rtExitCritical = .ok k') :
    Wf lo out k' σ zs := by
  obtain ⟨n, c, p, rfl⟩ := rtExitCritical_eq h
  exact { hk with }

/-- The lock is given back, down to where `rt_schedule` is called again. -/
theorem Wf.runsOn_exitCritical (hk' : Wf lo out k' σ zs) (h : k.rtExitCritical = .ok k') :
    (SameRun { k with rtSchedulerLockNest := k.rtSchedulerLockNest - 1 } k') ∨
      RunsOn t { k with rtSchedulerLockNest := 0 } k' := by
  simp only [State.rtExitCritical] at h
  split at h
  · right
    split at h
    · exact hk'.runsOn_schedule ⟨rfl, rfl⟩ h
    · simp only [exec_pure_ok] at h
      exact h ▸ SameRun.runsOn ⟨rfl, rfl⟩
  · simp only [exec_pure_ok] at h
    exact .inl (h ▸ ⟨rfl, rfl⟩)

/-- A critical section of a scheduler that is not locked. -/
theorem Wf.runsOn_critical (hk' : Wf lo out k' σ zs) (hlock : k.rtSchedulerLockNest = 0)
    (h : k.rtEnterCritical.rtExitCritical = .ok k') :
    k'.rtSchedulerLockNest = 0 ∧ RunsOn t k k' := by
  have hzero : k.rtEnterCritical.rtSchedulerLockNest - 1 = 0 := by
    show k.rtSchedulerLockNest + 1 - 1 = 0
    rw [hlock]
    rfl
  simp only [State.rtExitCritical] at h
  split at h
  · have hsame : SameRun k { k.rtEnterCritical with rtSchedulerLockNest := 0 } :=
      ⟨rfl, hlock.symm⟩
    split at h
    · have hruns := hk'.runsOn_schedule (t := t) hsame h
      obtain ⟨c, p, rfl, -, -⟩ := rtSchedule_eq h
      exact ⟨rfl, hruns⟩
    · simp only [exec_pure_ok] at h
      subst h
      exact ⟨rfl, hsame.runsOn⟩
  case isFalse hpos =>
    rw [hzero] at hpos
    exact absurd (by decide) hpos

section

variable [DecidableEq I]

/-- A closed thread at the front of the defunct list leaves it, and gives its object back. -/
theorem Wf.reap (hk : Wf lo out k σ zs) {rest : List T} (hσ : σ .defunct = t :: rest) :
    Wf lo out ((k.unlink t).modifyThread t fun th => { th with type := .null })
      (erase σ t) zs := by
  have hmem : t ∈ σ .defunct := by simp [hσ]
  obtain ⟨hclose, htype⟩ := hk.defunct t hmem
  have ht : t ∉ out := fun hout => hk.outside t hout _ hmem
  have hs := hk.sound t ht
  have hunlinked := hk.unlink (hk.not_ready (t := t) (by simp [hclose]))
  refine (hunlinked.change fun th => { th with type := .null }).settle ?_ (by simp [hclose])
    ?_ ?_
  · constructor <;> simp [hclose, hs.initPriority, hs.currentPriority]
    exact hs.mask
  · simp [(hk.closed t ht).mpr (.inl hclose)]
  · intro hm
    cases hk.waiting t ht hm with
    | _ h => simp [hclose] at h

/-- The idle thread touches no thread that is not closed, and no wait list. -/
theorem Wf.rtThreadIdleExcute {fuel : Nat} (hk : Wf lo out k σ zs)
    (h : k.rtThreadIdleExcute fuel = .ok k') :
    ∃ σ', Wf lo out k' σ' zs ∧ (∀ i, σ' (.suspend i) = σ (.suspend i)) ∧
      ∀ t, (k.thread t).stat ≠ .close → Untouched t k σ zs k' σ' zs ∧
        (k.rtSchedulerLockNest = 0 → RunsOn t k k') := by
  induction fuel generalizing k σ with
  | zero => simp [State.rtThreadIdleExcute] at h
  | succ fuel ih =>
    rw [State.rtThreadIdleExcute] at h
    cases hnext : k.tlist.next (.inl .defunct) with
    | inl head =>
      simp only [hnext, exec_pure_ok] at h
      subst h
      exact ⟨σ, hk, fun _ => rfl,
        fun t _ => ⟨.refl rfl rfl, fun _ => SameRun.runsOn ⟨rfl, rfl⟩⟩⟩
    | inr u =>
      simp only [hnext] at h
      obtain ⟨rest, hσ⟩ := hk.holds.next_head_eq_elem hnext
      have hwaits : ∀ i, erase σ u (.suspend i) = σ (.suspend i) := by
        intro i
        refine erase_of_notMem fun hm => ?_
        have := hk.holds.disjoint _ _ u hm (show u ∈ σ .defunct by simp [hσ])
        cases this
      have hreaped := hk.reap hσ
      have hclose := (hk.defunct u (by simp [hσ])).1
      -- a thread that is not closed is not the one the idle thread disposes of
      have hother : ∀ t, (k.thread t).stat ≠ .close → t ≠ u := by
        rintro t hstat rfl
        exact hstat hclose
      have huntouched : ∀ t ≠ u, Untouched t k σ zs
          ((k.unlink u).modifyThread u fun th => { th with type := .null }) (erase σ u) zs := by
        intro t hne
        have htouch : Touches u k σ zs
            ((k.unlink u).modifyThread u fun th => { th with type := .null }) (erase σ u) zs :=
          .ofThread (fun v hv => by simp [hv]) (hk.holds.erase_erase u) rfl rfl
        exact htouch.untouched hne
      split at h
      · have hk' := hreaped.rtEnterCritical.rtExitCritical h
        refine ⟨_, hk', hwaits, fun t hstat => ⟨?_, fun hlock => ?_⟩⟩
        · obtain ⟨n, c, p, rfl⟩ := rtExitCritical_eq h
          have hkept := huntouched t (hother t hstat)
          exact ⟨hkept.thread, hkept.timer, hkept.linked, hkept.lists, hkept.rtTick⟩
        · have hruns := (hk'.runsOn_critical (t := t) (k := (k.unlink u).modifyThread u
            fun th => { th with type := .null }) hlock h).2
          exact ⟨hruns.picked, hruns.running⟩
      · simp only [exec_bind_ok] at h
        obtain ⟨k₁, hexit, hloop⟩ := h
        -- the object is given back after the critical section
        have hk₁ := (hk.unlink (hk.not_ready (t := u) (by simp [hclose]))).rtEnterCritical
          |>.rtExitCritical hexit
        obtain ⟨n, c, p, hfields⟩ := rtExitCritical_eq hexit
        have hreaped₁ : Wf lo out (k₁.modifyThread u fun th => { th with type := .null })
            (erase σ u) zs := by
          subst hfields
          exact { hreaped with }
        have hthread : ∀ t ≠ u, ((k₁.modifyThread u fun th => { th with type := .null }).thread t) =
            k.thread t := by
          intro t hne
          rw [modifyThread_thread, Function.update_of_ne hne, hfields]
          rfl
        obtain ⟨σ', hk', hlists, hrest⟩ := ih hreaped₁ hloop
        refine ⟨σ', hk', fun i => (hlists i).trans (hwaits i), fun t hstat => ?_⟩
        have hne := hother t hstat
        obtain ⟨hlater, hruns⟩ := hrest t (by rw [hthread t hne]; exact hstat)
        refine ⟨?_, fun hlock => ?_⟩
        · have hkept := huntouched t hne
          have hfirst : Untouched t k σ zs (k₁.modifyThread u fun th => { th with type := .null })
              (erase σ u) zs := by
            subst hfields
            exact ⟨hkept.thread, hkept.timer, hkept.linked, hkept.lists, hkept.rtTick⟩
          exact hfirst.trans hlater
        · obtain ⟨hfree, hruns₁⟩ := hk₁.runsOn_critical (t := t) (k := k.unlink u) hlock hexit
          have hfirst : RunsOn t k (k₁.modifyThread u fun th => { th with type := .null }) :=
            ⟨fun hpicked => by
              have hpicked₁ := hruns₁.picked hpicked
              simp only [modifyThread_thread, Function.update_of_ne hne]
              exact hpicked₁, hruns₁.running⟩
          exact hfirst.trans (hruns hfree) hlater.stat

end

/-! ## `rt_tick_increase` -/

omit [DecidableEq T] in
/-- Once the front of the timer list is not due, the interrupt is over. -/
theorem Wf.mono (hk : Wf (-1) out k σ zs)
    (hfront : ∀ x ∈ zs.head?, k.timers.due k.timers.rtTick x = false) : Wf 0 out k σ zs :=
  { hk with
    low := ⟨by omega, le_refl _⟩
    sorted := (hk.sorted.rest (le_refl _) hfront).mono (by omega) }

variable [DecidableEq U]

/-- The front timer is taken out of the timer list. -/
theorem Wf.removeFront {x : T ⊕ U} (hk : Wf lo out k σ (x :: zs)) :
    Wf lo out (k.withTimers (k.timers.rtTimerRemove x)) σ zs :=
  hk.withTimers hk.sorted.removeFront (fun t hm => hk.activated t (by simp [hm])) hk.embedded
    hk.closed (fun t ht hm => hk.waiting t ht (by simp [hm]))

/-- A timer is taken out of the timer list, wherever it is. -/
theorem Wf.removeTimer (hk : Wf lo out k σ zs) (x : T ⊕ U) :
    ∃ zs', Wf lo out (k.withTimers (k.timers.rtTimerRemove x)) σ zs' ∧ x ∉ zs' ∧
      ∀ y, y ≠ x → (y ∈ zs' ↔ y ∈ zs) := by
  obtain ⟨zs', hsorted, hgone, hother⟩ := hk.sorted.without x
  have hsub : ∀ {y}, y ∈ zs' → y ∈ zs := fun {y} hy =>
    (hother y fun heq => hgone (heq ▸ hy)).mp hy
  exact ⟨zs', hk.withTimers hsorted (fun t hm => hk.activated t (hsub hm)) hk.embedded hk.closed
    (fun t ht hm => hk.waiting t ht (hsub hm)), hgone, hother⟩

/-- The flag of a timer is cleared that is not the linked timer of a thread. -/
theorem Wf.clearFlag (hk : Wf lo out k σ zs) {x : T ⊕ U} (hx : ∀ t, x = .inl t → x ∉ zs) :
    Wf lo out (k.withTimers (k.timers.setActivated x false)) σ zs := by
  have hkeep : ∀ y, ((k.timers.setActivated x false).timer y).flag.periodic =
      (k.timers.timer y).flag.periodic ∧
      ((k.timers.setActivated x false).timer y).type = (k.timers.timer y).type ∧
      ((k.timers.setActivated x false).timer y).freed = (k.timers.timer y).freed := by
    intro y
    by_cases hyx : y = x
    · subst hyx
      simp
    · simp [hyx]
  refine hk.withTimers (hk.sorted.setActivated x false) ?_ ?_ ?_ hk.waiting
  · intro t hm
    have hne : Sum.inl t ≠ x := fun heq => hx t heq.symm (heq ▸ hm)
    simpa [hne] using hk.activated t hm
  · exact fun t => ⟨(hkeep _).1.trans (hk.embedded t).1, (hkeep _).2.2.trans (hk.embedded t).2⟩
  · intro t ht
    rw [(hkeep _).2.1]
    exact hk.closed t ht

variable [DecidableEq I] [Fintype T] [Fintype U]
  {timeoutFunc : U → State T U I → Exec (State T U I)}

@[simp] theorem host_timers : (host timeoutFunc).timers k = k.timers := rfl
@[simp] theorem host_withTimers (f : Timers (T ⊕ U) → Timers (T ⊕ U)) :
    (host timeoutFunc).withTimers f k = k.withTimers (f k.timers) := rfl

omit [DecidableEq T] [DecidableEq U] [DecidableEq I] [Fintype T] [Fintype U] in
/-- The timer at the front of the timer list, as `rt_timer_check` reads it. -/
theorem Wf.next_timer (hk : Wf lo out k σ zs) {x : T ⊕ U} (hx : x ∈ zs.head?) :
    k.timers.rtTimerList.next (.inl ()) = .inr x := by
  rw [Holds.next_head hk.sorted.linked, firstOr, Option.mem_def.mp hx]
  rfl

/-- What a turn of the loop of `rt_timer_check` does after the timeout function of a timer that
    is no thread's. -/
theorem Wf.fireEnd {u : U} (hk : Wf lo out k σ zs)
    (h : (((k.timers.timer (.inr u)).flag.periodic = true ∧
          (k.timers.timer (.inr u)).flag.activated = true ∧
          (host timeoutFunc).start (.inr u)
            (k.withTimers (k.timers.setActivated (.inr u) false)) = .ok k') ∨
        (¬ ((k.timers.timer (.inr u)).flag.periodic = true ∧
            (k.timers.timer (.inr u)).flag.activated = true) ∧
          k' = k.withTimers (k.timers.setActivated (.inr u) false)))) :
    ∃ zs', Wf lo out k' σ zs' ∧ SameRun k k' ∧ ∀ t, Untouched t k σ zs k' σ zs' := by
  have hcleared := hk.clearFlag (x := .inr u) (by simp)
  have huntouched : ∀ t, Untouched t k σ zs
      (k.withTimers (k.timers.setActivated (.inr u) false)) σ zs := fun t =>
    ⟨⟨_, rfl⟩, by simp, Iff.rfl, fun _ => Iff.rfl, rfl⟩
  cases h with
  | inl hrestart =>
    obtain ⟨-, -, hstart⟩ := hrestart
    obtain ⟨s, hexec, rfl⟩ := liftTimers_eq_ok.mp hstart
    have hstarted : (TimerOp.start (.inr u)).exec
        (k.timers.setActivated (.inr u) false) = .ok s := hexec
    obtain ⟨zs', hk', heff, htick⟩ := hcleared.userTimerOp (by simp [TimerOp.timer]) hstarted
    refine ⟨zs', hk', ⟨rfl, rfl⟩, fun t => (huntouched t).trans ?_⟩
    obtain ⟨htimer, hlinked⟩ := heff.other (.inl t) (by simp [TimerOp.timer])
    exact ⟨⟨_, rfl⟩, htimer, hlinked, fun _ => Iff.rfl, htick⟩
  | inr hstop =>
    obtain ⟨-, rfl⟩ := hstop
    exact ⟨zs, hcleared, ⟨rfl, rfl⟩, huntouched⟩

/-- A turn of the loop of `rt_timer_check` for the timer of a thread: the thread is resumed. -/
theorem Wf.fireThread (hk : Wf lo out k σ zs) (ht : t ∉ out)
    (h : (host timeoutFunc).fire (.inl t) k = .ok k') :
    (k.thread t).stat = .suspend ∧ ∃ σ' zs',
      σ' = pushBack (erase σ t) (.ready (k.thread t).currentPriority) t ∧
      Wf lo out k' σ' zs' ∧ Touches t k σ zs k' σ' zs' ∧ .inl t ∉ zs' ∧
      k'.thread = Function.update k.thread t
        { k.thread t with stat := .ready, error := .etimeout } ∧ ∀ u, RunsOn u k k' := by
  obtain ⟨zs', hremoved, hgone, hother⟩ := hk.removeTimer (.inl t)
  obtain ⟨k₁, hcall, hend⟩ := TimerHost.fire_cases h
  change (k.withTimers (k.timers.rtTimerRemove (.inl t))).rtThreadTimeout t = .ok k₁ at hcall
  obtain ⟨hstat, c, p, σ', rfl, hσ', hk₁, htouch⟩ := hremoved.rtThreadTimeout ht hgone hcall
  refine ⟨hstat, σ', zs', hσ', ?_⟩
  have hk' := hk₁.clearFlag (x := .inl t) (fun _ _ => hgone)
  cases hend with
  | inl hrestart => exact absurd hrestart.1 (by simpa using (hk₁.embedded t).1)
  | inr hstop =>
    obtain ⟨-, rfl⟩ := hstop
    refine ⟨hk', ⟨htouch.thread, htouch.lists, fun x hx => ⟨?_, hother x hx⟩, htouch.rtTick,
      htouch.lock⟩, hgone, ?_, fun u => ?_⟩
    · simp [hx]
    · funext u
      by_cases hut : u = t
      · subst hut
        simp
      · simp [hut]
    · have hruns := hk₁.runsOn_timeout (t := u) hcall
      exact ⟨hruns.picked, hruns.running⟩

section

omit [DecidableEq U] [Fintype T] [Fintype U]

theorem Wf.runsOn_tickBegin (hk' : Wf lo out k' σ zs) (h : k.rtTickBegin = .ok k') :
    RunsOn t k k' := by
  simp only [State.rtTickBegin, exec_bind_ok] at h
  obtain ⟨u, -, h⟩ := h
  split at h
  · obtain hsame | ⟨k₁, hsame, hschedule⟩ := rtThreadYield_schedules h
    · exact SameRun.runsOn ⟨hsame.1, hsame.2⟩
    · exact hk'.runsOn_schedule ⟨hsame.1, hsame.2⟩ hschedule
  · simp only [exec_pure_ok] at h
    exact h ▸ SameRun.runsOn ⟨rfl, rfl⟩

/-- The tick comes one closer for every timer, and the list of the running thread may be
    rotated. -/
theorem Wf.rtTickBegin (hk : Wf 0 out k σ zs) (hcur : k.rtCurrentThread = some t)
    (h : k.rtTickBegin = .ok k') :
    ∃ σ', Wf (-1) out k' σ' zs ∧ k'.timers = k.timers.advance ∧
      k'.rtSchedulerLockNest = k.rtSchedulerLockNest ∧
      (∀ u, ∃ remainingTick, k'.thread u =
        { k.thread u with remainingTick := remainingTick }) ∧
      (∀ u head, u ∈ σ' head ↔ u ∈ σ head) ∧ ∀ i, σ' (.suspend i) = σ (.suspend i) := by
  simp only [State.rtTickBegin, exec_bind_ok] at h
  obtain ⟨u, hself, h⟩ := h
  obtain rfl : u = t := Option.some.inj ((rtThreadSelf_eq hself).symm.trans hcur)
  have hadvanced : Wf (-1) out (k.withTimers k.timers.advance) σ zs :=
    { hk with low := ⟨le_refl _, by omega⟩, sorted := hk.sorted.advance }
  -- the time slice is a field the scheduler does not look at
  have hslice : ∀ {k₁ : State T U I} (f : Thread → Thread),
      (∀ th, ∃ n, f th = { th with remainingTick := n }) → Wf (-1) out k₁ σ zs →
      (∀ v, ∃ n, k₁.thread v = { k.thread v with remainingTick := n }) →
      Wf (-1) out (k₁.modifyThread u f) σ zs ∧
        ∀ v, ∃ n, (k₁.modifyThread u f).thread v = { k.thread v with remainingTick := n } := by
    intro k₁ f hf hk₁ hthread
    refine ⟨hk₁.modify fun th => ?_, fun v => ?_⟩
    · obtain ⟨n, hn⟩ := hf th
      rw [hn]
      exact ⟨rfl, rfl, rfl, rfl, rfl⟩
    · by_cases hv : v = u
      · subst hv
        obtain ⟨n, hn⟩ := hf (k₁.thread v)
        obtain ⟨m, hm⟩ := hthread v
        exact ⟨n, by rw [modifyThread_thread, Function.update_self, hn, hm]⟩
      · simpa [hv] using hthread v
  obtain ⟨hk₁, hthread₁⟩ := hslice (fun th => { th with remainingTick := th.remainingTick - 1 })
    (fun _ => ⟨_, rfl⟩) hadvanced (fun _ => ⟨_, rfl⟩)
  split at h
  · obtain ⟨hk₂, hthread₂⟩ := hslice (fun th => { th with remainingTick := th.initTick })
      (fun _ => ⟨_, rfl⟩) hk₁ hthread₁
    obtain rfl | ⟨hu, hstat, c, p, σ', rfl, hσ', hk', -⟩ := hk₂.rtThreadYield hcur h
    · exact ⟨σ, hk₂, rfl, rfl, hthread₂, fun _ _ => Iff.rfl, fun _ => rfl⟩
    · refine ⟨σ', hk', rfl, rfl, hthread₂, fun v head => ?_, fun i => ?_⟩
      · -- the running thread is back in the list it was in
        have hmem := (hk₂.ready u hu _).mpr ⟨hstat, rfl⟩
        rw [hσ', mem_pushBack, hk₂.holds.mem_erase]
        by_cases hv : v = u
        · subst hv
          simp only [and_true, ne_eq, not_true_eq_false, false_and, or_false]
          exact ⟨fun heq => heq ▸ hmem, fun hm => hk₂.holds.disjoint head _ v hm hmem⟩
        · simp [hv]
      · rw [hσ', pushBack_other (by simp), erase_of_notMem]
        intro hm
        have hwaits := hk₂.suspended i u hm
        rw [hstat] at hwaits
        cases hwaits
  · simp only [exec_pure_ok] at h
    subst h
    exact ⟨σ, hk₁, rfl, rfl, hthread₁, fun _ _ => Iff.rfl, fun _ => rfl⟩

end

/-! ## `rt_tick_from_millisecond` -/

theorem sdiv_of_lt {x y : BitVec 32} (hx : x.toNat < 2 ^ 31) (hy : y.toNat < 2 ^ 31) :
    (x.sdiv y).toNat = x.toNat / y.toNat := by
  have hxm : x.msb = false := by rw [BitVec.msb_eq_false_iff_two_mul_lt]; omega
  have hym : y.msb = false := by rw [BitVec.msb_eq_false_iff_two_mul_lt]; omega
  rw [BitVec.sdiv_eq, hxm, hym]
  exact BitVec.toNat_udiv

theorem srem_of_lt {x y : BitVec 32} (hx : x.toNat < 2 ^ 31) (hy : y.toNat < 2 ^ 31) :
    (x.srem y).toNat = x.toNat % y.toNat := by
  have hxm : x.msb = false := by rw [BitVec.msb_eq_false_iff_two_mul_lt]; omega
  have hym : y.msb = false := by rw [BitVec.msb_eq_false_iff_two_mul_lt]; omega
  rw [BitVec.srem_eq, hxm, hym]
  exact BitVec.toNat_umod

/-- At a thousand ticks a second, a number of milliseconds is that number of ticks. -/
theorem rtTickFromMillisecond_of_nonneg {ms : BitVec 32} (h : 0 ≤ ms.toInt) :
    rtTickFromMillisecond ms = ms := by
  have hlt : ms.toNat < 2 ^ 31 := by
    have := BitVec.toInt_eq_toNat_cond ms
    have := ms.isLt
    split at * <;> omega
  have hthousand : (1000 : BitVec 32).toNat = 1000 := rfl
  have hper : (BitVec.ofNat 32 rtTickPerSecond).toNat = 1000 := rfl
  have hdiv := sdiv_of_lt hlt (show (1000 : BitVec 32).toNat < 2 ^ 31 by decide)
  have hrem := srem_of_lt hlt (show (1000 : BitVec 32).toNat < 2 ^ 31 by decide)
  rw [hthousand] at hdiv hrem
  have hnum : (BitVec.ofNat 32 rtTickPerSecond * ms.srem 1000 + 999).toNat =
      1000 * (ms.toNat % 1000) + 999 := by
    rw [BitVec.toNat_add, BitVec.toNat_mul, hper, hrem]
    show (1000 * (ms.toNat % 1000) % 2 ^ 32 + 999) % 2 ^ 32 = _
    omega
  have hlast := sdiv_of_lt
    (show (BitVec.ofNat 32 rtTickPerSecond * ms.srem 1000 + 999).toNat < 2 ^ 31 by rw [hnum]; omega)
    (show (1000 : BitVec 32).toNat < 2 ^ 31 by decide)
  rw [hnum, hthousand] at hlast
  apply BitVec.eq_of_toNat_eq
  rw [rtTickFromMillisecond, if_neg (by omega)]
  rw [BitVec.toNat_add, BitVec.toNat_mul, hper, hdiv, hlast]
  omega
end State

end PandoraRobot.Kernel
