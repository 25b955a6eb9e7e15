import PandoraRobot.Kernel.ThreadRuns

/-! # Concurrent calls of `rt_thread_resume`

`rt_thread_resume` checks the state of the thread, takes it off its wait list in one
critical section, and puts it into its ready list in another.  Between any two of
these steps other calls about the same thread may make theirs, and the timer of the
thread may fire.

The state of the thread says `RT_THREAD_SUSPEND` until it is in its ready list, so a
second call in between passes the check as well.  Where no two calls overlap like
this, a suspension ends once.
-/

namespace PandoraRobot.Kernel

open PandoraRobot.RingList

/-- Where a call of `rt_thread_resume` stands. -/
inductive ResumePc where
  | outside
  | checked
  | unlinked
  deriving DecidableEq, Repr

/-- The kernel and the callers `C` that resume one thread. -/
structure Resumers (T U I C : Type) where
  kernel : State T U I
  pc : C → ResumePc
  /-- How many calls have returned `RT_EOK` since the thread was suspended last. -/
  resumed : Nat

namespace Resumers

variable {T U I C : Type} [DecidableEq T] [DecidableEq U] [DecidableEq I] [DecidableEq C]

def goto (c : C) (pc : ResumePc) (r : Resumers T U I C) : Resumers T U I C :=
  { r with pc := Function.update r.pc c pc }

/-- The next step of the call that `c` makes about `t`. -/
def next (t : T) (c : C) (r : Resumers T U I C) : Exec (Resumers T U I C) :=
  match r.pc c with
  | .outside => do
    rtAssert ((r.kernel.thread t).type ≠ .null)
    -- a thread that is not suspended: the call returns `-RT_ERROR`
    if (r.kernel.thread t).stat ≠ .suspend then pure r
    else pure (r.goto c .checked)
  | .checked => do
    let k ← r.kernel.rtThreadResumeUnlink t
    pure { r.goto c .unlinked with kernel := k }
  | .unlinked => do
    let k ← r.kernel.rtScheduleInsertThread t
    pure { r.goto c .outside with kernel := k, resumed := r.resumed + 1 }

/-- The kernel of a call that nothing comes between. -/
theorem rtThreadResume_steps {t : T} {c : C} {r : Resumers T U I C} (hpc : r.pc c = .outside)
    (hstat : (r.kernel.thread t).stat = .suspend) :
    (do
      let r ← r.next t c
      let r ← r.next t c
      let r ← r.next t c
      pure (r.kernel, Err.eok)) = r.kernel.rtThreadResume t := by
  simp only [next, hpc, State.rtThreadResume, hstat, ne_eq, not_true_eq_false, if_false, goto,
    bind_assoc, pure_bind, Function.update_self]

/-- What can happen next. -/
inductive Move (C : Type) where
  | next (c : C)
  | timeout
  | suspend

variable [Fintype T] [Fintype U] (cb : State.Callback T U I) (t : T)

inductive Step : Move C → Resumers T U I C → Resumers T U I C → Prop where
  | next {r r' : Resumers T U I C} (c : C) : r.next t c = .ok r' → Step (.next c) r r'
  /-- `rt_timer_check` finds the timer of the thread. -/
  | timeout {r : Resumers T U I C} {k : State T U I} :
      r.kernel.timers.rtTimerList.next (.inr (.inl t)) ≠ .inr (.inl t) →
      (State.host (State.timeoutFunc cb)).fire (.inl t) r.kernel = .ok k →
      Step .timeout r { r with kernel := k }
  /-- The thread has been resumed, the kernel runs on, and the thread is suspended again.  A
      thread that a call has taken off its list does not run. -/
  | suspend {r : Resumers T U I C} {k : State T U I} : (∀ c, r.pc c ≠ .unlinked) →
      (r.kernel.thread t).stat ≠ .suspend → State.Runs cb r.kernel k →
      (k.thread t).stat = .suspend → Step .suspend r { r with kernel := k, resumed := 0 }

/-- The thread has been suspended, and no call about it has begun. -/
structure Initial (r : Resumers T U I C) : Prop where
  reached : ∃ k₀, State.Initial k₀ ∧ State.Runs cb k₀ r.kernel
  suspended : (r.kernel.thread t).stat = .suspend
  outside : ∀ c, r.pc c = .outside
  resumed : r.resumed = 0

def Runs : Resumers T U I C → Resumers T U I C → Prop :=
  Relation.ReflTransGen fun r r' => ∃ move, Step cb t move r r'

/-- `c` is to pass the check while another call has yet to insert the thread. -/
def Overlaps (r : Resumers T U I C) (move : Move C) : Prop :=
  ∃ c d, move = .next c ∧ r.pc c = .outside ∧ (r.kernel.thread t).stat = .suspend ∧
    r.pc d ≠ .outside

/-- Runs in which no two calls overlap. -/
def SerialRuns : Resumers T U I C → Resumers T U I C → Prop :=
  Relation.ReflTransGen fun r r' => ∃ move, Step cb t move r r' ∧ ¬ Overlaps t r move

/-- The thread is ready and in the list of its priority, once, and all links are in order. -/
def Listed (k : State T U I) : Prop :=
  (k.thread t).stat = .ready ∧ ∃ σ : ListHead I → List T, Holds k.tlist σ ∧
    ∀ h, t ∈ σ h ↔ h = .ready (k.thread t).currentPriority

/-- At most one call has returned `RT_EOK`, and once all calls have returned, a thread that was
    resumed is in its ready list. -/
structure EndsOnce (r : Resumers T U I C) : Prop where
  once : r.resumed ≤ 1
  listed : (∀ c, r.pc c = .outside) → 0 < r.resumed ∨ (r.kernel.thread t).stat ≠ .suspend →
    Listed t r.kernel

/-! ## The invariant of serial calls -/

/-- No call is past its first critical section, and at most one has passed its check. -/
structure Quiet (r : Resumers T U I C) : Prop where
  kernel : State.Good 0 r.kernel
  stat : (r.kernel.thread t).stat = .suspend ∨ (r.kernel.thread t).stat = .ready
  pc : ∀ c, r.pc c ≠ .unlinked
  single : ∀ c d, r.pc c ≠ .outside → r.pc d ≠ .outside → c = d
  once : r.resumed ≤ 1
  unended : (r.kernel.thread t).stat = .suspend ∨ (∃ c, r.pc c ≠ .outside) → r.resumed = 0

/-- One call is past its first critical section: the thread is in no list.  Where its wait had
    timed out before, it was taken off its ready list. -/
structure Taken (r : Resumers T U I C) (c : C) : Prop where
  pc : r.pc c = .unlinked
  single : ∀ d, d ≠ c → r.pc d = .outside
  resumed : r.resumed = 0
  kernel : ∃ (k : State T U I) (σ : ListHead I → List T) (zs : List (T ⊕ U)),
    State.Wf 0 ∅ k σ zs ∧ .inl t ∉ zs ∧ r.kernel.timers = k.timers ∧
      (((k.thread t).stat = .suspend ∧ Fresh σ t ∧ r.kernel = k) ∨
        ((k.thread t).stat = .ready ∧ r.kernel = k.unlink t))

variable {cb : State.Callback T U I} {t : T} {r r' : Resumers T U I C} {c : C}

omit [DecidableEq U] [DecidableEq C] [Fintype T] [Fintype U] in
/-- The timer of a thread that a call has taken is stopped. -/
theorem Taken.unlinked (h : Taken t r c) :
    r.kernel.timers.rtTimerList.next (.inr (.inl t)) = .inr (.inl t) := by
  obtain ⟨k, σ, zs, hk, htimer, htimers, -⟩ := h.kernel
  rw [htimers]
  exact (hk.sorted.linked.alone (.inl t) fun _ => htimer).1

/-- The first critical section, when the thread still waits. -/
theorem Quiet.take_waiting (h : Quiet t r) (hpc : r.pc c = .checked)
    (hstat : (r.kernel.thread t).stat = .suspend) (hnext : r.next t c = .ok r') :
    Taken t r' c := by
  simp only [next, hpc, exec_bind_ok, exec_pure_ok] at hnext
  obtain ⟨k, hunlink, rfl⟩ := hnext
  obtain ⟨σ, zs, hk⟩ := h.kernel
  obtain ⟨s, zs', rfl, hgone, hk', -⟩ := hk.rtThreadResumeUnlink (by simp) hstat hunlink
  apply Taken.mk
  · simp [goto]
  · intro d hd
    by_contra hne
    exact hd (h.single d c (by simpa [goto, hd] using hne) (by simp [hpc]))
  · exact h.unended (.inl hstat)
  · exact ⟨_, _, zs', hk', hgone, rfl, .inl ⟨hstat, hk.holds.fresh_erase t, rfl⟩⟩

/-- The first critical section, when the wait has timed out since the check. -/
theorem Quiet.take_late (h : Quiet t r) (hpc : r.pc c = .checked)
    (hstat : (r.kernel.thread t).stat = .ready) (hnext : r.next t c = .ok r') :
    Taken t r' c := by
  simp only [next, hpc, exec_bind_ok, exec_pure_ok] at hnext
  obtain ⟨k, hunlink, rfl⟩ := hnext
  obtain ⟨σ, zs, hk⟩ := h.kernel
  obtain ⟨s, hexec, rfl⟩ := State.liftTimers_stop hunlink
  obtain ⟨zs', hk', -, hgone, -⟩ := hk.stopTimer hexec
  apply Taken.mk
  · simp [goto]
  · intro d hd
    by_contra hne
    exact hd (h.single d c (by simpa [goto, hd] using hne) (by simp [hpc]))
  · exact h.unended (.inr ⟨c, by simp [hpc]⟩)
  · exact ⟨_, σ, zs', hk', hgone, rfl, .inr ⟨hstat, rfl⟩⟩

omit [DecidableEq U] [Fintype T] [Fintype U] in
/-- A thread taken off its ready list is put at the back of it. -/
theorem insertedThread_unlink {k : State T U I} {σ : ListHead I → List T} {zs : List (T ⊕ U)}
    (hk : State.Wf 0 ∅ k σ zs) (hstat : (k.thread t).stat = .ready) :
    (k.unlink t).insertedThread t = k.rotated t := by
  have hsound := hk.sound t (by simp)
  have hmask := hsound.masked (.inl hstat)
  have hmem := (hk.ready t (by simp) (k.thread t).currentPriority).mpr ⟨hstat, rfl⟩
  have hbit := (hk.group _ hsound.currentPriority).mpr (List.ne_nil_of_mem hmem)
  -- the bit of the list was never cleared
  have hgroup : k.rtThreadReadyPriorityGroup ||| (k.thread t).numberMask =
      k.rtThreadReadyPriorityGroup := by
    apply BitVec.eq_of_getLsbD_eq
    intro p hp
    rw [BitVec.getLsbD_or, hmask, bit_getLsbD hp]
    by_cases heq : p = (k.thread t).currentPriority
    · rw [heq, hbit]
      rfl
    · simp [heq]
  have hthread : Function.update k.thread t { k.thread t with stat := .ready } = k.thread := by
    funext u
    by_cases hut : u = t
    · subst hut
      simp [← hstat]
    · simp [hut]
  simp only [State.insertedThread, State.rotated, State.setStat, State.modifyThread,
    State.unlink, hgroup, hthread]

section

omit [Fintype T] [Fintype U]

/-- The second critical section ends the suspension. -/
theorem Taken.insert (h : Taken t r c) (hnext : r.next t c = .ok r') : Quiet t r' := by
  simp only [next, h.pc, exec_bind_ok, exec_pure_ok] at hnext
  obtain ⟨k', hinsert, rfl⟩ := hnext
  obtain ⟨-, rfl⟩ := State.rtScheduleInsertThread_eq hinsert
  have houtside : ∀ d, (r.goto c .outside).pc d = .outside := by
    intro d
    by_cases hd : d = c
    · simp [goto, hd]
    · simp [goto, hd, h.single d hd]
  obtain ⟨k, σ, zs, hk, htimer, -, hcase⟩ := h.kernel
  have hgood : State.Good 0 (r.kernel.insertedThread t) := by
    cases hcase with
    | inl hwaits =>
      obtain ⟨hstat, hfresh, heq⟩ := hwaits
      rw [heq]
      exact ⟨_, zs, hk.insertWaiting (by simp) hstat hfresh htimer⟩
    | inr hlate =>
      obtain ⟨hstat, heq⟩ := hlate
      rw [heq, insertedThread_unlink hk hstat]
      exact ⟨_, zs, hk.rotated (by simp) hstat⟩
  apply Quiet.mk
  · exact hgood
  · simp
  · intro d
    rw [show _ = _ from houtside d]
    decide
  · intro d e hd
    exact absurd (houtside d) hd
  · simp [h.resumed]
  · intro hopen
    cases hopen with
    | inl hsuspend => simp at hsuspend
    | inr hpc => exact absurd (houtside _) hpc.choose_spec

/-! ## Every step keeps the invariant -/

/-- Either no call is in its window, or one is. -/
def Inv (t : T) (r : Resumers T U I C) : Prop := Quiet t r ∨ ∃ c, Taken t r c

theorem Quiet.check (h : Quiet t r) (hpc : r.pc c = .outside)
    (hserial : ¬ Overlaps t r (.next c)) (hnext : r.next t c = .ok r') : Quiet t r' := by
  simp only [next, hpc, exec_bind_ok] at hnext
  obtain ⟨_, -, hnext⟩ := hnext
  split at hnext
  · simp only [exec_pure_ok] at hnext
    exact hnext ▸ h
  case isFalse hstat =>
    simp only [exec_pure_ok] at hnext
    subst hnext
    have hsuspend := not_not.mp hstat
    have hothers : ∀ d, r.pc d = .outside := by
      intro d
      by_contra hd
      exact hserial ⟨c, d, rfl, hpc, hsuspend, hd⟩
    -- so `c` is the only call that is under way
    have honly : ∀ d, (r.goto c .checked).pc d ≠ .outside → d = c := by
      intro d hd
      by_contra hne
      exact hd (by simp [goto, hne, hothers d])
    apply Quiet.mk
    · exact h.kernel
    · exact .inl hsuspend
    · intro d
      by_cases hd : d = c
      · simp [goto, hd]
      · simp [goto, hd, hothers d]
    · intro d e hd he
      exact (honly d hd).trans (honly e he).symm
    · exact h.once
    · exact fun _ => h.unended (.inl hsuspend)

end

section

omit [DecidableEq C]

theorem Quiet.timeout (h : Quiet t r) {k : State T U I}
    (hfire : (State.host (State.timeoutFunc cb)).fire (.inl t) r.kernel = .ok k) :
    Quiet t { r with kernel := k } := by
  obtain ⟨σ, zs, hk⟩ := h.kernel
  obtain ⟨hstat, σ', zs', -, hk', -, -, hthread, -⟩ := hk.fireThread (by simp) hfire
  apply Quiet.mk
  · exact ⟨σ', zs', hk'⟩
  · simp [hthread]
  · exact h.pc
  · exact h.single
  · exact h.once
  · exact fun _ => h.unended (.inl hstat)

theorem Quiet.suspend (h : Quiet t r) {k : State T U I} (hruns : State.Runs cb r.kernel k)
    (hstat : (k.thread t).stat = .suspend) : Quiet t { r with kernel := k, resumed := 0 } := by
  apply Quiet.mk
  · exact h.kernel.runs hruns
  · exact .inl hstat
  · exact h.pc
  · exact h.single
  · exact Nat.zero_le 1
  · exact fun _ => rfl

end

theorem Inv.step (h : Inv t r) {move : Move C} (hstep : Step cb t move r r')
    (hserial : ¬ Overlaps t r move) : Inv t r' := by
  cases hstep with
  | next c hnext =>
    cases h with
    | inl hquiet =>
      cases hpc : r.pc c with
      | outside => exact .inl (hquiet.check hpc hserial hnext)
      | checked =>
        cases hquiet.stat with
        | inl hstat => exact .inr ⟨c, hquiet.take_waiting hpc hstat hnext⟩
        | inr hstat => exact .inr ⟨c, hquiet.take_late hpc hstat hnext⟩
      | unlinked => exact absurd hpc (hquiet.pc c)
    | inr htaken =>
      obtain ⟨d, htaken⟩ := htaken
      by_cases hcd : c = d
      · exact .inl (htaken.insert (hcd ▸ hnext))
      -- another call: it finds the thread ready, or it would overlap
      · have hpc := htaken.single c hcd
        simp only [Resumers.next, hpc, exec_bind_ok] at hnext
        obtain ⟨_, -, hnext⟩ := hnext
        split at hnext
        · simp only [exec_pure_ok] at hnext
          exact .inr ⟨d, hnext ▸ htaken⟩
        case isFalse hstat =>
          exact absurd ⟨c, d, rfl, hpc, not_not.mp hstat, by simp [htaken.pc]⟩ hserial
  | timeout hlinked hfire =>
    cases h with
    | inl hquiet => exact .inl (hquiet.timeout hfire)
    | inr htaken =>
      obtain ⟨c, htaken⟩ := htaken
      exact absurd htaken.unlinked hlinked
  | suspend hpc hstat hruns hsuspend =>
    cases h with
    | inl hquiet => exact .inl (hquiet.suspend hruns hsuspend)
    | inr htaken =>
      obtain ⟨c, htaken⟩ := htaken
      exact absurd htaken.pc (hpc c)

omit [DecidableEq C] in
theorem Initial.quiet (h : Initial cb t r) : Quiet t r := by
  obtain ⟨k₀, hboot, hruns⟩ := h.reached
  apply Quiet.mk
  · exact State.runs_good hboot hruns
  · exact .inl h.suspended
  · simp [h.outside]
  · simp [h.outside]
  · simp [h.resumed]
  · exact fun _ => h.resumed

theorem Inv.runs {r₀ : Resumers T U I C} (hi : Initial cb t r₀) (hr : SerialRuns cb t r₀ r) :
    Inv t r := by
  induction hr with
  | refl => exact .inl hi.quiet
  | tail _ hstep ih =>
    obtain ⟨move, hstep, hserial⟩ := hstep
    exact ih.step hstep hserial

/-! ## A suspension ends once -/

omit [DecidableEq T] [DecidableEq U] [DecidableEq I] [DecidableEq C] [Fintype T] [Fintype U] in
theorem Quiet.listed (h : Quiet t r) (hready : (r.kernel.thread t).stat = .ready) :
    Listed t r.kernel := by
  obtain ⟨σ, zs, hk⟩ := h.kernel
  have hmem := (hk.ready t (by simp) _).mpr ⟨hready, rfl⟩
  refine ⟨hready, σ, hk.holds, fun head => ⟨fun hm => ?_, fun heq => heq ▸ hmem⟩⟩
  exact hk.holds.disjoint head _ t hm hmem

omit [DecidableEq U] [DecidableEq C] [Fintype T] [Fintype U] in
theorem Inv.endsOnce (h : Inv t r) : EndsOnce t r := by
  cases h with
  | inl hquiet =>
    refine ⟨hquiet.once, fun _ hended => hquiet.listed ?_⟩
    cases hquiet.stat with
    | inl hsuspend =>
      -- a thread that is suspended has not been resumed
      have hnone := hquiet.unended (.inl hsuspend)
      cases hended with
      | inl hpos => omega
      | inr hstat => exact absurd hsuspend hstat
    | inr hready => exact hready
  | inr htaken =>
    obtain ⟨c, htaken⟩ := htaken
    refine ⟨by simp [htaken.resumed], fun hpc => ?_⟩
    have hin := htaken.pc
    rw [hpc c] at hin
    cases hin

/-- Where no two calls overlap, whatever else comes between their steps, at most one of them
    returns `RT_EOK` for each time the thread is suspended, and leaves it in its ready list. -/
theorem suspension_ends_once (cb : State.Callback T U I) (t : T) {r₀ r : Resumers T U I C}
    (hi : Initial cb t r₀) (hr : SerialRuns cb t r₀ r) : EndsOnce t r :=
  (Inv.runs hi hr).endsOnce

/-- The steps of a run, with `none` for the timeout of the thread. -/
def script (cb : State.Callback T U I) (t : T) (events : List (Option C))
    (r : Resumers T U I C) : Exec (Resumers T U I C) :=
  events.foldlM (fun r event =>
    match event with
    | some c => r.next t c
    | none => do
      rtAssert (r.kernel.timers.rtTimerList.next (.inr (.inl t)) ≠ .inr (.inl t))
      let k ← (State.host (State.timeoutFunc cb)).fire (.inl t) r.kernel
      pure { r with kernel := k }) r

theorem script_runs {events : List (Option C)} (h : r.script cb t events = .ok r') :
    Runs cb t r r' := by
  apply foldlM_runs (fun r event r' hstep => ?_) h
  cases event with
  | some c => exact ⟨.next c, .next c hstep⟩
  | none =>
    simp only [exec_bind_ok, rtAssert_eq_ok, exec_pure_ok] at hstep
    obtain ⟨_, hlinked, k, hfire, rfl⟩ := hstep
    exact ⟨.timeout, .timeout hlinked hfire⟩

/-- The calls of a single caller do not overlap. -/
theorem Runs.serial [Subsingleton C] (h : Runs cb t r r') : SerialRuns cb t r r' := by
  induction h with
  | refl => exact .refl
  | tail _ hstep ih =>
    obtain ⟨move, hstep⟩ := hstep
    refine ih.tail ⟨move, hstep, ?_⟩
    rintro ⟨c, d, -, hc, -, hd⟩
    exact hd (Subsingleton.elim c d ▸ hc)

/-- A thread of priority 10 sleeps for two ticks, while the idle thread runs. -/
def asleep : Exec (State (Fin 2) (Fin 0) (Fin 0)) := do
  let setUp : List (Option (KernelOp (Fin 2) (Fin 0) (Fin 0))) :=
    [some (.init 0 31 5), some (.startup 0), some (.init 1 10 5), some (.startup 1)]
  let k ← State.script (fun _ _ => []) setUp State.boot
  let k ← k.rtSystemSchedulerStart
  k.rtThreadSleep 2

omit [DecidableEq C] in
theorem asleep_initial {k : State (Fin 2) (Fin 0) (Fin 0)} (h : asleep = .ok k) :
    Initial (fun _ _ => []) 1 (⟨k, fun _ => .outside, 0⟩ : Resumers _ _ _ C) := by
  have hstat : asleep.map (fun k : State _ _ _ => (k.thread 1).stat) = .ok .suspend := by
    decide +kernel
  rw [h] at hstat
  simp only [asleep, exec_bind_ok] at h
  obtain ⟨k₁, hsetUp, k₂, hstart, hsleep⟩ := h
  have hcall : (KernelOp.sleep 2).exec k₂ = .ok k := hsleep
  apply Initial.mk
  · exact ⟨State.boot, State.boot_initial,
      ((State.script_runs hsetUp).tail (.start hstart)).tail (.call _ hcall)⟩
  · exact Except.ok.inj hstat
  · exact fun _ => rfl
  · rfl

/-- The thread times out between the check and the rest of a call.  The call resumes it all the
    same, and the next one finds it ready. -/
theorem suspension_ends_once_after_timeout :
    ∃ r₀ r : Resumers (Fin 2) (Fin 0) (Fin 0) (Fin 1), Initial (fun _ _ => []) 1 r₀ ∧
      SerialRuns (fun _ _ => []) 1 r₀ r ∧ r.resumed = 1 ∧ EndsOnce 1 r := by
  let run : Exec (Resumers (Fin 2) (Fin 0) (Fin 0) (Fin 1)) := do
    let k ← asleep
    script (fun _ _ => []) 1 [some 0, none, some 0, some 0, some 0] ⟨k, fun _ => .outside, 0⟩
  obtain ⟨r, hr, hresumed⟩ := exec_exists_ok (show
    run.map (fun r : Resumers _ _ _ _ => r.resumed) = .ok 1 by decide +kernel)
  simp only [run, exec_bind_ok] at hr
  obtain ⟨k, hasleep, hscript⟩ := hr
  have hinitial : Initial (fun _ _ => []) 1 (⟨k, fun _ => .outside, 0⟩ : Resumers _ _ _ (Fin 1)) :=
    asleep_initial hasleep
  have hruns := (script_runs hscript).serial
  exact ⟨_, r, hinitial, hruns, hresumed, suspension_ends_once _ 1 hinitial hruns⟩

/-- Two calls pass the check before either goes on.  Both return `RT_EOK`, and the second
    inserts the thread before itself: its links spell out no list. -/
theorem overlapping_calls_resume_twice :
    ∃ r₀ r : Resumers (Fin 2) (Fin 0) (Fin 0) (Fin 2), Initial (fun _ _ => []) 1 r₀ ∧
      Runs (fun _ _ => []) 1 r₀ r ∧ (∀ c, r.pc c = .outside) ∧ r.resumed = 2 ∧
      ¬ EndsOnce 1 r ∧ ¬ ∃ σ : ListHead (Fin 0) → List (Fin 2), Holds r.kernel.tlist σ := by
  let run : Exec (Resumers (Fin 2) (Fin 0) (Fin 0) (Fin 2)) := do
    let k ← asleep
    script (fun _ _ => []) 1 [some 0, some 1, some 0, some 1, some 0, some 1]
      ⟨k, fun _ => .outside, 0⟩
  obtain ⟨r, hr, hdata⟩ := exec_exists_ok (show
    run.map (fun r : Resumers _ _ _ _ => (r.pc 0, r.pc 1, r.resumed,
      decide (r.kernel.tlist.next (.inl (.ready 10)) = .inr 1 ∧
        r.kernel.tlist.prev (.inr 1) = .inr 1))) =
      .ok (.outside, .outside, 2, true) by decide +kernel)
  simp only [run, exec_bind_ok] at hr
  obtain ⟨k, hasleep, hscript⟩ := hr
  simp only [Prod.mk.injEq] at hdata
  obtain ⟨hpc₀, hpc₁, hresumed, hlinks⟩ := hdata
  obtain ⟨hnext, hprev⟩ := of_decide_eq_true hlinks
  refine ⟨_, r, asleep_initial hasleep, script_runs hscript, ?_, hresumed, ?_, ?_⟩
  · rw [Fin.forall_fin_two]
    exact ⟨hpc₀, hpc₁⟩
  · intro hends
    have := hends.once
    omega
  · rintro ⟨σ, hσ⟩
    obtain ⟨rest, hlist⟩ := hσ.next_head_eq_elem hnext
    have hfirst := (hσ.adjacent (.ready 10) [] (1 :: rest) hlist).2
    rw [firstOr_cons, hprev] at hfirst
    cases hfirst

end Resumers

end PandoraRobot.Kernel
