import PandoraRobot.Drivers.DelayedWork

/-! # Runs of delayed works

A call that is alone with its work comes nearer to its return at every step.  It is not alone when
the timer or another caller comes between its tests.

`_workqueue_cancel_delayed_work` of a work that is pending calls `rt_workqueue_cancel_work`, which
calls `_workqueue_cancel_delayed_work` again.
-/

namespace PandoraRobot.Drivers

open PandoraRobot.Kernel PandoraRobot.RingList PandoraRobot.SoloRun PandoraRobot.Trace

namespace DelayedWorks

variable {Q W T : Type} [DecidableEq Q] [DecidableEq W] [DecidableEq T] [Fintype W]
variable {s s' : DelayedWorks Q W T} {xs xs' : List W} {caller : T} {work : W}
  {place : DelayedPlace Q W} {queue : Q}

/-! ## A caller goes on -/

/-- How many steps it takes to return from a place, if it takes `resuming` to resume the worker. -/
def placeLeft (resuming : Nat) : DelayedPlace Q W → Nat
  | .outside => 0
  | .otherQueue _ => 12
  | .sameQueue _ => 11
  | .cancel _ _ .workqueue _ => 10
  | .cancel _ _ .pending _ => 9
  | .cancel _ _ .submitting _ => 8
  | .cancel _ _ .stop _ => 7
  | .cancel _ _ .detach _ => 6
  | .attach _ => 5
  | .submitWork _ | .initTimer _ => 4
  | .startTimer _ => 1
  | .resume => 1 + resuming

/-- How many steps it takes a caller to return. -/
def left (s : DelayedWorks Q W T) (caller : T) : Nat :=
  placeLeft (resumeLeft (s.queues.caller (some caller))) (s.place caller)

/-- The caller has come nearer to its return, or has returned as it should. -/
inductive Progress (s : DelayedWorks Q W T) (caller : T) (s' : DelayedWorks Q W T) :
    Option Int → Prop where
  | goes : s'.place caller ≠ .outside →
    (s'.place caller).cancelled = (s.place caller).cancelled → s'.left caller < s.left caller →
    Progress s caller s' none
  | returns {result : Int} :
    (∀ work, (s.place caller).cancelled = some work → result = rtEok → s'.Withdrawn work) →
    Progress s caller s' (some result)

/-- The caller goes on, and everything stays in order. -/
def GoesOn (s : DelayedWorks Q W T) (caller : T) : Prop :=
  ∃ s' output xs', s.goOn caller = .ok (s', output) ∧ s'.Inv xs' ∧ s.Progress caller s' output

omit [DecidableEq T] [Fintype W] in
theorem Inv.resting (h : s.Inv xs) (hplace : s.place caller ≠ .resume) :
    s.queues.caller (some caller) = .outside := by
  by_contra hcaller
  exact hplace (h.resume caller hcaller)

omit [DecidableEq Q] [DecidableEq W] [DecidableEq T] [Fintype W] in
/-- Nobody else is about the work of a call. -/
theorem Inv.others (h : s.Inv xs) (habout : (s.place caller).about = some work) {other : T}
    (hother : other ≠ caller) : (s.place other).about ≠ some work :=
  fun hw => hother (h.alone other caller work hw habout)

section

omit [DecidableEq Q] [DecidableEq W] [Fintype W]

/-- A caller changes its place.  What the others are about is not changed, and not taken over. -/
theorem Inv.change (h : s.Inv xs) (hplace : s'.place = s.place)
    (hothers : ∀ other, other ≠ caller → ∀ work, (s.place other).about = some work →
      Same s s' work ∧ place.about ≠ some work)
    (hworks : ∀ work, s'.WorkInv work) (hat : s'.At place) (hmatched : s'.queues.Matched)
    (hlinked : s'.timers.Linked xs') (hrunning : ∀ work ∈ xs', s'.submitting work = true)
    (hresume : s'.queues.caller (some caller) ≠ .outside → place = .resume)
    (hcallers : ∀ other, other ≠ some caller → s'.queues.caller other = s.queues.caller other)
    (hsync : ∀ work, s'.queues.caller (some caller) ≠ .cancelSync work) :
    (s'.goTo caller place).Inv xs' := by
  have hgo (work : W) : Same s' (s'.goTo caller place) work := ⟨rfl, rfl, rfl, id⟩
  have hmoved {other : T} (hother : other ≠ caller) :
      (s'.goTo caller place).place other = s.place other := by
    rw [← hplace]
    exact Function.update_of_ne hother _ _
  refine ⟨hmatched, hlinked, hrunning, fun work => (hworks work).same (hgo work), fun other => ?_,
    fun c c' work hc hc' => ?_, fun other hother => ?_, ?_, fun other work => ?_⟩
  · by_cases hother : other = caller
    · rw [hother, goTo_place]
      exact hat.same fun work _ => hgo work
    · rw [hmoved hother]
      exact ((h.places other).same fun work hwork => (hothers other hother work hwork).1).same
        fun work _ => hgo work
  -- the work the caller is now about is nobody else's
  · by_cases h₁ : c = caller
    · by_cases h₂ : c' = caller
      · rw [h₁, h₂]
      · rw [h₁, goTo_place] at hc
        rw [hmoved h₂] at hc'
        exact absurd hc (hothers c' h₂ work hc').2
    · rw [hmoved h₁] at hc
      by_cases h₂ : c' = caller
      · rw [h₂, goTo_place] at hc'
        exact absurd hc' (hothers c h₁ work hc).2
      · rw [hmoved h₂] at hc'
        exact h.alone c c' work hc hc'
  · by_cases heq : other = caller
    · rw [heq, goTo_place]
      exact hresume (heq ▸ hother)
    · rw [hmoved heq]
      rw [goTo_queues, hcallers _ (by simpa using heq)] at hother
      exact h.resume other hother
  · rw [goTo_queues, hcallers _ (by simp)]
    exact h.interrupt
  · rw [goTo_queues]
    by_cases heq : other = some caller
    · rw [heq]
      exact hsync work
    · rw [hcallers _ heq]
      exact h.sync other work

/-- A caller changes its place, and nothing else changes. -/
theorem Inv.goTo (h : s.Inv xs) (hrest : s.queues.caller (some caller) = .outside)
    (hothers : ∀ other, other ≠ caller → ∀ work, (s.place other).about = some work →
      place.about ≠ some work)
    (hat : s.At place) : (s.goTo caller place).Inv xs :=
  h.change rfl
    (fun other hother work hwork => ⟨⟨rfl, rfl, rfl, id⟩, hothers other hother work hwork⟩)
    h.works hat h.matched h.linked h.running (fun hne => absurd hrest hne) (fun _ _ => rfl)
    (h.sync (some caller))

theorem Inv.goOut (h : s.Inv xs) (hrest : s.queues.caller (some caller) = .outside) :
    (s.goTo caller .outside).Inv xs :=
  h.goTo hrest (fun _ _ _ _ => by simp [DelayedPlace.about]) trivial

end

omit [DecidableEq Q] [DecidableEq W] [DecidableEq T] [Fintype W] in
/-- Nothing but the queues changes, and no work becomes pending. -/
theorem Inv.queues {q : Workqueues Q W (Option T)} (h : s.Inv xs) (hmatched : q.Matched)
    (hpending : ∀ work, q.pending work = true → s.queues.pending work = true)
    (hresume : ∀ other, q.caller (some other) ≠ .outside → s.place other = .resume)
    (hinterrupt : q.caller none = .outside) (hsync : ∀ c work, q.caller c ≠ .cancelSync work) :
    ({ s with queues := q } : DelayedWorks Q W T).Inv xs := by
  have hsame (work : W) : Same s { s with queues := q } work := ⟨rfl, rfl, rfl, hpending work⟩
  exact ⟨hmatched, h.linked, h.running, fun work => (h.works work).same (hsame work),
    fun other => (h.places other).same fun work _ => hsame work, h.alone, hresume, hinterrupt,
    hsync⟩

variable {old : DelayedPlace Q W}

variable (place) in
/-- A test sends the caller to a place. -/
theorem Inv.goes (h : s.Inv xs) (hplace : s.place caller = old)
    (hgo : s.goOn caller = .ok (s.goTo caller place, none)) (hold : old ≠ .resume)
    (hwork : old.about = some work) (habout : place.about = some work) (hat : s.At place)
    (hcancelled : place.cancelled = old.cancelled)
    (hleft : ∀ resuming, placeLeft resuming place < placeLeft resuming old) : s.GoesOn caller := by
  subst hplace
  refine ⟨_, _, xs, hgo, h.goTo (h.resting hold) (fun other hother work' hwork' hsame => ?_) hat,
    .goes ?_ ?_ ?_⟩
  · exact h.others (hwork.trans (habout.symm.trans hsame)) hother hwork'
  · rw [goTo_place]
    rintro rfl
    simp [DelayedPlace.about] at habout
  · rw [goTo_place, hcancelled]
  · rw [left, left, goTo_place]
    exact hleft _

/-- The caller returns with an error. -/
theorem Inv.leaves (h : s.Inv xs) {result : Int} (hplace : s.place caller = old)
    (hgo : s.goOn caller = .ok (s.leave caller result)) (hold : old ≠ .resume)
    (hresult : result ≠ rtEok) : s.GoesOn caller := by
  subst hplace
  exact ⟨_, _, xs, hgo, h.goOut (h.resting hold), .returns fun _ _ hok => absurd hok hresult⟩

omit [Fintype W] in
/-- The fields and the timer of the work change, and the caller changes its place. -/
theorem Inv.changeWork (h : s.Inv xs) (hold : s.place caller = old) (hqueues : s'.queues = s.queues)
    (hplace : s'.place = s.place) (hwork : old.about = some work)
    (habout : ∀ work', place.about = some work' → work' = work)
    (hsame : ∀ other, other ≠ work → s'.workqueue other = s.workqueue other ∧
      s'.submitting other = s.submitting other ∧ s'.timers.timer other = s.timers.timer other)
    (hinv : s'.WorkInv work) (hat : s'.At place) (hlinked : s'.timers.Linked xs')
    (hrunning : ∀ work ∈ xs', s'.submitting work = true) : (s'.goTo caller place).Inv xs' := by
  subst hold
  have hrest : s.queues.caller (some caller) = .outside := by
    refine h.resting fun hresume => ?_
    simp [hresume, DelayedPlace.about] at hwork
  have hkept (other : W) (hother : other ≠ work) : Same s s' other := by
    obtain ⟨hqueue, hsubmitting, htimer⟩ := hsame other hother
    exact ⟨hqueue, hsubmitting, htimer, by rw [hqueues]; exact id⟩
  refine h.change hplace (fun other hother work' hwork' => ?_) (fun other => ?_) hat
    (hqueues ▸ h.matched) hlinked hrunning ?_ ?_ ?_
  · have hne : work' ≠ work := fun heq => h.others hwork hother (heq ▸ hwork')
    exact ⟨hkept work' hne, fun hsame => hne (habout work' hsame)⟩
  · by_cases hother : other = work
    · exact hother ▸ hinv
    · exact (h.works other).same (hkept other hother)
  · rw [hqueues]
    exact fun hne => absurd hrest hne
  · exact fun _ _ => by rw [hqueues]
  · rw [hqueues]
    exact h.sync (some caller)

omit [DecidableEq T] [Fintype W] in
/-- The work is not pending and its timer does not run. -/
theorem Inv.withdrawn (h : s.Inv xs) (hpending : s.queues.pending work = false)
    (hclear : s.submitting work = false) : s.Withdrawn work := by
  constructor
  · obtain ⟨σ, hσ, hflag⟩ := h.matched
    by_contra hne
    have hset := (hflag work).mpr (hσ.linked_iff.mpr hne)
    simp [hpending] at hset
  · refine (RingList.Holds.alone h.linked work fun _ hmem => ?_).1
    have hset := h.running work hmem
    simp [hclear] at hset

omit [DecidableEq Q] [DecidableEq W] [DecidableEq T] [Fintype W] in
theorem Inv.not_mem (h : s.Inv xs) (hclear : s.submitting work = false) : work ∉ xs := by
  intro hmem
  have hset := h.running work hmem
  simp [hclear] at hset

section Places

variable {call : Submission Q W}

theorem Inv.goOn_otherQueue (h : s.Inv xs) (hplace : s.place caller = .otherQueue call) :
    s.GoesOn caller := by
  have hat := hplace ▸ h.places caller
  by_cases hother : s.workqueue call.work ≠ none ∧ s.workqueue call.work ≠ some call.queue
  · refine h.leaves hplace ?_ (by simp) (by decide : -rtEinval ≠ rtEok)
    simp [goOn, hplace, hother, pure, Except.pure]
  · have hqueue : s.workqueue call.work = none ∨ s.workqueue call.work = some call.queue := by
      tauto
    refine h.goes (.sameQueue call) hplace ?_ (by simp) rfl rfl ⟨hqueue, hat hqueue⟩ rfl
      (fun _ => by simp [placeLeft])
    simp only [goOn, hplace, if_neg hother]
    rfl

theorem Inv.goOn_sameQueue (h : s.Inv xs) (hplace : s.place caller = .sameQueue call) :
    s.GoesOn caller := by
  obtain ⟨hqueue, hticks, hpending⟩ := hplace ▸ h.places caller
  by_cases hsame : s.workqueue call.work = some call.queue
  · refine h.goes (.cancel call.work (some call) .workqueue 0) hplace ?_ (by simp) rfl rfl
      ⟨rfl, hpending, ?_, by simp, by simp⟩ rfl (fun _ => by simp [placeLeft])
    · simp only [goOn, hplace, if_pos hsame]
      rfl
    · rintro _ ⟨⟩
      exact ⟨rfl, hticks⟩
  · have hnone : s.workqueue call.work = none := hqueue.resolve_right hsame
    have hclear : s.submitting call.work = false := by
      by_contra hset
      exact (h.works call.work).attached (.inr (by simpa using hset)) hnone
    refine h.goes (.attach call) hplace ?_ (by simp) rfl rfl ⟨hticks, hpending, hclear⟩ rfl
      (fun _ => by simp [placeLeft])
    simp only [goOn, hplace, if_neg hsame]
    rfl

/-- The region of `_workqueue_cancel_delayed_work` that stops the timer. -/
theorem Inv.goOn_stop {call : Option (Submission Q W)} (h : s.Inv xs)
    (hplace : s.place caller = .cancel work call .stop 0) : s.GoesOn caller := by
  obtain ⟨-, hpending, hcall, hstop, -⟩ := hplace ▸ h.places caller
  have hset := hstop rfl
  have htype : (s.timers.timer work).type = .static := by rw [(h.works work).type, if_pos hset]
  obtain ⟨timers, hgo, hlinked, hkept⟩ := stopTimer_stops s h.linked htype
  have hinv : (DelayedWorks.goTo
      { s with timers, submitting := Function.update s.submitting work false } caller
        (.cancel work call .detach 0)).Inv (xs.erase work) := by
    refine h.changeWork hplace rfl rfl rfl (fun _ hwork => (Option.some.inj hwork).symm)
      (fun other hother =>
        ⟨rfl, Function.update_of_ne hother _ _, hkept.others other hother⟩) ?_
      ⟨rfl, hpending, hcall, by simp, by simp⟩ hlinked fun other hother => ?_
    · exact ⟨by simp [hkept.type], hkept.freed.trans (h.works work).freed,
        hkept.oneshot.trans (h.works work).oneshot, by simp [hpending], by simp⟩
    · obtain ⟨hne, hmem⟩ := h.linked.nodup.mem_erase_iff.mp hother
      simpa [Function.update_of_ne hne] using h.running other hmem
  refine ⟨_, none, _, ?_, hinv, .goes (by simp) ?_ ?_⟩
  · simp [goOn, hplace, workqueueCancelDelayedWork, hgo, pure, Except.pure, bind, Except.bind]
  · rw [goTo_place, hplace]
    exact DelayedPlace.cancelled_cancel
  · simp [left, hplace, placeLeft]

/-- The region that detaches the work from its queue. -/
theorem Inv.goOn_detach {call : Option (Submission Q W)} (h : s.Inv xs)
    (hplace : s.place caller = .cancel work call .detach 0) : s.GoesOn caller := by
  obtain ⟨-, hpending, hcall, -, hdetach⟩ := hplace ▸ h.places caller
  have hclear := hdetach rfl
  have hsame : Function.update s.queues.pending work false = s.queues.pending :=
    Function.update_eq_self_iff.mpr hpending.symm
  -- the flag of the work was clear already
  have hinv (next : DelayedPlace Q W) (hnext : ∀ work', next.about = some work' → work' = work)
      (hat : DelayedWorks.At
        { s with workqueue := Function.update s.workqueue work none } next) :
      (DelayedWorks.goTo { s with workqueue := Function.update s.workqueue work none } caller
        next).Inv xs :=
    h.changeWork hplace rfl rfl rfl hnext
      (fun other hother => ⟨Function.update_of_ne hother _ _, rfl, rfl⟩)
      ⟨(h.works work).type, (h.works work).freed, (h.works work).oneshot,
        by simp [hpending, hclear], by simp [hpending]⟩ hat h.linked h.running
  cases call with
  | none =>
    refine ⟨_, some rtEok, xs, ?_, hinv .outside (by simp [DelayedPlace.about]) trivial,
      .returns fun work' hwork' _ => ?_⟩
    · simp [goOn, hplace, workqueueCancelDelayedWork, leave, hsame, pure, Except.pure]
    · rw [hplace, DelayedPlace.cancelled, Option.some.injEq] at hwork'
      exact hwork' ▸ h.withdrawn hpending hclear
  | some submission =>
    obtain ⟨rfl, hticks⟩ := hcall submission rfl
    refine ⟨_, none, xs, ?_, hinv (.attach submission) (by simp [DelayedPlace.about, eq_comm])
      ⟨hticks, hpending, hclear⟩, .goes (by simp) ?_ ?_⟩
    · simp [goOn, hplace, workqueueCancelDelayedWork, hsame, pure, Except.pure]
    · simp [hplace, DelayedPlace.cancelled]
    · simp [left, hplace, placeLeft]

/-- The tests of `_workqueue_cancel_delayed_work`. -/
theorem Inv.goOn_cancel {call : Option (Submission Q W)} {stage : CancelPlace} {depth : Nat}
    (h : s.Inv xs) (hplace : s.place caller = .cancel work call stage depth) : s.GoesOn caller := by
  obtain ⟨rfl, hpending, hcall, -, -⟩ := hplace ▸ h.places caller
  cases stage with
  | workqueue =>
    by_cases hnone : s.workqueue work = none
    · refine h.leaves hplace ?_ (by simp) (by decide : -einval ≠ rtEok)
      simp [goOn, hplace, workqueueCancelDelayedWork, hnone, pure, Except.pure]
    · refine h.goes (.cancel work call .pending 0) hplace ?_ (by simp) rfl rfl
        ⟨rfl, hpending, hcall, by simp, by simp⟩ ?_ (fun _ => by simp [placeLeft])
      · simp [goOn, hplace, workqueueCancelDelayedWork, hnone, pure, Except.pure]
      · exact DelayedPlace.cancelled_cancel
  | pending =>
    refine h.goes (.cancel work call .submitting 0) hplace ?_ (by simp) rfl rfl
      ⟨rfl, hpending, hcall, by simp, by simp⟩ ?_ (fun _ => by simp [placeLeft])
    · simp [goOn, hplace, workqueueCancelDelayedWork, hpending, pure, Except.pure]
    · exact DelayedPlace.cancelled_cancel
  | submitting =>
    by_cases hset : s.submitting work = true
    · refine h.goes (.cancel work call .stop 0) hplace ?_ (by simp) rfl rfl
        ⟨rfl, hpending, hcall, by simp [hset], by simp⟩ ?_ (fun _ => by simp [placeLeft])
      · simp [goOn, hplace, workqueueCancelDelayedWork, hset, pure, Except.pure]
      · exact DelayedPlace.cancelled_cancel
    · refine h.goes (.cancel work call .detach 0) hplace ?_ (by simp) rfl rfl
        ⟨rfl, hpending, hcall, by simp, by simpa using hset⟩ ?_ (fun _ => by simp [placeLeft])
      · simp [goOn, hplace, workqueueCancelDelayedWork, hset, pure, Except.pure]
      · exact DelayedPlace.cancelled_cancel
  | stop => exact h.goOn_stop hplace
  | detach => exact h.goOn_detach hplace

theorem Inv.goOn_attach (h : s.Inv xs) (hplace : s.place caller = .attach call) :
    s.GoesOn caller := by
  obtain ⟨hticks, hpending, hclear⟩ := hplace ▸ h.places caller
  have hqueue : Function.update s.workqueue call.work (some call.queue) call.work ≠ none := by simp
  have hinv (next : DelayedPlace Q W) (hnext : next.about = some call.work)
      (hat : DelayedWorks.At { s with
        workqueue := Function.update s.workqueue call.work (some call.queue) } next) :
      (DelayedWorks.goTo { s with
        workqueue := Function.update s.workqueue call.work (some call.queue) } caller
          next).Inv xs :=
    h.changeWork hplace rfl rfl rfl (fun work' hwork => by simpa [hnext, eq_comm] using hwork)
      (fun other hother => ⟨Function.update_of_ne hother _ _, rfl, rfl⟩)
      ⟨(h.works call.work).type, (h.works call.work).freed, (h.works call.work).oneshot,
        fun _ => hqueue, (h.works call.work).exclusive⟩ hat h.linked h.running
  by_cases hzero : call.ticks = 0
  · refine ⟨_, none, xs, ?_, hinv (.submitWork call) rfl ⟨hqueue, hpending, hclear⟩,
      .goes (by simp) ?_ ?_⟩
    · simp [goOn, hplace, hzero, pure, Except.pure]
    · simp [hplace, DelayedPlace.cancelled]
    · simp [left, hplace, placeLeft]
  · refine ⟨_, none, xs, ?_, hinv (.initTimer call) rfl ⟨hticks, hqueue, hpending, hclear⟩,
      .goes (by simp) ?_ ?_⟩
    · simp only [goOn, hplace, if_neg hzero]
      rfl
    · simp [hplace, DelayedPlace.cancelled]
    · simp [left, hplace, placeLeft]

omit [DecidableEq Q] [DecidableEq W] [Fintype W] in
theorem resumeLeft_le (callerPlace : CallerPlace Q W) : resumeLeft callerPlace ≤ 2 := by
  cases callerPlace <;> simp [resumeLeft]

theorem Inv.goOn_submitWork (h : s.Inv xs) (hplace : s.place caller = .submitWork call) :
    s.GoesOn caller := by
  obtain ⟨hattached, hpending, hclear⟩ := hplace ▸ h.places caller
  obtain ⟨queue, hqueue⟩ := Option.ne_none_iff_exists'.mp hattached
  have hrest : s.queues.caller (some caller) = .outside := h.resting (by simp [hplace])
  have hcallers (other : Option T) :
      (s.queues.workqueueSubmitWork (some caller) queue call.work).1.caller other =
          s.queues.caller other ∨
        other = some caller ∧
          (s.queues.workqueueSubmitWork (some caller) queue call.work).1.caller other =
            .resume queue :=
    submitWork_caller other
  have hkept (other : W) (hother : other ≠ call.work) : Same s { s with
      queues := (s.queues.workqueueSubmitWork (some caller) queue call.work).1 } other :=
    ⟨rfl, rfl, rfl, fun hset => by rwa [submitWork_pending hother] at hset⟩
  have hinv : (DelayedWorks.goTo { s with
      queues := (s.queues.workqueueSubmitWork (some caller) queue call.work).1 } caller
        .resume).Inv xs := by
    refine h.change rfl
      (fun other hother work hwork => ⟨hkept work ?_, by simp [DelayedPlace.about]⟩)
      (fun other => ?_) trivial (submitWork_matched h.matched hrest) h.linked h.running
      (fun _ => rfl) (fun other hother => ?_) fun work => ?_
    · rintro rfl
      exact h.others (by rw [hplace]; rfl) hother hwork
    · by_cases hother : other = call.work
      · subst hother
        exact ⟨(h.works call.work).type, (h.works call.work).freed, (h.works call.work).oneshot,
          fun _ => hattached, fun _ => hclear⟩
      · exact (h.works other).same (hkept other hother)
    · exact (hcallers other).resolve_right fun hsame => hother hsame.1
    · obtain hsame | ⟨-, hresume⟩ := hcallers (some caller)
      · rw [hsame]
        exact h.sync (some caller) work
      · simp [hresume]
  refine ⟨_, none, xs, ?_, hinv, .goes (by simp) (by simp [hplace, DelayedPlace.cancelled]) ?_⟩
  · simp [goOn, hplace, workqueueSubmitWork, hqueue, pure, Except.pure, bind, Except.bind]
  · have hle := resumeLeft_le
      ((s.queues.workqueueSubmitWork (some caller) queue call.work).1.caller (some caller))
    simp only [left, goTo_place, goTo_queues, hplace, placeLeft]
    omega

theorem Inv.goOn_initTimer (h : s.Inv xs) (hplace : s.place caller = .initTimer call) :
    s.GoesOn caller := by
  obtain ⟨hticks, hattached, hpending, hclear⟩ := hplace ▸ h.places caller
  have htype : (s.timers.timer call.work).type = .null := by
    rw [(h.works call.work).type, hclear]
    rfl
  obtain ⟨timers, hinit, hlinked, hothers, htimer⟩ := init_registers call.ticks h.linked
    (h.not_mem hclear) htype (h.works call.work).freed
  have hinv : (DelayedWorks.goTo { s with
      timers, submitting := Function.update s.submitting call.work true } caller
        (.startTimer call)).Inv xs := by
    refine h.changeWork hplace rfl rfl rfl (fun _ hwork => (Option.some.inj hwork).symm)
      (fun other hother => ⟨rfl, Function.update_of_ne hother _ _, hothers other hother⟩)
      ⟨by simp [htimer], by simp [htimer], by simp [htimer], fun _ => hattached,
        by simp [hpending]⟩ ⟨by simp, by simpa [htimer] using hticks⟩ hlinked fun other hother => ?_
    have hne : other ≠ call.work := fun heq => h.not_mem hclear (heq ▸ hother)
    simpa [Function.update_of_ne hne] using h.running other hother
  refine ⟨_, none, xs, ?_, hinv, .goes (by simp) (by simp [hplace, DelayedPlace.cancelled]) ?_⟩
  · simp [goOn, hplace, hinit, pure, Except.pure, bind, Except.bind]
  · simp [left, hplace, placeLeft]

theorem Inv.goOn_startTimer (h : s.Inv xs) (hplace : s.place caller = .startTimer call) :
    s.GoesOn caller := by
  obtain ⟨hset, hticks⟩ := hplace ▸ h.places caller
  have htype : (s.timers.timer call.work).type = .static := by
    rw [(h.works call.work).type, if_pos hset]
  obtain ⟨timers, hstart, hstarted⟩ := Timers.rtTimerStart_returns h.linked (by simp [htype]) hticks
  obtain ⟨before, behind, hsplit, hlinked, -, -⟩ := hstarted.list
  have hself : timers.timer call.work = s.timers.startedTimer call.work := by
    rw [hstarted.timer, Function.update_self]
  have hinv : (DelayedWorks.goTo { s with timers } caller .outside).Inv
      (before ++ call.work :: behind) := by
    refine h.changeWork hplace rfl rfl rfl (fun _ hwork => by simp [DelayedPlace.about] at hwork)
      (fun other hother => ⟨rfl, rfl, ?_⟩) ⟨?_, ?_, ?_, (h.works call.work).attached,
        (h.works call.work).exclusive⟩ trivial hlinked fun other hother => ?_
    · rw [hstarted.timer, Function.update_of_ne hother]
    · rw [hself]
      exact (h.works call.work).type
    · rw [hself]
      exact (h.works call.work).freed
    · rw [hself]
      exact (h.works call.work).oneshot
    · by_cases hne : other = call.work
      · exact hne ▸ hset
      · have hmem : other ∈ xs.erase call.work := by
          rw [hsplit]
          simpa [hne] using hother
        exact h.running other (List.mem_of_mem_erase hmem)
  refine ⟨_, some rtEok, _, ?_, hinv, .returns fun work hwork => ?_⟩
  · simp [goOn, hplace, hstart, leave, pure, Except.pure, bind, Except.bind]
  · simp [hplace, DelayedPlace.cancelled] at hwork

theorem Inv.goOn_resume (h : s.Inv xs) (hplace : s.place caller = .resume) :
    s.GoesOn caller := by
  have hcancelled : (s.place caller).cancelled = none := by rw [hplace]; rfl
  by_cases hrest : s.queues.caller (some caller) = .outside
  · refine ⟨_, some rtEok, xs, ?_, h.goOut hrest, .returns fun work hwork => ?_⟩
    · simp [goOn, hplace, hrest, leave, pure, Except.pure]
    · simp [hcancelled] at hwork
  · have hsync := h.sync (some caller)
    have hmoved := goOn_caller (q := s.queues) (c := some caller)
    refine ⟨_, none, xs, ?_, h.queues (goOn_matched h.matched hsync) (fun work hset => ?_)
      (fun other hother => ?_) ?_ fun other work => ?_, .goes (by simp [hplace]) rfl ?_⟩
    · simp only [goOn, hplace, if_neg hrest]
      rfl
    · rwa [goOn_pending hsync] at hset
    · by_cases hsame : other = caller
      · exact hsame ▸ hplace
      · rw [goOn_caller_of_ne (by simpa using hsame)] at hother
        exact h.resume other hother
    · rw [goOn_caller_of_ne (by simp)]
      exact h.interrupt
    · by_cases hsame : other = some caller
      · obtain hout | ⟨⟨queue, hresuming⟩, -⟩ := hmoved
        · simp [hsame, hout]
        · simp [hsame, hresuming]
      · rw [goOn_caller_of_ne hsame]
        exact h.sync other work
    · simp only [left, hplace, placeLeft]
      obtain hout | ⟨⟨queue, hresuming⟩, htwo⟩ := hmoved
      · rw [hout]
        cases hq : s.queues.caller (some caller) with
        | outside => exact absurd hq hrest
        | resume queue => simp [resumeLeft]
        | resuming queue => simp [resumeLeft]
        | cancelSync work => exact absurd hq (hsync work)
      · rw [hresuming, htwo]
        simp [resumeLeft]

end Places

/-- Whoever is in a call goes on. -/
theorem Inv.goesOn (h : s.Inv xs) (hin : s.place caller ≠ .outside) : s.GoesOn caller := by
  cases hplace : s.place caller with
  | outside => exact absurd hplace hin
  | otherQueue call => exact h.goOn_otherQueue hplace
  | sameQueue call => exact h.goOn_sameQueue hplace
  | cancel work call stage depth => exact h.goOn_cancel hplace
  | attach call => exact h.goOn_attach hplace
  | submitWork call => exact h.goOn_submitWork hplace
  | initTimer call => exact h.goOn_initTimer hplace
  | startTimer call => exact h.goOn_startTimer hplace
  | resume => exact h.goOn_resume hplace

/-- Whoever is in a call, going on alone, returns as it should. -/
theorem Inv.returning (h : s.Inv xs) (hin : s.place caller ≠ .outside) : s.Returning caller := by
  let I (now : DelayedWorks Q W T) : Prop := (∃ ys, now.Inv ys) ∧ now.place caller ≠ .outside ∧
    (now.place caller).cancelled = (s.place caller).cancelled
  refine returns_of_measure (I := I) (fun now => now.left caller) ?_ ⟨⟨xs, h⟩, hin, rfl⟩
  rintro now ⟨⟨ys, hnow⟩, hnowIn, hcancelled⟩
  obtain ⟨next, output, zs, hgo, hnext, hprogress⟩ := hnow.goesOn hnowIn
  cases hprogress with
  | goes hnextIn hsame hless =>
    exact .inr ⟨next, hgo, ⟨⟨zs, hnext⟩, hnextIn, hsame.trans hcancelled⟩, hless⟩
  | returns hright => exact .inl ⟨next, _, hgo, hcancelled ▸ hright⟩

/-! ## The timer interrupt -/

/-- `_delayed_work_timeout_handler` of a work that no caller is about. -/
theorem Inv.timeout (h : s.Inv xs) (hset : s.submitting work = true) (hfree : s.Free work) :
    ∃ s', s.delayedWorkTimeoutHandler work = .ok s' ∧ s'.Inv (xs.erase work) ∧
      s'.place = s.place ∧ Unregistered s.timers work s'.timers := by
  have htype : (s.timers.timer work).type = .static := by rw [(h.works work).type, if_pos hset]
  obtain ⟨queue, hqueue⟩ := Option.ne_none_iff_exists'.mp ((h.works work).attached (.inr hset))
  -- the handler stops the timer and submits the work, all in the interrupt
  obtain ⟨timers, hstop, hlinked, hkept⟩ := stopTimer_stops s h.linked htype
  obtain ⟨q, hq⟩ : ∃ q, q = (((s.queues.workqueueSubmitWork none queue work).1.goOn none).1.goOn
    none).1 := ⟨_, rfl⟩
  obtain ⟨hmatched, hcallers, hpending⟩ := interrupt_submits h.matched h.interrupt hq
  obtain ⟨s', hs'⟩ : ∃ s' : DelayedWorks Q W T, s' = { s with
    queues := q, timers, submitting := Function.update s.submitting work false } := ⟨_, rfl⟩
  -- for the other works nothing changes
  have hsame (other : W) (hother : other ≠ work) : Same s s' other := by
    subst hs'
    exact ⟨rfl, Function.update_of_ne hother _ _, hkept.others other hother, fun hset => by
      rwa [← hpending other hother]⟩
  refine ⟨s', ?_, ?_, by rw [hs'], by rw [hs']; exact hkept⟩
  · simp [delayedWorkTimeoutHandler, hstop, workqueueSubmitWork, hqueue, hs', hq, pure, Except.pure,
      bind, Except.bind]
  · refine ⟨?_, ?_, fun other hother => ?_, fun other => ?_, fun caller => ?_, ?_, ?_, ?_, ?_⟩
    · rwa [hs']
    · rwa [hs']
    · obtain ⟨hne, hmem⟩ := h.linked.nodup.mem_erase_iff.mp hother
      rw [(hsame other hne).submitting]
      exact h.running other hmem
    · by_cases hother : other = work
      · subst hother hs'
        exact ⟨by simp [hkept.type], hkept.freed.trans (h.works other).freed,
          hkept.oneshot.trans (h.works other).oneshot, fun _ => by simp [hqueue], by simp⟩
      · exact (h.works other).same (hsame other hother)
    · have hat : s'.At (s.place caller) := (h.places caller).same fun work' hwork' =>
        hsame work' fun heq => hfree caller (heq ▸ hwork')
      rwa [hs'] at hat ⊢
    · rw [hs']
      exact h.alone
    · rw [hs']
      show ∀ caller, q.caller (some caller) ≠ .outside → _
      rw [hcallers]
      exact h.resume
    · rw [hs']
      show q.caller none = _
      rw [hcallers]
      exact h.interrupt
    · rw [hs']
      show ∀ caller work, q.caller caller ≠ _
      rw [hcallers]
      exact h.sync

omit [DecidableEq Q] [DecidableEq T] [Fintype W] in
/-- The timer of a work that no caller is about leaves the list, or has its flag changed. -/
theorem Inv.withTimers {timers : Timers W} (h : s.Inv xs) (hfree : s.Free work)
    (hlinked : timers.Linked xs') (hsub : xs' ⊆ xs)
    (hothers : ∀ other, other ≠ work → timers.timer other = s.timers.timer other)
    (htype : (timers.timer work).type = (s.timers.timer work).type)
    (hfreed : (timers.timer work).freed = (s.timers.timer work).freed)
    (honeshot : (timers.timer work).flag.periodic = (s.timers.timer work).flag.periodic) :
    ({ s with timers } : DelayedWorks Q W T).Inv xs' := by
  have hsame (other : W) (hother : other ≠ work) : Same s { s with timers } other :=
    ⟨rfl, rfl, hothers other hother, id⟩
  refine ⟨h.matched, hlinked, fun other hother => h.running other (hsub hother), fun other => ?_,
    fun caller => ?_, h.alone, h.resume, h.interrupt, h.sync⟩
  · by_cases hother : other = work
    · subst hother
      exact ⟨htype.trans (h.works other).type, hfreed.trans (h.works other).freed,
        honeshot.trans (h.works other).oneshot, (h.works other).attached, (h.works other).exclusive⟩
    · exact (h.works other).same (hsame other hother)
  · exact (h.places caller).same fun work' hwork' =>
      hsame work' fun heq => hfree caller (heq ▸ hwork')

/-- A turn of the loop of `rt_timer_check`. -/
theorem Inv.fire {rest : List W} (h : s.Inv (work :: rest)) (hfree : s.Free work) :
    ∃ s', host.fire work s = .ok s' ∧ s'.Inv rest ∧ s'.place = s.place ∧
      s'.timers.rtTick = s.timers.rtTick ∧
      ∀ other, other ≠ work → s'.timers.timer other = s.timers.timer other := by
  have hnot : work ∉ rest := (List.nodup_cons.mp h.linked.nodup).1
  have hremoved :
      ({ s with timers := s.timers.rtTimerRemove work } : DelayedWorks Q W T).Inv rest := by
    have hlinked := h.linked.remove work
    rw [List.erase_cons_head] at hlinked
    exact h.withTimers hfree hlinked (List.subset_cons_self ..) (fun _ _ => rfl) rfl rfl rfl
  obtain ⟨s₁, hcall, hinv, hplace, hkept⟩ :=
    hremoved.timeout (h.running work List.mem_cons_self) hfree
  rw [List.erase_of_not_mem hnot] at hinv
  refine ⟨{ s₁ with timers := s₁.timers.setActivated work false }, ?_, ?_, hplace, hkept.rtTick,
    fun other hother => ?_⟩
  · exact TimerHost.fire_oneshot hcall (hkept.freed.trans (h.works work).freed)
      (hkept.oneshot.trans (h.works work).oneshot)
  · have hfree₁ : s₁.Free work := by
      rw [Free, hplace]
      exact hfree
    refine hinv.withTimers hfree₁ hinv.linked (List.Subset.refl _)
      (fun other hother => ?_) ?_ ?_ ?_
    · simp [hother]
    · simp
    · simp
    · simp
  · simpa [hother] using hkept.others other hother

theorem checkLoop_succ (fuel : Nat) (currentTick : Tick) (s : DelayedWorks Q W T) :
    host.rtTimerCheckLoop (fuel + 1) currentTick s =
      match s.timers.rtTimerList.next (.inl ()) with
      | .inl _ => pure s
      | .inr work =>
        if s.timers.due currentTick work then do
          let s ← host.fire work s
          host.rtTimerCheckLoop fuel s.timers.rtTick s
        else pure s := rfl

/-- The loop returns, as every turn takes a timer out of the list. -/
theorem Inv.checkLoop {fuel : Nat} {currentTick : Tick} (h : s.Inv xs) (hfuel : xs.length < fuel)
    (htick : s.timers.rtTick = currentTick)
    (hfree : ∀ work ∈ xs, s.timers.due currentTick work = true → s.Free work) :
    ∃ s' xs', host.rtTimerCheckLoop fuel currentTick s = .ok s' ∧ s'.Inv xs' ∧
      s'.place = s.place := by
  induction fuel generalizing s xs with
  | zero => exact absurd hfuel (Nat.not_lt_zero _)
  | succ fuel ih =>
    have hnext : s.timers.rtTimerList.next (.inl ()) = firstOr () xs :=
      RingList.Holds.next_head h.linked ()
    rw [checkLoop_succ, hnext]
    cases xs with
    | nil => exact ⟨s, [], rfl, h, rfl⟩
    | cons work rest =>
      rw [firstOr_cons]
      by_cases hdue : s.timers.due currentTick work = true
      · obtain ⟨s₁, hfire, hinv, hplace, htick₁, hothers⟩ :=
          h.fire (hfree work List.mem_cons_self hdue)
        have hrest : ∀ other ∈ rest, s₁.timers.due currentTick other = true → s₁.Free other := by
          intro other hother hdue'
          have hne : other ≠ work := by
            rintro rfl
            exact (List.nodup_cons.mp h.linked.nodup).1 hother
          rw [Timers.due, hothers other hne] at hdue'
          have hfree' := hfree other (List.mem_cons_of_mem _ hother) hdue'
          rwa [Free, ← hplace] at hfree'
        obtain ⟨s', xs', hloop, hinv', hplace'⟩ :=
          ih hinv (by simpa using hfuel) (htick₁.trans htick) hrest
        refine ⟨s', xs', ?_, hinv', hplace'.trans hplace⟩
        simp only [hdue, if_true, hfire, bind, Except.bind]
        rwa [htick₁, htick]
      · exact ⟨s, work :: rest, by simp only [hdue, Bool.false_eq_true, if_false]; rfl, h, rfl⟩

/-! ## Runs -/

/-- The timer interrupt returns. -/
theorem Inv.tick (h : s.Inv xs) (hmeets : Meets .tick s) :
    ∃ s' xs', s.tick = .ok s' ∧ s'.Inv xs' ∧ s'.place = s.place := by
  have hadvanced : ({ s with timers := s.timers.advance } : DelayedWorks Q W T).Inv xs :=
    ⟨h.matched, h.linked, h.running, fun work => (h.works work).same ⟨rfl, rfl, rfl, id⟩,
      fun caller => (h.places caller).same fun _ _ => ⟨rfl, rfl, rfl, id⟩, h.alone, h.resume,
      h.interrupt, h.sync⟩
  refine hadvanced.checkLoop (Nat.lt_succ_of_le h.linked.nodup.length_le_card) rfl
    fun work hmem hdue => hmeets work ?_ hdue
  exact (RingList.Holds.linked_iff h.linked).mp ⟨(), hmem⟩

omit [Fintype W] in
/-- A call begins. -/
theorem Inv.begin (h : s.Inv xs) (hplace : s.place caller = .outside) (hfree : s.Free work)
    (habout : place.about = some work) (hat : s.At place) : (s.goTo caller place).Inv xs := by
  refine h.goTo (h.resting (by simp [hplace])) (fun other _ work' hwork' hsame => ?_) hat
  rw [habout] at hsame
  exact hfree other (hwork'.trans hsame.symm)

/-- An event that meets the condition keeps everything in order. -/
theorem Inv.step {event : DelayedEvent Q W T} {output : Option Int} (h : s.Inv xs)
    (hmeets : Meets event s) (hstep : step event s = .ok (s', output)) : ∃ xs', s'.Inv xs' := by
  cases event with
  | submit caller call =>
    simp only [DelayedWorks.step, exec_pure_ok, Prod.mk.injEq] at hstep
    obtain ⟨rfl, -⟩ := hstep
    split_ifs with hplace
    · obtain ⟨hfree, hat⟩ := hmeets hplace
      exact ⟨xs, h.begin hplace hfree rfl hat⟩
    · exact ⟨xs, h⟩
  | cancel caller work =>
    simp only [DelayedWorks.step, exec_pure_ok, Prod.mk.injEq] at hstep
    obtain ⟨rfl, -⟩ := hstep
    split_ifs with hplace
    · obtain ⟨hfree, hpending⟩ := hmeets hplace
      -- by the condition a work with a queue is not pending
      have hclear : s.queues.pending work = false := by
        by_contra hset
        rw [Bool.not_eq_false] at hset
        have hattached := (h.works work).attached (.inl hset)
        simp [hpending hattached] at hset
      exact ⟨xs, h.begin hplace hfree rfl ⟨rfl, hclear, by simp, by simp, by simp⟩⟩
    · exact ⟨xs, h⟩
  | goOn caller =>
    -- a caller that is in a call goes on with it
    by_cases hplace : s.place caller = .outside
    · simp only [DelayedWorks.step, DelayedWorks.goOn, hplace, exec_pure_ok, Prod.mk.injEq] at hstep
      exact ⟨xs, hstep.1 ▸ h⟩
    · obtain ⟨s₁, output₁, xs', hgo, hinv, -⟩ := h.goesOn hplace
      rw [DelayedWorks.step, hgo] at hstep
      cases hstep
      exact ⟨xs', hinv⟩
  | worker queue =>
    simp only [DelayedWorks.step, exec_bind_ok, exec_pure_ok, Prod.mk.injEq] at hstep
    obtain ⟨⟨q, called⟩, hworker, rfl, -⟩ := hstep
    -- the worker touches neither the callers nor the timers
    obtain ⟨hcallers, hpending⟩ := worker_kept hworker
    have hmatched : q.Matched := by
      have hmeets : Workqueues.FlagMeets (.worker queue) s.queues := trivial
      exact h.matched.step hmeets (Workqueues.workqueueThreadEntry_cases hworker)
    refine ⟨xs, h.queues hmatched hpending ?_ ?_ ?_⟩
    · rw [hcallers]
      exact h.resume
    · rw [hcallers]
      exact h.interrupt
    · rw [hcallers]
      exact h.sync
  | tick =>
    obtain ⟨s₁, xs', htick, hinv, -⟩ := h.tick hmeets
    simp only [DelayedWorks.step, htick, exec_bind_ok, exec_pure_ok, Prod.mk.injEq] at hstep
    obtain ⟨_, ⟨⟩, rfl, -⟩ := hstep
    exact ⟨xs', hinv⟩

/-- Along the submissions and cancels of delayed works, with the timer interrupt and the workers
    anywhere in between: whoever is in a call, going on alone, returns, and a work that has been
    cancelled with `RT_EOK` is in no list and its timer does not run, if no call begins that would
    cancel a pending work, and no call or due timer comes between the tests of another call. -/
theorem rt_delayed_work_returns (rtTick : Tick) (events : List (DelayedEvent Q W T))
    (h : Along step Meets events (start rtTick)) : Along step Right events (start rtTick) := by
  refine along_of (I := fun s => ∃ xs, s.Inv xs) ?_ ?_ ⟨[], start_inv rtTick⟩ h
  · rintro event s ⟨xs, hinv⟩ hmeets s' output hstep caller hin
    obtain ⟨xs', hinv'⟩ := hinv.step hmeets hstep
    exact hinv'.returning hin
  · rintro event s s' output ⟨xs, hinv⟩ hmeets hstep
    exact hinv.step hmeets hstep

/-- A work is submitted with a tick to go, its timer submits it, the worker takes it, and it is
    cancelled. -/
def takenCancelled : List (DelayedEvent Unit Unit Unit) :=
  .submit () ⟨(), (), 1⟩ :: List.replicate 5 (.goOn ()) ++
    .tick :: .worker () :: .worker () :: .cancel () () :: List.replicate 4 (.goOn ())

theorem rt_delayed_work_returns_taken : Along step Right takenCancelled (start 0) := by
  refine rt_delayed_work_returns 0 takenCancelled ?_
  simp only [takenCancelled, List.replicate, List.cons_append, List.nil_append]
  refine (along_cons rfl).mpr ⟨fun _ => ⟨fun ⟨⟩ => by decide, fun _ => by decide⟩, ?_⟩
  iterate 5 refine (along_cons rfl).mpr ⟨trivial, ?_⟩
  refine (along_cons rfl).mpr ⟨fun ⟨⟩ _ _ ⟨⟩ => by decide, ?_⟩
  iterate 2 refine (along_cons rfl).mpr ⟨trivial, ?_⟩
  refine (along_cons rfl).mpr ⟨fun _ => ⟨fun ⟨⟩ => by decide, fun _ => by decide⟩, ?_⟩
  iterate 4 refine (along_cons rfl).mpr ⟨trivial, ?_⟩
  trivial

/-! ## Calls that do not return -/

/-- A place from which a caller comes to cancel the work, which is pending in the queue. -/
def Recursing (queue : Q) (work : W) : DelayedPlace Q W → Prop
  | .otherQueue call | .sameQueue call => call.queue = queue ∧ call.work = work
  | .cancel work' _ place _ => work' = work ∧ (place = .workqueue ∨ place = .pending)
  | _ => False

variable (queue work) in
/-- A work that is pending is cancelled, or submitted to its queue again: the call, going on alone,
    calls itself and does not return. -/
theorem pending_not_returning (hpending : s.queues.pending work = true)
    (hqueue : s.workqueue work = some queue) (hplace : Recursing queue work (s.place caller)) :
    ¬ s.Returning caller := by
  rintro ⟨result, s', hreturns, -⟩
  let I (now : DelayedWorks Q W T) : Prop := now.queues.pending work = true ∧
    now.workqueue work = some queue ∧ Recursing queue work (now.place caller)
  refine not_returns (I := I) ?_ ⟨hpending, hqueue, hplace⟩ hreturns
  rintro now ⟨hnow, hin, hrecursing⟩
  cases hat : now.place caller with
  | otherQueue call =>
    rw [hat] at hrecursing
    obtain ⟨rfl, rfl⟩ := hrecursing
    refine ⟨now.goTo caller (.sameQueue call), ?_, hnow, hin, ?_⟩
    · simp [goOn, hat, hin, pure, Except.pure]
    · rw [goTo_place]
      exact ⟨rfl, rfl⟩
  | sameQueue call =>
    rw [hat] at hrecursing
    obtain ⟨rfl, rfl⟩ := hrecursing
    refine ⟨now.goTo caller (.cancel call.work (some call) .workqueue 0), ?_, hnow, hin, ?_⟩
    · simp [goOn, hat, hin, pure, Except.pure]
    · rw [goTo_place]
      exact ⟨rfl, .inl rfl⟩
  | cancel work' call place depth =>
    rw [hat] at hrecursing
    obtain ⟨rfl, rfl | rfl⟩ := hrecursing
    · refine ⟨now.goTo caller (.cancel work' call .pending depth), ?_, hnow, hin, ?_⟩
      · simp [goOn, hat, workqueueCancelDelayedWork, hin, pure, Except.pure]
      · rw [goTo_place]
        exact ⟨rfl, .inr rfl⟩
    · refine ⟨now.goTo caller (.cancel work' call .workqueue (depth + 1)), ?_, hnow, hin, ?_⟩
      · simp [goOn, hat, workqueueCancelDelayedWork, hnow, hin, rtAssert, pure, Except.pure, bind,
          Except.bind]
      · rw [goTo_place]
        exact ⟨rfl, .inl rfl⟩
  | outside | attach | submitWork | initTimer | startTimer | resume =>
    rw [hat] at hrecursing
    exact hrecursing.elim

/-- A work is submitted without delay, and cancelled before the worker takes it. -/
def pendingCancelled : List (DelayedEvent Unit Unit Unit) :=
  .submit () ⟨(), (), 0⟩ :: List.replicate 6 (.goOn ()) ++ [.cancel () ()]

theorem rt_delayed_work_recursion : ¬ Along step Right pendingCancelled (start 0) := by
  simp only [pendingCancelled, List.replicate, List.cons_append, List.nil_append]
  iterate 7 rw [along_cons rfl]
  rintro ⟨-, -, -, -, -, -, -, hright, -⟩
  refine pending_not_returning () () ?_ ?_ ?_ (hright _ _ rfl () (by decide))
  · rfl
  · rfl
  · exact And.intro rfl (.inl rfl)

/-- The timer submits the work between the tests of a cancel, which returns `RT_EOK` and leaves it
    in the list. -/
def cancelInterrupted : List (DelayedEvent Unit Unit Unit) :=
  .submit () ⟨(), (), 1⟩ :: List.replicate 5 (.goOn ()) ++
    [.cancel () (), .goOn (), .goOn (), .tick]

theorem rt_delayed_work_interrupted : ¬ Along step Right cancelInterrupted (start 0) := by
  simp only [cancelInterrupted, List.replicate, List.cons_append, List.nil_append]
  iterate 9 rw [along_cons rfl]
  rintro ⟨-, -, -, -, -, -, -, -, -, hright, -⟩
  obtain ⟨result, s', hreturns, hend⟩ := hright _ _ rfl () (by decide)
  rw [returns_of_none rfl, returns_of_some rfl] at hreturns
  obtain ⟨rfl, rfl⟩ := hreturns
  exact absurd (hend () rfl rfl).1 (by decide)

/-- Two callers cancel a work whose timer runs, and both come to stop it. -/
def cancelledTwice : List (DelayedEvent Unit Unit Bool) :=
  .submit true ⟨(), (), 1⟩ :: List.replicate 5 (.goOn true) ++
    .cancel true () :: List.replicate 3 (.goOn true) ++
      .cancel false () :: List.replicate 3 (.goOn false) ++ [.goOn true]

theorem rt_delayed_work_overlapping : ¬ Along step Right cancelledTwice (start 0) := by
  simp only [cancelledTwice, List.replicate, List.cons_append, List.nil_append]
  iterate 14 rw [along_cons rfl]
  rintro ⟨-, -, -, -, -, -, -, -, -, -, -, -, -, -, hright, -⟩
  obtain ⟨result, s', hreturns, -⟩ := hright _ _ rfl false (by decide)
  refine not_returns_of_error (?_ : _ = Except.error Stuck.assertion) hreturns
  rfl

end DelayedWorks

end PandoraRobot.Drivers
