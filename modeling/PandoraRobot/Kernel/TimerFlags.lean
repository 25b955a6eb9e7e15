import PandoraRobot.Kernel.TimerOrder

/-! # The activated flag and the links

`rt_timer_stop` and the restart of a periodic timer go by `RT_TIMER_FLAG_ACTIVATED`.
Between calls the flag of a timer is set exactly when the timer is linked.  While
the timeout function of a timer runs, its flag may be set although it is not
linked; `rt_timer_check` clears the flag afterwards, also when the timeout function
of a one-shot timer has started the timer again.
-/

namespace PandoraRobot.Kernel

open PandoraRobot.RingList

namespace TimerOp

variable {Tm : Type} [DecidableEq Tm]

/-- Whether the timer of the call is linked after it, given whether it was before. -/
def linkedAfter : TimerOp Tm → Bool → Bool
  | start _, _ => true
  | control .., b => b
  | init .., _ | create .., _ | stop _, _ | detach _, _ | delete _, _ => false

/-- Whether the timer of the call is periodic after it, given whether it was before. -/
def periodicAfter : TimerOp Tm → Bool → Bool
  | init _ _ flag, _ | create _ _ flag, _ => flag.periodic
  | control _ .setOneshot _, _ => false
  | control _ .setPeriodic _, _ => true
  | control _ .setTime _, b | control _ .getTime _, b => b
  | start _, b | stop _, b | detach _, b | delete _, b => b

/-- What a call does to its own timer, where `before` and `after` say whether the timer is
    linked. -/
def OwnEffect (op : TimerOp Tm) (timer : Timer) (before : Prop) (timer' : Timer)
    (after : Prop) : Prop :=
  timer'.flag.periodic = op.periodicAfter timer.flag.periodic ∧
  match op with
  | init .. | create .. => timer.type = .null ∧ timer'.type ≠ .null ∧
      timer'.freed = false ∧ timer'.flag.activated = false ∧ ¬ after
  | start _ => timer.type ≠ .null ∧ timer'.type ≠ .null ∧ timer'.freed = timer.freed ∧
      timer'.flag.activated = true ∧ after
  | stop _ => timer.type ≠ .null ∧ timer'.type ≠ .null ∧ timer'.freed = timer.freed ∧
      timer'.flag.activated = false ∧ (after ↔ before ∧ timer.flag.activated = false)
  | control .. => timer.type ≠ .null ∧ timer'.type ≠ .null ∧ timer'.freed = timer.freed ∧
      timer'.flag.activated = timer.flag.activated ∧ (after ↔ before)
  | detach _ => timer.type ≠ .null ∧ timer'.type = .null ∧ timer'.freed = timer.freed ∧
      timer'.flag.activated = timer.flag.activated ∧ ¬ after
  | delete _ => timer.type ≠ .null ∧ timer'.type = .null ∧ timer'.freed = true ∧ ¬ after

/-- What a call does to the timers and to the list. -/
structure Effect (op : TimerOp Tm) (s : Timers Tm) (xs : List Tm) (s' : Timers Tm)
    (xs' : List Tm) : Prop where
  linked : s'.Linked xs'
  other : ∀ u, u ≠ op.timer → s'.timer u = s.timer u ∧ (u ∈ xs' ↔ u ∈ xs)
  own : op.OwnEffect (s.timer op.timer) (op.timer ∈ xs) (s'.timer op.timer) (op.timer ∈ xs')

variable {s s' : Timers Tm} {xs : List Tm} {op : TimerOp Tm}

theorem init_effect (op : TimerOp Tm) {s₁ : Timers Tm} {t : Tm} {time : Tick} {flag : TimerFlag}
    (hl : s.Linked xs) (hreg : ∀ t ∈ xs, (s.timer t).type ≠ .null)
    (hnull : (s.timer t).type = .null) (htick : s₁.rtTick = s.rtTick)
    (hlist : s₁.rtTimerList = s.rtTimerList)
    (htimer : ∀ u, u ≠ t → s₁.timer u = s.timer u)
    (hop : op = init t time flag ∨ op = create t time flag)
    (htype : (s₁.timer t).type ≠ .null) (hfreed : (s₁.timer t).freed = false) :
    Effect op s xs (s₁.rtTimerInitFields t time flag) xs := by
  have hmem : t ∉ xs := fun hm => hreg _ hm hnull
  have htimerOp : op.timer = t := by cases hop with | _ h => rw [h, timer]
  have hun : Unstarted op s xs (s₁.rtTimerInitFields t time flag) xs :=
    exec_init hl hreg hnull htick hlist htimer htimerOp
  refine ⟨hun.linked, fun u hu => ⟨hun.other u hu, Iff.rfl⟩, ?_⟩
  cases hop with
  | _ h =>
    subst h
    simp [OwnEffect, periodicAfter, Timers.rtTimerInitFields, timer, hmem, hnull, htype, hfreed]

variable [Fintype Tm]

theorem exec_effect (hl : s.Linked xs) (hreg : ∀ t ∈ xs, (s.timer t).type ≠ .null)
    (h : op.exec s = .ok s') : ∃ xs', Effect op s xs s' xs' := by
  have herase : ∀ {t u : Tm}, u ≠ t → (u ∈ xs.erase t ↔ u ∈ xs) := fun hne =>
    List.mem_erase_of_ne hne
  cases op with
  | init t time flag =>
    simp only [exec, Timers.rtTimerInit] at h
    split at h
    · simp at h
    case isFalse hfreed =>
      simp only [exec_bind_ok, exec_pure_ok, rtAssert_eq_ok] at h
      obtain ⟨_, hnull, rfl⟩ := h
      refine ⟨xs, init_effect (init t time flag) hl hreg hnull rfl rfl
        (fun u hu => by simp [hu]) (.inl rfl) (by simp) (by simpa using hfreed)⟩
  | create t time flag =>
    simp only [exec, Timers.rtTimerCreate, exec_bind_ok, exec_pure_ok, rtAssert_eq_ok] at h
    obtain ⟨_, hnull, rfl⟩ := h
    refine ⟨xs, init_effect (create t time flag) hl hreg hnull rfl rfl
      (fun u hu => by simp [hu]) (.inr rfl) (by simp) (by simp)⟩
  | start t =>
    -- a timer that runs already is taken out first
    have hst := Timers.rtTimerStart_started hl h
    obtain ⟨as, bs, hsplit, hlinked, -, -⟩ := hst.list
    refine ⟨as ++ t :: bs, hlinked, fun u hu => ?_, ?_⟩
    · simp only [timer] at hu
      rw [hst.timer, Function.update_of_ne hu, ← herase hu, hsplit]
      simp [hu]
    · rw [hst.timer]
      simpa [OwnEffect, periodicAfter, timer, Timers.startedTimer] using hst.type
  | stop t =>
    simp only [exec, Timers.rtTimerStop, exec_bind_ok, rtAssert_eq_ok] at h
    obtain ⟨⟨s₁, err⟩, ⟨_, htype, h⟩, hs⟩ := h
    simp only [exec_pure_ok] at hs
    subst hs
    -- a timer that is not activated is refused
    split at h
    case isTrue hflag =>
      simp only [exec_pure_ok, Prod.mk.injEq] at h
      obtain ⟨rfl, -⟩ := h
      exact ⟨xs, hl, fun u _ => ⟨rfl, Iff.rfl⟩,
        by simp [OwnEffect, periodicAfter, timer, htype, hflag]⟩
    case isFalse hflag =>
      simp only [exec_pure_ok, Prod.mk.injEq] at h
      obtain ⟨rfl, -⟩ := h
      refine ⟨xs.erase t, hl.remove t, fun u hu => ?_, ?_⟩
      · simp only [timer] at hu
        simp [hu, herase hu]
      · simp [OwnEffect, periodicAfter, timer, htype, hl.nodup.not_mem_erase,
          eq_true_of_ne_false hflag]
  | control t cmd arg =>
    simp only [exec, Timers.rtTimerControl, exec_bind_ok, rtAssert_eq_ok] at h
    obtain ⟨⟨s₁, out⟩, ⟨_, htype, h⟩, hs⟩ := h
    simp only [exec_pure_ok] at hs
    subst hs
    cases cmd <;> simp only [exec_pure_ok, Prod.mk.injEq] at h <;> obtain ⟨rfl, -⟩ := h <;>
      refine ⟨xs, hl, fun u hu => ⟨?_, Iff.rfl⟩, ?_⟩
    all_goals simp_all [OwnEffect, periodicAfter, timer]
  | detach t =>
    simp only [exec, Timers.rtTimerDetach, exec_bind_ok, exec_pure_ok, rtAssert_eq_ok] at h
    obtain ⟨_, htype, _, _, rfl⟩ := h
    refine ⟨xs.erase t, hl.remove t, fun u hu => ?_, ?_⟩
    · simp only [timer] at hu
      simp [hu, herase hu]
    · simp [OwnEffect, periodicAfter, timer, htype, hl.nodup.not_mem_erase]
  | delete t =>
    simp only [exec, Timers.rtTimerDelete, exec_bind_ok, exec_pure_ok, rtAssert_eq_ok] at h
    obtain ⟨_, htype, _, _, rfl⟩ := h
    refine ⟨xs.erase t, hl.remove t, fun u hu => ?_, ?_⟩
    · simp only [timer] at hu
      simp [hu, herase hu]
    · simp [OwnEffect, periodicAfter, timer, htype, hl.nodup.not_mem_erase]

omit [Fintype Tm] in
/-- The links of the timer of a call, when a linked timer has its flag set. -/
theorem Effect.linkedAfter {xs' : List Tm} (heff : Effect op s xs s' xs')
    (hflag : op.timer ∈ xs → (s.timer op.timer).flag.activated = true) :
    decide (op.timer ∈ xs') = op.linkedAfter (op.timer ∈ xs) := by
  have hown := heff.own
  cases op with
  | init | create => simpa [TimerOp.linkedAfter] using hown.2.2.2.2.2
  | start => simpa [TimerOp.linkedAfter] using hown.2.2.2.2.2
  | stop t =>
    have hiff := hown.2.2.2.2.2
    simp only [TimerOp.linkedAfter, decide_eq_false_iff_not, hiff, not_and]
    intro hm
    simp [hflag hm]
  | control => simpa [TimerOp.linkedAfter] using hown.2.2.2.2.2
  | detach => simpa [TimerOp.linkedAfter] using hown.2.2.2.2.2
  | delete => simpa [TimerOp.linkedAfter] using hown.2.2.2.2

end TimerOp

namespace Firing

variable {Tm : Type} [DecidableEq Tm]

/-- Whether a list of calls leaves `t` linked, given whether it was before. -/
def callsLinked (t : Tm) (calls : List (TimerOp Tm)) (b : Bool) : Bool :=
  calls.foldl (fun b op => if op.timer = t then op.linkedAfter b else b) b

def callsPeriodic (t : Tm) (calls : List (TimerOp Tm)) (b : Bool) : Bool :=
  calls.foldl (fun b op => if op.timer = t then op.periodicAfter b else b) b

/-- The timeout function leaves its own timer started, and one-shot: of its calls that start
    or stop the timer the last one starts it. -/
def startsOwnOneshot (f : Firing Tm) : Bool :=
  callsLinked f.timer f.calls false && !callsPeriodic f.timer f.calls f.periodic

end Firing

namespace TimerRun

variable {Tm : Type} [DecidableEq Tm]

/-- The flags and the links agree, except for the timer whose timeout function is running. -/
structure Flagged (r : TimerRun Tm) (busy : Option Tm) (xs : List Tm) : Prop where
  linked : r.timers.Linked xs
  registered : ∀ t ∈ xs, (r.timers.timer t).type ≠ .null
  gone : ∀ t, r.stale t = true ∨ (r.timers.timer t).freed = true → (r.timers.timer t).type = .null
  linkedFlag : ∀ t ∈ xs, (r.timers.timer t).flag.activated = true
  flagLinked : ∀ t, some t ≠ busy → r.stale t = false → (r.timers.timer t).freed = false →
    (r.timers.timer t).flag.activated = true → t ∈ xs

variable {r r' : TimerRun Tm} {busy : Option Tm} {xs : List Tm}

omit [DecidableEq Tm] in
/-- What is recorded of a flag that is clear makes no difference. -/
theorem Flagged.withTimers (hf : Flagged r busy xs) : Flagged (r.withTimers id) busy xs :=
  ⟨hf.linked, hf.registered, fun t hgone => hf.gone t (hgone.imp_left fun h => by
    simp only [TimerRun.withTimers, id, Bool.and_eq_true] at h
    exact h.1), hf.linkedFlag, fun t ht hstale hfreed hact => hf.flagLinked t ht (by
    simp only [TimerRun.withTimers, id] at hstale hact
    simpa [hact] using hstale) hfreed hact⟩

/-- One timer `t` changes, and the agreement is checked for it alone. -/
theorem Flagged.update {busy' : Option Tm} {xs' : List Tm} {t : Tm} (hf : Flagged r busy xs)
    (hl : r'.timers.Linked xs') (hbusy : ∀ u, u ≠ t → some u ≠ busy' → some u ≠ busy)
    (hother : ∀ u, u ≠ t → r'.timers.timer u = r.timers.timer u ∧ (u ∈ xs' ↔ u ∈ xs) ∧
      r'.stale u = r.stale u)
    (hmem : t ∈ xs' → (r'.timers.timer t).type ≠ .null ∧
      (r'.timers.timer t).flag.activated = true)
    (hgone : r'.stale t = true ∨ (r'.timers.timer t).freed = true →
      (r'.timers.timer t).type = .null)
    (hflag : some t ≠ busy' → r'.stale t = false → (r'.timers.timer t).freed = false →
      (r'.timers.timer t).flag.activated = true → t ∈ xs') : Flagged r' busy' xs' := by
  refine ⟨hl, ?_, ?_, ?_, ?_⟩
  all_goals intro u
  all_goals by_cases hut : u = t
  · exact hut ▸ fun hm => (hmem hm).1
  · rw [(hother u hut).1, (hother u hut).2.1]
    exact hf.registered u
  · exact hut ▸ hgone
  · rw [(hother u hut).1, (hother u hut).2.2]
    exact hf.gone u
  · exact hut ▸ fun hm => (hmem hm).2
  · rw [(hother u hut).1, (hother u hut).2.1]
    exact hf.linkedFlag u
  · exact hut ▸ hflag
  · rw [(hother u hut).1, (hother u hut).2.1, (hother u hut).2.2]
    exact fun hb => hf.flagLinked u (hbusy u hut hb)

variable [Fintype Tm]

theorem exec_recorded (op : TimerOp Tm) (h : r.exec op = .ok r') :
    op.exec r.timers = .ok r'.timers ∧ r'.stale = r.noteStale op ∧ r'.fired = r.fired := by
  cases op with
  | start t =>
    simp only [exec, start, exec_bind_ok, exec_pure_ok] at h
    obtain ⟨timers, hstart, rfl⟩ := h
    exact ⟨hstart, rfl, rfl⟩
  | init | create | stop | control | detach | delete =>
    simp only [exec, exec_bind_ok, exec_pure_ok] at h
    obtain ⟨timers, hexec, rfl⟩ := h
    exact ⟨hexec, rfl, rfl⟩

theorem Flagged.exec (hf : Flagged r busy xs) {op : TimerOp Tm} (h : r.exec op = .ok r') :
    ∃ xs', Flagged r' busy xs' ∧ op.Effect r.timers xs r'.timers xs' := by
  obtain ⟨hexec, hstale, -⟩ := exec_recorded op h
  obtain ⟨xs', heff⟩ := TimerOp.exec_effect hf.linked hf.registered hexec
  have hstaleOther : ∀ u, u ≠ op.timer → r'.stale u = r.stale u := by
    intro u hu
    rw [hstale]
    cases op <;> simp_all [noteStale, TimerOp.timer]
  have hself : (op.timer ∈ xs' → (r'.timers.timer op.timer).type ≠ .null ∧
        (r'.timers.timer op.timer).flag.activated = true) ∧
      (r'.stale op.timer = true ∨ (r'.timers.timer op.timer).freed = true →
        (r'.timers.timer op.timer).type = .null) ∧
      (some op.timer ≠ busy → r'.stale op.timer = false →
        (r'.timers.timer op.timer).freed = false →
        (r'.timers.timer op.timer).flag.activated = true → op.timer ∈ xs') := by
    have hown := heff.own
    have hmem := hf.linkedFlag op.timer
    have hgone := hf.gone op.timer
    have hflag := hf.flagLinked op.timer
    rw [hstale]
    cases op with
    | init t time flag | create t time flag =>
      obtain ⟨-, -, htype, hfreed, hact, hafter⟩ := hown
      simp_all [noteStale, TimerOp.timer]
    | start t =>
      obtain ⟨-, htype, htype', hfreed, hact, hafter⟩ := hown
      simp_all [noteStale, TimerOp.timer]
    | stop t =>
      obtain ⟨-, htype, htype', hfreed, hact, hafter⟩ := hown
      simp_all [noteStale, TimerOp.timer]
    | control t cmd arg =>
      obtain ⟨-, htype, htype', hfreed, hact, hafter⟩ := hown
      simp_all [noteStale, TimerOp.timer]
    | detach t =>
      obtain ⟨-, htype, htype', hfreed, hact, hafter⟩ := hown
      simp_all [noteStale, TimerOp.timer]
    | delete t =>
      obtain ⟨-, htype, htype', hfreed, hafter⟩ := hown
      simp_all [noteStale, TimerOp.timer]
  exact ⟨xs', hf.update heff.linked (fun _ _ hb => hb)
    (fun u hu => ⟨(heff.other u hu).1, (heff.other u hu).2, hstaleOther u hu⟩)
    hself.1 hself.2.1 hself.2.2, heff⟩

/-- What the calls of a timeout function do to the links and the mode of one timer. -/
theorem Flagged.calls (hf : Flagged r busy xs) (t : Tm) {ops : List (TimerOp Tm)}
    (h : ops.foldlM (fun r op => r.exec op) r = .ok r') :
    ∃ xs', Flagged r' busy xs' ∧
      (t ∈ xs' ↔ Firing.callsLinked t ops (t ∈ xs) = true) ∧
      (r'.timers.timer t).flag.periodic =
        Firing.callsPeriodic t ops (r.timers.timer t).flag.periodic ∧
      r'.fired = r.fired := by
  induction ops generalizing r xs with
  | nil =>
    simp only [List.foldlM_nil, exec_pure_ok] at h
    subst h
    exact ⟨xs, hf, by simp [Firing.callsLinked], rfl, rfl⟩
  | cons op ops ih =>
    simp only [List.foldlM_cons, exec_bind_ok] at h
    obtain ⟨r₁, hexec, hrest⟩ := h
    obtain ⟨xs₁, hf₁, heff⟩ := hf.exec hexec
    obtain ⟨xs', hf', hlinked, hperiodic, hfired⟩ := ih hf₁ hrest
    have hfired₁ := (exec_recorded op hexec).2.2
    have hstep : decide (t ∈ xs₁) = (if op.timer = t then op.linkedAfter (t ∈ xs) else t ∈ xs) ∧
        (r₁.timers.timer t).flag.periodic =
          if op.timer = t then op.periodicAfter (r.timers.timer t).flag.periodic
          else (r.timers.timer t).flag.periodic := by
      by_cases hop : op.timer = t
      · subst hop
        rw [if_pos rfl, if_pos rfl]
        exact ⟨heff.linkedAfter (hf.linkedFlag op.timer), heff.own.1⟩
      · obtain ⟨htimer, hmem⟩ := heff.other t (Ne.symm hop)
        simp [hop, htimer, hmem]
    refine ⟨xs', hf', ?_, ?_, hfired.trans hfired₁⟩
    · rw [hlinked, hstep.1]
      rfl
    · rw [hperiodic, hstep.2]
      rfl

/-- A turn of the loop of `rt_timer_check` restores the agreement, unless the timeout function
    leaves its own timer started and one-shot. -/
theorem Flagged.fire {cb : Callback Tm} {t : Tm} (hf : Flagged r none xs)
    (hnext : r.timers.rtTimerList.next (.inl ()) = .inr t) (h : (host cb).fire t r = .ok r')
    (hown : ∀ f ∈ r'.fired, f.startsOwnOneshot = false) : ∃ xs', Flagged r' none xs' := by
  obtain ⟨rest, hxs⟩ := Holds.next_head_eq_elem hf.linked hnext
  change xs = t :: rest at hxs
  subst hxs
  let removed : TimerRun Tm := r.withTimers (·.rtTimerRemove t)
  let called : TimerRun Tm :=
    { removed with fired := removed.firing t (cb t removed) :: r.fired }
  have hcalled : Flagged called (some t) rest := by
    have hl := hf.linked.remove t
    rw [List.erase_cons_head] at hl
    refine ⟨hl, fun u hu => hf.registered u (by simp [hu]), hf.withTimers.gone,
      fun u hu => hf.linkedFlag u (by simp [hu]), ?_⟩
    intro u hu hstale hfreed hact
    have hmem := hf.withTimers.flagLinked u (by simp) hstale hfreed hact
    simpa [show u ≠ t from fun heq => hu (by rw [heq])] using hmem
  have ht : t ∉ rest := (List.nodup_cons.mp hf.linked.nodup).1
  obtain ⟨r₁, hcall, hend⟩ := TimerHost.fire_cases h
  have hcall' : (cb t removed).foldlM (fun r op => r.exec op) called = .ok r₁ := hcall
  obtain ⟨xs₁, hf₁, hlinked, hperiodic, hfired⟩ := hcalled.calls t hcall'
  let stopped : TimerRun Tm := r₁.withTimers (·.setActivated t false)
  have hf₂ := hf₁.withTimers
  have hother : ∀ u, u ≠ t → stopped.timers.timer u = r₁.timers.timer u := by
    intro u hu
    simp [stopped, hu]
  have hstaleOther : ∀ u, u ≠ t → stopped.stale u = (r₁.withTimers id).stale u := by
    intro u hu
    simp [stopped, TimerRun.withTimers, hu]
  cases hend with
  | inl hrestart =>
    obtain ⟨-, -, hstart⟩ := hrestart
    change stopped.start t = .ok r' at hstart
    obtain ⟨hexec, hstale, -⟩ := exec_recorded (.start t) hstart
    have hregistered : ∀ u ∈ xs₁, (stopped.timers.timer u).type ≠ .null := by
      intro u hu
      by_cases hut : u = t
      · subst hut
        simpa [stopped] using hf₁.registered u hu
      · simpa [stopped, hut] using hf₁.registered u hu
    obtain ⟨xs', heff⟩ := TimerOp.exec_effect (s := stopped.timers) hf₁.linked hregistered hexec
    obtain ⟨-, htype, htype', hfreed', hact', hmem'⟩ := heff.own
    have hstale' : r'.stale = stopped.stale := hstale
    -- the restarted timer is registered, so it is not deleted
    have hlive : ¬ (r'.stale t = true ∨ (r'.timers.timer t).freed = true) := by
      intro hgone
      have hfreed : (r'.timers.timer t).freed = true := by
        simpa [hstale', stopped, TimerRun.withTimers] using hgone
      have hfreed₁ : (r₁.timers.timer t).freed = true := by
        simpa [stopped, TimerOp.timer, hfreed] using hfreed'
      have htype₁ : (r₁.timers.timer t).type ≠ .null := by
        simpa [stopped, TimerOp.timer] using htype
      exact htype₁ (hf₁.gone t (.inr hfreed₁))
    refine ⟨xs', hf₂.update (t := t) heff.linked (fun u hu _ => by simpa using hu) (fun u hu => ?_)
      (fun _ => ⟨htype', hact'⟩) (fun hgone => absurd hgone hlive) (fun _ _ _ _ => hmem')⟩
    obtain ⟨htimer, hmem⟩ := heff.other u hu
    exact ⟨htimer.trans (hother u hu), hmem, by rw [hstale', hstaleOther u hu]⟩
  | inr hstop =>
    obtain ⟨hstay, rfl⟩ := hstop
    -- a linked timer has its flag set, so it is one-shot here, which the condition excludes
    have hgone : t ∉ xs₁ := by
      intro hm
      have hoff := hown (removed.firing t (cb t removed)) (show _ ∈ r₁.fired by simp [hfired, called])
      have hon := hlinked.mp hm
      have hmode : (r₁.timers.timer t).flag.periodic = false := by
        by_contra hne
        exact hstay ⟨eq_true_of_ne_false hne, hf₁.linkedFlag t hm⟩
      rw [decide_eq_false ht] at hon
      rw [hperiodic] at hmode
      have hmode' : Firing.callsPeriodic t (cb t removed) (r.timers.timer t).flag.periodic = false :=
        hmode
      simp [Firing.startsOwnOneshot, firing, removed, hon, hmode'] at hoff
    refine ⟨xs₁, hf₂.update (t := t) hf₁.linked (fun u hu _ => by simpa using hu)
      (fun u hu => ⟨hother u hu, Iff.rfl, hstaleOther u hu⟩) (fun hm => absurd hm hgone) ?_ ?_⟩
    · intro hgone
      have hfreed : (r₁.timers.timer t).freed = true := by
        simpa [host, TimerRun.withTimers] using hgone
      simpa [host] using hf₁.gone t (.inr hfreed)
    · intro _ _ _ hact
      simp [host] at hact

/-! ## Runs -/

theorem Flagged.tick {cb : Callback Tm} (hf : Flagged r none xs) (ho : Ordered 0 r xs)
    {fuel : Nat} (h : r.tick cb fuel = .ok r')
    (hown : ∀ f ∈ r'.fired, f.startsOwnOneshot = false) : ∃ xs', Flagged r' none xs' := by
  have hstart : Flagged r.ticked none xs :=
    ⟨hf.linked, hf.registered, hf.gone, hf.linkedFlag, hf.flagLinked⟩
  obtain ⟨⟨-, hflagged⟩, -⟩ := TimerHost.rtTimerCheck_rule (host cb)
    (P := fun q => (∃ ys, Ordered (-1) q ys) ∧
      ((∀ f ∈ q.fired, f.startsOwnOneshot = false) → ∃ ys, Flagged q none ys))
    (fun q t q' hq hnext hdue hfired => by
      obtain ⟨⟨ys, hoy⟩, hflagged⟩ := hq
      obtain ⟨zs, hoz, hacc⟩ := hoy.fire hnext hdue hfired
      refine ⟨⟨zs, hoz⟩, fun hall => ?_⟩
      obtain ⟨ys', hfy⟩ := hflagged fun f hm => hall f (hacc.fired hm)
      exact hfy.fire hnext hfired hall) ⟨⟨xs, ho.ticked⟩, fun _ => ⟨xs, hstart⟩⟩ h
  exact hflagged hown

theorem runs_flagged {cb : Callback Tm} {r₀ : TimerRun Tm} (hi : Initial r₀)
    (hr : Runs cb r₀ r) (hown : ∀ f ∈ r.fired, f.startsOwnOneshot = false) :
    ∃ xs, Flagged r none xs := by
  induction hr with
  | refl =>
    refine ⟨[], hi.linked, by simp, ?_, by simp, ?_⟩
    · intro t hgone
      rw [hi.stale t] at hgone
      cases hgone with
      | inl h => cases h
      | inr h => exact hi.freed t h
    · intro t _ _ _ hact
      rw [hi.stopped t] at hact
      cases hact
  | tail hrun hstep ih =>
    rename_i q q'
    obtain ⟨xs, ho⟩ := runs_ordered hi hrun
    cases hstep with
    | call op h =>
      obtain ⟨xs', hf⟩ := ih fun f hm => hown f ((exec_recorded op h).2.2 ▸ hm)
      obtain ⟨ys, hy, -⟩ := hf.exec h
      exact ⟨ys, hy⟩
    | tick fuel h =>
      obtain ⟨_, -, hacc⟩ := ho.tick h
      obtain ⟨xs', hf⟩ := ih fun f hm => hown f (hacc.fired hm)
      have hxs : xs' = xs := congrFun (Holds.unique hf.linked ho.sorted.linked) ()
      exact (hxs ▸ hf).tick ho h hown

/-- In a run in which no timeout function leaves its own one-shot timer started, the flag of a
    timer is set exactly when the timer is linked, unless the timer was detached with its flag
    set; and `rt_timer_stop` of a linked timer succeeds and unlinks it. -/
theorem flag_set_iff_linked (cb : Callback Tm) {r₀ r : TimerRun Tm} (hi : Initial r₀)
    (hr : Runs cb r₀ r) (hown : ∀ f ∈ r.fired, f.startsOwnOneshot = false) :
    (∀ t, r.stale t = false → (r.timers.timer t).freed = false →
      ((r.timers.timer t).flag.activated = true ↔ r.isLinked t = true)) ∧
    ∀ t, r.isLinked t = true → (r.timers.timer t).flag.activated = true ∧
      ∃ s', r.timers.rtTimerStop t = .ok (s', .eok) ∧
        s'.rtTimerList.next (.inr t) = .inr t := by
  obtain ⟨xs, hf⟩ := runs_flagged hi hr hown
  have hlinked : ∀ t, r.isLinked t = true ↔ t ∈ xs := fun t => isLinked_iff hf.linked
  refine ⟨?_, ?_⟩
  · intro t hstale hfreed
    rw [hlinked]
    exact ⟨hf.flagLinked t (by simp) hstale hfreed, hf.linkedFlag t⟩
  · intro t ht
    have hm := (hlinked t).mp ht
    have hact := hf.linkedFlag t hm
    have hremoved := hf.linked.remove t
    refine ⟨hact, (r.timers.rtTimerRemove t).setActivated t false, ?_, ?_⟩
    · simp [Timers.rtTimerStop, rtAssert, hf.registered t hm, hact, bind, Except.bind, pure,
        Except.pure]
    · exact (Holds.alone hremoved t fun _ => hf.linked.nodup.not_mem_erase).1

/-- One timer, before anything has happened to it. -/
def oneTimer : TimerRun (Fin 1) where
  timers :=
    { rtTick := 0
      rtTimerList := ⟨id, id⟩
      timer := fun _ => {} }
  clock := 0

theorem oneTimer_initial : Initial oneTimer :=
  ⟨rfl, holds_empty, rfl, fun _ => rfl, fun _ _ => rfl, fun _ => rfl, rfl, rfl⟩

theorem flag_set_iff_linked_periodic :
    ∃ r, Runs (fun t _ => [.start t]) oneTimer r ∧ r.isLinked 0 = true ∧
      (r.timers.timer 0).flag.activated = true ∧
      ∃ s', r.timers.rtTimerStop 0 = .ok (s', .eok) ∧
        s'.rtTimerList.next (.inr 0) = .inr 0 := by
  obtain ⟨r, hr, hdata⟩ := exec_exists_ok (show (oneTimer.script (fun t _ => [.start t])
      [some (.init 0 1 { periodic := true }), some (.start 0), none]).map
      (fun r => (r.isLinked 0, r.fired.map (·.startsOwnOneshot))) = .ok (true, [false])
    by decide +kernel)
  simp only [Prod.mk.injEq] at hdata
  have hruns := script_runs hr
  have hown : ∀ f ∈ r.fired, f.startsOwnOneshot = false := by
    intro f hf
    have hm := List.mem_map_of_mem (f := (·.startsOwnOneshot)) hf
    simpa [hdata.2] using hm
  exact ⟨r, hruns, hdata.1, (flag_set_iff_linked _ oneTimer_initial hruns hown).2 0 hdata.1⟩

/-- A one-shot timer whose timeout function starts it again ends up linked with its flag clear,
    and `rt_timer_stop` refuses it. -/
theorem oneshot_restart_unstoppable :
    ∃ r, Runs (fun t _ => [.start t]) oneTimer r ∧ r.isLinked 0 = true ∧
      (r.timers.timer 0).flag.activated = false ∧
      r.timers.rtTimerStop 0 = .ok (r.timers, .error) := by
  obtain ⟨r, hr, hdata⟩ := exec_exists_ok (show (oneTimer.script (fun t _ => [.start t])
      [some (.init 0 1 {}), some (.start 0), none]).map
      (fun r => (r.isLinked 0, (r.timers.timer 0).flag.activated, (r.timers.timer 0).type)) =
        .ok (true, false, .static)
    by decide +kernel)
  simp only [Prod.mk.injEq] at hdata
  obtain ⟨hlinked, hact, htype⟩ := hdata
  refine ⟨r, script_runs hr, hlinked, hact, ?_⟩
  simp [Timers.rtTimerStop, rtAssert, hact, htype, bind, Except.bind, pure, Except.pure]

end TimerRun

end PandoraRobot.Kernel
