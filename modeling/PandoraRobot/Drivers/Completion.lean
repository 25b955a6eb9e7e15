import PandoraRobot.Kernel.Blocking

/-! # Completions

`rt_completion_wait` and `rt_completion_done` of `completion.c`, on one completion for
which the thread `t` waits.  A stretch of code between `rt_hw_interrupt_disable` and
`rt_hw_interrupt_enable` is one step.  The test of the flag that begins a done is a
step of its own, and so is the read of `thread->error` after the `rt_schedule` of a
wait: what comes after it clears the flag.

A wait that has timed out clears the flag as well.  A done that comes after the
time-out, and before the wait has ended, is lost.
-/

namespace PandoraRobot.Drivers

open PandoraRobot.Kernel

section Code

variable {T U I : Type} [DecidableEq T] [DecidableEq U] [DecidableEq I] [Fintype T] [Fintype U]

/-- `rt_completion_wait` up to `rt_schedule`, for a flag that is true where it is
    `RT_COMPLETED`.  The result is what the call returns, or `none` where the thread has to
    wait. -/
def rtCompletionWait (thread : T) (i : I) (timeout : Tick) (flag : Bool) (k : State T U I) :
    Exec (State T U I × Bool × Option Err) :=
  if flag then pure (k, false, some .eok)
  else do
    -- only one thread can suspend on complete
    rtAssert (rtListIsempty (.inl (.suspend i)) k.tlist = true)
    if timeout = 0 then pure (k, flag, some .etimeout)
    else do
      let k := k.setError thread .eok
      let k ← k.waitOn i thread .fifo timeout
      pure (k, flag, none)

/-- `rt_completion_done` after its first test of the flag, up to the `rt_schedule` that follows
    where a thread was resumed.  The flag is now `RT_COMPLETED`. -/
def rtCompletionDone (i : I) (k : State T U I) : Exec (State T U I × Bool) :=
  if rtListIsempty (.inl (.suspend i)) k.tlist = false then do
    let k ← k.rtIpcListResume i
    pure (k, true)
  else pure (k, true)

end Code

/-- How far the thread is in `rt_completion_wait`. -/
inductive WaitStage where
  | outside
  | waiting
  /-- It has read its `error`, and is about to clear the flag and to return. -/
  | resumed (result : Err)
  deriving DecidableEq, Repr

/-- The kernel and the completion, of which `D` are the calls of `rt_completion_done`. -/
structure Completion (T U I D : Type) where
  kernel : State T U I
  flag : Bool
  stage : WaitStage
  /-- The calls that have found the flag `RT_UNCOMPLETED`, and have not set it yet. -/
  tested : D → Bool
  /-- A done has occurred since a wait last returned `RT_EOK`. -/
  since : Bool

namespace Completion

variable {T U I D : Type}

section

variable [DecidableEq T] [DecidableEq U] [DecidableEq I] [Fintype T] [Fintype U] [DecidableEq D]

/-- The thread calls `rt_completion_wait`. -/
def wait (t : T) (i : I) (timeout : Tick) (s : Completion T U I D) :
    Exec (Completion T U I D) := do
  let (k, flag, out) ← rtCompletionWait t i timeout s.flag s.kernel
  let s := { s with kernel := k, flag := flag }
  match out with
  | some .eok => pure { s with since := false }
  | some _ => pure s
  | none => pure { s with stage := .waiting }

/-- What `rt_completion_wait` does once its `rt_schedule` has returned. -/
def reads (t : T) (s : Completion T U I D) : Completion T U I D :=
  { s with stage := .resumed (s.kernel.thread t).error }

def returns (result : Err) (s : Completion T U I D) : Completion T U I D :=
  { s with
    flag := false
    stage := .outside
    since := if result = .eok then false else s.since }

/-- The first test of `rt_completion_done`, with which a call on a completed one ends. -/
def doneTest (d : D) (s : Completion T U I D) : Completion T U I D :=
  if s.flag then { s with since := true }
  else { s with tested := Function.update s.tested d true }

def done (i : I) (d : D) (s : Completion T U I D) : Exec (Completion T U I D) := do
  let (k, flag) ← rtCompletionDone i s.kernel
  pure { s with
    kernel := k
    flag := flag
    tested := Function.update s.tested d false
    since := true }

/-- The steps of the system, where a done sets the flag only when `may` allows it. -/
inductive Step (cb : State.Callback T U I) (t : T) (i : I) (may : Completion T U I D → Prop) :
    Completion T U I D → Completion T U I D → Prop where
  | wait {s s' : Completion T U I D} (timeout : Tick) : s.kernel.Running t →
      s.stage = .outside → s.wait t i timeout = .ok s' → Step cb t i may s s'
  | reads {s : Completion T U I D} : s.kernel.Running t → s.stage = .waiting →
      Step cb t i may s (s.reads t)
  | returns {s : Completion T U I D} (result : Err) : s.kernel.Running t →
      s.stage = .resumed result → Step cb t i may s (s.returns result)
  | doneTest {s : Completion T U I D} (d : D) : s.tested d = false →
      Step cb t i may s (s.doneTest d)
  | done {s s' : Completion T U I D} (d : D) : s.tested d = true → may s →
      s.done i d = .ok s' → Step cb t i may s s'
  | elsewhere {s : Completion T U I D} {k : State T U I} :
      State.Elsewhere cb (fun u => u = t ∧ s.stage = .waiting) s.kernel k →
      Step cb t i may s { s with kernel := k }

abbrev Runs (cb : State.Callback T U I) (t : T) (i : I) (may : Completion T U I D → Prop) :
    Completion T U I D → Completion T U I D → Prop :=
  Relation.ReflTransGen (Step cb t i may)

/-- Any kernel state a run reaches in which no thread waits, after `rt_completion_init`. -/
structure Initial (cb : State.Callback T U I) (s : Completion T U I D) : Prop where
  reached : ∃ k₀, State.Initial k₀ ∧ State.Runs cb k₀ s.kernel
  empty : ∀ i, rtListIsempty (.inl (.suspend i)) s.kernel.tlist = true
  flag : s.flag = false
  stage : s.stage = .outside
  since : s.since = false

/-- A done since the last successful wait is seen, and nothing else is: the wait in which the
    thread is returns `RT_EOK`, or else the next one does. -/
structure Seen (t : T) (i : I) (s : Completion T U I D) : Prop where
  next : s.stage = .outside → s.since = true →
    ∀ timeout, rtCompletionWait t i timeout s.flag s.kernel = .ok (s.kernel, false, some .eok)
  none : s.stage = .outside → s.since = false →
    ∀ timeout k flag, rtCompletionWait t i timeout s.flag s.kernel ≠ .ok (k, flag, some .eok)
  waiting : s.stage = .waiting →
    (s.since = true ↔ (s.kernel.thread t).stat ≠ .suspend ∧ (s.kernel.thread t).error = .eok)
  resumed : ∀ result, s.stage = .resumed result → (s.since = true ↔ result = .eok)

end

/-- The thread is not between the time-out of a wait and the end of that wait. -/
def InTime (t : T) (s : Completion T U I D) : Prop :=
  (s.stage = .waiting → (s.kernel.thread t).stat = .suspend ∨ (s.kernel.thread t).error = .eok) ∧
    ∀ result, s.stage = .resumed result → result = .eok

@[simp] theorem reads_stage (t : T) (s : Completion T U I D) :
    (s.reads t).stage = .resumed (s.kernel.thread t).error := rfl
@[simp] theorem reads_flag (t : T) (s : Completion T U I D) : (s.reads t).flag = s.flag := rfl
@[simp] theorem returns_stage (result : Err) (s : Completion T U I D) :
    (s.returns result).stage = .outside := rfl
@[simp] theorem returns_flag (result : Err) (s : Completion T U I D) :
    (s.returns result).flag = false := rfl
@[simp] theorem returns_since (result : Err) (s : Completion T U I D) :
    (s.returns result).since = if result = .eok then false else s.since := rfl

/-! ## The flag and the wait -/

variable [DecidableEq T]

/-- Where the thread waits. -/
def place (t : T) (i : I) (stage : WaitStage) : T → Option I :=
  Function.update (fun _ => Option.none) t (if stage = .waiting then some i else Option.none)

@[simp] theorem place_self (t : T) (i : I) (stage : WaitStage) :
    place t i stage t = if stage = .waiting then some i else Option.none := by
  simp [place]

theorem place_of_ne {stage : WaitStage} (t : T) (i : I) (h : stage ≠ .waiting) :
    place t i stage = fun _ => Option.none := by
  simp [place, h]

theorem place_leave {stage : WaitStage} (stage' : WaitStage) (t : T) (i : I)
    (h : stage' ≠ .waiting) :
    Function.update (place t i stage) t Option.none = place t i stage' := by
  simp [place, h]

theorem place_busy {t u : T} {i : I} {stage : WaitStage} (h : place t i stage u ≠ Option.none) :
    u = t ∧ stage = .waiting := by
  by_cases hu : u = t
  · subst hu
    by_cases hstage : stage = .waiting
    · exact ⟨rfl, hstage⟩
    · simp [hstage] at h
  · simp [place, hu] at h

/-- The flag is set while a done waits to be seen, and the wait of the thread agrees. -/
structure Inv (t : T) (i : I) (s : Completion T U I D) (v : View T I) : Prop where
  shows_ : State.Shows 0 s.kernel v
  kept : View.Kept (place t i s.stage) v
  since : s.since = s.flag
  waiting : s.stage = .waiting →
    (s.flag = true ↔ (v.thread t).stat ≠ .suspend ∧ (v.thread t).error = .eok)
  resumed : ∀ result, s.stage = .resumed result → (s.flag = true ↔ result = .eok)

variable {cb : State.Callback T U I} {s s' : Completion T U I D} {v v' : View T I} {t : T} {i : I}
  {d : D}

variable [DecidableEq U] [DecidableEq I] [Fintype T] [Fintype U] in
theorem Inv.wait (hi : Inv t i s v) (hrunning : s.kernel.Running t) (hstage : s.stage = .outside)
    {timeout : Tick} (h : s.wait t i timeout = .ok s') : ∃ v', Inv t i s' v' := by
  simp only [Completion.wait, rtCompletionWait, exec_bind_ok] at h
  obtain ⟨⟨k, flag, out⟩, hwait, h⟩ := h
  split at hwait
  case isTrue hflag =>
    -- the wait takes the done
    simp only [exec_pure_ok, Prod.mk.injEq] at hwait
    obtain ⟨rfl, rfl, rfl⟩ := hwait
    simp only [exec_pure_ok] at h
    subst h
    exact ⟨v, hi.shows_, hi.kept, rfl, fun hw => by simp [hstage] at hw,
      fun _ hr => by simp [hstage] at hr⟩
  case isFalse hflag =>
    simp only [exec_bind_ok, rtAssert_eq_ok] at hwait
    obtain ⟨-, -, hwait⟩ := hwait
    split at hwait
    · simp only [exec_pure_ok, Prod.mk.injEq] at hwait
      obtain ⟨rfl, rfl, rfl⟩ := hwait
      simp only [exec_pure_ok] at h
      subst h
      exact ⟨v, hi.shows_, hi.kept, hi.since, fun hw => by simp [hstage] at hw,
        fun _ hr => by simp [hstage] at hr⟩
    · simp only [exec_bind_ok, exec_pure_ok, Prod.mk.injEq] at hwait
      obtain ⟨k₁, hwait, rfl, rfl, rfl⟩ := hwait
      simp only [exec_pure_ok] at h
      subst h
      have hready := hrunning.2
      rw [hi.shows_.thread] at hready
      obtain ⟨xs, ys, hsplit, -, hs'⟩ :=
        (hi.shows_.setError (t := t) .eok).waitOn (by simpa using hready) hwait
      have hkept := hi.kept
      rw [place_of_ne t i (by simp [hstage])] at hkept
      have hcleared := hkept.modify (t := t) (f := fun th => { th with error := .eok }) rfl
        (fun _ _ => rfl)
      refine ⟨_, hs', hcleared.enqueue rfl hsplit (by simp), hi.since, fun _ => ?_,
        fun _ hr => by cases hr⟩
      simp [hflag]

theorem Inv.reads (hi : Inv t i s v) (hrunning : s.kernel.Running t) (hstage : s.stage = .waiting) :
    Inv t i (s.reads t) v := by
  have hready := hrunning.2
  rw [hi.shows_.thread] at hready
  have hkept := hi.kept.leave (t := t) (by simp [hready])
  rw [place_leave (s.reads t).stage t i (by simp)] at hkept
  refine ⟨hi.shows_, hkept, hi.since, fun hw => by simp at hw, fun result hr => ?_⟩
  have heq : (s.kernel.thread t).error = result := by simpa using hr
  rw [← heq, reads_flag, hi.shows_.thread]
  simpa [hready] using hi.waiting hstage

/-- A wait that has timed out leaves a flag that is clear already. -/
theorem Inv.returns (hi : Inv t i s v) {result : Err} (hstage : s.stage = .resumed result) :
    Inv t i (s.returns result) v := by
  have hkept := hi.kept
  have houtside : place t i s.stage = place t i (s.returns result).stage := by
    rw [place_of_ne t i (by simp [hstage]), place_of_ne t i (by simp)]
  rw [houtside] at hkept
  have hflag := hi.resumed result hstage
  refine ⟨hi.shows_, hkept, ?_, fun hw => by simp at hw, fun _ hr => by simp at hr⟩
  rw [returns_since, returns_flag]
  split
  · rfl
  case isFalse hresult =>
    rw [hi.since]
    simpa [hresult] using hflag

variable [DecidableEq D]

theorem Inv.doneTest (hi : Inv t i s v) : Inv t i (s.doneTest d) v := by
  unfold Completion.doneTest
  split
  case isTrue hflag => exact ⟨hi.shows_, hi.kept, hflag.symm, hi.waiting, hi.resumed⟩
  case isFalse hflag => exact ⟨hi.shows_, hi.kept, hi.since, hi.waiting, hi.resumed⟩

variable [DecidableEq U] [DecidableEq I] [Fintype T] [Fintype U]

/-- A done in time finds the thread outside of a wait, suspended, or resumed by a done. -/
theorem Inv.done (hi : Inv t i s v) (htime : s.InTime t) (h : s.done i d = .ok s') :
    ∃ v', Inv t i s' v' := by
  simp only [Completion.done, rtCompletionDone, exec_bind_ok] at h
  obtain ⟨⟨k, flag⟩, hdone, h⟩ := h
  simp only [exec_pure_ok] at h
  subst h
  rw [hi.shows_.isempty] at hdone
  split at hdone
  case isTrue hne =>
    simp only [exec_bind_ok, exec_pure_ok, Prod.mk.injEq] at hdone
    obtain ⟨k₁, hresume, rfl, rfl⟩ := hdone
    obtain ⟨u, rest, hlist, hs'⟩ := hi.shows_.rtIpcListResume hresume
    obtain ⟨hplace, hstat⟩ := (hi.kept.member i u).mp (by simp [hlist])
    -- the list has the one thread that waits
    have hbusy : place t i s.stage u ≠ Option.none := by simp [hplace]
    obtain ⟨rfl, hstage⟩ := place_busy hbusy
    have herror := hi.kept.error u hbusy hstat
    refine ⟨_, hs', hi.kept.wake, rfl, fun _ => ?_, fun _ hr => ?_⟩
    · simp [herror]
    · simp [hstage] at hr
  case isFalse hnil =>
    simp only [exec_pure_ok, Prod.mk.injEq] at hdone
    obtain ⟨rfl, rfl⟩ := hdone
    have hwaits : v.waits i = [] := by simpa using hnil
    refine ⟨v, hi.shows_, hi.kept, rfl, fun hw => ?_, fun result hr => ?_⟩
    · have hawake : (v.thread t).stat ≠ .suspend := by
        intro hsuspend
        have hmem := (hi.kept.member i t).mpr ⟨by simp [show s.stage = .waiting from hw], hsuspend⟩
        simp [hwaits] at hmem
      have herror := htime.1 hw
      rw [hi.shows_.thread] at herror
      simpa [hawake] using herror
    · simpa using htime.2 result hr

omit [DecidableEq D] in
theorem Inv.elsewhere (hi : Inv t i s v) {k : State T U I}
    (h : State.Elsewhere cb (fun u => u = t ∧ s.stage = .waiting) s.kernel k) :
    ∃ v', Inv t i { s with kernel := k } v' := by
  have hbusy : ∀ u, place t i s.stage u ≠ Option.none → u = t ∧ s.stage = .waiting :=
    fun _ => place_busy
  obtain ⟨v', hsteps, hs'⟩ := hi.shows_.elsewhere (hi.kept.members_busy hbusy) h
  refine ⟨v', hs', hi.kept.envs hbusy hsteps, hi.since, fun hw => ?_, hi.resumed⟩
  clear hs'
  induction hsteps with
  | refl => exact hi.waiting hw
  | tail _ hstep ih =>
    cases hstep with
    | other hthread _ =>
      obtain ⟨n, hn⟩ := hthread t ⟨rfl, hw⟩
      rw [hn]
      exact ih
    | timeout u hu hstat =>
      obtain ⟨rfl, -⟩ := hu
      -- no done has come while the thread was suspended
      simpa [hstat] using ih

theorem Inv.step (hi : Inv t i s v) (h : Step cb t i (InTime t) s s') : ∃ v', Inv t i s' v' := by
  cases h with
  | wait timeout hrunning hstage hwait => exact hi.wait hrunning hstage hwait
  | reads hrunning hstage => exact ⟨v, hi.reads hrunning hstage⟩
  | returns result _ hstage => exact ⟨v, hi.returns hstage⟩
  | doneTest d _ => exact ⟨v, hi.doneTest⟩
  | done d _ htime hdone => exact hi.done htime hdone
  | elsewhere helse => exact hi.elsewhere helse

section

omit [DecidableEq D]

theorem Initial.inv (h : Initial cb s) (t : T) (i : I) : ∃ v, Inv t i s v := by
  obtain ⟨k₀, hboot, hruns⟩ := h.reached
  obtain ⟨v, hs⟩ := (State.runs_good hboot hruns).shows
  have hnil : ∀ i, v.waits i = [] := by
    intro i
    have := h.empty i
    rw [hs.isempty] at this
    simpa using this
  refine ⟨v, hs, ?_, h.since.trans h.flag.symm, fun hw => ?_, fun _ hr => ?_⟩
  · rw [place_of_ne t i (by simp [h.stage])]
    constructor <;> simp [hnil]
  · simp [h.stage] at hw
  · simp [h.stage] at hr

theorem Inv.seen (hi : Inv t i s v) : Seen t i s := by
  constructor
  · intro _ hsince timeout
    have hflag : s.flag = true := hi.since ▸ hsince
    simp [rtCompletionWait, hflag, pure, Except.pure]
  · intro _ hsince timeout k flag hwait
    have hflag : s.flag = false := hi.since ▸ hsince
    simp only [rtCompletionWait, hflag, Bool.false_eq_true, if_false, exec_bind_ok] at hwait
    obtain ⟨-, -, hwait⟩ := hwait
    split at hwait
    · simp at hwait
    · simp at hwait
  · intro hw
    rw [hi.since, hi.shows_.thread]
    exact hi.waiting hw
  · intro result hr
    rw [hi.since]
    exact hi.resumed result hr

end

/-! ## Every done is seen -/

/-- Where no done comes between a time-out and the end of its wait, every done is seen. -/
theorem rt_completion_seen (cb : State.Callback T U I) (t : T) (i : I) {s₀ s : Completion T U I D}
    (hi : Initial cb s₀) (hr : Runs cb t i (InTime t) s₀ s) : Seen t i s := by
  have hinv : ∃ v, Inv t i s v := by
    induction hr with
    | refl => exact hi.inv t i
    | tail _ hstep ih =>
      obtain ⟨v, hv⟩ := ih
      exact hv.step hstep
  obtain ⟨v, hv⟩ := hinv
  exact hv.seen

/-- A run, event by event. -/
inductive Event (D : Type) where
  | wait (timeout : Tick)
  | reads
  | returns
  | doneTest (d : D)
  | done (d : D)
  | schedule
  | tick

def play (t : T) (i : I) (may : Completion T U I D → Prop) [∀ s, Decidable (may s)]
    (s : Completion T U I D) : Event D → Exec (Completion T U I D)
  | .wait timeout => do
    rtAssert (s.kernel.rtCurrentThread = some t ∧ (s.kernel.thread t).stat = .ready)
    rtAssert (s.stage = .outside)
    s.wait t i timeout
  | .reads => do
    rtAssert (s.kernel.rtCurrentThread = some t ∧ (s.kernel.thread t).stat = .ready)
    rtAssert (s.stage = .waiting)
    pure (s.reads t)
  | .returns =>
    match s.stage with
    | .resumed result => do
      rtAssert (s.kernel.rtCurrentThread = some t ∧ (s.kernel.thread t).stat = .ready)
      pure (s.returns result)
    | _ => throw .assertion
  | .doneTest d => do
    rtAssert (s.tested d = false)
    pure (s.doneTest d)
  | .done d => do
    rtAssert (s.tested d = true)
    rtAssert (may s)
    s.done i d
  | .schedule => do
    let k ← s.kernel.rtSchedule
    pure { s with kernel := k }
  | .tick => do
    let k ← s.kernel.rtTickIncrease (State.timeoutFunc fun _ _ => []) (Fintype.card (T ⊕ U) + 1)
    pure { s with kernel := k }

theorem play_step {may : Completion T U I D → Prop} [∀ s, Decidable (may s)] {event : Event D}
    (h : play t i may s event = .ok s') : Step (fun _ _ => []) t i may s s' := by
  cases event with
  | wait timeout =>
    simp only [play, exec_bind_ok, rtAssert_eq_ok] at h
    obtain ⟨_, hrunning, _, hstage, hwait⟩ := h
    exact .wait timeout hrunning hstage hwait
  | reads =>
    simp only [play, exec_bind_ok, rtAssert_eq_ok, exec_pure_ok] at h
    obtain ⟨_, hrunning, _, hstage, rfl⟩ := h
    exact .reads hrunning hstage
  | returns =>
    simp only [play] at h
    cases hstage : s.stage with
    | outside => simp [hstage] at h
    | waiting => simp [hstage] at h
    | resumed result =>
      simp only [hstage, exec_bind_ok, rtAssert_eq_ok, exec_pure_ok] at h
      obtain ⟨_, hrunning, rfl⟩ := h
      exact .returns result hrunning hstage
  | doneTest d =>
    simp only [play, exec_bind_ok, rtAssert_eq_ok, exec_pure_ok] at h
    obtain ⟨_, htested, rfl⟩ := h
    exact .doneTest d htested
  | done d =>
    simp only [play, exec_bind_ok, rtAssert_eq_ok] at h
    obtain ⟨_, htested, _, hmay, hdone⟩ := h
    exact .done d htested hmay hdone
  | schedule =>
    simp only [play, exec_bind_ok, exec_pure_ok] at h
    obtain ⟨k, hschedule, rfl⟩ := h
    exact .elsewhere (.call .schedule (by simp [State.Foreign, KernelOp.target])
      (by simp [KernelOp.own]) hschedule)
  | tick =>
    simp only [play, exec_bind_ok, exec_pure_ok] at h
    obtain ⟨k, htick, rfl⟩ := h
    exact .elsewhere (.tick _ (by simp) htick)

instance (t : T) (s : Completion T U I D) : Decidable (InTime t s) :=
  match hs : s.stage with
  | .outside => isTrue ⟨fun h => by simp [hs] at h, fun _ h => by simp [hs] at h⟩
  | .waiting =>
    decidable_of_iff ((s.kernel.thread t).stat = .suspend ∨ (s.kernel.thread t).error = .eok)
      (by simp [InTime, hs])
  | .resumed result => decidable_of_iff (result = .eok) (by simp [InTime, hs])

/-- The completion, after `rt_completion_init`. -/
def init (k : State T U I) : Completion T U I D where
  kernel := k
  flag := false
  stage := .outside
  tested := fun _ => false
  since := false

omit [DecidableEq D] in
theorem init_initial {threads : List (T × Nat)} {k : State T U I}
    (hk : State.booted threads = .ok k)
    (hempty : ∀ i, rtListIsempty (.inl (.suspend i)) k.tlist = true) :
    Initial cb (init k : Completion T U I D) :=
  ⟨State.booted_reached hk, hempty, rfl, rfl, rfl⟩

/-- A thread of priority 10 waits until a done, and then for one tick in vain.  The next done
    is still to be seen. -/
theorem rt_completion_seen_after_timeout :
    ∃ s₀ s : Completion (Fin 2) (Fin 0) (Fin 1) (Fin 1), Initial (fun _ _ => []) s₀ ∧
      Runs (fun _ _ => []) 1 0 (InTime 1) s₀ s ∧ s.since = true ∧ s.stage = .outside ∧
      Seen 1 0 s := by
  let run : Exec (State (Fin 2) (Fin 0) (Fin 1) ×
      Completion (Fin 2) (Fin 0) (Fin 1) (Fin 1)) := do
    let k ← State.booted [(0, 31), (1, 10)]
    let s ← [Event.wait 0xffffffff, .schedule, .doneTest 0, .done 0, .schedule, .reads, .returns,
      .wait 1, .schedule, .tick, .reads, .returns, .doneTest 0, .done 0].foldlM
      (play 1 0 (InTime 1)) (init k)
    pure (k, s)
  obtain ⟨⟨k, s⟩, hrun, hdata⟩ := exec_exists_ok (show
    run.map (fun x => (rtListIsempty (.inl (.suspend 0)) x.1.tlist, x.2.since, x.2.stage)) =
      .ok (true, true, .outside) by decide +kernel)
  simp only [run, exec_bind_ok, exec_pure_ok, Prod.mk.injEq] at hrun
  obtain ⟨k, hk, s, hplay, rfl, rfl⟩ := hrun
  simp only [Prod.mk.injEq] at hdata
  obtain ⟨hempty, hsince, hstage⟩ := hdata
  have hinitial : Initial (fun _ _ => []) (init k : Completion (Fin 2) (Fin 0) (Fin 1) (Fin 1)) :=
    init_initial hk fun i => Subsingleton.elim 0 i ▸ hempty
  have hruns : Runs (fun _ _ => []) 1 0 (InTime 1) (init k) s :=
    foldlM_runs (fun _ _ _ => play_step) hplay
  exact ⟨init k, s, hinitial, hruns, hsince, hstage, rt_completion_seen _ 1 0 hinitial hruns⟩

/-- A done after the time-out of a wait, and before the thread runs again, is lost: the wait
    returns `RT_ETIMEOUT` and clears the flag. -/
theorem rt_completion_done_lost :
    ∃ s₀ s : Completion (Fin 2) (Fin 0) (Fin 1) (Fin 1), Initial (fun _ _ => []) s₀ ∧
      Runs (fun _ _ => []) 1 0 (fun _ => True) s₀ s ∧ s.since = true ∧ s.stage = .outside ∧
      ¬ Seen 1 0 s := by
  let run : Exec (State (Fin 2) (Fin 0) (Fin 1) ×
      Completion (Fin 2) (Fin 0) (Fin 1) (Fin 1)) := do
    let k ← State.booted [(0, 31), (1, 10)]
    let s ← [Event.wait 1, .schedule, .tick, .doneTest 0, .done 0, .reads, .returns].foldlM
      (play 1 0 fun _ => True) (init k)
    pure (k, s)
  obtain ⟨⟨k, s⟩, hrun, hdata⟩ := exec_exists_ok (show
    run.map (fun x => (rtListIsempty (.inl (.suspend 0)) x.1.tlist, x.2.since, x.2.stage,
      x.2.flag, rtListIsempty (.inl (.suspend 0)) x.2.kernel.tlist)) =
      .ok (true, true, .outside, false, true) by decide +kernel)
  simp only [run, exec_bind_ok, exec_pure_ok, Prod.mk.injEq] at hrun
  obtain ⟨k, hk, s, hplay, rfl, rfl⟩ := hrun
  simp only [Prod.mk.injEq] at hdata
  obtain ⟨hempty, hsince, hstage, hflag, hnobody⟩ := hdata
  have hinitial : Initial (fun _ _ => []) (init k : Completion (Fin 2) (Fin 0) (Fin 1) (Fin 1)) :=
    init_initial hk fun i => Subsingleton.elim 0 i ▸ hempty
  have hruns : Runs (fun _ _ => []) 1 0 (fun _ => True) (init k) s :=
    foldlM_runs (fun _ _ _ => play_step) hplay
  refine ⟨init k, s, hinitial, hruns, hsince, hstage, fun hseen => ?_⟩
  have hnext := hseen.next hstage hsince 0
  simp [rtCompletionWait, hflag, hnobody, rtAssert, bind, Except.bind, pure, Except.pure] at hnext

end Completion

end PandoraRobot.Drivers
