import PandoraRobot.Kernel.Blocking

/-! # Semaphores

`rt_sem_take`, `rt_sem_trytake` and `rt_sem_release` of `ipc.c`, on any number of
semaphores.  A stretch of code between `rt_hw_interrupt_disable` and
`rt_hw_interrupt_enable` is one step, and so is what a take does after its
`rt_schedule`.

A release gives its token to the counter or to a waiter.  As long as the counter, of
16 bits, does not overflow, no token is lost.
-/

namespace PandoraRobot.Ipc

open PandoraRobot.Kernel

/-- `struct rt_semaphore`, less its wait list. -/
structure Semaphore where
  value : BitVec 16
  flag : IpcFlag
  deriving DecidableEq, Repr

section Code

variable {T U I : Type} [DecidableEq T] [DecidableEq U] [DecidableEq I] [Fintype T] [Fintype U]

/-- `rt_sem_take` up to `rt_schedule`, called by a thread or, for `none`, in an interrupt.  The
    result is what the call returns, or `none` where its thread has to wait. -/
def rtSemTake (caller : Option T) (i : I) (time : Tick) (sem : Semaphore) (k : State T U I) :
    Exec (State T U I × Semaphore × Option Err) :=
  if 0 < sem.value then pure (k, { sem with value := sem.value - 1 }, some .eok)
  else if time = 0 then pure (k, sem, some .etimeout)
  else
    match caller with
    -- `RT_DEBUG_IN_THREAD_CONTEXT`
    | none => throw .assertion
    | some thread => do
      let k := k.setError thread .eok
      let k ← k.waitOn i thread sem.flag time
      pure (k, sem, none)

/-- `rt_sem_trytake`. -/
def rtSemTrytake (caller : Option T) (i : I) (sem : Semaphore) (k : State T U I) :
    Exec (State T U I × Semaphore × Option Err) :=
  rtSemTake caller i 0 sem k

/-- What `rt_sem_take` returns after `rt_schedule`. -/
def rtSemTakeReturn (thread : T) (k : State T U I) : Err :=
  if (k.thread thread).error ≠ .eok then (k.thread thread).error else .eok

/-- `rt_sem_release`, up to the `rt_schedule` that follows where a thread was resumed.  It
    returns `RT_EOK`. -/
def rtSemRelease (i : I) (sem : Semaphore) (k : State T U I) :
    Exec (State T U I × Semaphore) :=
  if rtListIsempty (.inl (.suspend i)) k.tlist = false then do
    let k ← k.rtIpcListResume i
    pure (k, sem)
  else pure (k, { sem with value := sem.value + 1 })

end Code

/-- The kernel, the semaphores, and where threads wait in `rt_sem_take`. -/
structure Semaphores (T U I : Type) where
  kernel : State T U I
  sem : I → Semaphore
  place : T → Option I
  /-- How many takes have returned `RT_EOK`. -/
  taken : I → Nat
  /-- How many releases have returned `RT_EOK`. -/
  released : I → Nat

namespace Semaphores

variable {T U I : Type} [DecidableEq T] [DecidableEq U] [DecidableEq I] [Fintype T] [Fintype U]

/-- What follows from a call that takes a token or waits for one. -/
def taking (caller : Option T) (i : I) (call : Exec (State T U I × Semaphore × Option Err))
    (s : Semaphores T U I) : Exec (Semaphores T U I) := do
  let (k, sem, out) ← call
  let s := { s with kernel := k, sem := Function.update s.sem i sem }
  match out with
  | some .eok => pure { s with taken := Function.update s.taken i (s.taken i + 1) }
  | some _ => pure s
  | none =>
    match caller with
    | none => pure s
    | some t => pure { s with place := Function.update s.place t (some i) }

def take (caller : Option T) (i : I) (time : Tick) (s : Semaphores T U I) :
    Exec (Semaphores T U I) :=
  s.taking caller i (rtSemTake caller i time (s.sem i) s.kernel)

def trytake (caller : Option T) (i : I) (s : Semaphores T U I) : Exec (Semaphores T U I) :=
  s.taking caller i (rtSemTrytake caller i (s.sem i) s.kernel)

def returns (t : T) (i : I) (s : Semaphores T U I) : Semaphores T U I :=
  let s' := { s with place := Function.update s.place t none }
  if rtSemTakeReturn t s.kernel = .eok then
    { s' with taken := Function.update s.taken i (s.taken i + 1) }
  else s'

def release (i : I) (s : Semaphores T U I) : Exec (Semaphores T U I) := do
  let (k, sem) ← rtSemRelease i (s.sem i) s.kernel
  pure { s with
    kernel := k
    sem := Function.update s.sem i sem
    released := Function.update s.released i (s.released i + 1) }

/-- `t` runs and is in no call. -/
def Free (s : Semaphores T U I) (t : T) : Prop := s.kernel.Running t ∧ s.place t = none

/-- The steps of the system, where a release of `i` is made only when `may` allows it. -/
inductive Step (cb : State.Callback T U I) (may : Semaphores T U I → I → Prop) :
    Semaphores T U I → Semaphores T U I → Prop where
  | take {s s' : Semaphores T U I} (caller : Option T) (i : I) (time : Tick) :
      (∀ t, caller = some t → s.Free t) → s.take caller i time = .ok s' → Step cb may s s'
  | trytake {s s' : Semaphores T U I} (caller : Option T) (i : I) :
      (∀ t, caller = some t → s.Free t) → s.trytake caller i = .ok s' → Step cb may s s'
  /-- `rt_schedule` has returned to a thread that waited. -/
  | returns {s : Semaphores T U I} (t : T) (i : I) : s.kernel.Running t → s.place t = some i →
      Step cb may s (s.returns t i)
  | release {s s' : Semaphores T U I} (i : I) : may s i → s.release i = .ok s' →
      Step cb may s s'
  | elsewhere {s : Semaphores T U I} {k : State T U I} :
      State.Elsewhere cb (fun t => s.place t ≠ none) s.kernel k →
      Step cb may s { s with kernel := k }

abbrev Runs (cb : State.Callback T U I) (may : Semaphores T U I → I → Prop) :
    Semaphores T U I → Semaphores T U I → Prop :=
  Relation.ReflTransGen (Step cb may)

/-- Any kernel state a run reaches in which no thread waits on a semaphore. -/
structure Initial (cb : State.Callback T U I) (s : Semaphores T U I) : Prop where
  reached : ∃ k₀, State.Initial k₀ ∧ State.Runs cb k₀ s.kernel
  empty : ∀ i, rtListIsempty (.inl (.suspend i)) s.kernel.tlist = true
  place : ∀ t, s.place t = none
  taken : ∀ i, s.taken i = 0
  released : ∀ i, s.released i = 0

/-- `t` is suspended in a take of `i`. -/
def Waits (s : Semaphores T U I) (i : I) (t : T) : Prop :=
  s.place t = some i ∧ (s.kernel.thread t).stat = .suspend

instance (s : Semaphores T U I) (i : I) (t : T) : Decidable (s.Waits i t) := by
  unfold Waits
  infer_instance

/-- `t` has been resumed in a take of `i` that has not returned yet. -/
def Resumed (s : Semaphores T U I) (i : I) (t : T) : Prop :=
  s.place t = some i ∧ (s.kernel.thread t).stat ≠ .suspend ∧ (s.kernel.thread t).error = .eok

instance (s : Semaphores T U I) (i : I) (t : T) : Decidable (s.Resumed i t) := by
  unfold Resumed
  infer_instance

/-- No token of `i` is lost or created: `value` is the initial value. -/
structure Conserved (s : Semaphores T U I) (i : I) (value : BitVec 16) : Prop where
  balance : value.toNat + s.released i = (s.sem i).value.toNat + s.taken i +
    (Finset.univ.filter (s.Resumed i)).card
  waits : 0 < (s.sem i).value → ∀ t, ¬ s.Waits i t

/-- The counter is not at its maximum, or a thread waits. -/
def Fits (s : Semaphores T U I) (i : I) : Prop :=
  (s.sem i).value ≠ 0xffff ∨ ∃ t, s.Waits i t

instance (s : Semaphores T U I) (i : I) : Decidable (s.Fits i) := by
  unfold Fits
  infer_instance

/-! ## The account of tokens -/

structure Inv (value : I → BitVec 16) (s : Semaphores T U I) (v : View T I) : Prop where
  shows_ : State.Shows 0 s.kernel v
  kept : View.Kept s.place v
  empty : ∀ i, v.waits i ≠ [] → (s.sem i).value = 0
  balance : ∀ i, (value i).toNat + s.released i =
    (s.sem i).value.toNat + s.taken i + (v.resumed s.place i).card

variable {cb : State.Callback T U I} {may : Semaphores T U I → I → Prop}
  {value : I → BitVec 16} {s s' : Semaphores T U I} {v v' : View T I} {t : T} {i j : I}
  {place : T → Option I}

/-! ## Every step keeps the account -/

theorem Inv.take (hi : Inv value s v) {caller : Option T} {time : Tick}
    (hcaller : ∀ t, caller = some t → s.Free t) (h : s.take caller i time = .ok s') :
    ∃ v', Inv value s' v' := by
  simp only [Semaphores.take, taking, rtSemTake, exec_bind_ok] at h
  obtain ⟨⟨k, sem, out⟩, htake, h⟩ := h
  split at htake
  case isTrue hpos =>
    -- a token is there
    simp only [exec_pure_ok, Prod.mk.injEq] at htake
    obtain ⟨rfl, rfl, rfl⟩ := htake
    simp only [exec_pure_ok] at h
    subst h
    have hnone : v.waits i = [] := by
      by_contra hne
      rw [hi.empty i hne] at hpos
      exact absurd hpos (by decide)
    refine ⟨v, hi.shows_, hi.kept, fun j hj => ?_, fun j => ?_⟩
    · by_cases hji : j = i
      · exact absurd (hji ▸ hnone) hj
      · simpa [hji] using hi.empty j hj
    · have hbalance := hi.balance j
      by_cases hji : j = i
      · subst hji
        have hsub : (s.sem j).value.toNat = ((s.sem j).value - 1).toNat + 1 := by bv_omega
        simp only [Function.update_self]
        omega
      · simpa [hji] using hbalance
  case isFalse hzero =>
    have hvalue : (s.sem i).value = 0 := by bv_omega
    split at htake
    · -- no waiting
      simp only [exec_pure_ok, Prod.mk.injEq] at htake
      obtain ⟨rfl, rfl, rfl⟩ := htake
      simp only [exec_pure_ok] at h
      subst h
      refine ⟨v, hi.shows_, hi.kept, fun j hj => ?_, fun j => ?_⟩
      · simpa using hi.empty j hj
      · simpa using hi.balance j
    · cases caller with
      | none => simp at htake
      | some t =>
        obtain ⟨⟨-, hready⟩, hplace⟩ := hcaller t rfl
        simp only [exec_bind_ok, exec_pure_ok, Prod.mk.injEq] at htake
        obtain ⟨k₁, hwait, rfl, rfl, rfl⟩ := htake
        simp only [exec_pure_ok] at h
        subst h
        have hs := hi.shows_.setError (t := t) .eok
        rw [hi.shows_.thread] at hready
        obtain ⟨xs, ys, hsplit, -, hs'⟩ := hs.waitOn (by simpa using hready) hwait
        have hkept := hi.kept.modify (t := t) (f := fun th => { th with error := .eok }) rfl
          (fun _ _ => rfl)
        refine ⟨_, hs', hkept.enqueue hplace hsplit (by simp), fun j hj => ?_, fun j => ?_⟩
        · by_cases hji : j = i
          · simpa [hji] using hvalue
          · simpa [hji] using hi.empty j (by simpa [hji] using hj)
        · rw [View.resumed_enqueue hplace, View.resumed_modify hplace]
          simpa using hi.balance j

omit [DecidableEq U] [Fintype U] in
theorem Inv.returns (hi : Inv value s v) (hrunning : s.kernel.Running t)
    (hplace : s.place t = some i) : Inv value (s.returns t i) v := by
  obtain ⟨-, hready⟩ := hrunning
  rw [hi.shows_.thread] at hready
  have hstat : (v.thread t).stat ≠ .suspend := by simp [hready]
  have hthread := hi.shows_.thread
  have hkept := hi.kept.leave hstat
  have hcount := View.resumed_leave hplace hstat
  have hbalance : ∀ j, j ≠ i → (value j).toNat + s.released j = (s.sem j).value.toNat +
      s.taken j + (v.resumed (Function.update s.place t none) j).card := by
    intro j hj
    rw [View.resumed_leave_other hplace hj]
    exact hi.balance j
  have hown := hi.balance i
  have hout : rtSemTakeReturn t s.kernel = (v.thread t).error := by
    unfold rtSemTakeReturn
    rw [hthread]
    split <;> simp_all
  unfold Semaphores.returns
  rw [hout]
  split
  case isTrue herror =>
    rw [if_pos herror] at hcount
    refine ⟨hi.shows_, hkept, hi.empty, fun j => ?_⟩
    by_cases hji : j = i
    · subst hji
      simp only [Function.update_self]
      omega
    · simpa [hji] using hbalance j hji
  case isFalse herror =>
    rw [if_neg herror] at hcount
    refine ⟨hi.shows_, hkept, hi.empty, fun j => ?_⟩
    by_cases hji : j = i
    · subst hji
      simp only
      omega
    · exact hbalance j hji

omit [DecidableEq T] [DecidableEq U] [Fintype U] in
theorem Inv.waits_iff (hi : Inv value s v) : s.Waits i t ↔ t ∈ v.waits i := by
  rw [hi.kept.member, Waits, hi.shows_.thread]

theorem Inv.release (hi : Inv value s v) (hfits : s.Fits i) (h : s.release i = .ok s') :
    ∃ v', Inv value s' v' := by
  simp only [Semaphores.release, rtSemRelease, exec_bind_ok] at h
  obtain ⟨⟨k, sem⟩, hrelease, h⟩ := h
  simp only [exec_pure_ok] at h
  subst h
  rw [hi.shows_.isempty] at hrelease
  split at hrelease
  case isTrue hne =>
    -- the token goes to the first waiter
    simp only [exec_bind_ok, exec_pure_ok, Prod.mk.injEq] at hrelease
    obtain ⟨k₁, hresume, rfl, rfl⟩ := hrelease
    obtain ⟨t, rest, hlist, hs'⟩ := hi.shows_.rtIpcListResume hresume
    have hmem : t ∈ v.waits i := by simp [hlist]
    obtain ⟨hplace, hstat⟩ := (hi.kept.member i t).mp hmem
    have herror := hi.kept.error t (by simp [hplace]) hstat
    refine ⟨_, hs', hi.kept.wake, fun j hj => ?_, fun j => ?_⟩
    · have hvalue := hi.empty j (by
        intro hnil
        simp [hnil] at hj)
      simpa using hvalue
    · have hbalance := hi.balance j
      by_cases hji : j = i
      · subst hji
        simp only [Function.update_self]
        rw [View.resumed_wake hplace hstat herror]
        omega
      · rw [View.resumed_wake_other hplace hji]
        simpa [hji] using hbalance
  case isFalse hnone =>
    simp only [exec_pure_ok, Prod.mk.injEq] at hrelease
    obtain ⟨rfl, rfl⟩ := hrelease
    have hnil : v.waits i = [] := by simpa using hnone
    have hmax : (s.sem i).value ≠ 0xffff := by
      apply hfits.resolve_right
      rintro ⟨t, ht⟩
      simp [hi.waits_iff, hnil] at ht
    refine ⟨v, hi.shows_, hi.kept, fun j hj => ?_, fun j => ?_⟩
    · by_cases hji : j = i
      · exact absurd (hji ▸ hnil) hj
      · simpa [hji] using hi.empty j hj
    · have hbalance := hi.balance j
      by_cases hji : j = i
      · subst hji
        have hadd : ((s.sem j).value + 1).toNat = (s.sem j).value.toNat + 1 := by
          have hlt : (s.sem j).value.toNat ≠ 0xffff := fun heq =>
            hmax (BitVec.eq_of_toNat_eq heq)
          rw [BitVec.toNat_add]
          have := (s.sem j).value.isLt
          show ((s.sem j).value.toNat + 1) % 2 ^ 16 = _
          omega
        simp only [Function.update_self, hadd]
        omega
      · simpa [hji] using hbalance

theorem Inv.elsewhere (hi : Inv value s v) {k : State T U I}
    (h : State.Elsewhere cb (fun t => s.place t ≠ none) s.kernel k) :
    ∃ v', Inv value { s with kernel := k } v' := by
  obtain ⟨v', hsteps, hs'⟩ := hi.shows_.elsewhere (hi.kept.members_busy fun _ h => h) h
  have hkept : View.Kept s.place v' ∧ (∀ i, v'.waits i ≠ [] → (s.sem i).value = 0) ∧
      ∀ i, v'.resumed s.place i = v.resumed s.place i := by
    clear hs'
    induction hsteps with
    | refl => exact ⟨hi.kept, hi.empty, fun _ => rfl⟩
    | tail _ hstep ih =>
      obtain ⟨hkept, hempty, hsame⟩ := ih
      refine ⟨hkept.env (fun _ h => h) hstep, fun i hne => hempty i ?_,
        fun i => (View.resumed_env hstep fun _ h => h).trans (hsame i)⟩
      cases hstep with
      | other hthread hwaits => rwa [← hwaits]
      | timeout t hbusy hstat =>
        intro hnil
        simp [hnil] at hne
  obtain ⟨hkept, hempty, hsame⟩ := hkept
  exact ⟨v', hs', hkept, hempty, fun i => by rw [hsame i]; exact hi.balance i⟩

theorem Inv.step (hi : Inv value s v) (h : Step cb Fits s s') : ∃ v', Inv value s' v' := by
  cases h with
  | take caller i time hcaller htake => exact hi.take hcaller htake
  | trytake caller i hcaller htake => exact hi.take hcaller htake
  | returns t i hrunning hplace => exact ⟨v, hi.returns hrunning hplace⟩
  | release i hfits hrelease => exact hi.release hfits hrelease
  | elsewhere helse => exact hi.elsewhere helse

theorem Initial.inv (h : Initial cb s) : ∃ v, Inv (fun i => (s.sem i).value) s v := by
  obtain ⟨k₀, hboot, hruns⟩ := h.reached
  obtain ⟨v, hs⟩ := (State.runs_good hboot hruns).shows
  have hnil : ∀ i, v.waits i = [] := by
    intro i
    have := h.empty i
    rw [hs.isempty] at this
    simpa using this
  refine ⟨v, hs, ?_, fun i hne => absurd (hnil i) hne, fun i => ?_⟩
  · constructor <;> simp [hnil, h.place]
  · have hnone : v.resumed s.place i = ∅ := by simp [View.resumed, h.place]
    rw [hnone]
    simp [h.taken, h.released]

omit [DecidableEq T] [DecidableEq U] [Fintype U] in
theorem Inv.conserved (hi : Inv value s v) (i : I) : Conserved s i (value i) := by
  constructor
  · have hset : Finset.univ.filter (s.Resumed i) = v.resumed s.place i := by
      apply Finset.filter_congr
      intro t _
      rw [Resumed, hi.shows_.thread]
    rw [hset]
    exact hi.balance i
  · intro hpos t hwaits
    have hmem := hi.waits_iff.mp hwaits
    rw [hi.empty i (List.ne_nil_of_mem hmem)] at hpos
    exact absurd hpos (by decide)

/-- Unless a release finds the counter at its maximum and no waiter, no token is lost. -/
theorem tokens_conserved (cb : State.Callback T U I) {s₀ s : Semaphores T U I}
    (hi : Initial cb s₀) (hr : Runs cb Fits s₀ s) (i : I) :
    Conserved s i (s₀.sem i).value := by
  have hinv : ∃ v, Inv (fun i => (s₀.sem i).value) s v := by
    induction hr with
    | refl => exact hi.inv
    | tail _ hstep ih =>
      obtain ⟨v, hv⟩ := ih
      exact hv.step hstep
  obtain ⟨v, hv⟩ := hinv
  exact hv.conserved i

/-- A run, event by event. -/
inductive Event (T I : Type) where
  | take (t : T) (i : I) (time : Tick)
  | trytake (t : T) (i : I)
  | returns (t : T)
  | release (i : I)
  | schedule
  | tick

instance (k : State T U I) (t : T) : Decidable (k.Running t) := by
  unfold State.Running
  infer_instance

def play (may : Semaphores T U I → I → Prop) [∀ s i, Decidable (may s i)]
    (s : Semaphores T U I) : Event T I → Exec (Semaphores T U I)
  | .take t i time => do
    rtAssert (s.kernel.Running t ∧ s.place t = none)
    s.take (some t) i time
  | .trytake t i => do
    rtAssert (s.kernel.Running t ∧ s.place t = none)
    s.trytake (some t) i
  | .returns t =>
    match s.place t with
    | none => throw .assertion
    | some i => do
      rtAssert (s.kernel.Running t)
      pure (s.returns t i)
  | .release i => do
    rtAssert (may s i)
    s.release i
  | .schedule => do
    let k ← s.kernel.rtSchedule
    pure { s with kernel := k }
  | .tick => do
    let k ← s.kernel.rtTickIncrease (State.timeoutFunc fun _ _ => []) (Fintype.card (T ⊕ U) + 1)
    pure { s with kernel := k }

theorem play_step [∀ s i, Decidable (may s i)] {event : Event T I}
    (h : play may s event = .ok s') :
    Step (fun _ _ => []) may s s' := by
  cases event with
  | take t i time =>
    simp only [play, exec_bind_ok, rtAssert_eq_ok] at h
    obtain ⟨_, hfree, htake⟩ := h
    exact .take (some t) i time (fun u hu => Option.some.inj hu ▸ hfree) htake
  | trytake t i =>
    simp only [play, exec_bind_ok, rtAssert_eq_ok] at h
    obtain ⟨_, hfree, htake⟩ := h
    exact .trytake (some t) i (fun u hu => Option.some.inj hu ▸ hfree) htake
  | returns t =>
    simp only [play] at h
    cases hplace : s.place t with
    | none => simp [hplace] at h
    | some i =>
      simp only [hplace, exec_bind_ok, rtAssert_eq_ok, exec_pure_ok] at h
      obtain ⟨_, hrunning, rfl⟩ := h
      exact .returns t i hrunning hplace
  | release i =>
    simp only [play, exec_bind_ok, rtAssert_eq_ok] at h
    obtain ⟨_, hmay, hrelease⟩ := h
    exact .release i hmay hrelease
  | schedule =>
    simp only [play, exec_bind_ok, exec_pure_ok] at h
    obtain ⟨k, hschedule, rfl⟩ := h
    exact .elsewhere (.call .schedule (by simp [State.Foreign, KernelOp.target])
      (by simp [KernelOp.own]) hschedule)
  | tick =>
    simp only [play, exec_bind_ok, exec_pure_ok] at h
    obtain ⟨k, htick, rfl⟩ := h
    exact .elsewhere (.tick _ (by simp) htick)

/-- The semaphores, after initialisation with one value. -/
def init (value : BitVec 16) (k : State T U I) : Semaphores T U I where
  kernel := k
  sem := fun _ => ⟨value, .fifo⟩
  place := fun _ => none
  taken := fun _ => 0
  released := fun _ => 0

theorem init_initial {threads : List (T × Nat)} {k : State T U I}
    (hk : State.booted threads = .ok k)
    (hempty : ∀ i, rtListIsempty (.inl (.suspend i)) k.tlist = true) (value : BitVec 16) :
    Initial cb (init value k) :=
  ⟨State.booted_reached hk, hempty, fun _ => rfl, fun _ => rfl, fun _ => rfl⟩

/-- A thread of priority 10 takes the one token, waits for a second one, gets it, and waits and
    asks for a third one in vain. -/
theorem tokens_conserved_after_timeout :
    ∃ s₀ s : Semaphores (Fin 2) (Fin 0) (Fin 1), Initial (fun _ _ => []) s₀ ∧
      Runs (fun _ _ => []) Fits s₀ s ∧ s.taken 0 = 2 ∧ s.released 0 = 1 ∧
      Conserved s 0 (s₀.sem 0).value := by
  let run : Exec (State (Fin 2) (Fin 0) (Fin 1) × Semaphores (Fin 2) (Fin 0) (Fin 1)) := do
    let k ← State.booted [(0, 31), (1, 10)]
    let s ← [Event.take 1 0 0xffffffff, .take 1 0 5, .schedule, .release 0, .schedule, .returns 1,
      .take 1 0 1, .schedule, .tick, .returns 1, .trytake 1 0].foldlM (play Fits) (init 1 k)
    pure (k, s)
  obtain ⟨⟨k, s⟩, hrun, hdata⟩ := exec_exists_ok (show
    run.map (fun x => (rtListIsempty (.inl (.suspend 0)) x.1.tlist, x.2.taken 0,
      x.2.released 0)) = .ok (true, 2, 1) by decide +kernel)
  simp only [run, exec_bind_ok, exec_pure_ok, Prod.mk.injEq] at hrun
  obtain ⟨k, hk, s, hplay, rfl, rfl⟩ := hrun
  simp only [Prod.mk.injEq] at hdata
  obtain ⟨hempty, htaken, hreleased⟩ := hdata
  have hinitial : Initial (fun _ _ => []) (init 1 k) :=
    init_initial hk (fun i => Subsingleton.elim 0 i ▸ hempty) 1
  have hruns : Runs (fun _ _ => []) Fits (init 1 k) s := foldlM_runs (fun _ _ _ => play_step) hplay
  exact ⟨init 1 k, s, hinitial, hruns, htaken, hreleased, tokens_conserved _ hinitial hruns 0⟩

/-- A release at the maximum, which `rt_sem_init` accepts, loses every token. -/
theorem release_overflows :
    ∃ s₀ s : Semaphores (Fin 2) (Fin 0) (Fin 1), Initial (fun _ _ => []) s₀ ∧
      Runs (fun _ _ => []) (fun _ _ => True) s₀ s ∧ (s₀.sem 0).value = 0xffff ∧
      (s.sem 0).value = 0 ∧ ¬ Conserved s 0 (s₀.sem 0).value := by
  let run : Exec (State (Fin 2) (Fin 0) (Fin 1) × Semaphores (Fin 2) (Fin 0) (Fin 1)) := do
    let k ← State.booted [(0, 31), (1, 10)]
    let s ← [Event.release 0].foldlM (play fun _ _ => True) (init 0xffff k)
    pure (k, s)
  obtain ⟨⟨k, s⟩, hrun, hdata⟩ := exec_exists_ok (show
    run.map (fun x => (rtListIsempty (.inl (.suspend 0)) x.1.tlist, (x.2.sem 0).value,
      x.2.taken 0, x.2.released 0, decide (x.2.place 0 = none ∧ x.2.place 1 = none))) =
      .ok (true, 0, 0, 1, true) by decide +kernel)
  simp only [run, exec_bind_ok, exec_pure_ok, Prod.mk.injEq] at hrun
  obtain ⟨k, hk, s, hplay, rfl, rfl⟩ := hrun
  simp only [Prod.mk.injEq] at hdata
  obtain ⟨hempty, hvalue, htaken, hreleased, hplace⟩ := hdata
  obtain ⟨hplace₀, hplace₁⟩ := of_decide_eq_true hplace
  have hinitial : Initial (fun _ _ => []) (init 0xffff k) :=
    init_initial hk (fun i => Subsingleton.elim 0 i ▸ hempty) 0xffff
  have hruns : Runs (fun _ _ => []) (fun _ _ => True) (init 0xffff k) s :=
    foldlM_runs (fun _ _ _ => play_step) hplay
  refine ⟨init 0xffff k, s, hinitial, hruns, rfl, hvalue, fun hconserved => ?_⟩
  have hnone : Finset.univ.filter (s.Resumed 0) = ∅ := by
    have hplaces : ∀ t, s.place t = none := Fin.forall_fin_two.mpr ⟨hplace₀, hplace₁⟩
    simp [Resumed, hplaces]
  have hbalance := hconserved.balance
  rw [hnone, hvalue, htaken, hreleased] at hbalance
  simp [init] at hbalance

end Semaphores

end PandoraRobot.Ipc
