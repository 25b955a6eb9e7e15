import PandoraRobot.Kernel.ThreadRuns

/-! # Blocking on IPC objects

What the code of an IPC object sees of the kernel is a `View`: the wait lists and the
fields of the threads.  The calls of `ipc.c` change it in one place each.  Whatever
else goes on in the kernel, a thread that is `busy` with an IPC object keeps its
fields and its place in a wait list, or else it times out.
-/

namespace PandoraRobot.Kernel

open PandoraRobot.RingList

/-- The wait lists and the threads. -/
structure View (T I : Type) where
  waits : I → List T
  thread : T → Thread

namespace View

variable {T I : Type} [DecidableEq T]

def modifyThread (t : T) (f : Thread → Thread) (v : View T I) : View T I :=
  { v with thread := Function.update v.thread t (f (v.thread t)) }

variable [DecidableEq I] in
/-- `t` goes into the wait list of `i`, between `xs` and `ys`. -/
def enqueue (i : I) (xs : List T) (t : T) (ys : List T) (v : View T I) : View T I where
  waits := Function.update v.waits i (xs ++ t :: ys)
  thread := Function.update v.thread t { v.thread t with stat := .suspend }

/-- `t` leaves whatever wait list it is in, and is ready. -/
def wake (t : T) (v : View T I) : View T I where
  waits i := (v.waits i).erase t
  thread := Function.update v.thread t { v.thread t with stat := .ready }

/-- What the rest of the system does to the wait lists and to the threads `busy`. -/
inductive Env (busy : T → Prop) : View T I → View T I → Prop where
  | other {v v' : View T I} :
      (∀ t, busy t → ∃ remainingTick,
        v'.thread t = { v.thread t with remainingTick := remainingTick }) →
      v'.waits = v.waits → Env busy v v'
  | timeout {v : View T I} (t : T) : busy t → (v.thread t).stat = .suspend →
      Env busy v ((v.wake t).modifyThread t fun th => { th with error := .etimeout })

/-- A thread of the wait list of `i` is resumed with an error. -/
inductive Aborts (i : I) : View T I → View T I → Prop where
  | abort {v : View T I} (t : T) : t ∈ v.waits i →
      Aborts i v ((v.wake t).modifyThread t fun th => { th with error := .error })

@[simp] theorem modifyThread_waits (t : T) (f : Thread → Thread) (v : View T I) :
    (v.modifyThread t f).waits = v.waits := rfl
@[simp] theorem modifyThread_thread (t : T) (f : Thread → Thread) (v : View T I) :
    (v.modifyThread t f).thread = Function.update v.thread t (f (v.thread t)) := rfl

section

variable [DecidableEq I]

@[simp] theorem enqueue_thread (i : I) (xs ys : List T) (t : T) (v : View T I) :
    (v.enqueue i xs t ys).thread =
      Function.update v.thread t { v.thread t with stat := .suspend } := rfl
@[simp] theorem enqueue_waits (i : I) (xs ys : List T) (t : T) (v : View T I) :
    (v.enqueue i xs t ys).waits = Function.update v.waits i (xs ++ t :: ys) := rfl

end

@[simp] theorem wake_thread (t : T) (v : View T I) :
    (v.wake t).thread = Function.update v.thread t { v.thread t with stat := .ready } := rfl
@[simp] theorem wake_waits (t : T) (v : View T I) (i : I) :
    (v.wake t).waits i = (v.waits i).erase t := rfl

/-! ## Who waits where -/

/-- The wait lists have the threads that are suspended where `place` says, none of them twice,
    and a thread that is there is suspended or has been resumed. -/
structure Kept (place : T → Option I) (v : View T I) : Prop where
  member : ∀ i t, t ∈ v.waits i ↔ place t = some i ∧ (v.thread t).stat = .suspend
  nodup : ∀ i, (v.waits i).Nodup
  stat : ∀ t, place t ≠ none → (v.thread t).stat = .suspend ∨ (v.thread t).stat = .ready
  error : ∀ t, place t ≠ none → (v.thread t).stat = .suspend → (v.thread t).error = .eok

variable {place : T → Option I} {busy : T → Prop} {v v' : View T I} {t : T} {i : I}

omit [DecidableEq T] in
theorem Kept.members_busy (h : Kept place v) (hplace : ∀ t, place t ≠ none → busy t) :
    ∀ i, ∀ t ∈ v.waits i, busy t := by
  intro i t hm
  apply hplace
  simp [((h.member i t).mp hm).1]

theorem Kept.wake (h : Kept place v) : Kept place (v.wake t) := by
  apply Kept.mk
  · intro i u
    rw [wake_waits, (h.nodup i).mem_erase_iff, h.member]
    by_cases hu : u = t
    · subst hu
      simp
    · simp [hu]
  · exact fun i => (h.nodup i).erase t
  · intro u hplace
    by_cases hu : u = t
    · subst hu
      simp
    · simpa [hu] using h.stat u hplace
  · intro u hplace
    by_cases hu : u = t
    · subst hu
      simp
    · simpa [hu] using h.error u hplace

/-- The error of a thread that is not suspended may change, or of one that is nowhere. -/
theorem Kept.modify (h : Kept place v) {f : Thread → Thread}
    (hstat : (f (v.thread t)).stat = (v.thread t).stat)
    (herror : place t ≠ none → (v.thread t).stat = .suspend → (f (v.thread t)).error = .eok) :
    Kept place (v.modifyThread t f) := by
  have hsame : ∀ u, ((v.modifyThread t f).thread u).stat = (v.thread u).stat := by
    intro u
    by_cases hu : u = t
    · subst hu
      simpa using hstat
    · simp [hu]
  apply Kept.mk
  · intro i u
    rw [hsame]
    exact h.member i u
  · exact h.nodup
  · intro u
    rw [hsame]
    exact h.stat u
  · intro u hplace hsuspend
    rw [hsame] at hsuspend
    by_cases hu : u = t
    · subst hu
      simpa using herror hplace hsuspend
    · simpa [hu] using h.error u hplace hsuspend

variable [DecidableEq I] in
theorem Kept.enqueue (h : Kept place v) (hplace : place t = none) {xs ys : List T}
    (hi : v.waits i = xs ++ ys) (herror : (v.thread t).error = .eok) :
    Kept (Function.update place t (some i)) (v.enqueue i xs t ys) := by
  have hnot : ∀ j, t ∉ v.waits j := by
    intro j hm
    have := ((h.member j t).mp hm).1
    rw [hplace] at this
    cases this
  have hmem : ∀ j u, u ∈ (v.enqueue i xs t ys).waits j ↔ (j = i ∧ u = t) ∨ u ∈ v.waits j := by
    intro j u
    by_cases hj : j = i
    · subst hj
      simp only [enqueue_waits, Function.update_self, hi, List.mem_append, List.mem_cons, true_and]
      tauto
    · simp [hj]
  apply Kept.mk
  · intro j u
    rw [hmem]
    by_cases hu : u = t
    · subst hu
      simp [hnot, eq_comm]
    · simp [hu, h.member]
  · intro j
    by_cases hj : j = i
    · subst hj
      have hnd := h.nodup j
      have hfresh := hnot j
      rw [hi] at hnd hfresh
      simp only [enqueue_waits, Function.update_self]
      rw [List.nodup_middle, List.nodup_cons]
      exact ⟨hfresh, hnd⟩
    · simpa [hj] using h.nodup j
  · intro u hne
    by_cases hu : u = t
    · subst hu
      simp
    · simpa [hu] using h.stat u (by simpa [hu] using hne)
  · intro u hne
    by_cases hu : u = t
    · subst hu
      simpa using herror
    · simpa [hu] using h.error u (by simpa [hu] using hne)

/-- A thread that has been resumed goes on. -/
theorem Kept.leave (h : Kept place v) (hstat : (v.thread t).stat ≠ .suspend) :
    Kept (Function.update place t none) v := by
  apply Kept.mk
  · intro i u
    rw [h.member]
    by_cases hu : u = t
    · subst hu
      simp [hstat]
    · simp [hu]
  · exact h.nodup
  · intro u hne
    by_cases hu : u = t
    · subst hu
      simp at hne
    · exact h.stat u (by simpa [hu] using hne)
  · intro u hne
    by_cases hu : u = t
    · subst hu
      simp at hne
    · exact h.error u (by simpa [hu] using hne)

theorem Kept.env (h : Kept place v) (hplace : ∀ t, place t ≠ none → busy t)
    (hstep : Env busy v v') : Kept place v' := by
  cases hstep with
  | other hthread hwaits =>
    have hsame : ∀ u, place u ≠ none → (v'.thread u).stat = (v.thread u).stat ∧
        (v'.thread u).error = (v.thread u).error := by
      intro u hne
      obtain ⟨n, hn⟩ := hthread u (hplace u hne)
      rw [hn]
      exact ⟨rfl, rfl⟩
    apply Kept.mk
    · intro i u
      rw [hwaits, h.member]
      cases hpu : place u with
      | none => simp
      | some j => rw [(hsame u (by simp [hpu])).1]
    · exact hwaits ▸ h.nodup
    · intro u hne
      rw [(hsame u hne).1]
      exact h.stat u hne
    · intro u hne
      rw [(hsame u hne).1, (hsame u hne).2]
      exact h.error u hne
  | timeout u hbusy hstat =>
    apply h.wake.modify rfl
    intro _ hsuspend
    simp at hsuspend

theorem Kept.envs (h : Kept place v) (hplace : ∀ t, place t ≠ none → busy t)
    (hsteps : Relation.ReflTransGen (Env busy) v v') : Kept place v' := by
  induction hsteps with
  | refl => exact h
  | tail _ hstep ih => exact ih.env hplace hstep

theorem Kept.aborts (h : Kept place v) (hsteps : Relation.ReflTransGen (Aborts i) v v') :
    Kept place v' := by
  induction hsteps with
  | refl => exact h
  | tail _ hstep ih =>
    cases hstep with
    | abort u _ =>
      apply ih.wake.modify rfl
      intro _ hsuspend
      simp at hsuspend

/-- One thread, which is at `site` or nowhere, and the others nowhere. -/
def alone (t : T) (site : Option I) : T → Option I := Function.update (fun _ => none) t site

@[simp] theorem alone_self (t : T) (site : Option I) : alone t site t = site := by
  simp [alone]

theorem alone_update (t : T) (site site' : Option I) :
    Function.update (alone t site) t site' = alone t site' := by
  simp [alone]

theorem alone_none (t : T) : alone t (none : Option I) = fun _ => none := by
  simp [alone]

theorem alone_busy {u : T} {site : Option I} (h : alone t site u ≠ none) :
    u = t ∧ site ≠ none := by
  by_cases hu : u = t
  · subst hu
    exact ⟨rfl, by simpa using h⟩
  · simp [alone, hu] at h

variable [DecidableEq I] in
/-- Where one thread waits alone, the list has that thread or nobody. -/
theorem Kept.waits_alone {site : Option I} (h : Kept (alone t site) v) :
    v.waits i = if site = some i ∧ (v.thread t).stat = .suspend then [t] else [] := by
  have hmem (u : T) : u ∈ v.waits i ↔ u = t ∧ site = some i ∧ (v.thread t).stat = .suspend := by
    rw [h.member]
    constructor
    · rintro ⟨hplace, hstat⟩
      have hbusy : alone t site u ≠ none := by simp [hplace]
      obtain ⟨rfl, -⟩ := alone_busy hbusy
      exact ⟨rfl, by simpa using hplace, hstat⟩
    · rintro ⟨rfl, hplace, hstat⟩
      exact ⟨by simpa using hplace, hstat⟩
  split
  case isTrue hwaits =>
    refine List.perm_singleton.mp ((List.perm_ext_iff_of_nodup (h.nodup i) (by simp)).mpr ?_)
    intro u
    simp [hmem, hwaits]
  case isFalse hno =>
    refine List.eq_nil_iff_forall_not_mem.mpr fun u hu => ?_
    exact hno ((hmem u).mp hu).2

/-- The order in which a thread is resumed and its error is set does not matter. -/
theorem wake_error (t : T) (err : Err) (v : View T I) :
    (v.modifyThread t fun th => { th with error := err }).wake t =
      (v.wake t).modifyThread t fun th => { th with error := err } := by
  simp [modifyThread, wake]

/-- No busy thread is put into a wait list by what goes on elsewhere. -/
theorem Env.suspended (hsteps : Relation.ReflTransGen (Env busy) v v') (ht : busy t)
    (hstat : (v'.thread t).stat = .suspend) : (v.thread t).stat = .suspend := by
  induction hsteps with
  | refl => exact hstat
  | tail _ hstep ih =>
    apply ih
    cases hstep with
    | other hthread _ =>
      obtain ⟨n, hn⟩ := hthread t ht
      rw [hn] at hstat
      exact hstat
    | timeout u _ hu =>
      by_cases htu : t = u
      · exact htu ▸ hu
      · simpa [htu] using hstat

variable [DecidableEq I]

/-- As many threads are suspended at `i` as its wait list has members. -/
theorem Kept.card_waits [Fintype T] (h : Kept place v) (i : I) :
    (Finset.univ.filter fun t => place t = some i ∧ (v.thread t).stat = .suspend).card =
      (v.waits i).length := by
  rw [← List.toFinset_card_of_nodup (h.nodup i)]
  congr 1
  ext t
  simp [h.member]

/-! ## Who has been resumed -/

/-- The threads that have been resumed at `i`, and are still there. -/
def resumed [Fintype T] (place : T → Option I) (v : View T I) (i : I) : Finset T :=
  Finset.univ.filter fun t =>
    place t = some i ∧ (v.thread t).stat ≠ .suspend ∧ (v.thread t).error = .eok

section Resumed

variable [Fintype T] {j : I}

section

omit [DecidableEq T]

@[simp] theorem mem_resumed : t ∈ v.resumed place i ↔
    place t = some i ∧ (v.thread t).stat ≠ .suspend ∧ (v.thread t).error = .eok := by
  simp [resumed]

theorem resumed_congr {place' : T → Option I}
    (h : ∀ u, (place' u = some i ∧ (v'.thread u).stat ≠ .suspend ∧ (v'.thread u).error = .eok) ↔
      (place u = some i ∧ (v.thread u).stat ≠ .suspend ∧ (v.thread u).error = .eok)) :
    v'.resumed place' i = v.resumed place i :=
  Finset.filter_congr fun u _ => h u

end

/-- A thread that is resumed is one more of them. -/
theorem resumed_wake (hplace : place t = some i) (hstat : (v.thread t).stat = .suspend)
    (herror : (v.thread t).error = .eok) :
    ((v.wake t).resumed place i).card = (v.resumed place i).card + 1 := by
  have hnot : t ∉ v.resumed place i := by simp [hstat]
  rw [← Finset.card_insert_of_notMem hnot]
  congr 1
  ext u
  by_cases hu : u = t
  · subst hu
    simp [hplace, herror]
  · simp [hu]

theorem resumed_wake_other (hplace : place t = some i) (hj : j ≠ i) :
    (v.wake t).resumed place j = v.resumed place j := by
  apply resumed_congr
  intro u
  by_cases hu : u = t
  · subst hu
    simp [hplace, hj.symm]
  · simp [hu]

/-- A thread that goes on is one less of them, if it was one. -/
theorem resumed_leave (hplace : place t = some i) (hstat : (v.thread t).stat ≠ .suspend) :
    (v.resumed place i).card = (v.resumed (Function.update place t none) i).card +
      if (v.thread t).error = .eok then 1 else 0 := by
  have hset : v.resumed (Function.update place t none) i = (v.resumed place i).erase t := by
    ext u
    by_cases hu : u = t
    · subst hu
      simp
    · simp [hu]
  rw [hset]
  split
  case isTrue herror =>
    have hmem : t ∈ v.resumed place i := by simp [hplace, hstat, herror]
    exact (Finset.card_erase_add_one hmem).symm
  case isFalse herror =>
    have hnot : t ∉ v.resumed place i := by simp [herror]
    rw [Finset.erase_eq_of_notMem hnot, Nat.add_zero]

theorem resumed_leave_other (hplace : place t = some i) (hj : j ≠ i) :
    v.resumed (Function.update place t none) j = v.resumed place j := by
  apply resumed_congr
  intro u
  by_cases hu : u = t
  · subst hu
    simp [hplace, hj.symm]
  · simp [hu]

/-- A thread that is nowhere counts for nothing, whatever its fields. -/
theorem resumed_modify (hplace : place t = none) {f : Thread → Thread} :
    (v.modifyThread t f).resumed place j = v.resumed place j := by
  apply resumed_congr
  intro u
  by_cases hu : u = t
  · subst hu
    simp [hplace]
  · simp [hu]

theorem resumed_enqueue {xs ys : List T} (hplace : place t = none) :
    (v.enqueue i xs t ys).resumed (Function.update place t (some i)) j = v.resumed place j := by
  apply resumed_congr
  intro u
  by_cases hu : u = t
  · subst hu
    simp [hplace]
  · simp [hu]

/-- A thread that times out was suspended before, and has an error after. -/
theorem resumed_env (h : Env busy v v') (hplace : ∀ t, place t ≠ none → busy t) :
    v'.resumed place i = v.resumed place i := by
  apply resumed_congr
  intro u
  cases h with
  | other hthread hwaits =>
    cases hu : place u with
    | none => simp
    | some j =>
      obtain ⟨n, hn⟩ := hthread u (hplace u (by simp [hu]))
      rw [hn]
  | timeout t hbusy hstat =>
    by_cases hu : u = t
    · subst hu
      simp [hstat]
    · simp [hu]

end Resumed

end View

namespace State

variable {T U I : Type}

section

variable [DecidableEq T] [DecidableEq I] [Fintype T] [DecidableEq U] [Fintype U]

/-- The timer of a thread is set to a waiting time and started. -/
def startThreadTimer (t : T) (time : Tick) (k : State T U I) : Exec (State T U I) := do
  let k ← k.liftTimers (·.rtTimerControl (.inl t) .setTime time) Prod.fst
  k.liftTimers (·.rtTimerStart (.inl t)) id

/-- A thread is put into a wait list and, with a waiting time, its timer is started. -/
def waitOn (i : I) (t : T) (flag : IpcFlag) (time : Tick) (k : State T U I) :
    Exec (State T U I) := do
  let k ← k.rtIpcListSuspend i t flag
  if 0 < time.toInt then k.startThreadTimer t time else pure k

end

/-- `t` runs. -/
def Running (k : State T U I) (t : T) : Prop :=
  k.rtCurrentThread = some t ∧ (k.thread t).stat = .ready

/-- What is left of a waiting time that began at tick `start`. -/
def timeLeft (time start : Tick) (k : State T U I) : Tick :=
  if 0 < time.toInt then
    let time := time - (k.timers.rtTick - start)
    if time.toInt < 0 then 0 else time
  else time

/-- `v` is what the IPC objects see of `k`. -/
def Shows (lo : Int) (k : State T U I) (v : View T I) : Prop :=
  ∃ σ zs, Wf lo ∅ k σ zs ∧ (∀ i, σ (.suspend i) = v.waits i) ∧ k.thread = v.thread

variable {lo : Int} {k k' : State T U I} {v : View T I} {t : T} {i : I}

theorem Wf.shows {σ : ListHead I → List T} {zs : List (T ⊕ U)} (hk : Wf lo ∅ k σ zs)
    (hwaits : ∀ i, σ (.suspend i) = v.waits i) (hthread : k.thread = v.thread) : Shows lo k v :=
  ⟨σ, zs, hk, hwaits, hthread⟩

theorem Good.shows (hg : Good lo k) : ∃ v, Shows lo k v := by
  obtain ⟨σ, zs, hk⟩ := hg
  exact ⟨⟨fun i => σ (.suspend i), k.thread⟩, σ, zs, hk, fun _ => rfl, rfl⟩

theorem Shows.good (hs : Shows lo k v) : Good lo k := by
  obtain ⟨σ, zs, hk, -⟩ := hs
  exact ⟨σ, zs, hk⟩

theorem Shows.thread (hs : Shows lo k v) : k.thread = v.thread := by
  obtain ⟨_, _, -, -, hthread⟩ := hs
  exact hthread

theorem Shows.suspended (hs : Shows lo k v) (hm : t ∈ v.waits i) :
    (v.thread t).stat = .suspend := by
  obtain ⟨σ, zs, hk, hwaits, hthread⟩ := hs
  rw [← hthread]
  exact hk.suspended i t (hwaits i ▸ hm)

theorem Shows.nodup (hs : Shows lo k v) (i : I) : (v.waits i).Nodup := by
  obtain ⟨σ, zs, hk, hwaits, -⟩ := hs
  exact hwaits i ▸ hk.holds.nodup _

theorem Shows.disjoint (hs : Shows lo k v) {j : I} (hi : t ∈ v.waits i) (hj : t ∈ v.waits j) :
    i = j := by
  obtain ⟨σ, zs, hk, hwaits, -⟩ := hs
  have := hk.holds.disjoint (.suspend i) (.suspend j) t (hwaits i ▸ hi) (hwaits j ▸ hj)
  cases this
  rfl

variable [DecidableEq T] [DecidableEq I] in
theorem Shows.isempty (hs : Shows lo k v) (i : I) :
    rtListIsempty (.inl (.suspend i)) k.tlist = decide (v.waits i = []) := by
  obtain ⟨σ, zs, hk, hwaits, -⟩ := hs
  rw [← hwaits i]
  exact decide_eq_decide.mpr (hk.holds.next_head_eq_self _)

theorem Shows.next_head (hs : Shows lo k v) (i : I) :
    k.tlist.next (.inl (.suspend i)) = firstOr (.suspend i) (v.waits i) := by
  obtain ⟨σ, zs, hk, hwaits, -⟩ := hs
  rw [← hwaits i]
  exact hk.holds.next_head _

/-- The node after `t` in a wait list. -/
theorem Shows.next (hs : Shows lo k v) {xs ys : List T} (hi : v.waits i = xs ++ t :: ys) :
    k.tlist.next (.inr t) = firstOr (.suspend i) ys := by
  obtain ⟨σ, zs, hk, hwaits, -⟩ := hs
  have hadj := (hk.holds.adjacent (.suspend i) (xs ++ [t]) ys (by simp [hwaits, hi])).1
  rwa [lastOr_concat] at hadj

/-! ## Calls -/

variable [DecidableEq T]

/-- Fields the scheduler does not look at may change. -/
theorem Shows.modify (hs : Shows lo k v) {f : Thread → Thread}
    (hf : ∀ th, (f th).type = th.type ∧ (f th).stat = th.stat ∧
      (f th).currentPriority = th.currentPriority ∧ (f th).initPriority = th.initPriority ∧
      (f th).numberMask = th.numberMask) :
    Shows lo (k.modifyThread t f) (v.modifyThread t f) := by
  obtain ⟨σ, zs, hk, hwaits, hthread⟩ := hs
  exact ⟨σ, zs, hk.modify hf, hwaits, by simp [hthread]⟩

theorem Shows.setError (hs : Shows lo k v) (err : Err) :
    Shows lo (k.setError t err) (v.modifyThread t fun th => { th with error := err }) :=
  hs.modify fun _ => ⟨rfl, rfl, rfl, rfl, rfl⟩

variable [Fintype T] [DecidableEq U] [Fintype U]

theorem Wf.startThreadTimer {out : Set T} {σ : ListHead I → List T} {zs : List (T ⊕ U)}
    (hk : Wf lo out k σ zs) (hstat : (k.thread t).stat = .suspend) {time : Tick}
    (h : k.startThreadTimer t time = .ok k') :
    ∃ zs', Wf lo out k' σ zs' ∧ k'.thread = k.thread ∧ SameRun k k' ∧
      Touches t k σ zs k' σ zs' := by
  simp only [State.startThreadTimer, exec_bind_ok] at h
  obtain ⟨k₁, hset, hstart⟩ := h
  have hsame := (liftTimers_sameRun hset).trans (liftTimers_sameRun hstart)
  obtain ⟨s₁, hexec₁, rfl⟩ := liftTimers_setTime hset
  obtain ⟨s₂, hexec₂, rfl⟩ := liftTimers_eq_ok.mp hstart
  obtain ⟨zs₁, hk₁, heff₁, htick₁⟩ := hk.timerOp hexec₁ (fun _ _ => ⟨rfl, by simp⟩)
    (by simp [TimerOp.timer]) (fun _ _ hop => by cases hop)
  have hstarted : (TimerOp.start (.inl t)).exec s₁ = .ok s₂ := hexec₂
  obtain ⟨zs₂, hk₂, heff₂, htick₂⟩ := hk₁.timerOp hstarted (fun _ _ => ⟨rfl, by simp⟩)
    (by simp [TimerOp.timer]) (fun u _ hop => by
      simp only [TimerOp.start.injEq, Sum.inl.injEq] at hop
      exact .inl (hop ▸ hstat))
  have htouch₁ : Touches t k σ zs (k.withTimers s₁) σ zs₁ := .timerOp heff₁ rfl htick₁
  have htouch₂ : Touches t (k.withTimers s₁) σ zs₁ ((k.withTimers s₁).withTimers s₂) σ zs₂ :=
    .timerOp heff₂ rfl htick₂
  exact ⟨zs₂, hk₂, rfl, hsame, htouch₁.trans htouch₂⟩

theorem Shows.startThreadTimer (hs : Shows lo k v) (hstat : (v.thread t).stat = .suspend)
    {time : Tick} (h : k.startThreadTimer t time = .ok k') : Shows lo k' v := by
  obtain ⟨σ, zs, hk, hwaits, hthread⟩ := hs
  obtain ⟨zs', hk', hsame, -⟩ := hk.startThreadTimer (hthread ▸ hstat) h
  exact ⟨σ, zs', hk', hwaits, hsame.trans hthread⟩

/-- Where a thread goes in the wait list `xs ++ ys`. -/
def View.Position (flag : IpcFlag) (v : View T I) (t : T) (xs ys : List T) : Prop :=
  match flag with
  | .fifo => ys = []
  | .prio => (∀ x ∈ xs, (v.thread x).currentPriority ≤ (v.thread t).currentPriority) ∧
      ∀ y ∈ ys.head?, (v.thread t).currentPriority < (v.thread y).currentPriority

variable [DecidableEq I]

/-- A running thread goes into a wait list. -/
theorem Shows.rtIpcListSuspend (hs : Shows lo k v) (hstat : (v.thread t).stat = .ready)
    {flag : IpcFlag} (h : k.rtIpcListSuspend i t flag = .ok k') :
    ∃ xs ys, v.waits i = xs ++ ys ∧ View.Position flag v t xs ys ∧
      Shows lo k' (v.enqueue i xs t ys) := by
  obtain ⟨σ, zs, hk, hwaits, hthread⟩ := hs
  obtain ⟨xs, ys, zs', hσ, hposition, -, hk', -, hthread', -⟩ :=
    hk.rtIpcListSuspend (by simp) (hthread ▸ hstat) h
  refine ⟨xs, ys, (hwaits i) ▸ hσ, ?_, _, zs', hk', fun j => ?_, by simp [hthread', hthread]⟩
  · cases flag with
    | fifo => exact hposition
    | prio => simpa only [WaitPosition, View.Position, hthread] using hposition
  · have hnot : ∀ j, t ∉ σ (.suspend j) := by
      intro j hm
      have := hk.suspended j t hm
      rw [hthread, hstat] at this
      cases this
    by_cases hj : j = i
    · subst hj
      simp
    · rw [insertAt_other (by simpa using hj), erase_of_notMem (hnot j), hwaits j]
      simp [hj]

theorem Shows.waitOn (hs : Shows lo k v) (hstat : (v.thread t).stat = .ready)
    {flag : IpcFlag} {time : Tick} (h : k.waitOn i t flag time = .ok k') :
    ∃ xs ys, v.waits i = xs ++ ys ∧ View.Position flag v t xs ys ∧
      Shows lo k' (v.enqueue i xs t ys) := by
  simp only [State.waitOn, exec_bind_ok] at h
  obtain ⟨k₁, hsuspend, h⟩ := h
  obtain ⟨xs, ys, hsplit, hposition, hs₁⟩ := hs.rtIpcListSuspend hstat hsuspend
  refine ⟨xs, ys, hsplit, hposition, ?_⟩
  split at h
  · exact hs₁.startThreadTimer (by simp) h
  · simp only [exec_pure_ok] at h
    exact h ▸ hs₁

/-- A running thread is suspended, and goes into no wait list. -/
theorem Shows.rtThreadSuspend (hs : Shows lo k v) (hstat : (v.thread t).stat = .ready)
    {err : Err} (h : k.rtThreadSuspend t = .ok (k', err)) :
    Shows lo k' (v.modifyThread t fun th => { th with stat := .suspend }) := by
  obtain ⟨σ, zs, hk, hwaits, hthread⟩ := hs
  obtain ⟨-, ⟨-, -, hne⟩ | ⟨-, -, s, zs', rfl, -, hk', -⟩⟩ := hk.rtThreadSuspend (by simp) h
  · exact absurd (hthread ▸ hstat) hne
  · refine ⟨_, zs', hk', fun i => ?_, by simp [hthread]⟩
    have hnot : t ∉ v.waits i := by
      intro hm
      have := hk.suspended i t (hwaits i ▸ hm)
      rw [hthread, hstat] at this
      cases this
    rw [erase, hwaits i, List.erase_of_not_mem hnot]
    rfl

/-- A waiting thread is resumed. -/
theorem Shows.rtThreadResume (hs : Shows lo k v) (hstat : (v.thread t).stat = .suspend)
    {err : Err} (h : k.rtThreadResume t = .ok (k', err)) : Shows lo k' (v.wake t) := by
  obtain ⟨σ, zs, hk, hwaits, hthread⟩ := hs
  obtain ⟨-, ⟨-, -, hne⟩ | ⟨-, -, s, zs', σ', rfl, -, hσ', hk', -⟩⟩ :=
    hk.rtThreadResume (by simp) h
  · exact absurd (hthread ▸ hstat) hne
  · refine ⟨σ', zs', hk', fun j => ?_, by simp [hthread]⟩
    rw [hσ', pushBack_other (by simp), erase, hwaits j]
    rfl

theorem Shows.rtThreadResume_returns (hs : Shows lo k v) (hstat : (v.thread t).stat = .suspend) :
    ∃ k', k.rtThreadResume t = .ok (k', .eok) ∧ Shows lo k' (v.wake t) := by
  obtain ⟨σ, zs, hk, hwaits, hthread⟩ := hs
  obtain ⟨k', hresume⟩ := hk.rtThreadResume_returns (by simp) (hthread ▸ hstat)
  exact ⟨k', hresume, Shows.rtThreadResume ⟨σ, zs, hk, hwaits, hthread⟩ hstat hresume⟩

/-- The thread at the front of a wait list is resumed. -/
theorem Shows.rtIpcListResume (hs : Shows lo k v) (h : k.rtIpcListResume i = .ok k') :
    ∃ t rest, v.waits i = t :: rest ∧ Shows lo k' (v.wake t) := by
  unfold State.rtIpcListResume at h
  rw [hs.next_head i] at h
  cases hlist : v.waits i with
  | nil => simp [hlist] at h
  | cons t rest =>
    simp only [hlist, firstOr_cons, exec_bind_ok, exec_pure_ok] at h
    obtain ⟨⟨k₁, err⟩, hresume, rfl⟩ := h
    exact ⟨t, rest, rfl, hs.rtThreadResume (hs.suspended (i := i) (by simp [hlist])) hresume⟩

/-- All threads of a wait list are resumed with an error. -/
theorem Shows.rtIpcListResumeAll (hs : Shows lo k v) {fuel : Nat}
    (hfuel : (v.waits i).length < fuel) :
    ∃ k' v', State.rtIpcListResumeAll i fuel k = .ok k' ∧ Shows lo k' v' ∧ v'.waits i = [] ∧
      Relation.ReflTransGen (View.Aborts i) v v' := by
  induction fuel generalizing k v with
  | zero => simp at hfuel
  | succ fuel ih =>
    unfold State.rtIpcListResumeAll
    rw [hs.next_head i]
    cases hlist : v.waits i with
    | nil => exact ⟨k, v, rfl, hs, hlist, .refl⟩
    | cons t rest =>
      have hmem : t ∈ v.waits i := by simp [hlist]
      obtain ⟨k₁, hresume, hs₁⟩ := (hs.setError (t := t) .error).rtThreadResume_returns (t := t)
        (by simpa using hs.suspended hmem)
      rw [View.wake_error] at hs₁
      rw [hlist, List.length_cons, Nat.succ_lt_succ_iff] at hfuel
      obtain ⟨k', v', hrest, hs', hnil, hsteps⟩ := ih hs₁ (by simpa [hlist] using hfuel)
      refine ⟨k', v', ?_, hs', hnil, .head (.abort t hmem) hsteps⟩
      simpa [hresume, bind, Except.bind] using hrest

/-! ## The rest of the system -/

/-- A call that is no business of the threads `busy` and of no IPC object. -/
def Foreign (busy : T → Prop) (op : KernelOp T U I) : Prop :=
  (∀ i, op ≠ .listResume i) ∧ op ≠ .enterCritical ∧ op ≠ .exitCritical ∧
    ∀ t, busy t → op.target ≠ some t

/-- A step of the kernel that is no business of the threads `busy`: a call that another thread
    or an interrupt makes, or a tick. -/
inductive Elsewhere (cb : Callback T U I) (busy : T → Prop) :
    State T U I → State T U I → Prop where
  | call {k k' : State T U I} (op : KernelOp T U I) : Foreign busy op →
      (op.own = true → ∀ t, busy t → k.rtCurrentThread ≠ some t) → op.exec k = .ok k' →
      Elsewhere cb busy k k'
  | tick {k k' : State T U I} (fuel : Nat) :
      (∀ u k, ∀ op ∈ cb u k, op.own = false ∧ Foreign busy op) →
      k.rtTickIncrease (timeoutFunc cb) fuel = .ok k' → Elsewhere cb busy k k'

variable {cb : Callback T U I} {busy : T → Prop}

omit [DecidableEq T] [DecidableEq I] [Fintype T] [DecidableEq U] [Fintype U] in
theorem Foreign.subject_ne {op : KernelOp T U I} (hop : Foreign busy op)
    (hown : op.own = true → ∀ t, busy t → k.rtCurrentThread ≠ some t) (ht : busy t) :
    op.subject k ≠ some t := by
  obtain ⟨hlist, -, -, htarget⟩ := hop
  cases op with
  | listResume i => exact absurd rfl (hlist i)
  | yield | sleep | exit | enterCritical | exitCritical => exact hown rfl t ht
  | schedule | timer => exact fun h => by cases h
  | _ => exact htarget t ht

/-- Steps of the view that leave every member of a wait list busy. -/
structure Reaches (lo : Int) (busy : T → Prop) (v : View T I) (k' : State T U I)
    (v' : View T I) : Prop where
  steps : Relation.ReflTransGen (View.Env busy) v v'
  shows_ : Shows lo k' v'
  members : ∀ i, ∀ t ∈ v'.waits i, busy t

/-- A call elsewhere leaves the view as it is, for the threads `busy`. -/
theorem Reaches.foreign {v₀ : View T I} (hr : Reaches lo busy v₀ k v) {op : KernelOp T U I}
    (hop : Foreign busy op) (hown : op.own = true → ∀ t, busy t → k.rtCurrentThread ≠ some t)
    (h : op.exec k = .ok k') : ∃ v', Reaches lo busy v₀ k' v' := by
  obtain ⟨σ, zs, hk, hwaits, hthread⟩ := hr.shows_
  obtain ⟨σ', zs', hk', huntouched, hlists⟩ := hk.exec (by simp) h
  have hsame : ∀ i, σ' (.suspend i) = v.waits i := by
    intro i
    rw [hlists i, hwaits i]
    intro t hsub hm
    exact hop.subject_ne hown (hr.members i t (hwaits i ▸ hm)) hsub
  refine ⟨⟨v.waits, k'.thread⟩, hr.steps.tail (.other (fun t ht => ?_) rfl),
    ⟨σ', zs', hk', hsame, rfl⟩, hr.members⟩
  have hkept := (huntouched t (hop.subject_ne hown ht)).thread
  rwa [hthread] at hkept

theorem Reaches.foreigns {v₀ : View T I} {ops : List (KernelOp T U I)}
    (hr : Reaches lo busy v₀ k v) (hops : ∀ op ∈ ops, op.own = false ∧ Foreign busy op)
    (h : ops.foldlM (fun k op => op.exec k) k = .ok k') : ∃ v', Reaches lo busy v₀ k' v' := by
  induction ops generalizing k v with
  | nil =>
    simp only [List.foldlM_nil, exec_pure_ok] at h
    exact ⟨v, h ▸ hr⟩
  | cons op ops ih =>
    simp only [List.foldlM_cons, exec_bind_ok] at h
    obtain ⟨k₁, hexec, hrest⟩ := h
    obtain ⟨hown, hop⟩ := hops op (by simp)
    obtain ⟨v₁, hr₁⟩ := hr.foreign hop (by simp [hown]) hexec
    exact ih hr₁ (fun op hm => hops op (by simp [hm])) hrest

omit [Fintype T] [DecidableEq U] [Fintype U] in
/-- The start of a tick interrupt changes time slices and ready lists. -/
theorem Reaches.begin {v₀ : View T I} (hr : Reaches 0 busy v₀ k v)
    (h : k.rtTickBegin = .ok k') : ∃ v', Reaches (-1) busy v₀ k' v' := by
  obtain ⟨σ, zs, hk, hwaits, hthread⟩ := hr.shows_
  cases hcur : k.rtCurrentThread with
  | none => simp [State.rtTickBegin, rtThreadSelf, hcur] at h
  | some u =>
    obtain ⟨σ', hk', -, -, hfields, -, hlists⟩ := hk.rtTickBegin hcur h
    refine ⟨⟨v.waits, k'.thread⟩, hr.steps.tail (.other (fun t _ => ?_) rfl),
      ⟨σ', zs, hk', fun i => (hlists i).trans (hwaits i), rfl⟩, hr.members⟩
    obtain ⟨n, hn⟩ := hfields t
    exact ⟨n, by rw [← hthread]; exact hn⟩

/-- A timer that fires is that of a waiting thread, which times out, or it calls elsewhere. -/
theorem Reaches.fire {v₀ : View T I} (hr : Reaches (-1) busy v₀ k v)
    (hcb : ∀ u k, ∀ op ∈ cb u k, op.own = false ∧ Foreign busy op) {x : T ⊕ U}
    (hnext : k.timers.rtTimerList.next (.inl ()) = .inr x)
    (h : (host (timeoutFunc cb)).fire x k = .ok k') : ∃ v', Reaches (-1) busy v₀ k' v' := by
  obtain ⟨σ, zs, hk, hwaits, hthread⟩ := hr.shows_
  obtain ⟨rest, hzs⟩ := Holds.next_head_eq_elem hk.sorted.linked hnext
  change zs = x :: rest at hzs
  subst hzs
  cases x with
  | inl t =>
    obtain ⟨hstat, σ', zs', hσ', hk', -, -, hthread', -⟩ := hk.fireThread (by simp) h
    have hlists : ∀ i, σ' (.suspend i) = (v.waits i).erase t := by
      intro i
      rw [hσ', pushBack_other (by simp), erase, hwaits i]
    by_cases ht : busy t
    · refine ⟨_, hr.steps.tail (.timeout t ht (hthread ▸ hstat)), ⟨σ', zs', hk', hlists, ?_⟩,
        fun i u hm => hr.members i u (List.mem_of_mem_erase hm)⟩
      rw [hthread', hthread]
      simp
    · -- a thread that is not busy is in no wait list
      have hnot : ∀ i, t ∉ v.waits i := fun i hm => ht (hr.members i t hm)
      refine ⟨⟨v.waits, k'.thread⟩, hr.steps.tail (.other (fun u hu => ?_) rfl),
        ⟨σ', zs', hk', fun i => ?_, rfl⟩, hr.members⟩
      · have hne : u ≠ t := fun heq => ht (heq ▸ hu)
        have hkept : k'.thread u = v.thread u := by
          rw [hthread', hthread, Function.update_of_ne hne]
        exact ⟨_, hkept⟩
      · rw [hlists i, List.erase_of_not_mem (hnot i)]
  | inr u =>
    obtain ⟨k₁, hcall, hend⟩ := TimerHost.fire_cases h
    have hremoved : Reaches (-1) busy v₀ (k.withTimers (k.timers.rtTimerRemove (.inr u))) v :=
      ⟨hr.steps, ⟨σ, rest, hk.removeFront, hwaits, hthread⟩, hr.members⟩
    obtain ⟨v₁, hr₁⟩ := hremoved.foreigns (hcb u _) hcall
    obtain ⟨σ₁, zs₁, hk₁, hwaits₁, hthread₁⟩ := hr₁.shows_
    obtain ⟨zs', hk', -, huntouched⟩ := hk₁.fireEnd hend
    refine ⟨⟨v₁.waits, k'.thread⟩, hr₁.steps.tail (.other (fun t _ => ?_) rfl),
      ⟨σ₁, zs', hk', hwaits₁, rfl⟩, hr₁.members⟩
    have hkept := (huntouched t).thread
    rwa [hthread₁] at hkept

/-- Whatever happens elsewhere, a busy thread keeps its fields and its place, or times out. -/
theorem Shows.elsewhere (hs : Shows 0 k v) (hmembers : ∀ i, ∀ t ∈ v.waits i, busy t)
    (h : Elsewhere cb busy k k') :
    ∃ v', Relation.ReflTransGen (View.Env busy) v v' ∧ Shows 0 k' v' := by
  have hr : Reaches 0 busy v k v := ⟨.refl, hs, hmembers⟩
  cases h with
  | call op hop hown hexec =>
    obtain ⟨v', hr'⟩ := hr.foreign hop hown hexec
    exact ⟨v', hr'.steps, hr'.shows_⟩
  | tick fuel hcb htick =>
    obtain ⟨hin, hfront⟩ := inTick_of_rtTickIncrease htick
    have hends : ∃ v', Reaches (-1) busy v k' v' := by
      clear hfront htick
      induction hin with
      | check hbegin => exact hr.begin hbegin
      | fire x _ hnext _ hfired ih =>
        obtain ⟨v₁, hr₁⟩ := ih
        exact hr₁.fire hcb hnext hfired
    obtain ⟨v', hr'⟩ := hends
    obtain ⟨σ, zs, hk, hwaits, hthread⟩ := hr'.shows_
    exact ⟨v', hr'.steps, σ, zs, hk.mono fun x hx => hfront x (hk.next_timer hx), hwaits,
      hthread⟩

end State

end PandoraRobot.Kernel
