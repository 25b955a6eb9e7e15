import PandoraRobot.Ipc.Mutex

/-! # Runs of mutex calls

Every run of `rt_mutex_take` and `rt_mutex_release` keeps the mutexes and the wait lists in step,
and a mutex is owned by one thread as long as that has takes to give back: unless it gives back
the first of 257, where `hold`, of 8 bits, stands at one.
-/

namespace PandoraRobot.Ipc

open PandoraRobot.Kernel

namespace Mutexes

variable {T U I : Type} [DecidableEq T] [DecidableEq I]

variable {k k' : State T U I} {v v' : View T I} {t : T} {i : I} {time : Tick}
  {mutex mutex' : Mutex T} {out : Option Err} {err : Err}

/-! ## What every run keeps -/

/-- A mutex is free, or it is owned and has an original priority. -/
structure MutexOk (mutex : Mutex T) : Prop where
  free : mutex.owner = none → mutex.value = 1 ∧ mutex.hold = 0
  owned : ∀ t, mutex.owner = some t →
    mutex.value = 0 ∧ mutex.originalPriority < rtThreadPriorityMax

/-- Whatever the priorities, and however deep the nesting is. -/
structure Linked (s : Mutexes T U I) (v : View T I) : Prop where
  shows_ : State.Shows 0 s.kernel v
  kept : View.Kept s.place v
  mutex : ∀ i, MutexOk (s.mutex i)
  /-- Who waits for a mutex waits for its owner. -/
  waits : ∀ i, ∀ t ∈ v.waits i, ∃ o, (s.mutex i).owner = some o ∧ o ≠ t
  error : ∀ t, s.place t ≠ none → (v.thread t).error ≠ .eintr

/-- A step, as the mutexes and the view see it. -/
inductive Change (s : Mutexes T U I) (v : View T I) :
    MutexCall T U I → Mutexes T U I → View T I → Prop where
  | take {k : State T U I} {mutex : Mutex T} {out : Option Err} {v' : View T I} (t : T) (i : I)
      (time : Tick) : s.place t = none → (v.thread t).stat = .ready →
      TakeOut (s.mutex i) v t i time mutex out v' →
      Change s v (.take t i time) (s.taking t i time (k, mutex, out)) v'
  | returns (t : T) (i : I) : s.place t = some i → (v.thread t).stat = .ready →
      Change s v (.returns t)
        (s.taking t i (s.time t) (s.kernel, s.mutex i, some (v.thread t).error)) v
  | release {k : State T U I} {mutex : Mutex T} {err : Err} {v' : View T I} (t : T) (i : I) :
      s.place t = none → (v.thread t).stat = .ready → ReleaseOut (s.mutex i) v t i mutex err v' →
      Change s v (.release t i) (s.releasing t i (k, mutex, err)) v'
  | changePriority {k : State T U I} (t : T) (priority : Fin rtThreadPriorityMax) :
      Change s v (.changePriority t priority) { s with kernel := k } (v.setPriority t priority)
  | elsewhere {k : State T U I} {v' : View T I} :
      Relation.ReflTransGen (View.Env fun t => s.place t ≠ none) v v' →
      Change s v (.elsewhere k) { s with kernel := k } v'

variable {cb : State.Callback T U I} {s s' : Mutexes T U I} {call : MutexCall T U I}

variable [DecidableEq U] [Fintype T] [Fintype U] in
theorem Linked.change (h : Linked s v) (hstep : Step cb s call s') :
    ∃ v', State.Shows 0 s'.kernel v' ∧ Change s v call s' v' := by
  cases hstep with
  | take t i time hfree htake =>
    simp only [Mutexes.take, exec_bind_ok, exec_pure_ok] at htake
    obtain ⟨⟨k, mutex, out⟩, htake, rfl⟩ := htake
    have hready : (v.thread t).stat = .ready := h.shows_.thread ▸ hfree.1.2
    obtain ⟨v', hs', hout⟩ := rtMutexTake_out h.shows_ hready htake
    refine ⟨v', ?_, .take t i time hfree.2 hready hout⟩
    simp only [taking]
    split <;> exact hs'
  | returns t i hrunning hplace hreturns =>
    simp only [Mutexes.returns, rtMutexTakeReturn, exec_bind_ok, exec_pure_ok] at hreturns
    obtain ⟨out, hreturns, rfl⟩ := hreturns
    have hready : (v.thread t).stat = .ready := h.shows_.thread ▸ hrunning.2
    have herror := h.error t (by simp [hplace])
    rw [h.shows_.thread] at hreturns
    have hout : out = (s.kernel, s.mutex i, some (v.thread t).error) := by
      by_cases heok : (v.thread t).error = .eok
      · rw [if_neg (not_not.mpr heok)] at hreturns
        rw [heok]
        exact (Except.ok.inj hreturns).symm
      · rw [if_pos heok, if_neg herror] at hreturns
        exact (Except.ok.inj hreturns).symm
    subst hout
    refine ⟨v, ?_, .returns t i hplace hready⟩
    simp only [taking]
    split <;> exact h.shows_
  | release t i hfree hrelease =>
    simp only [Mutexes.release, exec_bind_ok, exec_pure_ok] at hrelease
    obtain ⟨⟨k, mutex, err⟩, hrelease, rfl⟩ := hrelease
    have hready : (v.thread t).stat = .ready := h.shows_.thread ▸ hfree.1.2
    obtain ⟨v', hs', hout⟩ := rtMutexRelease_out h.shows_ hready hrelease
    refine ⟨v', ?_, .release t i hfree.2 hready hout⟩
    simp only [releasing]
    split <;> exact hs'
  | changePriority t priority hcontrol =>
    exact ⟨_, h.shows_.changePriority priority.isLt hcontrol, .changePriority t priority⟩
  | elsewhere helse =>
    obtain ⟨v', hsteps, hs'⟩ :=
      h.shows_.elsewhere (h.kept.members_busy fun _ hplace => hplace) helse
    exact ⟨v', hs', .elsewhere hsteps⟩

theorem TakeOut.ok (hout : TakeOut mutex v t i time mutex' out v') (h : MutexOk mutex)
    (hlt : (v.thread t).currentPriority < rtThreadPriorityMax) : MutexOk mutex' := by
  cases hout with
  | nested howner =>
    refine ⟨fun hnone => ?_, h.owned⟩
    have hfree : mutex.owner = none := hnone
    rw [howner] at hfree
    cases hfree
  | acquired howner hpos =>
    have hfree : mutex.owner = none := by
      by_contra hne
      obtain ⟨o, ho⟩ := Option.ne_none_iff_exists'.mp hne
      rw [(h.owned o ho).1] at hpos
      exact absurd hpos (by decide)
    refine ⟨fun hnone => ?_, fun u _ => ⟨?_, hlt⟩⟩
    · simp [Mutex.acquire] at hnone
    · rw [Mutex.acquire, (h.free hfree).1]
      exact (by decide : (1 : BitVec 16) - 1 = 0)
  | refused => exact h
  | blocked => exact h

omit [DecidableEq I] in
theorem ReleaseOut.ok (hout : ReleaseOut mutex v t i mutex' err v') (h : MutexOk mutex)
    (hlt : ∀ u, (v.thread u).currentPriority < rtThreadPriorityMax) : MutexOk mutex' := by
  cases hout with
  | denied => exact h
  | unnested howner =>
    refine ⟨fun hnone => ?_, h.owned⟩
    have hfree : mutex.owner = none := hnone
    rw [howner] at hfree
    cases hfree
  | freed howner hlast =>
    refine ⟨fun _ => ⟨?_, hlast⟩, fun u hu => ?_⟩
    · rw [Mutex.free, (h.owned t howner).1]
      exact (by decide : (0 : BitVec 16) + 1 = 1)
    · simp [Mutex.free] at hu
  | handed u rest howner =>
    refine ⟨fun hnone => ?_, fun w _ => ⟨(h.owned t howner).1, hlt u⟩⟩
    simp [Mutex.handOver] at hnone

variable {place : T → Option I}

theorem TakeOut.kept (hout : TakeOut mutex v t i time mutex' out v') (h : View.Kept place v)
    (hplace : place t = none) :
    View.Kept (Function.update place t (if out = none then some i else none)) v' := by
  have hsame : Function.update place t none = place := by
    rw [← hplace, Function.update_eq_self]
  have hset : ∀ err, View.Kept place (v.setError t err) :=
    fun err => h.modify rfl fun hne => absurd hplace hne
  cases hout with
  | nested => simpa [hsame] using hset .eok
  | acquired => simpa [hsame] using hset .eok
  | refused => simpa [hsame] using hset .etimeout
  | blocked o xs ys _ _ _ _ hsplit =>
    rw [if_pos rfl]
    exact (hset .eok).boost.enqueue hplace (by simpa using hsplit)
      (by simp [View.setError_error])

omit [DecidableEq I] in
theorem ReleaseOut.kept (hout : ReleaseOut mutex v t i mutex' err v') (h : View.Kept place v)
    (hplace : place t = none) : View.Kept place v' := by
  cases hout with
  | denied => exact h.modify rfl fun hne => absurd hplace hne
  | unnested => exact h
  | freed => exact h.restore
  | handed => exact h.restore.wake

/-- Who waits after a take, and for whom. -/
theorem TakeOut.waits (hout : TakeOut mutex v t i time mutex' out v') (h : MutexOk mutex)
    (hwaits : ∀ u ∈ v.waits i, ∃ o, mutex.owner = some o ∧ o ≠ u) :
    (∀ u ∈ v'.waits i, ∃ o, mutex'.owner = some o ∧ o ≠ u) ∧
      ∀ j, j ≠ i → v'.waits j = v.waits j := by
  cases hout with
  | nested => exact ⟨hwaits, fun _ _ => rfl⟩
  | acquired howner hpos =>
    refine ⟨fun u hm => ?_, fun _ _ => rfl⟩
    -- nobody waits for a free mutex
    obtain ⟨o, ho, -⟩ := hwaits u hm
    rw [(h.owned o ho).1] at hpos
    exact absurd hpos (by decide)
  | refused => exact ⟨hwaits, fun _ _ => rfl⟩
  | blocked o xs ys ho hne _ _ hsplit =>
    refine ⟨fun u hm => ?_, fun j hj => by simp [hj]⟩
    rw [View.enqueue_waits, Function.update_self, List.mem_append, List.mem_cons] at hm
    obtain hm | rfl | hm := hm
    · exact hwaits u (by simp [hsplit, hm])
    · exact ⟨o, ho, hne⟩
    · exact hwaits u (by simp [hsplit, hm])

section

omit [DecidableEq I]

theorem ReleaseOut.waits (hout : ReleaseOut mutex v t i mutex' err v')
    (hwaits : ∀ u ∈ v.waits i, ∃ o, mutex.owner = some o ∧ o ≠ u) (hnodup : (v.waits i).Nodup) :
    (∀ u ∈ v'.waits i, ∃ o, mutex'.owner = some o ∧ o ≠ u) ∧
      ∀ j, (v'.waits j).Sublist (v.waits j) := by
  cases hout with
  | denied => exact ⟨hwaits, fun _ => .refl _⟩
  | unnested => exact ⟨hwaits, fun _ => .refl _⟩
  | freed _ _ hnil =>
    refine ⟨fun u hm => ?_, fun j => by simp⟩
    rw [View.restore_waits, hnil] at hm
    cases hm
  | handed u rest _ _ hlist =>
    refine ⟨fun w hm => ⟨u, rfl, ?_⟩, fun j => ?_⟩
    · rintro rfl
      rw [View.wake_waits, View.restore_waits] at hm
      exact hnodup.not_mem_erase hm
    · rw [View.wake_waits, View.restore_waits]
      exact List.erase_sublist

/-- What goes on elsewhere puts no thread into a wait list. -/
theorem env_sublist {busy : T → Prop} (hsteps : Relation.ReflTransGen (View.Env busy) v v')
    (i : I) : (v'.waits i).Sublist (v.waits i) := by
  induction hsteps with
  | refl => exact .refl _
  | tail _ hstep ih =>
    refine List.Sublist.trans ?_ ih
    cases hstep with
    | other _ hwaits => rw [hwaits]
    | timeout u => exact List.erase_sublist

theorem env_error {busy : T → Prop} (hsteps : Relation.ReflTransGen (View.Env busy) v v')
    (hbusy : busy t) (h : (v.thread t).error ≠ .eintr) : (v'.thread t).error ≠ .eintr := by
  induction hsteps with
  | refl => exact h
  | tail _ hstep ih =>
    cases hstep with
    | other hthread _ =>
      obtain ⟨n, hn⟩ := hthread t hbusy
      rw [hn]
      exact ih
    | timeout u =>
      by_cases htu : t = u
      · subst htu
        simp
      · simpa [htu] using ih

end

theorem TakeOut.error {u : T} (hout : TakeOut mutex v t i time mutex' out v') (hu : u ≠ t) :
    (v'.thread u).error = (v.thread u).error := by
  cases hout with
  | blocked => simp [hu, View.setError_error]
  | _ => simp [hu, View.setError_error]

theorem TakeOut.error_blocked (hout : TakeOut mutex v t i time mutex' none v') :
    (v'.thread t).error = .eok := by
  cases hout with
  | blocked => simp [View.setError_error]

omit [DecidableEq I] in
theorem ReleaseOut.error {u : T} (hout : ReleaseOut mutex v t i mutex' err v') (hu : u ≠ t) :
    (v'.thread u).error = (v.thread u).error := by
  cases hout with
  | denied => simp [hu, View.setError_error]
  | unnested => rfl
  | freed => simp
  | handed w rest =>
    by_cases huw : u = w
    · subst huw
      simp
    · simp [huw]

theorem Linked.step (h : Linked s v) (hs' : State.Shows 0 s'.kernel v')
    (hchange : Change s v call s' v') : Linked s' v' := by
  cases hchange with
  | @take k mutex out _ t i time hplace hready hout =>
    have hok := hout.ok (h.mutex i) (h.shows_.priority_lt t)
    obtain ⟨hwaits, hsame⟩ := hout.waits (h.mutex i) (h.waits i)
    refine ⟨hs', by simpa using hout.kept h.kept hplace, fun j => ?_, fun j => ?_, fun u hu => ?_⟩
    · by_cases hj : j = i
      · subst hj
        simpa using hok
      · simpa [hj] using h.mutex j
    · by_cases hj : j = i
      · subst hj
        simpa using hwaits
      · simpa [hj, hsame j hj] using h.waits j
    · by_cases hut : u = t
      · subst hut
        cases out with
        | none => simp [hout.error_blocked]
        | some err => simp at hu
      · rw [hout.error hut]
        exact h.error u (by simpa [hut] using hu)
  | returns t i hplace hready =>
    have hkept := h.kept.leave (t := t) (by simp [hready])
    refine ⟨hs', by simpa using hkept, fun j => ?_, fun j => ?_, fun u hu => ?_⟩
    · simpa using h.mutex j
    · simpa using h.waits j
    · by_cases hut : u = t
      · simp [hut] at hu
      · exact h.error u (by simpa [hut] using hu)
  | @release k mutex err _ t i hplace hready hout =>
    have hok := hout.ok (h.mutex i) h.shows_.priority_lt
    obtain ⟨hwaits, hsub⟩ := hout.waits (h.waits i) (h.shows_.nodup i)
    refine ⟨hs', by simpa using hout.kept h.kept hplace, fun j => ?_, fun j => ?_, fun u hu => ?_⟩
    · by_cases hj : j = i
      · subst hj
        simpa using hok
      · simpa [hj] using h.mutex j
    · by_cases hj : j = i
      · subst hj
        simpa using hwaits
      · intro u hm
        simpa [hj] using h.waits j u ((hsub j).subset hm)
    · rw [releasing_place] at hu
      have hut : u ≠ t := by
        rintro rfl
        exact hu hplace
      rw [hout.error hut]
      exact h.error u hu
  | changePriority t priority =>
    exact ⟨hs', h.kept.setPriority, h.mutex, h.waits, fun u hu => by simpa using h.error u hu⟩
  | elsewhere hsteps =>
    exact ⟨hs', h.kept.envs (fun _ hplace => hplace) hsteps, h.mutex,
      fun i t hm => h.waits i t ((env_sublist hsteps i).subset hm),
      fun t hplace => env_error hsteps hplace (h.error t hplace)⟩

variable [DecidableEq U] [Fintype T] [Fintype U] in
theorem Initial.linked (h : Initial cb s) : ∃ v, Linked s v ∧ ∀ i, v.waits i = [] := by
  obtain ⟨k₀, hboot, hruns⟩ := h.reached
  obtain ⟨v, hs⟩ := (State.runs_good hboot hruns).shows
  have hnil : ∀ i, v.waits i = [] := by
    intro i
    have := h.empty i
    rw [hs.isempty] at this
    simpa using this
  refine ⟨v, ⟨hs, ?_, fun i => ?_, fun i u hm => ?_, fun u hu => absurd (h.place u) hu⟩, hnil⟩
  · constructor <;> simp [hnil, h.place]
  · obtain ⟨flag, hflag⟩ := h.mutex i
    rw [hflag]
    exact ⟨fun _ => ⟨rfl, rfl⟩, fun u hu => by simp [rtMutexInit] at hu⟩
  · rw [hnil] at hm
    cases hm

variable {may : Mutexes T U I → MutexCall T U I → Prop} {s₀ : Mutexes T U I}

section

variable [DecidableEq U] [Fintype T] [Fintype U]

/-- What holds at the start and is kept by every change, holds after a run. -/
theorem Initial.run {P : Mutexes T U I → View T I → Prop} (h : Initial cb s₀)
    (hstart : ∀ v, Linked s₀ v → (∀ i, v.waits i = []) → P s₀ v)
    (hkeep : ∀ {s s' v v' call}, Linked s v → Linked s' v' → P s v → may s call →
      Change s v call s' v' → P s' v')
    (hr : Runs cb may s₀ s) : ∃ v, Linked s v ∧ P s v := by
  induction hr with
  | refl =>
    obtain ⟨v, hlinked, hnil⟩ := h.linked
    exact ⟨v, hlinked, hstart v hlinked hnil⟩
  | tail _ hstep ih =>
    obtain ⟨v, hlinked, hp⟩ := ih
    obtain ⟨call, hmay, hstep⟩ := hstep
    obtain ⟨v', hs', hchange⟩ := hlinked.change hstep
    have hlinked' := hlinked.step hs' hchange
    exact ⟨v', hlinked', hkeep hlinked hlinked' hp hmay hchange⟩

/-! ## Runs, event by event -/

inductive Event (T I : Type) where
  | take (t : T) (i : I) (time : Tick)
  | returns (t : T)
  | release (t : T) (i : I)
  | changePriority (t : T) (priority : Fin rtThreadPriorityMax)
  | sleep (tick : Tick)
  | schedule
  | tick

def play (may : Mutexes T U I → MutexCall T U I → Prop) [∀ s call, Decidable (may s call)]
    (s : Mutexes T U I) : Event T I → Exec (Mutexes T U I)
  | .take t i time => do
    rtAssert (may s (.take t i time) ∧ s.Free t)
    s.take t i time
  | .returns t =>
    match s.place t with
    | none => throw .assertion
    | some i => do
      rtAssert (may s (.returns t) ∧ s.kernel.rtCurrentThread = some t ∧
        (s.kernel.thread t).stat = .ready)
      s.returns t i
  | .release t i => do
    rtAssert (may s (.release t i) ∧ s.Free t)
    s.release t i
  | .changePriority t priority => do
    rtAssert (may s (.changePriority t priority))
    let k ← s.kernel.rtThreadControl t (.changePriority priority)
    pure { s with kernel := k }
  | .sleep tick => do
    rtAssert (∀ t, s.place t ≠ none → s.kernel.rtCurrentThread ≠ some t)
    let k ← s.kernel.rtThreadSleep tick
    rtAssert (may s (.elsewhere k))
    pure { s with kernel := k }
  | .schedule => do
    let k ← s.kernel.rtSchedule
    rtAssert (may s (.elsewhere k))
    pure { s with kernel := k }
  | .tick => do
    let k ← s.kernel.rtTickIncrease (State.timeoutFunc fun _ _ => []) (Fintype.card (T ⊕ U) + 1)
    rtAssert (may s (.elsewhere k))
    pure { s with kernel := k }

theorem play_step [∀ s call, Decidable (may s call)] {event : Event T I}
    (h : play may s event = .ok s') :
    ∃ call, may s call ∧ Step (fun _ _ => []) s call s' := by
  cases event with
  | take t i time =>
    simp only [play, exec_bind_ok, rtAssert_eq_ok] at h
    obtain ⟨_, ⟨hmay, hfree⟩, htake⟩ := h
    exact ⟨_, hmay, .take t i time hfree htake⟩
  | returns t =>
    simp only [play] at h
    cases hplace : s.place t with
    | none => simp [hplace] at h
    | some i =>
      simp only [hplace, exec_bind_ok, rtAssert_eq_ok] at h
      obtain ⟨_, ⟨hmay, hrunning⟩, hreturns⟩ := h
      exact ⟨_, hmay, .returns t i hrunning hplace hreturns⟩
  | release t i =>
    simp only [play, exec_bind_ok, rtAssert_eq_ok] at h
    obtain ⟨_, ⟨hmay, hfree⟩, hrelease⟩ := h
    exact ⟨_, hmay, .release t i hfree hrelease⟩
  | changePriority t priority =>
    simp only [play, exec_bind_ok, rtAssert_eq_ok, exec_pure_ok] at h
    obtain ⟨_, hmay, k, hcontrol, rfl⟩ := h
    exact ⟨_, hmay, .changePriority t priority hcontrol⟩
  | sleep tick =>
    simp only [play, exec_bind_ok, rtAssert_eq_ok, exec_pure_ok] at h
    obtain ⟨_, hfree, k, hsleep, _, hmay, rfl⟩ := h
    exact ⟨_, hmay, .elsewhere (.call (.sleep tick) (by simp [State.Foreign, KernelOp.target])
      (fun _ => hfree) hsleep)⟩
  | schedule =>
    simp only [play, exec_bind_ok, rtAssert_eq_ok, exec_pure_ok] at h
    obtain ⟨k, hschedule, _, hmay, rfl⟩ := h
    exact ⟨_, hmay, .elsewhere (.call .schedule (by simp [State.Foreign, KernelOp.target])
      (by simp [KernelOp.own]) hschedule)⟩
  | tick =>
    simp only [play, exec_bind_ok, rtAssert_eq_ok, exec_pure_ok] at h
    obtain ⟨k, htick, _, hmay, rfl⟩ := h
    exact ⟨_, hmay, .elsewhere (.tick _ (by simp) htick)⟩

/-- Mutexes after `rt_mutex_init`. -/
def init (flag : IpcFlag) (k : State T U I) : Mutexes T U I where
  kernel := k
  mutex := fun _ => rtMutexInit flag
  place := fun _ => none
  time := fun _ => 0
  taken := fun _ _ => 0
  released := fun _ _ => 0
  base := fun t => (k.thread t).currentPriority
  boosted := fun _ => false

theorem init_initial {threads : List (T × Nat)} {k : State T U I} {flag : IpcFlag}
    (hk : State.booted threads = .ok k)
    (hempty : ∀ i, rtListIsempty (.inl (.suspend i)) k.tlist = true) :
    Initial cb (init flag k) :=
  ⟨State.booted_reached hk, hempty, fun _ => ⟨flag, rfl⟩, fun _ => rfl, fun _ _ => rfl,
    fun _ _ => rfl, fun _ => rfl⟩

/-- The threads are started, and the events follow: the mutexes at the start, and at the end. -/
def script (may : Mutexes T U I → MutexCall T U I → Prop) [∀ s call, Decidable (may s call)]
    (flag : IpcFlag) (threads : List (T × Nat)) (events : List (Event T I)) :
    Exec (Mutexes T U I × Mutexes T U I) := do
  let k ← State.booted threads
  let s ← events.foldlM (play may) (init flag k)
  pure (init flag k, s)

/-- What is seen of a script is seen of a run. -/
theorem script_runs [Fintype I] (may : Mutexes T U I → MutexCall T U I → Prop)
    [∀ s call, Decidable (may s call)] (flag : IpcFlag) (threads : List (T × Nat))
    (events : List (Event T I)) (P : Mutexes T U I → Mutexes T U I → Prop)
    [∀ s₀ s, Decidable (P s₀ s)]
    (h : (script may flag threads events).map (fun x =>
      decide ((∀ i, rtListIsempty (.inl (.suspend i)) x.1.kernel.tlist = true) ∧ P x.1 x.2)) =
        .ok true) :
    ∃ s₀ s : Mutexes T U I, Initial (fun _ _ => []) s₀ ∧ Runs (fun _ _ => []) may s₀ s ∧
      P s₀ s := by
  obtain ⟨⟨s₀, s⟩, hrun, hdata⟩ := exec_exists_ok h
  simp only [script, exec_bind_ok, exec_pure_ok, Prod.mk.injEq] at hrun
  obtain ⟨k, hk, s, hplay, rfl, rfl⟩ := hrun
  obtain ⟨hempty, hp⟩ := of_decide_eq_true hdata
  exact ⟨init flag k, s, init_initial hk hempty, foldlM_runs (fun _ _ _ => play_step) hplay, hp⟩

end

/-! ## Who owns a mutex -/

/-- `t` has been resumed in a take of `i` that will return `RT_EOK`. -/
def Resumed (s : Mutexes T U I) (i : I) (t : T) : Prop :=
  s.place t = some i ∧ (s.kernel.thread t).stat ≠ .suspend ∧ (s.kernel.thread t).error = .eok

instance (s : Mutexes T U I) (i : I) (t : T) : Decidable (s.Resumed i t) := by
  unfold Resumed
  infer_instance

/-- The takes that a thread has to give back. -/
def held (s : Mutexes T U I) (i : I) (t : T) : Nat := s.taken i t - s.released i t

section

variable [DecidableEq U]

/-- A mutex is owned by the thread that has takes to give back, or is about to return from one,
    and only the release of that thread succeeds. -/
structure Exclusive (s : Mutexes T U I) : Prop where
  value : ∀ i, (s.mutex i).value = 1 ↔ (s.mutex i).owner = none ∧ (s.mutex i).hold = 0
  owner : ∀ i t, (s.mutex i).owner = some t ↔ s.released i t < s.taken i t ∨ s.Resumed i t
  one : ∀ i t u, s.released i t < s.taken i t → s.released i u < s.taken i u → t = u
  balance : ∀ i t, s.released i t ≤ s.taken i t
  release : ∀ t i k mutex err, rtMutexRelease t i (s.mutex i) s.kernel = .ok (k, mutex, err) →
    (err = .eok ↔ (s.mutex i).owner = some t)

/-- The release does not find `hold` at one where there is more to give back. -/
def HoldFits (s : Mutexes T U I) : MutexCall T U I → Prop
  | .release t i => (s.mutex i).owner = some t → s.held i t % 256 = 1 → s.held i t = 1
  | _ => True

instance (s : Mutexes T U I) (call : MutexCall T U I) : Decidable (s.HoldFits call) := by
  unfold HoldFits
  split <;> infer_instance

/-- `hold` counts, modulo 256. -/
structure Counted (s : Mutexes T U I) : Prop where
  owned : ∀ i t, (s.mutex i).owner = some t →
    ∃ n, s.taken i t + (if s.Resumed i t then 1 else 0) = s.released i t + (n + 1) ∧
      (s.mutex i).hold = BitVec.ofNat 8 (n + 1)
  other : ∀ i t, (s.mutex i).owner ≠ some t → s.taken i t = s.released i t ∧ ¬ s.Resumed i t

theorem rtMutexRelease_err {k k' : State T U I}
    (h : rtMutexRelease t i mutex k = .ok (k', mutex', err)) :
    err = .eok ↔ mutex.owner = some t := by
  simp only [rtMutexRelease] at h
  split at h
  case isTrue hother =>
    simp only [exec_pure_ok, Prod.mk.injEq] at h
    obtain ⟨-, -, rfl⟩ := h
    simpa using hother
  case isFalse howner =>
    rw [not_not] at howner
    simp only [howner, iff_true]
    split at h
    · simp only [exec_pure_ok, Prod.mk.injEq] at h
      exact h.2.2.symm
    · simp only [exec_bind_ok] at h
      obtain ⟨k₁, -, h⟩ := h
      split at h
      · simp only [exec_pure_ok, Prod.mk.injEq] at h
        exact h.2.2.symm
      · simp only [exec_bind_ok, exec_pure_ok, Prod.mk.injEq] at h
        obtain ⟨_, -, -, -, herr⟩ := h
        exact herr.symm

theorem Counted.exclusive (h : Counted s) (hmutex : ∀ i, MutexOk (s.mutex i)) : Exclusive s := by
  have hless : ∀ i t, s.released i t < s.taken i t → (s.mutex i).owner = some t := by
    intro i t hlt
    by_contra hne
    have := (h.other i t hne).1
    omega
  refine ⟨fun i => ?_, fun i t => ⟨fun howner => ?_, ?_⟩, fun i t u ht hu => ?_, fun i t => ?_,
    fun _ _ _ _ _ => rtMutexRelease_err⟩
  · constructor
    · intro hvalue
      cases howner : (s.mutex i).owner with
      | none => exact ⟨rfl, ((hmutex i).free howner).2⟩
      | some t =>
        rw [((hmutex i).owned t howner).1] at hvalue
        exact absurd hvalue (by decide)
    · exact fun hfree => ((hmutex i).free hfree.1).1
  · obtain ⟨n, hcount, -⟩ := h.owned i t howner
    by_cases hresumed : s.Resumed i t
    · exact .inr hresumed
    · rw [if_neg hresumed] at hcount
      left
      omega
  · rintro (hlt | hresumed)
    · exact hless i t hlt
    · by_contra hne
      exact (h.other i t hne).2 hresumed
  · have howner := hless i t ht
    rw [hless i u hu] at howner
    exact (Option.some.inj howner).symm
  · by_cases howner : (s.mutex i).owner = some t
    · obtain ⟨n, hcount, -⟩ := h.owned i t howner
      split at hcount <;> omega
    · exact (h.other i t howner).1.ge

end

/-! ## Every change keeps the count -/

omit [DecidableEq T] [DecidableEq I] in
theorem Linked.resumed_iff (h : Linked s v) {j : I} {u : T} :
    s.Resumed j u ↔ s.place u = some j ∧ (v.thread u).stat ≠ .suspend ∧
      (v.thread u).error = .eok := by
  rw [Resumed, h.shows_.thread]

theorem TakeOut.stat {u : T} (hout : TakeOut mutex v t i time mutex' out v') (hu : u ≠ t) :
    (v'.thread u).stat = (v.thread u).stat := by
  cases hout with
  | blocked => simp [hu]
  | _ => simp

/-- A take resumes no thread, and no thread that was resumed is gone. -/
theorem Linked.resumed_take (h : Linked s v) {k : State T U I} (hplace : s.place t = none)
    (hout : TakeOut (s.mutex i) v t i time mutex out v')
    (h' : Linked (s.taking t i time (k, mutex, out)) v') (j : I) (u : T) :
    (s.taking t i time (k, mutex, out)).Resumed j u ↔ s.Resumed j u := by
  rw [h'.resumed_iff, h.resumed_iff]
  by_cases hu : u = t
  · subst hu
    rw [taking_place, Function.update_self, hplace]
    cases hout with
    | blocked => simp
    | _ => simp
  · rw [taking_place, Function.update_of_ne hu, hout.stat hu, hout.error hu]

section

omit [DecidableEq T]

theorem Counted.same (h : Counted s) (hmutex : s'.mutex = s.mutex) (htaken : s'.taken = s.taken)
    (hreleased : s'.released = s.released) (hresumed : ∀ i t, s'.Resumed i t ↔ s.Resumed i t) :
    Counted s' := by
  constructor
  · intro i t howner
    simp only [hmutex, htaken, hreleased, hresumed] at howner ⊢
    exact h.owned i t howner
  · intro i t howner
    simp only [hmutex, htaken, hreleased, hresumed] at howner ⊢
    exact h.other i t howner

/-- The accounts of one mutex and one thread change. -/
theorem Counted.change (h : Counted s) (i : I) (hmutex : ∀ j, j ≠ i → s'.mutex j = s.mutex j)
    (hrest : ∀ j, j ≠ i → s'.taken j = s.taken j ∧ s'.released j = s.released j ∧
      ∀ u, s'.Resumed j u ↔ s.Resumed j u)
    (howned : ∀ u, (s'.mutex i).owner = some u →
      ∃ n, s'.taken i u + (if s'.Resumed i u then 1 else 0) = s'.released i u + (n + 1) ∧
        (s'.mutex i).hold = BitVec.ofNat 8 (n + 1))
    (hother : ∀ u, (s'.mutex i).owner ≠ some u →
      s'.taken i u = s'.released i u ∧ ¬ s'.Resumed i u) : Counted s' := by
  constructor
  · intro j u howner
    by_cases hj : j = i
    · subst hj
      exact howned u howner
    · obtain ⟨htaken, hreleased, hresumed⟩ := hrest j hj
      rw [hmutex j hj] at howner ⊢
      simp only [htaken, hreleased, hresumed]
      exact h.owned j u howner
  · intro j u howner
    by_cases hj : j = i
    · subst hj
      exact hother u howner
    · obtain ⟨htaken, hreleased, hresumed⟩ := hrest j hj
      rw [hmutex j hj] at howner
      simp only [htaken, hreleased, hresumed]
      exact h.other j u howner

end

theorem Counted.take (h : Counted s) (hl : Linked s v) {k : State T U I}
    (hplace : s.place t = none) (hout : TakeOut (s.mutex i) v t i time mutex out v')
    (h' : Linked (s.taking t i time (k, mutex, out)) v') :
    Counted (s.taking t i time (k, mutex, out)) := by
  have hresumed := hl.resumed_take hplace hout h'
  have hnot : ¬ s.Resumed i t := by simp [Resumed, hplace]
  cases hout with
  | nested howner =>
    -- the owner takes it once more
    obtain ⟨n, hcount, hhold⟩ := h.owned i t howner
    rw [if_neg hnot] at hcount
    refine h.change i (fun j hj => by simp [hj])
      (fun j hj => ⟨by simp [hj], by simp, hresumed j⟩) (fun u hu => ?_) (fun u hu => ?_)
    · have hut : u = t := by simpa [Mutex.nest, howner, eq_comm] using hu
      subst hut
      refine ⟨n + 1, ?_, ?_⟩
      · simp only [hresumed, if_neg hnot]
        simp
        omega
      · simp only [taking_mutex, Function.update_self, Mutex.nest, hhold]
        simp [BitVec.ofNat_add]
    · have hut : u ≠ t := by
        rintro rfl
        simp [Mutex.nest, howner] at hu
      have hother := h.other i u (by simpa [Mutex.nest] using hu)
      rw [hresumed]
      simpa [hut] using hother
  | acquired howner hpos =>
    -- a mutex that can be taken has no owner
    have hfree : (s.mutex i).owner = none := by
      by_contra hne
      obtain ⟨o, ho⟩ := Option.ne_none_iff_exists'.mp hne
      rw [((hl.mutex i).owned o ho).1] at hpos
      exact absurd hpos (by decide)
    have hnone : ∀ u, s.taken i u = s.released i u ∧ ¬ s.Resumed i u :=
      fun u => h.other i u (by simp [hfree])
    refine h.change i (fun j hj => by simp [hj])
      (fun j hj => ⟨by simp [hj], by simp, hresumed j⟩) (fun u hu => ?_) (fun u hu => ?_)
    · have hut : u = t := by simpa [Mutex.acquire, eq_comm] using hu
      subst hut
      refine ⟨0, ?_, ?_⟩
      · simp only [hresumed, if_neg hnot]
        simp [(hnone u).1]
      · simp only [taking_mutex, Function.update_self, Mutex.acquire, ((hl.mutex i).free hfree).2]
        decide
    · have hut : u ≠ t := by
        rintro rfl
        simp [Mutex.acquire] at hu
      rw [hresumed]
      simpa [hut] using hnone u
  | refused => exact h.same (by simp) (by simp) (by simp) hresumed
  | blocked => exact h.same (by simp) (by simp) (by simp) hresumed

/-- A thread returns from a take: the mutex is its own, or it has an error. -/
theorem Counted.returns (h : Counted s) (hl : Linked s v) (hplace : s.place t = some i)
    (hready : (v.thread t).stat = .ready)
    (h' : Linked (s.taking t i time (s.kernel, s.mutex i, some (v.thread t).error)) v) :
    Counted (s.taking t i time (s.kernel, s.mutex i, some (v.thread t).error)) := by
  have hresumed : ∀ j u, u ≠ t →
      ((s.taking t i time (s.kernel, s.mutex i, some (v.thread t).error)).Resumed j u ↔
        s.Resumed j u) := by
    intro j u hu
    rw [h'.resumed_iff, hl.resumed_iff, taking_place, Function.update_of_ne hu]
  have hgone : ∀ j,
      ¬ (s.taking t i time (s.kernel, s.mutex i, some (v.thread t).error)).Resumed j t := by
    intro j
    simp [h'.resumed_iff]
  -- the take is counted now, and its hold has been since the mutex was handed over
  by_cases herror : (v.thread t).error = .eok
  · have hwas : s.Resumed i t := hl.resumed_iff.mpr ⟨hplace, by simp [hready], herror⟩
    have howner : (s.mutex i).owner = some t := by
      by_contra hne
      exact (h.other i t hne).2 hwas
    obtain ⟨n, hcount, hhold⟩ := h.owned i t howner
    rw [if_pos hwas] at hcount
    refine h.change i (fun j hj => by simp) (fun j hj => ⟨by simp [herror, hj], by simp, fun u => ?_⟩)
      (fun u hu => ?_) (fun u hu => ?_)
    · by_cases hut : u = t
      · subst hut
        have hnot : ¬ s.Resumed j u := by simp [Resumed, hplace, hj.symm]
        exact iff_of_false (hgone j) hnot
      · exact hresumed j u hut
    · have hut : u = t := by simpa [howner, eq_comm] using hu
      subst hut
      refine ⟨n, ?_, by simpa using hhold⟩
      rw [if_neg (hgone i)]
      simp [herror]
      omega
    · have hut : u ≠ t := by
        rintro rfl
        simp [howner] at hu
      rw [hresumed i u hut]
      simpa [herror, hut] using h.other i u (by simpa using hu)
  -- a take that failed leaves no trace
  · refine h.same (by simp) (by simp [herror]) (by simp) fun j u => ?_
    by_cases hut : u = t
    · subst hut
      have hnot : ¬ s.Resumed j u := by simp [hl.resumed_iff, herror]
      exact iff_of_false (hgone j) hnot
    · exact hresumed j u hut

omit [DecidableEq I] in
/-- A release resumes the thread that it hands the mutex to, and no other one. -/
theorem ReleaseOut.resumed (hout : ReleaseOut mutex v t i mutex' err v') {place : T → Option I}
    (hkept : View.Kept place v) (hplace : place t = none) (j : I) (u : T) :
    (place u = some j ∧ (v'.thread u).stat ≠ .suspend ∧ (v'.thread u).error = .eok) ↔
      (place u = some j ∧ (v.thread u).stat ≠ .suspend ∧ (v.thread u).error = .eok) ∨
        j = i ∧ mutex.owner ≠ some u ∧ mutex'.owner = some u := by
  cases hout with
  | denied howner =>
    have hsame : ∀ {p : Prop}, (p ∨ j = i ∧ mutex.owner ≠ some u ∧ mutex.owner = some u) ↔ p := by
      tauto
    rw [hsame]
    by_cases hu : u = t
    · subst hu
      simp [hplace]
    · simp [hu, View.setError_error]
  | unnested howner => simp [Mutex.unnest]
  | freed howner => simp [Mutex.free]
  | handed w rest howner hlast hlist hne =>
    obtain ⟨hw, hsuspend⟩ := (hkept.member i w).mp (by simp [hlist])
    by_cases hu : u = w
    · subst hu
      have herror := hkept.error u (by simp [hw]) hsuspend
      simp [Mutex.handOver, hw, hsuspend, herror, howner, hne.symm, eq_comm]
    · simp [Mutex.handOver, hu, Ne.symm hu]

theorem Linked.resumed_release (hl : Linked s v) {k : State T U I} (hplace : s.place t = none)
    (hout : ReleaseOut (s.mutex i) v t i mutex err v')
    (h' : Linked (s.releasing t i (k, mutex, err)) v') (j : I) (u : T) :
    (s.releasing t i (k, mutex, err)).Resumed j u ↔
      s.Resumed j u ∨ j = i ∧ (s.mutex i).owner ≠ some u ∧ mutex.owner = some u := by
  rw [h'.resumed_iff, hl.resumed_iff, releasing_place]
  exact hout.resumed hl.kept hplace j u

theorem hold_last {n : Nat} : BitVec.ofNat 8 (n + 1) - 1 = 0 ↔ n % 256 = 0 := by
  have hsub : BitVec.ofNat 8 (n + 1) - 1 = BitVec.ofNat 8 n := by
    rw [BitVec.ofNat_add]
    exact add_sub_cancel_right _ _
  rw [hsub]
  constructor
  · intro hzero
    simpa using congrArg BitVec.toNat hzero
  · intro hzero
    apply BitVec.eq_of_toNat_eq
    simpa using hzero

section

omit [DecidableEq T]

/-- The account of the thread that calls `rt_mutex_release` on its mutex. -/
theorem Counted.owned_free (h : Counted s) (hplace : s.place t = none)
    (howner : (s.mutex i).owner = some t) :
    ∃ n, s.taken i t = s.released i t + (n + 1) ∧ s.held i t = n + 1 ∧
      (s.mutex i).hold = BitVec.ofNat 8 (n + 1) := by
  have hnot : ¬ s.Resumed i t := by simp [Resumed, hplace]
  obtain ⟨n, hcount, hhold⟩ := h.owned i t howner
  rw [if_neg hnot, Nat.add_zero] at hcount
  refine ⟨n, hcount, ?_, hhold⟩
  rw [held, hcount]
  omega

/-- The last release, where it fits, is that of the last take. -/
theorem Counted.last (h : Counted s) (hplace : s.place t = none)
    (howner : (s.mutex i).owner = some t) (hlast : (s.mutex i).hold - 1 = 0)
    (hfits : s.HoldFits (.release t i)) : s.taken i t = s.released i t + 1 := by
  obtain ⟨n, hcount, hheld, hhold⟩ := h.owned_free hplace howner
  rw [hhold, hold_last] at hlast
  have hone := hfits howner (by rw [hheld]; omega)
  rw [hheld] at hone
  omega

end

theorem Counted.release (h : Counted s) (hl : Linked s v) {k : State T U I}
    (hplace : s.place t = none) (hfits : s.HoldFits (.release t i))
    (hout : ReleaseOut (s.mutex i) v t i mutex err v')
    (h' : Linked (s.releasing t i (k, mutex, err)) v') :
    Counted (s.releasing t i (k, mutex, err)) := by
  have hresumed := hl.resumed_release hplace hout h'
  -- the other mutexes stay as they are
  have helse : ∀ j, j ≠ i → ∀ u,
      ((s.releasing t i (k, mutex, err)).Resumed j u ↔ s.Resumed j u) := by
    intro j hj u
    rw [hresumed]
    simp [hj]
  have hnot : ¬ s.Resumed i t := by simp [Resumed, hplace]
  cases hout with
  | denied howner =>
    refine h.same (by simp) (by simp) (by simp) fun j u => ?_
    rw [hresumed]
    tauto
  | unnested howner hmore =>
    have hsame : ∀ u, (s.releasing t i (k, (s.mutex i).unnest, .eok)).Resumed i u ↔
        s.Resumed i u := by
      intro u
      rw [hresumed, Mutex.unnest]
      tauto
    -- one hold of several is given back
    obtain ⟨n, hcount, -, hhold⟩ := h.owned_free hplace howner
    rw [hhold, Ne, hold_last] at hmore
    obtain ⟨m, rfl⟩ := Nat.exists_eq_succ_of_ne_zero (show n ≠ 0 by rintro rfl; simp at hmore)
    refine h.change i (fun j hj => by simp [hj]) (fun j hj => ⟨by simp, by simp [hj], helse j hj⟩)
      (fun u hu => ?_) (fun u hu => ?_)
    · have hut : u = t := by simpa [Mutex.unnest, howner, eq_comm] using hu
      subst hut
      refine ⟨m, ?_, ?_⟩
      · simp only [hsame, if_neg hnot]
        simp
        omega
      · simp only [releasing_mutex, Function.update_self, Mutex.unnest, hhold]
        rw [BitVec.ofNat_add]
        exact add_sub_cancel_right _ _
    · have hut : u ≠ t := by
        rintro rfl
        simp [Mutex.unnest, howner] at hu
      rw [hsame]
      simpa [hut] using h.other i u (by simpa [Mutex.unnest] using hu)
  | freed howner hlast hnil =>
    -- the last hold is, and nobody waits
    have hone := h.last hplace howner hlast hfits
    refine h.change i (fun j hj => by simp [hj]) (fun j hj => ⟨by simp, by simp [hj], helse j hj⟩)
      (fun u hu => ?_) (fun u _ => ?_)
    · simp [Mutex.free] at hu
    · rw [hresumed]
      by_cases hut : u = t
      · subst hut
        simp [hone, hnot, Mutex.free]
      · have hother := h.other i u (by rw [howner]; simpa [eq_comm] using hut)
        simpa [hut, Mutex.free] using hother
  | handed w rest howner hlast hlist hne =>
    -- the last hold is, and the first waiter gets the mutex
    have hone := h.last hplace howner hlast hfits
    obtain ⟨-, hsuspend⟩ := (hl.kept.member i w).mp (by simp [hlist])
    have hnotw : ¬ s.Resumed i w := by simp [hl.resumed_iff, hsuspend]
    refine h.change i (fun j hj => by simp [hj]) (fun j hj => ⟨by simp, by simp [hj], helse j hj⟩)
      (fun u hu => ?_) (fun u hu => ?_)
    · have huw : u = w := by simpa [Mutex.handOver, eq_comm] using hu
      subst huw
      have hother := h.other i u (by rw [howner]; simpa [eq_comm] using hne)
      have hnow : (s.releasing t i (k, (s.mutex i).handOver u (v.thread u).currentPriority,
          .eok)).Resumed i u := by
        rw [hresumed]
        exact .inr ⟨rfl, by rw [howner]; simpa [eq_comm] using hne, rfl⟩
      -- it has been given the mutex and has not run yet, so that its take is still to be counted
      refine ⟨0, ?_, ?_⟩
      · rw [if_pos hnow]
        simpa [hne] using hother.1
      · simp only [releasing_mutex, Function.update_self, Mutex.handOver, hlast]
        decide
    · have huw : u ≠ w := by
        rintro rfl
        simp [Mutex.handOver] at hu
      rw [hresumed]
      by_cases hut : u = t
      · subst hut
        simp [hone, hnot, howner]
      · have hother := h.other i u (by rw [howner]; simpa [eq_comm] using hut)
        simpa [hut, Mutex.handOver, Ne.symm huw] using hother

variable [Fintype T]

theorem Counted.elsewhere (h : Counted s) (hl : Linked s v) {k : State T U I}
    (hsteps : Relation.ReflTransGen (View.Env fun t => s.place t ≠ none) v v')
    (h' : Linked { s with kernel := k } v') : Counted { s with kernel := k } := by
  refine h.same rfl rfl rfl fun i t => ?_
  have hsame : v'.resumed s.place i = v.resumed s.place i := by
    clear h'
    induction hsteps with
    | refl => rfl
    | tail _ hstep ih => exact (View.resumed_env hstep fun _ hplace => hplace).trans ih
  rw [h'.resumed_iff, hl.resumed_iff, ← View.mem_resumed, ← View.mem_resumed, hsame]

theorem Counted.step (h : Counted s) (hl : Linked s v) (h' : Linked s' v')
    (hfits : s.HoldFits call) (hchange : Change s v call s' v') : Counted s' := by
  cases hchange with
  | take t i time hplace _ hout => exact h.take hl hplace hout h'
  | returns t i hplace hready => exact h.returns hl hplace hready h'
  | release t i hplace _ hout => exact h.release hl hplace hfits hout h'
  | changePriority t priority =>
    refine h.same rfl rfl rfl fun i u => ?_
    rw [h'.resumed_iff, hl.resumed_iff, View.setPriority_stat, View.setPriority_error]
  | elsewhere hsteps => exact h.elsewhere hl hsteps h'

variable [DecidableEq U] [Fintype U]

omit [Fintype T] [Fintype U] in
/-- A release that finds `hold` at one gives the mutex away, though there is more to give back. -/
theorem Counted.not_exclusive (h : Counted s) (hfits : ¬ s.HoldFits call)
    (hchange : Change s v call s' v') : ¬ Exclusive s' := by
  cases hchange with
  | take => exact absurd trivial hfits
  | returns => exact absurd trivial hfits
  | changePriority => exact absurd trivial hfits
  | elsewhere => exact absurd trivial hfits
  | @release k mutex err _ t i hplace _ hout =>
    simp only [HoldFits, Classical.not_imp] at hfits
    obtain ⟨howner, hmod, hmore⟩ := hfits
    obtain ⟨n, hcount, hheld, hhold⟩ := h.owned_free hplace howner
    rw [hheld] at hmod hmore
    have hlast : (s.mutex i).hold - 1 = 0 := by
      rw [hhold, hold_last]
      omega
    have hgone : mutex.owner ≠ some t ∧ err = .eok := by
      cases hout with
      | denied hother => exact absurd howner hother
      | unnested _ hagain => exact absurd hlast hagain
      | freed => exact ⟨by simp [Mutex.free], rfl⟩
      | handed w rest _ _ _ hne => exact ⟨by simpa [Mutex.handOver] using hne, rfl⟩
    obtain ⟨hother, rfl⟩ := hgone
    intro hexclusive
    apply hother
    have hstill := (hexclusive.owner i t).mpr (.inl (by simp; omega))
    simpa using hstill

theorem Initial.counted (h : Initial cb s) : Counted s := by
  constructor
  · intro i t howner
    obtain ⟨flag, hflag⟩ := h.mutex i
    simp [hflag, rtMutexInit] at howner
  · intro i t _
    simp [Resumed, h.place, h.taken, h.released]

/-- As long as every release fits, a mutex is owned by one thread until that has given back all its
    takes; and a call that comes next keeps it so if and only if it fits. -/
theorem rt_mutex_owner (cb : State.Callback T U I) (hi : Initial cb s₀)
    (hr : Runs cb HoldFits s₀ s) :
    Exclusive s ∧ ∀ call s', Step cb s call s' → (Exclusive s' ↔ s.HoldFits call) := by
  obtain ⟨v, hl, hcounted⟩ := hi.run (P := fun s _ => Counted s) (fun _ _ _ => hi.counted)
    (fun hl hl' h hfits hchange => h.step hl hl' hfits hchange) hr
  refine ⟨hcounted.exclusive hl.mutex, fun call s' hstep => ?_⟩
  obtain ⟨v', hs', hchange⟩ := hl.change hstep
  have hl' := hl.step hs' hchange
  constructor
  · intro hexclusive
    by_contra hfits
    exact hcounted.not_exclusive hfits hchange hexclusive
  · exact fun hfits => (hcounted.step hl hl' hfits hchange).exclusive hl'.mutex

/-- Two takes of one thread, one of another one that has to wait, and the releases. -/
theorem rt_mutex_owner_nested :
    ∃ s₀ s : Mutexes (Fin 2) (Fin 0) (Fin 1), Initial (fun _ _ => []) s₀ ∧
      Runs (fun _ _ => []) HoldFits s₀ s ∧ s.taken 0 1 = 2 ∧ s.taken 0 0 = 1 ∧ Exclusive s := by
  obtain ⟨s₀, s, hi, hr, htaken, htaken'⟩ := script_runs (T := Fin 2) (U := Fin 0) (I := Fin 1)
    HoldFits .fifo [(0, 31), (1, 10)]
    [.take 1 0 0xffffffff, .take 1 0 0xffffffff, .changePriority 0 ⟨5, by decide⟩, .schedule,
      .take 0 0 0xffffffff, .schedule, .release 1 0, .release 1 0, .schedule, .returns 0,
      .release 0 0]
    (fun _ s => s.taken 0 1 = 2 ∧ s.taken 0 0 = 1) (by decide +kernel)
  exact ⟨s₀, s, hi, hr, htaken, htaken', (rt_mutex_owner _ hi hr).1⟩

/-- `t` has taken the mutex `i` a number of times, and nothing else has happened since. -/
structure Nested (s : Mutexes T U I) (t : T) (i : I) (n : Nat) : Prop where
  free : s.Free t
  owner : (s.mutex i).owner = some t
  hold : (s.mutex i).hold = BitVec.ofNat 8 n
  original : (s.mutex i).originalPriority = (s.kernel.thread t).currentPriority
  empty : s.kernel.tlist.next (.inl (.suspend i)) = .inl (.suspend i)
  taken : s.taken i t = n
  released : s.released i t = 0

theorem Nested.take {n : Nat} (h : s.Nested t i n) (time : Tick) :
    ∃ s', s.take t i time = .ok s' ∧ s'.Nested t i (n + 1) := by
  have hhold := h.hold
  refine ⟨_, by simp only [Mutexes.take, rtMutexTake, if_pos h.owner]; rfl, ?_⟩
  constructor
  · obtain ⟨⟨hcurrent, hready⟩, hplace⟩ := h.free
    refine ⟨⟨by simpa [State.setError, State.modifyThread] using hcurrent, ?_⟩, by simp⟩
    simpa [State.setError, State.modifyThread] using hready
  · simpa using h.owner
  · simp [hhold, BitVec.ofNat_add]
  · simpa [State.setError, State.modifyThread] using h.original
  · simpa [State.setError, State.modifyThread] using h.empty
  · simp [h.taken]
  · simpa using h.released

/-- A thread can take its mutex any number of times. -/
theorem Nested.more {n : Nat} (h : s.Nested t i n) (cb : State.Callback T U I) (m : Nat) :
    ∃ s', Runs cb (fun _ _ => True) s s' ∧ s'.Nested t i (n + m) := by
  induction m with
  | zero => exact ⟨s, .refl, h⟩
  | succ m ih =>
    obtain ⟨s₁, hruns, h₁⟩ := ih
    obtain ⟨s₂, htake, h₂⟩ := h₁.take 0
    exact ⟨s₂, hruns.tail ⟨_, trivial, .take t i 0 h₁.free htake⟩, h₂⟩

omit [Fintype T] [Fintype U] in
/-- The first release of 257 takes gives the mutex away. -/
theorem Nested.release (h : s.Nested t i 257) :
    ∃ s', s.release t i = .ok s' ∧ (s'.mutex i).owner = none ∧ s'.taken i t = 257 ∧
      s'.released i t = 1 := by
  have hlast : (s.mutex i).hold - 1 = 0 := by
    rw [h.hold]
    decide
  have hrelease : rtMutexRelease t i (s.mutex i) s.kernel =
      .ok (s.kernel, (s.mutex i).free, .eok) := by
    rw [rtMutexRelease, if_neg (not_not.mpr h.owner)]
    simp only [if_neg (not_not.mpr hlast), changeToOriginalPriority,
      if_neg (not_not.mpr h.original)]
    simp [h.empty, Mutex.free, bind, Except.bind, pure, Except.pure]
  refine ⟨_, by simp only [Mutexes.release, hrelease]; rfl, ?_, ?_, ?_⟩
  · simp [Mutex.free]
  · simpa using h.taken
  · simp [h.released]

/-- A thread takes its mutex 257 times, and its first release succeeds and gives it away. -/
theorem rt_mutex_owner_wraps :
    ∃ s₀ s : Mutexes (Fin 2) (Fin 0) (Fin 1), Initial (fun _ _ => []) s₀ ∧
      Runs (fun _ _ => []) (fun _ _ => True) s₀ s ∧ s.taken 0 1 = 257 ∧ s.released 0 1 = 1 ∧
      (s.mutex 0).owner = none ∧ ¬ Exclusive s := by
  obtain ⟨s₀, s, hi, hr, hfree, howner, hhold, horiginal, hlist, htaken, hreleased⟩ :=
    script_runs (T := Fin 2) (U := Fin 0) (I := Fin 1) (fun _ _ => True) .fifo [(0, 31), (1, 10)]
      [.take 1 0 0xffffffff]
      (fun _ s => s.Free 1 ∧ (s.mutex 0).owner = some 1 ∧ (s.mutex 0).hold = 1 ∧
        (s.mutex 0).originalPriority = (s.kernel.thread 1).currentPriority ∧
        s.kernel.tlist.next (.inl (.suspend 0)) = .inl (.suspend 0) ∧ s.taken 0 1 = 1 ∧
        s.released 0 1 = 0) (by decide +kernel)
  have hone : s.Nested 1 0 1 := ⟨hfree, howner, hhold, horiginal, hlist, htaken, hreleased⟩
  obtain ⟨s₁, hmore, h₁⟩ := hone.more (fun _ _ => []) 256
  obtain ⟨s', hrelease, hgone, htaken', hreleased'⟩ := h₁.release
  refine ⟨s₀, s', hi,
    (hr.trans hmore).tail ⟨_, trivial, .release 1 0 h₁.free hrelease⟩, htaken', hreleased', hgone,
    fun hexclusive => ?_⟩
  have howner' := (hexclusive.owner 0 1).mpr (.inl (by omega))
  rw [hgone] at howner'
  cases howner'

end Mutexes

end PandoraRobot.Ipc
