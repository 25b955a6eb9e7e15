import PandoraRobot.Kernel.Blocking

/-! # Events

`rt_event_send` and `rt_event_recv` of `ipc.c`, on any number of event objects.  A
stretch of code between `rt_hw_interrupt_disable` and `rt_hw_interrupt_enable` is one
step, and so is what a receive does after its `rt_schedule`.

A receive checks the set itself, and a send checks it for every waiter, in code of its
own.  Both mean the same: no thread waits for bits that are there, and a receive
reports the bits it was let through for.
-/

namespace PandoraRobot.Ipc

open PandoraRobot.Kernel PandoraRobot.RingList

/-- `RT_EVENT_FLAG_AND`. -/
def rtEventFlagAnd : BitVec 8 := 0x01
/-- `RT_EVENT_FLAG_OR`. -/
def rtEventFlagOr : BitVec 8 := 0x02
/-- `RT_EVENT_FLAG_CLEAR`. -/
def rtEventFlagClear : BitVec 8 := 0x04

/-- The check of a receive with `option` for the bits `asked`, against the set of the event. -/
def eventReceived (option : BitVec 8) (asked set : BitVec 32) : Bool :=
  if option &&& rtEventFlagAnd ≠ 0 then set &&& asked = asked
  else if option &&& rtEventFlagOr ≠ 0 then set &&& asked ≠ 0
  else false

/-- The event objects, and the fields of threads that belong to them. -/
structure EventState (T I : Type) where
  set : I → BitVec 32
  flag : I → IpcFlag
  /-- `thread->event_set`. -/
  eventSet : T → BitVec 32
  /-- `thread->event_info`. -/
  eventInfo : T → BitVec 8
  /-- For the record: the set that each waiter found when it was let through, and the set it
      left behind. -/
  found : T → BitVec 32
  left : T → BitVec 32

section Code

variable {T U I : Type} [DecidableEq T] [DecidableEq U] [DecidableEq I] [Fintype T] [Fintype U]

/-- A waiter whose condition is satisfied is let through. -/
def EventState.letThrough (i : I) (thread : T) (e : EventState T I) : EventState T I :=
  let info := e.eventInfo thread
  let set := e.set i
  let eventSet :=
    if info &&& rtEventFlagAnd ≠ 0 then e.eventSet thread else e.eventSet thread &&& set
  let set' := if info &&& rtEventFlagClear ≠ 0 then set &&& ~~~eventSet else set
  { e with
    set := Function.update e.set i set'
    eventSet := Function.update e.eventSet thread eventSet
    found := Function.update e.found thread set
    left := Function.update e.left thread set' }

/-- The walk of `rt_event_send` along the wait list of `i`, from the node `n` on. -/
def rtEventWalk (i : I) :
    Nat → ListHead I ⊕ T → EventState T I → State T U I → Exec (EventState T I × State T U I)
  | 0, _, _, _ => throw .outOfFuel
  | fuel + 1, n, e, k =>
    match n with
    | .inl head => if head = .suspend i then pure (e, k) else throw .wildPointer
    | .inr thread =>
      let next := k.tlist.next n
      if eventReceived (e.eventInfo thread) (e.eventSet thread) (e.set i) then do
        let (k, _) ← k.rtThreadResume thread
        rtEventWalk i fuel next (e.letThrough i thread) k
      else rtEventWalk i fuel next e k

/-- `rt_event_send`, up to the `rt_schedule` that follows where a thread was resumed. -/
def rtEventSend (i : I) (set : BitVec 32) (e : EventState T I) (k : State T U I) :
    Exec (EventState T I × State T U I × Err) := do
  if set = 0 then pure (e, k, .error)
  else
    let e := { e with set := Function.update e.set i (e.set i ||| set) }
    let (e, k) ← rtEventWalk i (Fintype.card T + 1) (k.tlist.next (.inl (.suspend i))) e k
    pure (e, k, .eok)

/-- What a receive does before it waits: it returns, with `*recved` if it succeeds, or waits. -/
inductive EventOut where
  | returned (err : Err) (recved : Option (BitVec 32))
  | waits
  deriving DecidableEq, Repr

/-- `rt_event_recv` up to `rt_schedule`.  It is not called in an interrupt. -/
def rtEventRecv (thread : T) (i : I) (set : BitVec 32) (option : BitVec 8) (timeout : Tick)
    (e : EventState T I) (k : State T U I) : Exec (EventState T I × State T U I × EventOut) := do
  if set = 0 then pure (e, k, .returned .error none)
  else
    let k := k.setError thread .eok
    rtAssert (option &&& rtEventFlagAnd ≠ 0 ∨ option &&& rtEventFlagOr ≠ 0)
    if eventReceived option set (e.set i) then
      let set' := if option &&& rtEventFlagClear ≠ 0 then e.set i &&& ~~~set else e.set i
      pure ({ e with set := Function.update e.set i set' }, k,
        .returned .eok (some (e.set i &&& set)))
    else if timeout = 0 then
      pure (e, k.setError thread .etimeout, .returned .etimeout none)
    else
      let e := { e with
        eventSet := Function.update e.eventSet thread set
        eventInfo := Function.update e.eventInfo thread option }
      let k ← k.waitOn i thread (e.flag i) timeout
      pure (e, k, .waits)

/-- `rt_event_recv` after `rt_schedule`. -/
def rtEventRecvReturn (thread : T) (e : EventState T I) (k : State T U I) :
    Err × Option (BitVec 32) :=
  if (k.thread thread).error ≠ .eok then ((k.thread thread).error, none)
  else ((k.thread thread).error, some (e.eventSet thread))

end Code

/-- Where a thread waits. -/
inductive EventPlace (I : Type) where
  | outside
  | receiving (i : I) (asked : BitVec 32) (option : BitVec 8)
  deriving DecidableEq, Repr

/-- The wait list a thread is in while it is suspended. -/
def EventPlace.waits {I : Type} : EventPlace I → Option I
  | .outside => none
  | .receiving i _ _ => some i

/-- A receive that has returned. -/
structure Receipt (T I : Type) where
  thread : T
  event : I
  asked : BitVec 32
  option : BitVec 8
  err : Err
  recved : Option (BitVec 32)
  /-- The set of the event when the receive was let through, if it was. -/
  found : BitVec 32
  /-- The set of the event right after that. -/
  left : BitVec 32
  deriving DecidableEq, Repr

/-- A receive that succeeded was let through for its condition, reported the bits it asked for
    as far as they were set, and cleared the bits it asked for if it was to. -/
structure Receipt.Sound {T I : Type} (r : Receipt T I) : Prop where
  received : eventReceived r.option r.asked r.found = true
  reported : r.recved = some (r.found &&& r.asked)
  satisfied : ∀ recved, r.recved = some recved → eventReceived r.option r.asked recved = true
  cleared : r.left = if r.option &&& rtEventFlagClear ≠ 0 then r.found &&& ~~~r.asked else r.found

/-- The kernel, the events, and where threads wait. -/
structure Events (T U I : Type) where
  kernel : State T U I
  events : EventState T I
  place : T → EventPlace I
  /-- The receives that have returned, the last one first. -/
  log : List (Receipt T I)

namespace Events

variable {T U I : Type} [DecidableEq T] [DecidableEq U] [Fintype U]

section

variable [DecidableEq I] [Fintype T]

def send (i : I) (set : BitVec 32) (s : Events T U I) : Exec (Events T U I) := do
  let (e, k, _) ← rtEventSend i set s.events s.kernel
  pure { s with kernel := k, events := e }

def recv (t : T) (i : I) (asked : BitVec 32) (option : BitVec 8) (timeout : Tick)
    (s : Events T U I) : Exec (Events T U I) := do
  let (e, k, out) ← rtEventRecv t i asked option timeout s.events s.kernel
  let s' := { s with kernel := k, events := e }
  match out with
  | .waits => pure { s' with place := Function.update s.place t (.receiving i asked option) }
  | .returned err recved =>
    pure { s' with
      log := ⟨t, i, asked, option, err, recved, s.events.set i, e.set i⟩ :: s.log }

def returns (t : T) (i : I) (asked : BitVec 32) (option : BitVec 8) (s : Events T U I) :
    Events T U I :=
  let (err, recved) := rtEventRecvReturn t s.events s.kernel
  { s with
    place := Function.update s.place t .outside
    log := ⟨t, i, asked, option, err, recved, s.events.found t, s.events.left t⟩ :: s.log }

/-- `t` runs and is in no call. -/
def Free (s : Events T U I) (t : T) : Prop := s.kernel.Running t ∧ s.place t = .outside

inductive Step (cb : State.Callback T U I) : Events T U I → Events T U I → Prop where
  | send {s s' : Events T U I} (i : I) (set : BitVec 32) : s.send i set = .ok s' → Step cb s s'
  | recv {s s' : Events T U I} (t : T) (i : I) (asked : BitVec 32) (option : BitVec 8)
      (timeout : Tick) : s.Free t → s.recv t i asked option timeout = .ok s' → Step cb s s'
  /-- `rt_schedule` has returned to a thread that waited. -/
  | returns {s : Events T U I} (t : T) (i : I) (asked : BitVec 32) (option : BitVec 8) :
      s.kernel.Running t → s.place t = .receiving i asked option →
      Step cb s (s.returns t i asked option)
  | elsewhere {s : Events T U I} {k : State T U I} :
      State.Elsewhere cb (fun t => s.place t ≠ .outside) s.kernel k →
      Step cb s { s with kernel := k }

abbrev Runs (cb : State.Callback T U I) : Events T U I → Events T U I → Prop :=
  Relation.ReflTransGen (Step cb)

/-- Any kernel state a run reaches in which no thread waits for an event, and any event sets. -/
structure Initial (cb : State.Callback T U I) (s : Events T U I) : Prop where
  reached : ∃ k₀, State.Initial k₀ ∧ State.Runs cb k₀ s.kernel
  empty : ∀ i, rtListIsempty (.inl (.suspend i)) s.kernel.tlist = true
  place : ∀ t, s.place t = .outside
  log : s.log = []

/-- `t` is suspended, waiting for `i`. -/
def Waits (s : Events T U I) (i : I) (t : T) : Prop :=
  (s.place t).waits = some i ∧ (s.kernel.thread t).stat = .suspend

instance (s : Events T U I) (i : I) (t : T) : Decidable (s.Waits i t) := by
  unfold Waits
  infer_instance

end

/-! ## Bits -/

variable {option : BitVec 8} {asked set mask : BitVec 32}

theorem eventReceived_and (h : option &&& rtEventFlagAnd ≠ 0) :
    eventReceived option asked set = true ↔ set &&& asked = asked := by
  rw [eventReceived, if_pos h, decide_eq_true_iff]

theorem eventReceived_or (hand : option &&& rtEventFlagAnd = 0) :
    eventReceived option asked set = true ↔
      option &&& rtEventFlagOr ≠ 0 ∧ set &&& asked ≠ 0 := by
  by_cases hor : option &&& rtEventFlagOr = 0 <;> simp [eventReceived, hand, hor]

/-- What is satisfied by less is satisfied by more. -/
theorem eventReceived_of_and (h : eventReceived option asked (set &&& mask) = true) :
    eventReceived option asked set = true := by
  by_cases hand : option &&& rtEventFlagAnd = 0
  · rw [eventReceived_or hand] at h ⊢
    refine ⟨h.1, fun hnone => h.2 ?_⟩
    rw [BitVec.and_assoc, BitVec.and_comm mask, ← BitVec.and_assoc, hnone]
    exact BitVec.zero_and
  · rw [eventReceived_and hand] at h ⊢
    calc set &&& asked = set &&& (set &&& mask &&& asked) := by rw [h]
      _ = set &&& mask &&& asked := by rw [← BitVec.and_assoc, ← BitVec.and_assoc, BitVec.and_self]
      _ = asked := h

/-- A condition is satisfied by the bits that count for it. -/
theorem eventReceived_reported (h : eventReceived option asked set = true) :
    eventReceived option asked (set &&& asked) = true := by
  by_cases hand : option &&& rtEventFlagAnd = 0
  · rw [eventReceived_or hand] at h ⊢
    rwa [BitVec.and_assoc, BitVec.and_self]
  · rw [eventReceived_and hand] at h ⊢
    rwa [BitVec.and_assoc, BitVec.and_self]

/-- To clear what was asked for and is set is to clear what was asked for. -/
theorem and_not_reported : set &&& ~~~(set &&& asked) = set &&& ~~~asked := by
  ext i hi
  simp only [BitVec.getElem_and, BitVec.getElem_not]
  cases set[i] <;> simp

/-- The narrowed bits are those of the condition that are set. -/
theorem narrowed (h : eventReceived option asked set = true) :
    (if option &&& rtEventFlagAnd ≠ 0 then asked else asked &&& set) = set &&& asked := by
  split
  case isTrue hand => exact ((eventReceived_and hand).mp h).symm
  case isFalse => exact BitVec.and_comm _ _

/-- A waiter is let through for the bits it asked for that are set, and it clears, if it is to,
    all bits it asked for. -/
theorem letThrough_eq {T I : Type} [DecidableEq T] [DecidableEq I] {e : EventState T I} {t : T}
    {i : I} (h : eventReceived (e.eventInfo t) (e.eventSet t) (e.set i) = true) :
    e.letThrough i t =
      let left := if e.eventInfo t &&& rtEventFlagClear ≠ 0 then e.set i &&& ~~~e.eventSet t
        else e.set i
      { e with
        set := Function.update e.set i left
        eventSet := Function.update e.eventSet t (e.set i &&& e.eventSet t)
        found := Function.update e.found t (e.set i)
        left := Function.update e.left t left } := by
  simp only [EventState.letThrough, narrowed h, and_not_reported]

/-! ## Waiters -/

/-- Which wait list each thread is in, while it is suspended. -/
def waiting (place : T → EventPlace I) : T → Option I := EventPlace.waits ∘ place

/-- What is known of a receive for `asked`, where a send has not come to the threads of `rest`. -/
structure Slot (e : EventState T I) (v : View T I) (rest : List T) (t : T) (i : I)
    (asked : BitVec 32) (option : BitVec 8) : Prop where
  info : e.eventInfo t = option
  eventSet : (v.thread t).stat = .suspend → e.eventSet t = asked
  unsatisfied : (v.thread t).stat = .suspend → t ∉ rest →
    eventReceived option asked (e.set i) = false
  sound : (v.thread t).stat ≠ .suspend → (v.thread t).error = .eok →
    Receipt.Sound
      (⟨t, i, asked, option, .eok, some (e.eventSet t), e.found t, e.left t⟩ : Receipt T I)

def Slots (place : T → EventPlace I) (e : EventState T I) (v : View T I) (rest : List T) : Prop :=
  ∀ t i asked option, place t = .receiving i asked option → Slot e v rest t i asked option

variable {cb : State.Callback T U I} {s s' : Events T U I} {v v' : View T I} {t : T} {i j : I}
  {place : T → EventPlace I} {e e' : EventState T I} {k k' : State T U I} {rest : List T}

theorem waiting_update (place : T → EventPlace I) (t : T) (a : EventPlace I) :
    waiting (Function.update place t a) = Function.update (waiting place) t a.waits :=
  Function.comp_update _ _ _ _

section

omit [DecidableEq T]

theorem waiting_eq_none : waiting place t = none ↔ place t = .outside := by
  unfold waiting
  cases hplace : place t <;> simp [hplace, EventPlace.waits]

theorem waiting_eq_some :
    waiting place t = some i ↔ ∃ asked option, place t = .receiving i asked option := by
  unfold waiting
  cases hplace : place t <;> simp [hplace, EventPlace.waits, eq_comm]

/-- Only whether the receivers are suspended, and their errors, matter. -/
theorem Slots.congr (h : Slots place e v rest)
    (hsame : ∀ t, place t ≠ .outside → (v'.thread t).stat = (v.thread t).stat ∧
      (v'.thread t).error = (v.thread t).error) : Slots place e v' rest := by
  intro t i asked option hplace
  obtain ⟨hinfo, hasked, hun, hsound⟩ := h t i asked option hplace
  obtain ⟨hstat, herror⟩ := hsame t (by simp [hplace])
  rw [← hstat] at hasked hun hsound
  rw [← herror] at hsound
  exact ⟨hinfo, hasked, hun, hsound⟩

end

/-- Fields of a thread outside do not matter. -/
theorem Slots.modify (h : Slots place e v rest) (hplace : place t = .outside)
    {f : Thread → Thread} : Slots place e (v.modifyThread t f) rest := by
  apply h.congr
  intro u hu
  have hne : u ≠ t := by
    rintro rfl
    exact hu hplace
  simp [hne]

omit [DecidableEq T] in
variable [DecidableEq I] in
/-- Bits that are cleared let no one through. -/
theorem Slots.clear (h : Slots place e v rest) (mask : BitVec 32) :
    Slots place { e with set := Function.update e.set i (e.set i &&& mask) } v rest := by
  intro t j asked option hplace
  obtain ⟨hinfo, hasked, hun, hsound⟩ := h t j asked option hplace
  refine ⟨hinfo, hasked, fun hstat hrest => ?_, hsound⟩
  by_cases hji : j = i
  · subst hji
    have hfalse := hun hstat hrest
    rw [Bool.eq_false_iff] at hfalse ⊢
    intro hreceived
    simp only [Function.update_self] at hreceived
    exact hfalse (eventReceived_of_and hreceived)
  · simpa [hji] using hun hstat hrest

theorem Slots.envs {busy : T → Prop} (h : Slots place e v rest)
    (hplace : ∀ t, place t ≠ .outside → busy t)
    (hsteps : Relation.ReflTransGen (View.Env busy) v v') : Slots place e v' rest := by
  induction hsteps with
  | refl => exact h
  | tail _ hstep ih =>
    cases hstep with
    | other hthread hwaits =>
      apply ih.congr
      intro t ht
      obtain ⟨n, hn⟩ := hthread t (hplace t ht)
      rw [hn]
      exact ⟨rfl, rfl⟩
    | timeout u hbusy hstat =>
      intro t i asked option ht
      obtain ⟨hinfo, hasked, hun, hsound⟩ := ih t i asked option ht
      by_cases htu : t = u
      · subst htu
        exact ⟨hinfo, by simp, by simp, by simp⟩
      · exact ⟨hinfo, by simpa [htu] using hasked, by simpa [htu] using hun,
          by simpa [htu] using hsound⟩

variable [DecidableEq I] in
/-- The thread a send has come to is let through. -/
theorem Slots.letThrough (h : Slots place e v (t :: rest)) (hkept : View.Kept (waiting place) v)
    (hmem : t ∈ v.waits i) (hreceived : eventReceived (e.eventInfo t) (e.eventSet t) (e.set i)) :
    Slots place (e.letThrough i t) (v.wake t) rest := by
  obtain ⟨hwaits, hstat⟩ := (hkept.member i t).mp hmem
  obtain ⟨asked, option, hplace⟩ := waiting_eq_some.mp hwaits
  obtain ⟨hinfo, hasked, -, -⟩ := h t i asked option hplace
  have hset := hasked hstat
  rw [hinfo, hset] at hreceived
  intro u j asked' option' hu
  by_cases hut : u = t
  · subst hut
    rw [hplace] at hu
    cases hu
    refine ⟨hinfo, by simp, by simp, fun _ _ => ?_⟩
    simp only [EventState.letThrough, Function.update_self, hinfo, hset, narrowed hreceived]
    refine ⟨hreceived, rfl, ?_, ?_⟩
    · intro recved hrecved
      cases hrecved
      exact eventReceived_reported hreceived
    · rw [and_not_reported]
  · obtain ⟨hinfo', hasked', hun', hsound'⟩ := h u j asked' option' hu
    refine ⟨hinfo', ?_, fun hsuspend hrest => ?_, ?_⟩
    · simpa [EventState.letThrough, hut] using hasked'
    · have hfalse := hun' (by simpa [hut] using hsuspend) (by simp [hut, hrest])
      by_cases hji : j = i
      · subst hji
        rw [Bool.eq_false_iff] at hfalse ⊢
        intro hmore
        simp only [EventState.letThrough, Function.update_self] at hmore
        split at hmore
        · exact hfalse (eventReceived_of_and hmore)
        · exact hfalse hmore
      · simpa [EventState.letThrough, hji] using hfalse
    · simpa [EventState.letThrough, hut] using hsound'

/-- A thread a send has come to stays. -/
theorem Slots.pass (h : Slots place e v (t :: rest)) (hkept : View.Kept (waiting place) v)
    (hmem : t ∈ v.waits i)
    (hnot : eventReceived (e.eventInfo t) (e.eventSet t) (e.set i) = false) :
    Slots place e v rest := by
  obtain ⟨hwaits, hstat⟩ := (hkept.member i t).mp hmem
  obtain ⟨asked, option, hplace⟩ := waiting_eq_some.mp hwaits
  intro u j asked' option' hu
  obtain ⟨hinfo, hasked, hun, hsound⟩ := h u j asked' option' hu
  refine ⟨hinfo, hasked, fun hsuspend hrest => ?_, hsound⟩
  by_cases hut : u = t
  · subst hut
    rw [hplace] at hu
    cases hu
    rwa [hinfo, hasked hstat] at hnot
  · exact hun hsuspend (by simp [hut, hrest])

variable [DecidableEq I] [Fintype T]

/-- The walk of a send lets through whom it can.  It goes on in `rest`, past the threads of
    `passed`. -/
theorem rtEventWalk_slots : ∀ {fuel : Nat} {e : EventState T I} {k : State T U I} {v : View T I}
    {passed rest : List T}, State.Shows 0 k v → View.Kept (waiting place) v →
    Slots place e v rest → v.waits i = passed ++ rest → rest.length < fuel →
    ∃ e' k' v', rtEventWalk i fuel (firstOr (.suspend i) rest) e k = .ok (e', k') ∧
      State.Shows 0 k' v' ∧ View.Kept (waiting place) v' ∧ Slots place e' v' [] := by
  intro fuel
  induction fuel with
  | zero => intro e k v passed rest _ _ _ _ hfuel; omega
  | succ fuel ih =>
    intro e k v passed rest hs hkept hslots hlist hfuel
    cases rest with
    | nil => exact ⟨e, k, v, by simp [rtEventWalk, pure, Except.pure], hs, hkept, hslots⟩
    | cons t rest =>
      have hmem : t ∈ v.waits i := by simp [hlist]
      have hnext := hs.next hlist
      have hlength : rest.length < fuel := by simpa using hfuel
      rw [firstOr_cons, rtEventWalk]
      simp only [hnext]
      split
      case isTrue hreceived =>
        obtain ⟨k₁, hresume, hs₁⟩ := hs.rtThreadResume_returns (hs.suspended hmem)
        have hgone : (v.wake t).waits i = passed ++ rest := by
          have hnodup := hs.nodup i
          rw [hlist, List.nodup_middle, List.nodup_cons] at hnodup
          have hnot : t ∉ passed := fun hm => hnodup.1 (by simp [hm])
          simp [hlist, List.erase_append_right _ hnot]
        obtain ⟨e', k', v', hwalk, hend⟩ :=
          ih hs₁ hkept.wake (hslots.letThrough hkept hmem hreceived) hgone hlength
        refine ⟨e', k', v', ?_, hend⟩
        simp [hresume, hwalk, bind, Except.bind]
      case isFalse hnot =>
        have hpass := hslots.pass hkept hmem (by simpa using hnot)
        exact ih hs hkept hpass (by simp [hlist] : v.waits i = (passed ++ [t]) ++ rest) hlength

end Events

end PandoraRobot.Ipc
