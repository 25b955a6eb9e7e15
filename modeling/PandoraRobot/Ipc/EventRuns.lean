import PandoraRobot.Ipc.Event

/-! # Runs of events

In every state a run of sends and receives reaches, no thread waits for bits that are
set, and the receives that have returned were let through for what they report.  For a
sole receiver it makes no difference whether the send comes before it or after.
-/

namespace PandoraRobot.Ipc

open PandoraRobot.Kernel PandoraRobot.RingList

namespace Events

variable {T U I : Type}

structure Inv (s : Events T U I) (v : View T I) : Prop where
  shows_ : State.Shows 0 s.kernel v
  kept : View.Kept (waiting s.place) v
  slots : Slots s.place s.events v []
  log : ∀ r ∈ s.log, r.err = .eok → r.Sound

variable {cb : State.Callback T U I} {s s' : Events T U I} {v v' : View T I} {t : T} {i j : I}
  {set asked : BitVec 32} {option : BitVec 8} {timeout : Tick}

theorem Inv.waits_iff (hi : Inv s v) : s.Waits i t ↔ t ∈ v.waits i := by
  rw [hi.kept.member, Waits, hi.shows_.thread]
  rfl

/-! ## The steps -/

variable [DecidableEq T] [DecidableEq U] [DecidableEq I] [Fintype T]

/-- The events after `set` has been sent to `i`, but for the waiters. -/
def raised (i : I) (set : BitVec 32) (e : EventState T I) : EventState T I :=
  { e with set := Function.update e.set i (e.set i ||| set) }

theorem send_of_walk (hset : set ≠ 0) {e : EventState T I} {k : State T U I}
    (hwalk : rtEventWalk i (Fintype.card T + 1) (s.kernel.tlist.next (.inl (.suspend i)))
      (raised i set s.events) s.kernel = .ok (e, k)) :
    s.send i set = .ok { s with kernel := k, events := e } := by
  simp only [Events.send, rtEventSend, if_neg hset]
  exact exec_bind_ok.mpr ⟨(e, k, .eok), exec_bind_ok.mpr ⟨_, hwalk, rfl⟩, rfl⟩

variable [Fintype U]

theorem Inv.send (hi : Inv s v) (i : I) (set : BitVec 32) :
    ∃ s' v', s.send i set = .ok s' ∧ Inv s' v' := by
  by_cases hzero : set = 0
  · exact ⟨s, v, by simp [Events.send, rtEventSend, hzero, bind, Except.bind, pure, Except.pure], hi⟩
  have hslots : Slots s.place (raised i set s.events) v (v.waits i) := by
    intro u j asked option hplace
    obtain ⟨hinfo, hset, hun, hsound⟩ := hi.slots u j asked option hplace
    refine ⟨hinfo, hset, fun hstat hrest => ?_, hsound⟩
    -- who waits for `i` is still to come
    have hji : j ≠ i := by
      rintro rfl
      apply hrest
      rw [hi.kept.member]
      exact ⟨waiting_eq_some.mpr ⟨_, _, hplace⟩, hstat⟩
    simpa [raised, hji] using hun hstat (by simp)
  have hfuel : (v.waits i).length < Fintype.card T + 1 :=
    Nat.lt_succ_of_le (hi.shows_.nodup i).length_le_card
  obtain ⟨e', k', v', hwalk, hs', hkept, hslots'⟩ :=
    rtEventWalk_slots hi.shows_ hi.kept hslots (List.nil_append _).symm hfuel
  rw [← hi.shows_.next_head] at hwalk
  exact ⟨_, v', send_of_walk hzero hwalk, hs', hkept, hslots', hi.log⟩

/-- What `rt_event_recv` does before it waits, for a running thread and a proper call. -/
theorem recv_cases (h : s.recv t i asked option timeout = .ok s') :
    (asked = 0 ∧ s' = { s with
      log := ⟨t, i, asked, option, .error, none, s.events.set i, s.events.set i⟩ :: s.log }) ∨
    (asked ≠ 0 ∧ eventReceived option asked (s.events.set i) = true ∧
      ∃ left, left = (if option &&& rtEventFlagClear ≠ 0 then s.events.set i &&& ~~~asked
        else s.events.set i) ∧
      s' = { s with
        kernel := s.kernel.setError t .eok
        events := { s.events with set := Function.update s.events.set i left }
        log := ⟨t, i, asked, option, .eok, some (s.events.set i &&& asked), s.events.set i, left⟩
          :: s.log }) ∨
    (asked ≠ 0 ∧ eventReceived option asked (s.events.set i) = false ∧
      ∃ k found left, k = (s.kernel.setError t .eok).setError t .etimeout ∧ s' = { s with
        kernel := k
        log := ⟨t, i, asked, option, .etimeout, none, found, left⟩ :: s.log }) ∨
    (asked ≠ 0 ∧ eventReceived option asked (s.events.set i) = false ∧ timeout ≠ 0 ∧
      (option &&& rtEventFlagAnd ≠ 0 ∨ option &&& rtEventFlagOr ≠ 0) ∧
      ∃ k, (s.kernel.setError t .eok).waitOn i t (s.events.flag i) timeout = .ok k ∧ s' = { s with
        kernel := k
        events := { s.events with
          eventSet := Function.update s.events.eventSet t asked
          eventInfo := Function.update s.events.eventInfo t option }
        place := Function.update s.place t (.receiving i asked option) }) := by
  simp only [Events.recv, rtEventRecv, exec_bind_ok] at h
  obtain ⟨⟨e, k, out⟩, hrecv, h⟩ := h
  split at hrecv
  case isTrue hzero =>
    simp only [exec_pure_ok, Prod.mk.injEq] at hrecv
    obtain ⟨rfl, rfl, rfl⟩ := hrecv
    simp only [exec_pure_ok] at h
    exact .inl ⟨hzero, h.symm⟩
  case isFalse hasked =>
    simp only [exec_bind_ok, rtAssert_eq_ok] at hrecv
    obtain ⟨_, hflags, hrecv⟩ := hrecv
    split at hrecv
    case isTrue hreceived =>
      simp only [exec_pure_ok, Prod.mk.injEq] at hrecv
      obtain ⟨rfl, rfl, rfl⟩ := hrecv
      simp only [exec_pure_ok, Function.update_self] at h
      exact .inr (.inl ⟨hasked, hreceived, _, rfl, h.symm⟩)
    case isFalse hnot =>
      rw [Bool.not_eq_true] at hnot
      split at hrecv
      case isTrue =>
        simp only [exec_pure_ok, Prod.mk.injEq] at hrecv
        obtain ⟨rfl, rfl, rfl⟩ := hrecv
        simp only [exec_pure_ok] at h
        exact .inr (.inr (.inl ⟨hasked, hnot, _, _, _, rfl, h.symm⟩))
      case isFalse htimeout =>
        simp only [exec_bind_ok, exec_pure_ok, Prod.mk.injEq] at hrecv
        obtain ⟨k₁, hwait, rfl, rfl, rfl⟩ := hrecv
        simp only [exec_pure_ok] at h
        exact .inr (.inr (.inr ⟨hasked, hnot, htimeout, hflags, k₁, hwait, h.symm⟩))

omit [DecidableEq T] [DecidableEq U] [DecidableEq I] [Fintype T] [Fintype U] in
/-- A log goes on with a receive that fails, or that is sound. -/
theorem Inv.logged (hi : Inv s v) {r : Receipt T I} (hr : r.err = .eok → r.Sound) :
    ∀ r' ∈ r :: s.log, r'.err = .eok → r'.Sound := by
  intro r' hr'
  cases List.mem_cons.mp hr' with
  | inl heq => exact heq ▸ hr
  | inr hmem => exact hi.log r' hmem

omit [DecidableEq U] [Fintype T] [Fintype U] in
/-- A receive that is let through at once. -/
theorem Inv.received (hi : Inv s v) (hplace : s.place t = .outside)
    (hreceived : eventReceived option asked (s.events.set i) = true) {left : BitVec 32}
    (hleft : left = if option &&& rtEventFlagClear ≠ 0 then s.events.set i &&& ~~~asked
      else s.events.set i) :
    ∃ v', Inv { s with
      kernel := s.kernel.setError t .eok
      events := { s.events with set := Function.update s.events.set i left }
      log := ⟨t, i, asked, option, .eok, some (s.events.set i &&& asked), s.events.set i, left⟩
        :: s.log } v' := by
  have hnowhere := waiting_eq_none.mpr hplace
  have hkept := hi.kept.modify (t := t) (f := fun th => { th with error := .eok }) rfl
    (fun hne => absurd hnowhere hne)
  have hmask : ∃ mask, left = s.events.set i &&& mask := by
    rw [hleft]
    split
    · exact ⟨_, rfl⟩
    · exact ⟨_, BitVec.and_allOnes.symm⟩
  obtain ⟨mask, hmask⟩ := hmask
  have hslots := (hi.slots.clear (i := i) mask).modify hplace (f := fun th => { th with error := .eok })
  rw [← hmask] at hslots
  refine ⟨_, hi.shows_.setError .eok, hkept, hslots, hi.logged fun _ => ⟨hreceived, rfl, ?_, hleft⟩⟩
  intro recved hrecved
  cases hrecved
  exact eventReceived_reported hreceived

/-- A receive that waits. -/
theorem Inv.wait (hi : Inv s v) (hfree : s.Free t)
    (hnot : eventReceived option asked (s.events.set i) = false) {k : State T U I}
    (hwait : (s.kernel.setError t .eok).waitOn i t (s.events.flag i) timeout = .ok k) :
    ∃ xs ys, v.waits i = xs ++ ys ∧ Inv { s with
        kernel := k
        events := { s.events with
          eventSet := Function.update s.events.eventSet t asked
          eventInfo := Function.update s.events.eventInfo t option }
        place := Function.update s.place t (.receiving i asked option) }
      ((v.modifyThread t fun th => { th with error := .eok }).enqueue i xs t ys) := by
  obtain ⟨⟨-, hready⟩, hplace⟩ := hfree
  rw [hi.shows_.thread] at hready
  have hnowhere := waiting_eq_none.mpr hplace
  obtain ⟨xs, ys, hsplit, -, hs'⟩ :=
    (hi.shows_.setError (t := t) .eok).waitOn (by simpa using hready) hwait
  have hkept := hi.kept.modify (t := t) (f := fun th => { th with error := .eok }) rfl
    (fun _ _ => rfl)
  refine ⟨xs, ys, hsplit, hs', ?_, ?_, hi.log⟩
  · rw [waiting_update]
    exact hkept.enqueue hnowhere hsplit (by simp)
  · intro u j asked' option' hu
    by_cases hut : u = t
    · subst hut
      simp only [Function.update_self, EventPlace.receiving.injEq] at hu
      obtain ⟨rfl, rfl, rfl⟩ := hu
      exact ⟨by simp, by simp, fun _ _ => hnot, by simp⟩
    · obtain ⟨hinfo, hset, hun, hsound⟩ := hi.slots u j asked' option' (by simpa [hut] using hu)
      exact ⟨by simpa [hut] using hinfo, by simpa [hut] using hset, by simpa [hut] using hun,
        by simpa [hut] using hsound⟩

theorem Inv.recv (hi : Inv s v) (hfree : s.Free t)
    (h : s.recv t i asked option timeout = .ok s') : ∃ v', Inv s' v' := by
  have hplace := hfree.2
  have hnowhere := waiting_eq_none.mpr hplace
  obtain ⟨-, rfl⟩ | ⟨-, hreceived, left, hleft, rfl⟩ | ⟨-, -, k, found, left, rfl, rfl⟩ |
    ⟨-, hnot, -, -, k, hwait, rfl⟩ := recv_cases h
  · exact ⟨v, hi.shows_, hi.kept, hi.slots, hi.logged (by simp)⟩
  · exact hi.received hplace hreceived hleft
  · have hkept := hi.kept.modify (t := t) (f := fun th => { th with error := .eok }) rfl
      (fun hne => absurd hnowhere hne)
    have hkept' := hkept.modify (t := t) (f := fun th => { th with error := .etimeout }) rfl
      (fun hne => absurd hnowhere hne)
    exact ⟨_, (hi.shows_.setError .eok).setError .etimeout, hkept',
      (hi.slots.modify hplace).modify hplace, hi.logged (by simp)⟩
  · obtain ⟨xs, ys, -, hi'⟩ := hi.wait hfree hnot hwait
    exact ⟨_, hi'⟩

section

omit [DecidableEq U] [DecidableEq I] [Fintype T] [Fintype U]

theorem returns_log : (s.returns t i asked option).log =
    ⟨t, i, asked, option, (rtEventRecvReturn t s.events s.kernel).1,
      (rtEventRecvReturn t s.events s.kernel).2, s.events.found t, s.events.left t⟩ :: s.log := rfl

theorem Inv.returns (hi : Inv s v) (hrunning : s.kernel.Running t)
    (hplace : s.place t = .receiving i asked option) :
    Inv (s.returns t i asked option) v := by
  have hstat := hrunning.2
  rw [hi.shows_.thread] at hstat
  have hne : (v.thread t).stat ≠ .suspend := by simp [hstat]
  refine ⟨hi.shows_, ?_, ?_, ?_⟩
  · show View.Kept (waiting (Function.update s.place t .outside)) v
    rw [waiting_update]
    exact hi.kept.leave hne
  · intro u j asked' option' hu
    apply hi.slots
    by_cases hut : u = t
    · subst hut
      simp [Events.returns] at hu
    · simpa [Events.returns, hut] using hu
  · rw [returns_log]
    apply hi.logged
    intro herror
    have hsound := (hi.slots t i asked option hplace).sound hne
    rw [← hi.shows_.thread] at hsound
    by_cases hok : (s.kernel.thread t).error = .eok
    · have hout : rtEventRecvReturn t s.events s.kernel = (.eok, some (s.events.eventSet t)) := by
        simp [rtEventRecvReturn, hok]
      rw [hout]
      exact hsound hok
    · simp [rtEventRecvReturn, hok] at herror

end

theorem Inv.elsewhere (hi : Inv s v) {k : State T U I}
    (h : State.Elsewhere cb (fun t => s.place t ≠ .outside) s.kernel k) :
    ∃ v', Inv { s with kernel := k } v' := by
  have hbusy : ∀ t, waiting s.place t ≠ none → s.place t ≠ .outside :=
    fun _ hne hplace => hne (waiting_eq_none.mpr hplace)
  obtain ⟨v', hsteps, hs'⟩ := hi.shows_.elsewhere (hi.kept.members_busy hbusy) h
  exact ⟨v', hs', hi.kept.envs hbusy hsteps, hi.slots.envs (fun _ h => h) hsteps, hi.log⟩

theorem Inv.step (hi : Inv s v) (h : Step cb s s') : ∃ v', Inv s' v' := by
  cases h with
  | send i set hsend =>
    obtain ⟨s₁, v₁, hok, hi₁⟩ := hi.send i set
    exact ⟨v₁, Except.ok.inj (hok.symm.trans hsend) ▸ hi₁⟩
  | recv t i asked option timeout hfree hrecv => exact hi.recv hfree hrecv
  | returns t i asked option hrunning hplace => exact ⟨v, hi.returns hrunning hplace⟩
  | elsewhere helse => exact hi.elsewhere helse

theorem Initial.inv (h : Initial cb s) : ∃ v, Inv s v := by
  obtain ⟨k₀, hboot, hruns⟩ := h.reached
  obtain ⟨v, hs⟩ := (State.runs_good hboot hruns).shows
  have hnil : ∀ i, v.waits i = [] := by
    intro i
    have := h.empty i
    rw [hs.isempty] at this
    simpa using this
  refine ⟨v, hs, ?_, fun t i asked option hplace => ?_, by simp [h.log]⟩
  · constructor <;> simp [hnil, h.place, waiting, EventPlace.waits]
  · simp [h.place] at hplace

theorem Runs.inv {s₀ : Events T U I} (hr : Runs cb s₀ s) (hi : Initial cb s₀) :
    ∃ v, Inv s v := by
  induction hr with
  | refl => exact hi.inv
  | tail _ hstep ih =>
    obtain ⟨v, hv⟩ := ih
    exact hv.step hstep

/-! ## A sole receiver -/

omit [Fintype U] in
/-- A send to an event for which no thread waits. -/
theorem Inv.send_none (hi : Inv s v) (hnone : v.waits i = []) (hset : set ≠ 0) :
    s.send i set = .ok { s with events := raised i set s.events } := by
  apply send_of_walk hset
  rw [hi.shows_.next_head, hnone, firstOr_nil]
  simp [rtEventWalk, pure, Except.pure]

/-- A send to an event for which one thread waits. -/
theorem Inv.send_one (hi : Inv s v) (hone : v.waits i = [t]) (hset : set ≠ 0) :
    (eventReceived (s.events.eventInfo t) (s.events.eventSet t) (s.events.set i ||| set) = true ∧
      ∃ k, State.Shows 0 k (v.wake t) ∧ s.send i set = .ok { s with
        kernel := k, events := (raised i set s.events).letThrough i t }) ∨
    (eventReceived (s.events.eventInfo t) (s.events.eventSet t) (s.events.set i ||| set) = false ∧
      s.send i set = .ok { s with events := raised i set s.events }) := by
  have hsplit : v.waits i = [] ++ t :: [] := hone
  have hnext := hi.shows_.next hsplit
  have hmem : t ∈ v.waits i := by simp [hone]
  obtain ⟨k, hresume, hs'⟩ := hi.shows_.rtThreadResume_returns (hi.shows_.suspended hmem)
  obtain ⟨n, hn⟩ : ∃ n, Fintype.card T = n + 1 :=
    Nat.exists_eq_succ_of_ne_zero (Fintype.card_pos_iff.mpr ⟨t⟩).ne'
  have hraised : (raised i set s.events).set i = s.events.set i ||| set := by simp [raised]
  cases hreceived : eventReceived (s.events.eventInfo t) (s.events.eventSet t)
      (s.events.set i ||| set) with
  | true =>
    refine .inl ⟨rfl, k, hs', send_of_walk hset ?_⟩
    have hlet : eventReceived ((raised i set s.events).eventInfo t)
      ((raised i set s.events).eventSet t) ((raised i set s.events).set i) = true :=
      hraised ▸ hreceived
    rw [hi.shows_.next_head, hone, firstOr_cons, rtEventWalk]
    simp only [hlet, if_true, hnext, firstOr_nil, hresume, hn]
    simp [rtEventWalk, bind, Except.bind, pure, Except.pure]
  | false =>
    refine .inr ⟨rfl, send_of_walk hset ?_⟩
    have hnot : eventReceived ((raised i set s.events).eventInfo t)
      ((raised i set s.events).eventSet t) ((raised i set s.events).set i) = false :=
      hraised ▸ hreceived
    rw [hi.shows_.next_head, hone, firstOr_cons, rtEventWalk]
    simp only [hnot, Bool.false_eq_true, if_false, hnext, firstOr_nil, hn]
    simp [rtEventWalk, pure, Except.pure]

/-- A receive whose condition is satisfied. -/
theorem recv_received (timeout : Tick) (hasked : asked ≠ 0)
    (hflags : option &&& rtEventFlagAnd ≠ 0 ∨ option &&& rtEventFlagOr ≠ 0)
    (hreceived : eventReceived option asked (s.events.set i) = true) :
    ∃ left, left = (if option &&& rtEventFlagClear ≠ 0 then s.events.set i &&& ~~~asked
        else s.events.set i) ∧
      s.recv t i asked option timeout = .ok { s with
        kernel := s.kernel.setError t .eok
        events := { s.events with set := Function.update s.events.set i left }
        log := ⟨t, i, asked, option, .eok, some (s.events.set i &&& asked), s.events.set i, left⟩
          :: s.log } := by
  refine ⟨_, rfl, ?_⟩
  simp only [Events.recv, rtEventRecv, if_neg hasked, hreceived, if_true]
  rw [exec_bind_ok]
  refine ⟨_, exec_bind_ok.mpr ⟨(), rtAssert_eq_ok.mpr hflags, rfl⟩, ?_⟩
  simp [pure, Except.pure]

/-- A receive that has to wait. -/
theorem recv_waits (hasked : asked ≠ 0)
    (hflags : option &&& rtEventFlagAnd ≠ 0 ∨ option &&& rtEventFlagOr ≠ 0)
    (hnot : eventReceived option asked (s.events.set i) = false) (htimeout : timeout ≠ 0)
    {k : State T U I}
    (hwait : (s.kernel.setError t .eok).waitOn i t (s.events.flag i) timeout = .ok k) :
    s.recv t i asked option timeout = .ok { s with
      kernel := k
      events := { s.events with
        eventSet := Function.update s.events.eventSet t asked
        eventInfo := Function.update s.events.eventInfo t option }
      place := Function.update s.place t (.receiving i asked option) } := by
  simp only [Events.recv, rtEventRecv, if_neg hasked, hnot, if_neg htimeout, Bool.false_eq_true,
    if_false]
  rw [exec_bind_ok]
  exact ⟨_, exec_bind_ok.mpr ⟨(), rtAssert_eq_ok.mpr hflags, exec_bind_ok.mpr ⟨k, hwait, rfl⟩⟩, rfl⟩

/-- Waiting first and then a send comes to the same as the same send and then the receive. -/
def SendEitherWay (s : Events T U I) (t : T) (i : I) (asked : BitVec 32) (option : BitVec 8)
    (timeout : Tick) (set : BitVec 32) (waiting : Events T U I) : Prop :=
  ∃ woken raised received, waiting.send i set = .ok woken ∧ s.send i set = .ok raised ∧
    raised.recv t i asked option timeout = .ok received ∧
    woken.events.set i = received.events.set i ∧ (woken.Waits i t ↔ received.Waits i t) ∧
    (¬ woken.Waits i t → (woken.returns t i asked option).log = received.log)

theorem Inv.sendEitherWay (hi : Inv s v) (hfree : s.Free t) (hsole : ∀ u, ¬ s.Waits i u)
    (hrecv : s.recv t i asked option timeout = .ok s') (hwaits : s'.Waits i t)
    (set : BitVec 32) : SendEitherWay s t i asked option timeout set s' := by
  -- the list is empty before the receive, and holds the one thread after it
  have hnil : v.waits i = [] := by
    rw [List.eq_nil_iff_forall_not_mem]
    intro u hu
    exact hsole u (hi.waits_iff.mpr hu)
  have hplace := hfree.2
  obtain ⟨-, rfl⟩ | ⟨-, -, left, -, rfl⟩ | ⟨-, -, k, found, left, -, rfl⟩ |
    ⟨hasked, hnot, htimeout, hflags, k, hwait, rfl⟩ := recv_cases hrecv
  -- only the last way through the receive waits
  · simp [Waits, hplace, EventPlace.waits] at hwaits
  · simp [Waits, hplace, EventPlace.waits] at hwaits
  · simp [Waits, hplace, EventPlace.waits] at hwaits
  obtain ⟨xs, ys, hsplit, hi'⟩ := hi.wait hfree hnot hwait
  rw [hnil] at hsplit
  obtain ⟨rfl, rfl⟩ := List.append_eq_nil_iff.mp hsplit.symm
  by_cases hset : set = 0
  · -- a send of nothing fails
    have hfails : ∀ s : Events T U I, s.send i set = .ok s := by
      intro s
      simp [Events.send, rtEventSend, hset, bind, Except.bind, pure, Except.pure]
    exact ⟨_, _, _, hfails _, hfails _, hrecv, rfl, Iff.rfl, fun h => absurd hwaits h⟩
  have hraised := hi.send_none hnil hset
  have hone : ((v.modifyThread t fun th => { th with error := .eok }).enqueue i [] t []).waits i
      = [t] := by simp
  obtain ⟨hreceived, k₁, hs₁, hsend⟩ | ⟨hfalse, hsend⟩ := hi'.send_one hone hset
  · -- the send lets the waiter through, and the receive that comes after it too
    have hlet := letThrough_eq (e := raised i set { s.events with
      eventSet := Function.update s.events.eventSet t asked
      eventInfo := Function.update s.events.eventInfo t option }) (i := i) (t := t)
      (by simpa [raised] using hreceived)
    simp only [Function.update_self] at hreceived
    have hmore : eventReceived option asked ((raised i set s.events).set i) = true := by
      simpa [raised] using hreceived
    obtain ⟨left, hleft, hthrough⟩ := recv_received
      (s := { s with events := raised i set s.events }) (t := t) timeout hasked hflags hmore
    rw [hlet] at hsend
    have hthread := hs₁.thread
    refine ⟨_, _, _, hsend, hraised, hthrough, ?_, ?_, fun _ => ?_⟩
    · simp [raised, hleft]
    · simp [Waits, hplace, EventPlace.waits, hthread]
    · rw [returns_log]
      simp [rtEventRecvReturn, hthread, raised, hleft]
  · -- neither is the waiter let through, nor the receive
    simp only [Function.update_self] at hfalse
    have hless : eventReceived option asked ((raised i set s.events).set i) = false := by
      simpa [raised] using hfalse
    have hstays := recv_waits (s := { s with events := raised i set s.events })
      hasked hflags hless htimeout hwait
    refine ⟨_, _, _, hsend, hraised, hstays, ?_, ?_, fun hnot => ?_⟩
    · simp [raised]
    · simp [Waits]
    · exact absurd hwaits hnot

/-- In every state a run reaches, no thread waits for bits that are set, every receive that has
    succeeded was let through for what it reports and has cleared what it asked for, a send
    always returns, and a sole receiver may as well come after the send that it waits for. -/
theorem event_meaning (cb : State.Callback T U I) {s₀ s : Events T U I} (hi : Initial cb s₀)
    (hr : Runs cb s₀ s) :
    (∀ t i asked option, s.place t = .receiving i asked option →
      (s.kernel.thread t).stat = .suspend →
      eventReceived option asked (s.events.set i) = false) ∧
    (∀ r ∈ s.log, r.err = .eok → r.Sound) ∧
    (∀ i set, ∃ s', s.send i set = .ok s') ∧
    (∀ t i asked option timeout s' set, s.Free t → (∀ u, ¬ s.Waits i u) →
      s.recv t i asked option timeout = .ok s' → s'.Waits i t →
      SendEitherWay s t i asked option timeout set s') := by
  obtain ⟨v, hv⟩ := hr.inv hi
  refine ⟨?_, hv.log, ?_, ?_⟩
  · intro t i asked option hplace hstat
    rw [hv.shows_.thread] at hstat
    exact (hv.slots t i asked option hplace).unsatisfied hstat (by simp)
  · intro i set
    obtain ⟨s', -, hsend, -⟩ := hv.send i set
    exact ⟨s', hsend⟩
  · intro t i asked option timeout s' set hfree hsole hrecv hwaits
    exact hv.sendEitherWay hfree hsole hrecv hwaits set

/-! ## Runs, event by event -/

inductive Event (T I : Type) where
  | send (i : I) (set : BitVec 32)
  | recv (t : T) (i : I) (asked : BitVec 32) (option : BitVec 8) (timeout : Tick)
  | returns (t : T)
  | schedule
  | tick

instance (s : Events T U I) (t : T) : Decidable (s.Free t) := by
  unfold Free State.Running
  infer_instance

def play (s : Events T U I) : Event T I → Exec (Events T U I)
  | .send i set => s.send i set
  | .recv t i asked option timeout => do
    rtAssert (s.Free t)
    s.recv t i asked option timeout
  | .returns t => do
    rtAssert (s.kernel.rtCurrentThread = some t ∧ (s.kernel.thread t).stat = .ready)
    match s.place t with
    | .outside => throw .assertion
    | .receiving i asked option => pure (s.returns t i asked option)
  | .schedule => do
    let k ← s.kernel.rtSchedule
    pure { s with kernel := k }
  | .tick => do
    let k ← s.kernel.rtTickIncrease (State.timeoutFunc fun _ _ => []) (Fintype.card (T ⊕ U) + 1)
    pure { s with kernel := k }

theorem play_step {event : Event T I} (h : s.play event = .ok s') :
    Step (fun _ _ => []) s s' := by
  cases event with
  | send i set => exact .send i set h
  | recv t i asked option timeout =>
    simp only [play, exec_bind_ok, rtAssert_eq_ok] at h
    obtain ⟨_, hfree, hrecv⟩ := h
    exact .recv t i asked option timeout hfree hrecv
  | returns t =>
    simp only [play, exec_bind_ok, rtAssert_eq_ok] at h
    obtain ⟨_, hrunning, h⟩ := h
    cases hplace : s.place t with
    | outside => simp [hplace] at h
    | receiving i asked option =>
      rw [hplace, exec_pure_ok] at h
      exact h ▸ .returns t i asked option hrunning hplace
  | schedule =>
    simp only [play, exec_bind_ok, exec_pure_ok] at h
    obtain ⟨k, hschedule, rfl⟩ := h
    exact .elsewhere (.call .schedule (by simp [State.Foreign, KernelOp.target])
      (by simp [KernelOp.own]) hschedule)
  | tick =>
    simp only [play, exec_bind_ok, exec_pure_ok] at h
    obtain ⟨k, htick, rfl⟩ := h
    exact .elsewhere (.tick _ (by simp) htick)

/-- A thread waits for two bits and gets them with the second of two sends, which clears them;
    another one waits for a bit that is not sent. -/
theorem event_meaning_two_receivers :
    ∃ s₀ s : Events Bool Empty Unit, Initial (fun _ _ => []) s₀ ∧ Runs (fun _ _ => []) s₀ s ∧
      s.log = [⟨true, (), 3, rtEventFlagAnd ||| rtEventFlagClear, .eok, some 3, 7, 4⟩] ∧
      s.Waits () false ∧
      (∀ t i asked option, s.place t = .receiving i asked option →
        (s.kernel.thread t).stat = .suspend →
        eventReceived option asked (s.events.set i) = false) ∧
      (∀ r ∈ s.log, r.err = .eok → r.Sound) := by
  let init (k : State Bool Empty Unit) : Events Bool Empty Unit :=
    ⟨k, ⟨fun _ => 0, fun _ => .prio, fun _ => 0, fun _ => 0, fun _ => 0, fun _ => 0⟩,
      fun _ => .outside, []⟩
  let run : Exec (State Bool Empty Unit × Events Bool Empty Unit) := do
    let k ← State.booted [(false, 12), (true, 10)]
    let s ← [Event.recv true () 3 (rtEventFlagAnd ||| rtEventFlagClear) 0xffffffff, .schedule,
      .send () 4, .send () 1, .recv false () 8 rtEventFlagOr 5, .send () 2, .schedule, .tick,
      .returns true].foldlM play (init k)
    pure (k, s)
  obtain ⟨⟨k, s⟩, hrun, hdata⟩ := exec_exists_ok (show
    run.map (fun x => decide ((∀ i, rtListIsempty (.inl (.suspend i)) x.1.tlist = true) ∧
      x.2.log = [⟨true, (), 3, rtEventFlagAnd ||| rtEventFlagClear, .eok, some 3, 7, 4⟩] ∧
      x.2.Waits () false)) = .ok true by decide +kernel)
  simp only [run, exec_bind_ok, exec_pure_ok, Prod.mk.injEq] at hrun
  obtain ⟨k, hk, s, hplay, rfl, rfl⟩ := hrun
  obtain ⟨hempty, hlog, hwaits⟩ := of_decide_eq_true hdata
  have hinitial : Initial (fun _ _ => []) (init k) :=
    ⟨State.booted_reached hk, hempty, fun _ => rfl, rfl⟩
  have hruns : Runs (fun _ _ => []) (init k) s := foldlM_runs (fun _ _ _ => play_step) hplay
  obtain ⟨hnot, hsound, -, -⟩ := event_meaning _ hinitial hruns
  exact ⟨init k, s, hinitial, hruns, hlog, hwaits, hnot, hsound⟩

end Events

end PandoraRobot.Ipc
