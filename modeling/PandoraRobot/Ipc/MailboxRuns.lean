import PandoraRobot.Ipc.Mailbox

/-! # Runs of mailboxes

Every step of senders, receivers and the rest of the kernel keeps the mailboxes
first-in first-out queues and loses no wake-up, and so does every run.
-/

namespace PandoraRobot.Ipc

open PandoraRobot.Kernel PandoraRobot.RingBuffer

namespace Mailboxes

variable {T U I : Type} [DecidableEq T] [DecidableEq I] [Fintype T]

/-- Which wait list each thread is in, while it is suspended. -/
def waiting (place : T → MailPlace I) : T → Option (I ⊕ I) := MailPlace.waits ∘ place

structure Inv (s : Mailboxes T U I) (v : View T (I ⊕ I)) : Prop where
  shows_ : State.Shows 0 s.kernel v
  kept : View.Kept (waiting s.place) v
  fifo : ∀ i, Fifo (s.mb i) (s.stored i) (s.received i)
  woken : Woken (available s.mb) (waiting s.place) v

/-- The same, where the caller is at the test of the loop for `j`: one item there may be for it. -/
structure Looping (caller : Option T) (j : I ⊕ I) (s : Mailboxes T U I) (v : View T (I ⊕ I)) :
    Prop where
  shows_ : State.Shows 0 s.kernel v
  kept : View.Kept (waiting s.place) v
  fifo : ∀ i, Fifo (s.mb i) (s.stored i) (s.received i)
  woken : Woken (Function.update (available s.mb) j (available s.mb j - 1)) (waiting s.place) v
  caller : ∀ t, caller = some t → s.kernel.Running t ∧ waiting s.place t = none

variable {cb : State.Callback T U (I ⊕ I)} {s s' : Mailboxes T U I} {v v' : View T (I ⊕ I)}
  {t : T} {i : I} {j : I ⊕ I} {caller : Option T} {value : BitVec 32} {timeout tickDelta : Tick}
  {k k' : State T U (I ⊕ I)} {mb : Mailbox} {out : MailOut}

section

omit [DecidableEq I] [Fintype T]

theorem waiting_update (place : T → MailPlace I) (t : T) (a : MailPlace I) :
    waiting (Function.update place t a) = Function.update (waiting place) t a.waits :=
  Function.comp_update _ _ _ _

theorem waiting_outside {place : T → MailPlace I} (h : waiting place t = none) :
    waiting (Function.update place t .outside) = waiting place := by
  rw [waiting_update, MailPlace.waits, ← h, Function.update_eq_self]

end

omit [DecidableEq T] [DecidableEq I] [Fintype T] in
theorem outside_iff {place : T → MailPlace I} : waiting place t ≠ none ↔ place t ≠ .outside := by
  unfold waiting
  cases hplace : place t <;> simp [hplace, MailPlace.waits]

omit [DecidableEq T] in
/-- A caller comes to its loop from outside. -/
theorem Inv.enter (hi : Inv s v) (hcaller : ∀ t, caller = some t → s.Free t) :
    Looping caller j s v := by
  refine ⟨hi.shows_, hi.kept, hi.fifo, hi.woken.mono fun l => ?_, fun t ht => ?_⟩
  · by_cases hl : l = j
    · subst hl
      simp
    · simp [hl]
  · obtain ⟨hrunning, hplace⟩ := hcaller t ht
    exact ⟨hrunning, by simp [waiting, hplace, MailPlace.waits]⟩

/-- A resumed thread comes back to its loop. -/
theorem Inv.comeBack (hi : Inv s v) (hrunning : s.kernel.Running t)
    (hplace : waiting s.place t = some j) :
    Looping (some t) j { s with place := Function.update s.place t .outside } v := by
  have hstat := hrunning.2
  rw [hi.shows_.thread] at hstat
  have hne : (v.thread t).stat ≠ .suspend := by simp [hstat]
  refine ⟨hi.shows_, ?_, hi.fifo, ?_, fun u hu => ?_⟩
  · rw [waiting_update]
    exact hi.kept.leave hne
  · rw [waiting_update]
    exact hi.woken.leave hplace hne
  · cases hu
    exact ⟨hrunning, by simp [waiting_update, MailPlace.waits]⟩

/-- A thread that timed out returns. -/
theorem Inv.giveUp (hi : Inv s v) (hrunning : s.kernel.Running t)
    (hplace : waiting s.place t = some j) (herror : (s.kernel.thread t).error ≠ .eok) :
    Inv { s with place := Function.update s.place t .outside } v := by
  have hstat := hrunning.2
  rw [hi.shows_.thread] at hstat herror
  have hne : (v.thread t).stat ≠ .suspend := by simp [hstat]
  refine ⟨hi.shows_, ?_, hi.fifo, ?_⟩
  · rw [waiting_update]
    exact hi.kept.leave hne
  · rw [waiting_update]
    exact hi.woken.leave_error hplace hne herror

/-! ## The kernel calls -/

section

variable [DecidableEq U] [Fintype U]

theorem rtMbBlock_shows (hs : State.Shows 0 k v) (hrunning : k.Running t) {flag : IpcFlag}
    (h : rtMbBlock (some t) j flag timeout k = .ok (k', out)) :
    out = .waits k.timers.rtTick ∧ ∃ xs ys, v.waits j = xs ++ ys ∧ State.Shows 0 k'
      ((v.modifyThread t fun th => { th with error := .eok }).enqueue j xs t ys) := by
  simp only [rtMbBlock, exec_bind_ok, exec_pure_ok, Prod.mk.injEq] at h
  obtain ⟨k₁, hwait, rfl, rfl⟩ := h
  have hstat := hrunning.2
  rw [hs.thread] at hstat
  obtain ⟨xs, ys, hsplit, -, hs'⟩ :=
    (hs.setError (t := t) .eok).waitOn (by simpa using hstat) hwait
  exact ⟨rfl, xs, ys, hsplit, hs'⟩

theorem rtMbNotify_shows (hs : State.Shows 0 k v) (h : rtMbNotify j k = .ok k') :
    (v.waits j = [] ∧ k' = k) ∨
      ∃ u rest, v.waits j = u :: rest ∧ State.Shows 0 k' (v.wake u) := by
  unfold rtMbNotify at h
  rw [hs.isempty] at h
  split at h
  · exact .inr (hs.rtIpcListResume h)
  · simp only [exec_pure_ok] at h
    exact .inl ⟨by simp_all, h.symm⟩

/-- One item has been passed on, and who waits for it has been told. -/
theorem Looping.notify (hl : Looping caller j s v) {j' : I ⊕ I} {avail : I ⊕ I → Nat}
    (hle : ∀ l, l ≠ j' →
      avail l ≤ Function.update (available s.mb) j (available s.mb j - 1) l)
    (hone : avail j' ≤ Function.update (available s.mb) j (available s.mb j - 1) j' + 1)
    (h : rtMbNotify j' s.kernel = .ok k') :
    ∃ v', State.Shows 0 k' v' ∧ View.Kept (waiting s.place) v' ∧
      Woken avail (waiting s.place) v' := by
  obtain ⟨hnil, rfl⟩ | ⟨u, rest, hlist, hs'⟩ := rtMbNotify_shows hl.shows_ h
  · exact ⟨v, hl.shows_, hl.kept, hl.woken.notify_none hnil hle⟩
  · obtain ⟨hplace, hstat⟩ := (hl.kept.member j' u).mp (by simp [hlist])
    have herror := hl.kept.error u (by simp [hplace]) hstat
    exact ⟨_, hs', hl.kept.wake, hl.woken.notify hlist hplace hstat herror hle hone⟩

/-- A thread waits where there is nothing. -/
theorem Looping.block (hl : Looping (some t) j s v) (hnone : available s.mb j = 0)
    {flag : IpcFlag} (h : rtMbBlock (some t) j flag timeout s.kernel = .ok (k', out)) :
    out = .waits s.kernel.timers.rtTick ∧ ∃ v', State.Shows 0 k' v' ∧
      View.Kept (Function.update (waiting s.place) t (some j)) v' ∧
      Woken (available s.mb) (Function.update (waiting s.place) t (some j)) v' := by
  obtain ⟨hrunning, hplace⟩ := hl.caller t rfl
  obtain ⟨hout, xs, ys, hsplit, hs'⟩ := rtMbBlock_shows hl.shows_ hrunning h
  have hkept := hl.kept.modify (t := t) (f := fun th => { th with error := .eok }) rfl
    (fun _ _ => rfl)
  have hwoken := hl.woken
  rw [hnone, ← hnone, Nat.sub_eq_zero_of_le (by omega : available s.mb j ≤ 1), ← hnone,
    Function.update_eq_self] at hwoken
  exact ⟨hout, _, hs', hkept.enqueue hplace hsplit (by simp),
    (hwoken.modify hplace).block hplace hnone⟩

end

/-! ## The steps -/

section

omit [DecidableEq I] [Fintype T]

@[simp] theorem move_kernel (a : MailPlace I) : (s.move caller a).kernel = s.kernel := by
  cases caller <;> rfl
@[simp] theorem move_mb (a : MailPlace I) : (s.move caller a).mb = s.mb := by
  cases caller <;> rfl
@[simp] theorem move_stored (a : MailPlace I) : (s.move caller a).stored = s.stored := by
  cases caller <;> rfl
@[simp] theorem move_received (a : MailPlace I) : (s.move caller a).received = s.received := by
  cases caller <;> rfl

end

/-- A caller that is in no wait list returns. -/
theorem Inv.outside (hi : Inv s v) (h : ∀ t, caller = some t → waiting s.place t = none) :
    Inv (s.move caller .outside) v := by
  cases caller with
  | none => exact hi
  | some t => exact ⟨hi.shows_, waiting_outside (h t rfl) ▸ hi.kept, hi.fifo,
      waiting_outside (h t rfl) ▸ hi.woken⟩

omit [DecidableEq T] in
theorem Looping.nowhere (hl : Looping caller j s v) :
    ∀ t, caller = some t → waiting s.place t = none :=
  fun t ht => (hl.caller t ht).2

/-- A call gives up without waiting. -/
theorem Looping.refuse (hl : Looping caller j s v) (hnone : available s.mb j = 0) (err : Err) :
    ∃ v', State.Shows 0 (setErrorOf caller err s.kernel) v' ∧ View.Kept (waiting s.place) v' ∧
      Woken (available s.mb) (waiting s.place) v' := by
  have hwoken := hl.woken
  rw [Nat.sub_eq_zero_of_le (by omega : available s.mb j ≤ 1), ← hnone,
    Function.update_eq_self] at hwoken
  cases caller with
  | none => exact ⟨v, hl.shows_, hl.kept, hwoken⟩
  | some t =>
    have hplace := hl.nowhere t rfl
    have hkept := hl.kept.modify (t := t) (f := fun th => { th with error := err }) rfl
      (fun hne => absurd hplace hne)
    exact ⟨_, hl.shows_.setError err, hkept, hwoken.modify hplace⟩

section

omit [DecidableEq T] [Fintype T]

/-- A mail is stored: the senders have one slot less, the receivers one mail more. -/
theorem available_put (value : BitVec 32) (hroom : (s.mb i).entry ≠ (s.mb i).size)
    (hentry : (s.mb i).entry.toNat ≤ (s.mb i).size.toNat) :
    let avail := available (Function.update s.mb i ((s.mb i).put value))
    let base := Function.update (available s.mb) (.inr i) (available s.mb (.inr i) - 1)
    (∀ l, l ≠ .inl i → avail l ≤ base l) ∧ avail (.inl i) ≤ base (.inl i) + 1 := by
  have hlt : (s.mb i).entry.toNat ≠ (s.mb i).size.toNat :=
    fun heq => hroom (BitVec.eq_of_toNat_eq heq)
  have hadd : ((s.mb i).entry + 1).toNat = (s.mb i).entry.toNat + 1 := by bv_omega
  refine ⟨fun l hl => ?_, ?_⟩
  · cases l with
    | inl l =>
      have hli : l ≠ i := by simpa using hl
      simp [available, hli]
    | inr l =>
      by_cases hli : l = i
      · subst hli
        simp only [available, Function.update_self, Mailbox.put, hadd]
        omega
      · simp [available, hli]
  · have hne : (.inl i : I ⊕ I) ≠ .inr i := by simp
    simp only [available, Function.update_self, Function.update_of_ne hne, Mailbox.put, hadd]
    omega

/-- A mail is taken: the receivers have one mail less, the senders one slot more. -/
theorem available_take (hmail : (s.mb i).entry ≠ 0) :
    let avail := available (Function.update s.mb i (s.mb i).take.2)
    let base := Function.update (available s.mb) (.inl i) (available s.mb (.inl i) - 1)
    (∀ l, l ≠ .inr i → avail l ≤ base l) ∧ avail (.inr i) ≤ base (.inr i) + 1 := by
  have hsub : ((s.mb i).entry - 1).toNat = (s.mb i).entry.toNat - 1 := by bv_omega
  refine ⟨fun l hl => ?_, ?_⟩
  · cases l with
    | inl l =>
      by_cases hli : l = i
      · subst hli
        simp only [available, Function.update_self, Mailbox.take, hsub]
        omega
      · simp [available, hli]
    | inr l =>
      have hli : l ≠ i := by simpa using hl
      simp [available, hli]
  · have hne : (.inr i : I ⊕ I) ≠ .inl i := by simp
    simp only [available, Function.update_self, Function.update_of_ne hne, Mailbox.take, hsub]
    omega

end

variable [DecidableEq U] [Fintype U]

theorem Looping.sendLoop (hl : Looping caller (.inr i) s v)
    {o : State T U (I ⊕ I) × Mailbox × MailOut}
    (h : rtMbSendLoop caller i value timeout (s.mb i) s.kernel = .ok o) :
    ∃ v', Inv (s.sent caller i value timeout o) v' := by
  unfold rtMbSendLoop at h
  split at h
  case isTrue hfull =>
    have hnone : available s.mb (.inr i) = 0 := by simp [available, hfull]
    split at h
    · simp only [exec_pure_ok] at h
      subst h
      obtain ⟨v', hs', hkept, hwoken⟩ := hl.refuse hnone .eok
      have hinv : Inv { s with kernel := setErrorOf caller .eok s.kernel } v' :=
        ⟨hs', hkept, hl.fifo, hwoken⟩
      refine ⟨v', ?_⟩
      simpa [sent] using hinv.outside hl.nowhere
    · simp only [exec_bind_ok, exec_pure_ok] at h
      obtain ⟨⟨k', out⟩, hblock, rfl⟩ := h
      cases caller with
      | none => simp [rtMbBlock] at hblock
      | some t =>
        obtain ⟨rfl, v', hs', hkept, hwoken⟩ := hl.block hnone hblock
        refine ⟨v', ?_⟩
        simp only [sent, Function.update_eq_self, move]
        exact ⟨hs', waiting_update s.place t _ ▸ hkept, hl.fifo,
          waiting_update s.place t _ ▸ hwoken⟩
  case isFalse hroom =>
    simp only [exec_bind_ok, exec_pure_ok] at h
    obtain ⟨k', hnotify, rfl⟩ := h
    obtain ⟨hle, hone⟩ := available_put value hroom (hl.fifo i).entry
    obtain ⟨v', hs', hkept, hwoken⟩ := hl.notify hle hone hnotify
    have hinv : Inv { s with
        kernel := k'
        mb := Function.update s.mb i ((s.mb i).put value)
        stored := Function.update s.stored i (s.stored i ++ [value]) } v' := by
      refine ⟨hs', hkept, fun l => ?_, hwoken⟩
      by_cases hli : l = i
      · subst hli
        simpa using (hl.fifo l).put hroom
      · simpa [hli] using hl.fifo l
    refine ⟨v', ?_⟩
    have hout := hinv.outside hl.nowhere
    cases caller with
    | none => exact hout
    | some t => exact hout

theorem Looping.recvLoop (hl : Looping caller (.inl i) s v)
    {o : State T U (I ⊕ I) × Mailbox × MailOut}
    (h : rtMbRecvLoop caller i timeout (s.mb i) s.kernel = .ok o) :
    ∃ v', Inv (s.receives caller i timeout o) v' := by
  unfold rtMbRecvLoop at h
  split at h
  case isTrue hempty =>
    have hnone : available s.mb (.inl i) = 0 := by simp [available, hempty]
    split at h
    · simp only [exec_pure_ok] at h
      subst h
      obtain ⟨v', hs', hkept, hwoken⟩ := hl.refuse hnone .etimeout
      have hinv : Inv { s with kernel := setErrorOf caller .etimeout s.kernel } v' :=
        ⟨hs', hkept, hl.fifo, hwoken⟩
      have hout := hinv.outside hl.nowhere
      refine ⟨v', ?_⟩
      cases caller with
      | none => simpa [receives, move] using hout
      | some t => simpa [receives, move] using hout
    · simp only [exec_bind_ok, exec_pure_ok] at h
      obtain ⟨⟨k', out⟩, hblock, rfl⟩ := h
      cases caller with
      | none => simp [rtMbBlock] at hblock
      | some t =>
        obtain ⟨rfl, v', hs', hkept, hwoken⟩ := hl.block hnone hblock
        refine ⟨v', ?_⟩
        simp only [receives, Function.update_eq_self, move]
        exact ⟨hs', waiting_update s.place t _ ▸ hkept, hl.fifo,
          waiting_update s.place t _ ▸ hwoken⟩
  case isFalse hmail =>
    simp only [exec_bind_ok, exec_pure_ok] at h
    obtain ⟨k', hnotify, rfl⟩ := h
    obtain ⟨hle, hone⟩ := available_take hmail
    obtain ⟨v', hs', hkept, hwoken⟩ := hl.notify hle hone hnotify
    have hinv : Inv { s with
        kernel := k'
        mb := Function.update s.mb i (s.mb i).take.2
        received := Function.update s.received i (s.received i ++ [(s.mb i).take.1]) } v' := by
      refine ⟨hs', hkept, fun l => ?_, hwoken⟩
      by_cases hli : l = i
      · subst hli
        simpa using (hl.fifo l).take hmail
      · simpa [hli] using hl.fifo l
    refine ⟨v', ?_⟩
    have hout := hinv.outside hl.nowhere
    cases caller with
    | none => exact hout
    | some t => exact hout

omit [DecidableEq U] [Fintype U] in
/-- A call that finds nothing and does not wait returns at once. -/
theorem Inv.refused (hi : Inv s v) (hcaller : ∀ t, caller = some t → s.Free t) :
    Inv (s.move caller .outside) v :=
  hi.outside fun t ht => by simp [waiting, (hcaller t ht).2, MailPlace.waits]

theorem Inv.sendWait (hi : Inv s v) (hcaller : ∀ t, caller = some t → s.Free t)
    (h : s.sendWait caller i value timeout = .ok s') : ∃ v', Inv s' v' := by
  simp only [Mailboxes.sendWait, rtMbSendWait, exec_bind_ok, exec_pure_ok] at h
  obtain ⟨o, hsend, rfl⟩ := h
  split at hsend
  · simp only [exec_pure_ok] at hsend
    subst hsend
    exact ⟨v, by simpa [sent] using hi.refused hcaller⟩
  · exact (hi.enter hcaller).sendLoop hsend

theorem Inv.recv (hi : Inv s v) (hcaller : ∀ t, caller = some t → s.Free t)
    (h : s.recv caller i timeout = .ok s') : ∃ v', Inv s' v' := by
  simp only [Mailboxes.recv, rtMbRecv, exec_bind_ok, exec_pure_ok] at h
  obtain ⟨o, hrecv, rfl⟩ := h
  split at hrecv
  · simp only [exec_pure_ok] at hrecv
    subst hrecv
    have hout := hi.refused hcaller
    refine ⟨v, ?_⟩
    cases caller with
    | none => simpa [receives, move] using hout
    | some t => simpa [receives, move] using hout
  · exact (hi.enter hcaller).recvLoop hrecv

theorem Inv.sendResumed (hi : Inv s v) (hrunning : s.kernel.Running t)
    (hplace : s.place t = .sending i value timeout tickDelta)
    (h : s.sendResumed t i value timeout tickDelta = .ok s') : ∃ v', Inv s' v' := by
  have hwaits : waiting s.place t = some (.inr i) := by simp [waiting, hplace, MailPlace.waits]
  simp only [Mailboxes.sendResumed, rtMbResumed, exec_bind_ok, exec_pure_ok] at h
  obtain ⟨o, hresumed, rfl⟩ := h
  split at hresumed
  case isTrue herror =>
    simp only [exec_pure_ok] at hresumed
    subst hresumed
    exact ⟨v, by simpa [sent, move, herror] using hi.giveUp hrunning hwaits herror⟩
  case isFalse =>
    obtain ⟨v', hi'⟩ := (hi.comeBack hrunning hwaits).sendLoop hresumed
    refine ⟨v', ?_⟩
    -- it does not matter that the place was given up before
    obtain ⟨k', mb, out⟩ := o
    cases out <;> simpa [sent, move] using hi'

theorem Inv.recvResumed (hi : Inv s v) (hrunning : s.kernel.Running t)
    (hplace : s.place t = .receiving i timeout tickDelta)
    (h : s.recvResumed t i timeout tickDelta = .ok s') : ∃ v', Inv s' v' := by
  have hwaits : waiting s.place t = some (.inl i) := by simp [waiting, hplace, MailPlace.waits]
  simp only [Mailboxes.recvResumed, rtMbResumed, exec_bind_ok, exec_pure_ok] at h
  obtain ⟨o, hresumed, rfl⟩ := h
  split at hresumed
  case isTrue herror =>
    simp only [exec_pure_ok] at hresumed
    subst hresumed
    exact ⟨v, by simpa [receives, move] using hi.giveUp hrunning hwaits herror⟩
  case isFalse =>
    obtain ⟨v', hi'⟩ := (hi.comeBack hrunning hwaits).recvLoop hresumed
    refine ⟨v', ?_⟩
    obtain ⟨k', mb, out⟩ := o
    cases out <;> simpa [receives, move] using hi'

theorem Inv.elsewhere (hi : Inv s v) {k : State T U (I ⊕ I)}
    (h : State.Elsewhere cb (fun t => s.place t ≠ .outside) s.kernel k) :
    ∃ v', Inv { s with kernel := k } v' := by
  have hbusy : ∀ t, waiting s.place t ≠ none → s.place t ≠ .outside := fun _ => outside_iff.mp
  obtain ⟨v', hsteps, hs'⟩ := hi.shows_.elsewhere (hi.kept.members_busy hbusy) h
  exact ⟨v', hs', hi.kept.envs hbusy hsteps, hi.fifo, hi.woken.envs hbusy hsteps⟩

theorem Inv.step (hi : Inv s v) (h : Step cb s s') : ∃ v', Inv s' v' := by
  cases h with
  | sendWait caller i value timeout hcaller hsend => exact hi.sendWait hcaller hsend
  -- `rt_mb_send` is `rt_mb_send_wait` with no time to wait
  | send caller i value hcaller hsend => exact hi.sendWait hcaller hsend
  | recv caller i timeout hcaller hrecv => exact hi.recv hcaller hrecv
  | sendResumed t i value timeout tickDelta hrunning hplace hsend =>
    exact hi.sendResumed hrunning hplace hsend
  | recvResumed t i timeout tickDelta hrunning hplace hrecv =>
    exact hi.recvResumed hrunning hplace hrecv
  | elsewhere helse => exact hi.elsewhere helse

theorem Initial.inv (h : Initial cb s) : ∃ v, Inv s v := by
  obtain ⟨k₀, hboot, hruns⟩ := h.reached
  obtain ⟨v, hs⟩ := (State.runs_good hboot hruns).shows
  have hnil : ∀ j, v.waits j = [] := by
    intro j
    have := h.empty j
    rw [hs.isempty] at this
    simpa using this
  refine ⟨v, hs, ?_, fun i => ?_, fun j hj => absurd (hnil j) hj⟩
  · constructor <;> simp [hnil, h.place, waiting, MailPlace.waits]
  · obtain ⟨msgPool, size, flag, hsize, hmb⟩ := h.mb i
    rw [hmb, h.stored, h.received]
    exact Fifo.init hsize flag

section

omit [DecidableEq T] [DecidableEq U] [Fintype U]

theorem Inv.waits_iff (hi : Inv s v) : s.Waits j t ↔ t ∈ v.waits j := by
  rw [hi.kept.member, Waits, hi.shows_.thread]
  rfl

theorem Inv.noneLost (hi : Inv s v) (j : I ⊕ I) : s.NoneLost j := by
  intro t ht
  have hresumed : Finset.univ.filter (s.Resumed j) = v.resumed (waiting s.place) j := by
    apply Finset.filter_congr
    intro u _
    rw [Resumed, hi.shows_.thread]
    rfl
  rw [hresumed]
  exact hi.woken j (List.ne_nil_of_mem (hi.waits_iff.mp ht))

end

/-- In every state a run reaches, every mailbox is a first-in first-out queue bounded by its
    size: what has been received is what was stored first, in order and once.  And no wake-up
    is lost: a receiver stays suspended only if the resumed receivers are enough for the mails,
    and a sender only if the resumed senders are enough for the free slots. -/
theorem mailbox_fifo (cb : State.Callback T U (I ⊕ I)) {s₀ s : Mailboxes T U I}
    (hi : Initial cb s₀) (hr : Runs cb s₀ s) (i : I) :
    Fifo (s.mb i) (s.stored i) (s.received i) ∧ s.NoneLost (.inl i) ∧ s.NoneLost (.inr i) := by
  have hinv : ∃ v, Inv s v := by
    induction hr with
    | refl => exact hi.inv
    | tail _ hstep ih =>
      obtain ⟨v, hv⟩ := ih
      exact hv.step hstep
  obtain ⟨v, hv⟩ := hinv
  exact ⟨hv.fifo i, hv.noneLost (.inl i), hv.noneLost (.inr i)⟩

/-! ## Runs, event by event -/

inductive Event (T I : Type) where
  | sendWait (caller : Option T) (i : I) (value : BitVec 32) (timeout : Tick)
  | send (caller : Option T) (i : I) (value : BitVec 32)
  | recv (caller : Option T) (i : I) (timeout : Tick)
  | resumed (t : T)
  | schedule
  | tick

instance (s : Mailboxes T U I) (t : T) : Decidable (s.Free t) := by
  unfold Free State.Running
  infer_instance

def play (s : Mailboxes T U I) : Event T I → Exec (Mailboxes T U I)
  | .sendWait caller i value timeout => do
    rtAssert (∀ t, caller = some t → s.Free t)
    s.sendWait caller i value timeout
  | .send caller i value => do
    rtAssert (∀ t, caller = some t → s.Free t)
    s.send caller i value
  | .recv caller i timeout => do
    rtAssert (∀ t, caller = some t → s.Free t)
    s.recv caller i timeout
  | .resumed t => do
    rtAssert (s.kernel.rtCurrentThread = some t ∧ (s.kernel.thread t).stat = .ready)
    match s.place t with
    | .outside => throw .assertion
    | .sending i value timeout tickDelta => s.sendResumed t i value timeout tickDelta
    | .receiving i timeout tickDelta => s.recvResumed t i timeout tickDelta
  | .schedule => do
    let k ← s.kernel.rtSchedule
    pure { s with kernel := k }
  | .tick => do
    let k ← s.kernel.rtTickIncrease (State.timeoutFunc fun _ _ => []) (Fintype.card (T ⊕ U) + 1)
    pure { s with kernel := k }

theorem play_step {event : Event T I} (h : s.play event = .ok s') :
    Step (fun _ _ => []) s s' := by
  cases event with
  | sendWait caller i value timeout =>
    simp only [play, exec_bind_ok, rtAssert_eq_ok] at h
    obtain ⟨_, hcaller, hsend⟩ := h
    exact .sendWait caller i value timeout hcaller hsend
  | send caller i value =>
    simp only [play, exec_bind_ok, rtAssert_eq_ok] at h
    obtain ⟨_, hcaller, hsend⟩ := h
    exact .send caller i value hcaller hsend
  | recv caller i timeout =>
    simp only [play, exec_bind_ok, rtAssert_eq_ok] at h
    obtain ⟨_, hcaller, hrecv⟩ := h
    exact .recv caller i timeout hcaller hrecv
  | resumed t =>
    simp only [play, exec_bind_ok, rtAssert_eq_ok] at h
    obtain ⟨_, hrunning, h⟩ := h
    cases hplace : s.place t with
    | outside => simp [hplace] at h
    | sending i value timeout tickDelta =>
      rw [hplace] at h
      exact .sendResumed t i value timeout tickDelta hrunning hplace h
    | receiving i timeout tickDelta =>
      rw [hplace] at h
      exact .recvResumed t i timeout tickDelta hrunning hplace h
  | schedule =>
    simp only [play, exec_bind_ok, exec_pure_ok] at h
    obtain ⟨k, hschedule, rfl⟩ := h
    exact .elsewhere (.call .schedule (by simp [State.Foreign, KernelOp.target])
      (by simp [KernelOp.own]) hschedule)
  | tick =>
    simp only [play, exec_bind_ok, exec_pure_ok] at h
    obtain ⟨k, htick, rfl⟩ := h
    exact .elsewhere (.tick _ (by simp) htick)

/-- One mailbox of one slot.  A thread waits for a mail, gets it, and then sends two mails of its
    own, the second of which has to wait until an interrupt has received the first. -/
theorem mailbox_fifo_both_ways :
    ∃ s₀ s : Mailboxes Bool Empty Unit, Initial (fun _ _ => []) s₀ ∧ Runs (fun _ _ => []) s₀ s ∧
      s.stored () = [7, 8, 9] ∧ s.received () = [7, 8] ∧
      Fifo (s.mb ()) (s.stored ()) (s.received ()) ∧ s.NoneLost (.inl ()) ∧ s.NoneLost (.inr ()) := by
  let init (k : State Bool Empty (Unit ⊕ Unit)) : Mailboxes Bool Empty Unit :=
    ⟨k, fun _ => rtMbInit (fun _ => 0) 1 .fifo, fun _ => .outside, fun _ => [], fun _ => []⟩
  let run : Exec (State Bool Empty (Unit ⊕ Unit) × Mailboxes Bool Empty Unit) := do
    let k ← State.booted [(false, 31), (true, 10)]
    let s ← [Event.recv (some true) () 0xffffffff, .schedule, .send none () 7, .schedule,
      .resumed true, .sendWait (some true) () 8 5, .sendWait (some true) () 9 5, .schedule, .tick,
      .recv none () 0, .schedule, .resumed true].foldlM play (init k)
    pure (k, s)
  obtain ⟨⟨k, s⟩, hrun, hdata⟩ := exec_exists_ok (show
    run.map (fun x => decide ((∀ j, rtListIsempty (.inl (.suspend j)) x.1.tlist = true) ∧
      x.2.stored () = [7, 8, 9] ∧ x.2.received () = [7, 8])) = .ok true by decide +kernel)
  simp only [run, exec_bind_ok, exec_pure_ok, Prod.mk.injEq] at hrun
  obtain ⟨k, hk, s, hplay, rfl, rfl⟩ := hrun
  obtain ⟨hempty, hstored, hreceived⟩ := of_decide_eq_true hdata
  have hinitial : Initial (fun _ _ => []) (init k) :=
    ⟨State.booted_reached hk, hempty, fun _ => rfl, fun _ => ⟨_, _, _, by decide, rfl⟩,
      fun _ => rfl, fun _ => rfl⟩
  have hruns : Runs (fun _ _ => []) (init k) s := foldlM_runs (fun _ _ _ => play_step) hplay
  exact ⟨init k, s, hinitial, hruns, hstored, hreceived, mailbox_fifo _ hinitial hruns ()⟩

end Mailboxes

end PandoraRobot.Ipc
