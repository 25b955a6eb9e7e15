import PandoraRobot.Kernel.Blocking
import PandoraRobot.Lib.RingBuffer

/-! # Mailboxes

`rt_mb_send_wait`, `rt_mb_send` and `rt_mb_recv` of `ipc.c`, on any number of
mailboxes.  A stretch of code between `rt_hw_interrupt_disable` and
`rt_hw_interrupt_enable` is one step, with the look a resumed thread takes at its own
`error` before it.

A thread that is resumed finds a mail, or a free slot, only if no other thread came
first, and waits again otherwise.  Still no mail is lost and none received twice, and
no thread sleeps on while there is something for it.
-/

namespace PandoraRobot.Ipc

open PandoraRobot.Kernel PandoraRobot.RingBuffer

/-- `struct rt_mailbox`, less its wait lists. -/
structure Mailbox where
  msgPool : Nat → BitVec 32
  size : BitVec 16
  entry : BitVec 16
  inOffset : BitVec 16
  outOffset : BitVec 16
  flag : IpcFlag

/-- `rt_mb_init`. -/
def rtMbInit (msgPool : Nat → BitVec 32) (size : BitVec 16) (flag : IpcFlag) : Mailbox where
  msgPool := msgPool
  size := size
  entry := 0
  inOffset := 0
  outOffset := 0
  flag := flag

namespace Mailbox

/-- `value` is stored. -/
def put (value : BitVec 32) (mb : Mailbox) : Mailbox :=
  let inOffset := mb.inOffset + 1
  { mb with
    msgPool := Function.update mb.msgPool mb.inOffset.toNat value
    inOffset := if mb.size ≤ inOffset then 0 else inOffset
    entry := mb.entry + 1 }

/-- The next mail is taken out. -/
def take (mb : Mailbox) : BitVec 32 × Mailbox :=
  let outOffset := mb.outOffset + 1
  (mb.msgPool mb.outOffset.toNat, { mb with
    outOffset := if mb.size ≤ outOffset then 0 else outOffset
    entry := mb.entry - 1 })

/-- The mails in the mailbox, the oldest first. -/
def mails (mb : Mailbox) : List (BitVec 32) :=
  contents mb.msgPool mb.size.toNat mb.outOffset.toNat mb.entry.toNat

end Mailbox

section Code

variable {T U I : Type} [DecidableEq T] [DecidableEq U] [DecidableEq I] [Fintype T] [Fintype U]

/-- What a call does in one stretch: it returns, a receive with a mail if it succeeds, or its
    thread waits, from a tick on. -/
inductive MailOut where
  | returned (err : Err) (value : Option (BitVec 32))
  | waits (tickDelta : Tick)
  deriving DecidableEq, Repr

/-- `thread->error = ..`, where the call may be made in an interrupt. -/
def setErrorOf (caller : Option T) (err : Err) (k : State T U I) : State T U I :=
  match caller with
  | none => k
  | some thread => k.setError thread err

/-- The body of the loops of `rt_mb_send_wait` and `rt_mb_recv`, from `timeout == 0` on. -/
def rtMbBlock (caller : Option T) (i : I) (flag : IpcFlag) (timeout : Tick) (k : State T U I) :
    Exec (State T U I × MailOut) :=
  match caller with
  -- `RT_DEBUG_IN_THREAD_CONTEXT`
  | none => throw .assertion
  | some thread => do
    let tickDelta := k.timers.rtTick
    let k ← (k.setError thread .eok).waitOn i thread flag timeout
    pure (k, .waits tickDelta)

/-- The waiters of the other side are told. -/
def rtMbNotify (i : I) (k : State T U I) : Exec (State T U I) :=
  if rtListIsempty (.inl (.suspend i)) k.tlist = false then k.rtIpcListResume i else pure k

/-- `rt_mb_send_wait` from the test of its loop on, up to `rt_schedule`.  The wait list of the
    receivers of mailbox `i` is that of `.inl i`, and of the senders that of `.inr i`. -/
def rtMbSendLoop (caller : Option T) (i : I) (value : BitVec 32) (timeout : Tick) (mb : Mailbox)
    (k : State T U (I ⊕ I)) : Exec (State T U (I ⊕ I) × Mailbox × MailOut) :=
  if mb.entry = mb.size then
    if timeout = 0 then pure (setErrorOf caller .eok k, mb, .returned .efull none)
    else do
      let (k, out) ← rtMbBlock caller (.inr i) mb.flag timeout k
      pure (k, mb, out)
  else do
    let mb := mb.put value
    let k ← rtMbNotify (.inl i) k
    pure (k, mb, .returned .eok none)

/-- `rt_mb_send_wait`, called by a thread or, for `none`, in an interrupt. -/
def rtMbSendWait (caller : Option T) (i : I) (value : BitVec 32) (timeout : Tick) (mb : Mailbox)
    (k : State T U (I ⊕ I)) : Exec (State T U (I ⊕ I) × Mailbox × MailOut) :=
  if mb.entry = mb.size ∧ timeout = 0 then pure (k, mb, .returned .efull none)
  else rtMbSendLoop caller i value timeout mb k

/-- `rt_mb_send`. -/
def rtMbSend (caller : Option T) (i : I) (value : BitVec 32) (mb : Mailbox)
    (k : State T U (I ⊕ I)) : Exec (State T U (I ⊕ I) × Mailbox × MailOut) :=
  rtMbSendWait caller i value 0 mb k

/-- `rt_mb_recv` from the test of its loop on, up to `rt_schedule`. -/
def rtMbRecvLoop (caller : Option T) (i : I) (timeout : Tick) (mb : Mailbox)
    (k : State T U (I ⊕ I)) : Exec (State T U (I ⊕ I) × Mailbox × MailOut) :=
  if mb.entry = 0 then
    if timeout = 0 then pure (setErrorOf caller .etimeout k, mb, .returned .etimeout none)
    else do
      let (k, out) ← rtMbBlock caller (.inl i) mb.flag timeout k
      pure (k, mb, out)
  else do
    let (value, mb) := mb.take
    let k ← rtMbNotify (.inr i) k
    pure (k, mb, .returned .eok (some value))

/-- `rt_mb_recv`, called by a thread or, for `none`, in an interrupt. -/
def rtMbRecv (caller : Option T) (i : I) (timeout : Tick) (mb : Mailbox)
    (k : State T U (I ⊕ I)) : Exec (State T U (I ⊕ I) × Mailbox × MailOut) :=
  if mb.entry = 0 ∧ timeout = 0 then pure (k, mb, .returned .etimeout none)
  else rtMbRecvLoop caller i timeout mb k

/-- What follows `rt_schedule` in both: an error is returned, and otherwise the loop goes on with
    the time that is left. -/
def rtMbResumed (thread : T) (timeout tickDelta : Tick) (mb : Mailbox) (k : State T U (I ⊕ I))
    (loop : Tick → Mailbox → State T U (I ⊕ I) → Exec (State T U (I ⊕ I) × Mailbox × MailOut)) :
    Exec (State T U (I ⊕ I) × Mailbox × MailOut) :=
  if (k.thread thread).error ≠ .eok then pure (k, mb, .returned (k.thread thread).error none)
  else loop (k.timeLeft timeout tickDelta) mb k

end Code

/-- Where a thread waits. -/
inductive MailPlace (I : Type) where
  | outside
  | sending (i : I) (value : BitVec 32) (timeout tickDelta : Tick)
  | receiving (i : I) (timeout tickDelta : Tick)
  deriving DecidableEq, Repr

/-- The wait list a thread is in while it is suspended. -/
def MailPlace.waits {I : Type} : MailPlace I → Option (I ⊕ I)
  | .outside => none
  | .sending i _ _ _ => some (.inr i)
  | .receiving i _ _ => some (.inl i)

/-- The kernel, the mailboxes, and where threads wait. -/
structure Mailboxes (T U I : Type) where
  kernel : State T U (I ⊕ I)
  mb : I → Mailbox
  place : T → MailPlace I
  /-- The mails that have been stored, the oldest first. -/
  stored : I → List (BitVec 32)
  /-- The mails that receives have returned, in their order. -/
  received : I → List (BitVec 32)

namespace Mailboxes

variable {T U I : Type} [DecidableEq T] [DecidableEq U] [DecidableEq I] [Fintype T] [Fintype U]

def move (caller : Option T) (a : MailPlace I) (s : Mailboxes T U I) : Mailboxes T U I :=
  match caller with
  | none => s
  | some t => { s with place := Function.update s.place t a }

/-- What follows from a stretch of `rt_mb_send_wait`. -/
def sent (caller : Option T) (i : I) (value : BitVec 32) (timeout : Tick)
    (out : State T U (I ⊕ I) × Mailbox × MailOut) (s : Mailboxes T U I) : Mailboxes T U I :=
  let (k, mb, out) := out
  let s := { s with kernel := k, mb := Function.update s.mb i mb }
  match out with
  | .waits tickDelta => s.move caller (.sending i value timeout tickDelta)
  | .returned err _ =>
    let s := s.move caller .outside
    if err = .eok then { s with stored := Function.update s.stored i (s.stored i ++ [value]) }
    else s

/-- What follows from a stretch of `rt_mb_recv`. -/
def receives (caller : Option T) (i : I) (timeout : Tick)
    (out : State T U (I ⊕ I) × Mailbox × MailOut) (s : Mailboxes T U I) : Mailboxes T U I :=
  let (k, mb, out) := out
  let s := { s with kernel := k, mb := Function.update s.mb i mb }
  match out with
  | .waits tickDelta => s.move caller (.receiving i timeout tickDelta)
  | .returned _ value =>
    let s := s.move caller .outside
    { s with received := Function.update s.received i (s.received i ++ value.toList) }

def sendWait (caller : Option T) (i : I) (value : BitVec 32) (timeout : Tick)
    (s : Mailboxes T U I) : Exec (Mailboxes T U I) := do
  let out ← rtMbSendWait caller i value timeout (s.mb i) s.kernel
  pure (s.sent caller i value timeout out)

def send (caller : Option T) (i : I) (value : BitVec 32) (s : Mailboxes T U I) :
    Exec (Mailboxes T U I) := do
  let out ← rtMbSend caller i value (s.mb i) s.kernel
  pure (s.sent caller i value 0 out)

def sendResumed (t : T) (i : I) (value : BitVec 32) (timeout tickDelta : Tick)
    (s : Mailboxes T U I) : Exec (Mailboxes T U I) := do
  let out ← rtMbResumed t timeout tickDelta (s.mb i) s.kernel (rtMbSendLoop (some t) i value)
  pure (s.sent (some t) i value (s.kernel.timeLeft timeout tickDelta) out)

def recv (caller : Option T) (i : I) (timeout : Tick) (s : Mailboxes T U I) :
    Exec (Mailboxes T U I) := do
  let out ← rtMbRecv caller i timeout (s.mb i) s.kernel
  pure (s.receives caller i timeout out)

def recvResumed (t : T) (i : I) (timeout tickDelta : Tick) (s : Mailboxes T U I) :
    Exec (Mailboxes T U I) := do
  let out ← rtMbResumed t timeout tickDelta (s.mb i) s.kernel (rtMbRecvLoop (some t) i)
  pure (s.receives (some t) i (s.kernel.timeLeft timeout tickDelta) out)

/-- `t` runs and is in no call. -/
def Free (s : Mailboxes T U I) (t : T) : Prop := s.kernel.Running t ∧ s.place t = .outside

inductive Step (cb : State.Callback T U (I ⊕ I)) : Mailboxes T U I → Mailboxes T U I → Prop where
  | sendWait {s s' : Mailboxes T U I} (caller : Option T) (i : I) (value : BitVec 32)
      (timeout : Tick) : (∀ t, caller = some t → s.Free t) →
      s.sendWait caller i value timeout = .ok s' → Step cb s s'
  | send {s s' : Mailboxes T U I} (caller : Option T) (i : I) (value : BitVec 32) :
      (∀ t, caller = some t → s.Free t) → s.send caller i value = .ok s' → Step cb s s'
  | recv {s s' : Mailboxes T U I} (caller : Option T) (i : I) (timeout : Tick) :
      (∀ t, caller = some t → s.Free t) → s.recv caller i timeout = .ok s' → Step cb s s'
  /-- `rt_schedule` has returned to a thread that waited. -/
  | sendResumed {s s' : Mailboxes T U I} (t : T) (i : I) (value : BitVec 32)
      (timeout tickDelta : Tick) : s.kernel.Running t →
      s.place t = .sending i value timeout tickDelta →
      s.sendResumed t i value timeout tickDelta = .ok s' → Step cb s s'
  | recvResumed {s s' : Mailboxes T U I} (t : T) (i : I) (timeout tickDelta : Tick) :
      s.kernel.Running t → s.place t = .receiving i timeout tickDelta →
      s.recvResumed t i timeout tickDelta = .ok s' → Step cb s s'
  | elsewhere {s : Mailboxes T U I} {k : State T U (I ⊕ I)} :
      State.Elsewhere cb (fun t => s.place t ≠ .outside) s.kernel k →
      Step cb s { s with kernel := k }

abbrev Runs (cb : State.Callback T U (I ⊕ I)) : Mailboxes T U I → Mailboxes T U I → Prop :=
  Relation.ReflTransGen (Step cb)

/-- Any kernel state a run reaches in which no thread waits for a mailbox, and mailboxes of
    positive size as `rt_mb_init` leaves them. -/
structure Initial (cb : State.Callback T U (I ⊕ I)) (s : Mailboxes T U I) : Prop where
  reached : ∃ k₀, State.Initial k₀ ∧ State.Runs cb k₀ s.kernel
  empty : ∀ j, rtListIsempty (.inl (.suspend j)) s.kernel.tlist = true
  place : ∀ t, s.place t = .outside
  mb : ∀ i, ∃ msgPool size flag, size ≠ 0 ∧ s.mb i = rtMbInit msgPool size flag
  stored : ∀ i, s.stored i = []
  received : ∀ i, s.received i = []

/-- `t` is suspended, waiting at `j`. -/
def Waits (s : Mailboxes T U I) (j : I ⊕ I) (t : T) : Prop :=
  (s.place t).waits = some j ∧ (s.kernel.thread t).stat = .suspend

/-- `t` has been resumed at `j` and has not run yet. -/
def Resumed (s : Mailboxes T U I) (j : I ⊕ I) (t : T) : Prop :=
  (s.place t).waits = some j ∧ (s.kernel.thread t).stat ≠ .suspend ∧
    (s.kernel.thread t).error = .eok

instance (s : Mailboxes T U I) (j : I ⊕ I) (t : T) : Decidable (s.Resumed j t) := by
  unfold Resumed
  infer_instance

/-- A mailbox is a first-in first-out queue, bounded by its size. -/
structure Fifo (mb : Mailbox) (stored received : List (BitVec 32)) : Prop where
  entry : mb.entry.toNat ≤ mb.size.toNat
  outOffset : mb.outOffset.toNat < mb.size.toNat
  inOffset : mb.inOffset.toNat = (mb.outOffset.toNat + mb.entry.toNat) % mb.size.toNat
  order : stored = received ++ mb.mails

/-- How many waiters of a wait list could go on: one for each mail, or for each free slot. -/
def available (mb : I → Mailbox) : I ⊕ I → Nat
  | .inl i => (mb i).entry.toNat
  | .inr i => (mb i).size.toNat - (mb i).entry.toNat

/-- While a thread waits at `j`, there is nothing there but for those that have been resumed. -/
def NoneLost (s : Mailboxes T U I) (j : I ⊕ I) : Prop :=
  ∀ t, s.Waits j t → available s.mb j ≤ (Finset.univ.filter (s.Resumed j)).card

/-! ## The queue -/

variable {mb : Mailbox} {stored received : List (BitVec 32)} {value : BitVec 32}

theorem Fifo.init {msgPool : Nat → BitVec 32} {size : BitVec 16} (hsize : size ≠ 0)
    (flag : IpcFlag) : Fifo (rtMbInit msgPool size flag) [] [] := by
  apply Fifo.mk
  · simp [rtMbInit]
  · simp only [rtMbInit]
    bv_omega
  · simp [rtMbInit]
  · simp [rtMbInit, Mailbox.mails]

/-- An offset goes to the next cell. -/
theorem offset_next {size offset : BitVec 16} (hlt : offset.toNat < size.toNat) :
    (if size ≤ offset + 1 then 0 else offset + 1).toNat = (offset.toNat + 1) % size.toNat := by
  rw [← next_cell hlt]
  have hadd : (offset + 1).toNat = offset.toNat + 1 := by bv_omega
  by_cases hge : size.toNat ≤ offset.toNat + 1
  · rw [if_pos hge, if_pos (by bv_omega)]
    rfl
  · rw [if_neg hge, if_neg (by bv_omega), hadd]

theorem Fifo.put (h : Fifo mb stored received) (hroom : mb.entry ≠ mb.size) :
    Fifo (mb.put value) (stored ++ [value]) received := by
  have hle := h.entry
  have hlt : mb.entry.toNat < mb.size.toNat := by
    rcases Nat.lt_or_eq_of_le hle with hlt | heq
    · exact hlt
    · exact absurd (BitVec.eq_of_toNat_eq heq) hroom
  have hentry : (mb.entry + 1).toNat = mb.entry.toNat + 1 := by bv_omega
  have hin : mb.inOffset.toNat < mb.size.toNat := by
    rw [h.inOffset]
    exact Nat.mod_lt _ (by omega)
  apply Fifo.mk
  · simp only [Mailbox.put, hentry]
    exact hlt
  · exact h.outOffset
  · simp only [Mailbox.put, hentry]
    rw [offset_next hin, h.inOffset, Nat.mod_add_mod, Nat.add_assoc]
  · simp only [Mailbox.put, Mailbox.mails, hentry]
    rw [h.inOffset, contents_put hlt, h.order, Mailbox.mails, List.append_assoc]

theorem Fifo.take (h : Fifo mb stored received) (hmail : mb.entry ≠ 0) :
    Fifo mb.take.2 stored (received ++ [mb.take.1]) := by
  obtain ⟨n, hn⟩ : ∃ n, mb.entry.toNat = n + 1 :=
    Nat.exists_eq_succ_of_ne_zero fun hzero => hmail (BitVec.eq_of_toNat_eq hzero)
  have hle := h.entry
  have hentry : (mb.entry - 1).toNat = n := by bv_omega
  have hout := offset_next h.outOffset
  apply Fifo.mk
  · simp only [Mailbox.take, hentry]
    omega
  · simp only [Mailbox.take]
    rw [hout]
    exact Nat.mod_lt _ (by omega)
  · simp only [Mailbox.take, hentry]
    rw [hout, h.inOffset, hn, Nat.mod_add_mod]
    congr 1
    omega
  · simp only [Mailbox.take, Mailbox.mails, hentry]
    rw [hout, h.order, Mailbox.mails, hn, contents_take, Nat.mod_eq_of_lt h.outOffset,
      List.append_assoc]
    rfl

/-! ## Wake-ups -/

section Wakeups

variable {J : Type} [DecidableEq J] {avail base : J → Nat} {place : T → Option J} {v : View T J}
  {t u : T} {j : J} {xs ys rest : List T}

/-- Where a thread waits, no more than what is there for the resumed threads is there. -/
def Woken (avail : J → Nat) (place : T → Option J) (v : View T J) : Prop :=
  ∀ j, v.waits j ≠ [] → avail j ≤ (v.resumed place j).card

omit [DecidableEq T] in
theorem Woken.mono (h : Woken base place v) (hle : ∀ j, avail j ≤ base j) :
    Woken avail place v :=
  fun j hj => (hle j).trans (h j hj)

/-- A thread that goes on from `j` has one item coming to it, if it was resumed. -/
theorem Woken.leave (h : Woken avail place v) (hplace : place t = some j)
    (hstat : (v.thread t).stat ≠ .suspend) :
    Woken (Function.update avail j (avail j - 1)) (Function.update place t none) v := by
  intro i hi
  by_cases hij : i = j
  · subst hij
    have hle := h i hi
    rw [View.resumed_leave hplace hstat] at hle
    rw [Function.update_self]
    split at hle <;> omega
  · rw [Function.update_of_ne hij, View.resumed_leave_other hplace hij]
    exact h i hi

/-- A thread that timed out goes on with nothing. -/
theorem Woken.leave_error (h : Woken avail place v) (hplace : place t = some j)
    (hstat : (v.thread t).stat ≠ .suspend) (herror : (v.thread t).error ≠ .eok) :
    Woken avail (Function.update place t none) v := by
  intro i hi
  by_cases hij : i = j
  · subst hij
    have hle := h i hi
    rwa [View.resumed_leave hplace hstat, if_neg herror, Nat.add_zero] at hle
  · rw [View.resumed_leave_other hplace hij]
    exact h i hi

theorem Woken.modify (h : Woken avail place v) (hplace : place t = none) {f : Thread → Thread} :
    Woken avail place (v.modifyThread t f) := by
  intro i hi
  rw [View.resumed_modify hplace]
  exact h i hi

/-- A thread may wait where there is nothing. -/
theorem Woken.block (h : Woken avail place v) (hplace : place t = none) (hnone : avail j = 0) :
    Woken avail (Function.update place t (some j)) (v.enqueue j xs t ys) := by
  intro i hi
  rw [View.resumed_enqueue hplace]
  by_cases hij : i = j
  · subst hij
    omega
  · apply h i
    simpa [hij] using hi

omit [DecidableEq T] in
/-- One item more needs no wake-up where no thread waits. -/
theorem Woken.notify_none (h : Woken base place v) (hnil : v.waits j = [])
    (hle : ∀ i, i ≠ j → avail i ≤ base i) : Woken avail place v := by
  intro i hi
  by_cases hij : i = j
  · exact absurd (hij ▸ hnil) hi
  · exact (hle i hij).trans (h i hi)

/-- One item more comes with the wake-up of one waiter. -/
theorem Woken.notify (h : Woken base place v) (hlist : v.waits j = u :: rest)
    (hplace : place u = some j) (hstat : (v.thread u).stat = .suspend)
    (herror : (v.thread u).error = .eok) (hle : ∀ i, i ≠ j → avail i ≤ base i)
    (hone : avail j ≤ base j + 1) : Woken avail place (v.wake u) := by
  intro i hi
  by_cases hij : i = j
  · subst hij
    have hbase := h i (by simp [hlist])
    rw [View.resumed_wake hplace hstat herror]
    omega
  · have hwaits : v.waits i ≠ [] := by
      intro hnil
      simp [hnil] at hi
    rw [View.resumed_wake_other hplace hij]
    exact (hle i hij).trans (h i hwaits)

theorem Woken.envs {busy : T → Prop} {v' : View T J} (h : Woken avail place v)
    (hplace : ∀ t, place t ≠ none → busy t)
    (hsteps : Relation.ReflTransGen (View.Env busy) v v') : Woken avail place v' := by
  induction hsteps with
  | refl => exact h
  | tail _ hstep ih =>
    intro i hi
    rw [View.resumed_env hstep hplace]
    apply ih i
    cases hstep with
    | other _ hwaits => rwa [← hwaits]
    | timeout t _ _ =>
      intro hnil
      simp [hnil] at hi

end Wakeups

end Mailboxes

end PandoraRobot.Ipc
