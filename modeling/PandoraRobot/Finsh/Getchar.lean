import PandoraRobot.Drivers.SerialRx
import PandoraRobot.Ipc.Semaphore

/-! # Characters for the shell

`finsh_getchar` and `finsh_rx_ind` of `shell.c`, on a console that receives by interrupt.  A
stretch of code between `rt_hw_interrupt_disable` and `rt_hw_interrupt_enable` is one step,
and so is a whole receive interrupt.

An interrupt stores any number of characters and releases `rx_sem` once.  The shell reads without
a token, and takes one only where it has found the FIFO empty: an interrupt after that leaves a
token, with which the take returns.
-/

namespace PandoraRobot.Finsh

open PandoraRobot.Kernel PandoraRobot.Ipc PandoraRobot.Drivers

section Code

variable {T U I : Type} [DecidableEq T] [DecidableEq U] [DecidableEq I]

def finshRxInd (i : I) (rxSem : Semaphore) (k : State T U I) : Exec (State T U I × Semaphore) :=
  rtSemRelease i rxSem k

/-- The loop of `RT_SERIAL_EVENT_RX_IND`, over the characters that `getc` returns before -1. -/
def rxIndLoop (bufsz : Nat) (chars : List Byte) (rxFifo : RtSerialRxFifo) : RtSerialRxFifo :=
  chars.foldl (fun rxFifo ch => rxInd bufsz ch rxFifo) rxFifo

/-- `RT_SERIAL_EVENT_RX_IND` of `rt_hw_serial_isr`, where `rx_indicate` is `finsh_rx_ind`.  The
    last part tells whether it was called. -/
def rtHwSerialIsr (i : I) (bufsz : Nat) (chars : List Byte) (rxFifo : RtSerialRxFifo)
    (rxSem : Semaphore) (k : State T U I) :
    Exec (State T U I × Semaphore × RtSerialRxFifo × Bool) :=
  let rxFifo := rxIndLoop bufsz chars rxFifo
  if rxLength bufsz rxFifo ≠ 0 then do
    let (k, rxSem) ← finshRxInd i rxSem k
    pure (k, rxSem, rxFifo, true)
  else pure (k, rxSem, rxFifo, false)

end Code

/-- How far the shell is in `finsh_getchar`. -/
inductive GetcharStage where
  | outside
  /-- It is about to call `rt_device_read`. -/
  | reading
  /-- The read has returned 0, and `rt_sem_take` is next. -/
  | taking
  /-- It has been suspended on `rx_sem`. -/
  | waiting
  deriving DecidableEq, Repr

/-- The kernel, the console and the shell. -/
structure Getchar (T U I : Type) where
  kernel : State T U I
  rxSem : Semaphore
  rxFifo : RtSerialRxFifo
  stage : GetcharStage
  /-- The characters that have been received. -/
  arrived : List Byte
  /-- Those of them that have not been dropped. -/
  stored : List Byte
  /-- What `finsh_getchar` has returned. -/
  delivered : List Byte
  /-- The releases of `rx_sem` whose token no take has returned with yet. -/
  outstanding : Nat

/-- A character is stored.  Where `capacity` characters wait behind the first `n`, the oldest of
    these is dropped. -/
def keepChar (capacity n : Nat) (stored : List Byte) (ch : Byte) : List Byte :=
  (if stored.length - n < capacity then stored else stored.eraseIdx n) ++ [ch]

namespace Getchar

variable {T U I : Type} [DecidableEq T] [DecidableEq U] [DecidableEq I] [Fintype T] [Fintype U]

def interrupt (i : I) (bufsz : Nat) (chars : List Byte) (s : Getchar T U I) :
    Exec (Getchar T U I) := do
  let (k, rxSem, rxFifo, indicated) ← rtHwSerialIsr i bufsz chars s.rxFifo s.rxSem s.kernel
  pure { s with
    kernel := k
    rxSem := rxSem
    rxFifo := rxFifo
    arrived := s.arrived ++ chars
    stored := chars.foldl (keepChar (bufsz - 1) s.delivered.length) s.stored
    outstanding := if indicated then s.outstanding + 1 else s.outstanding }

/-- `rt_device_read` of one character: `_serial_int_rx` goes at most once through its loop. -/
def read (bufsz : Nat) (s : Getchar T U I) : Getchar T U I :=
  match serialIntRxPass bufsz s.rxFifo with
  | none => { s with stage := .taking }
  | some (ch, rxFifo) =>
    { s with rxFifo := rxFifo, stage := .outside, delivered := s.delivered ++ [ch] }

/-- A `rt_sem_take` has returned, and the shell reads again whatever it was. -/
def taken (result : Err) (s : Getchar T U I) : Getchar T U I :=
  { s with
    stage := .reading
    outstanding := if result = .eok then s.outstanding - 1 else s.outstanding }

section

omit [DecidableEq T] [DecidableEq U] [DecidableEq I] [Fintype T] [Fintype U]

@[simp] theorem taken_stage (result : Err) (s : Getchar T U I) :
    (s.taken result).stage = .reading := rfl
@[simp] theorem taken_rxSem (result : Err) (s : Getchar T U I) :
    (s.taken result).rxSem = s.rxSem := rfl
@[simp] theorem taken_outstanding (result : Err) (s : Getchar T U I) :
    (s.taken result).outstanding = if result = .eok then s.outstanding - 1 else s.outstanding :=
  rfl

end

def take (t : T) (i : I) (s : Getchar T U I) : Exec (Getchar T U I) := do
  -- `RT_WAITING_FOREVER` is -1
  let (k, rxSem, out) ← rtSemTake (some t) i 0xffffffff s.rxSem s.kernel
  let s := { s with kernel := k, rxSem := rxSem }
  match out with
  | some result => pure (s.taken result)
  | none => pure { s with stage := .waiting }

/-- The steps of the system.  An interrupt comes only where fewer than 65535 releases are
    outstanding. -/
inductive Step (cb : State.Callback T U I) (t : T) (i : I) (bufsz : Nat) :
    Getchar T U I → Getchar T U I → Prop where
  | interrupt {s s' : Getchar T U I} (chars : List Byte) : s.outstanding < 65535 →
      s.interrupt i bufsz chars = .ok s' → Step cb t i bufsz s s'
  /-- The shell calls `finsh_getchar`. -/
  | call {s : Getchar T U I} : s.kernel.Running t → s.stage = .outside →
      Step cb t i bufsz s { s with stage := .reading }
  | read {s : Getchar T U I} : s.kernel.Running t → s.stage = .reading →
      Step cb t i bufsz s (s.read bufsz)
  | take {s s' : Getchar T U I} : s.kernel.Running t → s.stage = .taking →
      s.take t i = .ok s' → Step cb t i bufsz s s'
  /-- `rt_schedule` has returned to the shell. -/
  | returns {s : Getchar T U I} : s.kernel.Running t → s.stage = .waiting →
      Step cb t i bufsz s (s.taken (rtSemTakeReturn t s.kernel))
  | elsewhere {s : Getchar T U I} {k : State T U I} :
      State.Elsewhere cb (fun u => u = t ∧ s.stage = .waiting) s.kernel k →
      Step cb t i bufsz s { s with kernel := k }

abbrev Runs (cb : State.Callback T U I) (t : T) (i : I) (bufsz : Nat) :
    Getchar T U I → Getchar T U I → Prop :=
  Relation.ReflTransGen (Step cb t i bufsz)

/-- Any kernel state a run reaches in which no thread waits, after `rt_sem_init` of `rx_sem` and
    `rt_device_set_rx_indicate`.  The device may have received characters before.  Its buffer,
    of `RT_SERIAL_RB_BUFSZ` bytes, has room for one at least. -/
structure Initial (cb : State.Callback T U I) (bufsz : Nat) (s : Getchar T U I) : Prop where
  reached : ∃ k₀, State.Initial k₀ ∧ State.Runs cb k₀ s.kernel
  empty : ∀ i, rtListIsempty (.inl (.suspend i)) s.kernel.tlist = true
  value : s.rxSem.value = 0
  fifo : s.rxFifo.IntHolds bufsz s.stored
  stage : s.stage = .outside
  arrived : s.arrived = s.stored
  delivered : s.delivered = []
  outstanding : s.outstanding = 0

/-- The shell is not left suspended with a character in the FIFO.  What it has got are the first of
    the stored characters, in the order in which they were received, and the FIFO has the rest. -/
structure Delivers (t : T) (bufsz : Nat) (s : Getchar T U I) : Prop where
  awake : s.stage = .waiting → (s.kernel.thread t).stat = .suspend →
    serialIntRxPass bufsz s.rxFifo = none
  order : s.stored.Sublist s.arrived
  got : s.delivered = s.stored.take s.delivered.length
  rest : s.rxFifo.IntHolds bufsz (s.stored.drop s.delivered.length)

/-! ## The FIFO, the semaphore and the shell -/

/-- Where the shell waits. -/
def site (i : I) (stage : GetcharStage) : Option I :=
  if stage = .waiting then some i else none

section

omit [DecidableEq I]

@[simp] theorem site_waiting (i : I) : site i .waiting = some i := rfl

theorem site_none {stage : GetcharStage} (i : I) (h : stage ≠ .waiting) : site i stage = none :=
  if_neg h

theorem site_eq_some {stage : GetcharStage} {i : I} (h : site i stage ≠ none) :
    stage = .waiting := by
  by_contra hno
  exact h (site_none i hno)

end

/-- The shell has been given a token, and its take has not returned yet. -/
def Granted (stage : GetcharStage) (th : Thread) : Prop :=
  stage = .waiting ∧ th.stat ≠ .suspend ∧ th.error = .eok

instance (stage : GetcharStage) (th : Thread) : Decidable (Granted stage th) := by
  unfold Granted
  infer_instance

/-- `held` is in the FIFO.  A token is there where the FIFO has got a character after the shell
    found it empty, and neither is there while the shell is suspended. -/
structure Inv (t : T) (i : I) (bufsz : Nat) (s : Getchar T U I) (v : View T I)
    (held : List Byte) : Prop where
  shows_ : State.Shows 0 s.kernel v
  kept : View.Kept (View.alone t (site i s.stage)) v
  fifo : s.rxFifo.IntHolds bufsz held
  stored : s.stored = s.delivered ++ held
  order : s.stored.Sublist s.arrived
  tokens : s.outstanding =
    s.rxSem.value.toNat + if Granted s.stage (v.thread t) then 1 else 0
  taking : s.stage = .taking → held ≠ [] → 0 < s.rxSem.value
  waiting : s.stage = .waiting → (v.thread t).stat = .suspend → held = [] ∧ s.rxSem.value = 0

variable {cb : State.Callback T U I} {s s' : Getchar T U I} {v v' : View T I} {t : T} {i : I}
  {bufsz : Nat} {held chars : List Byte}

/-! ### An interrupt -/

/-- What a queue of `capacity` characters has after one more, of which it drops the oldest where
    it is full. -/
def arrive (capacity : Nat) (held : List Byte) (ch : Byte) : List Byte :=
  (if held.length < capacity then held else held.tail) ++ [ch]

theorem keepChar_append (capacity : Nat) (got held : List Byte) (ch : Byte) :
    keepChar capacity got.length (got ++ held) ch = got ++ arrive capacity held ch := by
  have hlen : (got ++ held).length - got.length = held.length := by simp
  rw [keepChar, arrive, hlen]
  split
  · rw [List.append_assoc]
  · rw [List.eraseIdx_append_of_length_le (Nat.le_refl _), Nat.sub_self, List.eraseIdx_zero,
      List.append_assoc]

theorem keepChar_sublist (capacity n : Nat) (stored : List Byte) (ch : Byte) :
    (keepChar capacity n stored ch).Sublist (stored ++ [ch]) := by
  unfold keepChar
  apply List.Sublist.append _ (List.Sublist.refl _)
  split
  · exact List.Sublist.refl _
  · exact List.eraseIdx_sublist _ _

theorem keepChars_append (capacity : Nat) (got held chars : List Byte) :
    chars.foldl (keepChar capacity got.length) (got ++ held) =
      got ++ chars.foldl (arrive capacity) held := by
  induction chars generalizing held with
  | nil => rfl
  | cons ch chars ih => rw [List.foldl_cons, keepChar_append, ih, List.foldl_cons]

theorem keepChars_sublist (capacity n : Nat) (stored chars : List Byte) :
    (chars.foldl (keepChar capacity n) stored).Sublist (stored ++ chars) := by
  induction chars generalizing stored with
  | nil => simp
  | cons ch chars ih =>
    have hrest := (ih (keepChar capacity n stored ch)).trans
      ((keepChar_sublist capacity n stored ch).append (List.Sublist.refl chars))
    simpa using hrest

theorem rxIndLoop_holds {rxFifo : RtSerialRxFifo} (h : rxFifo.IntHolds bufsz held)
    (chars : List Byte) :
    (rxIndLoop bufsz chars rxFifo).IntHolds bufsz (chars.foldl (arrive (bufsz - 1)) held) := by
  induction chars generalizing rxFifo held with
  | nil => exact h
  | cons ch chars ih =>
    have hput : (rxInd bufsz ch rxFifo).IntHolds bufsz (arrive (bufsz - 1) held ch) := by
      have := h.rxInd ch
      unfold arrive
      split at this
      case isTrue hroom => rwa [if_pos hroom]
      case isFalse hfull => rwa [if_neg hfull]
    exact ih hput

omit [DecidableEq U] [Fintype T] [Fintype U] in
theorem Inv.waits_eq (hi : Inv t i bufsz s v held) :
    v.waits i = if s.stage = .waiting ∧ (v.thread t).stat = .suspend then [t] else [] := by
  rw [hi.kept.waits_alone]
  by_cases hstage : s.stage = .waiting
  · simp [hstage]
  · simp [hstage, site_none i hstage]

/-- A release wakes the shell, or leaves a token. -/
theorem Inv.release (hi : Inv t i bufsz s v held) (hfew : s.outstanding < 65535)
    {k : State T U I} {rxSem : Semaphore} (h : finshRxInd i s.rxSem s.kernel = .ok (k, rxSem)) :
    ∃ v', State.Shows 0 k v' ∧ View.Kept (View.alone t (site i s.stage)) v' ∧
      s.outstanding + 1 = rxSem.value.toNat + (if Granted s.stage (v'.thread t) then 1 else 0) ∧
      (s.stage ≠ .waiting → 0 < rxSem.value) ∧
      (s.stage = .waiting → (v'.thread t).stat ≠ .suspend) := by
  have htokens := hi.tokens
  rw [finshRxInd, rtSemRelease, hi.shows_.isempty, hi.waits_eq] at h
  by_cases hwaits : s.stage = .waiting ∧ (v.thread t).stat = .suspend
  · obtain ⟨hstage, hstat⟩ := hwaits
    simp only [hstage, hstat, and_self, if_true, decide_eq_false_iff_not, List.cons_ne_nil,
      not_false_eq_true, exec_bind_ok, exec_pure_ok, Prod.mk.injEq] at h
    obtain ⟨k₁, hresume, rfl, rfl⟩ := h
    obtain ⟨u, rest, hlist, hs'⟩ := hi.shows_.rtIpcListResume hresume
    rw [hi.waits_eq, if_pos ⟨hstage, hstat⟩, List.cons.injEq] at hlist
    obtain ⟨rfl, -⟩ := hlist
    have herror := hi.kept.error t (by simp [hstage]) hstat
    refine ⟨_, hs', hi.kept.wake, ?_, fun hno => absurd hstage hno, by simp⟩
    have hbefore : ¬ Granted s.stage (v.thread t) := fun hg => hg.2.1 hstat
    have hafter : Granted s.stage ((v.wake t).thread t) := by simp [Granted, hstage, herror]
    rw [if_neg hbefore] at htokens
    rw [if_pos hafter]
    omega
  · simp only [hwaits, if_false, decide_true, Bool.true_eq_false, exec_pure_ok,
      Prod.mk.injEq] at h
    obtain ⟨rfl, rfl⟩ := h
    have hadd : (s.rxSem.value + 1).toNat = s.rxSem.value.toNat + 1 := by
      rw [BitVec.toNat_add]
      show (s.rxSem.value.toNat + 1) % 2 ^ 16 = _
      omega
    refine ⟨v, hi.shows_, hi.kept, ?_, fun _ => ?_, fun hstage hstat => hwaits ⟨hstage, hstat⟩⟩
    · simp only [hadd]
      omega
    · show 0 < s.rxSem.value + 1
      bv_omega

theorem Inv.interrupt (hi : Inv t i bufsz s v held) (hfew : s.outstanding < 65535)
    (h : s.interrupt i bufsz chars = .ok s') :
    ∃ v', Inv t i bufsz s' v' (chars.foldl (arrive (bufsz - 1)) held) := by
  have hfifo := rxIndLoop_holds hi.fifo chars
  have hstored : chars.foldl (keepChar (bufsz - 1) s.delivered.length) s.stored =
      s.delivered ++ chars.foldl (arrive (bufsz - 1)) held := by
    rw [hi.stored, keepChars_append]
  have horder : (chars.foldl (keepChar (bufsz - 1) s.delivered.length) s.stored).Sublist
      (s.arrived ++ chars) :=
    (keepChars_sublist _ _ _ _).trans (hi.order.append (List.Sublist.refl _))
  simp only [Getchar.interrupt, rtHwSerialIsr, exec_bind_ok, hfifo.rxLength] at h
  obtain ⟨⟨k, rxSem, rxFifo, indicated⟩, hisr, h⟩ := h
  simp only [exec_pure_ok] at h
  subst h
  split at hisr
  case isTrue hlength =>
    simp only [exec_bind_ok, exec_pure_ok, Prod.mk.injEq] at hisr
    obtain ⟨⟨k₁, rxSem₁⟩, hrelease, rfl, rfl, rfl, rfl⟩ := hisr
    obtain ⟨v', hs', hkept, htokens, hvalue, hawake⟩ := hi.release hfew hrelease
    refine ⟨v', hs', hkept, hfifo, hstored, horder, htokens, fun hstage _ => ?_,
      fun hstage hstat => ?_⟩
    · exact hvalue (by simp [show s.stage = .taking from hstage])
    · exact absurd hstat (hawake hstage)
  case isFalse hlength =>
    -- nothing has come, and nothing was there
    have hnil : chars.foldl (arrive (bufsz - 1)) held = [] := by simpa using hlength
    simp only [exec_pure_ok, Prod.mk.injEq] at hisr
    obtain ⟨rfl, rfl, rfl, rfl⟩ := hisr
    refine ⟨v, hi.shows_, hi.kept, hfifo, hstored, horder, hi.tokens, fun _ hne => ?_,
      fun hstage hstat => ⟨hnil, (hi.waiting hstage hstat).2⟩⟩
    exact absurd hnil hne

/-! ### The shell -/

section

omit [DecidableEq U] [DecidableEq I] [Fintype T] [Fintype U]

theorem Inv.call (hi : Inv t i bufsz s v held) (hstage : s.stage = .outside) :
    Inv t i bufsz { s with stage := .reading } v held := by
  have hkept := hi.kept
  have htokens := hi.tokens
  rw [site_none i (by simp [hstage])] at hkept
  refine ⟨hi.shows_, hkept, hi.fifo, hi.stored, hi.order, ?_, fun h => by simp at h,
    fun h => by simp at h⟩
  simpa [Granted, hstage] using htokens

/-- A read takes the oldest character, or finds that there is none. -/
theorem Inv.read (hi : Inv t i bufsz s v held) (hstage : s.stage = .reading) :
    Inv t i bufsz (s.read bufsz) v held.tail := by
  have hkept := hi.kept
  have htokens := hi.tokens
  rw [site_none i (by simp [hstage])] at hkept
  unfold Getchar.read
  obtain ⟨rfl, hpass⟩ | ⟨ch, rest, rxFifo, rfl, hpass, hfifo⟩ := hi.fifo.serialIntRxPass
  · rw [hpass]
    refine ⟨hi.shows_, hkept, hi.fifo, hi.stored, hi.order, ?_, fun _ hne => absurd rfl hne,
      fun h => by simp at h⟩
    simpa [Granted, hstage] using htokens
  · rw [hpass]
    refine ⟨hi.shows_, hkept, hfifo, ?_, hi.order, ?_, fun h => by simp at h,
      fun h => by simp at h⟩
    · simpa using hi.stored
    · simpa [Granted, hstage] using htokens

/-- The shell goes on with its loop, and the token that it may have got counts no more. -/
theorem Inv.taken (hi : Inv t i bufsz s v held) {result : Err} (hready : (v.thread t).stat = .ready)
    (hwaiting : s.stage = .waiting) (hresult : result = (v.thread t).error) :
    Inv t i bufsz (s.taken result) v held := by
  have hkept := hi.kept.leave (t := t) (by simp [hready])
  rw [View.alone_update] at hkept
  have htokens := hi.tokens
  refine ⟨hi.shows_, hkept, hi.fifo, hi.stored, hi.order, ?_, fun h => by simp at h,
    fun h => by simp at h⟩
  by_cases heok : (v.thread t).error = .eok
  · simp [Granted, hresult, heok, htokens, hwaiting, hready]
  · simp [Granted, hresult, heok, htokens]

end

/-- The shell is suspended only where no token is there, and then the FIFO is still empty. -/
theorem Inv.take (hi : Inv t i bufsz s v held) (hrunning : s.kernel.Running t)
    (hstage : s.stage = .taking) (h : s.take t i = .ok s') : ∃ v', Inv t i bufsz s' v' held := by
  have htokens := hi.tokens
  have hkept := hi.kept
  rw [site_none i (by simp [hstage])] at hkept
  simp only [Getchar.take, rtSemTake, exec_bind_ok] at h
  obtain ⟨⟨k, rxSem, out⟩, htake, h⟩ := h
  split at htake
  case isTrue hpos =>
    simp only [exec_pure_ok, Prod.mk.injEq] at htake
    obtain ⟨rfl, rfl, rfl⟩ := htake
    simp only [exec_pure_ok] at h
    subst h
    have hsub : s.rxSem.value.toNat = (s.rxSem.value - 1).toNat + 1 := by bv_omega
    refine ⟨v, hi.shows_, hkept, hi.fifo, hi.stored, hi.order, ?_, fun h => by simp at h,
      fun h => by simp at h⟩
    simp only [Granted, hstage, reduceCtorEq, false_and, if_false] at htokens
    simp only [taken_outstanding, taken_rxSem, taken_stage, Granted, reduceCtorEq, false_and,
      if_false, if_true]
    omega
  case isFalse hzero =>
    have hvalue : s.rxSem.value = 0 := by bv_omega
    have hheld : held = [] := by
      by_contra hne
      exact hzero (hi.taking hstage hne)
    rw [if_neg (by decide)] at htake
    simp only [exec_bind_ok, exec_pure_ok, Prod.mk.injEq] at htake
    obtain ⟨k₁, hwait, rfl, rfl, rfl⟩ := htake
    simp only [exec_pure_ok] at h
    subst h
    have hready := hrunning.2
    rw [hi.shows_.thread] at hready
    obtain ⟨xs, ys, hsplit, -, hs'⟩ :=
      (hi.shows_.setError (t := t) .eok).waitOn (by simpa using hready) hwait
    have hcleared := hkept.modify (t := t) (f := fun th => { th with error := .eok }) rfl
      (fun _ _ => rfl)
    have hwaits := hcleared.enqueue (t := t) (View.alone_self t none) hsplit (by simp)
    rw [View.alone_update] at hwaits
    refine ⟨_, hs', hwaits, hi.fifo, hi.stored, hi.order, ?_, fun h => by simp at h,
      fun _ _ => ⟨hheld, hvalue⟩⟩
    simpa [Granted, hstage] using htokens

omit [DecidableEq U] [DecidableEq I] [Fintype T] [Fintype U] in
theorem Inv.returns (hi : Inv t i bufsz s v held) (hrunning : s.kernel.Running t)
    (hstage : s.stage = .waiting) :
    Inv t i bufsz (s.taken (rtSemTakeReturn t s.kernel)) v held := by
  have hready := hrunning.2
  rw [hi.shows_.thread] at hready
  refine hi.taken hready hstage ?_
  rw [rtSemTakeReturn, hi.shows_.thread]
  split
  · rfl
  case isFalse heok => exact (not_not.mp heok).symm

theorem Inv.elsewhere (hi : Inv t i bufsz s v held) {k : State T U I}
    (h : State.Elsewhere cb (fun u => u = t ∧ s.stage = .waiting) s.kernel k) :
    ∃ v', Inv t i bufsz { s with kernel := k } v' held := by
  have hbusy : ∀ u, View.alone t (site i s.stage) u ≠ none → u = t ∧ s.stage = .waiting :=
    fun u hu => ⟨(View.alone_busy hu).1, site_eq_some (View.alone_busy hu).2⟩
  obtain ⟨v', hsteps, hs'⟩ := hi.shows_.elsewhere (hi.kept.members_busy hbusy) h
  refine ⟨v', hs', hi.kept.envs hbusy hsteps, hi.fifo, hi.stored, hi.order, ?_, hi.taking, ?_⟩
  · have hgranted : Granted s.stage (v'.thread t) ↔ Granted s.stage (v.thread t) := by
      clear hs'
      induction hsteps with
      | refl => rfl
      | tail _ hstep ih =>
        rw [← ih]
        cases hstep with
        | other hthread _ =>
          by_cases hstage : s.stage = .waiting
          · obtain ⟨n, hn⟩ := hthread t ⟨rfl, hstage⟩
            rw [hn]
            rfl
          · simp [Granted, hstage]
        | timeout u hu hstat =>
          -- no token comes with a time-out
          obtain ⟨rfl, hstage⟩ := hu
          simp [Granted, hstat]
    simpa only [hgranted] using hi.tokens
  · intro hstage hstat
    exact hi.waiting hstage (View.Env.suspended hsteps ⟨rfl, hstage⟩ hstat)

theorem Inv.step (hi : Inv t i bufsz s v held) (h : Step cb t i bufsz s s') :
    ∃ v' held', Inv t i bufsz s' v' held' := by
  cases h with
  | interrupt chars hfew hinterrupt =>
    obtain ⟨v', hi'⟩ := hi.interrupt hfew hinterrupt
    exact ⟨v', _, hi'⟩
  | call _ hstage => exact ⟨v, held, hi.call hstage⟩
  | read _ hstage => exact ⟨v, held.tail, hi.read hstage⟩
  | take hrunning hstage htake =>
    obtain ⟨v', hi'⟩ := hi.take hrunning hstage htake
    exact ⟨v', held, hi'⟩
  | returns hrunning hstage => exact ⟨v, held, hi.returns hrunning hstage⟩
  | elsewhere helse =>
    obtain ⟨v', hi'⟩ := hi.elsewhere helse
    exact ⟨v', held, hi'⟩

theorem Initial.inv (h : Initial cb bufsz s) (t : T) (i : I) :
    ∃ v, Inv t i bufsz s v s.stored := by
  obtain ⟨k₀, hboot, hruns⟩ := h.reached
  obtain ⟨v, hs⟩ := (State.runs_good hboot hruns).shows
  have hnil : ∀ i, v.waits i = [] := by
    intro i
    have := h.empty i
    rw [hs.isempty] at this
    simpa using this
  refine ⟨v, hs, ?_, h.fifo, ?_, ?_, ?_, fun hw => ?_, fun hw => ?_⟩
  · rw [site_none i (by simp [h.stage]), View.alone_none]
    constructor <;> simp [hnil]
  · rw [h.delivered, List.nil_append]
  · rw [h.arrived]
  · simp [h.outstanding, h.value, Granted, h.stage]
  · simp [h.stage] at hw
  · simp [h.stage] at hw

omit [DecidableEq U] [DecidableEq I] [Fintype T] [Fintype U] in
theorem Inv.delivers (hi : Inv t i bufsz s v held) : Delivers t bufsz s := by
  constructor
  · intro hstage hstat
    rw [hi.shows_.thread] at hstat
    obtain ⟨rfl, -⟩ := hi.waiting hstage hstat
    obtain ⟨-, hnone⟩ | ⟨ch, rest, -, hcons, -⟩ := hi.fifo.serialIntRxPass
    · exact hnone
    · cases hcons
  · exact hi.order
  · rw [hi.stored, List.take_left]
  · rw [hi.stored, List.drop_left]
    exact hi.fifo

/-! ## The shell gets every character that is kept -/

/-- However the receive interrupts fall between the steps of the shell, the shell is not left
    suspended with a character in the FIFO, and gets the characters that the FIFO keeps in order,
    each once. -/
theorem finsh_getchar_delivers (cb : State.Callback T U I) (t : T) (i : I) (bufsz : Nat)
    {s₀ s : Getchar T U I} (hi : Initial cb bufsz s₀) (hr : Runs cb t i bufsz s₀ s) :
    Delivers t bufsz s := by
  have hinv : ∃ v held, Inv t i bufsz s v held := by
    induction hr with
    | refl =>
      obtain ⟨v, hv⟩ := hi.inv t i
      exact ⟨v, _, hv⟩
    | tail _ hstep ih =>
      obtain ⟨v, held, hv⟩ := ih
      exact hv.step hstep
  obtain ⟨v, held, hv⟩ := hinv
  exact hv.delivers

/-- A run, event by event. -/
inductive Event where
  | interrupt (chars : List Byte)
  | call
  | read
  | take
  | returns
  | schedule

def play (t : T) (i : I) (bufsz : Nat) (s : Getchar T U I) : Event → Exec (Getchar T U I)
  | .interrupt chars => do
    rtAssert (s.outstanding < 65535)
    s.interrupt i bufsz chars
  | .call => do
    rtAssert (s.kernel.rtCurrentThread = some t ∧ (s.kernel.thread t).stat = .ready)
    rtAssert (s.stage = .outside)
    pure { s with stage := .reading }
  | .read => do
    rtAssert (s.kernel.rtCurrentThread = some t ∧ (s.kernel.thread t).stat = .ready)
    rtAssert (s.stage = .reading)
    pure (s.read bufsz)
  | .take => do
    rtAssert (s.kernel.rtCurrentThread = some t ∧ (s.kernel.thread t).stat = .ready)
    rtAssert (s.stage = .taking)
    s.take t i
  | .returns => do
    rtAssert (s.kernel.rtCurrentThread = some t ∧ (s.kernel.thread t).stat = .ready)
    rtAssert (s.stage = .waiting)
    pure (s.taken (rtSemTakeReturn t s.kernel))
  | .schedule => do
    let k ← s.kernel.rtSchedule
    pure { s with kernel := k }

theorem play_step {event : Event} (h : play t i bufsz s event = .ok s') :
    Step (fun _ _ => []) t i bufsz s s' := by
  cases event with
  | interrupt chars =>
    simp only [play, exec_bind_ok, rtAssert_eq_ok] at h
    obtain ⟨_, hfew, hinterrupt⟩ := h
    exact .interrupt chars hfew hinterrupt
  | call =>
    simp only [play, exec_bind_ok, rtAssert_eq_ok, exec_pure_ok] at h
    obtain ⟨_, hrunning, _, hstage, rfl⟩ := h
    exact .call hrunning hstage
  | read =>
    simp only [play, exec_bind_ok, rtAssert_eq_ok, exec_pure_ok] at h
    obtain ⟨_, hrunning, _, hstage, rfl⟩ := h
    exact .read hrunning hstage
  | take =>
    simp only [play, exec_bind_ok, rtAssert_eq_ok] at h
    obtain ⟨_, hrunning, _, hstage, htake⟩ := h
    exact .take hrunning hstage htake
  | returns =>
    simp only [play, exec_bind_ok, rtAssert_eq_ok, exec_pure_ok] at h
    obtain ⟨_, hrunning, _, hstage, rfl⟩ := h
    exact .returns hrunning hstage
  | schedule =>
    simp only [play, exec_bind_ok, exec_pure_ok] at h
    obtain ⟨k, hschedule, rfl⟩ := h
    exact .elsewhere (.call .schedule (by simp [State.Foreign, KernelOp.target])
      (by simp [KernelOp.own]) hschedule)

/-- The console after it was opened, and the semaphore after `rt_sem_init`. -/
def init (k : State T U I) : Getchar T U I where
  kernel := k
  rxSem := ⟨0, .fifo⟩
  rxFifo := .opened
  stage := .outside
  arrived := []
  stored := []
  delivered := []
  outstanding := 0

theorem init_initial {threads : List (T × Nat)} {k : State T U I}
    (hk : State.booted threads = .ok k)
    (hempty : ∀ i, rtListIsempty (.inl (.suspend i)) k.tlist = true) (htwo : 2 ≤ bufsz)
    (hsixteen : bufsz < 2 ^ 16) : Initial cb bufsz (init k) :=
  ⟨State.booted_reached hk, hempty, rfl, .opened htwo hsixteen, rfl, rfl, rfl, rfl⟩

/-- In a buffer of four bytes, a character comes after the shell has found the FIFO empty, and
    four more while it is suspended the next time.  It gets the first of the five, and the third
    after the second was dropped. -/
theorem finsh_getchar_delivers_after_drop :
    ∃ s₀ s : Getchar (Fin 2) (Fin 0) (Fin 1), Initial (fun _ _ => []) 4 s₀ ∧
      Runs (fun _ _ => []) 1 0 4 s₀ s ∧ s.arrived = [1, 2, 3, 4, 5] ∧ s.delivered = [1, 3] ∧
      Delivers 1 4 s := by
  let run : Exec (State (Fin 2) (Fin 0) (Fin 1) × Getchar (Fin 2) (Fin 0) (Fin 1)) := do
    let k ← State.booted [(0, 31), (1, 10)]
    let s ← [Event.call, .read, .interrupt [1], .take, .read, .call, .read, .take, .schedule,
      .interrupt [2, 3, 4, 5], .schedule, .returns, .read].foldlM (play 1 0 4) (init k)
    pure (k, s)
  obtain ⟨⟨k, s⟩, hrun, hdata⟩ := exec_exists_ok (show
    run.map (fun x => (rtListIsempty (.inl (.suspend 0)) x.1.tlist, x.2.arrived,
      x.2.delivered)) = .ok (true, [1, 2, 3, 4, 5], [1, 3]) by decide +kernel)
  simp only [run, exec_bind_ok, exec_pure_ok, Prod.mk.injEq] at hrun
  obtain ⟨k, hk, s, hplay, rfl, rfl⟩ := hrun
  simp only [Prod.mk.injEq] at hdata
  obtain ⟨hempty, harrived, hdelivered⟩ := hdata
  have hinitial : Initial (fun _ _ => []) 4 (init k : Getchar (Fin 2) (Fin 0) (Fin 1)) :=
    init_initial hk (fun i => Subsingleton.elim 0 i ▸ hempty) (by decide) (by decide)
  have hruns : Runs (fun _ _ => []) 1 0 4 (init k) s := foldlM_runs (fun _ _ _ => play_step) hplay
  exact ⟨init k, s, hinitial, hruns, harrived, hdelivered,
    finsh_getchar_delivers _ 1 0 4 hinitial hruns⟩

end Getchar

end PandoraRobot.Finsh
