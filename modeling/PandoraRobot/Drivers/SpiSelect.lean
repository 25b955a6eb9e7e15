import PandoraRobot.Drivers.SpiXfer

/-! # The chip select lines of an SPI bus

`rt_spi_send_then_send`, `rt_spi_send_then_recv` and `rt_spi_transfer`, with `spixfer` below them.
Each device has a line of its own, which the first message of a call takes and the last one
releases.
-/

namespace PandoraRobot.Drivers

open PandoraRobot.Kernel PandoraRobot.RecursiveLock PandoraRobot.Trace

/-! ## The calls, down to the controller -/

/-- What the controller does in a call: whether it can configure itself, and what the HAL returns
    for each piece of each message. -/
structure SpiOutcomes where
  configure : Int
  spiDmaFlag : BitVec 8
  hal : Nat → Nat → HalStatus

/-- What a thread asks for. -/
inductive SpiRequest where
  | sendThenSend (sendBuf1 sendLength1 sendBuf2 sendLength2 : BitVec 32)
  | sendThenRecv (sendBuf sendLength recvBuf recvLength : BitVec 32)
  | transfer (sendBuf recvBuf length : BitVec 32)
  | configure (cfg : SpiConfiguration)
  | takeBus
  | releaseBus

namespace SpiRequest

/-- The messages of a call. -/
def messages : SpiRequest → List SpiMessage
  | sendThenSend sendBuf1 sendLength1 sendBuf2 sendLength2 =>
    [{ sendBuf := sendBuf1, recvBuf := 0, length := sendLength1, csTake := true,
       csRelease := false },
     { sendBuf := sendBuf2, recvBuf := 0, length := sendLength2, csTake := false,
       csRelease := true }]
  | sendThenRecv sendBuf sendLength recvBuf recvLength =>
    [{ sendBuf, recvBuf := 0, length := sendLength, csTake := true, csRelease := false },
     { sendBuf := 0, recvBuf, length := recvLength, csTake := false, csRelease := true }]
  | transfer sendBuf recvBuf length =>
    [{ sendBuf, recvBuf, length, csTake := true, csRelease := true }]
  | _ => []

/-- The callbacks of the controller: `xfer` is `spixfer` of the message at hand. -/
def ops (request : SpiRequest) (outcomes : SpiOutcomes) : SpiOps where
  configure := outcomes.configure
  xfer n :=
    match request.messages[n]? with
    | some message => (spixfer outcomes.spiDmaFlag (outcomes.hal n) message).2
    | none => 0

end SpiRequest

/-- A call by a thread, for a device. -/
structure SelectCall (T D : Type) where
  thread : T
  device : D
  outcomes : SpiOutcomes
  request : SpiRequest

/-- A bus, and the devices whose chip select line is down. -/
structure SelectBus (T D : Type) where
  bus : SpiBus T D
  selected : D → Bool

namespace SelectCall

variable {T D : Type} [DecidableEq T] [DecidableEq D]

/-- The function that the thread calls. -/
def toCall (call : SelectCall T D) : SpiBus.SpiCall T D :=
  let ops := call.request.ops call.outcomes
  match call.request with
  | .sendThenSend sendBuf1 sendLength1 sendBuf2 sendLength2 =>
    .sendThenSend call.thread call.device ops sendBuf1 sendLength1 sendBuf2 sendLength2
  | .sendThenRecv sendBuf sendLength recvBuf recvLength =>
    .sendThenRecv call.thread call.device ops sendBuf sendLength recvBuf recvLength
  | .transfer sendBuf recvBuf length =>
    .transfer call.thread call.device ops sendBuf recvBuf length
  | .configure cfg => .configure call.thread call.device ops cfg
  | .takeBus => .takeBus call.thread call.device ops
  | .releaseBus => .releaseBus call.thread call.device

/-- The lines after an action for a device. -/
def select (device : D) (selected : D → Bool) : SpiAction → D → Bool
  | .csReset => Function.update selected device true
  | .csSet => Function.update selected device false
  | _ => selected

/-- The lines after actions for a device, and the lines at each transfer among them. -/
def watch (device : D) : List SpiAction → (D → Bool) → (D → Bool) × List (D × (D → Bool))
  | [], selected => (selected, [])
  | action :: actions, selected =>
    let now := select device selected action
    let (after, seen) := watch device actions now
    (after, if action.isTransfer then (device, now) :: seen else seen)

/-- The lines after the calls of `xfer` from the `n`-th one on, and at each transfer. -/
def watchXfers (outcomes : SpiOutcomes) (n : Nat) :
    List (Xfer D) → (D → Bool) → (D → Bool) × List (D × (D → Bool))
  | [], selected => (selected, [])
  | x :: xfers, selected =>
    let (now, seen) :=
      watch x.device (spixfer outcomes.spiDmaFlag (outcomes.hal n) x.message).1 selected
    let (after, rest) := watchXfers outcomes (n + 1) xfers now
    (after, seen ++ rest)

/-- One call, with the device of each transfer and the lines at that time. -/
def step (call : SelectCall T D) (s : SelectBus T D) :
    Except SpiStop (SelectBus T D × List (D × (D → Bool))) := do
  let (bus, xfers) ← SpiBus.step call.toCall s.bus
  let (selected, seen) := watchXfers call.outcomes 0 xfers s.selected
  pure (⟨bus, selected⟩, seen)

/-! ## What is expected of a call -/

/-- No line is down. -/
def Idle (s : SelectBus T D) : Prop := ∀ device, s.selected device = false

/-- When the call returns, no line is down, and none but the device's own has been at a transfer. -/
def Released (call : SelectCall T D) (s : SelectBus T D) : Prop :=
  ∀ s' seen, step call s = .ok (s', seen) →
    Idle s' ∧ ∀ r ∈ seen, ∀ device, r.2 device = true → device = r.1

/-- The first message of a call that has more is not empty, and the HAL moves all of it. -/
def FirstSucceeds (outcomes : SpiOutcomes) (length : BitVec 32) : Prop :=
  length ≠ 0 ∧ ∀ i, 65535 * i < length.toNat → outcomes.hal 0 i = .ok

/-- The call has to wait for the bus, or it fails before the first message, or that one succeeds. -/
def FirstStage (call : SelectCall T D) (s : SelectBus T D) (length : BitVec 32) : Prop :=
  s.bus.lock.take call.thread = none ∨
    (s.bus.owner ≠ some call.device ∧ call.outcomes.configure ≠ rtEok) ∨
    FirstSucceeds call.outcomes length

/-- The condition on a call. -/
def Meets (call : SelectCall T D) (s : SelectBus T D) : Prop :=
  match call.request with
  | .sendThenSend _ sendLength1 _ _ => FirstStage call s sendLength1
  | .sendThenRecv _ sendLength _ _ => FirstStage call s sendLength
  | _ => True

/-! ## The lines in a call of `xfer` -/

variable {device : D} {selected : D → Bool} {actions : List SpiAction} {spiDmaFlag : BitVec 8}
  {hal : Nat → HalStatus} {message : SpiMessage} {outcomes : SpiOutcomes}

theorem watch_append (as bs : List SpiAction) : watch device (as ++ bs) selected =
    ((watch device bs (watch device as selected).1).1,
      (watch device as selected).2 ++ (watch device bs (watch device as selected).1).2) := by
  induction as generalizing selected with
  | nil => rfl
  | cons a as ih =>
    simp only [List.cons_append, watch, ih]
    split <;> rfl

/-- Transfers leave the lines as they are. -/
theorem watch_moves (device : D) (selected : D → Bool)
    (h : ∀ action ∈ actions, action ≠ .csReset ∧ action ≠ .csSet) :
    (watch device actions selected).1 = selected ∧
      ∀ r ∈ (watch device actions selected).2, r = (device, selected) := by
  induction actions with
  | nil => exact ⟨rfl, by simp [watch]⟩
  | cons action actions ih =>
    obtain ⟨⟨hreset, hset⟩, hrest⟩ := List.forall_mem_cons.mp h
    have hnow : select device selected action = selected := by
      cases action with
      | csReset => exact absurd rfl hreset
      | csSet => exact absurd rfl hset
      | memset | transmitReceive | transmit | receive => rfl
    obtain ⟨hafter, hseen⟩ := ih hrest
    simp only [watch, hnow]
    refine ⟨hafter, ?_⟩
    split
    · exact List.forall_mem_cons.mpr ⟨rfl, hseen⟩
    · exact hseen

theorem halTransfer_moves (piece : BitVec 32 × BitVec 16) :
    ∀ action ∈ halTransfer spiDmaFlag message piece.1 piece.2,
      action ≠ .csReset ∧ action ≠ .csSet := by
  unfold halTransfer
  dsimp only
  split
  · simp
  · split <;> simp

/-- The line of the device in a message: down from its start on if it takes the line, and up again
    at its end if it releases it, whatever the HAL returns. -/
theorem watch_spixfer (device : D) (selected : D → Bool) (spiDmaFlag : BitVec 8)
    (hal : Nat → HalStatus) (message : SpiMessage) :
    let during := if message.csTake then Function.update selected device true else selected
    (watch device (spixfer spiDmaFlag hal message).1 selected).1 =
        (if message.csRelease then Function.update during device false else during) ∧
      ∀ r ∈ (watch device (spixfer spiDmaFlag hal message).1 selected).2, r = (device, during) := by
  intro during
  have hactions : (spixfer spiDmaFlag hal message).1 =
      (if message.csTake then [.csReset] else []) ++
        (xferPieces hal message).flatMap
          (fun piece => halTransfer spiDmaFlag message piece.1 piece.2) ++
        (if message.csRelease then [.csSet] else []) := rfl
  have htake : watch device (if message.csTake then [.csReset] else []) selected =
      (during, []) := by
    simp only [during]
    split <;> rfl
  have hmoves : ∀ action ∈ (xferPieces hal message).flatMap
      (fun piece => halTransfer spiDmaFlag message piece.1 piece.2),
        action ≠ .csReset ∧ action ≠ .csSet := by
    intro action haction
    obtain ⟨piece, -, hmem⟩ := List.mem_flatMap.mp haction
    exact halTransfer_moves piece action hmem
  obtain ⟨hafter, hseen⟩ := watch_moves device during hmoves
  have hrelease : watch device (if message.csRelease then [.csSet] else []) during =
      (if message.csRelease then Function.update during device false else during, []) := by
    split <;> rfl
  rw [hactions, watch_append, watch_append, htake]
  simp only [hafter, hrelease, List.nil_append, List.append_nil]
  exact ⟨trivial, hseen⟩

theorem xferLoop_count (n i : Nat) (messageLength length : BitVec 32) :
    i < (xferLoop hal n messageLength length).1.length ↔ 65535 * i < messageLength.toNat := by
  induction messageLength using messageLength_induction generalizing n length i with
  | done =>
    rw [xferLoop_done]
    simp
  | last m hsome hlast =>
    have hpos : 0 < m.toNat := by bv_omega
    rw [xferLoop_last hsome hlast, List.length_singleton]
    omega
  | more m hmore ih =>
    rw [xferLoop_more hmore, List.length_cons]
    obtain rfl | hpos := Nat.eq_zero_or_pos i
    · omega
    · have hrest := ih (n + 1) (i - 1) (if hal n = .ok then length else 0)
      have hleft : (m - 65535).toNat = m.toNat - 65535 := by bv_omega
      rw [hleft] at hrest
      omega

/-- `spixfer` returns 0 for an empty message, and where a piece fails. -/
theorem spixfer_zero_iff : (spixfer outcomes.spiDmaFlag (outcomes.hal 0) message).2 = 0 ↔
    ¬ FirstSucceeds outcomes message.length := by
  have hall : (∀ i < (xferPieces (outcomes.hal 0) message).length, outcomes.hal 0 i = .ok) ↔
      ∀ i, 65535 * i < message.length.toNat → outcomes.hal 0 i = .ok :=
    forall_congr' fun i => imp_congr_left (xferLoop_count 0 i _ _)
  rw [spixfer_length, FirstSucceeds]
  by_cases hok : ∀ i < (xferPieces (outcomes.hal 0) message).length, outcomes.hal 0 i = .ok
  · rw [if_pos hok]
    exact ⟨fun hzero h => h.1 hzero, fun h => by_contra fun hsome => h ⟨hsome, hall.mp hok⟩⟩
  · rw [if_neg hok]
    exact iff_of_true rfl fun h => hok (hall.mpr h.2)

end SelectCall

/-! ## The calls of `xfer` in a call -/

namespace SpiBus

variable {T D : Type} [DecidableEq T]
variable {thread : T} {device : D} {ops : SpiOps} {bus bus' : SpiBus T D}

theorem takeLock_returns (h : bus.lock.take thread ≠ none) :
    ∃ lock, bus.takeLock thread = .ok { bus.setErrno thread rtEok with lock } := by
  obtain ⟨lock, hlock⟩ := Option.ne_none_iff_exists'.mp h
  exact ⟨lock, by rw [takeLock, hlock]⟩

variable [DecidableEq D]

/-- A call that gets the bus returns. -/
theorem sendThen_returns (device : D) (ops : SpiOps) (h : bus.lock.take thread ≠ none)
    (first second : SpiMessage) :
    ∃ r, bus.sendThen thread device ops first second = .ok r := by
  obtain ⟨lock, hlock⟩ := takeLock_returns h
  simp only [sendThen, hlock, bind, Except.bind]
  split
  · split
    · exact ⟨_, rfl⟩
    · split <;> exact ⟨_, rfl⟩
  · exact ⟨_, rfl⟩

omit [DecidableEq D] in
theorem take_of_takeLock (h : bus.takeLock thread = .ok bus') : bus.lock.take thread ≠ none := by
  obtain ⟨lock, hlock, -⟩ := takeLock_ok h
  rw [hlock]
  exact Option.some_ne_none lock

omit [DecidableEq T] in
/-- The controller is the device's. -/
theorem reconfigure_owns : (bus.reconfigure device ops).2 = true ↔
    bus.owner = some device ∨ ops.configure = rtEok := by
  unfold reconfigure
  by_cases howner : bus.owner = some device
  · simp [howner]
  · by_cases hok : ops.configure = rtEok <;> simp [howner, hok]

/-- The second message is for the controller only where the first one has succeeded. -/
theorem sendThen_xfers {first second : SpiMessage} {out : Out D Int}
    (h : bus.sendThen thread device ops first second = .ok (bus', out)) :
    bus.lock.take thread ≠ none ∧
      ((bus.owner ≠ some device ∧ ops.configure ≠ rtEok ∧ out.xfers = []) ∨
        ((bus.owner = some device ∨ ops.configure = rtEok) ∧ ∃ configured : SpiBus T D,
          out.xfers = configured.opsXfer device first ::
            if ops.xfer 0 = 0 then [] else [configured.opsXfer device second])) := by
  simp only [sendThen, stop_bind_ok] at h
  obtain ⟨locked, htake, h⟩ := h
  have howner : locked.owner = bus.owner := by
    obtain ⟨lock, -, rfl⟩ := takeLock_ok htake
    rfl
  refine ⟨take_of_takeLock htake, ?_⟩
  split at h
  case isTrue howns =>
    refine .inr ⟨howner ▸ reconfigure_owns.mp howns, (locked.reconfigure device ops).1, ?_⟩
    split at h
    case isTrue hfails =>
      simp only [stop_pure_ok, Prod.mk.injEq] at h
      rw [← h.2, if_pos hfails]
    case isFalse hmoved =>
      split at h
      all_goals
        simp only [stop_pure_ok, Prod.mk.injEq] at h
        rw [← h.2, if_neg hmoved]
  case isFalse hother =>
    rw [reconfigure_owns, howner, not_or] at hother
    simp only [stop_pure_ok, Prod.mk.injEq] at h
    exact .inl ⟨hother.1, hother.2, by rw [← h.2]⟩

theorem rtSpiTransfer_xfers {sendBuf recvBuf length : BitVec 32} {out : Out D (BitVec 32)}
    (h : bus.rtSpiTransfer thread device ops sendBuf recvBuf length = .ok (bus', out)) :
    out.xfers = [] ∨ ∃ configured : SpiBus T D, out.xfers = [configured.opsXfer device
      { sendBuf, recvBuf, length, csTake := true, csRelease := true }] := by
  simp only [rtSpiTransfer, stop_bind_ok] at h
  obtain ⟨locked, -, h⟩ := h
  split at h
  · refine .inr ⟨(locked.reconfigure device ops).1, ?_⟩
    split at h
    all_goals
      simp only [stop_pure_ok, Prod.mk.injEq] at h
      rw [← h.2]
  · simp only [stop_pure_ok, Prod.mk.injEq] at h
    exact .inl (by rw [← h.2])

theorem rtSpiConfigure_xfers {cfg : SpiConfiguration} {out : Out D Int}
    (h : bus.rtSpiConfigure thread device ops cfg = .ok (bus', out)) : out.xfers = [] := by
  simp only [rtSpiConfigure, configureOwner, stop_bind_ok, stop_pure_ok, Prod.mk.injEq] at h
  obtain ⟨locked, -, -, rfl⟩ := h
  rfl

theorem rtSpiTakeBus_xfers {out : Out D Int}
    (h : bus.rtSpiTakeBus thread device ops = .ok (bus', out)) : out.xfers = [] := by
  simp only [rtSpiTakeBus, stop_bind_ok] at h
  obtain ⟨locked, -, h⟩ := h
  split at h
  all_goals
    simp only [stop_pure_ok, Prod.mk.injEq] at h
    rw [← h.2]

theorem rtSpiReleaseBus_xfers {out : Out D Int}
    (h : bus.rtSpiReleaseBus thread device = .ok (bus', out)) : out.xfers = [] := by
  simp only [rtSpiReleaseBus] at h
  split at h
  · simp only [stop_pure_ok, Prod.mk.injEq] at h
    rw [← h.2]
  · cases h

end SpiBus

/-! ## The lines in a call -/

namespace SelectCall

variable {T D : Type} [DecidableEq T] [DecidableEq D]
variable {call : SelectCall T D} {s s' : SelectBus T D} {seen : List (D × (D → Bool))}
  {first second : SpiMessage}

theorem step_ok : step call s = .ok (s', seen) ↔ ∃ bus xfers,
    SpiBus.step call.toCall s.bus = .ok (bus, xfers) ∧
      s' = ⟨bus, (watchXfers call.outcomes 0 xfers s.selected).1⟩ ∧
      seen = (watchXfers call.outcomes 0 xfers s.selected).2 := by
  simp only [step, stop_bind_ok, stop_pure_ok, Prod.exists, Prod.mk.injEq]
  constructor
  · rintro ⟨bus, xfers, hstep, rfl, rfl⟩
    exact ⟨bus, xfers, hstep, rfl, rfl⟩
  · rintro ⟨bus, xfers, hstep, rfl, rfl⟩
    exact ⟨bus, xfers, hstep, rfl, rfl⟩

/-- The lines while the device has its own down. -/
theorem update_true {selected : D → Bool} {device d : D} (hidle : ∀ d, selected d = false)
    (h : Function.update selected device true d = true) : d = device := by
  by_contra hne
  rw [Function.update_of_ne hne, hidle d] at h
  cases h

theorem update_back {selected : D → Bool} (device d : D) (hidle : ∀ d, selected d = false) :
    Function.update (Function.update selected device true) device false d = false := by
  by_cases heq : d = device
  · rw [heq, Function.update_self]
  · rw [Function.update_of_ne heq, Function.update_of_ne heq, hidle d]

/-- No message is transferred. -/
theorem released_of_none (hidle : Idle s)
    (hnone : ∀ bus xfers, SpiBus.step call.toCall s.bus = .ok (bus, xfers) → xfers = []) :
    Released call s := by
  intro s' seen hstep
  obtain ⟨bus, xfers, hcall, rfl, rfl⟩ := step_ok.mp hstep
  obtain rfl := hnone bus xfers hcall
  exact ⟨hidle, fun r hr => by cases hr⟩

/-- One message takes the line and releases it. -/
theorem released_of_one (message : SpiMessage) (hidle : Idle s) (htake : message.csTake = true)
    (hrelease : message.csRelease = true)
    (hone : ∀ bus xfers, SpiBus.step call.toCall s.bus = .ok (bus, xfers) →
      xfers = [] ∨ ∃ configured : SpiBus T D, xfers = [configured.opsXfer call.device message]) :
    Released call s := by
  intro s' seen hstep
  obtain ⟨bus, xfers, hcall, rfl, rfl⟩ := step_ok.mp hstep
  obtain rfl | ⟨configured, rfl⟩ := hone bus xfers hcall
  · exact ⟨hidle, fun r hr => by cases hr⟩
  have hwatch := watch_spixfer call.device s.selected call.outcomes.spiDmaFlag
    (call.outcomes.hal 0) message
  simp only [htake, hrelease, if_true] at hwatch
  simp only [watchXfers, SpiBus.opsXfer, List.append_nil]
  refine ⟨fun d => ?_, fun r hr d hd => ?_⟩
  · show (watch call.device _ s.selected).1 d = false
    rw [hwatch.1]
    exact update_back call.device d hidle
  · rw [hwatch.2 r hr] at hd ⊢
    exact update_true hidle hd

/-- The function is two messages in a row, of which the first one takes the line and the second one
    releases it. -/
structure TwoStages (call : SelectCall T D) (s : SelectBus T D) (first second : SpiMessage) :
    Prop where
  code : SpiBus.step call.toCall s.bus = (do
    let (bus, out) ← s.bus.sendThen call.thread call.device (call.request.ops call.outcomes)
      first second
    pure (bus, out.xfers))
  messages : call.request.messages = [first, second]
  first : first.csTake = true ∧ first.csRelease = false
  second : second.csTake = false ∧ second.csRelease = true

theorem twoStages_sendThenSend (thread : T) (device : D) (outcomes : SpiOutcomes)
    (sendBuf1 sendLength1 sendBuf2 sendLength2 : BitVec 32) :
    TwoStages ⟨thread, device, outcomes, .sendThenSend sendBuf1 sendLength1 sendBuf2 sendLength2⟩ s
      ⟨sendBuf1, 0, sendLength1, true, false⟩ ⟨sendBuf2, 0, sendLength2, false, true⟩ :=
  ⟨rfl, rfl, ⟨rfl, rfl⟩, ⟨rfl, rfl⟩⟩

theorem twoStages_sendThenRecv (thread : T) (device : D) (outcomes : SpiOutcomes)
    (sendBuf sendLength recvBuf recvLength : BitVec 32) :
    TwoStages ⟨thread, device, outcomes, .sendThenRecv sendBuf sendLength recvBuf recvLength⟩ s
      ⟨sendBuf, 0, sendLength, true, false⟩ ⟨0, recvBuf, recvLength, false, true⟩ :=
  ⟨rfl, rfl, ⟨rfl, rfl⟩, ⟨rfl, rfl⟩⟩

theorem TwoStages.xfer_zero_iff (h : TwoStages call s first second) :
    (call.request.ops call.outcomes).xfer 0 = 0 ↔ ¬ FirstSucceeds call.outcomes first.length := by
  rw [← spixfer_zero_iff]
  simp only [SpiRequest.ops, h.messages]
  rfl

/-- The first message leaves the line down. -/
theorem TwoStages.watch_first (h : TwoStages call s first second) :
    let actions := (spixfer call.outcomes.spiDmaFlag (call.outcomes.hal 0) first).1
    let down := Function.update s.selected call.device true
    (watch call.device actions s.selected).1 = down ∧
      ∀ r ∈ (watch call.device actions s.selected).2, r = (call.device, down) := by
  have hwatch := watch_spixfer call.device s.selected call.outcomes.spiDmaFlag
    (call.outcomes.hal 0) first
  simpa only [h.first.1, h.first.2, if_true, Bool.false_eq_true, if_false] using hwatch

/-- The second message finds it down, and leaves it up. -/
theorem TwoStages.watch_second (h : TwoStages call s first second) :
    let actions := (spixfer call.outcomes.spiDmaFlag (call.outcomes.hal 1) second).1
    let down := Function.update s.selected call.device true
    (watch call.device actions down).1 = Function.update down call.device false ∧
      ∀ r ∈ (watch call.device actions down).2, r = (call.device, down) := by
  have hwatch := watch_spixfer call.device (Function.update s.selected call.device true)
    call.outcomes.spiDmaFlag (call.outcomes.hal 1) second
  simpa only [h.second.1, h.second.2, if_true, Bool.false_eq_true, if_false] using hwatch

/-- Where the first message fails, the call returns with the line down. -/
theorem TwoStages.down (h : TwoStages call s first second)
    (hfails : ¬ FirstStage call s first.length) :
    ∃ s' seen, step call s = .ok (s', seen) ∧ s'.selected call.device = true := by
  obtain ⟨htake, hfails⟩ := not_or.mp hfails
  obtain ⟨howns, hfails⟩ := not_or.mp hfails
  obtain ⟨⟨bus, out⟩, hsend⟩ := SpiBus.sendThen_returns call.device
    (call.request.ops call.outcomes) htake first second
  obtain ⟨-, ⟨hother, hconfigure, -⟩ | ⟨-, configured, hxfers⟩⟩ := SpiBus.sendThen_xfers hsend
  · exact absurd ⟨hother, hconfigure⟩ howns
  rw [if_pos (h.xfer_zero_iff.mpr hfails)] at hxfers
  refine ⟨_, _, step_ok.mpr ⟨bus, out.xfers, by rw [h.code, hsend]; rfl, rfl, rfl⟩, ?_⟩
  dsimp only
  rw [hxfers]
  simp only [watchXfers, SpiBus.opsXfer, h.watch_first.1, Function.update_self]

theorem TwoStages.released_iff (h : TwoStages call s first second) (hidle : Idle s) :
    Released call s ↔ FirstStage call s first.length := by
  constructor
  · intro hreleased
    by_contra hfails
    obtain ⟨s', seen, hstep, hdown⟩ := h.down hfails
    have hup := (hreleased s' seen hstep).1 call.device
    rw [hdown] at hup
    cases hup
  · intro hstage s' seen hstep
    obtain ⟨bus, xfers, hcall, rfl, rfl⟩ := step_ok.mp hstep
    rw [h.code] at hcall
    simp only [stop_bind_ok, stop_pure_ok, Prod.exists, Prod.mk.injEq] at hcall
    obtain ⟨_, out, hsend, -, rfl⟩ := hcall
    obtain ⟨htake, ⟨-, -, hxfers⟩ | ⟨howns, configured, hxfers⟩⟩ := SpiBus.sendThen_xfers hsend
    · rw [hxfers]
      exact ⟨hidle, fun r hr => by cases hr⟩
    have hsucceeds : FirstSucceeds call.outcomes first.length := by
      rcases hstage with hwaits | ⟨hother, hconfigure⟩ | hsucceeds
      · exact absurd hwaits htake
      · exact absurd howns (not_or.mpr ⟨hother, hconfigure⟩)
      · exact hsucceeds
    rw [if_neg fun hzero => h.xfer_zero_iff.mp hzero hsucceeds] at hxfers
    rw [hxfers]
    simp only [watchXfers, SpiBus.opsXfer, List.append_nil, h.watch_first.1]
    refine ⟨fun d => ?_, fun r hr d hd => ?_⟩
    · show (watch call.device _ (Function.update s.selected call.device true)).1 d = false
      rw [h.watch_second.1]
      exact update_back call.device d hidle
    · have hseen : r = (call.device, Function.update s.selected call.device true) :=
        (List.mem_append.mp hr).elim (h.watch_first.2 r) (h.watch_second.2 r)
      rw [hseen] at hd ⊢
      exact update_true hidle hd

/-- A call on a bus with no line down leaves it so, if and only if it meets the condition. -/
theorem Idle.released_iff (hidle : Idle s) : Released call s ↔ Meets call s := by
  obtain ⟨thread, device, outcomes, request⟩ := call
  cases request with
  | sendThenSend sendBuf1 sendLength1 sendBuf2 sendLength2 =>
    exact (twoStages_sendThenSend thread device outcomes sendBuf1 sendLength1 sendBuf2
      sendLength2).released_iff hidle
  | sendThenRecv sendBuf sendLength recvBuf recvLength =>
    exact (twoStages_sendThenRecv thread device outcomes sendBuf sendLength recvBuf
      recvLength).released_iff hidle
  | transfer sendBuf recvBuf length =>
    refine iff_of_true (released_of_one
      { sendBuf, recvBuf, length, csTake := true, csRelease := true } hidle rfl rfl ?_) trivial
    intro bus xfers hcall
    simp only [toCall, SpiBus.step, stop_bind_ok, stop_pure_ok, Prod.exists, Prod.mk.injEq] at hcall
    obtain ⟨_, out, hcall, -, rfl⟩ := hcall
    exact SpiBus.rtSpiTransfer_xfers hcall
  | configure cfg =>
    refine iff_of_true (released_of_none hidle fun bus xfers hcall => ?_) trivial
    simp only [toCall, SpiBus.step, stop_bind_ok, stop_pure_ok, Prod.exists, Prod.mk.injEq] at hcall
    obtain ⟨_, out, hcall, -, rfl⟩ := hcall
    exact SpiBus.rtSpiConfigure_xfers hcall
  | takeBus =>
    refine iff_of_true (released_of_none hidle fun bus xfers hcall => ?_) trivial
    simp only [toCall, SpiBus.step, stop_bind_ok, stop_pure_ok, Prod.exists, Prod.mk.injEq] at hcall
    obtain ⟨_, out, hcall, -, rfl⟩ := hcall
    exact SpiBus.rtSpiTakeBus_xfers hcall
  | releaseBus =>
    refine iff_of_true (released_of_none hidle fun bus xfers hcall => ?_) trivial
    simp only [toCall, SpiBus.step, stop_bind_ok, stop_pure_ok, Prod.exists, Prod.mk.injEq] at hcall
    obtain ⟨_, out, hcall, -, rfl⟩ := hcall
    exact SpiBus.rtSpiReleaseBus_xfers hcall

/-- Along the calls of any threads for the devices of a bus: each call that returns leaves the lines
    released, and transfers with no line down but its own, if and only if each message that takes a
    line and does not release it succeeds. -/
theorem rt_spi_selects_released (hidle : Idle s) (calls : List (SelectCall T D)) :
    Along step Released calls s ↔ Along step Meets calls s :=
  along_iff (V := fun _ _ => True) (fun _ _ hs _ => hs.released_iff)
    (fun _ _ s' seen _ _ hreleased hstep => (hreleased s' seen hstep).1) hidle along_true

/-! ## A bus with two devices -/

/-- The bus as the devices find it when they have been attached. -/
def newSelectBus : SelectBus Unit Bool where
  bus :=
    { lock := .free
      owner := none
      config := fun _ => ⟨0, 8, 1000000⟩
      errno := fun _ => 0
      configured := none }
  selected _ := false

/-- A controller for which nothing fails. -/
def goodOutcomes : SpiOutcomes := ⟨rtEok, 0, fun _ _ => .ok⟩

/-- A call for the device `false`, to send `length` bytes and then to receive 4. -/
def sendSome (length : BitVec 32) : SelectCall Unit Bool :=
  ⟨(), false, goodOutcomes, .sendThenRecv 0x20000000 length 0x20001000 4⟩

/-- A call for the device `true`, to send 4 bytes. -/
def transferOther : SelectCall Unit Bool := ⟨(), true, goodOutcomes, .transfer 0x20002000 0 4⟩

theorem rt_spi_selects_released_two :
    Along step Released [sendSome 2, transferOther] newSelectBus ↔
      Along step Meets [sendSome 2, transferOther] newSelectBus :=
  rt_spi_selects_released (fun _ => rfl) [sendSome 2, transferOther]

/-- A call that sends nothing and then receives returns with the line of its device down, and
    the bytes for the other one go to both. -/
theorem rt_spi_stays_selected :
    Idle newSelectBus ∧ ¬ Along step Released [sendSome 0, transferOther] newSelectBus ∧
      ∃ s seen, step (sendSome 0) newSelectBus = .ok (s, seen) ∧ s.selected false = true := by
  have hfails : ¬ FirstStage (sendSome 0) newSelectBus 0 := by
    rintro (hwaits | ⟨-, hconfigure⟩ | ⟨hsome, -⟩)
    · cases hwaits
    · exact hconfigure rfl
    · exact hsome rfl
  have hidle : Idle newSelectBus := fun _ => rfl
  refine ⟨hidle, fun halong => hfails (hidle.released_iff.mp halong.1), ?_⟩
  exact (twoStages_sendThenRecv () false goodOutcomes 0x20000000 0 0x20001000 4).down hfails

end SelectCall

end PandoraRobot.Drivers
