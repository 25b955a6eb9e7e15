import PandoraRobot.Drivers.Spi
import PandoraRobot.Drivers.Status
import PandoraRobot.Lib.Chunks

/-! # A transfer of the SPI controller

`spixfer` of `drv_spi.c`, for data of 8 bits.  The length of a transfer of the HAL has 16 bits, so a
message is moved in pieces of at most 65535 bytes.  What the HAL returns for each piece is an input,
and after each piece its handle is ready again.

A piece that fails sets `message->length` to 0, from which the start of the next piece is computed.
-/

namespace PandoraRobot.Drivers

open PandoraRobot.Chunks

/-! ## The code -/

def spiUsingRxDmaFlag : BitVec 8 := 1
def spiUsingTxDmaFlag : BitVec 8 := 2

/-- What `spixfer` does: the chip select line is pulled down and up, memory is set, and data go to
    the HAL and come from it. -/
inductive SpiAction where
  | csReset
  | csSet
  | memset (ptr : BitVec 32) (value : BitVec 8) (size : BitVec 16)
  | transmitReceive (dma : Bool) (txData rxData : BitVec 32) (size : BitVec 16)
  | transmit (dma : Bool) (data : BitVec 32) (size : BitVec 16)
  | receive (dma : Bool) (data : BitVec 32) (size : BitVec 16)
  deriving DecidableEq, Repr

/-- The loop of `spixfer`, from the `n`-th piece on: `already_send_length` and `send_length` of each
    piece, and `message->length` after the loop. -/
def xferLoop (hal : Nat → HalStatus) (n : Nat) (messageLength length : BitVec 32) :
    List (BitVec 32 × BitVec 16) × BitVec 32 :=
  if messageLength = 0 then ([], length)
  else
    let more := messageLength > 65535
    let sendLength : BitVec 16 := if more then 65535 else messageLength.setWidth 16
    let messageLength' := if more then messageLength - 65535 else 0
    let alreadySendLength := length - sendLength.setWidth 32 - messageLength'
    let next := xferLoop hal (n + 1) messageLength' (if hal n = .ok then length else 0)
    ((alreadySendLength, sendLength) :: next.1, next.2)
termination_by messageLength.toNat
decreasing_by
  all_goals
    split
    all_goals bv_omega

/-- The call of the HAL for a piece. -/
def halTransfer (spiDmaFlag : BitVec 8) (message : SpiMessage) (alreadySendLength : BitVec 32)
    (sendLength : BitVec 16) : List SpiAction :=
  let sendBuf := message.sendBuf + alreadySendLength
  let recvBuf := message.recvBuf + alreadySendLength
  let txDma := spiDmaFlag &&& spiUsingTxDmaFlag ≠ 0
  let rxDma := spiDmaFlag &&& spiUsingRxDmaFlag ≠ 0
  if message.sendBuf ≠ 0 ∧ message.recvBuf ≠ 0 then
    [.transmitReceive (txDma ∧ rxDma) sendBuf recvBuf sendLength]
  else if message.sendBuf ≠ 0 then [.transmit txDma sendBuf sendLength]
  else [.memset recvBuf 0xff sendLength, .receive rxDma recvBuf sendLength]

/-- `spixfer`: what it does, and what it returns. -/
def spixfer (spiDmaFlag : BitVec 8) (hal : Nat → HalStatus) (message : SpiMessage) :
    List SpiAction × BitVec 32 :=
  let (pieces, length) := xferLoop hal 0 message.length message.length
  ((if message.csTake then [.csReset] else []) ++
    pieces.flatMap (fun piece => halTransfer spiDmaFlag message piece.1 piece.2) ++
    (if message.csRelease then [.csSet] else []), length)

namespace SpiAction

/-- The bytes that the HAL is to send. -/
def sent : SpiAction → Option (BitVec 32 × BitVec 16)
  | .transmitReceive _ txData _ size => some (txData, size)
  | .transmit _ data size => some (data, size)
  | _ => none

/-- The place where the HAL is to put the bytes that come in. -/
def received : SpiAction → Option (BitVec 32 × BitVec 16)
  | .transmitReceive _ _ rxData size => some (rxData, size)
  | .receive _ data size => some (data, size)
  | _ => none

/-- A call of the HAL that moves data. -/
def isTransfer (action : SpiAction) : Bool := action.sent.isSome || action.received.isSome

end SpiAction

/-! ## What a transfer is to do -/

/-- A piece of memory is inside a buffer of `length` bytes. -/
def Inside (buf length : BitVec 32) (piece : BitVec 32 × BitVec 16) : Prop :=
  (piece.1 - buf).toNat + piece.2.toNat ≤ length.toNat

/-- The pieces are those of the buffer, in order. -/
def TilesBuffer (buf length : BitVec 32) (pieces : List (BitVec 32 × BitVec 16)) : Prop :=
  Tiles 0 (pieces.map fun piece => ((piece.1 - buf).toNat, piece.2.toNat)) length.toNat

/-- Each call of the HAL succeeds. -/
def AllSucceed (hal : Nat → HalStatus) (actions : List SpiAction) : Prop :=
  ∀ i < (actions.filter SpiAction.isTransfer).length, hal i = .ok

/-- The pieces are not empty and inside the buffers of the message; they tile the buffers if all
    succeed; and the result is the length of the message then, and 0 otherwise. -/
structure XferRight (message : SpiMessage) (hal : Nat → HalStatus) (actions : List SpiAction)
    (result : BitVec 32) : Prop where
  nonempty : ∀ action ∈ actions, ∀ piece,
    action.sent = some piece ∨ action.received = some piece → piece.2 ≠ 0
  sent : ∀ piece ∈ actions.filterMap SpiAction.sent,
    message.sendBuf ≠ 0 ∧ Inside message.sendBuf message.length piece
  received : ∀ piece ∈ actions.filterMap SpiAction.received,
    message.recvBuf ≠ 0 ∧ Inside message.recvBuf message.length piece
  tilesSent : AllSucceed hal actions → message.sendBuf ≠ 0 →
    TilesBuffer message.sendBuf message.length (actions.filterMap SpiAction.sent)
  tilesReceived : AllSucceed hal actions → message.recvBuf ≠ 0 →
    TilesBuffer message.recvBuf message.length (actions.filterMap SpiAction.received)
  succeeds : AllSucceed hal actions → result = message.length
  fails : ¬ AllSucceed hal actions → result = 0

/-! ## The loop -/

section Loop

variable {hal : Nat → HalStatus} {n : Nat} {messageLength length : BitVec 32}

theorem xferLoop_done : xferLoop hal n 0 length = ([], length) := by
  rw [xferLoop, if_pos rfl]

/-- The last round moves all that is left. -/
theorem xferLoop_last (hsome : messageLength ≠ 0) (hlast : messageLength.toNat ≤ 65535) :
    xferLoop hal n messageLength length =
      ([(length - messageLength, messageLength.setWidth 16)],
        if hal n = .ok then length else 0) := by
  have hmore : ¬ messageLength > 65535 := by bv_omega
  have hwidth : (messageLength.setWidth 16).setWidth 32 = messageLength := by
    apply BitVec.eq_of_toNat_eq
    simp only [BitVec.toNat_setWidth]
    omega
  rw [xferLoop, if_neg hsome]
  simp only [hmore, if_false, xferLoop_done, hwidth]
  congr 3
  exact BitVec.sub_zero _

/-- Any other round moves 65535 bytes. -/
theorem xferLoop_more (hmore : 65535 < messageLength.toNat) :
    xferLoop hal n messageLength length =
      ((length - messageLength, 65535) ::
          (xferLoop hal (n + 1) (messageLength - 65535) (if hal n = .ok then length else 0)).1,
        (xferLoop hal (n + 1) (messageLength - 65535) (if hal n = .ok then length else 0)).2) := by
  have hsome : messageLength ≠ 0 := by
    rintro rfl
    exact absurd hmore (by decide)
  have hgt : messageLength > 65535 := by bv_omega
  have hstart : length - (65535 : BitVec 16).setWidth 32 - (messageLength - 65535) =
      length - messageLength := by
    have hwidth : (65535 : BitVec 16).setWidth 32 = 65535 := rfl
    rw [hwidth]
    bv_omega
  rw [xferLoop, if_neg hsome]
  simp only [hgt, if_true, hstart]

/-- The rounds of the loop, from the last one on. -/
@[elab_as_elim]
theorem messageLength_induction {P : BitVec 32 → Prop} (done : P 0)
    (last : ∀ m, m ≠ 0 → m.toNat ≤ 65535 → P m)
    (more : ∀ m, 65535 < m.toNat → P (m - 65535) → P m) (m : BitVec 32) : P m := by
  induction hm : m.toNat using Nat.strongRecOn generalizing m with
  | ind k ih =>
    by_cases hzero : m = 0
    · exact hzero ▸ done
    by_cases hlast : m.toNat ≤ 65535
    · exact last m hzero hlast
    · exact more m (by omega) (ih (m - 65535).toNat (by bv_omega) (m - 65535) rfl)

theorem xferLoop_nonempty (piece : BitVec 32 × BitVec 16)
    (hpiece : piece ∈ (xferLoop hal n messageLength length).1) : piece.2 ≠ 0 := by
  induction messageLength using messageLength_induction generalizing n length with
  | done =>
    rw [xferLoop_done] at hpiece
    cases hpiece
  | last m hsome hlast =>
    rw [xferLoop_last hsome hlast, List.mem_singleton] at hpiece
    rw [hpiece]
    intro hzero
    have hwidth : m.toNat % 2 ^ 16 = 0 := congrArg BitVec.toNat hzero
    exact hsome (BitVec.eq_of_toNat_eq (show m.toNat = 0 by omega))
  | more m hmore ih =>
    rw [xferLoop_more hmore] at hpiece
    rcases List.mem_cons.mp hpiece with rfl | hrest
    · exact (by decide : (65535 : BitVec 16) ≠ 0)
    · exact ih hrest

/-- After a failure the last piece ends where the buffer starts. -/
theorem xferLoop_failed (hal : Nat → HalStatus) (n : Nat) (hsome : messageLength ≠ 0) :
    ∃ piece ∈ (xferLoop hal n messageLength 0).1, piece.1.toNat + piece.2.toNat = 2 ^ 32 := by
  induction messageLength using messageLength_induction generalizing n with
  | done => exact absurd rfl hsome
  | last m _ hlast =>
    rw [xferLoop_last hsome hlast]
    refine ⟨_, List.mem_singleton_self _, ?_⟩
    simp only [BitVec.toNat_setWidth]
    bv_omega
  | more m hmore ih =>
    rw [xferLoop_more hmore, ite_self]
    obtain ⟨piece, hpiece, hend⟩ := ih (n + 1) (by bv_omega)
    exact ⟨piece, List.mem_cons_of_mem _ hpiece, hend⟩

/-- As long as no piece but the last one fails, the pieces go on from where the loop is. -/
theorem xferLoop_tiles (n : Nat) (hle : messageLength ≤ length)
    (hok : ∀ i, 65535 * (i + 1) < messageLength.toNat → hal (n + i) = .ok) :
    Tiles (length.toNat - messageLength.toNat)
      ((xferLoop hal n messageLength length).1.map fun p => (p.1.toNat, p.2.toNat))
      length.toNat := by
  induction messageLength using messageLength_induction generalizing n with
  | done =>
    rw [xferLoop_done]
    exact .nil _
  | last m hsome hlast =>
    rw [xferLoop_last hsome hlast]
    have hstart : (length - m).toNat = length.toNat - m.toNat := BitVec.toNat_sub_of_le hle
    have hsize : (m.setWidth 16).toNat = m.toNat := by
      simp only [BitVec.toNat_setWidth]
      omega
    have hpos : 0 < m.toNat := by bv_omega
    have hend : length.toNat - m.toNat + m.toNat = length.toNat := Nat.sub_add_cancel hle
    simp only [List.map_cons, List.map_nil, hstart, hsize]
    rw [← hend, Nat.add_sub_cancel]
    exact .single hpos
  | more m hmore ih =>
    have hfirst : hal n = .ok := hok 0 (by omega)
    have hleft : (m - 65535).toNat = m.toNat - 65535 := by bv_omega
    have hstart : (length - m).toNat = length.toNat - m.toNat := BitVec.toNat_sub_of_le hle
    rw [xferLoop_more hmore, if_pos hfirst]
    have hrest := ih (n + 1) (by bv_omega) fun i hi => by
      rw [Nat.add_assoc, Nat.add_comm 1 i]
      exact hok (i + 1) (by omega)
    have hnext : length.toNat - (m - 65535).toNat =
        length.toNat - m.toNat + (65535 : BitVec 16).toNat := by bv_omega
    rw [hnext] at hrest
    simp only [List.map_cons, hstart]
    exact .cons (by decide) hrest

/-- If another piece fails, the last one is not in the buffer. -/
theorem xferLoop_outside {i : Nat} (n : Nat) (length : BitVec 32)
    (hi : 65535 * (i + 1) < messageLength.toNat)
    (hfails : hal (n + i) ≠ .ok) : ∃ piece ∈ (xferLoop hal n messageLength length).1,
      piece.1.toNat + piece.2.toNat = 2 ^ 32 := by
  induction messageLength using messageLength_induction generalizing n i with
  | done => simp at hi
  | last m _ hlast => omega
  | more m hmore ih =>
    rw [xferLoop_more hmore]
    by_cases hfirst : hal n = .ok
    · obtain rfl | hpos := Nat.eq_zero_or_pos i
      · exact absurd hfirst hfails
      have hlater : hal (n + 1 + (i - 1)) ≠ .ok := by
        rwa [show n + 1 + (i - 1) = n + i by omega]
      obtain ⟨piece, hpiece, hend⟩ := ih (i := i - 1) (n + 1) (by bv_omega) hlater
      rw [if_pos hfirst]
      exact ⟨piece, List.mem_cons_of_mem _ hpiece, hend⟩
    · rw [if_neg hfirst]
      have hleft : m - 65535 ≠ 0 := by bv_omega
      obtain ⟨piece, hpiece, hend⟩ := xferLoop_failed hal (n + 1) hleft
      exact ⟨piece, List.mem_cons_of_mem _ hpiece, hend⟩

theorem xferLoop_zero : (xferLoop hal n messageLength 0).2 = 0 := by
  induction messageLength using messageLength_induction generalizing n with
  | done => rw [xferLoop_done]
  | last m hsome hlast => rw [xferLoop_last hsome hlast, ite_self]
  | more m hmore ih =>
    rw [xferLoop_more hmore, ite_self]
    exact ih

/-- The length is kept exactly while each piece succeeds. -/
theorem xferLoop_result (hal : Nat → HalStatus) (n : Nat) (messageLength length : BitVec 32) :
    (xferLoop hal n messageLength length).2 =
      if ∀ i < (xferLoop hal n messageLength length).1.length, hal (n + i) = .ok then length
      else 0 := by
  induction messageLength using messageLength_induction generalizing n with
  | done =>
    rw [xferLoop_done]
    exact (if_pos fun i hi => absurd hi (Nat.not_lt_zero i)).symm
  | last m hsome hlast => simp [xferLoop_last hsome hlast]
  | more m hmore ih =>
    rw [xferLoop_more hmore]
    have hsplit (k : Nat) : (∀ i < k + 1, hal (n + i) = .ok) ↔
        hal n = .ok ∧ ∀ i < k, hal (n + 1 + i) = .ok := by
      rw [Nat.forall_lt_succ_left]
      simp only [Nat.add_zero, Nat.add_assoc, Nat.add_comm 1]
    simp only [List.length_cons, hsplit]
    by_cases hfirst : hal n = .ok
    · simp only [hfirst, if_true, true_and]
      exact ih (n + 1)
    · simp only [hfirst, if_false, false_and]
      exact xferLoop_zero

end Loop

/-! ## The calls of the HAL -/

section Calls

variable {spiDmaFlag : BitVec 8} {hal : Nat → HalStatus} {message : SpiMessage}

/-- The pieces of a message. -/
def xferPieces (hal : Nat → HalStatus) (message : SpiMessage) : List (BitVec 32 × BitVec 16) :=
  (xferLoop hal 0 message.length message.length).1

theorem halTransfer_sent (piece : BitVec 32 × BitVec 16) :
    (halTransfer spiDmaFlag message piece.1 piece.2).filterMap SpiAction.sent =
      if message.sendBuf ≠ 0 then [(message.sendBuf + piece.1, piece.2)] else [] := by
  unfold halTransfer
  dsimp only
  by_cases hboth : message.sendBuf ≠ 0 ∧ message.recvBuf ≠ 0
  · rw [if_pos hboth, if_pos hboth.1]
    rfl
  · rw [if_neg hboth]
    by_cases hsend : message.sendBuf ≠ 0
    · rw [if_pos hsend, if_pos hsend]
      rfl
    · rw [if_neg hsend, if_neg hsend]
      rfl

theorem halTransfer_received (hbuf : message.sendBuf ≠ 0 ∨ message.recvBuf ≠ 0)
    (piece : BitVec 32 × BitVec 16) :
    (halTransfer spiDmaFlag message piece.1 piece.2).filterMap SpiAction.received =
      if message.recvBuf ≠ 0 then [(message.recvBuf + piece.1, piece.2)] else [] := by
  unfold halTransfer
  dsimp only
  by_cases hboth : message.sendBuf ≠ 0 ∧ message.recvBuf ≠ 0
  · rw [if_pos hboth, if_pos hboth.2]
    rfl
  · rw [if_neg hboth]
    by_cases hsend : message.sendBuf ≠ 0
    · rw [if_pos hsend, if_neg fun hrecv => hboth ⟨hsend, hrecv⟩]
      rfl
    · rw [if_neg hsend, if_pos (hbuf.resolve_left hsend)]
      rfl

theorem halTransfer_count (piece : BitVec 32 × BitVec 16) :
    ((halTransfer spiDmaFlag message piece.1 piece.2).filter SpiAction.isTransfer).length = 1 := by
  unfold halTransfer
  dsimp only
  split
  · rfl
  · split <;> rfl

/-- The chip select line apart, what `spixfer` does is what it does for each piece. -/
theorem filterMap_spixfer {β : Type} (spiDmaFlag : BitVec 8) (hal : Nat → HalStatus)
    (message : SpiMessage) (f : SpiAction → Option β) (hreset : f .csReset = none)
    (hset : f .csSet = none) : (spixfer spiDmaFlag hal message).1.filterMap f =
      (xferPieces hal message).flatMap fun piece =>
        (halTransfer spiDmaFlag message piece.1 piece.2).filterMap f := by
  have htake : (if message.csTake then [SpiAction.csReset] else []).filterMap f = [] := by
    split <;> simp [hreset]
  have hrelease : (if message.csRelease then [SpiAction.csSet] else []).filterMap f = [] := by
    split <;> simp [hset]
  have hactions : (spixfer spiDmaFlag hal message).1 =
      (if message.csTake then [.csReset] else []) ++
        (xferPieces hal message).flatMap
          (fun piece => halTransfer spiDmaFlag message piece.1 piece.2) ++
        (if message.csRelease then [.csSet] else []) := rfl
  rw [hactions, List.filterMap_append, List.filterMap_append, htake, hrelease, List.nil_append,
    List.append_nil, List.filterMap_flatMap]

theorem spixfer_sent : (spixfer spiDmaFlag hal message).1.filterMap SpiAction.sent =
    if message.sendBuf ≠ 0 then
      (xferPieces hal message).map fun piece => (message.sendBuf + piece.1, piece.2)
    else [] := by
  rw [filterMap_spixfer _ _ _ _ rfl rfl]
  simp only [halTransfer_sent]
  split <;> simp [List.map_eq_flatMap]

theorem spixfer_received (hbuf : message.sendBuf ≠ 0 ∨ message.recvBuf ≠ 0) :
    (spixfer spiDmaFlag hal message).1.filterMap SpiAction.received =
      if message.recvBuf ≠ 0 then
        (xferPieces hal message).map fun piece => (message.recvBuf + piece.1, piece.2)
      else [] := by
  rw [filterMap_spixfer _ _ _ _ rfl rfl]
  simp only [halTransfer_received hbuf]
  split <;> simp [List.map_eq_flatMap]

/-- There is one call of the HAL for each piece. -/
theorem spixfer_count : ((spixfer spiDmaFlag hal message).1.filter SpiAction.isTransfer).length =
    (xferPieces hal message).length := by
  have hcall := filterMap_spixfer spiDmaFlag hal message (Option.guard SpiAction.isTransfer) rfl rfl
  rw [List.filterMap_eq_filter] at hcall
  rw [hcall, List.length_flatMap, List.map_congr_left fun piece _ => halTransfer_count piece]
  simp

theorem allSucceed_iff : AllSucceed hal (spixfer spiDmaFlag hal message).1 ↔
    ∀ i < (xferPieces hal message).length, hal i = .ok := by
  rw [AllSucceed, spixfer_count]

theorem spixfer_length : (spixfer spiDmaFlag hal message).2 =
    if ∀ i < (xferPieces hal message).length, hal i = .ok then message.length else 0 := by
  have hresult := xferLoop_result hal 0 message.length message.length
  simp only [Nat.zero_add] at hresult
  exact hresult

/-- No piece but the last one fails. -/
def OnlyLastFails (hal : Nat → HalStatus) (length : BitVec 32) : Prop :=
  ∀ i, 65535 * (i + 1) < length.toNat → hal i = .ok

theorem OnlyLastFails.tiles (h : OnlyLastFails hal message.length) :
    Tiles 0 ((xferPieces hal message).map fun piece => (piece.1.toNat, piece.2.toNat))
      message.length.toNat := by
  have hok : ∀ i, 65535 * (i + 1) < message.length.toNat → hal (0 + i) = .ok := fun i hi => by
    rw [Nat.zero_add]
    exact h i hi
  have htiles := xferLoop_tiles 0 (BitVec.le_refl message.length) hok
  rwa [Nat.sub_self] at htiles

theorem add_sub_start (buf start : BitVec 32) : buf + start - buf = start := by
  rw [BitVec.add_comm, BitVec.add_sub_cancel]

theorem OnlyLastFails.inside (h : OnlyLastFails hal message.length) (buf : BitVec 32)
    {piece : BitVec 32 × BitVec 16} (hpiece : piece ∈ xferPieces hal message) :
    Inside buf message.length (buf + piece.1, piece.2) := by
  have hbounds := h.tiles.bounds (List.mem_map_of_mem hpiece)
  rw [Inside, add_sub_start]
  exact hbounds.2

theorem OnlyLastFails.tilesBuffer (h : OnlyLastFails hal message.length) (buf : BitVec 32) :
    TilesBuffer buf message.length
      ((xferPieces hal message).map fun piece => (buf + piece.1, piece.2)) := by
  rw [TilesBuffer, List.map_map]
  simp only [Function.comp_def, add_sub_start]
  exact h.tiles

/-- A piece that the HAL gets is one of the message's. -/
theorem mem_xferPieces_of_moved (hbuf : message.sendBuf ≠ 0 ∨ message.recvBuf ≠ 0)
    {action : SpiAction} (haction : action ∈ (spixfer spiDmaFlag hal message).1)
    {moved : BitVec 32 × BitVec 16}
    (hmoved : action.sent = some moved ∨ action.received = some moved) :
    ∃ piece ∈ xferPieces hal message, piece.2 = moved.2 := by
  rcases hmoved with hsent | hreceived
  · have hmem := List.mem_filterMap.mpr ⟨action, haction, hsent⟩
    rw [spixfer_sent] at hmem
    split at hmem
    · obtain ⟨piece, hpiece, heq⟩ := List.mem_map.mp hmem
      exact ⟨piece, hpiece, by rw [← heq]⟩
    · cases hmem
  · have hmem := List.mem_filterMap.mpr ⟨action, haction, hreceived⟩
    rw [spixfer_received hbuf] at hmem
    split at hmem
    · obtain ⟨piece, hpiece, heq⟩ := List.mem_map.mp hmem
      exact ⟨piece, hpiece, by rw [← heq]⟩
    · cases hmem

theorem OnlyLastFails.xferRight (h : OnlyLastFails hal message.length) (spiDmaFlag : BitVec 8)
    (hbuf : message.sendBuf ≠ 0 ∨ message.recvBuf ≠ 0) :
    XferRight message hal (spixfer spiDmaFlag hal message).1
      (spixfer spiDmaFlag hal message).2 where
  nonempty action haction moved hmoved := by
    obtain ⟨piece, hpiece, hsize⟩ := mem_xferPieces_of_moved hbuf haction hmoved
    rw [← hsize]
    exact xferLoop_nonempty piece hpiece
  sent piece hpiece := by
    rw [spixfer_sent] at hpiece
    split at hpiece
    case isTrue hsend =>
      obtain ⟨start, hstart, rfl⟩ := List.mem_map.mp hpiece
      exact ⟨hsend, h.inside message.sendBuf hstart⟩
    case isFalse => cases hpiece
  received piece hpiece := by
    rw [spixfer_received hbuf] at hpiece
    split at hpiece
    case isTrue hrecv =>
      obtain ⟨start, hstart, rfl⟩ := List.mem_map.mp hpiece
      exact ⟨hrecv, h.inside message.recvBuf hstart⟩
    case isFalse => cases hpiece
  tilesSent _ hsend := by
    rw [spixfer_sent, if_pos hsend]
    exact h.tilesBuffer message.sendBuf
  tilesReceived _ hrecv := by
    rw [spixfer_received hbuf, if_pos hrecv]
    exact h.tilesBuffer message.recvBuf
  succeeds hall := by rw [spixfer_length, if_pos (allSucceed_iff.mp hall)]
  fails hfails := by rw [spixfer_length, if_neg (mt allSucceed_iff.mpr hfails)]

/-- A piece that ends where the buffer starts is not inside. -/
theorem not_inside {buf length : BitVec 32} {piece : BitVec 32 × BitVec 16}
    (hend : piece.1.toNat + piece.2.toNat = 2 ^ 32) :
    ¬ Inside buf length (buf + piece.1, piece.2) := by
  have hlength := length.isLt
  rw [Inside, add_sub_start, hend]
  omega

theorem not_xferRight {i : Nat} (hi : 65535 * (i + 1) < message.length.toNat)
    (hfails : hal i ≠ .ok) (spiDmaFlag : BitVec 8)
    (hbuf : message.sendBuf ≠ 0 ∨ message.recvBuf ≠ 0) :
    ¬ XferRight message hal (spixfer spiDmaFlag hal message).1
      (spixfer spiDmaFlag hal message).2 := by
  intro hright
  obtain ⟨piece, hpiece, hend⟩ := xferLoop_outside 0 message.length hi
    (by rwa [Nat.zero_add])
  rcases hbuf with hsend | hrecv
  · refine not_inside hend (hright.sent _ ?_).2
    rw [spixfer_sent, if_pos hsend]
    exact List.mem_map_of_mem hpiece
  · refine not_inside hend (hright.received _ ?_).2
    rw [spixfer_received (.inr hrecv), if_pos hrecv]
    exact List.mem_map_of_mem hpiece

/-- The HAL gets the pieces of the message, and the result tells whether all of them have been
    moved, if and only if no piece but the last one fails. -/
theorem spixfer_right (spiDmaFlag : BitVec 8) (hal : Nat → HalStatus) (message : SpiMessage)
    (hbuf : message.sendBuf ≠ 0 ∨ message.recvBuf ≠ 0) :
    XferRight message hal (spixfer spiDmaFlag hal message).1 (spixfer spiDmaFlag hal message).2 ↔
      OnlyLastFails hal message.length := by
  constructor
  · intro hright i hi
    by_contra hfails
    exact not_xferRight hi hfails spiDmaFlag hbuf hright
  · intro hlast
    exact hlast.xferRight spiDmaFlag hbuf

/-- 70000 bytes to be sent. -/
def longMessage : SpiMessage :=
  { sendBuf := 0x20000000, recvBuf := 0, length := 70000, csTake := true, csRelease := true }

theorem spixfer_right_long :
    XferRight longMessage (fun _ => .ok) (spixfer 0 (fun _ => .ok) longMessage).1
      (spixfer 0 (fun _ => .ok) longMessage).2 ↔ OnlyLastFails (fun _ => .ok) longMessage.length :=
  spixfer_right 0 (fun _ => .ok) longMessage (.inl (by decide))

/-- The first 65535 of them fail, and the next piece is taken from below the buffer. -/
theorem spixfer_long_fails :
    let hal : Nat → HalStatus := fun i => if i = 0 then .timeout else .ok
    (spixfer 0 hal longMessage).1 =
        [.csReset, .transmit false 0x20000000 65535, .transmit false (0x20000000 - 4465) 4465,
          .csSet] ∧
      ¬ XferRight longMessage hal (spixfer 0 hal longMessage).1 (spixfer 0 hal longMessage).2 := by
  intro hal
  refine ⟨?_, not_xferRight (i := 0) (by decide) (by decide) 0 (.inl (by decide))⟩
  have hpieces : xferLoop hal 0 70000 70000 =
      ([(70000 - 70000, 65535), (0 - 4465, 4465)], 0) := by
    rw [xferLoop_more (by decide), xferLoop_last (by decide) (by decide)]
    rfl
  rw [spixfer]
  simp only [longMessage, hpieces]
  rfl

end Calls

end PandoraRobot.Drivers
