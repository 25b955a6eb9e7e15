import PandoraRobot.Drivers.Ringbuffer
import PandoraRobot.Kernel.Service
import PandoraRobot.Lib.Trace

/-! # Receiving on a serial device

The receive FIFO of `serial.c`, in the interrupt mode (`_serial_int_rx` and
`RT_SERIAL_EVENT_RX_IND` of `rt_hw_serial_isr`) and in the DMA mode (`_serial_dma_rx` and
`RT_SERIAL_EVENT_RX_DMADONE`).  A stretch of code between `rt_hw_interrupt_disable` and
`rt_hw_interrupt_enable` is one step.

In both modes the FIFO is a bounded queue that drops its oldest bytes.  The interrupt mode
leaves one place of the buffer free, the DMA mode fills them all.
-/

namespace PandoraRobot.Drivers

open PandoraRobot.Kernel PandoraRobot.RingBuffer

/-- `struct rt_serial_rx_fifo`.  The size of the buffer is `config.bufsz` of the device. -/
structure RtSerialRxFifo where
  buffer : Nat → Byte
  putIndex : Nat
  getIndex : Nat
  isFull : Bool

/-- What `rt_serial_open` allocates. -/
def RtSerialRxFifo.opened : RtSerialRxFifo := ⟨fun _ => 0, 0, 0, false⟩

/-- The FIFO holds `held` in a buffer of `bufsz` bytes, the oldest first. -/
structure RtSerialRxFifo.Holds (rxFifo : RtSerialRxFifo) (bufsz : Nat) (held : List Byte) :
    Prop where
  sixteen : bufsz < 2 ^ 16
  get : rxFifo.getIndex < bufsz
  put : rxFifo.putIndex = (rxFifo.getIndex + held.length) % bufsz
  fits : held.length ≤ bufsz
  stored : contents rxFifo.buffer bufsz rxFifo.getIndex held.length = held

/-- Where the FIFO does not fill the buffer, the put index is behind the held bytes or, when these
    go on at the start of the buffer, one turn back. -/
theorem RtSerialRxFifo.Holds.put_cases {rxFifo : RtSerialRxFifo} {bufsz : Nat} {held : List Byte}
    (h : rxFifo.Holds bufsz held) (hroom : held.length < bufsz) :
    rxFifo.putIndex = rxFifo.getIndex + held.length ∧ rxFifo.putIndex < bufsz ∨
      rxFifo.putIndex + bufsz = rxFifo.getIndex + held.length ∧
        rxFifo.putIndex < rxFifo.getIndex := by
  have hget := h.get
  have hput := h.put
  obtain hlow | hhigh := Nat.lt_or_ge (rxFifo.getIndex + held.length) bufsz
  · rw [Nat.mod_eq_of_lt hlow] at hput
    exact .inl ⟨hput, by omega⟩
  · rw [Nat.mod_eq_sub_mod hhigh, Nat.mod_eq_of_lt (by omega)] at hput
    exact .inr ⟨by omega, by omega⟩

/-! ## The interrupt mode -/

/-- An index is incremented, and goes back to 0 at the end of the buffer. -/
def nextIndex (bufsz index : Nat) : Nat :=
  if bufsz ≤ (index + 1) % 2 ^ 16 then 0 else (index + 1) % 2 ^ 16

/-- One pass of the loop of `RT_SERIAL_EVENT_RX_IND`, with the character that `getc` returned. -/
def rxInd (bufsz : Nat) (ch : Byte) (rxFifo : RtSerialRxFifo) : RtSerialRxFifo :=
  let rxFifo := { rxFifo with
    buffer := Function.update rxFifo.buffer rxFifo.putIndex ch
    putIndex := nextIndex bufsz rxFifo.putIndex }
  if rxFifo.putIndex = rxFifo.getIndex then
    { rxFifo with getIndex := nextIndex bufsz rxFifo.getIndex, isFull := true }
  else rxFifo

/-- The length for `rx_indicate`. -/
def rxLength (bufsz : Nat) (rxFifo : RtSerialRxFifo) : Nat :=
  if rxFifo.getIndex ≤ rxFifo.putIndex then rxFifo.putIndex - rxFifo.getIndex
  else bufsz - (rxFifo.getIndex - rxFifo.putIndex)

/-- The critical section of one pass of `_serial_int_rx`: the character, or `none` where there
    is no data. -/
def serialIntRxPass (bufsz : Nat) (rxFifo : RtSerialRxFifo) : Option (Byte × RtSerialRxFifo) :=
  if rxFifo.getIndex = rxFifo.putIndex ∧ rxFifo.isFull = false then none
  else
    let ch := rxFifo.buffer rxFifo.getIndex
    let getIndex := nextIndex bufsz rxFifo.getIndex
    some (ch, if rxFifo.isFull = true then { rxFifo with getIndex, isFull := false }
      else { rxFifo with getIndex })

/-- A call of `_serial_int_rx`: its `size` and `length`, and what is stored at `data`. -/
structure IntRead where
  size : BitVec 32
  length : BitVec 32
  data : List Byte

/-- The FIFO, and the calls that the readers are in. -/
structure IntRx (R : Type) where
  rxFifo : RtSerialRxFifo
  call : R → Option IntRead

/-- What the interrupt and the readers do. -/
inductive IntInput (R : Type) where
  /-- the interrupt receives a character -/
  | receive (ch : Byte)
  /-- the interrupt calls `rx_indicate` -/
  | indicate
  /-- a reader calls `_serial_int_rx` -/
  | read (reader : R) (length : BitVec 32)
  /-- a reader goes once through its loop, or leaves it -/
  | pass (reader : R)

/-- What comes of it. -/
inductive IntOutput (R : Type) where
  | none
  | indicated (length : Nat)
  | returned (reader : R) (data : List Byte) (n : Nat)

section IntMode

variable {R : Type} [DecidableEq R]

/-- The steps of the interrupt and of the readers. -/
def IntRx.step (bufsz : Nat) : IntInput R → IntRx R → IntRx R × IntOutput R
  | .receive ch, s => ({ s with rxFifo := rxInd bufsz ch s.rxFifo }, .none)
  | .indicate, s =>
    let length := rxLength bufsz s.rxFifo
    (s, if length ≠ 0 then .indicated length else .none)
  | .read reader length, s =>
    match s.call reader with
    | some _ => (s, .none)
    | none =>
      ({ s with call := Function.update s.call reader (some ⟨length, length, []⟩) }, .none)
  | .pass reader, s =>
    match s.call reader with
    | none => (s, .none)
    | some ⟨size, length, data⟩ =>
      let leave :=
        ({ s with call := Function.update s.call reader none },
          IntOutput.returned reader data (size - length).toNat)
      if length = 0 then leave
      else
        match serialIntRxPass bufsz s.rxFifo with
        | none => leave
        | some (ch, rxFifo) =>
          (⟨rxFifo, Function.update s.call reader (some ⟨size, length - 1, data ++ [ch]⟩)⟩, .none)

/-- A queue of at most `capacity` characters, and the calls that the readers are in: how many
    characters a reader wants, and those it has. -/
structure IntQueue (R : Type) where
  held : List Byte
  call : R → Option (Nat × List Byte)

/-- The steps on the queue.  A character that finds it full drops the oldest one. -/
def IntQueue.step (capacity : Nat) : IntInput R → IntQueue R → IntQueue R × IntOutput R
  | .receive ch, q =>
    ({ q with held :=
        if q.held.length < capacity then q.held ++ [ch] else q.held.tail ++ [ch] }, .none)
  | .indicate, q => (q, if q.held ≠ [] then .indicated q.held.length else .none)
  | .read reader length, q =>
    match q.call reader with
    | some _ => (q, .none)
    | none =>
      ({ q with call := Function.update q.call reader (some (length.toNat, [])) }, .none)
  | .pass reader, q =>
    match q.call reader with
    | none => (q, .none)
    | some (wanted, data) =>
      let leave :=
        ({ q with call := Function.update q.call reader none },
          IntOutput.returned reader data data.length)
      if data.length = wanted then leave
      else
        match q.held with
        | [] => leave
        | ch :: held =>
          (⟨held, Function.update q.call reader (some (wanted, data ++ [ch]))⟩, .none)

/-! ### The code of the interrupt mode keeps the queue -/

/-- In the interrupt mode a place of the buffer stays free. -/
structure RtSerialRxFifo.IntHolds (rxFifo : RtSerialRxFifo) (bufsz : Nat) (held : List Byte) :
    Prop extends rxFifo.Holds bufsz held where
  two : 2 ≤ bufsz
  room : held.length < bufsz
  full : rxFifo.isFull = true → held.length = bufsz - 1

theorem nextIndex_eq {bufsz index : Nat} (hbufsz : bufsz < 2 ^ 16) (hindex : index < bufsz) :
    nextIndex bufsz index = (index + 1) % bufsz := by
  rw [nextIndex, Nat.mod_eq_of_lt (show index + 1 < 2 ^ 16 by omega), next_cell hindex]

namespace RtSerialRxFifo.IntHolds

variable {rxFifo : RtSerialRxFifo} {bufsz : Nat} {held : List Byte}

theorem opened (htwo : 2 ≤ bufsz) (hsixteen : bufsz < 2 ^ 16) :
    RtSerialRxFifo.opened.IntHolds bufsz [] where
  sixteen := hsixteen
  get := Nat.lt_of_lt_of_le Nat.zero_lt_two htwo
  put := (Nat.zero_mod bufsz).symm
  fits := Nat.zero_le _
  stored := rfl
  two := htwo
  room := Nat.lt_of_lt_of_le Nat.zero_lt_two htwo
  full := Bool.noConfusion

/-- The length for `rx_indicate` is the number held. -/
theorem rxLength (h : rxFifo.IntHolds bufsz held) : rxLength bufsz rxFifo = held.length := by
  have hget := h.get
  have hroom := h.room
  rw [Drivers.rxLength]
  obtain ⟨hput, -⟩ | ⟨hput, hlt⟩ := h.put_cases h.room
  · rw [if_pos (by omega)]
    omega
  · rw [if_neg (by omega)]
    omega

theorem put_ne_get (h : rxFifo.IntHolds bufsz held) (hheld : held ≠ []) :
    rxFifo.getIndex ≠ rxFifo.putIndex := by
  have hpos : 0 < held.length := List.length_pos_iff.mpr hheld
  obtain ⟨hput, -⟩ | ⟨hput, hlt⟩ := h.put_cases h.room
  · omega
  · omega

/-- A character is put behind the held ones, and drops the oldest where the queue is full. -/
theorem rxInd (h : rxFifo.IntHolds bufsz held) (ch : Byte) :
    (rxInd bufsz ch rxFifo).IntHolds bufsz
      (if held.length < bufsz - 1 then held ++ [ch] else held.tail ++ [ch]) := by
  have htwo := h.two
  have hroom := h.room
  have hput : rxFifo.putIndex < bufsz := by
    rw [h.put]
    exact Nat.mod_lt _ (by omega)
  have hnext : nextIndex bufsz rxFifo.putIndex =
      (rxFifo.getIndex + (held.length + 1)) % bufsz := by
    rw [nextIndex_eq h.sixteen hput, h.put, Nat.mod_add_mod, Nat.add_assoc]
  have hstored : contents (Function.update rxFifo.buffer rxFifo.putIndex ch) bufsz
      rxFifo.getIndex (held.length + 1) = held ++ [ch] := by
    rw [h.put, contents_put hroom, h.stored]
  unfold Drivers.rxInd
  simp only [hnext]
  by_cases hfree : held.length < bufsz - 1
  · -- the character takes one of the places left
    have hne : (rxFifo.getIndex + (held.length + 1)) % bufsz ≠ rxFifo.getIndex := by
      have hcell : (rxFifo.getIndex + 0) % bufsz ≠
          (rxFifo.getIndex + (held.length + 1)) % bufsz := cell_ne (by omega) (by omega)
      rw [Nat.add_zero, Nat.mod_eq_of_lt h.get] at hcell
      exact hcell.symm
    rw [if_neg hne, if_pos hfree]
    refine ⟨⟨h.sixteen, h.get, ?_, by simp; omega, ?_⟩, h.two, by simp; omega, ?_⟩
    · simp
    · simpa using hstored
    · intro hfull
      have := h.full hfull
      simp only [List.length_append, List.length_singleton]
      omega
  · have hturn : held.length + 1 = bufsz := by omega
    have hback : (rxFifo.getIndex + (held.length + 1)) % bufsz = rxFifo.getIndex := by
      rw [hturn, Nat.add_mod_right, Nat.mod_eq_of_lt h.get]
    have hlen : (held.tail ++ [ch]).length = held.length := by
      simp only [List.length_append, List.length_tail, List.length_singleton]
      omega
    rw [if_pos hback, if_neg hfree, nextIndex_eq h.sixteen h.get]
    refine ⟨⟨h.sixteen, Nat.mod_lt _ (by omega), ?_, by omega, ?_⟩, h.two, by omega,
      fun _ => by omega⟩
    · show _ = ((rxFifo.getIndex + 1) % bufsz + _) % bufsz
      rw [hlen, Nat.mod_add_mod, Nat.add_assoc, Nat.add_comm 1]
    · have hdrop : (contents (Function.update rxFifo.buffer rxFifo.putIndex ch) bufsz
          rxFifo.getIndex (held.length + 1)).drop 1 = _ := drop_contents
      rw [hstored, Nat.add_sub_cancel, List.drop_one,
        List.tail_append_of_ne_nil (by intro hnil; simp [hnil] at hturn; omega)] at hdrop
      show contents _ bufsz ((rxFifo.getIndex + 1) % bufsz) _ = _
      rw [hlen, contents_mod, hdrop]

/-- A pass of the reader's loop takes the oldest character. -/
theorem serialIntRxPass (h : rxFifo.IntHolds bufsz held) :
    (held = [] ∧ serialIntRxPass bufsz rxFifo = none) ∨
      ∃ ch rest rxFifo', held = ch :: rest ∧
        serialIntRxPass bufsz rxFifo = some (ch, rxFifo') ∧ rxFifo'.IntHolds bufsz rest := by
  have htwo := h.two
  unfold Drivers.serialIntRxPass
  cases held with
  | nil =>
    have hput : rxFifo.getIndex = rxFifo.putIndex := by
      rw [h.put, List.length_nil, Nat.add_zero, Nat.mod_eq_of_lt h.get]
    have hfree : rxFifo.isFull = false := by
      by_contra hfull
      have := h.full (by simpa using hfull)
      rw [List.length_nil] at this
      omega
    exact .inl ⟨rfl, if_pos ⟨hput, hfree⟩⟩
  | cons ch rest =>
    have hheld := h.stored
    rw [List.length_cons, contents_take, Nat.mod_eq_of_lt h.get, List.cons.injEq] at hheld
    have hroom := h.room
    rw [List.length_cons] at hroom
    have hdata : ¬(rxFifo.getIndex = rxFifo.putIndex ∧ rxFifo.isFull = false) :=
      fun hno => h.put_ne_get (by simp) hno.1
    rw [if_neg hdata, nextIndex_eq h.sixteen h.get]
    have hput := h.put
    rw [List.length_cons] at hput
    have hrest (full : Bool) (hfull : full = false) : RtSerialRxFifo.IntHolds
        { rxFifo with getIndex := (rxFifo.getIndex + 1) % bufsz, isFull := full } bufsz rest := by
      refine ⟨⟨h.sixteen, Nat.mod_lt _ (by omega), ?_, by omega, hheld.2⟩, h.two, by omega, ?_⟩
      · show rxFifo.putIndex = ((rxFifo.getIndex + 1) % bufsz + rest.length) % bufsz
        rw [hput, Nat.mod_add_mod, Nat.add_assoc, Nat.add_comm 1]
      · intro htrue
        exact absurd (hfull.symm.trans htrue) Bool.noConfusion
    refine .inr ⟨ch, rest, _, rfl, ?_, hrest false rfl⟩
    rw [hheld.1]
    cases hfull : rxFifo.isFull
    · simp [← hfull]
    · simp

end RtSerialRxFifo.IntHolds

/-- The FIFO holds the queue, and every reader that is in a call has what it has on the queue. -/
structure IntRx.Shows (s : IntRx R) (bufsz : Nat) (q : IntQueue R) : Prop where
  fifo : s.rxFifo.IntHolds bufsz q.held
  calls : ∀ reader, q.call reader = (s.call reader).map fun c => (c.size.toNat, c.data)
  lengths : ∀ reader c, s.call reader = some c → c.data.length + c.length.toNat = c.size.toNat

namespace IntRx.Shows

variable {s : IntRx R} {q : IntQueue R} {bufsz : Nat} {rxFifo : RtSerialRxFifo} {held : List Byte}

omit [DecidableEq R] in
theorem opened (htwo : 2 ≤ bufsz) (hsixteen : bufsz < 2 ^ 16) :
    IntRx.Shows ⟨.opened, fun _ : R => none⟩ bufsz ⟨[], fun _ => none⟩ :=
  ⟨.opened htwo hsixteen, fun _ => rfl, fun _ _ h => nomatch h⟩

/-- The call of one reader changes. -/
theorem update (h : s.Shows bufsz q) (hfifo : rxFifo.IntHolds bufsz held) (reader : R)
    (c : Option IntRead)
    (hc : ∀ c', c = some c' → c'.data.length + c'.length.toNat = c'.size.toNat) :
    IntRx.Shows ⟨rxFifo, Function.update s.call reader c⟩ bufsz
      ⟨held, Function.update q.call reader (c.map fun c => (c.size.toNat, c.data))⟩ := by
  refine ⟨hfifo, fun r => ?_, fun r c' hr => ?_⟩
  · by_cases heq : r = reader
    · subst heq
      simp only [Function.update_self]
    · simp only [Function.update_of_ne heq, h.calls]
  · by_cases heq : r = reader
    · subst heq
      simp only [Function.update_self] at hr
      exact hc c' hr
    · simp only [Function.update_of_ne heq] at hr
      exact h.lengths r c' hr

theorem pass (h : s.Shows bufsz q) (reader : R) :
    (IntRx.step bufsz (.pass reader) s).2 = (IntQueue.step (bufsz - 1) (.pass reader) q).2 ∧
      (IntRx.step bufsz (.pass reader) s).1.Shows bufsz
        (IntQueue.step (bufsz - 1) (.pass reader) q).1 := by
  have hq := h.calls reader
  cases hcall : s.call reader with
  | none =>
    rw [hcall, Option.map_none] at hq
    simp only [IntRx.step, IntQueue.step, hcall, hq]
    exact ⟨trivial, h⟩
  | some c =>
    obtain ⟨size, length, data⟩ := c
    rw [hcall, Option.map_some] at hq
    have hlength : data.length + length.toNat = size.toNat := h.lengths reader _ hcall
    have hreturned : (size - length).toNat = data.length := by
      rw [BitVec.toNat_sub_of_le (BitVec.le_def.mpr (by omega))]
      omega
    simp only [IntRx.step, IntQueue.step, hcall, hq, hreturned]
    by_cases hdone : length = 0
    · have hall : data.length = size.toNat := by
        rw [hdone] at hlength
        simpa using hlength
      simp only [hdone, hall, if_true]
      exact ⟨trivial, h.update h.fifo reader none (by simp)⟩
    · have hmore : length.toNat ≠ 0 := fun hzero => hdone (BitVec.eq_of_toNat_eq (by simpa))
      simp only [hdone, show data.length ≠ size.toNat by omega, if_false]
      obtain ⟨hempty, hnone⟩ | ⟨ch, rest, rxFifo', hheld, hsome, hrest⟩ := h.fifo.serialIntRxPass
      · simp only [hempty, hnone]
        exact ⟨trivial, hempty ▸ h.update h.fifo reader none (by simp)⟩
      · simp only [hheld, hsome]
        refine ⟨trivial, h.update hrest reader (some ⟨size, length - 1, data ++ [ch]⟩) ?_⟩
        rintro c' ⟨⟩
        have hone : (length - 1).toNat = length.toNat - 1 := by
          rw [BitVec.toNat_sub_of_le (BitVec.le_def.mpr (by simp; omega))]
          rfl
        simp only [List.length_append, List.length_singleton, hone]
        omega

/-- The code does to the queue what the step says, and answers the same. -/
theorem step (h : s.Shows bufsz q) (input : IntInput R) :
    (IntRx.step bufsz input s).2 = (IntQueue.step (bufsz - 1) input q).2 ∧
      (IntRx.step bufsz input s).1.Shows bufsz (IntQueue.step (bufsz - 1) input q).1 := by
  cases input with
  | receive ch => exact ⟨rfl, h.fifo.rxInd ch, h.calls, h.lengths⟩
  | indicate =>
    simp only [IntRx.step, IntQueue.step, h.fifo.rxLength, ne_eq, List.length_eq_zero_iff]
    exact ⟨trivial, h⟩
  | read reader length =>
    have hq := h.calls reader
    cases hcall : s.call reader with
    | none =>
      rw [hcall, Option.map_none] at hq
      simp only [IntRx.step, IntQueue.step, hcall, hq]
      refine ⟨trivial, h.update h.fifo reader (some ⟨length, length, []⟩) ?_⟩
      rintro c' ⟨⟩
      simp
    | some c =>
      rw [hcall, Option.map_some] at hq
      simp only [IntRx.step, IntQueue.step, hcall, hq]
      exact ⟨trivial, h⟩
  | pass reader => exact h.pass reader

theorem run (h : s.Shows bufsz q) (inputs : List (IntInput R)) :
    (Trace.run (IntRx.step bufsz) inputs s).2 =
        (Trace.run (IntQueue.step (bufsz - 1)) inputs q).2 ∧
      (Trace.run (IntRx.step bufsz) inputs s).1.Shows bufsz
        (Trace.run (IntQueue.step (bufsz - 1)) inputs q).1 :=
  Trace.run_simulates (R := fun (s : IntRx R) q => s.Shows bufsz q) (V := fun _ => True)
    (fun input _ _ _ h => h.step input) (fun _ _ => trivial) h

end IntRx.Shows

/-- A reader that nothing interrupts takes what it wants, or all there is. -/
theorem IntQueue.run_pass (capacity : Nat) {reader : R} {wanted : Nat} (k : Nat) :
    ∀ {q : IntQueue R} {data : List Byte}, q.call reader = some (wanted, data) →
      data.length ≤ wanted → k = min (wanted - data.length) q.held.length →
      (Trace.run (IntQueue.step capacity) (List.replicate (k + 1) (.pass reader)) q).2.getLast? =
          some (.returned reader (data ++ q.held.take k) (data.length + k)) ∧
        (Trace.run (IntQueue.step capacity) (List.replicate (k + 1) (.pass reader)) q).1.held =
          q.held.drop k := by
  induction k with
  | zero =>
    intro q data hcall hle hk
    rw [List.replicate_one, Trace.run_cons]
    simp only [Trace.run, IntQueue.step, hcall]
    by_cases hall : data.length = wanted
    · simp [hall]
    · have hempty : q.held = [] := List.length_eq_zero_iff.mp (by omega)
      simp [hall, hempty]
  | succ k ih =>
    intro q data hcall hle hk
    have hmore : data.length ≠ wanted := by omega
    cases hheld : q.held with
    | nil =>
      rw [hheld, List.length_nil] at hk
      omega
    | cons ch rest =>
      rw [hheld, List.length_cons] at hk
      have hcall' : Function.update q.call reader (some (wanted, data ++ [ch])) reader =
          some (wanted, data ++ [ch]) := Function.update_self ..
      have hnext := ih (q := ⟨rest, Function.update q.call reader (some (wanted, data ++ [ch]))⟩)
        hcall' (by simp; omega) (by simp; omega)
      have hstep : IntQueue.step capacity (.pass reader) q =
          (⟨rest, Function.update q.call reader (some (wanted, data ++ [ch]))⟩, .none) := by
        simp only [IntQueue.step, hcall, hmore, if_false, hheld]
      rw [List.replicate_succ, Trace.run_cons, hstep]
      simp only [List.getLast?_cons, hnext.1, hnext.2]
      simp [Nat.add_comm 1, Nat.add_assoc]

/-- An uninterrupted call of `_serial_int_rx`. -/
theorem IntRx.Shows.uninterrupted {s : IntRx R} {q : IntQueue R} {bufsz : Nat}
    (h : s.Shows bufsz q) {reader : R} (hidle : s.call reader = none) (length : BitVec 32) :
    let k := min length.toNat q.held.length
    let read := Trace.run (IntRx.step bufsz)
      (.read reader length :: List.replicate (k + 1) (.pass reader)) s
    read.2.getLast? = some (.returned reader (q.held.take k) k) ∧
      read.1.rxFifo.IntHolds bufsz (q.held.drop k) := by
  intro k read
  have hq := h.calls reader
  rw [hidle, Option.map_none] at hq
  obtain ⟨hread, hafter⟩ := h.run (.read reader length :: List.replicate (k + 1) (.pass reader))
  have hstart : IntQueue.step (bufsz - 1) (.read reader length) q =
      (⟨q.held, Function.update q.call reader (some (length.toNat, []))⟩, .none) := by
    simp only [IntQueue.step, hq]
  have hpass := IntQueue.run_pass (bufsz - 1) k
    (q := ⟨q.held, Function.update q.call reader (some (length.toNat, []))⟩)
    (Function.update_self ..) (Nat.zero_le _) rfl
  rw [Trace.run_cons (IntQueue.step _), hstart] at hread hafter
  constructor
  · show read.2.getLast? = _
    rw [show read.2 = _ from hread, List.getLast?_cons, hpass.1]
    simp
  · rw [← hpass.2]
    exact hafter.fifo

/-- Whatever the order of the received characters and of the readers' steps, the FIFO of the
    interrupt mode is a queue of `bufsz - 1` characters that drops its oldest one, `rx_indicate`
    gets the number held, and an uninterrupted read takes `min(length, held)` characters. -/
theorem serial_int_rx_queue (bufsz : Nat) (htwo : 2 ≤ bufsz) (hsixteen : bufsz < 2 ^ 16)
    (inputs : List (IntInput R)) :
    let code := Trace.run (IntRx.step bufsz) inputs ⟨.opened, fun _ => none⟩
    let queue := Trace.run (IntQueue.step (bufsz - 1)) inputs ⟨[], fun _ => none⟩
    code.2 = queue.2 ∧ queue.1.held.length ≤ bufsz - 1 ∧
      rxLength bufsz code.1.rxFifo = queue.1.held.length ∧
      ∀ reader length, code.1.call reader = none →
        let k := min length.toNat queue.1.held.length
        let read := Trace.run (IntRx.step bufsz)
          (.read reader length :: List.replicate (k + 1) (.pass reader)) code.1
        read.2.getLast? = some (.returned reader (queue.1.held.take k) k) ∧
          read.1.rxFifo.IntHolds bufsz (queue.1.held.drop k) := by
  intro code queue
  obtain ⟨hanswers, h⟩ := (IntRx.Shows.opened (R := R) htwo hsixteen).run inputs
  refine ⟨hanswers, Nat.le_sub_one_of_lt h.fifo.room, h.fifo.rxLength, ?_⟩
  intro reader length hidle
  exact h.uninterrupted hidle length

/-- A buffer of four bytes, where the fourth character drops the first. -/
theorem serial_int_rx_queue_drops :
    (Trace.run (IntRx.step 4) [.receive 1, .receive 2, .receive 3, .receive 4, .indicate]
      (⟨.opened, fun _ => none⟩ : IntRx Unit)).2 = [.none, .none, .none, .none, .indicated 3] :=
  (serial_int_rx_queue 4 (by decide) (by decide) _).1

end IntMode

/-! ## The DMA mode -/

/-- `_serial_fifo_calc_recved_len`. -/
def serialFifoCalcRecvedLen (bufsz : Nat) (rxFifo : RtSerialRxFifo) : Nat :=
  if rxFifo.putIndex = rxFifo.getIndex then
    if rxFifo.isFull = false then 0 else bufsz
  else if rxFifo.getIndex < rxFifo.putIndex then rxFifo.putIndex - rxFifo.getIndex
  else bufsz - (rxFifo.getIndex - rxFifo.putIndex)

/-- `rt_dma_calc_recved_len`. -/
def rtDmaCalcRecvedLen (bufsz : Nat) (rxFifo : RtSerialRxFifo) : Nat :=
  serialFifoCalcRecvedLen bufsz rxFifo

/-- `rt_dma_recv_update_get_index`. -/
def rtDmaRecvUpdateGetIndex (bufsz len : Nat) (rxFifo : RtSerialRxFifo) : Exec RtSerialRxFifo := do
  rtAssert (len ≤ rtDmaCalcRecvedLen bufsz rxFifo)
  let rxFifo := if rxFifo.isFull = true ∧ len ≠ 0 then { rxFifo with isFull := false } else rxFifo
  let rxFifo := { rxFifo with getIndex := (rxFifo.getIndex + len) % 2 ^ 16 }
  pure (if bufsz ≤ rxFifo.getIndex then { rxFifo with getIndex := rxFifo.getIndex % bufsz }
    else rxFifo)

/-- Where `rt_dma_recv_update_put_index` has filled the buffer, the get index follows. -/
def RtSerialRxFifo.overwritten (rxFifo : RtSerialRxFifo) : RtSerialRxFifo :=
  if rxFifo.isFull = true then { rxFifo with getIndex := rxFifo.putIndex } else rxFifo

/-- `rt_dma_recv_update_put_index`. -/
def rtDmaRecvUpdatePutIndex (bufsz len : Nat) (rxFifo : RtSerialRxFifo) : RtSerialRxFifo :=
  let putIndex := (rxFifo.putIndex + len) % 2 ^ 16
  let rxFifo :=
    if rxFifo.getIndex ≤ rxFifo.putIndex then
      if bufsz ≤ putIndex then
        { rxFifo with
          putIndex := putIndex % bufsz
          isFull := if rxFifo.getIndex ≤ putIndex % bufsz then true else rxFifo.isFull }
      else { rxFifo with putIndex }
    else if rxFifo.getIndex ≤ putIndex then
      { rxFifo with
        putIndex := if bufsz ≤ putIndex then putIndex % bufsz else putIndex
        isFull := true }
    else { rxFifo with putIndex }
  let rxFifo := rxFifo.overwritten
  if bufsz ≤ rxFifo.getIndex then { rxFifo with getIndex := 0 } else rxFifo

/-- `_serial_dma_rx` of a length that is not negative, into a buffer `data`: the buffer after it,
    and what it returns. -/
def serialDmaRx (bufsz : Nat) (data : Nat → Byte) (length : Nat) (rxFifo : RtSerialRxFifo) :
    Exec (RtSerialRxFifo × (Nat → Byte) × Nat) := do
  let fifoRecvedLen := rtDmaCalcRecvedLen bufsz rxFifo
  let recvLen := if length < fifoRecvedLen then length else fifoRecvedLen
  let toEnd := bufsz - rxFifo.getIndex
  let data :=
    if rxFifo.getIndex + recvLen < bufsz then
      store data 0 (load rxFifo.buffer rxFifo.getIndex recvLen)
    else
      store (store data 0 (load rxFifo.buffer rxFifo.getIndex toEnd)) toEnd
        (load rxFifo.buffer 0 (recvLen + rxFifo.getIndex - bufsz))
  let rxFifo ← rtDmaRecvUpdateGetIndex bufsz recvLen rxFifo
  pure (rxFifo, data, recvLen)

/-- `RT_SERIAL_EVENT_RX_DMADONE`. -/
def rtSerialEventRxDmadone : BitVec 32 := 0x03

/-- The event with its length, as the board passes it to `rt_hw_serial_isr`. -/
def rxDmadoneEvent (length : Nat) : BitVec 32 :=
  rtSerialEventRxDmadone ||| BitVec.ofNat 32 length <<< 8

/-- `RT_SERIAL_EVENT_RX_DMADONE` of `rt_hw_serial_isr`, and the length for `rx_indicate`. -/
def rxDmadone (bufsz : Nat) (event : BitVec 32) (rxFifo : RtSerialRxFifo) : RtSerialRxFifo × Nat :=
  let length := ((event &&& ~~~ 0xff).sshiftRight 8).toNat
  let rxFifo := rtDmaRecvUpdatePutIndex bufsz length rxFifo
  (rxFifo, rtDmaCalcRecvedLen bufsz rxFifo)

/-- The FIFO, and the place where the DMA writes the next byte. -/
structure DmaRx where
  rxFifo : RtSerialRxFifo
  position : Nat

/-- What the DMA and the readers do. -/
inductive DmaInput where
  /-- the DMA has written bytes, and raises the event -/
  | event (bytes : List Byte)
  /-- a reader calls `_serial_dma_rx` -/
  | read (data : Nat → Byte) (length : Nat)

/-- What comes of it. -/
inductive DmaOutput where
  | indicated (length : Nat)
  | returned (data : Nat → Byte) (n : Nat)

/-- The steps of the DMA and of the readers. -/
def DmaRx.step (bufsz : Nat) : DmaInput → DmaRx → Exec (DmaRx × DmaOutput)
  | .event bytes, s =>
    let written := { s.rxFifo with
      buffer := writeRound s.rxFifo.buffer bufsz s.position bytes }
    let (rxFifo, length) := rxDmadone bufsz (rxDmadoneEvent bytes.length) written
    .ok (⟨rxFifo, (s.position + bytes.length) % bufsz⟩, .indicated length)
  | .read data length, s => do
    let (rxFifo, data, n) ← serialDmaRx bufsz data length s.rxFifo
    pure ({ s with rxFifo }, .returned data n)

/-- The steps on a queue of at most `capacity` bytes.  An event drops the oldest bytes that no
    longer fit. -/
def dmaQueueStep (capacity : Nat) : DmaInput → List Byte → List Byte × DmaOutput
  | .event bytes, held =>
    let held := (held ++ bytes).drop (held.length + bytes.length - capacity)
    (held, .indicated held.length)
  | .read data length, held =>
    let k := min length held.length
    (held.drop k, .returned (store data 0 (held.take k)) k)

/-! ### The code of the DMA mode keeps the queue -/

/-- In the DMA mode the FIFO may fill the buffer. -/
structure RtSerialRxFifo.DmaHolds (rxFifo : RtSerialRxFifo) (bufsz : Nat) (held : List Byte) :
    Prop extends rxFifo.Holds bufsz held where
  half : bufsz ≤ 2 ^ 15
  full : rxFifo.isFull = true ↔ held.length = bufsz

namespace RtSerialRxFifo.DmaHolds

variable {rxFifo : RtSerialRxFifo} {bufsz : Nat} {held : List Byte}

theorem opened (hone : 1 ≤ bufsz) (hhalf : bufsz ≤ 2 ^ 15) :
    RtSerialRxFifo.opened.DmaHolds bufsz [] where
  sixteen := by omega
  get := hone
  put := (Nat.zero_mod bufsz).symm
  fits := Nat.zero_le _
  stored := rfl
  half := hhalf
  full := by
    simp only [RtSerialRxFifo.opened, List.length_nil, Bool.false_eq_true, false_iff]
    omega

theorem rtDmaCalcRecvedLen (h : rxFifo.DmaHolds bufsz held) :
    rtDmaCalcRecvedLen bufsz rxFifo = held.length := by
  have hget := h.get
  have hfits := h.fits
  rw [Drivers.rtDmaCalcRecvedLen, serialFifoCalcRecvedLen]
  obtain hroom | hfull := Nat.lt_or_ge held.length bufsz
  · have hnot : rxFifo.isFull = false := by
      rw [← Bool.not_eq_true, h.full]
      omega
    simp only [hnot, if_true]
    obtain ⟨hput, hlt⟩ | ⟨hput, hlt⟩ := h.put_cases hroom
    · split
      · omega
      · rw [if_pos (by omega)]
        omega
    · rw [if_neg (by omega), if_neg (by omega)]
      omega
  · have hall : held.length = bufsz := by omega
    have hput : rxFifo.putIndex = rxFifo.getIndex := by
      rw [h.put, hall, Nat.add_mod_right, Nat.mod_eq_of_lt hget]
    rw [if_pos hput, if_neg (by simpa using h.full.mpr hall), hall]

theorem clear_full (rxFifo : RtSerialRxFifo) (len : Nat) :
    (if rxFifo.isFull = true ∧ len ≠ 0 then { rxFifo with isFull := false } else rxFifo) =
      { rxFifo with isFull := rxFifo.isFull && decide (len = 0) } := by
  obtain ⟨_, _, _, isFull⟩ := rxFifo
  cases isFull <;> by_cases hzero : len = 0 <;> simp [hzero]

/-- The oldest bytes leave the FIFO. -/
theorem rtDmaRecvUpdateGetIndex {len : Nat} (h : rxFifo.DmaHolds bufsz held)
    (hlen : len ≤ held.length) :
    ∃ rxFifo', rtDmaRecvUpdateGetIndex bufsz len rxFifo = .ok rxFifo' ∧
      rxFifo'.DmaHolds bufsz (held.drop len) ∧ rxFifo'.putIndex = rxFifo.putIndex := by
  have hget := h.get
  have hfits := h.fits
  have hhalf := h.half
  have hindex : (if bufsz ≤ rxFifo.getIndex + len then (rxFifo.getIndex + len) % bufsz
      else rxFifo.getIndex + len) = (rxFifo.getIndex + len) % bufsz := by
    split
    · rfl
    · exact (Nat.mod_eq_of_lt (by omega)).symm
  have hfull : (rxFifo.isFull && decide (len = 0)) = true ↔ held.length - len = bufsz := by
    rw [Bool.and_eq_true, h.full, decide_eq_true_eq]
    omega
  refine ⟨{ rxFifo with
    getIndex := (rxFifo.getIndex + len) % bufsz
    isFull := rxFifo.isFull && decide (len = 0) }, ?_, ⟨⟨?_, ?_, ?_, ?_, ?_⟩, hhalf, ?_⟩, rfl⟩
  · rw [Drivers.rtDmaRecvUpdateGetIndex, h.rtDmaCalcRecvedLen, rtAssert, if_pos hlen]
    simp only [bind, Except.bind, pure, Except.pure]
    rw [← hindex]
    rw [clear_full]
    simp only [Nat.mod_eq_of_lt (show rxFifo.getIndex + len < 2 ^ 16 by omega)]
    split <;> rfl
  · exact h.sixteen
  · exact Nat.mod_lt _ (by omega)
  · show rxFifo.putIndex = ((rxFifo.getIndex + len) % bufsz + (held.drop len).length) % bufsz
    rw [h.put, Nat.mod_add_mod, List.length_drop]
    congr 1
    omega
  · rw [List.length_drop]
    omega
  · show contents rxFifo.buffer bufsz ((rxFifo.getIndex + len) % bufsz) _ = _
    rw [contents_mod, List.length_drop, ← drop_contents, h.stored]
  · rw [List.length_drop]
    exact hfull

/-- A read takes the oldest bytes, and no assertion fails. -/
theorem serialDmaRx (h : rxFifo.DmaHolds bufsz held) (data : Nat → Byte) (length : Nat) :
    let k := min length held.length
    ∃ rxFifo', serialDmaRx bufsz data length rxFifo =
        .ok (rxFifo', store data 0 (held.take k), k) ∧
      rxFifo'.DmaHolds bufsz (held.drop k) ∧ rxFifo'.putIndex = rxFifo.putIndex := by
  intro k
  have hget := h.get
  have hfits := h.fits
  have hmin : (if length < held.length then length else held.length) = k := by
    simp only [k]
    split <;> omega
  have htake : held.take k = contents rxFifo.buffer bufsz rxFifo.getIndex k := by
    rw [← take_contents (n := held.length) (by omega), h.stored]
  obtain ⟨rxFifo', hupdate, h'⟩ := h.rtDmaRecvUpdateGetIndex (show k ≤ held.length by omega)
  refine ⟨rxFifo', ?_, h'⟩
  unfold Drivers.serialDmaRx
  simp only [h.rtDmaCalcRecvedLen, hmin, hupdate, bind, Except.bind, pure, Except.pure]
  by_cases hlow : rxFifo.getIndex + k < bufsz
  · rw [if_pos hlow, htake, contents_load (by omega)]
  · have happend := store_store data 0 (load rxFifo.buffer rxFifo.getIndex
      (bufsz - rxFifo.getIndex)) (load rxFifo.buffer 0 (k - (bufsz - rxFifo.getIndex)))
    rw [length_load, Nat.zero_add] at happend
    rw [if_neg hlow, htake, contents_load_split hget (by omega) (by omega), ← happend,
      show k + rxFifo.getIndex - bufsz = k - (bufsz - rxFifo.getIndex) by omega]

/-- What an event makes of the indices. -/
theorem rtDmaRecvUpdatePutIndex {len : Nat} (h : rxFifo.DmaHolds bufsz held) (hlen : len ≤ bufsz)
    (buffer : Nat → Byte) :
    let putIndex := (rxFifo.putIndex + len) % bufsz
    rtDmaRecvUpdatePutIndex bufsz len { rxFifo with buffer } =
      if held.length + len < bufsz then { rxFifo with buffer, putIndex }
      else { rxFifo with buffer, putIndex, getIndex := putIndex, isFull := true } := by
  intro putIndex
  have hget := h.get
  have hfits := h.fits
  have hhalf := h.half
  have hput : rxFifo.putIndex < bufsz := by
    rw [h.put]
    exact Nat.mod_lt _ (by omega)
  have hsixteen : (rxFifo.putIndex + len) % 2 ^ 16 = rxFifo.putIndex + len :=
    Nat.mod_eq_of_lt (by omega)
  have hindex : putIndex = if bufsz ≤ rxFifo.putIndex + len then rxFifo.putIndex + len - bufsz
      else rxFifo.putIndex + len := by
    split
    · rw [show putIndex = (rxFifo.putIndex + len) % bufsz from rfl,
        Nat.mod_eq_sub_mod (by omega), Nat.mod_eq_of_lt (by omega)]
    · exact Nat.mod_eq_of_lt (by omega)
  unfold Drivers.rtDmaRecvUpdatePutIndex RtSerialRxFifo.overwritten
  simp only [hsixteen]
  -- `is_full` tells the two states with equal indices apart
  have hplace : (held.length < bufsz ∧ rxFifo.isFull = false) ∨
      (held.length = bufsz ∧ rxFifo.putIndex = rxFifo.getIndex ∧ rxFifo.isFull = true) := by
    obtain hroom | hfull := Nat.lt_or_ge held.length bufsz
    · refine .inl ⟨hroom, ?_⟩
      rw [← Bool.not_eq_true, h.full]
      omega
    · have hall : held.length = bufsz := by omega
      refine .inr ⟨hall, ?_, h.full.mpr hall⟩
      rw [h.put, hall, Nat.add_mod_right, Nat.mod_eq_of_lt hget]
  have hbound : putIndex < bufsz := Nat.mod_lt _ (by omega)
  have hfold : (rxFifo.putIndex + len) % bufsz = putIndex := rfl
  simp only [hfold]
  -- the source tells by the old put index whether the get index has been passed
  obtain ⟨hroom, hnot⟩ | ⟨hall, hsame, hfull⟩ := hplace
  -- the put index comes to the get index only around the end of the buffer, or directly
  · obtain ⟨hbehind, -⟩ | ⟨hback, hlt⟩ := h.put_cases hroom
    · rw [if_pos (by omega : rxFifo.getIndex ≤ rxFifo.putIndex)]
      by_cases hend : bufsz ≤ rxFifo.putIndex + len
      · rw [if_pos hend] at hindex
        by_cases hover : rxFifo.getIndex ≤ putIndex
        · rw [if_neg (by omega : ¬ held.length + len < bufsz)]
          simp only [hend, hover, if_true, if_neg (Nat.not_le.mpr hbound)]
        · rw [if_pos (by omega : held.length + len < bufsz)]
          simp only [hend, hover, hnot, if_true, if_false, Bool.false_eq_true,
            if_neg (Nat.not_le.mpr hget)]
      · rw [if_neg hend] at hindex
        rw [if_pos (by omega : held.length + len < bufsz)]
        simp only [hend, hindex, hnot, if_false, Bool.false_eq_true,
          if_neg (Nat.not_le.mpr hget)]
    · rw [if_neg (by omega : ¬ rxFifo.getIndex ≤ rxFifo.putIndex)]
      by_cases hover : rxFifo.getIndex ≤ rxFifo.putIndex + len
      · have hnext : (if bufsz ≤ rxFifo.putIndex + len then putIndex
            else rxFifo.putIndex + len) = putIndex := by
          split
          · rfl
          case isFalse hend =>
            rw [if_neg hend] at hindex
            exact hindex.symm
        rw [if_neg (by omega : ¬ held.length + len < bufsz)]
        simp only [hover, hnext, if_true, if_neg (Nat.not_le.mpr hbound)]
      · rw [if_neg (by omega)] at hindex
        rw [if_pos (by omega : held.length + len < bufsz)]
        simp only [hover, hindex, hnot, if_false, Bool.false_eq_true,
          if_neg (Nat.not_le.mpr hget)]
  · -- the FIFO is full, and stays so
    rw [if_pos (by omega : rxFifo.getIndex ≤ rxFifo.putIndex),
      if_neg (by omega : ¬ held.length + len < bufsz)]
    by_cases hend : bufsz ≤ rxFifo.putIndex + len
    · simp only [hend, hfull, if_true, ite_self, if_neg (Nat.not_le.mpr hbound)]
    · rw [if_neg hend] at hindex
      simp only [hfull, ← hindex, if_true, if_neg (Nat.not_le.mpr hbound)]

/-- The DMA has written bytes behind the held ones, and the event drops the oldest that do not
    fit. -/
theorem event {bytes : List Byte} {buffer : Nat → Byte} (h : rxFifo.DmaHolds bufsz held)
    (hw : Written rxFifo.buffer buffer bufsz rxFifo.putIndex bytes)
    (hlen : bytes.length ≤ bufsz) :
    (Drivers.rtDmaRecvUpdatePutIndex bufsz bytes.length { rxFifo with buffer }).DmaHolds bufsz
      ((held ++ bytes).drop (held.length + bytes.length - bufsz)) := by
  have hget := h.get
  have hfits := h.fits
  have hbehind : Written rxFifo.buffer buffer bufsz (rxFifo.getIndex + held.length) bytes :=
    hw.congr (by rw [h.put, Nat.mod_mod])
  have hput : (rxFifo.putIndex + bytes.length) % bufsz =
      (rxFifo.getIndex + held.length + bytes.length) % bufsz := by rw [h.put, Nat.mod_add_mod]
  rw [h.rtDmaRecvUpdatePutIndex hlen]
  by_cases hroom : held.length + bytes.length < bufsz
  · have hstored := hbehind.contents (by omega)
    rw [h.stored] at hstored
    rw [if_pos hroom, show held.length + bytes.length - bufsz = 0 by omega, List.drop_zero]
    refine ⟨⟨h.sixteen, hget, ?_, ?_, ?_⟩, h.half, ?_⟩
    · rw [List.length_append, ← Nat.add_assoc]
      exact hput
    · rw [List.length_append]
      omega
    · rw [List.length_append]
      exact hstored
    · rw [List.length_append]
      exact ⟨fun hfull => by have := h.full.mp hfull; omega, fun _ => by omega⟩
  · have hstored := hbehind.contents_over hlen (by omega)
    rw [h.stored] at hstored
    have hall : ((held ++ bytes).drop (held.length + bytes.length - bufsz)).length = bufsz := by
      rw [List.length_drop, List.length_append]
      omega
    rw [if_neg hroom]
    refine ⟨⟨h.sixteen, Nat.mod_lt _ (by omega), ?_, hall.le, ?_⟩, h.half, ?_⟩
    · rw [hall, Nat.add_mod_right]
      exact (Nat.mod_mod _ _).symm
    · rw [hall, hput, contents_mod]
      exact hstored
    · exact ⟨fun _ => hall, fun _ => rfl⟩

end RtSerialRxFifo.DmaHolds

/-- Above the bits of a small number. -/
theorem getLsbD_small {n k i : Nat} (hn : n < 2 ^ k) (hi : k ≤ i) :
    (BitVec.ofNat 32 n).getLsbD i = false := by
  rw [BitVec.getLsbD_ofNat,
    Nat.testBit_lt_two_pow (hn.trans_le (Nat.pow_le_pow_right Nat.zero_lt_two hi)), Bool.and_false]

/-- The event carries the length. -/
theorem rxDmadoneEvent_length {length : Nat} (hlength : length ≤ 2 ^ 15) :
    ((rxDmadoneEvent length &&& ~~~ 0xff).sshiftRight 8).toNat = length := by
  have hbit (j : Nat) (hj : 8 ≤ j) (hlt : j < 32) :
      (rxDmadoneEvent length &&& ~~~ 0xff).getLsbD j =
        (BitVec.ofNat 32 length).getLsbD (j - 8) := by
    have hevent : rtSerialEventRxDmadone.getLsbD j = false :=
      getLsbD_small (n := 3) (k := 8) (by decide) hj
    have hmask : (0xff : BitVec 32).getLsbD j = false :=
      getLsbD_small (n := 255) (k := 8) (by decide) hj
    simp only [rxDmadoneEvent, BitVec.getLsbD_and, BitVec.getLsbD_not, BitVec.getLsbD_or,
      BitVec.getLsbD_shiftLeft, hevent, hmask, hlt, Nat.not_lt.mpr hj, decide_true, decide_false,
      Bool.not_false, Bool.true_and, Bool.false_or, Bool.and_true]
  have hbits : (rxDmadoneEvent length &&& ~~~ 0xff).sshiftRight 8 = BitVec.ofNat 32 length := by
    apply BitVec.eq_of_getLsbD_eq
    intro i hi
    rw [BitVec.getLsbD_sshiftRight, BitVec.msb_eq_getLsbD_last, hbit 31 (by omega) (by omega),
      getLsbD_small (k := 16) (by omega) (by omega)]
    by_cases h : 8 + i < 32
    · rw [if_pos h, hbit _ (by omega) h, Nat.add_sub_cancel_left, decide_eq_false (by omega)]
      rfl
    · rw [if_neg h, getLsbD_small (k := 16) (by omega) (by omega), Bool.and_false]
  rw [hbits, BitVec.toNat_ofNat, Nat.mod_eq_of_lt (by omega)]

/-- The FIFO holds the queue, and the DMA goes on behind it. -/
structure DmaRx.Shows (s : DmaRx) (bufsz : Nat) (held : List Byte) : Prop where
  fifo : s.rxFifo.DmaHolds bufsz held
  position : s.position = s.rxFifo.putIndex

/-- An event brings at least one byte, and no more than the buffer has room for. -/
def DmaInput.Valid (bufsz : Nat) : DmaInput → Prop
  | .event bytes => 1 ≤ bytes.length ∧ bytes.length ≤ bufsz
  | .read _ _ => True

theorem DmaRx.Shows.step {s : DmaRx} {bufsz : Nat} {held : List Byte} (h : s.Shows bufsz held)
    (input : DmaInput) (hvalid : input.Valid bufsz) :
    ∃ s', DmaRx.step bufsz input s = .ok (s', (dmaQueueStep bufsz input held).2) ∧
      s'.Shows bufsz (dmaQueueStep bufsz input held).1 := by
  cases input with
  | event bytes =>
    have hlen : bytes.length ≤ bufsz := hvalid.2
    have hhalf := h.fifo.half
    have hw : Written s.rxFifo.buffer (writeRound s.rxFifo.buffer bufsz s.position bytes) bufsz
        s.rxFifo.putIndex bytes := h.position ▸ written_writeRound hlen
    have hafter := h.fifo.event hw hlen
    refine ⟨⟨rtDmaRecvUpdatePutIndex bufsz bytes.length { s.rxFifo with
      buffer := writeRound s.rxFifo.buffer bufsz s.position bytes },
      (s.position + bytes.length) % bufsz⟩, ?_, hafter, ?_⟩
    · simp only [DmaRx.step, rxDmadone, rxDmadoneEvent_length (hlen.trans hhalf),
        hafter.rtDmaCalcRecvedLen, dmaQueueStep]
    · rw [h.fifo.rtDmaRecvUpdatePutIndex hlen, h.position]
      split <;> rfl
  | read data length =>
    obtain ⟨rxFifo', hread, h', hput⟩ := h.fifo.serialDmaRx data length
    refine ⟨⟨rxFifo', s.position⟩, ?_, h', h.position.trans hput.symm⟩
    simp only [DmaRx.step, hread, dmaQueueStep]
    rfl

/-- Whatever the order of the events and the reads, the FIFO of the DMA mode is a queue of `bufsz`
    bytes: an event appends its bytes and drops the oldest that do not fit, a read takes
    `min(length, held)` bytes, `rt_dma_calc_recved_len` is the number held and no assertion
    fails. -/
theorem serial_dma_rx_queue (bufsz : Nat) (hone : 1 ≤ bufsz) (hhalf : bufsz ≤ 32768)
    (inputs : List DmaInput) (hvalid : ∀ input ∈ inputs, input.Valid bufsz) :
    let queue := Trace.run (dmaQueueStep bufsz) inputs []
    ∃ s, Trace.runExcept (DmaRx.step bufsz) inputs ⟨.opened, 0⟩ = .ok (s, queue.2) ∧
      rtDmaCalcRecvedLen bufsz s.rxFifo = queue.1.length ∧ queue.1.length ≤ bufsz := by
  intro queue
  have hopened : DmaRx.Shows ⟨.opened, 0⟩ bufsz [] := ⟨.opened hone hhalf, rfl⟩
  obtain ⟨s, hrun, h⟩ := Trace.runExcept_simulates
    (fun input s held (hinput : input.Valid bufsz) (h : DmaRx.Shows s bufsz held) =>
      h.step input hinput) hvalid hopened
  exact ⟨s, hrun, h.fifo.rtDmaCalcRecvedLen, h.fifo.fits⟩

/-- Seven bytes arrive in a buffer of four. -/
theorem serial_dma_rx_queue_drops :
    ∃ s, Trace.runExcept (DmaRx.step 4) [.event [1, 2, 3], .event [4, 5, 6, 7]] ⟨.opened, 0⟩ =
        .ok (s, [.indicated 3, .indicated 4]) ∧
      rtDmaCalcRecvedLen 4 s.rxFifo = 4 := by
  have hvalid : ∀ input ∈ [DmaInput.event [1, 2, 3], .event [4, 5, 6, 7]], input.Valid 4 := by
    simp [DmaInput.Valid]
  obtain ⟨s, hrun, hlen, -⟩ := serial_dma_rx_queue 4 (by decide) (by decide) _ hvalid
  exact ⟨s, hrun, hlen⟩

end PandoraRobot.Drivers
