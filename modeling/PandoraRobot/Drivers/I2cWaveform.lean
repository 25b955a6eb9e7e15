import PandoraRobot.Drivers.I2cBitOps

/-! # The waveform of a transfer on the I2C bus

What the calls of the pins say, read as a waveform from an idle bus: a start condition, the
messages up to the first byte that is refused, and a stop condition that leaves the bus idle.  The
slave holds the clock for no longer than the driver waits.

Any change of the data line under a high clock reads as a start or a stop condition, so there are
none but those of the waveform.
-/

namespace PandoraRobot.Drivers.I2c

open PandoraRobot.Kernel PandoraRobot.Transcript PandoraRobot.TwoWire

/-! ## What the calls say -/

/-- The bytes that are stored, with their places in the buffer. -/
def storesOf (w : List Event) : List (Nat × BitVec 8) :=
  w.filterMap fun
    | .stored index data => some (index, data)
    | _ => none

/-- The waveform of a transcript, behind what has been seen. -/
def waveform (s : Seen) (w : List Event) : Seen := (callsOf w).foldl Seen.step s

section Waveform

variable {s : Seen} {w w' : List Event} {symbols symbols' : List Symbol} {call : LineCall}

@[simp] theorem waveform_nil : waveform s [] = s := rfl

@[simp] theorem waveform_line : waveform s (.line call :: w) = waveform (s.step call) w := rfl

@[simp] theorem waveform_stored {i : Nat} {data : BitVec 8} :
    waveform s (.stored i data :: w) = waveform s w := rfl

@[simp] theorem waveform_moved {byte : Moved} : waveform s (.moved byte :: w) = waveform s w := rfl

theorem waveform_append : waveform s (w ++ w') = waveform (waveform s w) w' := by
  simp [waveform]

@[simp] theorem storesOf_append : storesOf (w ++ w') = storesOf w ++ storesOf w' :=
  List.filterMap_append

@[simp] theorem storesOf_nil : storesOf [] = [] := rfl

@[simp] theorem storesOf_line : storesOf (.line call :: w) = storesOf w := rfl

@[simp] theorem storesOf_moved {byte : Moved} : storesOf (.moved byte :: w) = storesOf w := rfl

@[simp] theorem storesOf_stored {i : Nat} {data : BitVec 8} :
    storesOf (.stored i data :: w) = (i, data) :: storesOf w := rfl

/-- From a low clock to a low clock, what a transcript reads as, and what it stores. -/
structure Reads (w : List Event) (symbols : List Symbol) (stores : List (Nat × BitVec 8)) :
    Prop where
  symbols : ∀ before sda, ∃ sda',
    waveform ⟨before, .low sda⟩ w = ⟨before ++ symbols, .low sda'⟩
  stores : storesOf w = stores

variable {stores stores' : List (Nat × BitVec 8)}

theorem reads_nil : Reads [] [] [] where
  symbols before sda := ⟨sda, by simp⟩
  stores := rfl

theorem Reads.append (h : Reads w symbols stores) (h' : Reads w' symbols' stores') :
    Reads (w ++ w') (symbols ++ symbols') (stores ++ stores') where
  symbols before sda := by
    obtain ⟨sda', hfirst⟩ := h.symbols before sda
    obtain ⟨sda'', hrest⟩ := h'.symbols (before ++ symbols) sda'
    exact ⟨sda'', by rw [waveform_append, hfirst, hrest, List.append_assoc]⟩
  stores := by rw [storesOf_append, h.stores, h'.stores]

/-- The bits that are written, up to the fall of the clock of the last one. -/
theorem waveform_writtenBits (bits : List Bool) (before : List Symbol) (sda : Bool) :
    ∃ sda', waveform ⟨before, .low sda⟩ (writtenBits bits ++ [.line (.scl false)]) =
      ⟨before ++ bits.map .bit, .low sda'⟩ := by
  induction bits generalizing before sda with
  | nil => exact ⟨sda, by simp [writtenBits]⟩
  | cons b bits ih =>
    obtain ⟨sda', hrest⟩ := ih (before ++ [.bit b]) b
    refine ⟨sda', ?_⟩
    -- the clock of this bit falls with the first call of the rest
    have hfall : waveform ⟨before, ⟨b, true, some b⟩⟩ (writtenBits bits ++ [.line (.scl false)]) =
        waveform ⟨before ++ [.bit b], .low b⟩ (writtenBits bits ++ [.line (.scl false)]) := by
      cases bits with
      | nil => simp [writtenBits]
      | cons c bits => simp [writtenBits]
    have hbit : waveform ⟨before, .low sda⟩ (writtenBits (b :: bits) ++ [.line (.scl false)]) =
        waveform ⟨before, ⟨b, true, some b⟩⟩ (writtenBits bits ++ [.line (.scl false)]) := by
      simp [writtenBits]
    rw [hbit, hfall, hrest]
    simp

theorem storesOf_writtenBits (bits : List Bool) : storesOf (writtenBits bits) = [] := by
  induction bits with
  | nil => rfl
  | cons b bits ih => exact ih

theorem storesOf_readBits (bits : List Bool) : storesOf (readBits bits) = [] := by
  induction bits with
  | nil => rfl
  | cons b bits ih => exact ih

/-- A byte that is written, and the answer of the slave. -/
theorem reads_writtenOn (data : BitVec 8) (ack : Bool) (byte : Moved) :
    Reads (writtenOn data ack ++ [.moved byte]) (byteOn data ack) [] where
  symbols before sda := by
    obtain ⟨sda', hbits⟩ := waveform_writtenBits (bitsOf data) before sda
    have hsplit : writtenOn data ack ++ [.moved byte] =
        (writtenBits (bitsOf data) ++ [.line (.scl false)]) ++
          (answerOf ack ++ [.moved byte]) := by
      simp [writtenOn]
    refine ⟨true, ?_⟩
    rw [hsplit, waveform_append, hbits]
    simp [answerOf, byteOn]
  stores := by simp [writtenOn, answerOf, storesOf_writtenBits]

theorem waveform_readBits (bits : List Bool) (before : List Symbol) :
    waveform ⟨before, .low true⟩ (readBits bits) = ⟨before ++ bits.map .bit, .low true⟩ := by
  induction bits generalizing before with
  | nil => simp [readBits]
  | cons b bits ih =>
    have hbit : waveform ⟨before, .low true⟩ (readBits (b :: bits)) =
        waveform ⟨before ++ [.bit b], .low true⟩ (readBits bits) := by
      simp [readBits]
    rw [hbit, ih]
    simp

/-- A byte that is read and stored, and the answer of the driver. -/
theorem reads_readOn (data : BitVec 8) (ack : Bool) (i : Nat) (byte byte' : Moved) :
    Reads ((readOn data ++ [.moved byte]) ++ .stored i data :: (answeredOn ack ++ [.moved byte']))
      (byteOn data ack) [(i, data)] where
  symbols before sda := by
    refine ⟨!ack, ?_⟩
    rw [waveform_append, waveform_append, readOn, waveform_line, step_sda_low, waveform_readBits]
    cases ack with
    | true => simp [answeredOn, byteOn]
    | false => simp [answeredOn, byteOn]
  stores := by
    cases ack with
    | true => simp [readOn, answeredOn, storesOf_readBits]
    | false => simp [readOn, answeredOn, storesOf_readBits]

theorem reads_restart :
    Reads [.line (.sda true), .line (.scl true), .line (.sda false), .line (.scl false)]
      [.start] [] where
  symbols before sda := ⟨false, by simp⟩
  stores := rfl

theorem reads_stop_start :
    Reads ([.line (.sda false), .line (.scl true), .line (.sda true)] ++
      [.line (.sda false), .line (.scl false)]) [.stop, .start] [] where
  symbols before sda := ⟨false, by simp [Lines.idle]⟩
  stores := rfl

end Waveform

/-! ## What a transfer is to read as -/

/-- Which messages have no address, and for which of them a byte that is refused is no end. -/
structure Manner where
  noStart : Msg → Bool
  ignoreNack : Msg → Bool

/-- The flags of the messages tell. -/
def Manner.flagged : Manner := ⟨Msg.noStart, Msg.ignoreNack⟩

/-- All messages have an address, and the first byte that is refused is the end. -/
def Manner.plain : Manner := ⟨fun _ => false, fun _ => false⟩

/-- The transfer goes on behind a byte that is acknowledged, or is not. -/
def Manner.goesOn (how : Manner) (msg : Msg) (ack : Bool) : Bool := how.ignoreNack msg || ack

/-- A byte of an address, with a stop and a start condition before each retry. -/
inductive AttemptsOn (addr : BitVec 8) : Nat → Bool → List Symbol → Prop where
  | accepted {n : Nat} : AttemptsOn addr n true (byteOn addr true)
  | refused : AttemptsOn addr 0 false (byteOn addr false)
  | again {n : Nat} {ok : Bool} {symbols : List Symbol} :
      AttemptsOn addr n ok symbols →
        AttemptsOn addr (n + 1) ok (byteOn addr false ++ [.stop, .start] ++ symbols)

section Manners

variable (how : Manner) (busRetries : BitVec 32) (msg : Msg)

/-- The number of retries of a byte of an address. -/
def Manner.retries : Nat := if how.ignoreNack msg then 0 else busRetries.toInt.toNat

/-- The address of a message, and whether the transfer goes on behind it. -/
inductive AddressOn : Bool → List Symbol → Prop where
  | short {ok : Bool} {symbols : List Symbol} :
      msg.addr10bit = false →
        AttemptsOn (addr7 msg) (how.retries busRetries msg) ok symbols →
        AddressOn (how.goesOn msg ok) symbols
  | refusedFirst {symbols : List Symbol} :
      msg.addr10bit = true →
        AttemptsOn (addr1 msg) (how.retries busRetries msg) false symbols →
        how.goesOn msg false = false →
        AddressOn false symbols
  | refusedSecond {ok : Bool} {symbols : List Symbol} :
      msg.addr10bit = true →
        AttemptsOn (addr1 msg) (how.retries busRetries msg) ok symbols →
        how.goesOn msg ok = true →
        how.goesOn msg false = false →
        AddressOn false (symbols ++ byteOn (addr2 msg) false)
  | write {ok ack : Bool} {symbols : List Symbol} :
      msg.addr10bit = true →
        AttemptsOn (addr1 msg) (how.retries busRetries msg) ok symbols →
        how.goesOn msg ok = true →
        how.goesOn msg ack = true →
        msg.rd = false →
        AddressOn true (symbols ++ byteOn (addr2 msg) ack)
  | read {ok ack ok' : Bool} {symbols symbols' : List Symbol} :
      msg.addr10bit = true →
        AttemptsOn (addr1 msg) (how.retries busRetries msg) ok symbols →
        how.goesOn msg ok = true →
        how.goesOn msg ack = true →
        msg.rd = true →
        AttemptsOn (addr1 msg ||| 0x01) (how.retries busRetries msg) ok' symbols' →
        AddressOn (how.goesOn msg ok') (symbols ++ byteOn (addr2 msg) ack ++ [.start] ++ symbols')

/-- The data of a write, with the number of bytes that are left and a place in the buffer. -/
inductive WriteOn : Nat → Nat → Bool → List Symbol → Prop where
  | done {bytes : Nat} : WriteOn 0 bytes true []
  | refused {count bytes : Nat} :
      how.goesOn msg false = false → WriteOn (count + 1) bytes false (byteOn (msg.buf bytes) false)
  | next {count bytes : Nat} {ack ok : Bool} {symbols : List Symbol} :
      how.goesOn msg ack = true → WriteOn count (bytes + 1) ok symbols →
        WriteOn (count + 1) bytes ok (byteOn (msg.buf bytes) ack ++ symbols)

/-- The data of a read: the driver acknowledges each byte but the last. -/
def readSymbols : List (BitVec 8) → List Symbol
  | [] => []
  | data :: more => byteOn data (!more.isEmpty) ++ readSymbols more

/-- The bytes of a read, stored from a place in the buffer on. -/
def readStores : Nat → List (BitVec 8) → List (Nat × BitVec 8)
  | _, [] => []
  | bytes, data :: more => (bytes, data) :: readStores (bytes + 1) more

/-- The data of a message. -/
inductive DataOn : Bool → List Symbol → List (Nat × BitVec 8) → Prop where
  | write {ok : Bool} {symbols : List Symbol} :
      msg.rd = false → WriteOn how msg msg.len.toNat 0 ok symbols → DataOn ok symbols []
  | read {data : List (BitVec 8)} :
      msg.rd = true → data.length = msg.len.toNat →
        DataOn true (readSymbols data) (readStores 0 data)

/-- The start of a message: its address, with a start condition before it except for the first
    message. -/
inductive BeginOn : Bool → Bool → List Symbol → Prop where
  | none {first : Bool} : how.noStart msg = true → BeginOn first true []
  | first {ok : Bool} {symbols : List Symbol} :
      how.noStart msg = false → AddressOn how busRetries msg ok symbols → BeginOn true ok symbols
  | later {ok : Bool} {symbols : List Symbol} :
      how.noStart msg = false → AddressOn how busRetries msg ok symbols →
        BeginOn false ok (.start :: symbols)

end Manners

/-- The messages, up to the first byte that ends the transfer. -/
inductive TransferOn (how : Manner) (busRetries : BitVec 32) :
    Bool → List Msg → List Symbol → List (Nat × BitVec 8) → Prop where
  | done {first : Bool} : TransferOn how busRetries first [] [] []
  | address {first : Bool} {msg : Msg} {msgs : List Msg} {symbols : List Symbol} :
      BeginOn how busRetries msg first false symbols →
        TransferOn how busRetries first (msg :: msgs) symbols []
  | data {first : Bool} {msg : Msg} {msgs : List Msg} {symbols symbols' : List Symbol}
      {stores : List (Nat × BitVec 8)} :
      BeginOn how busRetries msg first true symbols → DataOn how msg false symbols' stores →
        TransferOn how busRetries first (msg :: msgs) (symbols ++ symbols') stores
  | next {first : Bool} {msg : Msg} {msgs : List Msg} {symbols symbols' more : List Symbol}
      {stores stores' : List (Nat × BitVec 8)} :
      BeginOn how busRetries msg first true symbols → DataOn how msg true symbols' stores →
        TransferOn how busRetries false msgs more stores' →
        TransferOn how busRetries first (msg :: msgs) (symbols ++ (symbols' ++ more))
          (stores ++ stores')

/-! ## The functions for messages -/

section Messages

variable {slave : Slave} {msg : Msg} {busRetries : BitVec 32}

/-- What a call adds that returns `value ok` and that reads as `P ok` says, without a store. -/
def SaysOf (value : Bool → Int) (P : Bool → List Symbol → Prop) (ret : Int) (l : List Event) :
    Prop :=
  ∃ ok symbols, ret = value ok ∧ P ok symbols ∧ Reads l symbols []

/-- The slave acknowledges a byte, or refuses it. -/
def ackValue (ack : Bool) : Int := if ack then 1 else 0

theorem says_i2cWriteb (hclock : ¬ slave.Stretching) (data : BitVec 8) :
    Adds (i2cWriteb slave data)
      (SaysOf ackValue fun ack symbols => symbols = byteOn data ack) := by
  refine (adds_i2cWriteb data).mono fun ret l h => ?_
  obtain ⟨ack, hret, -, rfl⟩ | ⟨-, hstretch, -⟩ := h
  · exact ⟨ack, _, hret, rfl, reads_writtenOn data ack _⟩
  · exact absurd hstretch hclock

theorem adds_i2cStop_start (hclock : ¬ slave.Stretching) :
    Adds (i2cStop slave >>= fun _ => i2cStart) fun _ l => Reads l [.stop, .start] [] := by
  refine adds_i2cStop.bind fun _ stop h => adds_i2cStart ?_
  obtain rfl | ⟨hstretch, -⟩ := h
  · exact reads_stop_start
  · exact absurd hstretch hclock

theorem reads_i2cRestart (hclock : ¬ slave.Stretching) :
    Adds (i2cRestart slave) fun _ l => Reads l [.start] [] := by
  refine adds_i2cRestart.mono fun _ l h => ?_
  obtain rfl | ⟨hstretch, -⟩ := h
  · exact reads_restart
  · exact absurd hstretch hclock

theorem says_i2cSendAddressLoop (hclock : ¬ slave.Stretching) (addr : BitVec 8) (n : Nat) :
    Adds (i2cSendAddressLoop slave addr n) (SaysOf ackValue (AttemptsOn addr n)) := by
  induction n with
  | zero =>
    refine (says_i2cWriteb hclock addr).mono fun ret l h => ?_
    obtain ⟨ack, symbols, hret, rfl, hreads⟩ := h
    cases ack with
    | true => exact ⟨true, _, hret, .accepted, hreads⟩
    | false => exact ⟨false, _, hret, .refused, hreads⟩
  | succ n ih =>
    refine (says_i2cWriteb hclock addr).bind fun ret l h => ?_
    obtain ⟨ack, symbols, rfl, rfl, hreads⟩ := h
    cases ack with
    | true =>
      have haccepted : ackValue true = 1 := rfl
      rw [if_pos haccepted]
      exact adds_pure ⟨true, _, rfl, .accepted, by rwa [List.append_nil]⟩
    | false =>
      have hrefused : ¬ ackValue false = 1 := by decide
      rw [if_neg hrefused, ← bind_assoc]
      refine (adds_i2cStop_start hclock).bind fun _ again hagain => ih.mono fun ret m h => ?_
      obtain ⟨ok, more, hret, hmore, hreads'⟩ := h
      refine ⟨ok, _, hret, .again hmore, ?_⟩
      rw [← List.append_assoc]
      exact (hreads.append hagain).append hreads'

theorem says_i2cSendAddress (hclock : ¬ slave.Stretching) (hretries : 0 ≤ busRetries.toInt)
    (addr : BitVec 8) :
    Adds (i2cSendAddress slave addr (retriesOf busRetries msg))
      (SaysOf ackValue (AttemptsOn addr (Manner.flagged.retries busRetries msg))) := by
  have hturns : (retriesOf busRetries msg).toNat = Manner.flagged.retries busRetries msg := by
    unfold retriesOf Manner.retries Manner.flagged
    split
    · rfl
    · rfl
  have hall : 0 ≤ retriesOf busRetries msg := by
    unfold retriesOf
    split
    · exact Int.le_refl 0
    · exact hretries
  rw [i2cSendAddress, if_pos hall, hturns]
  exact says_i2cSendAddressLoop hclock addr _

/-- What comes behind a byte of an address. -/
theorem says_address_bind {f g : OnBus Int} {P : Bool → List Symbol → Prop}
    {Q : Int → List Event → Prop} (hf : Adds f (SaysOf ackValue P))
    (hgood : ∀ ok symbols l, P ok symbols → Manner.flagged.goesOn msg ok = true →
      Reads l symbols [] → Adds g fun b m => Q b (l ++ m))
    (hbad : ∀ symbols l, P false symbols → Manner.flagged.goesOn msg false = false →
      Reads l symbols [] → Q (-rtEio) l) :
    Adds (f >>= fun ret => if ret ≠ 1 ∧ ¬ msg.ignoreNack then pure (-rtEio) else g) Q := by
  refine hf.bind fun ret l h => ?_
  obtain ⟨ok, symbols, rfl, hp, hreads⟩ := h
  have hgoes : Manner.flagged.goesOn msg ok = (msg.ignoreNack || ok) := rfl
  by_cases hend : ackValue ok ≠ 1 ∧ ¬ msg.ignoreNack = true
  · obtain rfl : ok = false := by
      cases ok with
      | true => exact absurd rfl hend.1
      | false => rfl
    rw [if_pos hend]
    refine adds_pure ?_
    rw [List.append_nil]
    exact hbad symbols l hp (by simpa [hgoes] using hend.2) hreads
  · rw [if_neg hend]
    refine hgood ok symbols l hp ?_ hreads
    cases ok with
    | true => simp [hgoes]
    | false => simpa [hgoes, ackValue] using hend

/-- The address of a message has gone through, or has not. -/
def addressValue (ok : Bool) : Int := if ok then rtEok else -rtEio

theorem says_i2cBitSendAddress (hclock : ¬ slave.Stretching) (hretries : 0 ≤ busRetries.toInt) :
    Adds (i2cBitSendAddress slave busRetries msg)
      (SaysOf addressValue (AddressOn .flagged busRetries msg)) := by
  by_cases h10 : msg.addr10bit = true
  case pos =>
    rw [i2cBitSendAddress, if_pos h10]
    refine says_address_bind (says_i2cSendAddress hclock hretries (addr1 msg))
      (fun ok first l hfirst hgoes hreads => ?_) fun first l hfirst hstays hreads =>
        ⟨false, first, rfl, .refusedFirst h10 hfirst hstays, hreads⟩
    refine says_address_bind (says_i2cWriteb hclock (addr2 msg))
      (fun ack second l' hsecond hgoes' hreads' => ?_) fun second l' hsecond hstays hreads' => ?_
    · subst hsecond
      by_cases hrd : msg.rd = true
      -- a read sends the first byte again, behind a restart
      · rw [if_pos hrd]
        refine (reads_i2cRestart hclock).bind fun _ restart hrestart => ?_
        have hbefore := (hreads.append hreads').append hrestart
        have hread : ∀ ok' again l'' goes, Manner.flagged.goesOn msg ok' = goes →
            AttemptsOn (addr1 msg ||| 0x01) (Manner.flagged.retries busRetries msg) ok' again →
            Reads l'' again [] →
            SaysOf addressValue (AddressOn .flagged busRetries msg) (addressValue goes)
              (l ++ (l' ++ (restart ++ l''))) := by
          rintro ok' again l'' _ rfl hagain hreads''
          refine ⟨_, _, rfl, .read h10 hfirst hgoes hgoes' hrd hagain, ?_⟩
          simpa using hbefore.append hreads''
        refine says_address_bind (says_i2cSendAddress hclock hretries (addr1 msg ||| 0x01))
          (fun ok' again l'' hagain hgoes'' hreads'' => adds_pure ?_)
          fun again l'' hagain hstays hreads'' => hread false again l'' false hstays hagain hreads''
        rw [List.append_nil]
        exact hread ok' again l'' true hgoes'' hagain hreads''
      · rw [if_neg hrd]
        refine adds_pure ⟨true, _, rfl,
          .write h10 hfirst hgoes hgoes' (Bool.eq_false_iff.mpr hrd), ?_⟩
        simpa using hreads.append hreads'
    · subst hsecond
      exact ⟨false, _, rfl, .refusedSecond h10 hfirst hgoes hstays, hreads.append hreads'⟩
  case neg =>
    have hshort : msg.addr10bit = false := Bool.eq_false_iff.mpr h10
    rw [i2cBitSendAddress, if_neg h10]
    refine says_address_bind (says_i2cSendAddress hclock hretries (addr7 msg))
      (fun ok symbols l hattempts hgoes hreads => adds_pure ?_)
      fun symbols l hattempts hstays hreads => ?_
    · refine ⟨true, symbols, rfl, ?_, by rwa [List.append_nil]⟩
      rw [← hgoes]
      exact .short hshort hattempts
    · refine ⟨false, symbols, rfl, ?_, hreads⟩
      rw [← hstays]
      exact .short hshort hattempts

theorem WriteOn.count_pos {how : Manner} {count bytes : Nat} {symbols : List Symbol}
    (h : WriteOn how msg count bytes false symbols) : 0 < count := by
  cases h with
  | refused _ => exact Nat.succ_pos _
  | next _ _ => exact Nat.succ_pos _

/-- The number of bytes that `i2c_send_bytes` returns, or none. -/
def sentValue (all : Nat) (ok : Bool) : Int := if ok then all else 0

theorem says_i2cSendBytesLoop (hclock : ¬ slave.Stretching) (count bytes : Nat) :
    Adds (i2cSendBytesLoop slave msg count bytes)
      (SaysOf (sentValue (bytes + count)) (WriteOn .flagged msg count bytes)) := by
  induction count generalizing bytes with
  | zero => exact adds_pure ⟨true, [], rfl, .done, reads_nil⟩
  | succ count ih =>
    refine (says_i2cWriteb hclock (msg.buf bytes)).bind fun ret l h => ?_
    obtain ⟨ack, symbols, rfl, rfl, hreads⟩ := h
    by_cases hgoes : Manner.flagged.goesOn msg ack = true
    · have hturn : 0 < ackValue ack ∨ msg.ignoreNack ∧ ackValue ack = 0 := by
        cases ack with
        | true => exact .inl (by decide)
        | false => exact .inr ⟨by simpa [Manner.goesOn, Manner.flagged] using hgoes, rfl⟩
      rw [if_pos hturn]
      refine (ih (bytes + 1)).mono fun ret m h => ?_
      obtain ⟨ok, more, rfl, hmore, hreads'⟩ := h
      refine ⟨ok, _, ?_, .next hgoes hmore, hreads.append hreads'⟩
      rw [Nat.add_right_comm, Nat.add_assoc]
    · obtain ⟨hnack, rfl⟩ : msg.ignoreNack = false ∧ ack = false := by
        simpa [Manner.goesOn, Manner.flagged] using hgoes
      have hrefused : ackValue false = 0 := rfl
      rw [if_neg (by simp [hnack, hrefused]), if_pos hrefused]
      refine adds_pure ⟨false, _, rfl, .refused (Bool.eq_false_iff.mpr hgoes), ?_⟩
      rwa [List.append_nil]

theorem reads_i2cRecvBytesLoop (hclock : ¬ slave.Stretching) (hanswers : msg.noReadAck = false)
    (count bytes : Nat) :
    Adds (i2cRecvBytesLoop slave msg count bytes) fun ret l =>
      ∃ data, data.length = count ∧ ret = ((bytes + count : Nat) : Int) ∧
        Reads l (readSymbols data) (readStores bytes data) := by
  induction count generalizing bytes with
  | zero => exact adds_pure ⟨[], rfl, rfl, reads_nil⟩
  | succ count ih =>
    refine adds_i2cReadb.bind fun ret l h => ?_
    obtain ⟨data, rfl, rfl⟩ | ⟨-, hstretch, -⟩ := h
    case inr => exact absurd hstretch hclock
    rw [if_pos (Int.natCast_nonneg _), hanswers]
    refine emit_bind ((adds_i2cSendAckOrNack (count ≠ 0)).bind fun val answered h => ?_)
    obtain ⟨rfl, rfl⟩ | ⟨-, hstretch, -⟩ := h
    case inr => exact absurd hstretch hclock
    refine (ih (bytes + 1)).mono fun ret m h => ?_
    obtain ⟨more, rfl, rfl, hreads⟩ := h
    refine ⟨data :: more, rfl, by omega, ?_⟩
    have hmore : (!more.isEmpty) = decide (more.length ≠ 0) := by
      cases more with
      | nil => rfl
      | cons v more => rfl
    have hbyte := reads_readOn data (!more.isEmpty) bytes (.read data.toNat)
      (.answered (!more.isEmpty) rtEok)
    rw [hmore] at hbyte
    simpa [readSymbols, readStores, hmore] using hbyte.append hreads

/-- What a call adds that reads as `P ok` says, with the bytes that are stored, if `ok` is what
    `went` says of the number that is returned. -/
def Shows (went : Int → Prop) (P : Bool → List Symbol → List (Nat × BitVec 8) → Prop) (ret : Int)
    (l : List Event) : Prop :=
  ∃ ok symbols stores, (went ret ↔ ok = true) ∧ P ok symbols stores ∧ Reads l symbols stores

theorem shows_i2cSendBytes (hclock : ¬ slave.Stretching) (hrd : ¬ msg.rd = true) :
    Adds (i2cSendBytes slave msg) (Shows (¬ · < msg.len.toNat) (DataOn .flagged msg)) := by
  refine (says_i2cSendBytesLoop hclock msg.len.toNat 0).mono fun ret l h => ?_
  obtain ⟨ok, symbols, rfl, hwrite, hreads⟩ := h
  refine ⟨ok, symbols, [], ?_, .write (Bool.eq_false_iff.mpr hrd) hwrite, hreads⟩
  cases ok with
  | true => simp [sentValue]
  | false =>
    have hpos := hwrite.count_pos
    simpa [sentValue] using hpos.ne'

theorem shows_i2cRecvBytes (hclock : ¬ slave.Stretching) (hanswers : msg.noReadAck = false)
    (hrd : msg.rd = true) :
    Adds (i2cRecvBytes slave msg) (Shows (¬ · < msg.len.toNat) (DataOn .flagged msg)) := by
  refine (reads_i2cRecvBytesLoop hclock hanswers msg.len.toNat 0).mono fun ret l h => ?_
  obtain ⟨data, hlength, rfl, hreads⟩ := h
  exact ⟨true, _, _, by simp, .read hrd hlength, hreads⟩

/-- A byte that is refused is no end for a message with `RT_I2C_IGNORE_NACK`. -/
theorem AddressOn.minds {how : Manner} {ok : Bool} {symbols : List Symbol}
    (h : AddressOn how busRetries msg ok symbols) (hok : ok = false) :
    how.ignoreNack msg = false := by
  have hends : ∀ ack, how.goesOn msg ack = false → how.ignoreNack msg = false :=
    fun _ hgoes => (Bool.or_eq_false_iff.mp hgoes).1
  cases h with
  | short _ _ => exact hends _ hok
  | refusedFirst _ _ hgoes => exact hends _ hgoes
  | refusedSecond _ _ _ hgoes => exact hends _ hgoes
  | write _ _ _ _ _ => exact absurd hok.symm Bool.false_ne_true
  | read _ _ _ _ _ _ => exact hends _ hok

theorem says_i2cBitXferAddress (hclock : ¬ slave.Stretching) (hretries : 0 ≤ busRetries.toInt)
    (i : Nat) :
    Adds (i2cBitXferAddress slave busRetries i msg)
      (SaysOf addressValue (BeginOn .flagged busRetries msg (i = 0))) := by
  have haddress := @says_i2cBitSendAddress slave msg busRetries hclock hretries
  by_cases hnone : msg.noStart = true
  · rw [i2cBitXferAddress, if_pos hnone]
    exact adds_pure ⟨true, [], rfl, .none hnone, reads_nil⟩
  · have hsome : Manner.flagged.noStart msg = false := Bool.eq_false_iff.mpr hnone
    rw [i2cBitXferAddress, if_neg hnone]
    cases i with
    | zero =>
      refine haddress.mono fun ret l h => ?_
      obtain ⟨ok, symbols, rfl, hsent, hreads⟩ := h
      exact ⟨ok, symbols, rfl, .first hsome hsent, hreads⟩
    | succ i =>
      refine (reads_i2cRestart hclock).bind fun _ restart hrestart =>
        haddress.mono fun ret l h => ?_
      obtain ⟨ok, symbols, rfl, hsent, hreads⟩ := h
      exact ⟨ok, _, rfl, .later hsome hsent, hrestart.append hreads⟩

theorem BeginOn.minds {how : Manner} {first : Bool} {symbols : List Symbol}
    (h : BeginOn how busRetries msg first false symbols) : how.ignoreNack msg = false := by
  cases h with
  | first _ haddress => exact haddress.minds rfl
  | later _ haddress => exact haddress.minds rfl

/-- What comes behind the data of a message. -/
theorem shows_data_bind {f g : OnBus Int} {Q : Int → List Event → Prop} {error : Int}
    (hf : Adds f (Shows (¬ · < msg.len.toNat) (DataOn .flagged msg)))
    (hgood : ∀ symbols stores l, DataOn .flagged msg true symbols stores → Reads l symbols stores →
      Adds g fun b m => Q b (l ++ m))
    (hbad : ∀ ret symbols stores l, DataOn .flagged msg false symbols stores →
      Reads l symbols stores → Q ret l) :
    Adds (f >>= fun ret =>
      if ret < msg.len.toNat then pure (if 0 ≤ ret then -error else ret) else g) Q := by
  refine hf.bind fun ret l h => ?_
  obtain ⟨ok, symbols, stores, hwent, hdata, hreads⟩ := h
  by_cases hless : ret < msg.len.toNat
  · obtain rfl : ok = false := by
      cases ok with
      | true => exact absurd hless (hwent.mpr rfl)
      | false => rfl
    rw [if_pos hless]
    refine adds_pure ?_
    rw [List.append_nil]
    exact hbad _ symbols stores l hdata hreads
  · obtain rfl := hwent.mp hless
    rw [if_neg hless]
    exact hgood symbols stores l hdata hreads

end Messages

/-! ## The waveform of a transfer -/

section Transfers

variable {slave : Slave} {msgs : List Msg} {busRetries : BitVec 32}

theorem reads_i2cBitXferLoop (hclock : ¬ slave.Stretching) (hretries : 0 ≤ busRetries.toInt)
    (hanswers : ∀ msg ∈ msgs, msg.noReadAck = false) (i : Nat) :
    Adds (i2cBitXferLoop slave busRetries i msgs) fun _ l =>
      ∃ symbols stores, TransferOn .flagged busRetries (i = 0) msgs symbols stores ∧
        Reads l symbols stores := by
  -- the transfer ends in the address or in the data of a message, or goes on with the next
  induction msgs generalizing i with
  | nil => exact adds_pure ⟨[], [], .done, reads_nil⟩
  | cons msg msgs ih =>
    refine (says_i2cBitXferAddress hclock hretries i).bind fun ret address h => ?_
    obtain ⟨ok, symbols, rfl, hbegin, haddress⟩ := h
    cases ok with
    | false =>
      have hends : addressValue false ≠ rtEok ∧ ¬ msg.ignoreNack = true :=
        ⟨by decide, Bool.eq_false_iff.mp hbegin.minds⟩
      rw [if_pos hends]
      refine adds_pure ⟨symbols, [], .address hbegin, ?_⟩
      rwa [List.append_nil]
    | true =>
      have hgoes : ¬ (addressValue true ≠ rtEok ∧ ¬ msg.ignoreNack = true) := fun h => h.1 rfl
      rw [if_neg hgoes]
      -- the data have gone through
      have hrest : ∀ symbols' stores data, DataOn .flagged msg true symbols' stores →
          Reads data symbols' stores →
          Adds (i2cBitXferLoop slave busRetries (i + 1) msgs) fun _ l =>
            ∃ all stores', TransferOn .flagged busRetries (i = 0) (msg :: msgs) all stores' ∧
              Reads (address ++ (data ++ l)) all stores' := by
        intro symbols' stores data hdata hreads
        refine (ih (fun m hm => hanswers m (.tail _ hm)) (i + 1)).mono fun _ l h => ?_
        obtain ⟨more, stores', hmore, hreads'⟩ := h
        exact ⟨_, _, .next hbegin hdata hmore, haddress.append (hreads.append hreads')⟩
      -- they have been cut short
      have hcut : ∀ (_ : Int) symbols' stores data, DataOn .flagged msg false symbols' stores →
          Reads data symbols' stores →
          ∃ all stores', TransferOn .flagged busRetries (i = 0) (msg :: msgs) all stores' ∧
            Reads (address ++ data) all stores' := by
        intro _ symbols' stores data hdata hreads
        exact ⟨_, _, .data hbegin hdata, haddress.append hreads⟩
      by_cases hrd : msg.rd = true
      · rw [if_pos hrd]
        exact shows_data_bind (shows_i2cRecvBytes hclock (hanswers msg (.head _)) hrd) hrest hcut
      · rw [if_neg hrd]
        exact shows_data_bind (shows_i2cSendBytes hclock hrd) hrest hcut

/-- From an idle bus, a transfer reads as a start condition, the messages as their flags tell, and
    a stop condition that leaves the bus idle. -/
def XferOn (how : Manner) (busRetries : BitVec 32) (msgs : List Msg) (l : List Event) : Prop :=
  ∃ body, waveform ⟨[], .idle⟩ l = ⟨.start :: body ++ [.stop], .idle⟩ ∧
    TransferOn how busRetries true msgs body (storesOf l)

/-- The waveform of a transfer on a bus whose clock is not held for too long, if the driver answers
    what it reads.  The number of retries of the bus is not negative. -/
theorem i2c_bit_xfer_waveform (hclock : ∀ w, slave.stretches w = false)
    (hretries : 0 ≤ busRetries.toInt) (hanswers : ∀ msg ∈ msgs, msg.noReadAck = false) :
    Adds (i2cBitXfer slave busRetries msgs) fun _ l => XferOn .flagged busRetries msgs l := by
  have hnever : ¬ slave.Stretching := by
    rintro ⟨w, hstretch⟩
    exact Bool.false_ne_true ((hclock w).symm.trans hstretch)
  refine Adds.bind (adds_i2cStart rfl) fun _ start
    (hstart : start = [.line (.sda false), .line (.scl false)]) =>
      (reads_i2cBitXferLoop hnever hretries hanswers 0).bind fun ret l h =>
        adds_i2cStop.bind fun _ stop hstop => adds_pure ?_
  obtain ⟨body, stores, htransfer, hreads⟩ := h
  obtain rfl | ⟨hstretch, -⟩ := hstop
  case inr => exact absurd hstretch hnever
  subst hstart
  obtain ⟨sda, hbody⟩ := hreads.symbols [.start] false
  refine ⟨body, ?_, ?_⟩
  · have hstart : waveform ⟨[], .idle⟩ [.line (.sda false), .line (.scl false)] =
        ⟨[.start], .low false⟩ := by simp [Lines.idle]
    rw [waveform_append, hstart, waveform_append, hbody]
    simp
  · have hstores : storesOf l = stores := hreads.stores
    simpa [hstores] using htransfer

/-- A write of one byte. -/
def oneByte (flags : BitVec 16) : Msg where
  addr := 0x50
  flags := flags
  len := 1
  buf _ := 1

/-- A message that is not addressed, and one for which no byte that is refused is an end. -/
theorem i2c_bit_xfer_waveform_flags :
    Adds (i2cBitXfer obliging 0 [oneByte rtI2cNoStart, oneByte rtI2cIgnoreNack]) fun _ l =>
      XferOn .flagged 0 [oneByte rtI2cNoStart, oneByte rtI2cIgnoreNack] l :=
  i2c_bit_xfer_waveform (fun _ => rfl) (by decide) (by decide)

section Plain

variable {how : Manner} {body more : List Symbol} {stores : List (Nat × BitVec 8)}
  {flags : BitVec 16}

/-- What a run reads as is the only thing that it can read as. -/
theorem transferOn_of_run
    (h : Adds (i2cBitXfer slave busRetries msgs) fun _ l => XferOn how busRetries msgs l)
    (hrun : waveform ⟨[], .idle⟩ ((i2cBitXfer slave busRetries msgs).run []).2 =
      ⟨.start :: body ++ [.stop], .idle⟩) :
    ∃ stores, TransferOn how busRetries true msgs body stores := by
  obtain ⟨l, hl, body', hbody, htransfer⟩ := h []
  rw [List.nil_append] at hl
  rw [hl, hbody, Seen.mk.injEq] at hrun
  obtain rfl : body' = body := by simpa using hrun.1
  exact ⟨_, htransfer⟩

/-- A byte of an address that is tried once. -/
theorem AttemptsOn.once {addr : BitVec 8} {n : Nat} {ok : Bool} (h : AttemptsOn addr n ok body)
    (hn : n = 0) : body = byteOn addr ok := by
  cases h with
  | accepted => rfl
  | refused => rfl
  | again _ => exact absurd hn (Nat.succ_ne_zero _)

/-- The address of a write of one byte. -/
theorem AddressOn.oneByte_eq {ok : Bool} (h : AddressOn .plain busRetries (oneByte flags) ok body)
    (hshort : (oneByte flags).addr10bit = false) (hrd : (oneByte flags).rd = false)
    (hretries : busRetries.toInt.toNat = 0) : body = byteOn 0xa0 ok := by
  have hlong : ¬ (oneByte flags).addr10bit = true := by simp [hshort]
  cases h with
  | short _ hattempts =>
    have haddr : (oneByte flags).addr = 0x50 := rfl
    have hbyte : addr7 (oneByte flags) = 0xa0 := by
      rw [addr7, hrd, haddr]
      decide
    rw [hattempts.once hretries, hbyte]
    rfl
  | refusedFirst h10 _ _ => exact absurd h10 hlong
  | refusedSecond h10 _ _ _ => exact absurd h10 hlong
  | write h10 _ _ _ _ => exact absurd h10 hlong
  | read h10 _ _ _ _ _ => exact absurd h10 hlong

/-- The data of a write of one byte. -/
theorem DataOn.oneByte_eq {ok : Bool} (h : DataOn .plain (oneByte flags) ok body stores)
    (hrd : (oneByte flags).rd = false) : body = byteOn 1 ok := by
  cases h with
  | write _ hwrite =>
    generalize hlen : (oneByte flags).len.toNat = count at hwrite
    obtain rfl : 1 = count := hlen
    cases hwrite with
    | refused _ => rfl
    | @next _ _ ack _ _ hgoes hmore =>
      obtain rfl : ack = true := hgoes
      cases hmore with
      | done => rw [List.append_nil]; rfl
  | read h _ => exact absurd hrd (by simp [h])

/-- A write of one byte is cut off in its address or in its data, or is followed by more. -/
theorem TransferOn.oneByte_cases
    (h : TransferOn .plain busRetries true (oneByte flags :: msgs) body stores)
    (hshort : (oneByte flags).addr10bit = false) (hrd : (oneByte flags).rd = false)
    (hretries : busRetries.toInt.toNat = 0) :
    body = byteOn 0xa0 false ∨ body = byteOn 0xa0 true ++ byteOn 1 false ∨
      ∃ more stores', body = byteOn 0xa0 true ++ (byteOn 1 true ++ more) ∧
        TransferOn .plain busRetries false msgs more stores' := by
  have hbegin : ∀ {ok symbols}, BeginOn .plain busRetries (oneByte flags) true ok symbols →
      symbols = byteOn 0xa0 ok := by
    intro ok symbols h
    cases h with
    | none hnone => exact absurd hnone Bool.false_ne_true
    | first _ haddress => exact haddress.oneByte_eq hshort hrd hretries
  cases h with
  | address haddress => exact .inl (hbegin haddress)
  | data haddress hdata =>
    obtain rfl := hbegin haddress
    obtain rfl := hdata.oneByte_eq hrd
    exact .inr (.inl rfl)
  | next haddress hdata hmore =>
    obtain rfl := hbegin haddress
    obtain rfl := hdata.oneByte_eq hrd
    exact .inr (.inr ⟨_, _, rfl, hmore⟩)

theorem TransferOn.head_eq_start {msg : Msg} (h : TransferOn .plain busRetries false (msg :: msgs)
    body stores) : body.head? = some .start := by
  have hbegin : ∀ {ok symbols}, BeginOn .plain busRetries msg false ok symbols →
      ∃ rest, symbols = .start :: rest := by
    intro ok symbols h
    cases h with
    | none hnone => exact absurd hnone Bool.false_ne_true
    | later _ _ => exact ⟨_, rfl⟩
  cases h with
  | address haddress =>
    obtain ⟨rest, rfl⟩ := hbegin haddress
    rfl
  | data haddress _ =>
    obtain ⟨rest, rfl⟩ := hbegin haddress
    rfl
  | next haddress _ _ =>
    obtain ⟨rest, rfl⟩ := hbegin haddress
    rfl

end Plain

/-- A slave that acknowledges no byte. -/
def refusing : Slave := ⟨fun _ => false, fun _ => true⟩

/-- A message with `RT_I2C_NO_START` has no address, a byte of a message with `RT_I2C_IGNORE_NACK`
    that is refused is no end, and with a negative number of retries nothing is sent. -/
theorem i2c_bit_xfer_waveform_wrong :
    (¬ Adds (i2cBitXfer obliging 0 [oneByte 0, oneByte rtI2cNoStart])
      fun _ l => XferOn .plain 0 [oneByte 0, oneByte rtI2cNoStart] l) ∧
    (¬ Adds (i2cBitXfer refusing 0 [oneByte rtI2cIgnoreNack])
      fun _ l => XferOn .plain 0 [oneByte rtI2cIgnoreNack] l) ∧
    ¬ Adds (i2cBitXfer obliging (-1) [oneByte 0]) fun _ l => XferOn .plain (-1) [oneByte 0] l := by
  refine ⟨fun h => ?_, fun h => ?_, fun h => ?_⟩
  · have hrun : waveform ⟨[], .idle⟩
        ((i2cBitXfer obliging 0 [oneByte 0, oneByte rtI2cNoStart]).run []).2 =
        ⟨.start :: (byteOn 0xa0 true ++ (byteOn 1 true ++ byteOn 1 true)) ++ [.stop], .idle⟩ := by
      decide +kernel
    obtain ⟨stores, htransfer⟩ := transferOn_of_run h hrun
    obtain hbody | hbody | ⟨more, stores', hbody, hmore⟩ :=
      htransfer.oneByte_cases (by decide) (by decide) (by decide)
    · exact absurd hbody (by decide +kernel)
    · exact absurd hbody (by decide +kernel)
    · obtain rfl := List.append_cancel_left (List.append_cancel_left hbody)
      exact absurd hmore.head_eq_start (by decide)
  · have hrun : waveform ⟨[], .idle⟩
        ((i2cBitXfer refusing 0 [oneByte rtI2cIgnoreNack]).run []).2 =
        ⟨.start :: (byteOn 0xa0 false ++ byteOn 1 false) ++ [.stop], .idle⟩ := by decide +kernel
    obtain ⟨stores, htransfer⟩ := transferOn_of_run h hrun
    obtain hbody | hbody | ⟨more, stores', hbody, -⟩ :=
      htransfer.oneByte_cases (by decide) (by decide) (by decide)
    · exact absurd hbody (by decide +kernel)
    · exact absurd hbody (by decide +kernel)
    · exact absurd (List.append_inj_left hbody rfl) (by decide)
  · have hrun : waveform ⟨[], .idle⟩ ((i2cBitXfer obliging (-1) [oneByte 0]).run []).2 =
        ⟨.start :: [] ++ [.stop], .idle⟩ := by decide +kernel
    obtain ⟨stores, htransfer⟩ := transferOn_of_run h hrun
    obtain hbody | hbody | ⟨more, stores', hbody, -⟩ :=
      htransfer.oneByte_cases (by decide) (by decide) (by decide)
    · exact absurd hbody (by decide +kernel)
    · exact absurd hbody (by decide +kernel)
    · exact absurd (List.nil_eq_append_iff.mp hbody).1 (by decide)

end Transfers

end PandoraRobot.Drivers.I2c
