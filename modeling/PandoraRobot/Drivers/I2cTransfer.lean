import PandoraRobot.Drivers.I2cBitOps

/-! # What a transfer on the I2C bus returns

`i2c_bit_xfer` returns the number of messages exactly when each byte of each message has gone
through, and the last thing it does is to drive a stop condition.

The length of a message has 16 bits.  A send or a receive of 2 ^ 16 bytes or more moves what is left
of the length, and returns the length it was called with.
-/

namespace PandoraRobot.Drivers.I2c

open PandoraRobot.Kernel PandoraRobot.Transcript PandoraRobot.TwoWire

/-! ## A transfer that goes through -/

/-- A byte that the slave acknowledges, on nine clocks. -/
def ackedByte (data : BitVec 8) : List Event :=
  writtenOn data true ++ [.moved (.written data 1)]

/-- A byte of an address is acknowledged in the end. -/
inductive Addressed (addr : BitVec 8) : List Event → Prop where
  | accepted : Addressed addr (ackedByte addr)
  | retried {l m : List Event} {ret : Int} :
      movedOf l = [.written addr ret] → ret ≠ 1 → Addressed addr m → Addressed addr (l ++ m)

/-- After conditions of the bus only. -/
def Then (P : List Event → Prop) (l : List Event) : Prop :=
  ∃ pre post, l = pre ++ post ∧ movedOf pre = [] ∧ P post

/-- A read repeats the first byte of an address of 10 bits. -/
def AddressRepeated (msg : Msg) (l : List Event) : Prop :=
  if msg.rd then Then (Addressed (addr1 msg ||| 0x01)) l else l = []

/-- The bytes of the address of a message have gone through. -/
def AddressSent (msg : Msg) (l : List Event) : Prop :=
  if msg.addr10bit then
    ∃ first again, l = first ++ ackedByte (addr2 msg) ++ again ∧ Addressed (addr1 msg) first ∧
      AddressRepeated msg again
  else Addressed (addr7 msg) l

/-- Bytes that are sent, from a place in the buffer on. -/
def sentBytes (buf : Nat → BitVec 8) : Nat → Nat → List Event
  | 0, _ => []
  | count + 1, bytes => ackedByte (buf bytes) ++ sentBytes buf count (bytes + 1)

/-- The answer of the driver to a byte. -/
def answer (noReadAck more : Bool) : List Event :=
  if noReadAck then [] else answeredOn more ++ [.moved (.answered more rtEok)]

/-- Bytes that are received, and stored from a place in the buffer on. -/
def receivedBytes (noReadAck : Bool) : Nat → List (BitVec 8) → List Event
  | _, [] => []
  | bytes, data :: more =>
    readOn data ++ [.moved (.read data.toNat), .stored bytes data] ++
      answer noReadAck (!more.isEmpty) ++ receivedBytes noReadAck (bytes + 1) more

/-- `count` bytes of the data of a message have gone through. -/
def DataMoved (msg : Msg) (count : Nat) (l : List Event) : Prop :=
  if msg.rd then ∃ data, data.length = count ∧ l = receivedBytes msg.noReadAck 0 data
  else l = sentBytes msg.buf count 0

/-- The bytes of each message have gone through. -/
def AllThrough : List Msg → List Event → Prop
  | [], l => l = []
  | msg :: msgs, l => ∃ address data more, l = address ++ data ++ more ∧
      Then (AddressSent msg) address ∧ DataMoved msg msg.len.toNat data ∧ AllThrough msgs more

/-- A transfer, up to the conditions of the bus before and after the bytes. -/
def Through (P : List Event → Prop) (l : List Event) : Prop :=
  ∃ pre body post, l = pre ++ body ++ post ∧ movedOf pre = [] ∧ movedOf post = [] ∧ P body

/-! ## What a send and a receive are to return -/

def i2cErrors : List (BitVec 32) :=
  [-rtError, -rtEtimeout, -rtEio].map (BitVec.ofInt 32)

/-- A positive number is returned for that many bytes only, and else 0 or an error. -/
def CountRight (msg : Msg) (count ret : BitVec 32) (l : List Event) : Prop :=
  (0 < ret.toInt → ret = count ∧
    Through (fun body => ∃ address data, body = address ++ data ∧ AddressSent msg address ∧
      DataMoved msg count.toNat data) l) ∧
  (¬ 0 < ret.toInt → ret = 0 ∨ ret ∈ i2cErrors)

/-- The last thing that is done to the lines is a stop condition. -/
def EndsWithStop (l : List Event) : Prop :=
  [.sda false, .scl true, .sda true] <:+ callsOf l

/-! ## A transfer that is cut off -/

def Moved.Went : Moved → Prop
  | .written _ ret => ret = 1
  | .read ret => 0 ≤ ret
  | .answered _ ret => ret = rtEok

/-- `P` holds of the last byte, and there is one. -/
def LastMoved (P : Moved → Prop) (l : List Event) : Prop := ∃ byte ∈ (movedOf l).getLast?, P byte

/-- The last byte has not gone through. -/
def Fails (l : List Event) : Prop := LastMoved (¬ ·.Went) l

section Failing

variable {l m : List Event} {slave : Slave} {msg : Msg} {P : Moved → Prop}

theorem LastMoved.behind (h : LastMoved P m) (l : List Event) : LastMoved P (l ++ m) := by
  obtain ⟨byte, hbyte, hp⟩ := h
  refine ⟨byte, ?_, hp⟩
  rw [movedOf_append, List.getLast?_append, Option.mem_def.mp hbyte]
  rfl

theorem lastMoved_of_moved {byte : Moved} (h : movedOf l = [byte]) (hp : P byte) :
    LastMoved P l :=
  ⟨byte, by rw [h]; rfl, hp⟩

theorem LastMoved.ne_nil (h : LastMoved P l) : movedOf l ≠ [] := by
  obtain ⟨byte, hbyte, -⟩ := h
  rintro hnil
  simp [hnil] at hbyte

theorem LastMoved.not_fails (h : LastMoved Moved.Went l) : ¬ Fails l := by
  rintro ⟨byte', hbyte', hnot⟩
  obtain ⟨byte, hbyte, hwent⟩ := h
  rw [Option.mem_unique hbyte hbyte'] at hwent
  exact hnot hwent

theorem not_fails_append (hl : ¬ Fails l) (hm : ¬ Fails m) : ¬ Fails (l ++ m) := by
  rintro ⟨byte, hbyte, hwent⟩
  rw [movedOf_append, List.getLast?_append, Option.mem_def, Option.or_eq_some_iff] at hbyte
  obtain hlast | ⟨-, hlast⟩ := hbyte
  · exact hm ⟨byte, hlast, hwent⟩
  · exact hl ⟨byte, hlast, hwent⟩

theorem not_fails_of_quiet (h : movedOf l = []) : ¬ Fails l := by
  rintro ⟨byte, hbyte, -⟩
  simp [h] at hbyte

@[simp] theorem movedOf_writtenOn (data : BitVec 8) (ack : Bool) :
    movedOf (writtenOn data ack) = [] := by
  simp [writtenOn, answerOf]

@[simp] theorem movedOf_readOn (data : BitVec 8) : movedOf (readOn data) = [] := by
  simp [readOn]

@[simp] theorem movedOf_answeredOn (ack : Bool) : movedOf (answeredOn ack) = [] := by
  cases ack with
  | true => rfl
  | false => rfl

@[simp] theorem movedOf_ackedByte (data : BitVec 8) :
    movedOf (ackedByte data) = [.written data 1] := by
  simp [ackedByte]

theorem ackedByte_went (data : BitVec 8) : LastMoved Moved.Went (ackedByte data) :=
  lastMoved_of_moved (movedOf_ackedByte data) (rfl : (1 : Int) = 1)

theorem Addressed.went {addr : BitVec 8} (h : Addressed addr l) : LastMoved Moved.Went l := by
  induction h with
  | accepted => exact ackedByte_went addr
  | retried _ _ _ ih => exact ih.behind _

theorem AddressSent.went (h : AddressSent msg l) : LastMoved Moved.Went l := by
  unfold AddressSent at h
  split at h
  · obtain ⟨first, again, rfl, -, hagain⟩ := h
    unfold AddressRepeated at hagain
    split at hagain
    · obtain ⟨pre, post, rfl, -, hpost⟩ := hagain
      exact (hpost.went.behind _).behind _
    · subst hagain
      rw [List.append_nil]
      exact (ackedByte_went _).behind _
  · exact h.went

theorem sentBytes_not_fails (buf : Nat → BitVec 8) (count bytes : Nat) :
    ¬ Fails (sentBytes buf count bytes) := by
  induction count generalizing bytes with
  | zero => exact not_fails_of_quiet rfl
  | succ count ih =>
    exact not_fails_append (ackedByte_went _).not_fails (ih _)

theorem answer_not_fails (noReadAck more : Bool) : ¬ Fails (answer noReadAck more) := by
  cases noReadAck with
  | true => exact not_fails_of_quiet rfl
  | false =>
    have hmoved : movedOf (answer false more) = [.answered more rtEok] := by simp [answer]
    exact (lastMoved_of_moved hmoved (rfl : rtEok = rtEok) : LastMoved Moved.Went _).not_fails

theorem receivedBytes_not_fails (noReadAck : Bool) (bytes : Nat) (data : List (BitVec 8)) :
    ¬ Fails (receivedBytes noReadAck bytes data) := by
  induction data generalizing bytes with
  | nil => exact not_fails_of_quiet rfl
  | cons v data ih =>
    have hmoved : movedOf (readOn v ++ [.moved (.read v.toNat), .stored bytes v]) =
        [.read v.toNat] := by simp
    have hread : LastMoved Moved.Went _ := lastMoved_of_moved hmoved (Int.natCast_nonneg v.toNat)
    exact not_fails_append (not_fails_append hread.not_fails (answer_not_fails _ _)) (ih _)

theorem DataMoved.not_fails {count : Nat} (h : DataMoved msg count l) : ¬ Fails l := by
  unfold DataMoved at h
  split at h
  · obtain ⟨data, -, rfl⟩ := h
    exact receivedBytes_not_fails _ _ _
  · subst h
    exact sentBytes_not_fails _ _ _

theorem Then.went {P : List Event → Prop} (h : Then P l)
    (hp : ∀ m, P m → LastMoved Moved.Went m) : LastMoved Moved.Went l := by
  obtain ⟨pre, post, rfl, -, hpost⟩ := h
  exact (hp post hpost).behind pre

theorem AllThrough.not_fails {msgs : List Msg} (h : AllThrough msgs l) : ¬ Fails l := by
  induction msgs generalizing l with
  | nil =>
    subst h
    exact not_fails_of_quiet rfl
  | cons msg msgs ih =>
    obtain ⟨address, data, more, rfl, haddress, hdata, hmore⟩ := h
    have hsent := haddress.went fun _ => AddressSent.went
    exact not_fails_append (not_fails_append hsent.not_fails hdata.not_fails) (ih hmore)

/-- There is no message without a byte of an address. -/
theorem AllThrough.moved_ne_nil {msgs : List Msg} (h : AllThrough (msg :: msgs) l) :
    movedOf l ≠ [] := by
  obtain ⟨address, data, more, rfl, haddress, -, -⟩ := h
  have hsent := (haddress.went fun _ => AddressSent.went).ne_nil
  simp [hsent]

/-- The conditions of the bus before and after the bytes are not bytes. -/
theorem Through.not_fails {P : List Event → Prop} (h : Through P l)
    (hp : ∀ body, P body → ¬ Fails body) : ¬ Fails l := by
  obtain ⟨pre, body, post, rfl, hpre, hpost, hbody⟩ := h
  exact not_fails_append (not_fails_append (not_fails_of_quiet hpre) (hp body hbody))
    (not_fails_of_quiet hpost)

end Failing

/-! ## The functions for messages -/

/-- The slave lets a byte fail at some time. -/
def Slave.Hinders (slave : Slave) : Prop := slave.Stretching ∨ slave.Refusing

/-- What a call adds that ends with a byte that does not go through. -/
def CutOff (slave : Slave) (l : List Event) : Prop := slave.Hinders ∧ Fails l

theorem CutOff.behind {slave : Slave} {m : List Event} (h : CutOff slave m) (l : List Event) :
    CutOff slave (l ++ m) := ⟨h.1, LastMoved.behind h.2 l⟩

section Messages

variable {slave : Slave} {msg : Msg} {busRetries : BitVec 32}

theorem movedOf_i2cStop :
    Adds (i2cStop slave) fun _ l => movedOf l = [] := by
  refine adds_i2cStop.mono fun _ l h => ?_
  obtain rfl | ⟨-, rfl⟩ := h
  · rfl
  · rfl

theorem movedOf_i2cRestart :
    Adds (i2cRestart slave) fun _ l => movedOf l = [] := by
  refine adds_i2cRestart.mono fun _ l h => ?_
  obtain rfl | ⟨-, hmoved⟩ := h
  · rfl
  · exact hmoved

theorem adds_ackedByte (data : BitVec 8) :
    Adds (i2cWriteb slave data) fun ret l =>
      ret = 1 ∧ l = ackedByte data ∨
        (ret = 0 ∨ ret = -rtEtimeout) ∧ slave.Hinders ∧ movedOf l = [.written data ret] := by
  refine (adds_i2cWriteb data).mono fun ret l h => ?_
  obtain ⟨ack, rfl, hrefusing, rfl⟩ | ⟨rfl, hstretch, hmoved⟩ := h
  · cases ack with
    | true => exact .inl ⟨rfl, rfl⟩
    | false => exact .inr ⟨.inl rfl, .inr (hrefusing rfl), by simp⟩
  · exact .inr ⟨.inr rfl, .inl hstretch, hmoved⟩

/-- A byte that is refused or cut short. -/
theorem not_acked {ret : Int} (h : ret = 0 ∨ ret = -rtEtimeout) : ret ≤ 0 ∧ ret ≠ 1 := by
  obtain rfl | rfl := h
  · decide
  · decide

theorem adds_i2cSendAddressLoop (addr : BitVec 8) (n : Nat) :
    Adds (i2cSendAddressLoop slave addr n) fun ret l =>
      ret = 1 ∧ Addressed addr l ∨ ret ≠ 1 ∧ CutOff slave l := by
  induction n with
  | zero =>
    refine (adds_ackedByte addr).mono fun ret l h => ?_
    obtain ⟨hret, rfl⟩ | ⟨hret, hhinders, hmoved⟩ := h
    · exact .inl ⟨hret, .accepted⟩
    · exact .inr ⟨(not_acked hret).2, hhinders, lastMoved_of_moved hmoved (not_acked hret).2⟩
  | succ n ih =>
    refine (adds_ackedByte addr).bind fun ret l h => ?_
    obtain ⟨rfl, rfl⟩ | ⟨hret, hhinders, hmoved⟩ := h
    · exact adds_pure (.inl ⟨rfl, by simpa using Addressed.accepted⟩)
    · rw [if_neg (not_acked hret).2]
      refine movedOf_i2cStop.bind fun _ stop hstop => Adds.bind (adds_i2cStart rfl) fun _ start
        (hstart : start = [.line (.sda false), .line (.scl false)]) => ih.mono fun ret' m h => ?_
      subst hstart
      have hbefore : movedOf (l ++ (stop ++ [.line (.sda false), .line (.scl false)])) =
          [.written addr ret] := by simp [hmoved, hstop]
      rw [← List.append_assoc, ← List.append_assoc, List.append_assoc l]
      obtain ⟨hret', haddressed⟩ | ⟨hret', hcut⟩ := h
      · exact .inl ⟨hret', .retried hbefore (not_acked hret).2 haddressed⟩
      · exact .inr ⟨hret', hcut.behind _⟩

theorem adds_i2cSendAddress (addr : BitVec 8) {retries : Int} (hretries : 0 ≤ retries) :
    Adds (i2cSendAddress slave addr retries) fun ret l =>
      ret = 1 ∧ Addressed addr l ∨ ret ≠ 1 ∧ CutOff slave l := by
  rw [i2cSendAddress, if_pos hretries]
  exact adds_i2cSendAddressLoop addr _

/-- What comes behind a byte of an address. -/
theorem address_bind {f g : OnBus Int} {P : List Event → Prop} {Q : Int → List Event → Prop}
    (hnack : msg.ignoreNack = false)
    (hf : Adds f fun ret l => ret = 1 ∧ P l ∨ ret ≠ 1 ∧ CutOff slave l)
    (hgood : ∀ l, P l → Adds g fun b m => Q b (l ++ m))
    (hbad : ∀ l, CutOff slave l → Q (-rtEio) l) :
    Adds (f >>= fun ret => if ret ≠ 1 ∧ ¬ msg.ignoreNack then pure (-rtEio) else g) Q := by
  refine hf.bind fun ret l h => ?_
  obtain ⟨rfl, hp⟩ | ⟨hret, hcut⟩ := h
  · simpa using hgood l hp
  · rw [if_pos ⟨hret, by simp [hnack]⟩]
    exact adds_pure (by simpa using hbad l hcut)

/-- All bytes of the address of a message go through, or one does not and nothing follows. -/
theorem adds_i2cBitSendAddress (hnack : msg.ignoreNack = false) (hretries : 0 ≤ busRetries.toInt) :
    Adds (i2cBitSendAddress slave busRetries msg) fun ret l =>
      ret = rtEok ∧ AddressSent msg l ∨ ret = -rtEio ∧ CutOff slave l := by
  have hall : 0 ≤ retriesOf busRetries msg := by simpa [retriesOf, hnack] using hretries
  by_cases h10 : msg.addr10bit = true
  case pos =>
    rw [i2cBitSendAddress, if_pos h10]
    refine address_bind hnack (adds_i2cSendAddress (addr1 msg) hall) (fun first hfirst => ?_)
      fun l hcut => .inr ⟨rfl, hcut⟩
    have hsecond : Adds (i2cWriteb slave (addr2 msg)) fun ret l =>
        ret = 1 ∧ l = ackedByte (addr2 msg) ∨ ret ≠ 1 ∧ CutOff slave l := by
      refine (adds_ackedByte (addr2 msg)).mono fun ret l h => ?_
      obtain h | ⟨hret, hhinders, hmoved⟩ := h
      · exact .inl h
      · exact .inr ⟨(not_acked hret).2, hhinders, lastMoved_of_moved hmoved (not_acked hret).2⟩
    refine address_bind hnack hsecond (fun second hsecond => ?_)
      fun l hcut => .inr ⟨rfl, hcut.behind first⟩
    subst hsecond
    by_cases hrd : msg.rd = true
    · rw [if_pos hrd]
      refine movedOf_i2cRestart.bind fun _ restart hrestart => address_bind hnack
        (adds_i2cSendAddress (addr1 msg ||| 0x01) hall) (fun again hagain => adds_pure ?_)
        fun l hcut => ?_
      · refine .inl ⟨rfl, ?_⟩
        rw [AddressSent, if_pos h10]
        refine ⟨first, restart ++ again, by simp, hfirst, ?_⟩
        rw [AddressRepeated, if_pos hrd]
        exact ⟨restart, again, rfl, hrestart, hagain⟩
      · exact .inr ⟨rfl, ((hcut.behind _).behind _).behind _⟩
    · rw [if_neg hrd]
      refine adds_pure (.inl ⟨rfl, ?_⟩)
      rw [AddressSent, if_pos h10]
      refine ⟨first, [], by simp, hfirst, ?_⟩
      rw [AddressRepeated, if_neg hrd]
  case neg =>
    rw [i2cBitSendAddress, if_neg h10]
    refine address_bind hnack (adds_i2cSendAddress (addr7 msg) hall)
      (fun l haddressed => adds_pure (.inl ⟨rfl, ?_⟩)) fun l hcut => .inr ⟨rfl, hcut⟩
    rw [List.append_nil, AddressSent, if_neg h10]
    exact haddressed

/-- All bytes are acknowledged, or one is not and nothing follows. -/
theorem adds_i2cSendBytesLoop (hnack : msg.ignoreNack = false) (count bytes : Nat) :
    Adds (i2cSendBytesLoop slave msg count bytes) fun ret l =>
      ret = ((bytes + count : Nat) : Int) ∧ l = sentBytes msg.buf count bytes ∨
        (ret = 0 ∨ ret = -rtEtimeout) ∧ 0 < count ∧ CutOff slave l := by
  induction count generalizing bytes with
  | zero => exact adds_pure (.inl ⟨rfl, rfl⟩)
  | succ count ih =>
    refine (adds_ackedByte (msg.buf bytes)).bind fun ret l h => ?_
    obtain ⟨rfl, rfl⟩ | ⟨hret, hhinders, hmoved⟩ := h
    · rw [if_pos (.inl (by decide))]
      refine (ih (bytes + 1)).mono fun ret m h => ?_
      obtain ⟨rfl, rfl⟩ | ⟨hret, -, hcut⟩ := h
      · refine .inl ⟨?_, rfl⟩
        rw [Nat.add_right_comm, Nat.add_assoc]
      · exact .inr ⟨hret, count.succ_pos, hcut.behind _⟩
    · have hfails : CutOff slave l := ⟨hhinders, lastMoved_of_moved hmoved (not_acked hret).2⟩
      have hle := (not_acked hret).1
      rw [if_neg (by simp [hnack, hle])]
      obtain rfl | rfl := hret
      · exact adds_pure (.inr ⟨.inl rfl, count.succ_pos, by simpa using hfails⟩)
      · exact adds_pure (.inr ⟨.inr rfl, count.succ_pos, by simpa using hfails⟩)

/-- The driver answers each byte that it has read, if it is to. -/
theorem adds_answer (more : Bool) :
    Adds (if msg.noReadAck then pure rtEok else i2cSendAckOrNack slave more) fun ret l =>
      ret = rtEok ∧ l = answer msg.noReadAck more ∨ ret = -rtEtimeout ∧ CutOff slave l := by
  cases hnone : msg.noReadAck with
  | true => exact adds_pure (.inl ⟨rfl, rfl⟩)
  | false =>
    refine (adds_i2cSendAckOrNack more).mono fun ret l h => ?_
    obtain ⟨rfl, rfl⟩ | ⟨rfl, hstretch, hmoved⟩ := h
    · exact .inl ⟨rfl, rfl⟩
    · have hnot : ¬ -rtEtimeout = rtEok := by decide
      exact .inr ⟨rfl, .inl hstretch, lastMoved_of_moved hmoved hnot⟩

/-- A byte that is read, stored and answered, and then more. -/
theorem receivedBytes_cons (noReadAck : Bool) (bytes : Nat) (v : BitVec 8)
    (data : List (BitVec 8)) :
    receivedBytes noReadAck bytes (v :: data) =
      (readOn v ++ [.moved (.read v.toNat)]) ++ .stored bytes (BitVec.ofInt 8 v.toNat) ::
        (answer noReadAck (decide (data.length ≠ 0)) ++
          receivedBytes noReadAck (bytes + 1) data) := by
  have hmore : (!data.isEmpty) = decide (data.length ≠ 0) := by
    cases data with
    | nil => rfl
    | cons v data => rfl
  simp [receivedBytes, hmore]

/-- All bytes are read, or one is not and nothing follows. -/
theorem adds_i2cRecvBytesLoop (count bytes : Nat) :
    Adds (i2cRecvBytesLoop slave msg count bytes) fun ret l =>
      (∃ data, data.length = count ∧ ret = ((bytes + count : Nat) : Int) ∧
          l = receivedBytes msg.noReadAck bytes data) ∨
        (0 ≤ ret ∨ ret = -rtEtimeout) ∧ ret < ((bytes + count : Nat) : Int) ∧ CutOff slave l := by
  induction count generalizing bytes with
  | zero => exact adds_pure (.inl ⟨[], rfl, rfl, rfl⟩)
  | succ count ih =>
    refine adds_i2cReadb.bind fun ret l h => ?_
    obtain ⟨data, rfl, rfl⟩ | ⟨rfl, hstretch, hmoved⟩ := h
    · rw [if_pos (Int.natCast_nonneg _)]
      refine emit_bind ((adds_answer (count ≠ 0)).bind fun val answered h => ?_)
      obtain ⟨rfl, rfl⟩ | ⟨rfl, hcut⟩ := h
      · refine (ih (bytes + 1)).mono fun ret m h => ?_
        obtain ⟨more, hlength, rfl, rfl⟩ | ⟨hret, hlt, hcut⟩ := h
        · refine .inl ⟨data :: more, by rw [List.length_cons, hlength], by omega, ?_⟩
          rw [receivedBytes_cons, hlength]
        · exact .inr ⟨hret, by omega, ((hcut.behind _).behind [_]).behind _⟩
      · refine adds_pure (.inr ⟨.inr rfl, by simp only [rtEtimeout]; omega, ?_⟩)
        rw [List.append_nil]
        exact (hcut.behind [_]).behind _
    · rw [if_neg (by decide)]
      refine adds_pure (.inr ⟨.inl (Int.natCast_nonneg _), by omega, ?_⟩)
      rw [List.append_nil]
      have hnot : ¬ 0 ≤ -rtEtimeout := by decide
      exact ⟨.inl hstretch, lastMoved_of_moved hmoved hnot⟩

end Messages

/-! ## Transfers -/

section Transfers

variable {slave : Slave} {msg : Msg} {msgs : List Msg} {busRetries : BitVec 32}

/-- A message that the driver addresses, and for which it minds a byte that is refused. -/
def Plain (msg : Msg) : Prop := msg.noStart = false ∧ msg.ignoreNack = false

/-- An error that the transfer of messages returns. -/
def IsError (ret : Int) : Prop := ret = -rtError ∨ ret = -rtEtimeout ∨ ret = -rtEio

theorem IsError.neg {ret : Int} (h : IsError ret) : ret < 0 := by
  obtain rfl | rfl | rfl := h
  · decide
  · decide
  · decide

theorem adds_i2cBitXferAddress (hplain : Plain msg) (hretries : 0 ≤ busRetries.toInt) (i : Nat) :
    Adds (i2cBitXferAddress slave busRetries i msg) fun ret l =>
      ret = rtEok ∧ Then (AddressSent msg) l ∨ ret = -rtEio ∧ CutOff slave l := by
  have haddress := @adds_i2cBitSendAddress slave msg busRetries hplain.2 hretries
  rw [i2cBitXferAddress, if_neg (by simp [hplain.1])]
  cases i with
  | zero =>
    refine haddress.mono fun ret l h => ?_
    obtain ⟨hret, hsent⟩ | hcut := h
    · exact .inl ⟨hret, [], l, rfl, rfl, hsent⟩
    · exact .inr hcut
  | succ i =>
    refine movedOf_i2cRestart.bind fun _ restart hrestart => haddress.mono fun ret l h => ?_
    obtain ⟨hret, hsent⟩ | ⟨hret, hcut⟩ := h
    · exact .inl ⟨hret, restart, l, rfl, hrestart, hsent⟩
    · exact .inr ⟨hret, hcut.behind _⟩

/-- All data of a message is moved, or the length says that it is not. -/
def DataEnds (slave : Slave) (msg : Msg) (ret : Int) (l : List Event) : Prop :=
  ret = msg.len.toNat ∧ DataMoved msg msg.len.toNat l ∨
    ret < msg.len.toNat ∧ (0 ≤ ret ∨ ret = -rtEtimeout) ∧ CutOff slave l

theorem adds_i2cRecvBytes (hrd : msg.rd = true) :
    Adds (i2cRecvBytes slave msg) (DataEnds slave msg) := by
  refine (adds_i2cRecvBytesLoop msg.len.toNat 0).mono fun ret l h => ?_
  obtain ⟨data, hlength, hret, hl⟩ | ⟨hret, hlt, hcut⟩ := h
  · refine .inl ⟨by simpa using hret, ?_⟩
    rw [DataMoved, if_pos hrd]
    exact ⟨data, hlength, hl⟩
  · exact .inr ⟨by simpa using hlt, hret, hcut⟩

theorem adds_i2cSendBytes (hrd : ¬ msg.rd = true) (hnack : msg.ignoreNack = false) :
    Adds (i2cSendBytes slave msg) (DataEnds slave msg) := by
  refine (adds_i2cSendBytesLoop hnack msg.len.toNat 0).mono fun ret l h => ?_
  obtain ⟨hret, hl⟩ | ⟨hret, hpos, hcut⟩ := h
  · refine .inl ⟨by simpa using hret, ?_⟩
    rw [DataMoved, if_neg hrd]
    exact hl
  · have hle := (not_acked hret).1
    refine .inr ⟨by omega, ?_, hcut⟩
    obtain rfl | rfl := hret
    · exact .inl (Int.le_refl 0)
    · exact .inr rfl

/-- What comes behind the data of a message. -/
theorem data_bind {f g : OnBus Int} {Q : Int → List Event → Prop} {error : Int}
    (hf : Adds f (DataEnds slave msg)) (herror : IsError (-error))
    (hgood : ∀ l, DataMoved msg msg.len.toNat l → Adds g fun b m => Q b (l ++ m))
    (hbad : ∀ ret l, IsError ret → CutOff slave l → Q ret l) :
    Adds (f >>= fun ret =>
      if ret < msg.len.toNat then pure (if 0 ≤ ret then -error else ret) else g) Q := by
  refine hf.bind fun ret l h => ?_
  obtain ⟨rfl, hmoved⟩ | ⟨hlt, hret, hcut⟩ := h
  · rw [if_neg (Int.lt_irrefl _)]
    exact hgood l hmoved
  · rw [if_pos hlt]
    refine adds_pure ?_
    rw [List.append_nil]
    obtain hzero | rfl := hret
    · rw [if_pos hzero]
      exact hbad _ l herror hcut
    · rw [if_neg (by decide)]
      exact hbad _ l (.inr (.inl rfl)) hcut

/-- All messages go through, or the transfer ends with a byte that does not. -/
theorem adds_i2cBitXferLoop (hplain : ∀ msg ∈ msgs, Plain msg) (hretries : 0 ≤ busRetries.toInt)
    (i : Nat) :
    Adds (i2cBitXferLoop slave busRetries i msgs) fun ret l =>
      ret = ((i + msgs.length : Nat) : Int) ∧ AllThrough msgs l ∨ IsError ret ∧ CutOff slave l := by
  induction msgs generalizing i with
  | nil => exact adds_pure (.inl ⟨rfl, rfl⟩)
  | cons msg msgs ih =>
    have hfirst := hplain msg (.head _)
    refine (adds_i2cBitXferAddress hfirst hretries i).bind fun ret address h => ?_
    obtain ⟨rfl, haddress⟩ | ⟨rfl, hcut⟩ := h
    · rw [if_neg (by simp)]
      have hrest : ∀ data, DataMoved msg msg.len.toNat data →
          Adds (i2cBitXferLoop slave busRetries (i + 1) msgs) fun ret l =>
            ret = ((i + (msg :: msgs).length : Nat) : Int) ∧
                AllThrough (msg :: msgs) (address ++ (data ++ l)) ∨
              IsError ret ∧ CutOff slave (address ++ (data ++ l)) := by
        intro data hdata
        refine (ih (fun m hm => hplain m (.tail _ hm)) (i + 1)).mono fun ret l h => ?_
        obtain ⟨rfl, hmore⟩ | ⟨hret, hcut⟩ := h
        · refine .inl ⟨?_, address, data, l, by simp, haddress, hdata, hmore⟩
          rw [List.length_cons, Nat.add_right_comm, Nat.add_assoc]
        · exact .inr ⟨hret, (hcut.behind _).behind _⟩
      have hbad : ∀ ret l, IsError ret → CutOff slave l →
          ret = ((i + (msg :: msgs).length : Nat) : Int) ∧
              AllThrough (msg :: msgs) (address ++ l) ∨
            IsError ret ∧ CutOff slave (address ++ l) :=
        fun ret l hret hcut => .inr ⟨hret, hcut.behind _⟩
      by_cases hrd : msg.rd = true
      · rw [if_pos hrd]
        exact data_bind (adds_i2cRecvBytes hrd) (.inr (.inr rfl)) hrest hbad
      · rw [if_neg hrd]
        exact data_bind (adds_i2cSendBytes hrd hfirst.2) (.inl rfl) hrest hbad
    · rw [if_pos ⟨by decide, by simp [hfirst.2]⟩]
      refine adds_pure (.inr ⟨.inr (.inr rfl), ?_⟩)
      rw [List.append_nil]
      exact hcut

/-- With a negative number of retries, no address is sent. -/
theorem adds_i2cBitSendAddress_none (hnack : msg.ignoreNack = false)
    (hretries : busRetries.toInt < 0) :
    Adds (i2cBitSendAddress slave busRetries msg) fun ret l => ret = -rtEio ∧ l = [] := by
  have hnone : ∀ addr, i2cSendAddress slave addr (retriesOf busRetries msg) = pure 0 := by
    intro addr
    rw [i2cSendAddress, retriesOf, if_neg (by simpa [hnack] using hretries)]
  rw [i2cBitSendAddress]
  split
  case isTrue =>
    rw [hnone, pure_bind, if_pos ⟨by decide, by simp [hnack]⟩]
    exact adds_pure ⟨rfl, rfl⟩
  case isFalse =>
    rw [hnone, pure_bind, if_pos ⟨by decide, by simp [hnack]⟩]
    exact adds_pure ⟨rfl, rfl⟩

theorem adds_i2cBitXferLoop_none (hplain : Plain msg) (hretries : busRetries.toInt < 0) :
    Adds (i2cBitXferLoop slave busRetries 0 (msg :: msgs)) fun ret l => ret = -rtEio ∧ l = [] := by
  have haddress : Adds (i2cBitXferAddress slave busRetries 0 msg) fun ret l =>
      ret = -rtEio ∧ l = [] := by
    rw [i2cBitXferAddress, if_neg (by simp [hplain.1])]
    exact adds_i2cBitSendAddress_none hplain.2 hretries
  refine haddress.bind fun ret l h => ?_
  obtain ⟨rfl, rfl⟩ := h
  rw [if_pos ⟨by decide, by simp [hplain.2]⟩]
  exact adds_pure ⟨rfl, rfl⟩

/-- The slave, or the number of retries, keeps a transfer from going through. -/
def Hindered (slave : Slave) (busRetries : BitVec 32) : Prop :=
  slave.Hinders ∨ busRetries.toInt < 0

/-- The last byte has not gone through, or there is none although there are messages. -/
def Blocked (msgs : List Msg) (l : List Event) : Prop := Fails l ∨ movedOf l = [] ∧ msgs ≠ []

theorem Blocked.congr {l m : List Event} (h : Blocked msgs l) (hmoved : movedOf m = movedOf l) :
    Blocked msgs m := by
  unfold Blocked Fails LastMoved at *
  rwa [hmoved]

theorem Through.moved_eq {P : List Event → Prop} {l : List Event} (h : Through P l) :
    ∃ body, movedOf l = movedOf body ∧ P body := by
  obtain ⟨pre, body, post, rfl, hpre, hpost, hbody⟩ := h
  exact ⟨body, by simp [hpre, hpost], hbody⟩

theorem Blocked.not_through {l : List Event} (h : Blocked msgs l) :
    ¬ Through (AllThrough msgs) l := by
  intro hthrough
  obtain ⟨body, hmoved, hbody⟩ := hthrough.moved_eq
  obtain hfails | ⟨hnone, hmsgs⟩ := h.congr hmoved.symm
  · exact hbody.not_fails hfails
  · cases msgs with
    | nil => exact hmsgs rfl
    | cons msg msgs => exact hbody.moved_ne_nil hnone

/-- What the loop of a transfer returns, and whether all bytes have gone through. -/
theorem adds_i2cBitXferLoop_plain (hplain : ∀ msg ∈ msgs, Plain msg) :
    Adds (i2cBitXferLoop slave busRetries 0 msgs) fun ret l =>
      ret = msgs.length ∧ (msgs ≠ [] → 0 ≤ busRetries.toInt) ∧ AllThrough msgs l ∨
        IsError ret ∧ Hindered slave busRetries ∧ Blocked msgs l := by
  by_cases hretries : 0 ≤ busRetries.toInt
  · refine (adds_i2cBitXferLoop hplain hretries 0).mono fun ret l h => ?_
    obtain ⟨hret, hall⟩ | ⟨hret, hcut⟩ := h
    · exact .inl ⟨by simpa using hret, fun _ => hretries, hall⟩
    · exact .inr ⟨hret, .inl hcut.1, .inl hcut.2⟩
  · have hneg : busRetries.toInt < 0 := Int.lt_of_not_ge hretries
    cases msgs with
    | nil => exact adds_pure (.inl ⟨rfl, fun hne => absurd rfl hne, rfl⟩)
    | cons msg msgs =>
      refine (adds_i2cBitXferLoop_none (hplain msg (.head _)) hneg).mono fun ret l h => ?_
      obtain ⟨rfl, rfl⟩ := h
      exact .inr ⟨.inr (.inr rfl), .inr hneg, .inr ⟨rfl, by simp⟩⟩

theorem adds_i2cBitXfer (hplain : ∀ msg ∈ msgs, Plain msg) :
    Adds (i2cBitXfer slave busRetries msgs) fun ret l =>
      ret = msgs.length ∧ (msgs ≠ [] → 0 ≤ busRetries.toInt) ∧ Through (AllThrough msgs) l ∨
        IsError ret ∧ Hindered slave busRetries ∧ ¬ Through (AllThrough msgs) l := by
  refine Adds.bind (adds_i2cStart rfl) fun _ start
    (hstart : start = [.line (.sda false), .line (.scl false)]) => ?_
  subst hstart
  refine (adds_i2cBitXferLoop_plain hplain).bind fun ret body h => ?_
  refine movedOf_i2cStop.bind fun _ stop hstop => adds_pure ?_
  obtain ⟨rfl, hretries, hall⟩ | ⟨hret, hhindered, hblocked⟩ := h
  · exact .inl ⟨rfl, hretries, [.line (.sda false), .line (.scl false)], body, stop, by simp, rfl,
      hstop, hall⟩
  · exact .inr ⟨hret, hhindered, (hblocked.congr (by simp [hstop])).not_through⟩

/-- The last thing that a transfer does is to drive a stop condition. -/
theorem i2cBitXfer_endsWithStop (msgs : List Msg) (w : List Event) :
    EndsWithStop ((i2cBitXfer slave busRetries msgs).run w).2 := by
  obtain ⟨stop, hstop, hcalls⟩ := @adds_i2cStop slave
    ((i2cBitXferLoop slave busRetries 0 msgs).run (i2cStart.run w).2).2
  have hrun : ((i2cBitXfer slave busRetries msgs).run w).2 = _ := hstop
  rw [hrun, EndsWithStop, callsOf_append]
  refine List.IsSuffix.trans ?_ (List.suffix_append _ _)
  obtain rfl | ⟨-, rfl⟩ := hcalls
  · exact List.suffix_refl _
  · exact List.suffix_refl _

/-! ## Sends and receives -/

variable {addr flags : BitVec 16} {buf : Nat → BitVec 8} {count : BitVec 32}

theorem sendMsg_plain : Plain (sendMsg addr flags buf count) := by
  constructor
  · simp [Msg.noStart, sendMsg, rtI2cAddr10bit, rtI2cNoStart, BitVec.and_assoc]
  · simp [Msg.ignoreNack, sendMsg, rtI2cAddr10bit, rtI2cIgnoreNack, BitVec.and_assoc]

theorem recvMsg_plain : Plain (recvMsg addr flags buf count) := by
  constructor
  · simp [Msg.noStart, recvMsg, rtI2cAddr10bit, rtI2cNoStart, rtI2cRd,
      BitVec.and_or_distrib_right, BitVec.and_assoc]
  · simp [Msg.ignoreNack, recvMsg, rtI2cAddr10bit, rtI2cIgnoreNack, rtI2cRd,
      BitVec.and_or_distrib_right, BitVec.and_assoc]

theorem IsError.mem {ret : Int} (h : IsError ret) : BitVec.ofInt 32 ret ∈ i2cErrors := by
  obtain rfl | rfl | rfl := h
  · decide
  · decide
  · decide

theorem i2cErrors_neg {ret : BitVec 32} (h : ret ∈ i2cErrors) : ¬ 0 < ret.toInt := by
  revert h
  simp only [i2cErrors, List.map_cons, List.map_nil, List.mem_cons, List.not_mem_nil, or_false]
  rintro (rfl | rfl | rfl)
  · decide
  · decide
  · decide

/-- A transfer of one message goes through, or it returns an error. -/
theorem adds_transferOne (hplain : Plain msg) :
    Adds (transferOne slave busRetries msg count) fun ret l =>
      ret = count ∧ 0 ≤ busRetries.toInt ∧ Through (AllThrough [msg]) l ∨
        ret ∈ i2cErrors ∧ Hindered slave busRetries := by
  have hall : ∀ m ∈ [msg], Plain m := by simpa using hplain
  refine (adds_i2cBitXfer hall).bind fun ret l h => adds_pure ?_
  rw [List.append_nil]
  obtain ⟨rfl, hretries, hthrough⟩ | ⟨hret, hhindered, -⟩ := h
  · exact .inl ⟨rfl, hretries (by simp), hthrough⟩
  · rw [if_neg (Int.not_lt.mpr (Int.le_of_lt hret.neg))]
    exact .inr ⟨hret.mem, hhindered⟩

/-- A message that has gone through, with the length that it has. -/
theorem through_one {l : List Event} (h : Through (AllThrough [msg]) l) :
    Through (fun body => ∃ address data, body = address ++ data ∧ AddressSent msg address ∧
      DataMoved msg msg.len.toNat data) l := by
  obtain ⟨pre, body, post, rfl, hpre, hpost, hbody⟩ := h
  obtain ⟨address, data, more, rfl, ⟨quiet, sent, rfl, hquiet, hsent⟩, hdata, hmore⟩ := hbody
  subst hmore
  exact ⟨pre ++ quiet, sent ++ data, post, by simp, by simp [hpre, hquiet], hpost, sent, data, rfl,
    hsent, hdata⟩

/-! ## The number of bytes that have gone through -/

/-- Bytes of the data of a message, and acknowledged bytes of its address. -/
def counted (rd : Bool) : Moved → Bool
  | .written _ ret => !rd && decide (ret = 1)
  | .read _ => rd
  | .answered _ _ => false

/-- The number of bytes of an address that count. -/
def addressCount (msg : Msg) : Nat := if msg.rd then 0 else if msg.addr10bit then 2 else 1

theorem Addressed.countP {a : BitVec 8} {l : List Event} (h : Addressed a l) (rd : Bool) :
    (movedOf l).countP (counted rd) = if rd then 0 else 1 := by
  induction h with
  | accepted => cases rd <;> simp [counted]
  | retried hmoved hret _ ih => simp [hmoved, counted, hret, ih]

theorem AddressSent.countP {l : List Event} (h : AddressSent msg l) :
    (movedOf l).countP (counted msg.rd) = addressCount msg := by
  unfold AddressSent at h
  unfold addressCount
  split at h
  case isTrue h10 =>
    obtain ⟨first, again, rfl, hfirst, hagain⟩ := h
    unfold AddressRepeated at hagain
    split at hagain
    case isTrue hrd =>
      obtain ⟨pre, post, rfl, hpre, hpost⟩ := hagain
      simp [hfirst.countP, hpost.countP, hpre, hrd, counted]
    case isFalse hrd =>
      subst hagain
      simp [hfirst.countP, hrd, h10, counted]
  case isFalse h7 =>
    rw [h.countP, if_neg h7]

theorem countP_sentBytes (n bytes : Nat) :
    (movedOf (sentBytes buf n bytes)).countP (counted false) = n := by
  induction n generalizing bytes with
  | zero => rfl
  | succ n ih => simp [sentBytes, ih, counted]

theorem countP_receivedBytes (noReadAck : Bool) (bytes : Nat) (data : List (BitVec 8)) :
    (movedOf (receivedBytes noReadAck bytes data)).countP (counted true) = data.length := by
  induction data generalizing bytes with
  | nil => rfl
  | cons v data ih =>
    have hanswer : (movedOf (answer noReadAck (!data.isEmpty))).countP (counted true) = 0 := by
      cases noReadAck with
      | true => rfl
      | false => simp [answer, counted]
    have hread : [Moved.read v.toNat].countP (counted true) = 1 := rfl
    simp only [receivedBytes, movedOf_append, movedOf_readOn, movedOf_moved, movedOf_stored,
      movedOf_nil, List.nil_append, List.countP_append, hanswer, hread, ih, List.length_cons]
    omega

theorem DataMoved.countP {n : Nat} {l : List Event} (h : DataMoved msg n l) :
    (movedOf l).countP (counted msg.rd) = n := by
  unfold DataMoved at h
  split at h
  case isTrue hrd =>
    obtain ⟨data, rfl, rfl⟩ := h
    rw [hrd]
    exact countP_receivedBytes _ _ _
  case isFalse hrd =>
    subst h
    rw [Bool.eq_false_iff.mpr hrd]
    exact countP_sentBytes _ _

/-- The transcript of a message says how many bytes of its data have gone through. -/
theorem through_countP {n : Nat} {l : List Event}
    (h : Through (fun body => ∃ address data, body = address ++ data ∧ AddressSent msg address ∧
      DataMoved msg n data) l) :
    (movedOf l).countP (counted msg.rd) = addressCount msg + n := by
  obtain ⟨body, hmoved, address, data, rfl, haddress, hdata⟩ := h.moved_eq
  rw [hmoved, movedOf_append, List.countP_append, haddress.countP, hdata.countP]

/-! ## When the number that is returned is right -/

/-- The length fits into a message; or no address is ever sent; or the length reads as an error. -/
def CountFits (busRetries count : BitVec 32) : Prop :=
  count.toNat < 2 ^ 16 ∨ busRetries.toInt < 0 ∨ count ∈ i2cErrors

theorem CountFits.right (h : CountFits busRetries count) (hplain : Plain msg)
    (hlen : msg.len = count.setWidth 16) :
    Adds (transferOne slave busRetries msg count) (CountRight msg count) := by
  refine (adds_transferOne hplain).mono fun ret l hret => ?_
  have herror : ret ∈ i2cErrors → CountRight msg count ret l := fun hmem =>
    ⟨fun hpos => absurd hpos (i2cErrors_neg hmem), fun _ => .inr hmem⟩
  obtain ⟨rfl, hretries, hthrough⟩ | ⟨hmem, -⟩ := hret
  · obtain hsmall | hneg | hmem := h
    · have hsame : msg.len.toNat = ret.toNat := by
        rw [hlen, BitVec.toNat_setWidth, Nat.mod_eq_of_lt hsmall]
      have hint : ret.toInt = ret.toNat := BitVec.toInt_eq_toNat_of_lt (by omega)
      refine ⟨fun _ => ⟨rfl, ?_⟩, fun hnot => .inl (BitVec.eq_of_toNat_eq ?_)⟩
      · rw [← hsame]
        exact through_one hthrough
      · have hzero : (0 : BitVec 32).toNat = 0 := rfl
        omega
    · exact absurd hretries (Int.not_le.mpr hneg)
    · exact herror hmem
  · exact herror hmem

theorem not_hinders_obliging : ¬ obliging.Hinders := by
  rintro (⟨w, hstretch⟩ | ⟨w, hlevel⟩)
  · exact Bool.false_ne_true hstretch
  · exact Bool.false_ne_true hlevel

/-- Where the length does not fit, an obliging slave gets less than what is returned. -/
theorem countFits_of_right (hplain : Plain msg) (hlen : msg.len = count.setWidth 16)
    (h : Adds (transferOne obliging busRetries msg count) (CountRight msg count)) :
    CountFits busRetries count := by
  by_contra hfits
  obtain ⟨hlarge, hretries, hmem⟩ : ¬ count.toNat < 2 ^ 16 ∧ ¬ busRetries.toInt < 0 ∧
      count ∉ i2cErrors := by simpa only [CountFits, not_or] using hfits
  obtain ⟨l, hl, hright⟩ := h []
  obtain ⟨l', hl', hrun⟩ := @adds_transferOne obliging msg busRetries count hplain []
  obtain rfl : l = l' := List.append_cancel_left (hl.symm.trans hl')
  obtain ⟨hret, -, hthrough⟩ | ⟨-, hhinders | hneg⟩ := hrun
  · rw [hret] at hright
    by_cases hpos : 0 < count.toInt
    · -- both the length of the message and `count` are the number of bytes that went through
      have hmoved := through_countP (through_one hthrough)
      rw [through_countP (hright.1 hpos).2, hlen, BitVec.toNat_setWidth] at hmoved
      omega
    · obtain rfl | herror := hright.2 hpos
      · exact hlarge (by decide)
      · exact hmem herror
  · exact not_hinders_obliging hhinders
  · exact hretries hneg

/-- The number that `rt_i2c_master_send` and `rt_i2c_master_recv` return is right against every
    slave if and only if the length fits; and `i2c_bit_xfer` returns the number of messages if and
    only if all bytes have gone through, and always ends with a stop condition. -/
theorem rt_i2c_master_count (busRetries : BitVec 32) (addr flags : BitVec 16)
    (buf : Nat → BitVec 8) (count : BitVec 32) :
    ((∀ slave,
        Adds (rtI2cMasterSend slave busRetries addr flags buf count)
          (CountRight (sendMsg addr flags buf count) count) ∧
        Adds (rtI2cMasterRecv slave busRetries addr flags buf count)
          (CountRight (recvMsg addr flags buf count) count)) ↔
      CountFits busRetries count) ∧
    (∀ slave msgs, (∀ msg ∈ msgs, Plain msg) →
      Adds (i2cBitXfer slave busRetries msgs) fun ret l =>
        ret = msgs.length ↔ Through (AllThrough msgs) l) ∧
    ∀ slave msgs w, EndsWithStop ((i2cBitXfer slave busRetries msgs).run w).2 := by
  refine ⟨⟨fun hright => ?_, fun hfits slave => ⟨?_, ?_⟩⟩, fun slave msgs hplain => ?_,
    fun slave msgs w => i2cBitXfer_endsWithStop msgs w⟩
  · exact countFits_of_right sendMsg_plain rfl (hright obliging).1
  · exact hfits.right sendMsg_plain rfl
  · exact hfits.right recvMsg_plain rfl
  · refine (adds_i2cBitXfer hplain).mono fun ret l h => ?_
    obtain ⟨hret, -, hthrough⟩ | ⟨hret, -, hnot⟩ := h
    · exact iff_of_true hret hthrough
    · have hneg := hret.neg
      exact iff_of_false (by omega) hnot

/-- A message of one byte. -/
theorem rt_i2c_master_count_byte :
    Adds (i2cBitXfer obliging 0 [sendMsg 0x50 0 (fun _ => 0) 1]) fun ret l =>
      ret = 1 ↔ Through (AllThrough [sendMsg 0x50 0 (fun _ => 0) 1]) l :=
  (rt_i2c_master_count 0 0x50 0 (fun _ => 0) 1).2.1 obliging [sendMsg 0x50 0 (fun _ => 0) 1]
    (by simpa using sendMsg_plain)

/-- A send of 65536 bytes sends an address, and returns 65536. -/
theorem rt_i2c_master_count_wrong :
    ((rtI2cMasterSend obliging 0 0x50 0 (fun _ => 0) 65536).run []).1 = 65536 ∧
      movedOf ((rtI2cMasterSend obliging 0 0x50 0 (fun _ => 0) 65536).run []).2 =
        [.written 0xa0 1] ∧
      ¬ Adds (rtI2cMasterSend obliging 0 0x50 0 (fun _ => 0) 65536)
        (CountRight (sendMsg 0x50 0 (fun _ => 0) 65536) 65536) := by
  refine ⟨by decide, by decide, fun hright => ?_⟩
  obtain hsmall | hneg | hmem := countFits_of_right sendMsg_plain rfl hright
  · exact absurd hsmall (by decide)
  · exact absurd hneg (by decide)
  · exact absurd hmem (by decide)

end Transfers

end PandoraRobot.Drivers.I2c
