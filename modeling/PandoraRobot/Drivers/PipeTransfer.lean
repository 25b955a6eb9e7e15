import PandoraRobot.Drivers.Pipe

/-! # What a pipe stores and returns

`rt_pipe_read` and `rt_pipe_write` hand the bytes that are left to the ring buffer, whose length
has 16 bits, and stop when it moves none.
-/

namespace PandoraRobot.Drivers

open PandoraRobot.Kernel PandoraRobot.RingBuffer PandoraRobot.Trace

namespace RtPipe

variable {s s' : RtPipe} {buffer buffer' : Nat → Byte} {count : BitVec 32} {n : Nat}
variable {fifo : RtRingbuffer} {capacity : Nat} {held : List Byte}

/-! ## The loops -/

/-- The first round moves what the 16 bits and the room allow, and the second one nothing. -/
theorem writeLoop_moves (h : Holds fifo capacity held) (total : Nat) (pbuf : Nat → Byte) :
    let k := min (total % 2 ^ 16) (capacity - held.length)
    ∃ fifo', writeLoop total 0 pbuf fifo = (fifo', k) ∧
      Holds fifo' capacity (held ++ load pbuf 0 k) := by
  intro k
  obtain ⟨once, hput, honce⟩ := h.rtRingbufferPut (fun i => pbuf (0 + i)) (BitVec.ofNat 16 total)
  simp only [Nat.zero_add, BitVec.toNat_ofNat] at hput honce
  obtain rfl | hpos := Nat.eq_zero_or_pos total
  · rw [writeLoop, if_neg (Nat.lt_irrefl 0)]
    have hk : k = 0 := by simp [k]
    exact ⟨fifo, by rw [hk], by simpa [hk, load] using h⟩
  · rw [writeLoop, if_pos hpos]
    simp only [Nat.zero_add, Nat.sub_zero, hput]
    obtain hnone | hsome := Nat.eq_zero_or_pos k
    · rw [if_neg (by omega)]
      exact ⟨once, by rw [hnone], honce⟩
    · rw [if_pos hsome, writeLoop]
      split
      case isFalse => exact ⟨once, rfl, honce⟩
      case isTrue hmore =>
        have hlength : (held ++ load pbuf 0 k).length = held.length + k := by simp
        obtain ⟨twice, hagain, htwice⟩ :=
          honce.rtRingbufferPut (fun i => pbuf (k + i)) (BitVec.ofNat 16 (total - k))
        -- either the buffer is full, or what is left is a multiple of the 16-bit range
        have hstop : min (BitVec.ofNat 16 (total - k)).toNat
            (capacity - (held ++ load pbuf 0 k).length) = 0 := by
          simp only [BitVec.toNat_ofNat, hlength]
          omega
        change rtRingbufferPut _ _ once = (twice, min _ (capacity - (held ++ load pbuf 0 k).length))
          at hagain
        rw [hstop] at hagain
        change Holds twice capacity ((held ++ load pbuf 0 k) ++ load _ 0
          (min _ (capacity - (held ++ load pbuf 0 k).length))) at htwice
        rw [hstop] at htwice
        refine ⟨twice, by rw [hagain]; rfl, by simpa [load] using htwice⟩

theorem readLoop_moves (h : Holds fifo capacity held) (total : Nat) (pbuf : Nat → Byte) :
    let k := min (total % 2 ^ 16) held.length
    ∃ fifo', readLoop total 0 pbuf fifo = (fifo', store pbuf 0 (held.take k), k) ∧
      Holds fifo' capacity (held.drop k) := by
  intro k
  obtain ⟨once, hget, honce⟩ := h.rtRingbufferGet (fun i => pbuf (0 + i)) (BitVec.ofNat 16 total)
  simp only [Nat.zero_add, BitVec.toNat_ofNat] at hget honce
  obtain rfl | hpos := Nat.eq_zero_or_pos total
  · rw [readLoop, if_neg (Nat.lt_irrefl 0)]
    have hk : k = 0 := by simp [k]
    exact ⟨fifo, by simp [hk], by simpa [hk] using h⟩
  · rw [readLoop, if_pos hpos]
    simp only [Nat.zero_add, Nat.sub_zero, hget, Nat.not_lt_zero, if_false]
    obtain hnone | hsome := Nat.eq_zero_or_pos k
    · rw [if_neg (by omega)]
      exact ⟨once, by simp [hnone], honce⟩
    · rw [if_pos hsome, readLoop]
      split
      case isFalse => exact ⟨once, rfl, honce⟩
      case isTrue hmore =>
        obtain ⟨twice, hagain, htwice⟩ := honce.rtRingbufferGet
          (fun i => store pbuf 0 (held.take k) (k + i)) (BitVec.ofNat 16 (total - k))
        have hstop : min (BitVec.ofNat 16 (total - k)).toNat (held.drop k).length = 0 := by
          simp only [BitVec.toNat_ofNat, List.length_drop]
          omega
        change rtRingbufferGet _ _ once = (twice, _, min _ (held.drop k).length) at hagain
        rw [hstop] at hagain
        change Holds twice capacity ((held.drop k).drop (min _ (held.drop k).length)) at htwice
        rw [hstop] at htwice
        refine ⟨twice, by rw [hagain]; rfl, by simpa using htwice⟩

/-! ## One call -/

/-- The bytes in the pipe, the oldest first. -/
def stored (s : RtPipe) : List Byte :=
  match s.fifo with
  | none => []
  | some fifo => contents fifo.bufferPtr fifo.bufferSize fifo.readIndex (rtRingbufferDataLen fifo)

/-- How many bytes there is room for. -/
def free (s : RtPipe) : Nat :=
  match s.fifo with
  | none => 0
  | some fifo => rtRingbufferSpaceLen fifo

/-- A write stores as many of the bytes as there is room for. -/
def WritesAll (s : RtPipe) (buffer : Nat → Byte) (count : BitVec 32) : Prop :=
  ∃ s', s.rtPipeWrite buffer count = .ok (s', min count.toNat s.free) ∧
    s'.stored = s.stored ++ load buffer 0 (min count.toNat s.free)

/-- A read takes as many bytes as there are, the oldest first. -/
def ReadsAll (s : RtPipe) (buffer : Nat → Byte) (count : BitVec 32) : Prop :=
  let k := min count.toNat s.stored.length
  ∃ s', s.rtPipeRead buffer count = .ok (s', store buffer 0 (s.stored.take k), k) ∧
    s'.stored = s.stored.drop k

/-- The low 16 bits of the count are enough to move `available` bytes, or all of the count. -/
def FitsLength (s : RtPipe) (count : BitVec 32) (available : Nat) : Prop :=
  count = 0 ∨ s.fifo ≠ none ∧ (count.toNat < 2 ^ 16 ∨ available ≤ count.toNat % 2 ^ 16)

/-- The fifo of the pipe, if it has one, is a queue of bytes. -/
def Buffered (s : RtPipe) : Prop := ∀ fifo, s.fifo = some fifo → ∃ held, Holds fifo s.capacity held

theorem stored_of_holds (hfifo : s.fifo = some fifo) (h : Holds fifo capacity held) :
    s.stored = held := by
  simp only [stored, hfifo, h.size, h.rtRingbufferDataLen, h.held]

theorem free_of_holds (hfifo : s.fifo = some fifo) (h : Holds fifo capacity held) :
    s.free = capacity - held.length := by
  simp only [free, hfifo, h.rtRingbufferSpaceLen]

theorem toNat_pos (hcount : count ≠ 0) : 0 < count.toNat := by
  refine Nat.pos_of_ne_zero fun hzero => hcount ?_
  exact BitVec.eq_of_toNat_eq hzero

/-- A write to a pipe with a fifo. -/
theorem rtPipeWrite_moves (hfifo : s.fifo = some fifo) (h : Holds fifo capacity held)
    (buffer : Nat → Byte) (count : BitVec 32) :
    let k := min (count.toNat % 2 ^ 16) (capacity - held.length)
    ∃ fifo', s.rtPipeWrite buffer count = .ok ({ s with fifo := some fifo' }, k) ∧
      Holds fifo' capacity (held ++ load buffer 0 k) := by
  intro k
  by_cases hzero : count = 0
  · have hk : k = 0 := by simp [k, hzero]
    refine ⟨fifo, ?_, by simpa [hk, load] using h⟩
    rw [rtPipeWrite, if_pos hzero, hk, ← hfifo]
    rfl
  · obtain ⟨fifo', hloop, hholds⟩ := writeLoop_moves h count.toNat buffer
    refine ⟨fifo', ?_, hholds⟩
    simp only [rtPipeWrite, if_neg hzero, hfifo, hloop]
    rfl

/-- A read of a pipe with a fifo. -/
theorem rtPipeRead_moves (hfifo : s.fifo = some fifo) (h : Holds fifo capacity held)
    (buffer : Nat → Byte) (count : BitVec 32) :
    let k := min (count.toNat % 2 ^ 16) held.length
    ∃ fifo', s.rtPipeRead buffer count =
        .ok ({ s with fifo := some fifo' }, store buffer 0 (held.take k), k) ∧
      Holds fifo' capacity (held.drop k) := by
  intro k
  by_cases hzero : count = 0
  · have hk : k = 0 := by simp [k, hzero]
    refine ⟨fifo, ?_, by simpa [hk] using h⟩
    rw [rtPipeRead, if_pos hzero, hk, ← hfifo, List.take_zero, store_nil]
    rfl
  · obtain ⟨fifo', hloop, hholds⟩ := readLoop_moves h count.toNat buffer
    refine ⟨fifo', ?_, hholds⟩
    simp only [rtPipeRead, if_neg hzero, hfifo, hloop]
    rfl

theorem Buffered.writesAll_iff (h : s.Buffered) (buffer : Nat → Byte) (count : BitVec 32) :
    s.WritesAll buffer count ↔ s.FitsLength count s.free := by
  by_cases hzero : count = 0
  · refine iff_of_true ⟨s, ?_, ?_⟩ (.inl hzero)
    · rw [rtPipeWrite, if_pos hzero, hzero]
      simp [pure, Except.pure]
    · simp [hzero, load]
  cases hfifo : s.fifo with
  | none =>
    refine iff_of_false ?_ (by rintro (hnone | ⟨hsome, -⟩) <;> contradiction)
    rintro ⟨s', hwrite, -⟩
    simp only [rtPipeWrite, if_neg hzero, hfifo] at hwrite
    cases hwrite
  | some fifo =>
    obtain ⟨held, hholds⟩ := h fifo hfifo
    obtain ⟨fifo', hwrite, hafter⟩ := rtPipeWrite_moves hfifo hholds buffer count
    have hstored := stored_of_holds hfifo hholds
    have hfree := free_of_holds hfifo hholds
    have hpos := toNat_pos hzero
    have hsame : s.FitsLength count s.free ↔
        min (count.toNat % 2 ^ 16) (s.capacity - held.length) = min count.toNat s.free := by
      have hfits := hholds.fits
      have hfifteen := hholds.fifteen
      simp only [FitsLength, hzero, hfifo, hfree, false_or, ne_eq, reduceCtorEq, not_false_eq_true,
        true_and]
      omega
    rw [hsame, WritesAll, hwrite]
    constructor
    · rintro ⟨s', heq, -⟩
      exact congrArg Prod.snd (Except.ok.inj heq)
    · intro hcounts
      refine ⟨_, by rw [hcounts], ?_⟩
      rw [stored_of_holds rfl hafter, hcounts, hstored]

theorem Buffered.readsAll_iff (h : s.Buffered) (buffer : Nat → Byte) (count : BitVec 32) :
    s.ReadsAll buffer count ↔ s.FitsLength count s.stored.length := by
  by_cases hzero : count = 0
  · refine iff_of_true ⟨s, ?_, ?_⟩ (.inl hzero)
    · rw [rtPipeRead, if_pos hzero, hzero]
      simp [pure, Except.pure]
    · simp [hzero]
  cases hfifo : s.fifo with
  | none =>
    refine iff_of_false ?_ (by rintro (hnone | ⟨hsome, -⟩) <;> contradiction)
    rintro ⟨s', hread, -⟩
    simp only [rtPipeRead, if_neg hzero, hfifo] at hread
    cases hread
  | some fifo =>
    obtain ⟨held, hholds⟩ := h fifo hfifo
    obtain ⟨fifo', hread, hafter⟩ := rtPipeRead_moves hfifo hholds buffer count
    have hstored := stored_of_holds hfifo hholds
    have hpos := toNat_pos hzero
    have hsame : s.FitsLength count held.length ↔
        min (count.toNat % 2 ^ 16) held.length = min count.toNat held.length := by
      have hfits := hholds.fits
      have hfifteen := hholds.fifteen
      simp only [FitsLength, hzero, hfifo, false_or, ne_eq, reduceCtorEq, not_false_eq_true,
        true_and]
      omega
    rw [ReadsAll, hstored, hsame, hread]
    constructor
    · rintro ⟨s', heq, -⟩
      exact congrArg (fun r => r.2.2) (Except.ok.inj heq)
    · intro hcounts
      refine ⟨_, by rw [hcounts], ?_⟩
      rw [stored_of_holds rfl hafter, hcounts]

end RtPipe

/-! ## Runs -/

namespace PipeCall

open RtPipe

variable {s s' created : RtPipe} {call : PipeCall} {returned : PipeReturned}

/-- The device layer changes only what is its own. -/
theorem Buffered.of_parent (h : s.Buffered) (hfifo : s'.fifo = s.fifo)
    (hbufsz : s'.bufsz = s.bufsz) : s'.Buffered := by
  intro fifo heq
  rw [capacity, hbufsz]
  exact h fifo (hfifo ▸ heq)

theorem Buffered.step (h : s.Buffered) (hstep : call.step s = .ok (s', returned)) :
    s'.Buffered := by
  cases call with
  | «open» oflag pool =>
    simp only [PipeCall.step, exec_bind_ok, exec_pure_ok, Prod.mk.injEq] at hstep
    obtain ⟨opened, hopen, ⟨parent, result⟩, -, rfl, -⟩ := hstep
    refine Buffered.of_parent (s := opened) ?_ rfl rfl
    -- the first open makes the buffer, and a further one uses it
    by_cases hfifo : s.fifo = none
    · intro fifo heq
      obtain ⟨-, -, -, -, hempty⟩ := rtPipeOpen_creates hfifo hopen
      obtain ⟨fifo', hfifo', hholds⟩ := hempty (by simp [heq])
      obtain rfl : fifo' = fifo := Option.some.inj (hfifo'.symm.trans heq)
      exact ⟨[], hholds⟩
    · rw [rtPipeOpen_keeps hfifo] at hopen
      exact Except.ok.inj hopen ▸ h
  | close =>
    simp only [PipeCall.step] at hstep
    split at hstep
    all_goals
      simp only [exec_pure_ok, Prod.mk.injEq] at hstep
      obtain ⟨rfl, -⟩ := hstep
      exact Buffered.of_parent h rfl rfl
  | read buffer count =>
    simp only [PipeCall.step] at hstep
    split at hstep
    case isTrue =>
      obtain rfl : s = s' := congrArg Prod.fst (exec_pure_ok.mp hstep)
      exact h
    case isFalse =>
      simp only [exec_bind_ok, exec_pure_ok, Prod.mk.injEq] at hstep
      obtain ⟨⟨read, buffer', n⟩, hread, rfl, -⟩ := hstep
      intro fifo hfifo
      -- a read makes no buffer, and takes none away
      have hsame := rtPipeRead_sameUse hread
      cases hbefore : s.fifo with
      | none => simp [hsame.fifo.mpr hbefore] at hfifo
      | some before =>
        obtain ⟨held, hholds⟩ := h before hbefore
        obtain ⟨after, hmoves, hafter⟩ := rtPipeRead_moves hbefore hholds buffer count
        obtain rfl : { s with fifo := some after } = read :=
          congrArg Prod.fst (Except.ok.inj (hmoves.symm.trans hread))
        obtain rfl : after = fifo := Option.some.inj hfifo
        exact ⟨_, hafter⟩
  | write buffer count =>
    simp only [PipeCall.step] at hstep
    split at hstep
    case isTrue =>
      obtain rfl : s = s' := congrArg Prod.fst (exec_pure_ok.mp hstep)
      exact h
    case isFalse =>
      simp only [exec_bind_ok, exec_pure_ok, Prod.mk.injEq] at hstep
      obtain ⟨⟨written, n⟩, hwrite, rfl, -⟩ := hstep
      intro fifo hfifo
      have hsame := rtPipeWrite_sameUse hwrite
      cases hbefore : s.fifo with
      | none => simp [hsame.fifo.mpr hbefore] at hfifo
      | some before =>
        obtain ⟨held, hholds⟩ := h before hbefore
        obtain ⟨after, hmoves, hafter⟩ := rtPipeWrite_moves hbefore hholds buffer count
        obtain rfl : { s with fifo := some after } = written :=
          congrArg Prod.fst (Except.ok.inj (hmoves.symm.trans hwrite))
        obtain rfl : after = fifo := Option.some.inj hfifo
        exact ⟨_, hafter⟩

/-- The fifo of a pipe is a queue of bytes after any calls. -/
theorem Buffered.run {calls : List PipeCall} {answers : List PipeReturned} (h : s.Buffered)
    (hrun : runExcept PipeCall.step calls s = .ok (s', answers)) : s'.Buffered := by
  induction calls generalizing s answers with
  | nil =>
    obtain rfl : s = s' := congrArg Prod.fst (Except.ok.inj hrun)
    exact h
  | cons call calls ih =>
    simp only [runExcept, exec_bind_ok, exec_pure_ok, Prod.mk.injEq] at hrun
    obtain ⟨⟨next, answer⟩, hstep, ⟨last, rest⟩, hrest, rfl, -⟩ := hrun
    exact ih (Buffered.step h hstep) hrest

theorem Created.buffered (h : Created created) : created.Buffered := by
  intro fifo hfifo
  simp [h.fifo] at hfifo

/-- After any calls on a pipe: a write stores all there is room for, and a read returns all there
    is, if and only if the low 16 bits of the count allow it. -/
theorem rt_pipe_moves_all (h : Created created) {calls : List PipeCall}
    {answers : List PipeReturned} (hrun : runExcept PipeCall.step calls created = .ok (s, answers))
    (buffer : Nat → Byte) (count : BitVec 32) :
    (s.WritesAll buffer count ↔ s.FitsLength count s.free) ∧
      (s.ReadsAll buffer count ↔ s.FitsLength count s.stored.length) :=
  have hbuffered := Buffered.run (Created.buffered h) hrun
  ⟨hbuffered.writesAll_iff buffer count, hbuffered.readsAll_iff buffer count⟩

theorem runExcept_smallOpen : runExcept PipeCall.step [.open 3 smallPool] smallPipe =
    .ok (smallOpened rtDeviceOflagOpen 1 (.fresh (fun _ => 0) 8), [.result 0]) := rfl

theorem rt_pipe_moves_all_small :
    ((smallOpened rtDeviceOflagOpen 1 (.fresh (fun _ => 0) 8)).WritesAll (fun _ => 7) 5 ↔
      FitsLength (smallOpened rtDeviceOflagOpen 1 (.fresh (fun _ => 0) 8)) 5
        (free (smallOpened rtDeviceOflagOpen 1 (.fresh (fun _ => 0) 8)))) ∧
    ((smallOpened rtDeviceOflagOpen 1 (.fresh (fun _ => 0) 8)).ReadsAll (fun _ => 7) 5 ↔
      FitsLength (smallOpened rtDeviceOflagOpen 1 (.fresh (fun _ => 0) 8)) 5
        (stored (smallOpened rtDeviceOflagOpen 1 (.fresh (fun _ => 0) 8))).length) :=
  rt_pipe_moves_all ⟨rfl, rfl⟩ runExcept_smallOpen (fun _ => 7) 5

/-- 65536 bytes are written to an open and empty pipe of 8 bytes: none of them is stored. -/
theorem rt_pipe_moves_all_lost :
    ∃ s answers, Created smallPipe ∧
      runExcept PipeCall.step [.open 3 smallPool] smallPipe = .ok (s, answers) ∧
      s.parent.refCount ≠ 0 ∧ s.free = 8 ∧ ¬ s.WritesAll (fun _ => 7) 65536 := by
  refine ⟨_, _, ⟨rfl, rfl⟩, runExcept_smallOpen, by decide, rfl, ?_⟩
  have hbuffered := Buffered.run (Created.buffered ⟨rfl, rfl⟩) runExcept_smallOpen
  rw [hbuffered.writesAll_iff]
  rintro (hzero | ⟨-, hshort | hlow⟩)
  · exact absurd hzero (by decide)
  · exact absurd hshort (by decide)
  · exact absurd hlow (by decide)

end PipeCall

end PandoraRobot.Drivers
