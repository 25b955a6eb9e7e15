import PandoraRobot.Lib.RingBuffer
import PandoraRobot.Lib.Trace

/-! # Ring buffers of the device drivers

`rt_ringbuffer_init`, `rt_ringbuffer_put`, `rt_ringbuffer_get`, `rt_ringbuffer_putchar`,
`rt_ringbuffer_getchar` and `rt_ringbuffer_data_len` of `ringbuffer.c`.

A mirror bit beside each index tells a full buffer from an empty one.  Under the calls, the
buffer is a queue of bytes, of `buffer_size` places.
-/

namespace PandoraRobot.Drivers

open PandoraRobot.RingBuffer

abbrev Byte := BitVec 8

/-- `struct rt_ringbuffer`.  The indices have 15 bits, and `buffer_size` has 16 with the sign. -/
structure RtRingbuffer where
  bufferPtr : Nat → Byte
  readMirror : BitVec 1
  readIndex : Nat
  writeMirror : BitVec 1
  writeIndex : Nat
  bufferSize : Nat

/-- `enum rt_ringbuffer_state`. -/
inductive RtRingbufferState where
  | empty
  | full
  | halffull
  deriving DecidableEq, Repr

/-! ## The code -/

/-- The indices are reset to the start of a buffer of `size` bytes. -/
def RtRingbuffer.fresh (pool : Nat → Byte) (size : Nat) : RtRingbuffer :=
  ⟨pool, 0, 0, 0, 0, size⟩

/-- `rt_ringbuffer_init`, of a positive size. -/
def rtRingbufferInit (pool : Nat → Byte) (size : Nat) : RtRingbuffer :=
  -- `RT_ALIGN_DOWN(size, RT_ALIGN_SIZE)`
  .fresh pool (size / 4 * 4)

/-- `rt_ringbuffer_status`. -/
def rtRingbufferStatus (rb : RtRingbuffer) : RtRingbufferState :=
  if rb.readIndex = rb.writeIndex then
    if rb.readMirror = rb.writeMirror then .empty else .full
  else .halffull

/-- `rt_ringbuffer_data_len`. -/
def rtRingbufferDataLen (rb : RtRingbuffer) : Nat :=
  match rtRingbufferStatus rb with
  | .empty => 0
  | .full => rb.bufferSize
  | .halffull =>
    if rb.readIndex < rb.writeIndex then rb.writeIndex - rb.readIndex
    else rb.bufferSize - (rb.readIndex - rb.writeIndex)

/-- `rt_ringbuffer_space_len`. -/
def rtRingbufferSpaceLen (rb : RtRingbuffer) : Nat :=
  rb.bufferSize - rtRingbufferDataLen rb

/-- `rt_ringbuffer_put`, and what it returns. -/
def rtRingbufferPut (ptr : Nat → Byte) (length : BitVec 16) (rb : RtRingbuffer) :
    RtRingbuffer × Nat :=
  let size := rtRingbufferSpaceLen rb % 2 ^ 16
  if size = 0 then (rb, 0)
  else
    let length := if size < length.toNat then size else length.toNat
    let toEnd := rb.bufferSize - rb.writeIndex
    if length < toEnd then
      ({ rb with
          bufferPtr := store rb.bufferPtr rb.writeIndex (load ptr 0 length)
          writeIndex := (rb.writeIndex + length) % 2 ^ 15 }, length)
    else
      let buffer := store rb.bufferPtr rb.writeIndex (load ptr 0 toEnd)
      ({ rb with
          bufferPtr := store buffer 0 (load ptr toEnd (length - toEnd))
          writeMirror := ~~~ rb.writeMirror
          writeIndex := (length - toEnd) % 2 ^ 15 }, length)

/-- `rt_ringbuffer_get`, the memory at `ptr` after it, and what it returns. -/
def rtRingbufferGet (ptr : Nat → Byte) (length : BitVec 16) (rb : RtRingbuffer) :
    RtRingbuffer × (Nat → Byte) × Nat :=
  let size := rtRingbufferDataLen rb
  if size = 0 then (rb, ptr, 0)
  else
    let length := if size < length.toNat then size else length.toNat
    let toEnd := rb.bufferSize - rb.readIndex
    if length < toEnd then
      ({ rb with readIndex := (rb.readIndex + length) % 2 ^ 15 },
        store ptr 0 (load rb.bufferPtr rb.readIndex length), length)
    else
      let ptr := store ptr 0 (load rb.bufferPtr rb.readIndex toEnd)
      ({ rb with
          readMirror := ~~~ rb.readMirror
          readIndex := (length - toEnd) % 2 ^ 15 },
        store ptr toEnd (load rb.bufferPtr 0 (length - toEnd)), length)

/-- `rt_ringbuffer_putchar`. -/
def rtRingbufferPutchar (ch : Byte) (rb : RtRingbuffer) : RtRingbuffer × Nat :=
  if rtRingbufferSpaceLen rb = 0 then (rb, 0)
  else
    let rb := { rb with bufferPtr := Function.update rb.bufferPtr rb.writeIndex ch }
    if rb.writeIndex = rb.bufferSize - 1 then
      ({ rb with writeMirror := ~~~ rb.writeMirror, writeIndex := 0 }, 1)
    else ({ rb with writeIndex := (rb.writeIndex + 1) % 2 ^ 15 }, 1)

/-- `rt_ringbuffer_getchar`, the character at `ch` after it, and what it returns. -/
def rtRingbufferGetchar (ch : Byte) (rb : RtRingbuffer) : RtRingbuffer × Byte × Nat :=
  if rtRingbufferDataLen rb = 0 then (rb, ch, 0)
  else
    let ch := rb.bufferPtr rb.readIndex
    if rb.readIndex = rb.bufferSize - 1 then
      ({ rb with readMirror := ~~~ rb.readMirror, readIndex := 0 }, ch, 1)
    else ({ rb with readIndex := (rb.readIndex + 1) % 2 ^ 15 }, ch, 1)

/-! ## The queue it stands for -/

/-- The buffer of `capacity` bytes holds the bytes `held`, the oldest first. -/
structure Holds (rb : RtRingbuffer) (capacity : Nat) (held : List Byte) : Prop where
  size : rb.bufferSize = capacity
  fifteen : capacity < 2 ^ 15
  read : rb.readIndex < capacity
  write : rb.writeIndex < capacity
  fits : held.length ≤ capacity
  /-- Where the mirrors differ, the write index is one turn ahead. -/
  mirror : (rb.readMirror = rb.writeMirror ∧ rb.writeIndex = rb.readIndex + held.length) ∨
    (rb.readMirror ≠ rb.writeMirror ∧ rb.writeIndex + capacity = rb.readIndex + held.length)
  held : contents rb.bufferPtr capacity rb.readIndex held.length = held

theorem mirror_flip (a b : BitVec 1) : a = ~~~ b ↔ a ≠ b := by
  revert a b
  decide

namespace Holds

variable {rb : RtRingbuffer} {capacity : Nat} {held : List Byte}

theorem fresh {pool : Nat → Byte} {size : Nat} (hpos : 0 < size) (hsize : size < 2 ^ 15) :
    Holds (.fresh pool size) size [] :=
  ⟨rfl, hsize, hpos, hpos, Nat.zero_le _, .inl ⟨rfl, rfl⟩, rfl⟩

theorem writeIndex_mod (h : Holds rb capacity held) :
    rb.writeIndex % capacity = (rb.readIndex + held.length) % capacity := by
  obtain ⟨-, hindex⟩ | ⟨-, hindex⟩ := h.mirror
  · rw [hindex]
  · rw [← hindex, Nat.add_mod_right]

theorem rtRingbufferDataLen (h : Holds rb capacity held) :
    rtRingbufferDataLen rb = held.length := by
  have hsize := h.size
  have hread := h.read
  have hwrite := h.write
  have hfits := h.fits
  unfold Drivers.rtRingbufferDataLen rtRingbufferStatus
  by_cases heq : rb.readIndex = rb.writeIndex
  · obtain ⟨hmirror, hindex⟩ | ⟨hmirror, hindex⟩ := h.mirror
    · simp only [heq, hmirror, if_true]
      omega
    · simp only [heq, hmirror, if_true, if_false]
      omega
  · simp only [heq, if_false]
    have hside := h.mirror
    split <;> omega

theorem rtRingbufferSpaceLen (h : Holds rb capacity held) :
    rtRingbufferSpaceLen rb = capacity - held.length := by
  rw [Drivers.rtRingbufferSpaceLen, h.rtRingbufferDataLen, h.size]

variable {buffer : Nat → Byte} {vs : List Byte}

theorem written (h : Holds rb capacity held)
    (hw : Written rb.bufferPtr buffer capacity rb.writeIndex vs)
    (hroom : held.length + vs.length ≤ capacity) :
    contents buffer capacity rb.readIndex (held ++ vs).length = held ++ vs := by
  rw [List.length_append, (hw.congr h.writeIndex_mod).contents hroom, h.held]

/-- Bytes are written, and the write index stays on its side of the mirror. -/
theorem write_same (h : Holds rb capacity held)
    (hw : Written rb.bufferPtr buffer capacity rb.writeIndex vs)
    (hroom : held.length + vs.length ≤ capacity) (hend : rb.writeIndex + vs.length < capacity) :
    Holds { rb with
      bufferPtr := buffer
      writeIndex := (rb.writeIndex + vs.length) % 2 ^ 15 } capacity (held ++ vs) := by
  have hfifteen := h.fifteen
  rw [Nat.mod_eq_of_lt (by omega)]
  refine ⟨h.size, h.fifteen, h.read, hend, by simpa using hroom, ?_, h.written hw hroom⟩
  simp only [List.length_append]
  obtain ⟨hmirror, hindex⟩ | ⟨hmirror, hindex⟩ := h.mirror
  · exact .inl ⟨hmirror, by omega⟩
  · exact .inr ⟨hmirror, by omega⟩

/-- Bytes are written, and the write index passes the end of the buffer. -/
theorem write_flip (h : Holds rb capacity held)
    (hw : Written rb.bufferPtr buffer capacity rb.writeIndex vs)
    (hroom : held.length + vs.length ≤ capacity) (hend : capacity ≤ rb.writeIndex + vs.length) :
    Holds { rb with
      bufferPtr := buffer
      writeMirror := ~~~ rb.writeMirror
      writeIndex := (vs.length - (capacity - rb.writeIndex)) % 2 ^ 15 } capacity (held ++ vs) := by
  have hfifteen := h.fifteen
  have hread := h.read
  have hwrite := h.write
  rw [Nat.mod_eq_of_lt (by omega)]
  refine ⟨h.size, h.fifteen, h.read, ?_, by simpa using hroom, ?_, h.written hw hroom⟩
  · show vs.length - (capacity - rb.writeIndex) < capacity
    omega
  · simp only [List.length_append]
    obtain ⟨hmirror, hindex⟩ | ⟨-, hindex⟩ := h.mirror
    · exact .inr ⟨fun heq => (mirror_flip _ _).mp heq hmirror, by omega⟩
    · omega

/-- Bytes are taken, and the read index stays on its side of the mirror. -/
theorem read_same {k : Nat} (h : Holds rb capacity held) (hk : k ≤ held.length)
    (hend : rb.readIndex + k < capacity) :
    Holds { rb with readIndex := (rb.readIndex + k) % 2 ^ 15 } capacity (held.drop k) := by
  have hfifteen := h.fifteen
  have hfits := h.fits
  rw [Nat.mod_eq_of_lt (by omega)]
  refine ⟨h.size, h.fifteen, hend, h.write, by simp; omega, ?_, ?_⟩
  · simp only [List.length_drop]
    obtain ⟨hmirror, hindex⟩ | ⟨hmirror, hindex⟩ := h.mirror
    · exact .inl ⟨hmirror, by omega⟩
    · exact .inr ⟨hmirror, by omega⟩
  · simp only [List.length_drop]
    rw [← drop_contents, h.held]

/-- Bytes are taken, and the read index passes the end of the buffer. -/
theorem read_flip {k : Nat} (h : Holds rb capacity held) (hk : k ≤ held.length)
    (hend : capacity ≤ rb.readIndex + k) :
    Holds { rb with
      readMirror := ~~~ rb.readMirror
      readIndex := (k - (capacity - rb.readIndex)) % 2 ^ 15 } capacity (held.drop k) := by
  have hfifteen := h.fifteen
  have hread := h.read
  have hwrite := h.write
  have hfits := h.fits
  have hwrap : (rb.readIndex + k) % capacity = k - (capacity - rb.readIndex) := by
    rw [Nat.mod_eq_sub_mod hend, Nat.mod_eq_of_lt (by omega)]
    omega
  rw [Nat.mod_eq_of_lt (by omega)]
  refine ⟨h.size, h.fifteen, ?_, h.write, by simp; omega, ?_, ?_⟩
  · show k - (capacity - rb.readIndex) < capacity
    omega
  · simp only [List.length_drop]
    obtain ⟨-, hindex⟩ | ⟨hmirror, hindex⟩ := h.mirror
    · omega
    · exact .inl ⟨((mirror_flip _ _).mpr hmirror.symm).symm, by omega⟩
  · simp only [List.length_drop]
    rw [← hwrap, contents_mod, ← drop_contents, h.held]

/-! ## What each call does -/

/-- `put` appends what there is room for. -/
theorem rtRingbufferPut (h : Holds rb capacity held) (ptr : Nat → Byte) (length : BitVec 16) :
    let k := min length.toNat (capacity - held.length)
    ∃ rb', Drivers.rtRingbufferPut ptr length rb = (rb', k) ∧
      Holds rb' capacity (held ++ load ptr 0 k) := by
  intro k
  obtain rfl := h.size
  have hfifteen := h.fifteen
  have hwrite := h.write
  have hfits := h.fits
  have hlen : (load ptr 0 k).length = k := length_load 0 k
  have hmin : (if rb.bufferSize - held.length < length.toNat then rb.bufferSize - held.length
      else length.toNat) = k := by
    simp only [k]
    split <;> omega
  have hroom : held.length + k ≤ rb.bufferSize := by omega
  unfold Drivers.rtRingbufferPut
  simp only [h.rtRingbufferSpaceLen,
    Nat.mod_eq_of_lt (show rb.bufferSize - held.length < 2 ^ 16 by omega), hmin]
  split
  case isTrue hfull =>
    obtain hk : k = 0 := by omega
    refine ⟨rb, by rw [hk], ?_⟩
    rwa [hk, show load ptr 0 0 = [] from rfl, List.append_nil]
  case isFalse =>
    split
    case isTrue hlow =>
      refine ⟨_, rfl, ?_⟩
      have hw : Written rb.bufferPtr (store rb.bufferPtr rb.writeIndex (load ptr 0 k)) rb.bufferSize
          rb.writeIndex (load ptr 0 k) := written_store (by omega)
      have hsame := h.write_same hw (by omega) (by omega)
      rwa [hlen] at hsame
    case isFalse hhigh =>
      refine ⟨_, rfl, ?_⟩
      have hw : Written rb.bufferPtr
          (store (store rb.bufferPtr rb.writeIndex
            ((load ptr 0 k).take (rb.bufferSize - rb.writeIndex))) 0
            ((load ptr 0 k).drop (rb.bufferSize - rb.writeIndex)))
          rb.bufferSize rb.writeIndex (load ptr 0 k) :=
        written_store_split hwrite (by omega) (by omega)
      rw [take_load (by omega), drop_load, Nat.zero_add] at hw
      have hflip := h.write_flip hw (by omega) (by omega)
      rwa [hlen] at hflip

/-- `get` takes the oldest bytes, and copies them to `ptr`. -/
theorem rtRingbufferGet (h : Holds rb capacity held) (ptr : Nat → Byte) (length : BitVec 16) :
    let k := min length.toNat held.length
    ∃ rb', Drivers.rtRingbufferGet ptr length rb = (rb', store ptr 0 (held.take k), k) ∧
      Holds rb' capacity (held.drop k) := by
  intro k
  obtain rfl := h.size
  have hread := h.read
  have hfits := h.fits
  have htake : held.take k = contents rb.bufferPtr rb.bufferSize rb.readIndex k := by
    rw [← take_contents (n := held.length) (by omega), h.held]
  have hmin : (if held.length < length.toNat then held.length else length.toNat) = k := by
    simp only [k]
    split <;> omega
  unfold Drivers.rtRingbufferGet
  simp only [h.rtRingbufferDataLen, hmin]
  split
  case isTrue hempty =>
    obtain hk : k = 0 := by omega
    refine ⟨rb, by rw [hk, List.take_zero, store_nil], ?_⟩
    rwa [hk, List.drop_zero]
  case isFalse =>
    split
    case isTrue hlow =>
      rw [htake, contents_load (by omega)]
      have hsame := h.read_same (k := k) (by omega) (by omega)
      exact ⟨_, rfl, hsame⟩
    case isFalse hhigh =>
      rw [htake, contents_load_split hread (by omega) (by omega)]
      have hflip := h.read_flip (k := k) (by omega) (by omega)
      have happend := store_store ptr 0 (load rb.bufferPtr rb.readIndex
        (rb.bufferSize - rb.readIndex)) (load rb.bufferPtr 0 (k - (rb.bufferSize - rb.readIndex)))
      rw [length_load, Nat.zero_add] at happend
      rw [happend]
      exact ⟨_, rfl, hflip⟩

theorem rtRingbufferPutchar (h : Holds rb capacity held) (ch : Byte) :
    ∃ rb', Drivers.rtRingbufferPutchar ch rb =
        (rb', if held.length < capacity then 1 else 0) ∧
      Holds rb' capacity (if held.length < capacity then held ++ [ch] else held) := by
  obtain rfl := h.size
  have hwrite := h.write
  have hw : Written rb.bufferPtr (Function.update rb.bufferPtr rb.writeIndex ch) rb.bufferSize
      rb.writeIndex [ch] := written_update hwrite
  unfold Drivers.rtRingbufferPutchar
  simp only [h.rtRingbufferSpaceLen]
  split
  case isTrue hfull =>
    simp only [show ¬ held.length < rb.bufferSize by omega, if_false]
    exact ⟨rb, rfl, h⟩
  case isFalse hroom =>
    simp only [show held.length < rb.bufferSize by omega, if_true]
    split
    case isTrue hlast =>
      have hflip := h.write_flip hw (by simp; omega) (by simp; omega)
      rw [List.length_singleton, show 1 - (rb.bufferSize - rb.writeIndex) = 0 by omega] at hflip
      exact ⟨_, rfl, hflip⟩
    case isFalse hlast =>
      have hsame := h.write_same hw (by simp; omega) (by simp; omega)
      exact ⟨_, rfl, hsame⟩

theorem rtRingbufferGetchar (h : Holds rb capacity held) (ch : Byte) :
    ∃ rb', Drivers.rtRingbufferGetchar ch rb =
        (rb', held.headD ch, if held = [] then 0 else 1) ∧
      Holds rb' capacity held.tail := by
  obtain rfl := h.size
  have hread := h.read
  unfold Drivers.rtRingbufferGetchar
  simp only [h.rtRingbufferDataLen]
  cases held with
  | nil => exact ⟨rb, rfl, h⟩
  | cons oldest rest =>
    have hheld := h.held
    rw [List.length_cons, contents_take, Nat.mod_eq_of_lt hread, List.cons.injEq] at hheld
    simp only [List.length_cons, Nat.add_eq_zero_iff, Nat.one_ne_zero, and_false, if_false,
      hheld.1]
    split
    case isTrue hlast =>
      have hflip := h.read_flip (k := 1) (by simp) (by omega)
      rw [show 1 - (rb.bufferSize - rb.readIndex) = 0 by omega] at hflip
      exact ⟨_, rfl, hflip⟩
    case isFalse hlast =>
      have hsame := h.read_same (k := 1) (by simp) (by omega)
      exact ⟨_, rfl, hsame⟩

end Holds

/-! ## Runs -/

/-- A call on the buffer, with the caller's memory. -/
inductive Call where
  | put (ptr : Nat → Byte) (length : BitVec 16)
  | get (ptr : Nat → Byte) (length : BitVec 16)
  | putchar (ch : Byte)
  | getchar (ch : Byte)

/-- What a call returns, with the memory it may have written. -/
inductive Returned where
  | put (returned : Nat)
  | get (ptr : Nat → Byte) (returned : Nat)
  | getchar (ch : Byte) (returned : Nat)

namespace Call

/-- The code of a call. -/
def code : Call → RtRingbuffer → RtRingbuffer × Returned
  | .put ptr length, rb =>
    let (rb, n) := rtRingbufferPut ptr length rb
    (rb, .put n)
  | .get ptr length, rb =>
    let (rb, ptr, n) := rtRingbufferGet ptr length rb
    (rb, .get ptr n)
  | .putchar ch, rb =>
    let (rb, n) := rtRingbufferPutchar ch rb
    (rb, .put n)
  | .getchar ch, rb =>
    let (rb, ch, n) := rtRingbufferGetchar ch rb
    (rb, .getchar ch n)

/-- A call on a queue of bytes with room for `capacity`. -/
def queue (capacity : Nat) : Call → List Byte → List Byte × Returned
  | .put ptr length, held =>
    let k := min length.toNat (capacity - held.length)
    (held ++ load ptr 0 k, .put k)
  | .get ptr length, held =>
    let k := min length.toNat held.length
    (held.drop k, .get (store ptr 0 (held.take k)) k)
  | .putchar ch, held =>
    if held.length < capacity then (held ++ [ch], .put 1) else (held, .put 0)
  | .getchar ch, [] => ([], .getchar ch 0)
  | .getchar _, oldest :: held => (held, .getchar oldest 1)

/-- The code of a call does to the bytes that the buffer holds what the call does to the queue,
    and returns the same. -/
theorem code_queue {rb : RtRingbuffer} {capacity : Nat} {held : List Byte}
    (h : Holds rb capacity held) (call : Call) :
    (call.code rb).2 = (call.queue capacity held).2 ∧
      Holds (call.code rb).1 capacity (call.queue capacity held).1 := by
  cases call with
  | put ptr length =>
    obtain ⟨rb', hput, h'⟩ := h.rtRingbufferPut ptr length
    simp only [code, queue, hput]
    exact ⟨trivial, h'⟩
  | get ptr length =>
    obtain ⟨rb', hget, h'⟩ := h.rtRingbufferGet ptr length
    simp only [code, queue, hget]
    exact ⟨trivial, h'⟩
  | putchar ch =>
    obtain ⟨rb', hput, h'⟩ := h.rtRingbufferPutchar ch
    by_cases hroom : held.length < capacity
    · simp only [hroom, if_true] at hput h'
      simp only [code, queue, hput, hroom, if_true]
      exact ⟨trivial, h'⟩
    · simp only [hroom, if_false] at hput h'
      simp only [code, queue, hput, hroom, if_false]
      exact ⟨trivial, h'⟩
  | getchar ch =>
    obtain ⟨rb', hget, h'⟩ := h.rtRingbufferGetchar ch
    cases held with
    | nil =>
      simp only [code, queue, hget, List.headD_nil, if_true]
      exact ⟨trivial, h'⟩
    | cons oldest rest =>
      simp only [code, queue, hget, List.headD_cons, reduceCtorEq, if_false]
      exact ⟨trivial, h'⟩

end Call

/-- Whatever the calls, the buffer is a queue of bytes bounded by its size: `put` and `putchar`
    append what there is room for, `get` and `getchar` return the oldest bytes, and
    `rt_ringbuffer_data_len` is the number of bytes held. -/
theorem ringbuffer_fifo (pool : Nat → Byte) (size : Nat) (hpos : 0 < size)
    (hsize : size < 2 ^ 15) (calls : List Call) :
    let code := Trace.run Call.code calls (.fresh pool size)
    let queue := Trace.run (Call.queue size) calls []
    code.2 = queue.2 ∧ queue.1.length ≤ size ∧
      rtRingbufferDataLen code.1 = queue.1.length ∧
      rtRingbufferDataLen code.1 + rtRingbufferSpaceLen code.1 = code.1.bufferSize := by
  intro code queue
  have hfresh : Holds (.fresh pool size) size [] := .fresh hpos hsize
  obtain ⟨hreturned, h⟩ := Trace.run_simulates
    (fun call rb held (_ : True) (h : Holds rb size held) => Call.code_queue h call)
    (fun _ _ => trivial) hfresh
  have hlen := h.rtRingbufferDataLen
  have hspace := h.rtRingbufferSpaceLen
  have hfits := h.fits
  refine ⟨hreturned, hfits, hlen, ?_⟩
  rw [h.size, hlen, hspace]
  omega

/-- A buffer that `rt_ringbuffer_init` made. -/
theorem ringbuffer_fifo_init :
    let pool : Nat → Byte := fun _ => 0
    rtRingbufferInit pool 7 = .fresh pool 4 ∧
      rtRingbufferDataLen (Trace.run Call.code [.put (fun i => BitVec.ofNat 8 i) 3, .get pool 2,
        .put (fun i => BitVec.ofNat 8 i) 9] (.fresh pool 4)).1 = 4 := by
  intro pool
  exact ⟨rfl, (ringbuffer_fifo pool 4 (by decide) (by decide) _).2.2.1⟩

end PandoraRobot.Drivers
