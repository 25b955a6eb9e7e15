import Mathlib.Data.List.DropRight
import PandoraRobot.Drivers.Ringbuffer

/-! # Ring buffers that drop the oldest bytes

`rt_ringbuffer_put_force` and `rt_ringbuffer_putchar_force` of `ringbuffer.c`.  Where there is no
room, the read index goes with the write index.

A write that passes the end of the buffer flips both mirrors when it drops bytes.  They have to
differ afterwards, so they had to differ before.
-/

namespace PandoraRobot.Drivers

open PandoraRobot.RingBuffer

/-! ## The code -/

/-- `rt_ringbuffer_put_force`, and what it returns. -/
def rtRingbufferPutForce (ptr : Nat → Byte) (length : BitVec 16) (rb : RtRingbuffer) :
    RtRingbuffer × Nat :=
  let spaceLength := rtRingbufferSpaceLen rb % 2 ^ 16
  -- the place in `ptr` from where on there is room for the rest
  let skip := if rb.bufferSize < length.toNat then length.toNat - rb.bufferSize else 0
  let length := if rb.bufferSize < length.toNat then rb.bufferSize else length.toNat
  let toEnd := rb.bufferSize - rb.writeIndex
  if length < toEnd then
    let writeIndex := (rb.writeIndex + length) % 2 ^ 15
    ({ rb with
        bufferPtr := store rb.bufferPtr rb.writeIndex (load ptr skip length)
        writeIndex
        readIndex := if spaceLength < length then writeIndex else rb.readIndex }, length)
  else
    let buffer := store rb.bufferPtr rb.writeIndex (load ptr skip toEnd)
    let writeIndex := (length - toEnd) % 2 ^ 15
    ({ rb with
        bufferPtr := store buffer 0 (load ptr (skip + toEnd) (length - toEnd))
        writeMirror := ~~~ rb.writeMirror
        writeIndex
        readMirror := if spaceLength < length then ~~~ rb.readMirror else rb.readMirror
        readIndex := if spaceLength < length then writeIndex else rb.readIndex }, length)

/-- `rt_ringbuffer_putchar_force`; it returns 1. -/
def rtRingbufferPutcharForce (ch : Byte) (rb : RtRingbuffer) : RtRingbuffer :=
  let oldState := rtRingbufferStatus rb
  let rb := { rb with bufferPtr := Function.update rb.bufferPtr rb.writeIndex ch }
  if rb.writeIndex = rb.bufferSize - 1 then
    { rb with
      writeMirror := ~~~ rb.writeMirror
      writeIndex := 0
      readMirror := if oldState = .full then ~~~ rb.readMirror else rb.readMirror
      readIndex := if oldState = .full then 0 else rb.readIndex }
  else
    let writeIndex := (rb.writeIndex + 1) % 2 ^ 15
    { rb with
      writeIndex
      readIndex := if oldState = .full then writeIndex else rb.readIndex }

/-- The bytes in the buffer, the oldest first. -/
def rtRingbufferBytes (rb : RtRingbuffer) : List Byte :=
  contents rb.bufferPtr rb.bufferSize rb.readIndex (rtRingbufferDataLen rb)

namespace Holds

variable {rb : RtRingbuffer} {capacity : Nat} {held : List Byte} {buffer : Nat → Byte}
  {vs : List Byte}

theorem rtRingbufferBytes (h : Holds rb capacity held) : Drivers.rtRingbufferBytes rb = held := by
  rw [Drivers.rtRingbufferBytes, h.rtRingbufferDataLen, h.size, h.held]

theorem full_iff (h : Holds rb capacity held) :
    rtRingbufferStatus rb = .full ↔ held.length = capacity := by
  have hread := h.read
  have hwrite := h.write
  unfold rtRingbufferStatus
  by_cases heq : rb.readIndex = rb.writeIndex
  · obtain ⟨hmirror, hindex⟩ | ⟨hmirror, hindex⟩ := h.mirror
    · simp only [heq, hmirror, if_true, reduceCtorEq, false_iff]
      omega
    · simp only [heq, hmirror, if_true, if_false, true_iff]
      omega
  · simp only [heq, if_false, reduceCtorEq, false_iff]
    obtain ⟨-, hindex⟩ | ⟨-, hindex⟩ := h.mirror <;> omega

/-- The oldest bytes are overwritten: the buffer is full, and starts where the write ended. -/
theorem overwrite {readMirror writeMirror : BitVec 1} {index : Nat}
    (h : Holds rb capacity held) (hw : Written rb.bufferPtr buffer capacity rb.writeIndex vs)
    (hlength : vs.length ≤ capacity) (hover : capacity ≤ held.length + vs.length)
    (hindex : index = (rb.writeIndex + vs.length) % capacity) (hmirror : readMirror ≠ writeMirror) :
    Holds ⟨buffer, readMirror, index, writeMirror, index, rb.bufferSize⟩ capacity
      ((held ++ vs).rtake capacity) := by
  have hread := h.read
  have hlt : index < capacity := by
    rw [hindex]
    exact Nat.mod_lt _ (by omega)
  have hall : ((held ++ vs).rtake capacity).length = capacity := by
    rw [List.rtake, List.length_drop, List.length_append]
    omega
  refine ⟨h.size, h.fifteen, hlt, hlt, hall.le, .inr ⟨hmirror, by rw [hall]⟩, ?_⟩
  have hover' := (hw.congr h.writeIndex_mod).contents_over hlength hover
  have hsame : index = (rb.readIndex + held.length + vs.length) % capacity := by
    rw [hindex, Nat.add_mod, h.writeIndex_mod, ← Nat.add_mod]
  rw [hall, hsame, contents_mod, hover', h.held, List.rtake, List.length_append]

theorem rtRingbufferPutcharForce (h : Holds rb capacity held) (ch : Byte) :
    Holds (Drivers.rtRingbufferPutcharForce ch rb) capacity ((held ++ [ch]).rtake capacity) := by
  obtain rfl := h.size
  have hwrite := h.write
  have hfits := h.fits
  have hw : Written rb.bufferPtr (Function.update rb.bufferPtr rb.writeIndex ch) rb.bufferSize
      rb.writeIndex [ch] := written_update hwrite
  have hfull := h.full_iff
  unfold Drivers.rtRingbufferPutcharForce
  by_cases hroom : held.length = rb.bufferSize
  · -- the oldest byte is dropped
    have hdiffer : rb.readMirror ≠ rb.writeMirror := by
      obtain ⟨-, hindex⟩ | ⟨hmirror, -⟩ := h.mirror
      · omega
      · exact hmirror
    have hover (readMirror writeMirror : BitVec 1) (index : Nat)
        (hindex : index = (rb.writeIndex + [ch].length) % rb.bufferSize)
        (hne : readMirror ≠ writeMirror) :
        Holds ⟨_, readMirror, index, writeMirror, index, rb.bufferSize⟩ rb.bufferSize
          ((held ++ [ch]).rtake rb.bufferSize) :=
      h.overwrite hw (by simp; omega) (by simp; omega) hindex hne
    simp only [hfull.mpr hroom, if_true]
    split
    case isTrue hlast =>
      refine hover _ _ _ ?_ ?_
      · rw [hlast, List.length_singleton, Nat.sub_add_cancel (by omega), Nat.mod_self]
      · simpa using hdiffer
    case isFalse hlast =>
      have hfifteen := h.fifteen
      refine hover _ _ _ ?_ hdiffer
      rw [List.length_singleton, Nat.mod_eq_of_lt (by omega), Nat.mod_eq_of_lt (by omega)]
  · have hall : (held ++ [ch]).rtake rb.bufferSize = held ++ [ch] := by
      rw [List.rtake, List.length_append, List.length_singleton, Nat.sub_eq_zero_of_le (by omega),
        List.drop_zero]
    rw [hall]
    simp only [mt hfull.mp hroom, if_false]
    split
    case isTrue hlast =>
      have hflip := h.write_flip hw (by simp; omega) (by simp; omega)
      rwa [List.length_singleton, show 1 - (rb.bufferSize - rb.writeIndex) = 0 by omega] at hflip
    case isFalse hlast =>
      exact h.write_same hw (by simp; omega) (by simp; omega)

variable (ptr : Nat → Byte) (length : BitVec 16)

/-- The bytes that are written are the last ones, as far as there is room for them. -/
theorem last_load :
    (held ++ load ptr 0 length.toNat).rtake capacity =
      (held ++ load ptr (length.toNat - capacity) (min length.toNat capacity)).rtake capacity := by
  obtain hlt | hle := Nat.lt_or_ge capacity length.toNat
  · have hdrop : load ptr (length.toNat - capacity) capacity =
        (load ptr 0 length.toNat).drop (length.toNat - capacity) := by
      rw [drop_load, Nat.zero_add, Nat.sub_sub_self hlt.le]
    have hheld : held.length ≤ held.length + length.toNat - capacity := by omega
    rw [Nat.min_eq_right hlt.le, hdrop]
    simp only [List.rtake, List.length_append, List.length_drop, length_load]
    rw [List.drop_append, List.drop_append, List.drop_eq_nil_of_le hheld, List.nil_append,
      Nat.sub_sub_self hlt.le, Nat.add_sub_cancel, List.drop_length, List.nil_append,
      Nat.sub_self, List.drop_zero]
    congr 1
    omega
  · rw [Nat.sub_eq_zero_of_le hle, Nat.min_eq_left hle]

/-- Where the mirrors are the same, a write that drops bytes leaves them the same. -/
def ForceEmpties (rb : RtRingbuffer) (length : BitVec 16) : Prop :=
  rb.readMirror = rb.writeMirror ∧
    Drivers.rtRingbufferSpaceLen rb < min length.toNat rb.bufferSize

instance (rb : RtRingbuffer) (length : BitVec 16) : Decidable (ForceEmpties rb length) :=
  inferInstanceAs (Decidable (_ ∧ _))

theorem rtRingbufferPutForce (h : Holds rb capacity held) :
    Holds (Drivers.rtRingbufferPutForce ptr length rb).1 capacity
      (if ForceEmpties rb length then []
        else (held ++ load ptr 0 length.toNat).rtake capacity) := by
  rw [last_load ptr length]
  obtain rfl := h.size
  have hfifteen := h.fifteen
  have hread := h.read
  have hwrite := h.write
  have hfits := h.fits
  have hskip : (if rb.bufferSize < length.toNat then length.toNat - rb.bufferSize else 0) =
      length.toNat - rb.bufferSize := by
    split <;> omega
  have hmin : (if rb.bufferSize < length.toNat then rb.bufferSize else length.toNat) =
      min length.toNat rb.bufferSize := by
    split <;> omega
  unfold Drivers.rtRingbufferPutForce ForceEmpties
  simp only [h.rtRingbufferSpaceLen, hskip, hmin,
    Nat.mod_eq_of_lt (show rb.bufferSize - held.length < 2 ^ 16 by omega)]
  -- of more bytes than the buffer has only the last ones are put
  generalize length.toNat - rb.bufferSize = skip
  have hk : min length.toNat rb.bufferSize ≤ rb.bufferSize := Nat.min_le_right _ _
  generalize min length.toNat rb.bufferSize = k at hk
  have hlen : (load ptr skip k).length = k := length_load skip k
  have htotal : (held ++ load ptr skip k).length = held.length + k := by simp
  -- with room for all of them nothing is dropped
  have hroom (hle : k ≤ rb.bufferSize - held.length) :
      (held ++ load ptr skip k).rtake rb.bufferSize = held ++ load ptr skip k := by
    rw [List.rtake, htotal, Nat.sub_eq_zero_of_le (by omega), List.drop_zero]
  -- either the bytes end before the end of the buffer, or they go on at its start
  split
  case isTrue hlow =>
    have hw : Written rb.bufferPtr (store rb.bufferPtr rb.writeIndex (load ptr skip k))
        rb.bufferSize rb.writeIndex (load ptr skip k) := written_store (by omega)
    by_cases hover : rb.bufferSize - held.length < k
    · -- the free bytes reach up to the read index, so the mirrors differ
      have hdiffer : rb.readMirror ≠ rb.writeMirror := by
        obtain ⟨-, hindex⟩ | ⟨hmirror, -⟩ := h.mirror
        · omega
        · exact hmirror
      simp only [hover, hdiffer, false_and, if_true, if_false]
      refine h.overwrite hw (by omega) (by omega) ?_ hdiffer
      rw [hlen, Nat.mod_eq_of_lt (by omega), Nat.mod_eq_of_lt (by omega)]
    · simp only [hover, and_false, if_false]
      have hsame := h.write_same hw (by omega) (by omega)
      rwa [hlen, ← hroom (by omega)] at hsame
  case isFalse hhigh =>
    have hw : Written rb.bufferPtr
        (store (store rb.bufferPtr rb.writeIndex
          ((load ptr skip k).take (rb.bufferSize - rb.writeIndex))) 0
          ((load ptr skip k).drop (rb.bufferSize - rb.writeIndex)))
        rb.bufferSize rb.writeIndex (load ptr skip k) :=
      written_store_split hwrite (by omega) (by omega)
    rw [take_load (by omega), drop_load] at hw
    have hindex : (k - (rb.bufferSize - rb.writeIndex)) % 2 ^ 15 =
        (rb.writeIndex + k) % rb.bufferSize := by
      rw [Nat.mod_eq_of_lt (by omega), Nat.mod_eq_sub_mod (by omega), Nat.mod_eq_of_lt (by omega)]
      omega
    by_cases hover : rb.bufferSize - held.length < k
    · by_cases hsame : rb.readMirror = rb.writeMirror
      · -- both mirrors are flipped, and the buffer is empty
        simp only [hover, hsame, and_self, if_true]
        have hlt : (k - (rb.bufferSize - rb.writeIndex)) % 2 ^ 15 < rb.bufferSize := by
          rw [hindex]
          exact Nat.mod_lt _ (by omega)
        exact ⟨rfl, h.fifteen, hlt, hlt, Nat.zero_le _, .inl ⟨rfl, rfl⟩, rfl⟩
      · simp only [hover, hsame, false_and, if_true, if_false]
        refine h.overwrite hw (by omega) (by omega) (by rw [hlen, hindex]) ?_
        simpa using hsame
    · simp only [hover, and_false, if_false]
      have hflip := h.write_flip hw (by omega) (by omega)
      rwa [hlen, ← hroom (by omega)] at hflip

/-- The characters one by one. -/
theorem foldl_putcharForce (h : Holds rb capacity held) (bytes : List Byte) :
    Holds (bytes.foldl (fun rb ch => Drivers.rtRingbufferPutcharForce ch rb) rb) capacity
      ((held ++ bytes).rtake capacity) := by
  induction bytes using List.reverseRecOn with
  | nil =>
    rw [List.append_nil, List.rtake, Nat.sub_eq_zero_of_le h.fits, List.drop_zero]
    exact h
  | append_singleton bytes ch ih =>
    have hnext := ih.rtRingbufferPutcharForce ch
    have hpos : capacity ≠ 0 := fun hzero => absurd h.read (by omega)
    obtain ⟨k, rfl⟩ := Nat.exists_eq_succ_of_ne_zero hpos
    rw [List.foldl_append, List.foldl_cons, List.foldl_nil, ← List.append_assoc]
    rw [List.rtake_concat_succ] at hnext ⊢
    have hkeep : ((held ++ bytes).rtake (k + 1)).rtake k = (held ++ bytes).rtake k := by
      simp only [List.rtake, List.length_drop, List.drop_drop]
      congr 1
      omega
    rwa [hkeep] at hnext

end Holds

/-! ## The two calls -/

/-- `rt_ringbuffer_put_force` leaves the last bytes, as `rt_ringbuffer_putchar_force` does for each
    byte in turn. -/
def PutForceKeepsLast (ptr : Nat → Byte) (length : BitVec 16) (rb : RtRingbuffer) : Prop :=
  let bytes := load ptr 0 length.toNat
  let after := rtRingbufferBytes (rtRingbufferPutForce ptr length rb).1
  after = (rtRingbufferBytes rb ++ bytes).rtake rb.bufferSize ∧
    after = rtRingbufferBytes (bytes.foldl (fun rb ch => rtRingbufferPutcharForce ch rb) rb)

/-- The bytes fit into the free ones, or the write index is a turn ahead of the read index. -/
theorem ringbuffer_put_force {rb : RtRingbuffer} {capacity : Nat} {held : List Byte}
    (h : Holds rb capacity held) (ptr : Nat → Byte) (length : BitVec 16) :
    PutForceKeepsLast ptr length rb ↔
      rb.readMirror ≠ rb.writeMirror ∨ min length.toNat rb.bufferSize ≤ rtRingbufferSpaceLen rb := by
  have hput := h.rtRingbufferPutForce ptr length
  have hchars := h.foldl_putcharForce (load ptr 0 length.toNat)
  have hcond : (rb.readMirror ≠ rb.writeMirror ∨
      min length.toNat rb.bufferSize ≤ rtRingbufferSpaceLen rb) ↔ ¬ Holds.ForceEmpties rb length := by
    rw [Holds.ForceEmpties, not_and_or, Nat.not_lt]
  rw [hcond, PutForceKeepsLast]
  simp only [hput.rtRingbufferBytes, h.rtRingbufferBytes, hchars.rtRingbufferBytes, h.size, and_self]
  by_cases hempties : Holds.ForceEmpties rb length
  · -- what is left of the bytes is not nothing
    simp only [hempties, if_true, not_true_eq_false, iff_false]
    have hshort := hempties.2
    have hread := h.read
    rw [h.size] at hshort
    intro hnil
    have hlength := congrArg List.length hnil
    simp only [List.rtake, List.length_drop, List.length_append, length_load, List.length_nil]
      at hlength
    omega
  · simp [hempties]

/-- A string goes over the end of the buffer and over the oldest bytes. -/
theorem ringbuffer_put_force_over :
    let rb : RtRingbuffer := ⟨fun i => BitVec.ofNat 8 (i + 1), 0, 2, 1, 1, 4⟩
    PutForceKeepsLast (fun i => BitVec.ofNat 8 (i + 65)) 3 rb := by
  intro rb
  have h : Holds rb 4 [3, 4, 1] := ⟨rfl, by decide, by decide, by decide, by decide, by decide, by decide⟩
  exact (ringbuffer_put_force h _ 3).mpr (.inl (by decide))

/-- Both indices are on one side of the mirror. -/
theorem ringbuffer_put_force_empties :
    let rb := (rtRingbufferPut (fun i => BitVec.ofNat 8 (i + 1)) 3 (rtRingbufferInit (fun _ => 0) 4)).1
    rtRingbufferBytes rb = [1, 2, 3] ∧
      rtRingbufferBytes (rtRingbufferPutForce (fun i => BitVec.ofNat 8 (i + 4)) 2 rb).1 = [] ∧
      ¬ PutForceKeepsLast (fun i => BitVec.ofNat 8 (i + 4)) 2 rb := by
  refine ⟨by decide, by decide, ?_⟩
  intro hkeeps
  exact absurd hkeeps.1 (by decide)

end PandoraRobot.Drivers
