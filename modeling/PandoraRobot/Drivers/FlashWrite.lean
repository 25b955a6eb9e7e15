import PandoraRobot.Drivers.Flash
import PandoraRobot.Lib.MemoryBlocks

/-! # Writing the on-chip flash

`stm32_flash_write` of `drv_flash_l4.c`.  A call of `HAL_FLASH_Program` answers with a status, and
with what the double word is afterwards, both of which are inputs.

The flash is programmed in double words.  The driver tests the end of the range in wrapping
arithmetic and does not test its start, it returns from an empty range before it locks the flash
again, and it fills up the last double word with zeros.
-/

namespace PandoraRobot.Drivers

open PandoraRobot.Kernel PandoraRobot.MemoryBlocks

/-! ## The code -/

/-- The lock of the flash, memory, and the calls of `HAL_FLASH_Program`. -/
structure FlashState where
  locked : Bool
  memory : BitVec 32 → BitVec 8
  programs : List (BitVec 32 × BitVec 64)

/-- What the `n`-th call of `HAL_FLASH_Program` answers, for the data that it is to program. -/
abbrev FlashProgram := Nat → BitVec 64 → HalStatus × BitVec 64

namespace FlashState

/-- A call of `HAL_FLASH_Program`, after which a double word of the flash is `content`. -/
def program (addr : BitVec 32) (data content : BitVec 64) (flash : FlashState) : FlashState where
  locked := flash.locked
  memory := storeWord 8 flash.memory addr content
  programs := flash.programs ++ [(addr, data)]

end FlashState

/-- The loops over `j`, which put `count` bytes from the `i`-th on into `write_data`. -/
def assemble (buf : Nat → BitVec 8) : Nat → Nat → Nat → BitVec 64 → BitVec 64
  | 0, _, _, writeData => writeData
  | count + 1, i, j, writeData =>
    assemble buf count (i + 1) (j + 1) (writeData ||| (buf i).setWidth 64 <<< (8 * j))

/-- The number of turns of the loop over `j`. -/
def byteCount (size i : Nat) : Nat := if size - i < 8 then size - i else 8

/-- `write_data` of a turn of the loop over `i`. -/
def turnData (buf : Nat → BitVec 8) (size i : Nat) : BitVec 64 :=
  assemble buf (byteCount size i) i 0 0

/-- The loop over `i`, from the `n`-th call of `HAL_FLASH_Program` on, and `result`. -/
def flashWriteLoop (program : FlashProgram) (buf : Nat → BitVec 8) (size n i : Nat)
    (addr : BitVec 32) (flash : FlashState) : FlashState × Int :=
  if i < size then
    let (status, content) := program n (turnData buf size i)
    let flash := flash.program addr (turnData buf size i) content
    if status = .ok then
      if loadWord 64 8 flash.memory addr ≠ turnData buf size i then (flash, -rtError)
      else flashWriteLoop program buf size (n + 1) (i + byteCount size i) (addr + 8) flash
    else (flash, -rtError)
  else (flash, 0)
termination_by size - i
decreasing_by simp only [byteCount]; split <;> omega

/-- `stm32_flash_write`. -/
def stm32FlashWrite (program : FlashProgram) (addr : BitVec 32) (buf : Nat → BitVec 8)
    (size : BitVec 32) (flash : FlashState) : FlashState × Int :=
  if addr + size > stm32FlashEndAddress then (flash, -rtEinval)
  else if addr.toNat % 8 ≠ 0 then (flash, -rtEinval)
  else
    let flash := { flash with locked := false }
    if size < 1 then (flash, -rtError)
    else
      let (flash, result) := flashWriteLoop program buf size.toNat 0 0 addr flash
      let flash := { flash with locked := true }
      (flash, if result ≠ 0 then result else size.toInt)

/-! ## What a write is to do -/

/-- A flash that is locked, before it is written. -/
def lockedFlash (memory : BitVec 32 → BitVec 8) : FlashState := ⟨true, memory, []⟩

/-- The flash, and the result, after a write. -/
structure WriteRight (memory : BitVec 32 → BitVec 8) (addr : BitVec 32) (buf : Nat → BitVec 8)
    (size : BitVec 32) (after : FlashState) (result : Int) : Prop where
  /-- The range is as the buffer, and no other byte has changed, or the result is an error. -/
  wrote : result = size.toNat ∧ after.memory = written memory addr buf size.toNat ∨ result < 0
  locked : after.locked = true
  /-- A range that leaves the flash is rejected. -/
  rejects : ¬ InFlash addr size → result < 0 ∧ after.programs = []

/-- The length of the double words of a range. -/
def paddedSize (size : BitVec 32) : Nat := 8 * ((size.toNat + 7) / 8)

/-- The bytes between the end of a range and that of its last double word are 0. -/
def PaddingZero (memory : BitVec 32 → BitVec 8) (addr size : BitVec 32) : Prop :=
  ∀ k, size.toNat ≤ k → k < paddedSize size → memory (addr + BitVec.ofNat 32 k) = 0

/-- The driver rejects the end of the range, or its alignment. -/
def WriteRejected (addr size : BitVec 32) : Prop :=
  addr + size > stm32FlashEndAddress ∨ addr.toNat % 8 ≠ 0

/-! ## The loop -/

section Loop

variable {program : FlashProgram} {buf : Nat → BitVec 8} {size n i : Nat} {addr base : BitVec 32}
  {memory : BitVec 32 → BitVec 8} {flash : FlashState}

theorem assemble_joined (count j : Nat) :
    assemble buf count (i + j) j (joined 64 (fun k => buf (i + k)) j) =
      joined 64 (fun k => buf (i + k)) (j + count) := by
  induction count generalizing j with
  | zero => rfl
  | succ count ih =>
    rw [assemble, Nat.add_assoc i j 1]
    exact (ih (j + 1)).trans (by rw [Nat.add_right_comm, Nat.add_assoc])

/-- The buffer, filled up with zeros. -/
def padded (buf : Nat → BitVec 8) (size k : Nat) : BitVec 8 := if k < size then buf k else 0

/-- The bytes of `write_data`. -/
theorem byteAt_assemble {k : Nat} (hk : k < 8) :
    byteAt (assemble buf (byteCount size i) i 0 0) k = padded buf size (i + k) := by
  have hjoined : assemble buf (byteCount size i) i 0 0 =
      joined 64 (fun k => buf (i + k)) (0 + byteCount size i) := assemble_joined _ 0
  rw [hjoined, Nat.zero_add, byteAt_joined (by omega), padded]
  by_cases hlt : i + k < size
  · rw [if_pos hlt, if_pos (by unfold byteCount; split <;> omega)]
  · rw [if_neg hlt, if_neg (by unfold byteCount; split <;> omega)]

theorem readBack (addr : BitVec 32) (data content : BitVec 64) (flash : FlashState) :
    loadWord 64 8 (flash.program addr data content).memory addr = content :=
  loadWord_storeWord rfl (by decide)

theorem flashWriteLoop_done (hi : ¬ i < size) :
    flashWriteLoop program buf size n i addr flash = (flash, 0) := by
  rw [flashWriteLoop, if_neg hi]

/-- A double word that is programmed, and read back as it is to be. -/
theorem flashWriteLoop_next (hi : i < size)
    (hword : program n (turnData buf size i) = (.ok, turnData buf size i)) :
    flashWriteLoop program buf size n i addr flash =
      flashWriteLoop program buf size (n + 1) (i + byteCount size i) (addr + 8)
        (flash.program addr (turnData buf size i) (turnData buf size i)) := by
  rw [flashWriteLoop, if_pos hi]
  simp only [hword, readBack, if_true, ne_eq, not_true, if_false]

/-- A double word that is not. -/
theorem flashWriteLoop_error (hi : i < size)
    (hword : program n (turnData buf size i) ≠ (.ok, turnData buf size i)) :
    flashWriteLoop program buf size n i addr flash =
      (flash.program addr (turnData buf size i) (program n (turnData buf size i)).2,
        -rtError) := by
  rw [flashWriteLoop, if_pos hi]
  simp only [readBack]
  split
  case isTrue hok => exact if_pos fun hcontent => hword (Prod.ext hok hcontent)
  case isFalse => rfl

/-- The first `n` double words are programmed. -/
structure Programmed (memory : BitVec 32 → BitVec 8) (base : BitVec 32) (buf : Nat → BitVec 8)
    (size n i : Nat) (addr : BitVec 32) (flash : FlashState) : Prop where
  memory : flash.memory = written memory base (padded buf size) (8 * n)
  addr : addr = base + BitVec.ofNat 32 (8 * n)
  index : i = min (8 * n) size
  last : 8 * n < size + 8

theorem Programmed.next (h : Programmed memory base buf size n i addr flash) (hi : i < size)
    (hsize : size < 2 ^ 32) :
    Programmed memory base buf size (n + 1) (i + byteCount size i) (addr + 8)
      (flash.program addr (turnData buf size i) (turnData buf size i)) where
  memory := by
    have hplace : i = 8 * n := by
      have hindex := h.index
      omega
    have hbytes : ∀ k < 8, byteAt (turnData buf size i) k = padded buf size (8 * n + k) := by
      intro k hk
      rw [turnData, byteAt_assemble hk, hplace]
    have hfits : 8 * n + 8 ≤ 2 ^ 32 := by omega
    rw [FlashState.program, storeWord, written_congr hbytes, h.memory, h.addr]
    exact written_add hfits
  addr := by
    rw [h.addr, add_assoc, Nat.mul_succ, BitVec.ofNat_add]
    rfl
  index := by
    have hindex := h.index
    unfold byteCount
    split <;> omega
  last := by
    have hindex := h.index
    omega

/-- The loop ends with an error, or all double words are programmed. -/
theorem Programmed.writeLoop (h : Programmed memory base buf size n i addr flash)
    (hsize : size < 2 ^ 32) :
    (flashWriteLoop program buf size n i addr flash).2 < 0 ∨
      (flashWriteLoop program buf size n i addr flash).2 = 0 ∧
        (flashWriteLoop program buf size n i addr flash).1.memory =
          written memory base (padded buf size) (8 * ((size + 7) / 8)) := by
  induction hleft : size - i using Nat.strongRecOn generalizing n i addr flash with
  | ind left ih =>
    by_cases hi : i < size
    case pos =>
      by_cases hword : program n (turnData buf size i) = (.ok, turnData buf size i)
      · rw [flashWriteLoop_next hi hword]
        exact ih _ (by unfold byteCount; split <;> omega) (h.next hi hsize) rfl
      · rw [flashWriteLoop_error hi hword]
        exact .inl (by decide : -rtError < 0)
    case neg =>
      have hindex := h.index
      have hlast := h.last
      have hall : 8 * ((size + 7) / 8) = 8 * n := by omega
      rw [flashWriteLoop_done hi, hall]
      exact .inr ⟨rfl, h.memory⟩

/-- The HAL programs what it is to program. -/
def flashPrograms : FlashProgram := fun _ data => (.ok, data)

theorem flashWriteLoop_flashPrograms :
    (flashWriteLoop flashPrograms buf size n i addr flash).2 = 0 := by
  induction hleft : size - i using Nat.strongRecOn generalizing n i addr flash with
  | ind left ih =>
    by_cases hi : i < size
    · rw [flashWriteLoop_next hi rfl]
      exact ih _ (by unfold byteCount; split <;> omega) rfl
    · rw [flashWriteLoop_done hi]

theorem flashWriteLoop_programs_ne_nil (h : flash.programs ≠ [] ∨ i < size) :
    (flashWriteLoop program buf size n i addr flash).1.programs ≠ [] := by
  induction hleft : size - i using Nat.strongRecOn generalizing n i addr flash with
  | ind left ih =>
    by_cases hi : i < size
    · by_cases hword : program n (turnData buf size i) = (.ok, turnData buf size i)
      · rw [flashWriteLoop_next hi hword]
        exact ih _ (by unfold byteCount; split <;> omega) (.inl (List.concat_ne_nil _ _)) rfl
      · rw [flashWriteLoop_error hi hword]
        exact List.concat_ne_nil _ _
    · rw [flashWriteLoop_done hi]
      exact h.resolve_right hi

end Loop

/-! ## Writes -/

section Writes

variable {memory : BitVec 32 → BitVec 8} {program : FlashProgram} {buf : Nat → BitVec 8}
  {addr size : BitVec 32}

theorem paddedSize_le (size : BitVec 32) :
    size.toNat ≤ paddedSize size ∧ paddedSize size ≤ 2 ^ 32 := by
  have hlt := size.isLt
  unfold paddedSize
  omega

/-- Zeros behind a range make no difference where there are zeros. -/
theorem written_padded (hzero : PaddingZero memory addr size) :
    written memory addr (padded buf size.toNat) (paddedSize size) =
      written memory addr buf size.toNat := by
  funext a
  have hle := paddedSize_le size
  unfold written padded
  by_cases hin : (a - addr).toNat < size.toNat
  · rw [if_pos (by omega), if_pos hin, if_pos hin]
  · rw [if_neg hin, if_neg hin]
    split
    case isTrue hpad =>
      have hbyte := hzero (a - addr).toNat (Nat.le_of_not_lt hin) hpad
      rw [BitVec.ofNat_toNat, BitVec.setWidth_eq, add_sub_cancel] at hbyte
      exact hbyte.symm
    case isFalse => rfl

/-- Otherwise they do. -/
theorem paddingZero_of_written
    (h : written memory addr (padded buf size.toNat) (paddedSize size) =
      written memory addr buf size.toNat) : PaddingZero memory addr size := by
  intro k hge hlt
  have hle := (paddedSize_le size).2
  have hbyte := congrFun h (addr + BitVec.ofNat 32 k)
  rw [written_of_lt hlt hle, written_of_le (by rw [add_sub_toNat (by omega)]; exact hge), padded,
    if_neg (Nat.not_lt.mpr hge)] at hbyte
  exact hbyte.symm

theorem WriteRejected.right (h : WriteRejected addr size) :
    WriteRight memory addr buf size (stm32FlashWrite program addr buf size (lockedFlash memory)).1
      (stm32FlashWrite program addr buf size (lockedFlash memory)).2 := by
  have hrejected : stm32FlashWrite program addr buf size (lockedFlash memory) =
      (lockedFlash memory, -rtEinval) := by
    unfold stm32FlashWrite
    obtain hend | halign := h
    · rw [if_pos hend]
    · rw [if_pos halign, ite_self]
  have hneg : -rtEinval < 0 := by decide
  rw [hrejected]
  exact ⟨.inr hneg, rfl, fun _ => ⟨hneg, rfl⟩⟩

/-- What a write of a range is that the driver accepts. -/
theorem stm32FlashWrite_accepted (haccepted : ¬ WriteRejected addr size) (hsome : size ≠ 0) :
    stm32FlashWrite program addr buf size (lockedFlash memory) =
      ({ (flashWriteLoop program buf size.toNat 0 0 addr ⟨false, memory, []⟩).1 with
          locked := true },
        if (flashWriteLoop program buf size.toNat 0 0 addr ⟨false, memory, []⟩).2 ≠ 0 then
          (flashWriteLoop program buf size.toNat 0 0 addr ⟨false, memory, []⟩).2
        else size.toInt) := by
  obtain ⟨hend, halign⟩ := not_or.mp haccepted
  have hpos : ¬ size < 1 := by bv_omega
  rw [stm32FlashWrite, if_neg hend, if_neg halign]
  simp only [hpos, if_false]
  rfl

theorem programmed_start :
    Programmed memory addr buf size.toNat 0 0 addr ⟨false, memory, []⟩ where
  memory := rfl
  addr := by simp
  index := by simp
  last := by omega

theorem InFlash.right (h : InFlash addr size) (haccepted : ¬ WriteRejected addr size)
    (hsome : size ≠ 0) (hzero : PaddingZero memory addr size) :
    WriteRight memory addr buf size (stm32FlashWrite program addr buf size (lockedFlash memory)).1
      (stm32FlashWrite program addr buf size (lockedFlash memory)).2 := by
  have hstart := h.start
  have hstop := h.stop
  have hint : size.toInt = size.toNat := BitVec.toInt_eq_toNat_of_lt (by omega)
  rw [stm32FlashWrite_accepted haccepted hsome]
  refine ⟨?_, rfl, fun hout => absurd h hout⟩
  have hloop := @Programmed.writeLoop program buf size.toNat 0 0 addr addr memory
    ⟨false, memory, []⟩ programmed_start size.isLt
  obtain herror | ⟨hresult, hmemory⟩ := hloop
  · exact .inr (by rw [if_pos (ne_of_lt herror)]; exact herror)
  · refine .inl ⟨by rw [if_neg (not_not.mpr hresult), hint], ?_⟩
    exact hmemory.trans (written_padded hzero)

/-- A write fails to lock the flash, to reject its range, or to leave other bytes alone. -/
theorem not_right_of_accepted (haccepted : ¬ WriteRejected addr size)
    (hbad : ¬ (size ≠ 0 ∧ InFlash addr size ∧ PaddingZero memory addr size)) :
    ¬ WriteRight memory addr buf size
      (stm32FlashWrite flashPrograms addr buf size (lockedFlash memory)).1
      (stm32FlashWrite flashPrograms addr buf size (lockedFlash memory)).2 := by
  intro hright
  by_cases hsome : size = 0
  · subst hsome
    have hlocked := hright.locked
    obtain ⟨hend, halign⟩ := not_or.mp haccepted
    have hempty : (0 : BitVec 32) < 1 := by decide
    simp only [stm32FlashWrite, if_neg hend, if_neg halign, if_pos hempty] at hlocked
    exact Bool.false_ne_true hlocked
  · have hpos : 0 < size.toNat := by bv_omega
    rw [stm32FlashWrite_accepted haccepted hsome] at hright
    by_cases hflash : InFlash addr size
    · refine hbad ⟨hsome, hflash, ?_⟩
      have hstop := hflash.stop
      have hstart := hflash.start
      have hint : size.toInt = size.toNat := BitVec.toInt_eq_toNat_of_lt (by omega)
      have hresult := @flashWriteLoop_flashPrograms buf size.toNat 0 0 addr ⟨false, memory, []⟩
      have hloop := @Programmed.writeLoop flashPrograms buf size.toNat 0 0 addr addr memory
        ⟨false, memory, []⟩ programmed_start size.isLt
      obtain herror | ⟨-, hmemory⟩ := hloop
      · exact absurd hresult (ne_of_lt herror)
      · obtain ⟨-, hwrote⟩ | hneg := hright.wrote
        · exact paddingZero_of_written (hmemory.symm.trans hwrote)
        · rw [if_neg (not_not.mpr hresult), hint] at hneg
          omega
    · exact flashWriteLoop_programs_ne_nil (.inr hpos) (hright.rejects hflash).2

/-- A write does what it is to do, whatever the HAL answers, if and only if the driver rejects its
    range or alignment, or the range is not empty, inside the flash, and padded with zeros that are
    there already. -/
theorem stm32_flash_write_right (memory : BitVec 32 → BitVec 8) (addr : BitVec 32)
    (buf : Nat → BitVec 8) (size : BitVec 32) :
    (∀ program, WriteRight memory addr buf size
        (stm32FlashWrite program addr buf size (lockedFlash memory)).1
        (stm32FlashWrite program addr buf size (lockedFlash memory)).2) ↔
      WriteRejected addr size ∨
        size ≠ 0 ∧ InFlash addr size ∧ PaddingZero memory addr size := by
  constructor
  · intro hright
    by_contra hbad
    obtain ⟨haccepted, hbad⟩ := not_or.mp hbad
    exact not_right_of_accepted haccepted hbad (hright flashPrograms)
  · intro hcond program
    by_cases hrejected : WriteRejected addr size
    · exact hrejected.right
    · obtain ⟨hsome, hflash, hzero⟩ := hcond.resolve_left hrejected
      exact hflash.right hrejected hsome hzero

/-- Of an erased flash: an empty range leaves it unlocked, a byte takes seven more with it, and
    ranges in front of the flash and around the end of the addresses are programmed. -/
theorem stm32_flash_write_wrong :
    (stm32FlashWrite flashPrograms 0x08000000 (fun _ => 0x5a) 0
        (lockedFlash fun _ => 0xff)).1.locked = false ∧
      ¬ WriteRight (fun _ => 0xff) 0x08000000 (fun _ => 0x5a) 1
        (stm32FlashWrite flashPrograms 0x08000000 (fun _ => 0x5a) 1 (lockedFlash fun _ => 0xff)).1
        (stm32FlashWrite flashPrograms 0x08000000 (fun _ => 0x5a) 1
          (lockedFlash fun _ => 0xff)).2 ∧
      ¬ WriteRight (fun _ => 0xff) 0 (fun _ => 0x5a) 8
        (stm32FlashWrite flashPrograms 0 (fun _ => 0x5a) 8 (lockedFlash fun _ => 0xff)).1
        (stm32FlashWrite flashPrograms 0 (fun _ => 0x5a) 8 (lockedFlash fun _ => 0xff)).2 ∧
      ¬ WriteRight (fun _ => 0xff) 0xfffffff8 (fun _ => 0x5a) 16
        (stm32FlashWrite flashPrograms 0xfffffff8 (fun _ => 0x5a) 16
          (lockedFlash fun _ => 0xff)).1
        (stm32FlashWrite flashPrograms 0xfffffff8 (fun _ => 0x5a) 16
          (lockedFlash fun _ => 0xff)).2 := by
  refine ⟨rfl, not_right_of_accepted ?_ ?_, not_right_of_accepted ?_ ?_,
    not_right_of_accepted ?_ ?_⟩
  · unfold WriteRejected
    decide
  · rintro ⟨-, -, hzero⟩
    exact absurd (hzero 1 (by decide) (by decide)) (by decide)
  · unfold WriteRejected
    decide
  · rintro ⟨-, hflash, -⟩
    exact absurd hflash.start (by decide)
  · unfold WriteRejected
    decide
  · rintro ⟨-, hflash, -⟩
    exact absurd hflash.stop (by decide)

end Writes

end PandoraRobot.Drivers
