import PandoraRobot.Drivers.Status
import PandoraRobot.Kernel.Device

/-! # Erasing the on-chip flash

`stm32_flash_erase` of `drv_flash_l4.c`, and the loop of `HAL_FLASHEx_Erase` below it, for the
STM32L475VE of the board: two banks of 256 KB, with pages of 2 KB, which the bit `FB_MODE` swaps.
What the flash controller answers is an input.

The number of a page starts from 0 in each bank.  The driver takes the difference of the page
numbers at the two ends of the range, and the bank of its start.
-/

namespace PandoraRobot.Drivers

open PandoraRobot.Kernel

/-! ## The code -/

/-- `FLASH_BASE`, which is also `STM32_FLASH_START_ADRESS`. -/
def flashBase : BitVec 32 := 0x08000000

/-- `STM32_FLASH_END_ADDRESS`. -/
def stm32FlashEndAddress : BitVec 32 := flashBase + 512 * 1024

/-- `FLASH_BANK_SIZE`: half of `FLASH_SIZE`, which the size register of the chip gives. -/
def flashBankSize : BitVec 32 := (512 <<< 10) >>> 1

/-- `FLASH_PAGE_SIZE`. -/
def flashPageSize : BitVec 32 := 0x800

/-- `FLASH_BANK_1` and `FLASH_BANK_2`. -/
inductive FlashBank where
  | bank1
  | bank2
  deriving DecidableEq, Repr

/-- `GetPage`. -/
def getPage (addr : BitVec 32) : BitVec 32 :=
  if addr < flashBase + flashBankSize then (addr - flashBase) / flashPageSize
  else (addr - (flashBase + flashBankSize)) / flashPageSize

/-- `GetBank`.  `fbMode` is the bit `SYSCFG_MEMRMP_FB_MODE`. -/
def getBank (fbMode : Bool) (addr : BitVec 32) : FlashBank :=
  if fbMode = false then if addr < flashBase + flashBankSize then .bank1 else .bank2
  else if addr < flashBase + flashBankSize then .bank2 else .bank1

/-- The lock of the HAL, and what `FLASH_WaitForLastOperation` returns each time. -/
structure FlashOutcomes where
  locked : Bool
  wait : Nat → HalStatus

/-- The loop of `HAL_FLASHEx_Erase`: the pages for which `FLASH_PageErase` starts an erase, by the
    bank and the page number that it puts into the control register, and the status. -/
def eraseLoop (wait : Nat → HalStatus) (banks : FlashBank) (n : Nat) (pageIndex last : BitVec 32) :
    List (FlashBank × BitVec 8) × HalStatus :=
  if pageIndex < last then
    if wait n = .ok then
      let next := eraseLoop wait banks (n + 1) (pageIndex + 1) last
      ((banks, pageIndex.setWidth 8) :: next.1, next.2)
    else ([(banks, pageIndex.setWidth 8)], wait n)
  else ([], .ok)
termination_by last.toNat - pageIndex.toNat
decreasing_by bv_omega

/-- `HAL_FLASHEx_Erase` of pages. -/
def halFlashExErase (outcomes : FlashOutcomes) (banks : FlashBank) (page nbPages : BitVec 32) :
    List (FlashBank × BitVec 8) × HalStatus :=
  if outcomes.locked then ([], .busy)
  else if outcomes.wait 0 = .ok then eraseLoop outcomes.wait banks 1 page (page + nbPages)
  else ([], outcomes.wait 0)

/-- `stm32_flash_erase`. -/
def stm32FlashErase (fbMode : Bool) (outcomes : FlashOutcomes) (addr size : BitVec 32) :
    List (FlashBank × BitVec 8) × Int :=
  if addr + size > stm32FlashEndAddress then ([], -rtEinval)
  else
    let firstPage := getPage addr
    let nbOfPages := getPage (addr + size - 1) - firstPage + 1
    let erase := halFlashExErase outcomes (getBank fbMode addr) firstPage nbOfPages
    (erase.1, if erase.2 ≠ .ok then -rtError else size.toInt)

/-- A partition of the flash device, by its offset and its length. -/
structure FalPartition where
  offset : Nat
  len : Nat

/-- `ONCHIP_FLASH_PATITION` of `fal_cfg.h`: `app` and `param`. -/
def onchipFlashPartition : List FalPartition := [⟨0, 496 * 1024⟩, ⟨496 * 1024, 16 * 1024⟩]

/-! ## What an erase is to do -/

/-- The bank at the start of the flash. -/
def firstBank (fbMode : Bool) : FlashBank := if fbMode then .bank2 else .bank1

/-- The address at which a page of a bank starts. -/
def pageAddress (fbMode : Bool) (bank : FlashBank) (page : BitVec 8) : Nat :=
  (if bank = firstBank fbMode then 0x08000000 else 0x08040000) + 2048 * page.toNat

/-- A page of the chip has an address in the range. -/
def Overlaps (fbMode : Bool) (addr size : BitVec 32) (page : FlashBank × BitVec 8) : Prop :=
  page.2.toNat < 128 ∧ ∃ a, addr.toNat ≤ a ∧ a < addr.toNat + size.toNat ∧
    pageAddress fbMode page.1 page.2 ≤ a ∧ a < pageAddress fbMode page.1 page.2 + 2048

/-- Only pages of the range are erased, and all of them if the controller does not fail. -/
structure ErasesRange (fbMode : Bool) (outcomes : FlashOutcomes) (addr size : BitVec 32) :
    Prop where
  only : ∀ page ∈ (stm32FlashErase fbMode outcomes addr size).1, Overlaps fbMode addr size page
  all : outcomes.locked = false → (∀ n, outcomes.wait n = .ok) → ∀ page,
    Overlaps fbMode addr size page → page ∈ (stm32FlashErase fbMode outcomes addr size).1

/-- The range is inside a partition of the flash device. -/
def InPartition (addr size : BitVec 32) : Prop :=
  ∃ part ∈ onchipFlashPartition, 0x08000000 + part.offset ≤ addr.toNat ∧
    addr.toNat + size.toNat ≤ 0x08000000 + part.offset + part.len

/-- The range is in one bank; an empty one is at the start of a page that is not the first of its
    bank, or at the end of the flash. -/
def InOneBank (addr size : BitVec 32) : Prop :=
  (size ≠ 0 ∧ (addr.toNat < 0x08040000 ↔ addr.toNat + size.toNat - 1 < 0x08040000)) ∨
    (size = 0 ∧ addr.toNat % 2048 = 0 ∧ addr.toNat ≠ 0x08000000 ∧ addr.toNat ≠ 0x08040000)

/-! ## The loop of the HAL -/

section Loop

variable {wait : Nat → HalStatus} {banks : FlashBank} {n k : Nat} {pageIndex last : BitVec 32}

/-- The loop erases pages from `pageIndex` on, before `last`. -/
theorem mem_eraseLoop {page : FlashBank × BitVec 8}
    (h : page ∈ (eraseLoop wait banks n pageIndex last).1) :
    ∃ k, pageIndex.toNat ≤ k ∧ k < last.toNat ∧ page = (banks, BitVec.ofNat 8 k) := by
  induction hleft : last.toNat - pageIndex.toNat using Nat.strongRecOn generalizing n pageIndex with
  | ind left ih =>
    rw [eraseLoop] at h
    split at h
    case isFalse => cases h
    case isTrue hlt =>
      have hlt' := BitVec.lt_def.mp hlt
      have hfirst : (banks, pageIndex.setWidth 8) = (banks, BitVec.ofNat 8 pageIndex.toNat) := by
        rw [BitVec.ofNat_toNat]
      split at h
      case isTrue =>
        rcases List.mem_cons.mp h with rfl | hrest
        · exact ⟨pageIndex.toNat, Nat.le_refl _, hlt', hfirst⟩
        · have hnext : (pageIndex + 1).toNat = pageIndex.toNat + 1 := by bv_omega
          obtain ⟨k, hlow, hhigh, heq⟩ := ih _ (by omega) hrest rfl
          exact ⟨k, by omega, hhigh, heq⟩
      case isFalse =>
        rw [List.mem_singleton.mp h]
        exact ⟨pageIndex.toNat, Nat.le_refl _, hlt', hfirst⟩

/-- It erases all of them if none fails. -/
theorem eraseLoop_all (hok : ∀ n, wait n = .ok) (hlow : pageIndex.toNat ≤ k)
    (hhigh : k < last.toNat) :
    (banks, BitVec.ofNat 8 k) ∈ (eraseLoop wait banks n pageIndex last).1 := by
  induction hleft : last.toNat - pageIndex.toNat using Nat.strongRecOn generalizing n pageIndex with
  | ind left ih =>
    have hlt : pageIndex < last := BitVec.lt_def.mpr (by omega)
    rw [eraseLoop, if_pos hlt, if_pos (hok n)]
    obtain rfl | hmore := Nat.eq_or_lt_of_le hlow
    · rw [BitVec.ofNat_toNat]
      exact List.mem_cons_self
    · have hnext : (pageIndex + 1).toNat = pageIndex.toNat + 1 := by bv_omega
      exact List.mem_cons_of_mem _ (ih _ (by omega) (by omega) rfl)

end Loop

/-! ## The pages of a range -/

section Range

variable {fbMode : Bool} {outcomes : FlashOutcomes} {addr size : BitVec 32}

/-- A range of the flash. -/
structure InFlash (addr size : BitVec 32) : Prop where
  start : 0x08000000 ≤ addr.toNat
  stop : addr.toNat + size.toNat ≤ 0x08080000

theorem InPartition.inFlash (h : InPartition addr size) : InFlash addr size := by
  obtain ⟨part, hpart, hlow, hhigh⟩ := h
  simp only [onchipFlashPartition, List.mem_cons, List.not_mem_nil, or_false] at hpart
  rcases hpart with rfl | rfl
  · exact ⟨by omega, by dsimp only at hhigh; omega⟩
  · exact ⟨by omega, by dsimp only at hhigh; omega⟩

theorem lt_bank2 : addr < flashBase + flashBankSize ↔ addr.toNat < 0x08040000 := by
  rw [BitVec.lt_def]
  rfl

/-- Where the half of the flash starts in which an address is. -/
def halfStart (a : Nat) : Nat := if a < 0x08040000 then 0x08000000 else 0x08040000

/-- The number of a page counts from the start of its half. -/
theorem getPage_toNat (h : 0x08000000 ≤ addr.toNat) :
    (getPage addr).toNat = (addr.toNat - halfStart addr.toNat) / 2048 := by
  unfold getPage halfStart
  by_cases hlow : addr.toNat < 0x08040000
  · have hsub : (addr - flashBase).toNat = addr.toNat - 0x08000000 :=
      BitVec.toNat_sub_of_le (BitVec.le_def.mpr h)
    rw [if_pos (lt_bank2.mpr hlow), if_pos hlow, BitVec.toNat_udiv, hsub]
    rfl
  · have hsub : (addr - (flashBase + flashBankSize)).toNat = addr.toNat - 0x08040000 :=
      BitVec.toNat_sub_of_le (BitVec.le_def.mpr (Nat.le_of_not_lt hlow))
    rw [if_neg (mt lt_bank2.mp hlow), if_neg hlow, BitVec.toNat_udiv, hsub]
    rfl

theorem getBank_eq_firstBank :
    getBank fbMode addr = firstBank fbMode ↔ addr.toNat < 0x08040000 := by
  rw [← lt_bank2]
  cases fbMode
  · by_cases hlow : addr < flashBase + flashBankSize <;> simp [getBank, firstBank, hlow]
  · by_cases hlow : addr < flashBase + flashBankSize <;> simp [getBank, firstBank, hlow]

theorem bank_eq_of_firstBank {bank bank' : FlashBank}
    (h : bank = firstBank fbMode ↔ bank' = firstBank fbMode) : bank = bank' := by
  revert h
  cases fbMode <;> cases bank <;> cases bank' <;> simp [firstBank]

/-- The bank of an address is the one that is mapped in its half. -/
theorem pageAddress_getBank (page : BitVec 8) :
    pageAddress fbMode (getBank fbMode addr) page = halfStart addr.toNat + 2048 * page.toNat := by
  simp only [pageAddress, getBank_eq_firstBank, halfStart]

/-- A page that has an address in the same half is in the same bank. -/
theorem bank_of_address {page : FlashBank × BitVec 8} {a : Nat} (hpage : page.2.toNat < 128)
    (hlow : pageAddress fbMode page.1 page.2 ≤ a)
    (hhigh : a < pageAddress fbMode page.1 page.2 + 2048)
    (hhalf : a < 0x08040000 ↔ addr.toNat < 0x08040000) : page.1 = getBank fbMode addr := by
  apply bank_eq_of_firstBank
  rw [getBank_eq_firstBank, ← hhalf]
  unfold pageAddress at hlow hhigh
  constructor
  · intro hfirst
    rw [if_pos hfirst] at hhigh
    omega
  · intro hlower
    by_contra hother
    rw [if_neg hother] at hlow
    omega

/-! ## What the driver erases -/

/-- The driver erases pages of the bank in which the range starts. -/
theorem mem_erased {page : FlashBank × BitVec 8}
    (hpage : page ∈ (stm32FlashErase fbMode outcomes addr size).1) :
    ∃ k, (getPage addr).toNat ≤ k ∧ k < (getPage (addr + size - 1) + 1).toNat ∧
      page = (getBank fbMode addr, BitVec.ofNat 8 k) := by
  have hlast : getPage addr + (getPage (addr + size - 1) - getPage addr + 1) =
      getPage (addr + size - 1) + 1 := by bv_omega
  unfold stm32FlashErase at hpage
  split at hpage
  · cases hpage
  · simp only [halFlashExErase, hlast] at hpage
    split at hpage
    · cases hpage
    · split at hpage
      · exact mem_eraseLoop hpage
      · cases hpage

theorem erased_all (fbMode : Bool) (h : InFlash addr size) (hlocked : outcomes.locked = false)
    (hok : ∀ n, outcomes.wait n = .ok) (k : Nat) (hlow : (getPage addr).toNat ≤ k)
    (hhigh : k < (getPage (addr + size - 1) + 1).toNat) :
    (getBank fbMode addr, BitVec.ofNat 8 k) ∈ (stm32FlashErase fbMode outcomes addr size).1 := by
  have hlast : getPage addr + (getPage (addr + size - 1) - getPage addr + 1) =
      getPage (addr + size - 1) + 1 := by bv_omega
  have hrange : ¬ addr + size > stm32FlashEndAddress := by
    have hstart := h.start
    have hstop := h.stop
    have hend : stm32FlashEndAddress.toNat = 0x08080000 := rfl
    intro hover
    have hlt := BitVec.lt_def.mp hover
    rw [hend, BitVec.toNat_add] at hlt
    omega
  rw [stm32FlashErase, if_neg hrange]
  simp only [halFlashExErase, hlast, hlocked, Bool.false_eq_true, if_false, hok 0, if_true]
  exact eraseLoop_all hok hlow hhigh

/-- The last address of a range. -/
theorem last_toNat (h : InFlash addr size) :
    (addr + size - 1).toNat = addr.toNat + size.toNat - 1 := by
  have hstart := h.start
  have hstop := h.stop
  bv_omega

theorem halfStart_le {a : Nat} (h : 0x08000000 ≤ a) : halfStart a ≤ a := by
  unfold halfStart
  split <;> omega

theorem lt_halfStart {a : Nat} (h : a < 0x08080000) : a < halfStart a + 0x40000 := by
  unfold halfStart
  split <;> omega

/-- The number of the page after the last one, of a range in one half. -/
theorem lastPage_toNat (h : InFlash addr size) (hlast : 0x08000000 < addr.toNat + size.toNat)
    (hhalf : halfStart (addr.toNat + size.toNat - 1) = halfStart addr.toNat) :
    (getPage (addr + size - 1) + 1).toNat =
      (addr.toNat + size.toNat - 1 - halfStart addr.toNat) / 2048 + 1 := by
  have hstop := h.stop
  have hpage : (getPage (addr + size - 1)).toNat =
      (addr.toNat + size.toNat - 1 - halfStart addr.toNat) / 2048 := by
    rw [getPage_toNat (by rw [last_toNat h]; omega), last_toNat h, hhalf]
  rw [← hpage, BitVec.toNat_add, hpage]
  have hone : (1 : BitVec 32).toNat = 1 := rfl
  rw [hone]
  omega

theorem InOneBank.erasesRange (h : InFlash addr size) (hbank : InOneBank addr size)
    (fbMode : Bool) (outcomes : FlashOutcomes) : ErasesRange fbMode outcomes addr size := by
  have hstart := h.start
  have hstop := h.stop
  rcases hbank with ⟨hsome, hone⟩ | ⟨rfl, haligned, hfirst, hsecond⟩
  · have hpos : 0 < size.toNat := Nat.pos_of_ne_zero fun hzero =>
      hsome (BitVec.eq_of_toNat_eq hzero)
    have hhalf : halfStart (addr.toNat + size.toNat - 1) = halfStart addr.toNat := by
      simp only [halfStart, hone]
    have hpage := getPage_toNat hstart
    have hafter := lastPage_toNat h (by omega) hhalf
    have hbase := halfStart_le hstart
    have hend : addr.toNat + size.toNat - 1 < halfStart addr.toNat + 0x40000 :=
      hhalf ▸ lt_halfStart (by omega)
    constructor
    · intro page herased
      obtain ⟨k, hlow, hhigh, rfl⟩ := mem_erased herased
      have hk : (BitVec.ofNat 8 k).toNat = k := by
        rw [BitVec.toNat_ofNat]
        omega
      refine ⟨by rw [hk]; omega, max addr.toNat (halfStart addr.toNat + 2048 * k), ?_⟩
      dsimp only
      rw [pageAddress_getBank, hk]
      omega
    · rintro hlocked hok ⟨bank, page⟩ ⟨hlast, a, hge, hlt, hlow, hhigh⟩
      obtain rfl : bank = getBank fbMode addr :=
        @bank_of_address fbMode addr (bank, page) a hlast hlow hhigh (by omega)
      dsimp only at hlow hhigh
      rw [pageAddress_getBank] at hlow hhigh
      have hmem := erased_all fbMode h hlocked hok page.toNat (by omega) (by omega)
      rwa [BitVec.ofNat_toNat, BitVec.setWidth_eq] at hmem
  · have hzero : (0 : BitVec 32).toNat = 0 := rfl
    rw [hzero] at hstop
    constructor
    · intro page herased
      -- the page of the address before the range is the one before the page of the range
      obtain ⟨k, hlow, hhigh, rfl⟩ := mem_erased herased
      have hhalf : halfStart (addr.toNat + (0 : BitVec 32).toNat - 1) = halfStart addr.toNat := by
        unfold halfStart
        rw [hzero]
        split <;> split <;> omega
      rw [lastPage_toNat h (by omega) hhalf, hzero] at hhigh
      rw [getPage_toNat hstart] at hlow
      by_cases hlower : addr.toNat < 0x08040000
      · simp only [halfStart, hlower, if_true] at hlow hhigh
        omega
      · simp only [halfStart, hlower, if_false] at hlow hhigh
        omega
    · rintro - - page ⟨-, a, hge, hlt, -⟩
      rw [hzero] at hlt
      omega

/-- A flash controller that does not fail. -/
def flashWorks : FlashOutcomes := ⟨false, fun _ => .ok⟩

/-- The pages of the second half are not erased where the range starts in the first one. -/
theorem not_erasesRange_across (h : InFlash addr size) (hlow : addr.toNat < 0x08040000)
    (hhigh : 0x08040000 < addr.toNat + size.toNat) :
    ¬ ErasesRange fbMode flashWorks addr size := by
  intro herases
  have hstop := h.stop
  have hlast := last_toNat h
  have hlast_high : ¬ (addr + size - 1).toNat < 0x08040000 := by omega
  have hpage : (BitVec.ofNat 8 ((addr.toNat + size.toNat - 1 - 0x08040000) / 2048)).toNat =
      (addr.toNat + size.toNat - 1 - 0x08040000) / 2048 := by
    rw [BitVec.toNat_ofNat]
    omega
  have hoverlaps : Overlaps fbMode addr size (getBank fbMode (addr + size - 1),
      BitVec.ofNat 8 ((addr.toNat + size.toNat - 1 - 0x08040000) / 2048)) := by
    refine ⟨by rw [hpage]; omega, addr.toNat + size.toNat - 1, by omega, by omega, ?_⟩
    dsimp only
    rw [pageAddress_getBank, hpage]
    simp only [halfStart, hlast_high, if_false]
    omega
  obtain ⟨k, -, -, heq⟩ := mem_erased (herases.all rfl (fun _ => rfl) _ hoverlaps)
  have hbank : getBank fbMode (addr + size - 1) = getBank fbMode addr := congrArg Prod.fst heq
  have hfirst : getBank fbMode addr = firstBank fbMode := getBank_eq_firstBank.mpr hlow
  exact hlast_high (getBank_eq_firstBank.mp (hbank.trans hfirst))

/-- For an empty range, the page numbers at its two ends are those of one page, or of the ends of
    different banks. -/
theorem not_erasesRange_empty (h : InFlash addr 0)
    (hbad : addr.toNat % 2048 ≠ 0 ∨ addr.toNat = 0x08000000 ∨ addr.toNat = 0x08040000) :
    ¬ ErasesRange fbMode flashWorks addr 0 := by
  intro herases
  have hstart := h.start
  have hbelow : (getPage addr).toNat < (getPage (addr + 0 - 1) + 1).toNat := by
    rcases hbad with hinside | hfirst | hsecond
    · have hhalf : halfStart (addr.toNat + (0 : BitVec 32).toNat - 1) = halfStart addr.toNat := by
        show halfStart (addr.toNat + 0 - 1) = halfStart addr.toNat
        unfold halfStart
        split <;> split <;> omega
      have hpos : 0x08000000 < addr.toNat + (0 : BitVec 32).toNat := by
        show 0x08000000 < addr.toNat + 0
        omega
      rw [lastPage_toNat h hpos hhalf, getPage_toNat hstart]
      show _ < (addr.toNat + 0 - 1 - _) / 2048 + 1
      by_cases hlower : addr.toNat < 0x08040000
      · simp only [halfStart, hlower, if_true]
        omega
      · simp only [halfStart, hlower, if_false]
        omega
    · obtain rfl : addr = 0x08000000 := BitVec.eq_of_toNat_eq hfirst
      decide
    · obtain rfl : addr = 0x08040000 := BitVec.eq_of_toNat_eq hsecond
      decide
  have hmem := @erased_all flashWorks addr 0 fbMode h rfl (fun _ => rfl) _ (Nat.le_refl _) hbelow
  obtain ⟨-, a, hge, hlt, -⟩ := herases.only _ hmem
  exact absurd hlt (Nat.not_lt.mpr hge)

/-- For a range inside a partition: the driver erases the pages of the range and no others, whatever
    the controller answers, if and only if the range is in one bank. -/
theorem stm32_flash_erase_exact (fbMode : Bool) (addr size : BitVec 32)
    (h : InPartition addr size) :
    (∀ outcomes, ErasesRange fbMode outcomes addr size) ↔ InOneBank addr size := by
  have hflash := h.inFlash
  constructor
  · intro herases
    by_contra hbank
    rw [InOneBank, not_or] at hbank
    obtain ⟨hacross, hempty⟩ := hbank
    by_cases hzero : size = 0
    · subst hzero
      refine not_erasesRange_empty hflash ?_ (herases flashWorks)
      by_contra hgood
      obtain ⟨haligned, hgood⟩ := not_or.mp hgood
      obtain ⟨hfirst, hsecond⟩ := not_or.mp hgood
      exact hempty ⟨rfl, not_not.mp haligned, hfirst, hsecond⟩
    · have hends : ¬ (addr.toNat < 0x08040000 ↔ addr.toNat + size.toNat - 1 < 0x08040000) :=
        fun hone => hacross ⟨hzero, hone⟩
      have hpos : 0 < size.toNat := Nat.pos_of_ne_zero fun hsize =>
        hzero (BitVec.eq_of_toNat_eq hsize)
      exact not_erasesRange_across hflash (by omega) (by omega) (herases flashWorks)
  · intro hbank outcomes
    exact hbank.erasesRange hflash fbMode outcomes

end Range

/-- The last page of the second partition. -/
theorem stm32_flash_erase_exact_param :
    (∀ outcomes, ErasesRange false outcomes 0x0807f800 2048) ↔ InOneBank 0x0807f800 2048 :=
  stm32_flash_erase_exact false 0x0807f800 2048
    ⟨⟨496 * 1024, 16 * 1024⟩, .tail _ (.head _), by decide, by decide⟩

/-- Two pages across the boundary of the banks, in the first partition: neither of them is erased.
    An empty range at that boundary: page 0 of the second bank is erased. -/
theorem stm32_flash_erase_wrong :
    InPartition 0x0803f800 4096 ∧ ¬ ErasesRange false flashWorks 0x0803f800 4096 ∧
      (stm32FlashErase false flashWorks 0x0803f800 4096).1 = [] ∧
      InPartition 0x08040000 0 ∧ ¬ ErasesRange false flashWorks 0x08040000 0 ∧
      (.bank2, 0) ∈ (stm32FlashErase false flashWorks 0x08040000 0).1 := by
  have happ : InPartition 0x0803f800 4096 :=
    ⟨⟨0, 496 * 1024⟩, .head _, by decide, by decide⟩
  have hempty : InPartition 0x08040000 0 := ⟨⟨0, 496 * 1024⟩, .head _, by decide, by decide⟩
  refine ⟨happ, not_erasesRange_across happ.inFlash (by decide) (by decide), ?_, hempty,
    not_erasesRange_empty hempty.inFlash (.inr (.inr rfl)), ?_⟩
  · refine List.eq_nil_iff_forall_not_mem.mpr fun page hpage => ?_
    obtain ⟨k, hlow, hhigh, -⟩ := mem_erased hpage
    have hfirst : (getPage 0x0803f800).toNat = 127 := by decide
    have hafter : (getPage (0x0803f800 + 4096 - 1) + 1).toNat = 1 := by decide
    omega
  · exact @erased_all flashWorks 0x08040000 0 false hempty.inFlash rfl (fun _ => rfl) 0 (by decide)
      (by decide)

end PandoraRobot.Drivers
