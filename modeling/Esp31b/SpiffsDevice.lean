import Esp31b.SpiffsHal
import Esp31b.SpiffsRead

/-!
# The flash under SPIFFS

SPIFFS is given three functions for its flash, and a configuration: where it is, how it is cut
into pages and blocks. `SpiffsHal` has the functions, `spiffsHal` those of this system, and
`SpiffsConfig` carries what a configuration has to meet.

The functions of this system are not right for every address. `SpiffsHal.Sound` is what they are
right for: reads from word boundaries, writes of not more than 512 bytes, and whole sectors
(`sound_spiffsHal`).
-/

/-- The three functions of `spiffs_config`: flash contents, address and data to the result and
what was read, or the new contents. An erase may not return. -/
structure SpiffsFlash where
  read : ByteMem → ℕ → ℕ → ℤ × List UInt8
  write : ByteMem → ℕ → List UInt8 → ℤ × ByteMem
  erase : ByteMem → ℕ → ℕ → Option (ℤ × ByteMem)

/-- Bytes of the flash are erased. -/
def ByteMem.erased (f : ByteMem) (a n : ℕ) : ByteMem :=
  fun j => if a ≤ j ∧ j < a + n then 0xFF else f j

/-- `SPI_FLASH_SEC_SIZE`. -/
def spiFlashSecSize : ℕ := 4096

/-- **What the functions are right for.** -/
structure SpiffsFlash.Sound (hal : SpiffsFlash) : Prop where
  read : ∀ f a n, 4 ∣ a → a + n + 3 < 2 ^ 32 → hal.read f a n = (0, f.slice a n)
  write : ∀ f a d, d.length ≤ 512 → a + d.length + 3 < 2 ^ 32 →
    hal.write f a d = (0, f.combineAt (· &&& ·) a d)
  erase : ∀ f a n, spiFlashSecSize ∣ a → spiFlashSecSize ∣ n →
    hal.erase f a n = some (0, f.erased a n)

/-- The SDK's `spi_flash_erase_sector`. -/
abbrev SpiFlashEraseSector : Type := ByteMem → ℕ → ℤ × ByteMem

/-- **What the SDK documents**: the bytes of the sector are erased. -/
def SpiFlashEraseSector.Erases (sdk : SpiFlashEraseSector) : Prop :=
  ∀ f sector, sdk f sector = (0, f.erased (sector * spiFlashSecSize) spiFlashSecSize)

namespace SpiffsHal

/-- The loop of `spiffs_hal_erase` over so many sectors. -/
def eraseSectors (sdk : SpiFlashEraseSector) (sector : ℕ) : ℕ → ByteMem → ℤ × ByteMem
  | 0, flash => (ok, flash)
  | sectorCount + 1, flash =>
    let (rc, flash) := sdk flash sector
    if rc = 0 then eraseSectors sdk (sector + 1) sectorCount flash else (errInternal, flash)

/-- **`spiffs_hal_erase`**; it aborts if it is not given whole sectors. -/
def spiffsHalErase (sdk : SpiFlashEraseSector) (flash : ByteMem) (addr size : ℕ) :
    Option (ℤ × ByteMem) :=
  if size % spiFlashSecSize ≠ 0 ∨ addr % spiFlashSecSize ≠ 0 then none
  else some (eraseSectors sdk (addr / spiFlashSecSize) (size / spiFlashSecSize) flash)

end SpiffsHal

/-- Where a call is made from: the memory, where the buffer is in it, and what the stack holds
behind a temporary. -/
structure SpiffsCaller where
  stack : ByteMem
  mem : ByteMem
  buffer : ℕ

/-- The callers: each call, with the contents of the flash, its address and size, has its
own. -/
abbrev SpiffsCallers : Type := ByteMem → ℕ → ℕ → SpiffsCaller

/-- **The functions of this system**, wherever they are called from. -/
def spiffsHal (sdkRead : SpiFlashRead) (sdkWrite : SpiFlashWrite)
    (sdkErase : SpiFlashEraseSector)
    (readers writers : SpiffsCallers) : SpiffsFlash where
  read := fun flash addr size =>
    let ⟨stack, mem, dst⟩ := readers flash addr size
    let r := SpiffsHal.spiffsHalRead sdkRead stack flash mem addr size dst
    (r.1, r.2.mem.slice dst size)
  write := fun flash addr d =>
    let ⟨_, mem, src⟩ := writers flash addr d.length
    let r := SpiffsHal.spiffsHalWrite sdkWrite (mem.store src d) flash addr d.length src
    (r.1, r.2.flash)
  erase := SpiffsHal.spiffsHalErase sdkErase

namespace ByteMem

theorem erased_zero (f : ByteMem) (a : ℕ) : f.erased a 0 = f := by
  funext j
  exact if_neg (by omega)

/-- Adjacent runs are erased one after the other. -/
theorem erased_erased (f : ByteMem) (a n k : ℕ) :
    (f.erased a n).erased (a + n) k = f.erased a (n + k) := by
  funext j
  unfold erased
  by_cases hsecond : a + n ≤ j ∧ j < a + n + k
  · rw [if_pos hsecond, if_pos (by omega)]
  · rw [if_neg hsecond]
    by_cases hfirst : a ≤ j ∧ j < a + n
    · rw [if_pos hfirst, if_pos (by omega)]
    · rw [if_neg hfirst, if_neg (by omega)]

theorem slice_store_self (m : ByteMem) (p : ℕ) (d : List UInt8) :
    (m.store p d).slice p d.length = d := by
  refine List.ext_getElem (length_slice _ _ _) fun i hi hi' => ?_
  rw [getElem_slice, store, combineAt_of_mem _ _ _ _ _ hi']

end ByteMem

namespace SpiffsHal

theorem eraseSectors_eq {sdk : SpiFlashEraseSector} (hsdk : sdk.Erases) (sector n : ℕ)
    (flash : ByteMem) :
    eraseSectors sdk sector n flash =
      (ok, flash.erased (sector * spiFlashSecSize) (n * spiFlashSecSize)) := by
  induction n generalizing sector flash with
  | zero => rw [eraseSectors, Nat.zero_mul, ByteMem.erased_zero]
  | succ n ih =>
    have hnext : (sector + 1) * spiFlashSecSize = sector * spiFlashSecSize + spiFlashSecSize :=
      Nat.succ_mul _ _
    have hmore : (n + 1) * spiFlashSecSize = spiFlashSecSize + n * spiFlashSecSize := by
      rw [Nat.succ_mul, Nat.add_comm]
    rw [eraseSectors, hsdk flash sector]
    dsimp only
    rw [if_pos rfl, ih, hnext, ByteMem.erased_erased, ← hmore]

/-- Whole sectors are erased. -/
theorem spiffsHalErase_eq {sdk : SpiFlashEraseSector} (hsdk : sdk.Erases) (flash : ByteMem)
    {addr size : ℕ} (haddr : spiFlashSecSize ∣ addr) (hsize : spiFlashSecSize ∣ size) :
    spiffsHalErase sdk flash addr size = some (ok, flash.erased addr size) := by
  rw [spiffsHalErase, if_neg (by
    rw [Nat.mod_eq_zero_of_dvd haddr, Nat.mod_eq_zero_of_dvd hsize]
    simp), eraseSectors_eq hsdk, Nat.div_mul_cancel haddr, Nat.div_mul_cancel hsize]

end SpiffsHal

/-- **The functions of this system are sound**, wherever the buffers of the caller are. -/
theorem sound_spiffsHal {sdkRead : SpiFlashRead} {sdkWrite : SpiFlashWrite}
    {sdkErase : SpiFlashEraseSector} (hread : sdkRead.Copies) (hwrite : sdkWrite.Clears)
    (herase : sdkErase.Erases) (readers writers : SpiffsCallers) :
    (spiffsHal sdkRead sdkWrite sdkErase readers writers).Sound where
  read := by
    intro f a n ha hn
    unfold spiffsHal
    dsimp only
    obtain ⟨stack, mem, dst⟩ := readers f a n
    dsimp only
    obtain ⟨mem', writes, heq, hmem, -, -⟩ :=
      SpiffsHal.spiffsHalRead_eq stack f hread mem a n dst hn
    have hhead : SpiffsHal.headLength a = 0 := by
      obtain ⟨hle, hlt, hdvd⟩ := SpiffsHal.alignedBegin_spec a (by omega)
      show SpiffsHal.alignedBegin a - a = 0
      omega
    have hrun : (SpiffsHal.headRun stack a).length = 0 :=
      (ByteMem.length_slice _ _ _).trans hhead
    have hslice : (mem.store dst (f.slice a n)).slice dst n = f.slice a n := by
      have hself := ByteMem.slice_store_self mem dst (f.slice a n)
      rwa [ByteMem.length_slice] at hself
    show ((SpiffsHal.spiffsHalRead sdkRead stack f mem a n dst).1,
      (SpiffsHal.spiffsHalRead sdkRead stack f mem a n dst).2.mem.slice dst n) = _
    rw [heq, hmem (by omega), List.length_eq_zero_iff.mp hrun, List.nil_append, hhead,
      Nat.add_zero, Nat.sub_zero, hslice]
    rfl
  write := by
    intro f a d hd hfits
    unfold spiffsHal
    dsimp only
    obtain ⟨-, mem, src⟩ := writers f a d.length
    dsimp only
    have hspec := SpiffsHal.alignedEnd_spec hfits
    have hbegin := SpiffsHal.alignedBegin_spec a (by omega)
    have hexact :=
      SpiffsHal.writesExactly_of_fits (mem.store src d) hwrite f a d.length src hfits
      (Or.inr (by
        show _ ≤ 512
        omega))
    refine Prod.ext hexact.result (funext fun j => ?_)
    show _ = f.combineAt (· &&& ·) a d j
    by_cases hin : a ≤ j ∧ j < a + d.length
    · obtain ⟨i, rfl⟩ := Nat.exists_eq_add_of_le hin.1
      have hi : i < d.length := by omega
      have hbyte : mem.store src d (src + i) = d[i] :=
        ByteMem.combineAt_of_mem _ _ _ _ _ hi
      rw [ByteMem.combineAt_of_mem _ _ _ _ _ hi, ← hbyte]
      exact hexact.written i hi
    · rw [ByteMem.combineAt_of_not_mem _ _ _ _ _ (by omega)]
      exact hexact.frame j (by omega)
  erase := fun f _ _ ha hn => SpiffsHal.spiffsHalErase_eq herase f ha hn

/-- **A configuration**, with what `spiffs_config` asks for and the page index has room for. -/
structure SpiffsConfig where
  physAddr : ℕ
  physSize : ℕ
  physEraseBlock : ℕ
  logBlockSize : ℕ
  logPageSize : ℕ
  /-- Pages are made of words, and not empty. -/
  page_pos : 0 < logPageSize
  four_dvd_page : 4 ∣ logPageSize
  page_le : logPageSize ≤ 512
  /-- Blocks are made of pages, and of what is erased at once. -/
  page_dvd_block : logPageSize ∣ logBlockSize
  erase_dvd_block : physEraseBlock ∣ logBlockSize
  erase_pos : 0 < physEraseBlock
  block_pos : 0 < logBlockSize
  sector_dvd_erase : spiFlashSecSize ∣ physEraseBlock
  sector_dvd_addr : spiFlashSecSize ∣ physAddr
  /-- `_tryMount` asks for it. -/
  pages_le : physSize / logPageSize ≤ 65535
  /-- The addresses have 32 bits. -/
  fits : physAddr + physSize + logPageSize + 3 < 2 ^ 32

/-- Two blocks of one sector, with the smallest pages. -/
def SpiffsConfig.small : SpiffsConfig where
  physAddr := 0
  physSize := 8192
  physEraseBlock := 4096
  logBlockSize := 4096
  logPageSize := 4
  page_pos := by decide
  four_dvd_page := by decide
  page_le := by decide
  page_dvd_block := by decide
  erase_dvd_block := by decide
  erase_pos := by decide
  block_pos := by decide
  sector_dvd_erase := by decide
  sector_dvd_addr := by decide
  pages_le := by decide
  fits := by decide

/-- Two blocks of one sector, with pages of 64 bytes. -/
def SpiffsConfig.paged : SpiffsConfig where
  physAddr := 0
  physSize := 8192
  physEraseBlock := 4096
  logBlockSize := 4096
  logPageSize := 64
  page_pos := by decide
  four_dvd_page := by decide
  page_le := by decide
  page_dvd_block := by decide
  erase_dvd_block := by decide
  erase_pos := by decide
  block_pos := by decide
  sector_dvd_erase := by decide
  sector_dvd_addr := by decide
  pages_le := by decide
  fits := by decide

/-- The documented SDK call, as a function. -/
def erasingFlash : SpiFlashEraseSector :=
  fun f sector => (0, f.erased (sector * spiFlashSecSize) spiFlashSecSize)

theorem erases_erasingFlash : erasingFlash.Erases := fun _ _ => rfl

/-- Callers with one buffer. -/
def callersAt (buffer : ℕ) : SpiffsCallers := fun _ _ _ => ⟨fun _ => 0xA5, fun _ => 0, buffer⟩

/-- The functions of this system over the documented SDK calls. -/
def documentedHal : SpiffsFlash :=
  spiffsHal SpiffsHal.copyingFlash SpiffsHal.clearingFlash erasingFlash (callersAt 100)
    (callersAt 200)
