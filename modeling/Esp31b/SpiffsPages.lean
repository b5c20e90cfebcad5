import Esp31b.Block
import Esp31b.SpiffsDevice

/-!
# Pages and blocks of the flash

SPIFFS cuts its part of the flash into blocks, and these into pages. The macros that go from
addresses to pages and back are those of the source, with its page index of 16 bits; a
configuration has room in it (`SpiffsConfig.paddrToPage_eq`).

Pages do not overlap (`SpiffsConfig.pageToPaddr_add_le`), so bytes that are in one page are not
in another one, and what is written there changes no other page. A block ends its lookup pages
with an erase count and a magic, which are in one of its pages (`SpiffsConfig.HasBlock.entry`).
-/

namespace SpiffsConfig

/-- `SPIFFS_PADDR_TO_PAGE`, as a `spiffs_page_ix` of 16 bits. -/
def paddrToPage (cfg : SpiffsConfig) (addr : ℕ) : ℕ :=
  (addr - cfg.physAddr) / cfg.logPageSize % 2 ^ 16

/-- `SPIFFS_PADDR_TO_PAGE_OFFSET`. -/
def paddrToPageOffset (cfg : SpiffsConfig) (addr : ℕ) : ℕ :=
  (addr - cfg.physAddr) % cfg.logPageSize

/-- `SPIFFS_PAGE_TO_PADDR`. -/
def pageToPaddr (cfg : SpiffsConfig) (page : ℕ) : ℕ := cfg.physAddr + page * cfg.logPageSize

/-- `SPIFFS_BLOCK_TO_PADDR`. -/
def blockToPaddr (cfg : SpiffsConfig) (block : ℕ) : ℕ := cfg.physAddr + block * cfg.logBlockSize

/-- `SPIFFS_PAGES_PER_BLOCK`. -/
def pagesPerBlock (cfg : SpiffsConfig) : ℕ := cfg.logBlockSize / cfg.logPageSize

/-- `SPIFFS_OBJ_LOOKUP_PAGES`. -/
def objLookupPages (cfg : SpiffsConfig) : ℕ := max 1 (cfg.pagesPerBlock * 2 / cfg.logPageSize)

/-- `SPIFFS_ERASE_COUNT_PADDR`. -/
def eraseCountPaddr (cfg : SpiffsConfig) (bix : ℕ) : ℕ :=
  cfg.blockToPaddr bix + cfg.objLookupPages * cfg.logPageSize - 2

/-- `SPIFFS_MAGIC_PADDR`. -/
def magicPaddr (cfg : SpiffsConfig) (bix : ℕ) : ℕ :=
  cfg.blockToPaddr bix + cfg.objLookupPages * cfg.logPageSize - 2 * 2

/-- `SPIFFS_MAGIC`. -/
def magic (cfg : SpiffsConfig) : UInt16 := UInt16.ofNat (0x20140529 ^^^ cfg.logPageSize)

end SpiffsConfig

namespace SpiffsConfig

/-- **The bytes are in one page** of the file system. -/
structure InPage (cfg : SpiffsConfig) (addr len : ℕ) : Prop where
  lower : cfg.physAddr ≤ addr
  inside : cfg.paddrToPageOffset addr + len ≤ cfg.logPageSize
  upper : addr + len ≤ cfg.physAddr + cfg.physSize

instance (cfg : SpiffsConfig) (addr len : ℕ) : Decidable (cfg.InPage addr len) :=
  decidable_of_iff (cfg.physAddr ≤ addr ∧ cfg.paddrToPageOffset addr + len ≤ cfg.logPageSize ∧
    addr + len ≤ cfg.physAddr + cfg.physSize)
    ⟨fun h => ⟨h.1, h.2.1, h.2.2⟩, fun h => ⟨h.1, h.2, h.3⟩⟩

variable {cfg : SpiffsConfig} {addr len pix : ℕ}

/-- The index of a page has room for it. -/
theorem paddrToPage_eq (h : addr ≤ cfg.physAddr + cfg.physSize) :
    cfg.paddrToPage addr = (addr - cfg.physAddr) / cfg.logPageSize := by
  have hle : (addr - cfg.physAddr) / cfg.logPageSize ≤ cfg.physSize / cfg.logPageSize :=
    Nat.div_le_div_right (by omega)
  have hpages := cfg.pages_le
  exact Nat.mod_eq_of_lt (by omega)

/-- A page and what is in front of an address in it. -/
theorem InPage.pageToPaddr_add (h : cfg.InPage addr len) :
    cfg.pageToPaddr (cfg.paddrToPage addr) + cfg.paddrToPageOffset addr = addr := by
  have hlower := h.lower
  have hupper := h.upper
  have hdiv := Nat.div_add_mod' (addr - cfg.physAddr) cfg.logPageSize
  rw [paddrToPage_eq (by omega), pageToPaddr, paddrToPageOffset]
  omega

theorem InPage.sub_offset (h : cfg.InPage addr len) :
    addr - cfg.paddrToPageOffset addr = cfg.pageToPaddr (cfg.paddrToPage addr) := by
  have hadd := h.pageToPaddr_add
  omega

/-- **Pages are apart.** -/
theorem pageToPaddr_add_le (cfg : SpiffsConfig) {p q : ℕ} (h : p < q) :
    cfg.pageToPaddr p + cfg.logPageSize ≤ cfg.pageToPaddr q := by
  have hmul := Nat.mul_le_mul_right cfg.logPageSize (Nat.succ_le_of_lt h)
  rw [Nat.succ_mul] at hmul
  unfold pageToPaddr
  omega

/-- Bytes of one page are not in another one. -/
theorem InPage.apart (h : cfg.InPage addr len) (hne : pix ≠ cfg.paddrToPage addr) :
    cfg.pageToPaddr pix + cfg.logPageSize ≤ addr ∨ addr + len ≤ cfg.pageToPaddr pix := by
  have hadd := h.pageToPaddr_add
  have hinside := h.inside
  rcases Nat.lt_or_gt_of_ne hne with hlt | hgt
  · have hle := cfg.pageToPaddr_add_le hlt
    omega
  · have hle := cfg.pageToPaddr_add_le hgt
    omega

/-- A page starts at a word boundary. -/
theorem four_dvd_pageToPaddr (cfg : SpiffsConfig) (page : ℕ) : 4 ∣ cfg.pageToPaddr page := by
  have hsector : 4 ∣ spiFlashSecSize := by decide
  exact Nat.dvd_add (hsector.trans cfg.sector_dvd_addr) (Dvd.dvd.mul_left cfg.four_dvd_page _)

/-- There are addresses for it. -/
theorem InPage.page_fits (h : cfg.InPage addr len) :
    cfg.pageToPaddr (cfg.paddrToPage addr) + cfg.logPageSize + 3 < 2 ^ 32 := by
  have hadd := h.pageToPaddr_add
  have hupper := h.upper
  have hfits := cfg.fits
  omega

end SpiffsConfig

namespace ByteMem

/-- A run is not changed by what is combined outside of it. -/
theorem slice_combineAt_of_apart (op : UInt8 → UInt8 → UInt8) (f : ByteMem) {a p n : ℕ}
    {d : List UInt8} (h : p + n ≤ a ∨ a + d.length ≤ p) :
    (f.combineAt op a d).slice p n = f.slice p n :=
  List.map_congr_left fun i hi => by
    have hlt := List.mem_range.mp hi
    exact combineAt_of_not_mem _ _ _ _ _ (by omega)

/-- What is read out of a run. -/
theorem read_slice (f : ByteMem) {p n k len : ℕ} (h : k + len ≤ n) :
    Block.read (f.slice p n) k len = some (f.slice (p + k) len) := by
  rw [Block.read_eq (by rw [length_slice]; exact h), drop_slice (by omega),
    take_slice (by omega)]

/-- **What clears bits** leaves itself behind: the run, with the data written over it. -/
theorem slice_combineAt_of_clears (f : ByteMem) {p n k : ℕ} {d : List UInt8}
    (h : k + d.length ≤ n)
    (hclear : ∀ i (hi : i < d.length), f (p + k + i) &&& d[i] = d[i]) :
    Block.write (f.slice p n) k d = some ((f.combineAt (· &&& ·) (p + k) d).slice p n) := by
  have hfits : k + d.length ≤ (f.slice p n).length := by
    rw [length_slice]
    exact h
  obtain ⟨e, he⟩ : ∃ e, Block.write (f.slice p n) k d = some e := ⟨_, Block.write_eq hfits⟩
  rw [he]
  refine congrArg some (List.ext_getElem? fun i => ?_)
  have hread : ∀ g : ByteMem, (g.slice p n)[i]? = if i < n then some (g (p + i)) else none := by
    intro g
    split
    · rename_i hi
      rw [List.getElem?_eq_getElem (by rw [length_slice]; exact hi), getElem_slice]
    · rename_i hi
      exact List.getElem?_eq_none (by rw [length_slice]; omega)
  rw [Block.getElem?_write he, hread, hread]
  by_cases hin : k ≤ i ∧ i < k + d.length
  · obtain ⟨j, rfl⟩ := Nat.exists_eq_add_of_le hin.1
    have hj : j < d.length := by omega
    rw [if_pos hin, if_pos (by omega), Nat.add_sub_cancel_left, List.getElem?_eq_getElem hj,
      ← Nat.add_assoc, combineAt_of_mem _ _ _ _ _ hj, hclear j hj]
  · rw [if_neg hin]
    split
    · rw [combineAt_of_not_mem _ _ _ _ _ (by omega)]
    · rfl

end ByteMem

/-! ## Blocks -/

namespace SpiffsConfig

variable {cfg : SpiffsConfig} {bix k : ℕ}

/-- The pages of a block. -/
def InBlock (cfg : SpiffsConfig) (bix page : ℕ) : Prop :=
  bix * cfg.pagesPerBlock ≤ page ∧ page < (bix + 1) * cfg.pagesPerBlock

theorem pagesPerBlock_mul (cfg : SpiffsConfig) :
    cfg.pagesPerBlock * cfg.logPageSize = cfg.logBlockSize :=
  Nat.div_mul_cancel cfg.page_dvd_block

/-- A block starts with a page. -/
theorem blockToPaddr_eq (cfg : SpiffsConfig) (bix : ℕ) :
    cfg.blockToPaddr bix = cfg.pageToPaddr (bix * cfg.pagesPerBlock) := by
  rw [blockToPaddr, pageToPaddr, Nat.mul_assoc, pagesPerBlock_mul]

/-- The pages of other blocks are apart from a block. -/
theorem apart_of_not_inBlock {page : ℕ} (h : ¬ cfg.InBlock bix page) :
    cfg.pageToPaddr page + cfg.logPageSize ≤ cfg.blockToPaddr bix ∨
      cfg.blockToPaddr bix + cfg.logBlockSize ≤ cfg.pageToPaddr page := by
  have hnext : cfg.blockToPaddr bix + cfg.logBlockSize =
      cfg.pageToPaddr ((bix + 1) * cfg.pagesPerBlock) := by
    rw [← blockToPaddr_eq, blockToPaddr, blockToPaddr, Nat.succ_mul, Nat.add_assoc]
  rw [hnext, blockToPaddr_eq]
  by_cases hlow : page < bix * cfg.pagesPerBlock
  · exact Or.inl (cfg.pageToPaddr_add_le hlow)
  · have hhigh : (bix + 1) * cfg.pagesPerBlock ≤ page := by
      by_contra hlt
      exact h ⟨by omega, by omega⟩
    refine Or.inr ?_
    unfold pageToPaddr
    exact Nat.add_le_add_left (Nat.mul_le_mul_right _ hhigh) _

theorem pagesPerBlock_pos (cfg : SpiffsConfig) : 0 < cfg.pagesPerBlock :=
  Nat.div_pos (Nat.le_of_dvd cfg.block_pos cfg.page_dvd_block) cfg.page_pos

/-- A block has its lookup pages. -/
theorem objLookupPages_le (cfg : SpiffsConfig) :
    1 ≤ cfg.objLookupPages ∧ cfg.objLookupPages ≤ cfg.pagesPerBlock := by
  have hpos := cfg.pagesPerBlock_pos
  have hpage := Nat.le_of_dvd cfg.page_pos cfg.four_dvd_page
  refine ⟨Nat.le_max_left _ _, Nat.max_le.mpr ⟨hpos, ?_⟩⟩
  exact Nat.div_le_of_le_mul (by
    rw [Nat.mul_comm]
    exact Nat.mul_le_mul_right _ (by omega))

/-- **A block of the file system.** -/
def HasBlock (cfg : SpiffsConfig) (bix : ℕ) : Prop :=
  (bix + 1) * cfg.logBlockSize ≤ cfg.physSize

instance (cfg : SpiffsConfig) (bix : ℕ) : Decidable (cfg.HasBlock bix) :=
  inferInstanceAs (Decidable (_ ≤ _))

/-- Its pages have indices. -/
theorem HasBlock.lt (h : cfg.HasBlock bix) {page : ℕ} (hpage : cfg.InBlock bix page) :
    page < 2 ^ 16 ∧ cfg.pageToPaddr page + cfg.logPageSize ≤ cfg.physAddr + cfg.physSize := by
  have hmul : (page + 1) * cfg.logPageSize ≤ (bix + 1) * cfg.logBlockSize := by
    rw [← pagesPerBlock_mul, ← Nat.mul_assoc]
    exact Nat.mul_le_mul_right _ hpage.2
  have hle : (page + 1) * cfg.logPageSize ≤ cfg.physSize := hmul.trans h
  have hindex := (Nat.le_div_iff_mul_le cfg.page_pos).mpr hle
  have hpages := cfg.pages_le
  refine ⟨by omega, ?_⟩
  rw [Nat.succ_mul] at hle
  unfold pageToPaddr
  omega

/-- The page of an address that is given by page and offset. -/
theorem paddrToPage_pageToPaddr_add (cfg : SpiffsConfig) {k : ℕ} (page : ℕ)
    (hk : k < cfg.logPageSize) :
    cfg.paddrToPage (cfg.pageToPaddr page + k) = page % 2 ^ 16 ∧
      cfg.paddrToPageOffset (cfg.pageToPaddr page + k) = k := by
  have hsub : cfg.pageToPaddr page + k - cfg.physAddr = k + page * cfg.logPageSize := by
    unfold pageToPaddr
    omega
  unfold paddrToPage paddrToPageOffset
  rw [hsub, Nat.add_mul_div_right _ _ cfg.page_pos, Nat.div_eq_of_lt hk, Nat.zero_add,
    Nat.add_mul_mod_self_right, Nat.mod_eq_of_lt hk]
  exact ⟨rfl, rfl⟩

/-- The entries at the end of the lookup pages: they are in a page of the block. -/
theorem HasBlock.entry (h : cfg.HasBlock bix) {n len : ℕ} (hn : n ≤ 4) (hlen : len ≤ n)
    (hpos : 0 < n) :
    cfg.InPage (cfg.blockToPaddr bix + cfg.objLookupPages * cfg.logPageSize - n) len ∧
      cfg.InBlock bix (cfg.paddrToPage
        (cfg.blockToPaddr bix + cfg.objLookupPages * cfg.logPageSize - n)) := by
  obtain ⟨hone, hle⟩ := cfg.objLookupPages_le
  have hfour := Nat.le_of_dvd cfg.page_pos cfg.four_dvd_page
  have hinBlock : cfg.InBlock bix (bix * cfg.pagesPerBlock + (cfg.objLookupPages - 1)) := by
    refine ⟨by omega, ?_⟩
    rw [Nat.succ_mul]
    omega
  obtain ⟨hlt, hend⟩ := h.lt hinBlock
  have haddr : cfg.blockToPaddr bix + cfg.objLookupPages * cfg.logPageSize - n =
      cfg.pageToPaddr (bix * cfg.pagesPerBlock + (cfg.objLookupPages - 1)) +
        (cfg.logPageSize - n) := by
    obtain ⟨l, hl⟩ : ∃ l, cfg.objLookupPages = l + 1 := ⟨cfg.objLookupPages - 1, by omega⟩
    rw [blockToPaddr_eq, hl, Nat.add_sub_cancel, pageToPaddr, pageToPaddr,
      Nat.add_mul, Nat.add_mul]
    omega
  obtain ⟨hpage, hoffset⟩ := cfg.paddrToPage_pageToPaddr_add
    (bix * cfg.pagesPerBlock + (cfg.objLookupPages - 1)) (show cfg.logPageSize - n < _ by omega)
  rw [haddr, hpage, Nat.mod_eq_of_lt hlt]
  refine ⟨⟨?_, ?_, ?_⟩, hinBlock⟩
  · unfold pageToPaddr
    omega
  · rw [hoffset]
    omega
  · omega

end SpiffsConfig
