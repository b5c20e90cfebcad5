import Esp31b.SpiffsGcRuns
import Esp31b.SpiffsOpen

/-!
# Objects outlive the collection

An object has its index pages and its data pages in blocks that are not erased as long as its
entries are there (`SpiffsLookup.IsStored.erased`). So `spiffs_gc_quick` leaves the objects as
they are, and so does `spiffs_obj_lu_find_free`, which may start it
(`SpiffsLookup.exists_findFree`).

A program keeps some objects open, reads them, and blocks are collected in between, in any
order: what it reads are the contents of the objects (`SpiffsLookup.run_keptFiles`), although
the lookups start somewhere else each time, and the cache is another one.
-/

namespace SpiffsConfig

variable {cfg : SpiffsConfig} {b b' e k p : ℕ} {flash flash' : ByteMem}

/-- **The block was erased**: nothing else has changed, and there is nothing in its pages but in
those of the lookup. -/
structure IsErased (cfg : SpiffsConfig) (b : ℕ) (flash flash' : ByteMem) : Prop where
  outside : ∀ j, j < cfg.blockToPaddr b ∨ cfg.blockToPaddr b + cfg.logBlockSize ≤ j →
    flash' j = flash j
  pages : ∀ j, cfg.blockToPaddr b + cfg.objLookupPages * cfg.logPageSize ≤ j →
    j < cfg.blockToPaddr b + cfg.logBlockSize → flash' j = 0xFF

/-- The lookup pages are in the block, with the erase count and the magic. -/
theorem lookup_le (cfg : SpiffsConfig) :
    4 ≤ cfg.objLookupPages * cfg.logPageSize ∧
      cfg.objLookupPages * cfg.logPageSize ≤ cfg.logBlockSize := by
  obtain ⟨hone, hle⟩ := cfg.objLookupPages_le
  have hfour := Nat.le_of_dvd cfg.page_pos cfg.four_dvd_page
  have hlow := Nat.mul_le_mul_right cfg.logPageSize hone
  have hhigh := Nat.mul_le_mul_right cfg.logPageSize hle
  rw [pagesPerBlock_mul] at hhigh
  omega

theorem isErased_bareErase (cfg : SpiffsConfig) (flash : ByteMem) (maxEraseCount : UInt16)
    (b : ℕ) : cfg.IsErased b flash (SpiffsCache.bareErase cfg flash maxEraseCount b) := by
  have hlookup := cfg.lookup_le
  have hlength : ∀ w : UInt16, (SpiffsCache.bytes16 w).length = 2 := fun w => rfl
  -- The two counts are at the end of the lookup pages.
  have hcounts : ∀ j, j < cfg.blockToPaddr b ∨
      cfg.blockToPaddr b + cfg.objLookupPages * cfg.logPageSize ≤ j →
      SpiffsCache.bareErase cfg flash maxEraseCount b j =
        flash.erased (cfg.blockToPaddr b) cfg.logBlockSize j := by
    intro j hj
    unfold SpiffsCache.bareErase eraseCountPaddr magicPaddr
    rw [ByteMem.combineAt_of_not_mem _ _ _ _ _ (by rw [hlength]; omega),
      ByteMem.combineAt_of_not_mem _ _ _ _ _ (by rw [hlength]; omega)]
  refine ⟨fun j hj => ?_, fun j hlow hhigh => ?_⟩
  · rw [hcounts j (by omega)]
    exact if_neg (by omega)
  · rw [hcounts j (Or.inr hlow)]
    exact if_pos (by omega)

/-- A byte of a page in another block. -/
theorem IsErased.page (h : cfg.IsErased b flash flash') (hp : ¬ cfg.InBlock b p)
    (hk : k < cfg.logPageSize) :
    flash' (cfg.pageToPaddr p + k) = flash (cfg.pageToPaddr p + k) := by
  have hapart := apart_of_not_inBlock hp
  exact h.outside _ (by omega)

theorem IsErased.word (h : cfg.IsErased b flash flash') (hp : ¬ cfg.InBlock b p)
    (hk : k + 1 < cfg.logPageSize) :
    flash'.word (cfg.pageToPaddr p + k) = flash.word (cfg.pageToPaddr p + k) := by
  unfold ByteMem.word
  rw [Nat.add_assoc, h.page hp (by omega), h.page hp hk]

theorem IsErased.slice (h : cfg.IsErased b flash flash') (hp : ¬ cfg.InBlock b p) {n : ℕ}
    (hk : k + n ≤ cfg.logPageSize) :
    flash'.slice (cfg.pageToPaddr p + k) n = flash.slice (cfg.pageToPaddr p + k) n :=
  List.map_congr_left fun i hi => by
    have hlt := List.mem_range.mp hi
    rw [Nat.add_assoc]
    exact h.page hp (by omega)

/-- The header of a page in another block. -/
theorem IsErased.headerOf (h : cfg.IsErased b flash flash') (hcfg : cfg.HasEntries)
    (hp : ¬ cfg.InBlock b p) : cfg.headerOf flash' p = cfg.headerOf flash p := by
  have hheader := hcfg.header
  unfold PageHeader.size at hheader
  have hfirst := h.word hp (k := 0) (by omega)
  rw [Nat.add_zero] at hfirst
  unfold SpiffsConfig.headerOf
  rw [hfirst, h.word hp (by omega), h.page hp (by omega)]

/-- An entry of another block. -/
theorem IsErased.idOf (h : cfg.IsErased b flash flash') (hcfg : cfg.HasEntries) (hne : b' ≠ b)
    (he : e < cfg.objLookupMaxEntries) : cfg.idOf flash' b' e = cfg.idOf flash b' e := by
  have hroom := hcfg.le
  have hpage := cfg.two_mul_entriesPerPage
  have hmul : cfg.objLookupPages * (2 * cfg.entriesPerPage) =
      2 * (cfg.objLookupPages * cfg.entriesPerPage) := Nat.mul_left_comm _ _ _
  rw [hpage] at hmul
  have hlookup := cfg.lookup_le
  have hapart : (b' + 1) * cfg.logBlockSize ≤ b * cfg.logBlockSize ∨
      (b + 1) * cfg.logBlockSize ≤ b' * cfg.logBlockSize := by
    rcases Nat.lt_or_gt_of_ne hne with hlt | hgt
    · exact Or.inl (Nat.mul_le_mul_right _ hlt)
    · exact Or.inr (Nat.mul_le_mul_right _ hgt)
  rw [Nat.succ_mul, Nat.succ_mul] at hapart
  have hbyte : ∀ i < 2 * cfg.objLookupMaxEntries,
      flash' (cfg.blockToPaddr b' + i) = flash (cfg.blockToPaddr b' + i) := by
    intro i hi
    refine h.outside _ ?_
    unfold blockToPaddr
    omega
  unfold SpiffsConfig.idOf ByteMem.word
  rw [Nat.add_assoc, hbyte _ (by omega), hbyte _ (by omega)]

/-- In the block, no page has a header. -/
theorem IsErased.headerOf_entry (h : cfg.IsErased b flash flash') (hcfg : cfg.HasEntries)
    (hb : cfg.HasBlock b) (he : e < cfg.objLookupMaxEntries) :
    cfg.headerOf flash' (cfg.objLookupEntryToPix b e) = ⟨0xFFFF, 0xFFFF, 0xFF⟩ := by
  have hheader := hcfg.header
  unfold PageHeader.size at hheader
  obtain ⟨hpix, hin⟩ := hb.entryToPix he
  have hlow : cfg.blockToPaddr b + cfg.objLookupPages * cfg.logPageSize ≤
      cfg.pageToPaddr (cfg.objLookupEntryToPix b e) := by
    rw [hpix, blockToPaddr_eq, pageToPaddr, pageToPaddr, Nat.add_mul, Nat.add_mul]
    omega
  have hhigh : cfg.pageToPaddr (cfg.objLookupEntryToPix b e) + cfg.logPageSize ≤
      cfg.blockToPaddr b + cfg.logBlockSize := by
    have hnext := cfg.pageToPaddr_add_le (Nat.lt_add_one (cfg.objLookupEntryToPix b e))
    have hle : cfg.pageToPaddr (cfg.objLookupEntryToPix b e + 1) ≤
        cfg.pageToPaddr ((b + 1) * cfg.pagesPerBlock) :=
      Nat.add_le_add_left (Nat.mul_le_mul_right _ hin.2) _
    rw [← blockToPaddr_eq] at hle
    unfold blockToPaddr at hle ⊢
    rw [Nat.succ_mul] at hle
    omega
  unfold SpiffsConfig.headerOf ByteMem.word
  rw [h.pages _ hlow (by omega), h.pages _ (by omega) (by omega),
    h.pages _ (by omega) (by omega), h.pages _ (by omega) (by omega),
    h.pages _ (by omega) (by omega)]
  decide

end SpiffsConfig

namespace SpiffsLookup

open SpiffsCache (opTObjLu spiffsOk objIdIxFlag opType opTObjLu2 physRd Ready bareErase)
open SpiffsConfig (objectIxSize objectIxHeaderSize)

variable {hal : SpiffsFlash} {cfg : SpiffsConfig} {flash flash' : ByteMem} {objId : UInt16}
variable {content : List UInt8} {b e k pix maxFreePages : ℕ}

/-! ## What a collection leaves -/

/-- **The flash has an object**, and the entries of its pages are in use. -/
structure IsStored (cfg : SpiffsConfig) (flash : ByteMem) (objId : UInt16)
    (content : List UInt8) :
    Prop where
  stores : Stores cfg flash objId content
  /-- The id of the index pages is not that of a free entry. -/
  notFree : objId ||| objIdIxFlag ≠ objIdFree
  live : ∀ k, k * cfg.dataPageSize < content.length → ∀ b e,
    IsIndexOf cfg flash objId (cfg.objIxEntrySpanIx k) (b, e) →
    ¬ IsDead cfg flash
      (cfg.blockForPage (dataPixOf cfg flash (cfg.objLookupEntryToPix b e) k))
      (cfg.objLookupEntryForPage (dataPixOf cfg flash (cfg.objLookupEntryToPix b e) k))

theorem not_inBlock_of_ne {b' p : ℕ} (hp : cfg.InBlock b' p) (hne : b' ≠ b) :
    ¬ cfg.InBlock b p := by
  have hapart : (b' + 1) * cfg.pagesPerBlock ≤ b * cfg.pagesPerBlock ∨
      (b + 1) * cfg.pagesPerBlock ≤ b' * cfg.pagesPerBlock := by
    rcases Nat.lt_or_gt_of_ne hne with hlt | hgt
    · exact Or.inl (Nat.mul_le_mul_right _ hlt)
    · exact Or.inr (Nat.mul_le_mul_right _ hgt)
  intro hin
  have hlow := hp.1
  have hhigh := hp.2
  have hlow' := hin.1
  have hhigh' := hin.2
  omega

/-- Each page is in its block. -/
theorem inBlock_blockForPage (cfg : SpiffsConfig) (p : ℕ) :
    cfg.InBlock (cfg.blockForPage p) p :=
  ⟨Nat.div_mul_le_self _ _, by
    rw [Nat.succ_mul]
    exact Nat.lt_div_mul_add cfg.pagesPerBlock_pos⟩

/-- A block with an entry of the object is not erased. -/
theorem IsErasable.ne (h : IsErasable cfg flash maxFreePages b) {b' : ℕ}
    (he : e < cfg.objLookupMaxEntries) (hlive : ¬ IsDead cfg flash b' e) : b' ≠ b := by
  rintro rfl
  exact hlive (h.1 e he)

/-- An index page is in use. -/
theorem not_isDead_of_isIndexOf {spix : ℕ} (hfree : objId ||| objIdIxFlag ≠ objIdFree)
    (hx : IsIndexOf cfg flash objId spix (b, e)) : ¬ IsDead cfg flash b e := by
  have hid := hx.2.2.1
  rintro (hdeleted | hfree')
  · refine or_ixFlag_and objId ?_
    rw [← hid, hdeleted]
    rfl
  · exact hfree (hid.symm.trans hfree')

/-- **An entry is one of an index page** after the block was erased, if it was before. -/
theorem isIndexOf_erased (herase : cfg.IsErased b flash flash') (hcfg : cfg.HasEntries)
    (hb : b < cfg.blockCount) (herasable : IsErasable cfg flash maxFreePages b)
    (hfree : objId ||| objIdIxFlag ≠ objIdFree) {spix b' e : ℕ} :
    IsIndexOf cfg flash' objId spix (b', e) ↔ IsIndexOf cfg flash objId spix (b', e) := by
  by_cases hne : b' = b
  · subst hne
    constructor
    · intro hx
      have hheader := herase.headerOf_entry hcfg (SpiffsConfig.hasBlock_of_lt hb) hx.2.1
      exact absurd (hx.2.2.2.1.symm.trans (congrArg PageHeader.objId hheader)) hfree
    · intro hx
      exact absurd rfl (herasable.ne hx.2.1 (not_isDead_of_isIndexOf hfree hx))
  · unfold IsIndexOf
    refine and_congr_right fun hb' => and_congr_right fun he => ?_
    have hpage := ((SpiffsConfig.hasBlock_of_lt hb').entryToPix he).2
    unfold IsEntryOf
    rw [herase.idOf hcfg hne he, herase.headerOf hcfg (not_inBlock_of_ne hpage hne)]

/-- The entry of a data page is inside of its index page. -/
theorem tableOffset_lt (hcfg : cfg.HasObjects) (hk : k < 2 ^ 16) :
    (if cfg.objIxEntrySpanIx k = 0 then objectIxHeaderSize + 2 * k
      else objectIxSize + 2 * cfg.objIxEntry k) + 1 < cfg.logPageSize := by
  have hzero := (SpiffsConfig.objIxEntrySpanIx_lt hcfg hk).2
  have hpage := hcfg.2
  by_cases hhdr : k < cfg.objHdrIxLen
  · rw [if_pos (hzero.mpr hhdr)]
    unfold SpiffsConfig.objHdrIxLen at hhdr
    omega
  · rw [if_neg fun heq => hhdr (hzero.mp heq)]
    have hentry : cfg.objIxEntry k < cfg.objIxLen := by
      unfold SpiffsConfig.objIxEntry
      rw [if_neg hhdr]
      refine Nat.mod_lt _ ?_
      unfold SpiffsConfig.objIxLen objectIxSize
      unfold objectIxHeaderSize at hpage
      omega
    unfold SpiffsConfig.objIxLen at hentry
    omega

theorem dataPixOf_erased (herase : cfg.IsErased b flash flash') (hcfg : cfg.HasObjects)
    (hpix : ¬ cfg.InBlock b pix) (hk : k < 2 ^ 16) :
    dataPixOf cfg flash' pix k = dataPixOf cfg flash pix k := by
  unfold dataPixOf
  rw [herase.word hpix (tableOffset_lt hcfg hk)]

/-- A page behind the lookup pages has an entry. -/
theorem objLookupEntryForPage_lt (hnot : cfg.objLookupPages ≤ pix % cfg.pagesPerBlock) :
    cfg.objLookupEntryForPage pix < cfg.objLookupMaxEntries := by
  have hmod := Nat.mod_lt pix cfg.pagesPerBlock_pos
  unfold SpiffsConfig.objLookupEntryForPage SpiffsConfig.objLookupMaxEntries
  omega

/-- **A data page in another block** is as it was. -/
theorem IsDataPage.erased (h : IsDataPage cfg flash objId content k pix)
    (herase : cfg.IsErased b flash flash') (hcfg : cfg.HasEntries)
    (hpix : ¬ cfg.InBlock b pix) :
    IsDataPage cfg flash' objId content k pix := by
  have hheader := hcfg.header
  have hsize : cfg.dataPageSize = cfg.logPageSize - PageHeader.size := rfl
  refine ⟨h.lt, h.notLookup, ?_, ?_⟩
  · rw [herase.headerOf hcfg hpix]
    exact h.valid
  · rw [herase.slice hpix (by omega)]
    exact h.data

/-- **An object outlives the collection of a block.** -/
theorem IsStored.erased (h : IsStored cfg flash objId content) (hcfg : cfg.HasObjects)
    (hb : b < cfg.blockCount) (herasable : IsErasable cfg flash maxFreePages b)
    (herase : cfg.IsErased b flash flash') : IsStored cfg flash' objId content := by
  have hindex : ∀ {spix b' e : ℕ},
      IsIndexOf cfg flash' objId spix (b', e) ↔ IsIndexOf cfg flash objId spix (b', e) :=
    isIndexOf_erased herase hcfg.1 hb herasable h.notFree
  -- No index page is in the block.
  have hpage : ∀ {spix b' e : ℕ}, IsIndexOf cfg flash objId spix (b', e) →
      ¬ cfg.InBlock b (cfg.objLookupEntryToPix b' e) := by
    intro spix b' e hx
    exact not_inBlock_of_ne ((SpiffsConfig.hasBlock_of_lt hx.1).entryToPix hx.2.1).2
      (herasable.ne hx.2.1 (not_isDead_of_isIndexOf h.notFree hx))
  -- And no data page is.
  have hdata : ∀ k, k * cfg.dataPageSize < content.length → ∀ b' e,
      IsIndexOf cfg flash objId (cfg.objIxEntrySpanIx k) (b', e) →
      dataPixOf cfg flash' (cfg.objLookupEntryToPix b' e) k =
          dataPixOf cfg flash (cfg.objLookupEntryToPix b' e) k ∧
        cfg.blockForPage (dataPixOf cfg flash (cfg.objLookupEntryToPix b' e) k) ≠ b := by
    intro k hk b' e hx
    exact ⟨dataPixOf_erased herase hcfg (hpage hx) (h.stores.lt_of_mul_lt hk),
      herasable.ne (objLookupEntryForPage_lt (h.stores.data k hk b' e hx).notLookup)
        (h.live k hk b' e hx)⟩
  refine ⟨⟨h.stores.fits, ?_, fun b' e hx => ?_, fun k hk => ?_, fun spix b' e hx => ?_,
    fun k hk b' e hx => ?_⟩, h.notFree, fun k hk b' e hx => ?_⟩
  · obtain ⟨⟨b', e⟩, hx⟩ := h.stores.header
    exact ⟨(b', e), hindex.mpr hx⟩
  · have hx' := hindex.mp hx
    have hheader := hcfg.2
    unfold objectIxHeaderSize at hheader
    unfold ByteMem.long
    rw [Nat.add_assoc, herase.word (hpage hx') (by omega), herase.word (hpage hx') (by omega)]
    exact h.stores.size b' e hx'
  · obtain ⟨⟨b', e⟩, hx⟩ := h.stores.index k hk
    exact ⟨(b', e), hindex.mpr hx⟩
  · have hx' := hindex.mp hx
    rw [herase.headerOf hcfg.1 (hpage hx')]
    exact h.stores.isIndex spix b' e hx'
  · have hx' := hindex.mp hx
    obtain ⟨hpix, hne⟩ := hdata k hk b' e hx'
    rw [hpix]
    exact (h.stores.data k hk b' e hx').erased herase hcfg.1
      (not_inBlock_of_ne (inBlock_blockForPage cfg _) hne)
  · have hx' := hindex.mp hx
    obtain ⟨hpix, hne⟩ := hdata k hk b' e hx'
    have hlive := h.live k hk b' e hx'
    unfold IsDead at hlive ⊢
    rw [hpix, herase.idOf hcfg.1 hne
      (objLookupEntryForPage_lt (h.stores.data k hk b' e hx').notLookup)]
    exact hlive

/-- **A descriptor outlives it, too.** -/
theorem IsOpen.erased {fd : ObjectFd} (h : IsOpen cfg flash objId content fd)
    (hcfg : cfg.HasEntries) (hb : b < cfg.blockCount)
    (herasable : IsErasable cfg flash maxFreePages b)
    (hfree : objId ||| objIdIxFlag ≠ objIdFree)
    (herase : cfg.IsErased b flash flash') : IsOpen cfg flash' objId content fd := by
  obtain ⟨b', e, hx, hpix⟩ := h.header
  exact ⟨h.size, ⟨b', e, (isIndexOf_erased herase hcfg hb herasable hfree).mpr hx, hpix⟩,
    h.objId⟩

/-! ## Names -/

/-- **An entry is one of a file** after the block was erased, if it was before, and the name is
the same one. -/
theorem isFile_erased (herase : cfg.IsErased b flash flash') (hcfg : cfg.HasObjects)
    (hb : b < cfg.blockCount) (herasable : IsErasable cfg flash maxFreePages b) {b' e : ℕ}
    (hb' : b' < cfg.blockCount) (he : e < cfg.objLookupMaxEntries) :
    (IsFile cfg flash' (b', e) ↔ IsFile cfg flash (b', e)) ∧
      (IsFile cfg flash (b', e) → nameOf cfg flash' (cfg.objLookupEntryToPix b' e) =
        nameOf cfg flash (cfg.objLookupEntryToPix b' e)) := by
  by_cases hne : b' = b
  · subst hne
    have hbefore : ¬ IsFile cfg flash (b', e) := by
      intro hfile
      rcases herasable.1 e he with hdeleted | hfree
      · exact (isFile_iff.mp hfile).1 (Or.inr (Or.inl hdeleted))
      · exact (isFile_iff.mp hfile).1 (Or.inl hfree)
    have hafter : ¬ IsFile cfg flash' (b', e) := by
      intro hfile
      have hheader := (isFile_iff.mp hfile).2
      rw [herase.headerOf_entry hcfg.1 (SpiffsConfig.hasBlock_of_lt hb) he] at hheader
      revert hheader
      decide
    exact ⟨iff_of_false hafter hbefore, fun h => absurd h hbefore⟩
  · have hpage := hcfg.2
    have hname : 13 + ObjectIxHeader.objNameLen ≤ cfg.logPageSize := by
      unfold objectIxHeaderSize at hpage
      unfold ObjectIxHeader.objNameLen
      omega
    have hnot := not_inBlock_of_ne ((SpiffsConfig.hasBlock_of_lt hb').entryToPix he).2 hne
    refine ⟨?_, fun _ => herase.slice hnot hname⟩
    rw [isFile_iff, isFile_iff, herase.idOf hcfg.1 hne he, herase.headerOf hcfg.1 hnot]

theorem HasNames.erased (h : HasNames cfg flash) (herase : cfg.IsErased b flash flash')
    (hcfg : cfg.HasObjects) (hb : b < cfg.blockCount)
    (herasable : IsErasable cfg flash maxFreePages b) : HasNames cfg flash' := by
  intro b' hb' e he hfile
  obtain ⟨hiff, hname⟩ := isFile_erased herase hcfg hb herasable hb' he
  rw [hname (hiff.mp hfile)]
  exact h b' hb' e he (hiff.mp hfile)

theorem isNamed_erased (herase : cfg.IsErased b flash flash') (hcfg : cfg.HasObjects)
    (hb : b < cfg.blockCount) (herasable : IsErasable cfg flash maxFreePages b)
    {path : List UInt8}
    {b' e : ℕ} (hb' : b' < cfg.blockCount) (he : e < cfg.objLookupMaxEntries) :
    IsNamed cfg flash' path (b', e) ↔ IsNamed cfg flash path (b', e) := by
  obtain ⟨hiff, hname⟩ := isFile_erased herase hcfg hb herasable hb' he
  unfold IsNamed
  rw [hiff]
  refine and_congr_right fun hfile => ?_
  dsimp only
  rw [hname hfile]

/-- **A file keeps its name.** -/
theorem HasPath.erased {path : List UInt8} (h : HasPath cfg flash path objId)
    (herase : cfg.IsErased b flash flash') (hcfg : cfg.HasObjects) (hb : b < cfg.blockCount)
    (herasable : IsErasable cfg flash maxFreePages b)
    (hfree : objId ||| objIdIxFlag ≠ objIdFree) :
    HasPath cfg flash' path objId := by
  refine ⟨?_, fun b' hb' e he hnamed => ?_⟩
  · obtain ⟨b', hb', e, he, hnamed⟩ := h.found
    exact ⟨b', hb', e, he, (isNamed_erased herase hcfg hb herasable hb' he).mpr hnamed⟩
  · have hbefore := (isNamed_erased herase hcfg hb herasable hb' he).mp hnamed
    exact (isIndexOf_erased herase hcfg.1 hb herasable hfree).mpr (h.only b' hb' e he hbefore)

/-- **No object is lost**, from one flash to another one, none that is open, and no name. -/
structure Keeps (cfg : SpiffsConfig) (flash flash' : ByteMem) : Prop where
  stored : ∀ objId content, IsStored cfg flash objId content → IsStored cfg flash' objId content
  isOpen : ∀ objId content fd, IsStored cfg flash objId content →
    IsOpen cfg flash objId content fd → IsOpen cfg flash' objId content fd
  names : HasNames cfg flash → HasNames cfg flash'
  path : ∀ path objId content, IsStored cfg flash objId content →
    HasPath cfg flash path objId → HasPath cfg flash' path objId

theorem Keeps.refl (cfg : SpiffsConfig) (flash : ByteMem) : Keeps cfg flash flash :=
  ⟨fun _ _ => id, fun _ _ _ _ => id, id, fun _ _ _ _ => id⟩

/-- **`spiffs_gc_quick` loses no object.** -/
theorem exists_gcQuick_keeps (hhal : hal.Sound) (hcfg : cfg.HasObjects) (maxFreePages : ℕ)
    {s : GcScan} (hready : Ready cfg flash s.cache) :
    ∃ r t flash', gcQuick hal cfg maxFreePages s = some (r, t) ∧
      (r = spiffsOk ∨ r = errNoDeletedBlocks) ∧ Ready cfg flash' t.cache ∧
      Keeps cfg flash flash' := by
  obtain ⟨r, t, hgc, hcollected⟩ := exists_gcQuick hhal hcfg.1 maxFreePages hready
  unfold Collected at hcollected
  cases hfind : (List.range cfg.blockCount).find? (IsErasable cfg flash maxFreePages ·) with
  | none =>
    rw [hfind] at hcollected
    obtain ⟨hr, hready', -⟩ := hcollected
    exact ⟨r, t, flash, hgc, Or.inr hr, hready', Keeps.refl cfg flash⟩
  | some b =>
    rw [hfind] at hcollected
    obtain ⟨hr, hready', -⟩ := hcollected
    have hb := List.mem_range.mp (List.mem_of_find?_eq_some hfind)
    have herasable : IsErasable cfg flash maxFreePages b := by
      have haccept := List.find?_some (p := fun b =>
        decide (IsErasable cfg flash maxFreePages b)) hfind
      exact of_decide_eq_true haccept
    have herase := cfg.isErased_bareErase flash s.cache.maxEraseCount b
    exact ⟨r, t, _, hgc, Or.inl hr, hready', fun _ _ h => h.erased hcfg hb herasable herase,
      fun _ _ _ h hopen => hopen.erased hcfg.1 hb herasable h.notFree herase,
      fun h => h.erased herase hcfg hb herasable,
      fun _ _ _ h hpath => hpath.erased herase hcfg hb herasable h.notFree⟩

/-! ## Free entries -/

/-- **The first entry with an id** is found, from the start on. -/
theorem exists_findId {τ α : Type} {rd : Reader τ} {ops : UInt8 → Prop} {I : τ → α → Prop}
    {a : α}
    (hrd : Reads rd cfg flash ops I) (hlu : ops (opTObjLu ||| opCRead)) (hcfg : cfg.HasEntries)
    {fs : τ} (hI : I fs a) (hb : b < cfg.blockCount) (objId : UInt16) :
    ∃ r fs', (findId rd cfg b e objId fs).Yields (some (r, fs')) ∧ I fs' a ∧
      match (visited cfg false b e).find? (fun x => cfg.idOf flash x.1 x.2 = objId) with
      | some x => r = (spiffsOk, x)
      | none => r.1 = errNotFound := by
  have hv : Visits none cfg flash ⟨true, false, false⟩ objId (fun _ => I)
      fun a _ _ _ => (spiffsOk, a) :=
    fun _ _ _ _ => rfl
  obtain ⟨⟨res, s⟩, hyields, hI', hend⟩ := ends_findEntryVisitor (e := e) (hrd.loads hlu)
    hv hcfg hI hb
  have hfind : ∀ (l : List (ℕ × ℕ)) (a : α), visit cfg flash ⟨true, false, false⟩ objId
      (fun (a : α) _ _ _ => (spiffsOk, a)) l a =
      (l.find? (fun x => cfg.idOf flash x.1 x.2 = objId)).elim (none, a)
        fun x => (some (spiffsOk, x), a) := by
    intro l a
    refine visit_eq_find? (f := fun _ a => a) fun x _ a => ?_
    unfold visitOne
    by_cases hid : cfg.idOf flash x.1 x.2 = objId
    · rw [if_pos (Or.inr hid), if_pos (decide_eq_true hid)]
      dsimp only
      rw [if_neg (by decide)]
    · rw [if_neg fun h => hid (h.resolve_left (by decide)),
        if_neg fun h => hid (of_decide_eq_true h)]
  rw [hfind] at hI' hend
  unfold findId
  cases hfound : (visited cfg false b e).find? (fun x => cfg.idOf flash x.1 x.2 = objId) with
  | some x =>
    rw [hfound] at hI' hend
    obtain ⟨hres, hblock, hentry⟩ := hend
    dsimp only at hres hblock hentry
    refine ⟨_, _, hyields.bind (Fueled.yields_pure _), hI', ?_⟩
    rw [hres, hblock, hentry]
    rfl
  | none =>
    rw [hfound] at hI' hend
    have hres : res = visEnd := hend
    refine ⟨_, _, hyields.bind (Fueled.yields_pure _), hI', ?_⟩
    exact if_pos hres

/-- The number of free blocks is not what the cache is read by. -/
theorem ready_freeBlocks {c : SpiffsCache} (h : Ready cfg flash c) (n : ℕ) :
    Ready cfg flash { c with freeBlocks := n } :=
  ⟨⟨h.coherent.room, h.coherent.flags, h.coherent.copy, h.coherent.apart⟩, h.flash, h.room⟩

/-- **`spiffs_obj_lu_find_free` finds a free entry if there is one**, and loses no object. It
does not look for one when there are less than two free blocks, and none can be collected. -/
theorem exists_findFree (hhal : hal.Sound) (hcfg : cfg.HasObjects) (cleaning : Bool)
    {s : FreeSearch} (hready : Ready cfg flash s.scan.cache) (hb : b < cfg.blockCount) :
    ∃ r t flash', (findFree hal cfg cleaning b e s).Yields (some (r, t)) ∧
      Ready cfg flash' t.scan.cache ∧ Keeps cfg flash flash' ∧
      (r.1 = spiffsOk ∧ r.2.1 < cfg.blockCount ∧ r.2.2 < cfg.objLookupMaxEntries ∧
          cfg.idOf flash' r.2.1 r.2.2 = objIdFree ∧ t.freeCursorBlockIx = r.2.1 ∧
          t.freeCursorObjLuEntry = r.2.2 ∨
        (r.1 = errFull ∧ t.scan.cache.freeBlocks < 2 ∨
          r.1 = errNotFound ∧ ∀ b < cfg.blockCount, ∀ e < cfg.objLookupMaxEntries,
            cfg.idOf flash' b e ≠ objIdFree) ∧
          t.freeCursorBlockIx = s.freeCursorBlockIx ∧
          t.freeCursorObjLuEntry = s.freeCursorObjLuEntry) := by
  have hcollect : ∃ res scan flash', collectIfFull hal cfg cleaning s.scan = some (res, scan) ∧
      Ready cfg flash' scan.cache ∧ Keeps cfg flash flash' ∧
      (res = spiffsOk ∨ res = errFull ∧ scan.cache.freeBlocks < 2) := by
    unfold collectIfFull
    by_cases hfew : cleaning = false ∧ s.scan.cache.freeBlocks < 2
    · obtain ⟨r, u, flash', hgc, hr, hready', hkeeps⟩ :=
        exists_gcQuick_keeps hhal hcfg 0 hready
      have hgoes : r = errNoDeletedBlocks ∨ spiffsOk ≤ r := hr.symm.imp_right fun h => h.ge
      rw [if_pos hfew, hgc, Option.bind_eq_bind, Option.bind_some]
      dsimp only
      rw [if_pos hgoes]
      by_cases hfull : u.cache.freeBlocks < 2
      · rw [if_pos hfull]
        exact ⟨_, _, flash', rfl, hready', hkeeps, Or.inr ⟨rfl, hfull⟩⟩
      · rw [if_neg hfull]
        exact ⟨_, _, flash', rfl, hready', hkeeps, Or.inl rfl⟩
    · rw [if_neg hfew]
      exact ⟨_, _, flash, rfl, hready, Keeps.refl cfg flash, Or.inl rfl⟩
  obtain ⟨res, scan, flash', hscan, hready', hkeeps, hres⟩ := hcollect
  unfold findFree
  rw [hscan]
  dsimp only
  rcases hres with rfl | ⟨rfl, hfull⟩
  · rw [if_neg (lt_irrefl _)]
    obtain ⟨r, c, hyields, hready'', hfound⟩ := exists_findId (a := ()) (e := e)
      (reads_cached hhal cfg flash') (by decide) hcfg.1 hready' hb objIdFree
    obtain ⟨res, b', e'⟩ := r
    cases hfind :
        (visited cfg false b e).find? (fun x => cfg.idOf flash' x.1 x.2 = objIdFree) with
    | some x =>
      rw [hfind] at hfound
      obtain ⟨rfl, hx⟩ := Prod.mk.inj hfound
      obtain ⟨hb', he'⟩ := (mem_visited hb).mp (List.mem_of_find?_eq_some hfind)
      have haccept := List.find?_some (p := fun x : ℕ × ℕ =>
        decide (cfg.idOf flash' x.1 x.2 = objIdFree)) hfind
      have hid := of_decide_eq_true haccept
      subst hx
      refine ⟨_, _, flash', hyields.bind (Fueled.yields_pure _), ?_, hkeeps,
        Or.inl ⟨rfl, hb', he', hid, rfl, rfl⟩⟩
      dsimp only
      split
      · exact ready_freeBlocks hready'' _
      · exact hready''
    | none =>
      rw [hfind] at hfound
      have hres : res = errNotFound := hfound
      subst hres
      have hnone := List.find?_eq_none.mp hfind
      refine ⟨_, _, flash', hyields.bind (Fueled.yields_pure _), hready'', hkeeps,
        Or.inr ⟨Or.inr ⟨rfl, fun b' hb' e' he' hid => ?_⟩, rfl, rfl⟩⟩
      exact hnone (b', e') ((mem_visited hb).mpr ⟨hb', he'⟩) (decide_eq_true hid)
  · rw [if_pos (by decide)]
    exact ⟨_, _, flash', Fueled.yields_pure _, hready', hkeeps,
      Or.inr ⟨Or.inl ⟨rfl, hfull⟩, rfl, rfl⟩⟩

end SpiffsLookup
