import Esp31b.SpiffsFind
import Esp31b.SpiffsObjectRead

/-!
# The contents of an object

What it means that the flash has an object with some contents (`SpiffsLookup.Stores`): its index
pages can be found, whichever page a lookup finds is one, and their tables lead to data pages
with the bytes. Then the object is opened by an index header of it
(`SpiffsLookup.exists_openById`), and a read inside of the contents returns them
(`SpiffsLookup.exists_objectRead`), wherever it starts and however many index and data pages it
goes through.

The lookups for the index pages start where the last one ended, and the reads change the cache.
All that is kept of both is what the next read needs.
-/

namespace ByteMem

/-- Thirty-two bits of a memory. -/
def long (m : ByteMem) (p : ℕ) : UInt32 :=
  (m.word p).toUInt32 ||| (m.word (p + 2)).toUInt32 <<< 16

theorem long?_slice (m : ByteMem) {p n i : ℕ} (h : i + 3 < n) :
    (m.slice p n).long? i = some (m.long (p + i)) := by
  rw [List.long?, word?_slice _ (by omega), word?_slice _ (by omega)]
  rfl

theorem getElem?_slice (m : ByteMem) {p n i : ℕ} (h : i < n) :
    (m.slice p n)[i]? = some (m (p + i)) := by
  rw [List.getElem?_eq_getElem (by rw [length_slice]; exact h), getElem_slice]

end ByteMem

namespace SpiffsConfig

variable {cfg : SpiffsConfig} {bix entry pix k len : ℕ}

/-- **Index headers are in a page**, with an entry. -/
def HasObjects (cfg : SpiffsConfig) : Prop :=
  cfg.HasEntries ∧ objectIxHeaderSize + 2 ≤ cfg.logPageSize

/-- Bytes of a page of the file system. -/
theorem inPage_of_lt (hpix : pix < cfg.maxPages) (hk : k < cfg.logPageSize) {n : ℕ}
    (hn : k + n ≤ cfg.logPageSize) : cfg.InPage (cfg.pageToPaddr pix + k) n := by
  have hle : (pix + 1) * cfg.logPageSize ≤ cfg.physSize := by
    have hmul := Nat.mul_le_mul_right cfg.logPageSize (Nat.succ_le_of_lt hpix)
    exact hmul.trans (Nat.div_mul_le_self _ _)
  rw [Nat.succ_mul] at hle
  have hoffset : (cfg.pageToPaddr pix + k - cfg.physAddr) % cfg.logPageSize = k := by
    unfold pageToPaddr
    rw [show cfg.physAddr + pix * cfg.logPageSize + k - cfg.physAddr =
      k + pix * cfg.logPageSize by omega, Nat.add_mul_mod_self_right, Nat.mod_eq_of_lt hk]
  refine ⟨?_, ?_, ?_⟩
  · unfold pageToPaddr
    omega
  · unfold paddrToPageOffset
    rw [hoffset]
    exact hn
  · unfold pageToPaddr
    omega

/-- A page of an entry, and its entry. -/
theorem HasBlock.entryForPage (h : cfg.HasBlock bix)
    (hentry : entry < cfg.objLookupMaxEntries) :
    cfg.objLookupEntryToPix bix entry < cfg.maxPages ∧
      cfg.blockForPage (cfg.objLookupEntryToPix bix entry) = bix ∧
      cfg.objLookupEntryForPage (cfg.objLookupEntryToPix bix entry) = entry := by
  obtain ⟨hpix, hin⟩ := h.entryToPix hentry
  obtain ⟨-, hupper⟩ := h.lt hin
  have hlt : cfg.objLookupPages + entry < cfg.pagesPerBlock := by
    unfold objLookupMaxEntries at hentry
    omega
  rw [hpix] at hupper ⊢
  refine ⟨?_, ?_, ?_⟩
  · refine (Nat.le_div_iff_mul_le cfg.page_pos).mpr ?_
    unfold pageToPaddr at hupper
    rw [Nat.succ_mul]
    omega
  · unfold blockForPage
    rw [Nat.add_comm, Nat.add_mul_div_right _ _ (by omega), Nat.div_eq_of_lt hlt, Nat.zero_add]
  · unfold objLookupEntryForPage
    rw [Nat.add_comm (bix * _), Nat.add_mul_mod_self_right, Nat.mod_eq_of_lt hlt]
    omega

/-- The entry of a page is in a lookup page. -/
theorem HasBlock.inPage_entry (h : cfg.HasBlock bix) (hcfg : cfg.HasEntries)
    (hentry : entry < cfg.objLookupMaxEntries) :
    cfg.InPage (cfg.blockToPaddr bix + entry * 2) 2 := by
  have hpage := cfg.two_mul_entriesPerPage
  have hpos := cfg.page_pos
  have hle := cfg.objLookupPages_le.2
  have hroom := hcfg.le
  have hlookup : entry / cfg.entriesPerPage < cfg.objLookupPages :=
    Nat.div_lt_of_lt_mul (by rw [Nat.mul_comm]; omega)
  have hrest := Nat.mod_lt entry (show 0 < cfg.entriesPerPage by omega)
  have hin : cfg.InBlock bix (bix * cfg.pagesPerBlock + entry / cfg.entriesPerPage) := by
    refine ⟨Nat.le_add_right _ _, ?_⟩
    rw [Nat.succ_mul]
    omega
  have haddr : cfg.pageToPaddr (bix * cfg.pagesPerBlock + entry / cfg.entriesPerPage) +
      2 * (entry % cfg.entriesPerPage) = cfg.blockToPaddr bix + entry * 2 := by
    have hdiv := Nat.div_add_mod' entry cfg.entriesPerPage
    have hmul : entry / cfg.entriesPerPage * cfg.logPageSize =
        2 * (entry / cfg.entriesPerPage * cfg.entriesPerPage) := by
      rw [← hpage, Nat.mul_left_comm]
    rw [blockToPaddr_eq, pageToPaddr, pageToPaddr, Nat.add_mul, hmul]
    omega
  rw [← haddr]
  exact h.inPage hin (by omega) (by omega)

/-- The table of the index header has its own entries. -/
theorem objIxEntrySpanIx_lt (h : cfg.HasObjects) (hk : k < 2 ^ 16) :
    cfg.objIxEntrySpanIx k < 2 ^ 16 - 1 ∧
      (cfg.objIxEntrySpanIx k = 0 ↔ k < cfg.objHdrIxLen) := by
  have hpage := h.2
  have hlen : 2 ≤ cfg.objIxLen := by
    unfold objIxLen objectIxSize
    unfold objectIxHeaderSize at hpage
    omega
  have hdiv : (k - cfg.objHdrIxLen) / cfg.objIxLen ≤ k / 2 :=
    (Nat.div_le_div_right (Nat.sub_le _ _)).trans (Nat.div_le_div_left hlen (by omega))
  unfold objIxEntrySpanIx
  generalize (k - cfg.objHdrIxLen) / cfg.objIxLen = n at hdiv
  by_cases hhdr : k < cfg.objHdrIxLen
  · rw [if_pos hhdr]
    exact ⟨by omega, by simp [hhdr]⟩
  · rw [if_neg hhdr, Nat.mod_eq_of_lt (by omega)]
    exact ⟨by omega, by omega⟩

end SpiffsConfig

namespace SpiffsLookup

open SpiffsCache (opTObjLu opTObjLu2 spiffsOk objIdIxFlag opType physRd Ready)
open SpiffsConfig (objectIxSize objectIxHeaderSize)
open FileReader (sizeField)

variable {τ α : Type} {rd : Reader τ} {cfg : SpiffsConfig} {objId : UInt16} {flash : ByteMem}
variable {ops : UInt8 → Prop} {I : τ → α → Prop} {a : α} {content : List UInt8} {k pix : ℕ}

/-! ## An object on the flash -/

/-- The page of a data page, in the table of an index page. -/
def dataPixOf (cfg : SpiffsConfig) (flash : ByteMem) (objixPix k : ℕ) : ℕ :=
  (flash.word (cfg.pageToPaddr objixPix +
    if cfg.objIxEntrySpanIx k = 0 then objectIxHeaderSize + 2 * k
    else objectIxSize + 2 * cfg.objIxEntry k)).toNat

/-- **A data page has its part of the contents.** -/
structure IsDataPage (cfg : SpiffsConfig) (flash : ByteMem) (objId : UInt16)
    (content : List UInt8)
    (k pix : ℕ) : Prop where
  lt : pix < cfg.maxPages
  notLookup : cfg.objLookupPages ≤ pix % cfg.pagesPerBlock
  valid : validateData (cfg.headerOf flash pix) ((objId ||| objIdIxFlag) &&& ~~~objIdIxFlag) k =
    spiffsOk
  data : flash.slice (cfg.pageToPaddr pix + PageHeader.size)
      (min cfg.dataPageSize (content.length - k * cfg.dataPageSize)) =
    (content.drop (k * cfg.dataPageSize)).take cfg.dataPageSize

/-- An entry is that of an index page of the object. -/
def IsIndexOf (cfg : SpiffsConfig) (flash : ByteMem) (objId : UInt16) (spix : ℕ) (x : ℕ × ℕ) :
    Prop :=
  x.1 < cfg.blockCount ∧ x.2 < cfg.objLookupMaxEntries ∧
    IsEntryOf cfg flash (objId ||| objIdIxFlag) (UInt16.ofNat spix) 0 x

/-- **The flash has an object with these contents.** -/
structure Stores (cfg : SpiffsConfig) (flash : ByteMem) (objId : UInt16)
    (content : List UInt8) :
    Prop where
  /-- The spans have sixteen bits. -/
  fits : content.length ≤ 2 ^ 16 * cfg.dataPageSize
  /-- There is an index header, and each has the size. -/
  header : ∃ x, IsIndexOf cfg flash objId 0 x
  size : ∀ b e, IsIndexOf cfg flash objId 0 (b, e) →
    (flash.long (cfg.pageToPaddr (cfg.objLookupEntryToPix b e) + 8)).toNat = sizeField content
  /-- There are the index pages, and their tables lead to the data pages. -/
  index : ∀ k, k * cfg.dataPageSize < content.length →
    ∃ x, IsIndexOf cfg flash objId (cfg.objIxEntrySpanIx k) x
  isIndex : ∀ spix b e, IsIndexOf cfg flash objId spix (b, e) →
    (cfg.headerOf flash (cfg.objLookupEntryToPix b e)).flags &&& PageHeader.flagIndex = 0
  data : ∀ k, k * cfg.dataPageSize < content.length → ∀ b e,
    IsIndexOf cfg flash objId (cfg.objIxEntrySpanIx k) (b, e) →
    IsDataPage cfg flash objId content k (dataPixOf cfg flash (cfg.objLookupEntryToPix b e) k)

/-- **The descriptor is one of the object.** -/
structure IsOpen (cfg : SpiffsConfig) (flash : ByteMem) (objId : UInt16) (content : List UInt8)
    (fd : ObjectFd) : Prop where
  size : fd.size = sizeField content
  header : ∃ b e, IsIndexOf cfg flash objId 0 (b, e) ∧
    fd.objixHdrPix = cfg.objLookupEntryToPix b e
  objId : fd.objId = objId ||| objIdIxFlag

/-- The operations that a read of an object makes. -/
structure HasOps (ops : UInt8 → Prop) : Prop where
  lu : ops (opTObjLu ||| opCRead)
  zero : ops 0
  ix : ops (opTObjIx ||| opCRead)
  da : ops (opTObjDa ||| opCRead)

/-! ## Finding and opening -/

theorem or_ixFlag_and (x : UInt16) : (x ||| objIdIxFlag) &&& objIdIxFlag ≠ 0 := by
  have habsorb : (x ||| objIdIxFlag) &&& objIdIxFlag = objIdIxFlag := by
    refine UInt16.toBitVec_inj.mp ?_
    rw [UInt16.toBitVec_and, UInt16.toBitVec_or]
    ext i hi
    simpa using Or.inr
  rw [habsorb]
  decide

/-- A page that a lookup finds is an index page of the object. -/
theorem Stores.validateObjix (h : Stores cfg flash objId content) {spix b e : ℕ}
    (hx : IsIndexOf cfg flash objId spix (b, e)) :
    validateObjix (cfg.headerOf flash (cfg.objLookupEntryToPix b e))
      (objId ||| objIdIxFlag) spix =
      spiffsOk := by
  obtain ⟨-, hspan, hflags, -, -⟩ := hx.2.2.2
  have hindex := h.isIndex spix b e hx
  -- Each of the three flags is one of those that were compared.
  have hpart : ∀ f : UInt8, (PageHeader.flagFinal ||| PageHeader.flagDelet |||
      PageHeader.flagUsed) &&& f = f →
      (cfg.headerOf flash (cfg.objLookupEntryToPix b e)).flags &&& f =
        PageHeader.flagDelet &&& f := by
    intro f hf
    rw [← hflags, UInt8.and_assoc, hf]
  unfold SpiffsLookup.validateObjix validate
  rw [if_neg (by rw [hpart _ (by decide)]; decide),
    if_neg (by rw [hpart _ (by decide)]; decide), if_neg (by rw [hpart _ (by decide)]; decide),
    if_neg (by rw [hindex]; simp),
    if_neg (or_ixFlag_and objId), if_neg (by rw [hspan]; simp)]

/-- An index page of the object is found. -/
theorem exists_found (hrd : Reads rd cfg flash ops I) (hops : HasOps ops)
    (hcfg : cfg.HasObjects)
    {fs : Fs τ} (hI : I fs.device a) (hcursor : fs.cursorBlockIx < cfg.blockCount) {spix : ℕ}
    (hex : ∃ x, IsIndexOf cfg flash objId spix x) :
    ∃ b e fs', (findIdAndSpan rd cfg (objId ||| objIdIxFlag) fs (UInt16.ofNat spix) 0).Yields
        (some ((spiffsOk, cfg.objLookupEntryToPix b e), fs')) ∧
      I fs'.device a ∧ fs'.cursorBlockIx < cfg.blockCount ∧
      IsIndexOf cfg flash objId spix (b, e) := by
  obtain ⟨r, fs', hyields, hI', hfound⟩ := exists_findIdAndSpan hrd
    hops.lu hops.zero hcfg.1 hI hcursor (objId ||| objIdIxFlag) (UInt16.ofNat spix) 0
  rcases hfound with ⟨b, hb, e, he, hentry, -, rfl, hblock, -⟩ | ⟨hnone, -⟩
  · exact ⟨b, e, fs', hyields, hI', hblock ▸ hb, hb, he, hentry⟩
  · obtain ⟨⟨b, e⟩, hb, he, hentry⟩ := hex
    exact absurd hentry (hnone b hb e he)

/-- The bytes of an index header. -/
theorem objectIxHeader_ofBytes_slice (cfg : SpiffsConfig) (flash : ByteMem) (pix : ℕ) :
    ObjectIxHeader.ofBytes (flash.slice (cfg.pageToPaddr pix) objectIxHeaderSize) =
      some ⟨cfg.headerOf flash pix, flash.long (cfg.pageToPaddr pix + 8),
        flash (cfg.pageToPaddr pix + 12),
        flash.slice (cfg.pageToPaddr pix + 13) ObjectIxHeader.objNameLen⟩ := by
  rw [ObjectIxHeader.ofBytes, cfg.ofBytes_slice flash pix (by decide),
    ByteMem.long?_slice flash (by decide), ByteMem.getElem?_slice flash (by decide),
    ByteMem.read_slice flash (by decide)]
  rfl

/-- An entry is in a lookup page, and leads back from its page. -/
theorem exists_entryId (hrd : Reads rd cfg flash ops I) (hops : HasOps ops)
    (hcfg : cfg.HasEntries)
    {t : τ} (hI : I t a) {b e : ℕ} (hb : b < cfg.blockCount)
    (he : e < cfg.objLookupMaxEntries) :
    ∃ t', rd t (opTObjLu ||| opCRead)
        (cfg.blockToPaddr (cfg.blockForPage (cfg.objLookupEntryToPix b e)) +
          cfg.objLookupEntryForPage (cfg.objLookupEntryToPix b e) * 2) 2 =
          some ((spiffsOk, flash.slice (cfg.blockToPaddr b + e * 2) 2), t') ∧ I t' a ∧
      (flash.slice (cfg.blockToPaddr b + e * 2) 2).word? 0 = some (cfg.idOf flash b e) := by
  have hblock := SpiffsConfig.hasBlock_of_lt hb
  obtain ⟨-, hbix, hentry⟩ := hblock.entryForPage he
  obtain ⟨t', ht, hI'⟩ := hrd _ _ _ _ _ hI hops.lu (hblock.inPage_entry hcfg he)
  have hword := ByteMem.word?_slice flash (p := cfg.blockToPaddr b + e * 2) (n := 2) (i := 0)
    (by omega)
  rw [hbix, hentry]
  refine ⟨t', ht, hI', ?_⟩
  rw [hword, Nat.add_zero, Nat.mul_comm]
  rfl

/-- What `spiffs_object_open_by_page` makes of an index header. -/
def openedBy (cfg : SpiffsConfig) (flash : ByteMem) (b e : ℕ) (flags : UInt16) : ℤ × ObjectFd :=
  let pix := cfg.objLookupEntryToPix b e
  let valid := validateObjix (cfg.headerOf flash pix) (cfg.idOf flash b e) 0
  (if valid < spiffsOk then valid else spiffsOk, ⟨cfg.idOf flash b e,
    (flash.long (cfg.pageToPaddr pix + 8)).toNat, pix, pix, 0, 0, flags⟩)

/-- **The page of an entry is opened.** -/
theorem exists_openByPage (hrd : Reads rd cfg flash ops I) (hops : HasOps ops)
    (hcfg : cfg.HasObjects) {t : τ} (hI : I t a) {b e : ℕ} (hb : b < cfg.blockCount)
    (he : e < cfg.objLookupMaxEntries) (fd : ObjectFd) (flags : UInt16) :
    ∃ t', openByPage rd cfg t (cfg.objLookupEntryToPix b e) fd flags =
      some (openedBy cfg flash b e flags, t') ∧ I t' a := by
  have hpage := hcfg.2
  have hlt := ((SpiffsConfig.hasBlock_of_lt hb).entryForPage he).1
  -- The index header is read, and the id is read from its entry.
  obtain ⟨t₁, ht₁, hI₁⟩ := hrd _ _ _ _ _ hI hops.ix (SpiffsConfig.inPage_of_lt (k := 0)
    (n := objectIxHeaderSize) hlt cfg.page_pos (by omega))
  obtain ⟨t₂, ht₂, hI₂, hword⟩ := exists_entryId hrd hops hcfg.1 hI₁ hb he
  have hbytes := objectIxHeader_ofBytes_slice cfg flash (cfg.objLookupEntryToPix b e)
  rw [Nat.add_zero] at ht₁
  refine ⟨t₂, ?_, hI₂⟩
  rw [openByPage, ht₁, Option.bind_eq_bind, Option.bind_some]
  dsimp only
  rw [if_neg (lt_irrefl _), hbytes, Option.bind_eq_bind, Option.bind_some, ht₂,
    Option.bind_eq_bind, Option.bind_some]
  dsimp only
  rw [hword]
  rfl

/-- **It is the object that is opened**, by an index header of it. -/
theorem Stores.openedBy (h : Stores cfg flash objId content) {b e : ℕ}
    (hx : IsIndexOf cfg flash objId 0 (b, e)) (flags : UInt16) :
    (openedBy cfg flash b e flags).1 = spiffsOk ∧
      IsOpen cfg flash objId content (openedBy cfg flash b e flags).2 := by
  have hid : cfg.idOf flash b e = objId ||| objIdIxFlag := hx.2.2.1
  have hvalid := h.validateObjix hx
  rw [← hid] at hvalid
  refine ⟨?_, h.size b e hx, ⟨b, e, hx, rfl⟩, hid⟩
  unfold SpiffsLookup.openedBy
  dsimp only
  rw [hvalid, if_neg (lt_irrefl _)]

/-- **The object is opened by its id.** -/
theorem exists_openById (hrd : Reads rd cfg flash ops I) (hops : HasOps ops)
    (hcfg : cfg.HasObjects) (hstores : Stores cfg flash objId content) {fs : Fs τ}
    (hI : I fs.device a) (hcursor : fs.cursorBlockIx < cfg.blockCount) (fd : ObjectFd)
    (flags : UInt16) :
    ∃ fd' fs', (openById rd cfg fs objId fd flags).Yields (some ((spiffsOk, fd'), fs')) ∧
      I fs'.device a ∧ fs'.cursorBlockIx < cfg.blockCount ∧
        IsOpen cfg flash objId content fd' := by
  obtain ⟨b, e, fs₁, hyields, hI₁, hcursor₁, hx⟩ :=
    exists_found hrd hops hcfg hI hcursor hstores.header
  obtain ⟨t, ht, hI'⟩ := exists_openByPage hrd hops hcfg hI₁ hx.1 hx.2.1 fd flags
  obtain ⟨hres, hopen⟩ := hstores.openedBy hx flags
  refine ⟨(openedBy cfg flash b e flags).2, { fs₁ with device := t }, hyields.bind ?_, hI',
    hcursor₁, hopen⟩
  rw [Option.bind_eq_bind, Option.bind_some]
  dsimp only
  rw [if_neg (lt_irrefl _), ht, ← hres]
  exact Fueled.yields_pure _

/-! ## Reading -/

/-- **What is in `fs->work`**: nothing yet, or an index page of the object. -/
def Loaded (cfg : SpiffsConfig) (flash : ByteMem) (objId : UInt16) (content : List UInt8)
    (spix : ℕ) (work : List UInt8) : Prop :=
  ∀ k, k * cfg.dataPageSize < content.length → cfg.objIxEntrySpanIx k = spix →
    ∃ pix : UInt16, tableEntry cfg work spix k = some pix ∧
      IsDataPage cfg flash objId content k pix.toNat

/-- **A read under way.** -/
structure IsReading (I : τ → α → Prop) (a : α) (cfg : SpiffsConfig) (flash : ByteMem)
    (objId : UInt16) (content : List UInt8) (offset len : ℕ) (s : ObjectReading τ) : Prop where
  inv : I s.fs.device a
  cursor : s.fs.cursorBlockIx < cfg.blockCount
  res : s.res = spiffsOk
  fd : IsOpen cfg flash objId content s.fd
  loaded : s.prevObjixSpix = 2 ^ 16 - 1 ∨
    Loaded cfg flash objId content s.prevObjixSpix s.work
  lower : offset ≤ s.curOffset
  upper : s.curOffset ≤ offset + len
  span : s.curOffset < offset + len → s.dataSpix = s.curOffset / cfg.dataPageSize
  dst : s.dst = (content.drop offset).take (s.curOffset - offset)

variable {offset len : ℕ} {s : ObjectReading τ}

/-- The spans of the data pages. -/
theorem Stores.lt_of_mul_lt (h : Stores cfg flash objId content)
    (hk : k * cfg.dataPageSize < content.length) : k < 2 ^ 16 :=
  Nat.lt_of_mul_lt_mul_right (hk.trans_le h.fits)

/-- An index page that is found can be loaded. -/
theorem Stores.loaded (h : Stores cfg flash objId content)
    (hcfg : cfg.HasObjects) {spix b e : ℕ}
    (hx : IsIndexOf cfg flash objId spix (b, e)) :
    Loaded cfg flash objId content spix
      (flash.slice (cfg.pageToPaddr (cfg.objLookupEntryToPix b e)) cfg.logPageSize) := by
  rintro k hk rfl
  have hdata := h.data k hk b e hx
  have hzero := (SpiffsConfig.objIxEntrySpanIx_lt hcfg (h.lt_of_mul_lt hk)).2
  have hpage := hcfg.2
  refine ⟨_, ?_, hdata⟩
  unfold tableEntry
  by_cases hhdr : k < cfg.objHdrIxLen
  · rw [if_pos (hzero.mpr hhdr), if_pos (hzero.mpr hhdr), ByteMem.word?_slice]
    unfold SpiffsConfig.objHdrIxLen at hhdr
    omega
  · have hne : cfg.objIxEntrySpanIx k ≠ 0 := fun heq => hhdr (hzero.mp heq)
    rw [if_neg hne, if_neg hne, ByteMem.word?_slice]
    have hentry : cfg.objIxEntry k < cfg.objIxLen := by
      unfold SpiffsConfig.objIxEntry
      rw [if_neg hhdr]
      refine Nat.mod_lt _ ?_
      unfold SpiffsConfig.objIxLen objectIxSize
      unfold objectIxHeaderSize at hpage
      omega
    unfold SpiffsConfig.objIxLen at hentry
    omega

/-- **The index page of the next data page is at hand.** -/
theorem exists_loadIndex (hrd : Reads rd cfg flash ops I) (hops : HasOps ops)
    (hcfg : cfg.HasObjects) (hstores : Stores cfg flash objId content)
    (hs : IsReading I a cfg flash objId content offset len s) {k : ℕ}
    (hk : k * cfg.dataPageSize < content.length) :
    ∃ s', (loadIndex rd cfg (cfg.objIxEntrySpanIx k) s).Yields (some s') ∧
      IsReading I a cfg flash objId content offset len s' ∧
      s'.prevObjixSpix = cfg.objIxEntrySpanIx k ∧ s'.curOffset = s.curOffset ∧
      s'.dataSpix = s.dataSpix := by
  unfold loadIndex
  by_cases hprev : s.prevObjixSpix = cfg.objIxEntrySpanIx k
  · rw [if_neg (not_not.mpr hprev)]
    exact ⟨s, Fueled.yields_pure _, hs, hprev, rfl, rfl⟩
  rw [if_pos hprev]
  -- The index header is that of the descriptor, another index page is looked for.
  have hfound : ∃ b e fs', (findObjix rd cfg (cfg.objIxEntrySpanIx k) s.fd s.fs).Yields
        (some ((spiffsOk, cfg.objLookupEntryToPix b e), fs')) ∧
      I fs'.device a ∧ fs'.cursorBlockIx < cfg.blockCount ∧
      IsIndexOf cfg flash objId (cfg.objIxEntrySpanIx k) (b, e) := by
    unfold findObjix
    by_cases hzero : cfg.objIxEntrySpanIx k = 0
    · obtain ⟨b, e, hx, hhdr⟩ := hs.fd.header
      rw [if_pos hzero, hhdr, hzero]
      exact ⟨b, e, s.fs, Fueled.yields_pure _, hs.inv, hs.cursor, hx⟩
    · rw [if_neg hzero, hs.fd.objId, UInt16.or_assoc, UInt16.or_self]
      exact exists_found hrd hops hcfg hs.inv hs.cursor (hstores.index k hk)
  obtain ⟨b, e, fs', hyields, hI, hcursor, hx⟩ := hfound
  have hlt := ((SpiffsConfig.hasBlock_of_lt hx.1).entryForPage hx.2.1).1
  obtain ⟨t, ht, hI'⟩ := hrd _ _ _ _ _ hI hops.ix (SpiffsConfig.inPage_of_lt (k := 0)
    (n := cfg.logPageSize) hlt cfg.page_pos (by omega))
  rw [Nat.add_zero] at ht
  have hheader := cfg.ofBytes_slice flash (cfg.objLookupEntryToPix b e) hcfg.1.header
  have hvalid := hstores.validateObjix hx
  have hloaded := hstores.loaded hcfg hx
  refine ⟨⟨spiffsOk, { fs' with device := t }, { s.fd with
      offset := s.curOffset
      cursorObjixPix := cfg.objLookupEntryToPix b e
      cursorObjixSpix := cfg.objIxEntrySpanIx k }, _, cfg.objIxEntrySpanIx k, s.curOffset,
    s.dataSpix, s.dst⟩, hyields.bind ?_, ⟨hI', hcursor, rfl,
      ⟨hs.fd.size, hs.fd.header, hs.fd.objId⟩, Or.inr hloaded, hs.lower,
      hs.upper, hs.span, hs.dst⟩,
    rfl, rfl, rfl⟩
  rw [Option.bind_eq_bind, Option.bind_some]
  dsimp only
  rw [if_neg (lt_irrefl _), ht, Option.bind_eq_bind, Option.bind_some]
  dsimp only
  rw [if_neg (lt_irrefl _), hheader, Option.bind_eq_bind, Option.bind_some, hs.fd.objId, hvalid,
    if_neg (lt_irrefl _)]
  exact Fueled.yields_pure _

/-- A data page of the object passes the check. -/
theorem exists_pageDataCheck (hrd : Reads rd cfg flash ops I) (hops : HasOps ops)
    (hcfg : cfg.HasObjects) (hpage : IsDataPage cfg flash objId content k pix)
    {t : τ} (hI : I t a)
    {fd : ObjectFd} (hfd : fd.objId = objId ||| objIdIxFlag) :
    ∃ t', pageDataCheck rd cfg t fd pix k = some (spiffsOk, t') ∧ I t' a := by
  have hpages : cfg.maxPages ≤ 65535 := cfg.pages_le
  have hlt := hpage.lt
  obtain ⟨t', ht, hI'⟩ := hrd _ _ _ _ _ hI hops.da (SpiffsConfig.inPage_of_lt (k := 0)
    (n := PageHeader.size) hlt cfg.page_pos (by rw [Nat.zero_add]; exact hcfg.1.header))
  rw [Nat.add_zero] at ht
  refine ⟨t', ?_, hI'⟩
  rw [pageDataCheck, if_neg (by omega), if_neg (by have hnot := hpage.notLookup; omega),
    if_neg (by omega), ht, Option.bind_eq_bind, Option.bind_some]
  dsimp only
  rw [if_neg (lt_irrefl _), cfg.ofBytes_slice flash pix (Nat.le_refl _), Option.bind_eq_bind,
    Option.bind_some, hfd, hpage.valid, if_neg (lt_irrefl _)]
  rfl

/-- **What is read of a data page** is in the contents. -/
theorem IsDataPage.slice (h : IsDataPage cfg flash objId content k pix) {i n : ℕ}
    (hi : i + n ≤ cfg.dataPageSize) (hn : k * cfg.dataPageSize + i + n ≤ content.length) :
    flash.slice (cfg.pageToPaddr pix + PageHeader.size + i) n =
      (content.drop (k * cfg.dataPageSize + i)).take n := by
  have hle : i + n ≤ min cfg.dataPageSize (content.length - k * cfg.dataPageSize) := by omega
  rw [← ByteMem.take_slice (show n ≤ min cfg.dataPageSize
    (content.length - k * cfg.dataPageSize) - i by omega),
    ← ByteMem.drop_slice (by omega), h.data,
    List.drop_take, List.drop_drop, List.take_take, Nat.min_eq_left (by omega)]

/-- **A data page is read.** -/
theorem exists_readPage (hrd : Reads rd cfg flash ops I) (hops : HasOps ops)
    (hcfg : cfg.HasObjects) (hstores : Stores cfg flash objId content)
    (hs : IsReading I a cfg flash objId content offset len s)
    (hload : s.prevObjixSpix = cfg.objIxEntrySpanIx s.dataSpix)
    (hmore : s.curOffset < offset + len) (hle : offset + len ≤ content.length) :
    ∃ s', readPage rd cfg offset len (cfg.objIxEntrySpanIx s.dataSpix) s = some (.inl s') ∧
      IsReading I a cfg flash objId content offset len s' ∧ s.curOffset < s'.curOffset := by
  have hpagesize := hcfg.2
  have hpos : 0 < cfg.dataPageSize := by
    unfold SpiffsConfig.dataPageSize PageHeader.size
    unfold objectIxHeaderSize at hpagesize
    omega
  have hspan := hs.span hmore
  generalize hkeq : s.dataSpix = k at *
  -- The offset is in this data page.
  have hdiv : k * cfg.dataPageSize + s.curOffset % cfg.dataPageSize = s.curOffset := by
    rw [hspan]
    exact Nat.div_add_mod' _ _
  have hmod := Nat.mod_lt s.curOffset hpos
  have hk : k * cfg.dataPageSize < content.length := by omega
  have hklt := hstores.lt_of_mul_lt hk
  -- Its index page is loaded.
  have hprev := (SpiffsConfig.objIxEntrySpanIx_lt hcfg hklt).1
  obtain ⟨dataPix, hentry, hpage⟩ := (hs.loaded.resolve_left (by omega)) k hk hload.symm
  rw [hload] at hentry
  -- The numbers have room.
  have hfits := hstores.fits
  have hsmall : cfg.dataPageSize ≤ 512 := (Nat.sub_le _ _).trans cfg.page_le
  have hbound : offset + len < 2 ^ 32 := by
    have hmul := Nat.mul_le_mul_left (2 ^ 16) hsmall
    omega
  have hsize : s.fd.size = content.length := by
    rw [hs.fd.size, sizeField, if_neg (List.ne_nil_of_length_pos (by omega))]
  obtain ⟨n, hn⟩ : ∃ n, n = min (offset + len - s.curOffset)
    (cfg.dataPageSize - s.curOffset % cfg.dataPageSize) := ⟨_, rfl⟩
  have hlen : min (min ((offset + len) % 2 ^ 32 - s.curOffset)
      (cfg.dataPageSize - s.curOffset % cfg.dataPageSize)) s.fd.size = n := by
    rw [Nat.mod_eq_of_lt hbound, hsize]
    omega
  -- The page is checked and read.
  obtain ⟨t₁, ht₁, hI₁⟩ := exists_pageDataCheck hrd hops hcfg hpage hs.inv hs.fd.objId
  have hroom : PageHeader.size + cfg.dataPageSize = cfg.logPageSize := by
    have hheader := hcfg.1.header
    unfold SpiffsConfig.dataPageSize
    omega
  obtain ⟨t₂, ht₂, hI₂⟩ := hrd _ _ _ _ _ hI₁ hops.da (SpiffsConfig.inPage_of_lt
    (k := PageHeader.size + s.curOffset % cfg.dataPageSize) (n := n) hpage.lt (by omega)
    (by omega))
  rw [← Nat.add_assoc, hpage.slice (by omega) (by omega), hdiv] at ht₂
  have hnext : (s.curOffset + n) % 2 ^ 32 = s.curOffset + n := Nat.mod_eq_of_lt (by omega)
  refine ⟨⟨spiffsOk, { s.fs with device := t₂ },
    { s.fd with offset := s.curOffset + n }, s.work, s.prevObjixSpix,
        s.curOffset + n, (k + 1) % 2 ^ 16,
    s.dst ++ (content.drop s.curOffset).take n⟩, ?_, ?_, by dsimp only; omega⟩
  · rw [readPage, hkeq, hentry, Option.bind_eq_bind, Option.bind_some]
    dsimp only
    rw [hlen, if_neg (by omega), ht₁, Option.bind_eq_bind, Option.bind_some]
    dsimp only
    rw [if_neg (lt_irrefl _), ht₂, Option.bind_eq_bind, Option.bind_some]
    dsimp only
    rw [if_neg (lt_irrefl _), hnext]
    rfl
  · have hlower := hs.lower
    refine ⟨hI₂, hs.cursor, rfl, ⟨hs.fd.size, hs.fd.header, hs.fd.objId⟩, hs.loaded, by
      dsimp only
      omega, by dsimp only; omega, fun hmore' => ?_, ?_⟩
    · -- More is to be read, so the data page was read to its end.
      dsimp only at hmore' ⊢
      have hnend : s.curOffset + n = (k + 1) * cfg.dataPageSize := by
        rw [Nat.succ_mul]
        omega
      have hklt' := hstores.lt_of_mul_lt (k := k + 1) (by omega)
      rw [hnend, Nat.mul_div_cancel _ hpos, Nat.mod_eq_of_lt hklt']
    · dsimp only
      rw [hs.dst, show content.drop s.curOffset =
        (content.drop offset).drop (s.curOffset - offset) by
          rw [List.drop_drop]; congr 1; omega, ← List.take_add]
      congr 1
      omega

/-- **A turn of the loop** ends the read, or gets on with it. -/
theorem exists_readTurn (hrd : Reads rd cfg flash ops I) (hops : HasOps ops)
    (hcfg : cfg.HasObjects) (hstores : Stores cfg flash objId content)
    (hle : offset + len ≤ content.length) (s : ObjectReading τ)
    (hs : IsReading I a cfg flash objId content offset len s) :
    (∃ r, (readTurn rd cfg offset len s).Yields (Sum.inr r) ∧ ∃ s', r = some s' ∧
      s'.curOffset = offset + len ∧ IsReading I a cfg flash objId content offset len s') ∨
    ∃ s', (readTurn rd cfg offset len s).Yields (Sum.inl s') ∧
      IsReading I a cfg flash objId content offset len s' ∧
      offset + len - s'.curOffset < offset + len - s.curOffset := by
  have hupper := hs.upper
  have hbound : offset + len < 2 ^ 32 := by
    have hfits := hstores.fits
    have hmul := Nat.mul_le_mul_left (2 ^ 16) ((Nat.sub_le _ PageHeader.size).trans cfg.page_le)
    unfold SpiffsConfig.dataPageSize at hfits
    omega
  unfold readTurn
  rw [Nat.mod_eq_of_lt hbound]
  by_cases hmore : s.curOffset < offset + len
  · have hk : s.dataSpix * cfg.dataPageSize < content.length := by
      have hdiv := Nat.div_mul_le_self s.curOffset cfg.dataPageSize
      rw [hs.span hmore]
      omega
    obtain ⟨s₁, hyields, hs₁, hload, hcur, hspix⟩ :=
      exists_loadIndex hrd hops hcfg hstores hs hk
    rw [← hspix] at hload hyields ⊢
    rw [← hcur] at hmore ⊢
    obtain ⟨s₂, hpage, hs₂, hlt⟩ := exists_readPage hrd hops hcfg hstores hs₁ hload hmore hle
    refine Or.inr ⟨s₂, ?_, hs₂, by omega⟩
    rw [if_pos hmore]
    refine hyields.bind ?_
    dsimp only
    rw [if_neg (by rw [hs₁.res]; exact lt_irrefl _), hpage]
    exact Fueled.yields_pure _
  · rw [if_neg hmore]
    exact Or.inl ⟨_, Fueled.yields_pure _, s, rfl, by omega, hs⟩

/-- **A read inside of the contents returns them.** -/
theorem exists_objectRead (hrd : Reads rd cfg flash ops I) (hops : HasOps ops)
    (hcfg : cfg.HasObjects) (hstores : Stores cfg flash objId content) {fs : Fs τ}
    (hI : I fs.device a) (hcursor : fs.cursorBlockIx < cfg.blockCount) {fd : ObjectFd}
    (hfd : IsOpen cfg flash objId content fd) (hle : offset + len ≤ content.length)
    (work : List UInt8) :
    ∃ s, (objectRead rd cfg fs work fd offset len).Yields (some s) ∧ s.res = spiffsOk ∧
      s.dst = (content.drop offset).take len ∧ I s.fs.device a ∧
      s.fs.cursorBlockIx < cfg.blockCount ∧ IsOpen cfg flash objId content s.fd := by
  have hfits := hstores.fits
  have hspan : offset < offset + len → offset / cfg.dataPageSize < 2 ^ 16 := by
    intro hlt
    have hdiv := Nat.div_mul_le_self offset cfg.dataPageSize
    exact hstores.lt_of_mul_lt (by omega)
  obtain ⟨r, hyields, s, rfl, hend, hs⟩ := Fueled.exists_yields_loop
    (IsReading I a cfg flash objId content offset len) (fun s => offset + len - s.curOffset)
    (fun r => ∃ s, r = some s ∧ s.curOffset = offset + len ∧
      IsReading I a cfg flash objId content offset len s)
    (exists_readTurn hrd hops hcfg hstores hle)
    (s := ⟨spiffsOk, fs, fd, work, 2 ^ 16 - 1, offset, offset / cfg.dataPageSize % 2 ^ 16, []⟩)
    ⟨hI, hcursor, rfl, hfd, Or.inl rfl, le_rfl, Nat.le_add_right _ _,
      fun hlt => Nat.mod_eq_of_lt (hspan hlt), by simp⟩
  refine ⟨s, hyields, hs.res, ?_, hs.inv, hs.cursor, hs.fd⟩
  rw [hs.dst, hend, Nat.add_sub_cancel_left]

end SpiffsLookup
