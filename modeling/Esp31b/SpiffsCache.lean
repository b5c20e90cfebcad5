import Esp31b.SpiffsPages

/-!
# The page cache of SPIFFS

All that SPIFFS reads and writes goes through `spiffs_phys_rd` and `spiffs_phys_wr`, and a pool
of pages in memory. A page of the pool is free, or a copy of a page of the flash, or keeps data
that a file has not been given yet. A read that finds no copy makes one, in place of the one
that was not used for longest; a write goes through to the flash and is done to the copy as
well, unless the page is deleted and its copy with it.

Here are the functions, and what those of the pool do: `spiffs_cache_page_get` finds a copy or
there is none, `spiffs_cache_page_remove_oldest` frees a copy and nothing else, and
`spiffs_cache_page_allocate` takes a page that is free.
-/

/-- `spiffs_cache_page`, with its bit of `cpage_use_map` and its memory. The index of a page of
the flash and the id of an object are at the same place. -/
structure CachePage where
  used : Bool
  flags : UInt8
  lastAccess : UInt32
  pix : ℕ
  offset : ℕ
  size : ℕ
  mem : List UInt8
  deriving DecidableEq, Inhabited

/-- What the functions of the cache work on: `spiffs_cache`, the flash, and two fields of
`spiffs`. -/
structure SpiffsCache where
  lastAccess : UInt32
  pages : List CachePage
  flash : ByteMem
  freeBlocks : ℕ
  maxEraseCount : UInt16

namespace SpiffsCache

/-- `SPIFFS_CACHE_FLAG_DIRTY`. -/
def flagDirty : UInt8 := 1

/-- `SPIFFS_CACHE_FLAG_WRTHRU`. -/
def flagWrthru : UInt8 := 2

/-- `SPIFFS_CACHE_FLAG_TYPE_WR`. -/
def flagTypeWr : UInt8 := 0x80

/-- `SPIFFS_OP_TYPE_MASK` of an operation. -/
def opType (op : UInt8) : UInt8 := op &&& 3

/-- `SPIFFS_OP_COM_MASK` of it. -/
def opCom (op : UInt8) : UInt8 := op &&& 28

/-- `SPIFFS_OP_T_OBJ_LU`. -/
def opTObjLu : UInt8 := 0

/-- `SPIFFS_OP_T_OBJ_LU2`. -/
def opTObjLu2 : UInt8 := 1

/-- `SPIFFS_OP_C_DELE`. -/
def opCDele : UInt8 := 0

/-- `SPIFFS_OP_C_WRTHRU`. -/
def opCWrthru : UInt8 := 24

/-- `SPIFFS_OK`. -/
def spiffsOk : ℤ := 0

end SpiffsCache

namespace CachePage

/-- The page keeps data of a file. -/
def isWr (cp : CachePage) : Bool := cp.flags &&& SpiffsCache.flagTypeWr != 0

/-- A copy of a page of the flash. -/
def isCopy (cp : CachePage) : Bool := cp.used && !cp.isWr

/-- The one that `spiffs_cache_page_get` looks for. -/
def isCopyOf (pix : ℕ) (cp : CachePage) : Bool := cp.isCopy && cp.pix == pix

/-- The page was accessed. -/
def touch (lastAccess : UInt32) (cp : CachePage) : CachePage :=
  { cp with lastAccess := lastAccess }

/-- The page is free. -/
def free (cp : CachePage) : CachePage := { cp with flags := 0, used := false }

/-- The page is not free any more. -/
def take (lastAccess : UInt32) (cp : CachePage) : CachePage :=
  { cp with used := true, lastAccess := lastAccess }

end CachePage

namespace SpiffsCache

variable (hal : SpiffsFlash) (cfg : SpiffsConfig)

/-! ## The pool -/

/-- A page of the pool is changed. -/
def modify (s : SpiffsCache) (ix : ℕ) (f : CachePage → CachePage) : SpiffsCache :=
  { s with pages := s.pages.modify ix f }

/-- `cache->last_access++`. -/
def tick (s : SpiffsCache) : SpiffsCache := { s with lastAccess := s.lastAccess + 1 }

/-- `spiffs_cache_page_get`. -/
def pageGet (s : SpiffsCache) (pix : ℕ) : Option ℕ × SpiffsCache :=
  match s.pages.findIdx? (CachePage.isCopyOf pix) with
  | none => (none, s)
  | some ix => (some ix, s.modify ix (CachePage.touch s.lastAccess))

/-- `spiffs_cache_page_free`. -/
def pageFree (s : SpiffsCache) (ix : ℕ) (writeBack : Bool) : ℤ × SpiffsCache :=
  match s.pages[ix]? with
  | none => (spiffsOk, s)
  | some cp =>
    if cp.used then
      let (res, flash) :=
        if writeBack && !cp.isWr && cp.flags &&& flagDirty != 0 then
          hal.write s.flash (cfg.pageToPaddr cp.pix) cp.mem
        else (spiffsOk, s.flash)
      (res, { s with flash := flash }.modify ix CachePage.free)
    else (spiffsOk, s)

/-- The scan of `spiffs_cache_page_remove_oldest`: the candidate, and how long it was not
used. -/
def oldest (lastAccess : UInt32) (flagMask flags : UInt8) :
    List CachePage → ℕ → Option ℕ × UInt32 → Option ℕ × UInt32
  | [], _, cand => cand
  | cp :: pages, i, cand =>
    oldest lastAccess flagMask flags pages (i + 1)
      (if lastAccess - cp.lastAccess > cand.2 ∧ cp.flags &&& flagMask = flags then
        (some i, lastAccess - cp.lastAccess)
      else cand)

/-- `spiffs_cache_page_remove_oldest`. -/
def pageRemoveOldest (s : SpiffsCache) (flagMask flags : UInt8) : ℤ × SpiffsCache :=
  if s.pages.any (!·.used) then (spiffsOk, s)
  else
    match (oldest s.lastAccess flagMask flags s.pages 0 (none, 0)).1 with
    | none => (spiffsOk, s)
    | some ix => pageFree hal cfg s ix true

/-- `spiffs_cache_page_allocate`. -/
def pageAllocate (s : SpiffsCache) : Option ℕ × SpiffsCache :=
  match s.pages.findIdx? (!·.used) with
  | none => (none, s)
  | some ix => (some ix, s.modify ix (CachePage.take s.lastAccess))

/-- `spiffs_cache_drop_page`. -/
def dropPage (s : SpiffsCache) (pix : ℕ) : SpiffsCache :=
  match pageGet s pix with
  | (none, s) => s
  | (some ix, s) => (pageFree hal cfg s ix false).2

/-! ## Reads and writes -/

/-- `memcpy(dst, &mem[SPIFFS_PADDR_TO_PAGE_OFFSET(fs, addr)], len)`, of a page of the pool. -/
def copyOut (s : SpiffsCache) (ix addr len : ℕ) : Option (List UInt8) := do
  let cp ← s.pages[ix]?
  Block.read cp.mem (cfg.paddrToPageOffset addr) len

/-- What `spiffs_phys_rd` does with a page that was allocated: it becomes a copy of the page of
an address. -/
def makeCopy (s : SpiffsCache) (ix addr : ℕ) : ℤ × SpiffsCache :=
  let s := s.modify ix fun cp => { cp with flags := flagWrthru, pix := cfg.paddrToPage addr }
  let (res, mem) := hal.read s.flash (addr - cfg.paddrToPageOffset addr) cfg.logPageSize
  (res, s.modify ix fun cp => { cp with mem := mem })

/-- **`spiffs_phys_rd`**: the result and what was read. There is none through a null pointer. -/
def physRd (s : SpiffsCache) (op : UInt8) (addr len : ℕ) :
    Option ((ℤ × List UInt8) × SpiffsCache) :=
  let (cp, s) := pageGet s (cfg.paddrToPage addr)
  let s := s.tick
  match cp with
  | some ix => do
    let s := s.modify ix (CachePage.touch s.lastAccess)
    let dst ← copyOut cfg s ix addr len
    return ((spiffsOk, dst), s)
  | none =>
    if opType op = opTObjLu2 then some (hal.read s.flash addr len, s)
    else
      let (res, s) := pageRemoveOldest hal cfg s flagTypeWr 0
      match pageAllocate s with
      | (none, _) => none
      | (some ix, s) => do
        let (res₂, s) := makeCopy hal cfg s ix addr
        let dst ← copyOut cfg s ix addr len
        return ((if res₂ = spiffsOk then res else res₂, dst), s)

/-- `SPIFFS_HAL_WRITE`, and return its result. -/
def halWrite (s : SpiffsCache) (addr : ℕ) (src : List UInt8) : ℤ × SpiffsCache :=
  let (res, flash) := hal.write s.flash addr src
  (res, { s with flash := flash })

/-- **`spiffs_phys_wr`**. -/
def physWr (s : SpiffsCache) (op : UInt8) (addr : ℕ) (src : List UInt8) :
    Option (ℤ × SpiffsCache) :=
  match pageGet s (cfg.paddrToPage addr) with
  | (none, s) => some (halWrite hal s addr src)
  | (some ix, s) =>
    if opCom op = opCWrthru then some (halWrite hal s addr src)
    else if opCom op = opCDele ∧ opType op ≠ opTObjLu then
      some (halWrite hal (pageFree hal cfg s ix false).2 addr src)
    else do
      let cp ← s.pages[ix]?
      let mem ← Block.write cp.mem (cfg.paddrToPageOffset addr) src
      let s := s.tick
      let s := s.modify ix fun cp => { cp.touch s.lastAccess with mem := mem }
      if cp.flags &&& flagWrthru ≠ 0 then some (halWrite hal s addr src)
      else some (spiffsOk, s)

/-! ## Pages that keep data of files -/

/-- `spiffs_cache_page_allocate_by_fd`, of a descriptor of an object. -/
def pageAllocateByFd (s : SpiffsCache) (objId : ℕ) : Option ℕ × SpiffsCache :=
  match pageAllocate (pageRemoveOldest hal cfg s flagTypeWr 0).2 with
  | (none, s) => (none, s)
  | (some ix, s) =>
    (some ix, s.modify ix fun cp => { cp with flags := flagTypeWr, pix := objId })

/-- What `SPIFFS_write` does to the page of its descriptor: `offset` and `size`, and data that
is copied to its memory. -/
def fill (s : SpiffsCache) (ix offset size at' : ℕ) (buf : List UInt8) :
    Option SpiffsCache := do
  let cp ← s.pages[ix]?
  let mem ← Block.write cp.mem at' buf
  return s.modify ix fun cp => { cp with offset := offset, size := size, mem := mem }

/-- `spiffs_cache_fd_release`, of a page. -/
def fdRelease (s : SpiffsCache) (ix : ℕ) : SpiffsCache :=
  (pageFree hal cfg s ix false).2.modify ix fun cp => { cp with pix := 0 }

/-! ## Blocks -/

/-- The loop of `spiffs_erase_block`, from an address on. -/
def eraseFrom (flash : ByteMem) (addr size : ℕ) : Option ByteMem :=
  if size > 0 then do
    let (_, flash) ← hal.erase flash addr cfg.physEraseBlock
    eraseFrom flash (addr + cfg.physEraseBlock) (size - cfg.physEraseBlock)
  else some flash
  termination_by size
  decreasing_by
    have := cfg.erase_pos
    omega

/-- The two bytes of a 16-bit value in memory. -/
def bytes16 (x : UInt16) : List UInt8 := [x.toUInt8, (x >>> 8).toUInt8]

/-- `SPIFFS_OBJ_ID_IX_FLAG`. -/
def objIdIxFlag : UInt16 := 0x8000

/-- **`spiffs_erase_block`**. -/
def eraseBlock (s : SpiffsCache) (bix : ℕ) : Option (ℤ × SpiffsCache) := do
  let flash ← eraseFrom hal cfg s.flash (cfg.blockToPaddr bix) cfg.logBlockSize
  let s := { s with flash := flash, freeBlocks := s.freeBlocks + 1 }
  let (res, s) ← physWr hal cfg s (opCWrthru ||| opTObjLu2) (cfg.eraseCountPaddr bix)
    (bytes16 s.maxEraseCount)
  if res < spiffsOk then return (res, s)
  let (res, s) ← physWr hal cfg s (opCWrthru ||| opTObjLu2) (cfg.magicPaddr bix)
    (bytes16 cfg.magic)
  if res < spiffsOk then return (res, s)
  let maxEraseCount := s.maxEraseCount + 1
  return (res, { s with
    maxEraseCount := if maxEraseCount = objIdIxFlag then 0 else maxEraseCount })

/-- **`spiffs_gc_erase_block`**. -/
def gcEraseBlock (s : SpiffsCache) (bix : ℕ) : Option (ℤ × SpiffsCache) := do
  let (res, s) ← eraseBlock hal cfg s bix
  if res < spiffsOk then return (res, s)
  return (res, (List.range cfg.pagesPerBlock).foldl
    (fun s i => dropPage hal cfg s ((bix * cfg.pagesPerBlock + i) % 2 ^ 16)) s)

/-! ## What the functions of the pool do -/

variable {hal cfg} {s t u : SpiffsCache} {cp cq : CachePage} {i j ix pix : ℕ}

theorem getElem?_modify (s : SpiffsCache) (ix : ℕ) (f : CachePage → CachePage) (i : ℕ) :
    (s.modify ix f).pages[i]? = if i = ix then s.pages[i]?.map f else s.pages[i]? := by
  show (s.pages.modify ix f)[i]? = _
  by_cases h : i = ix
  · rw [if_pos h, ← h]
    exact List.getElem?_modify_eq f i s.pages
  · rw [if_neg h]
    exact List.getElem?_modify_ne f s.pages (Ne.symm h)

theorem getElem?_modify_self (h : s.pages[ix]? = some cp) (f : CachePage → CachePage) :
    (s.modify ix f).pages[ix]? = some (f cp) := by
  rw [getElem?_modify, if_pos rfl, h]
  rfl

theorem modify_modify (s : SpiffsCache) (ix : ℕ) (f g : CachePage → CachePage) :
    (s.modify ix f).modify ix g = s.modify ix (g ∘ f) := by
  show SpiffsCache.mk _ ((s.pages.modify ix f).modify ix g) _ _ _ = _
  rw [List.modify_modify_eq]
  rfl

@[simp] theorem flash_modify (s : SpiffsCache) (ix : ℕ) (f : CachePage → CachePage) :
    (s.modify ix f).flash = s.flash := rfl

theorem tick_modify (s : SpiffsCache) (ix : ℕ) (f : CachePage → CachePage) :
    (s.modify ix f).tick = s.tick.modify ix f := rfl

/-- The index of the first element with a property. -/
theorem getElem?_of_findIdx? {p : CachePage → Bool} (h : s.pages.findIdx? p = some ix) :
    ∃ cp, s.pages[ix]? = some cp ∧ p cp = true := by
  obtain ⟨hlt, hp, -⟩ := List.findIdx?_eq_some_iff_getElem.mp h
  exact ⟨_, List.getElem?_eq_getElem hlt, hp⟩

/-- `spiffs_cache_page_get` finds a copy, or there is none. -/
theorem pageGet_cases (s : SpiffsCache) (pix : ℕ) :
    (pageGet s pix = (none, s) ∧
      ∀ (i : ℕ) (cp : CachePage), s.pages[i]? = some cp → cp.isCopyOf pix = false) ∨
    ∃ ix cp, s.pages[ix]? = some cp ∧ cp.isCopyOf pix = true ∧
      pageGet s pix = (some ix, s.modify ix (CachePage.touch s.lastAccess)) := by
  unfold pageGet
  cases hfind : s.pages.findIdx? (CachePage.isCopyOf pix) with
  | none =>
    exact Or.inl ⟨rfl, fun i cp hcp =>
      List.findIdx?_eq_none_iff.mp hfind cp (List.mem_of_getElem? hcp)⟩
  | some ix =>
    obtain ⟨cp, hcp, hcopy⟩ := getElem?_of_findIdx? hfind
    exact Or.inr ⟨ix, cp, hcp, hcopy, rfl⟩

/-- `spiffs_cache_page_allocate` takes a page that is free, or there is none. -/
theorem pageAllocate_cases (s : SpiffsCache) :
    (pageAllocate s = (none, s) ∧
      ∀ (i : ℕ) (cp : CachePage), s.pages[i]? = some cp → cp.used = true) ∨
    ∃ ix cp, s.pages[ix]? = some cp ∧ cp.used = false ∧
      pageAllocate s = (some ix, s.modify ix (CachePage.take s.lastAccess)) := by
  unfold pageAllocate
  cases hfind : s.pages.findIdx? (!·.used) with
  | none =>
    refine Or.inl ⟨rfl, fun i cp hcp => ?_⟩
    have hused := List.findIdx?_eq_none_iff.mp hfind cp (List.mem_of_getElem? hcp)
    simpa using hused
  | some ix =>
    obtain ⟨cp, hcp, hfree⟩ := getElem?_of_findIdx? hfind
    exact Or.inr ⟨ix, cp, hcp, by simpa using hfree, rfl⟩

/-- What the scan for the oldest page finds. -/
theorem oldest_spec (lastAccess : UInt32) (flagMask flags : UInt8)
    (pages : List CachePage) (i : ℕ)
    (cand : Option ℕ × UInt32) :
    (∀ k, (oldest lastAccess flagMask flags pages i cand).1 = some k → cand.1 = some k ∨
      ∃ j cp, pages[j]? = some cp ∧ k = i + j ∧ lastAccess - cp.lastAccess > cand.2 ∧
        cp.flags &&& flagMask = flags) ∧
    ((oldest lastAccess flagMask flags pages i cand).1 = none → cand.1 = none ∧
      ∀ cp ∈ pages, ¬ (lastAccess - cp.lastAccess > cand.2 ∧
        cp.flags &&& flagMask = flags)) := by
  induction pages generalizing i cand with
  | nil => exact ⟨fun k h => Or.inl h, fun h => ⟨h, by simp⟩⟩
  | cons cp pages ih =>
    rw [oldest]
    obtain ⟨hsome, hnone⟩ := ih (i + 1) (if lastAccess - cp.lastAccess > cand.2 ∧
      cp.flags &&& flagMask = flags then (some i, lastAccess - cp.lastAccess) else cand)
    constructor
    · intro k hk
      rcases hsome k hk with hcand | ⟨j, cq, hcq, hkj, hage, hflags⟩
      · split at hcand
        · rename_i hnew
          exact Or.inr ⟨0, cp, rfl, (Option.some.inj hcand).symm, hnew⟩
        · exact Or.inl hcand
      · refine Or.inr ⟨j + 1, cq, hcq, by omega, ?_, hflags⟩
        split at hage
        · rename_i hnew
          exact UInt32.lt_trans hnew.1 hage
        · exact hage
    · intro h
      obtain ⟨hcand, hrest⟩ := hnone h
      split at hcand
      · cases hcand
      · rename_i hold
        rw [if_neg hold] at hrest
        exact ⟨hcand, List.forall_mem_cons.mpr ⟨hold, hrest⟩⟩

/-- **There is a page to make a copy in**: one that is free, or a copy that is not in use
now. -/
def Evictable (s : SpiffsCache) : Prop :=
  ∃ cp ∈ s.pages, cp.used = false ∨ cp.isWr = false ∧ cp.lastAccess ≠ s.lastAccess

instance (s : SpiffsCache) : Decidable s.Evictable := List.decidableBEx _ _

theorem isWr_eq_false_iff : cp.isWr = false ↔ cp.flags &&& flagTypeWr = 0 := by
  simp [CachePage.isWr]

/-- `spiffs_cache_page_remove_oldest` of the copies: it does nothing, with a page free or
without a candidate, or it frees a copy. -/
theorem pageRemoveOldest_cases (hal : SpiffsFlash) (cfg : SpiffsConfig) (s : SpiffsCache) :
    (pageRemoveOldest hal cfg s flagTypeWr 0 = (spiffsOk, s) ∧
      (s.Evictable → ∃ cp ∈ s.pages, cp.used = false)) ∨
    ∃ ix cp, s.pages[ix]? = some cp ∧ cp.isCopy = true ∧ s.Evictable ∧
      pageRemoveOldest hal cfg s flagTypeWr 0 = pageFree hal cfg s ix true := by
  unfold pageRemoveOldest
  by_cases hfree : s.pages.any (!·.used) = true
  · rw [if_pos hfree]
    obtain ⟨cp, hcp, hused⟩ := List.any_eq_true.mp hfree
    exact Or.inl ⟨rfl, fun _ => ⟨cp, hcp, by simpa using hused⟩⟩
  · rw [if_neg hfree]
    have hall : ∀ cp ∈ s.pages, cp.used = true := by simpa using hfree
    obtain ⟨hsome, hnone⟩ := oldest_spec s.lastAccess flagTypeWr 0 s.pages 0 (none, 0)
    cases hcand : (oldest s.lastAccess flagTypeWr 0 s.pages 0 (none, 0)).1 with
    | none =>
      refine Or.inl ⟨rfl, ?_⟩
      rintro ⟨cp, hcp, hunused | ⟨hwr, hage⟩⟩
      · exact ⟨cp, hcp, hunused⟩
      · refine absurd ⟨?_, isWr_eq_false_iff.mp hwr⟩ ((hnone hcand).2 cp hcp)
        have hne : s.lastAccess - cp.lastAccess ≠ 0 := fun hzero =>
          hage ((UInt32.sub_eq_iff_eq_add.mp hzero).trans (UInt32.zero_add _)).symm
        exact UInt32.pos_iff_ne_zero.mpr hne
    | some ix =>
      obtain hnil | ⟨j, cp, hcp, rfl, hage, hflags⟩ := hsome ix hcand
      · cases hnil
      · have hwr := isWr_eq_false_iff.mpr hflags
        refine Or.inr ⟨0 + j, cp, by rw [Nat.zero_add]; exact hcp, ?_,
          ⟨cp, List.mem_of_getElem? hcp, Or.inr ⟨hwr, fun heq => ?_⟩⟩, rfl⟩
        · rw [CachePage.isCopy, hall cp (List.mem_of_getElem? hcp), hwr]
          rfl
        · rw [heq, UInt32.sub_self] at hage
          exact UInt32.lt_irrefl 0 hage

end SpiffsCache
