import Esp31b.SpiffsContent

/-!
# Blocks that are given back

`spiffs_gc_quick` looks for a block that needs no cleaning: all of its entries are deleted or
free, and so many may be free. It erases the first such block. The scan of a block ends as soon
as an entry tells that the block is not one.

`spiffs_obj_lu_find_free` has it done before it looks for a free entry, when there are less than
two free blocks.
-/

namespace SpiffsLookup

open SpiffsCache (opTObjLu spiffsOk objIdIxFlag opType opTObjLu2 physRd
  gcEraseBlock Coherent Ready
  bareErase bytes16)

/-- `SPIFFS_ERR_NO_DELETED_BLOCKS`. -/
def errNoDeletedBlocks : ℤ := -10029

/-- What `spiffs_gc_quick` works on: `fs->lu_work`, `fs->stats_p_deleted`, and how it gets on in
a block. -/
structure GcScan where
  cache : SpiffsCache
  luWork : List UInt8
  statsPDeleted : UInt32
  deletedPages : ℕ
  freePages : ℕ
  curEntry : ℕ

variable (hal : SpiffsFlash) (cfg : SpiffsConfig) (maxFreePages : ℕ)

/-- The loop over the entries of a lookup page: with 1, the block is not one to be erased. -/
def gcEntries (page : ℕ) (s : GcScan) : Option (ℤ × GcScan) :=
  if s.curEntry - page * cfg.entriesPerPage < cfg.entriesPerPage ∧
      s.curEntry < cfg.objLookupMaxEntries then do
    let objId ← s.luWork.word? (2 * (s.curEntry - page * cfg.entriesPerPage))
    if objId = objIdDeleted then
      gcEntries page { s with deletedPages := s.deletedPages + 1, curEntry := s.curEntry + 1 }
    else if objId = objIdFree then
      if maxFreePages < s.freePages + 1 then return (1, { s with freePages := s.freePages + 1 })
      else gcEntries page { s with freePages := s.freePages + 1, curEntry := s.curEntry + 1 }
    else return (1, s)
  else some (spiffsOk, s)
  termination_by cfg.objLookupMaxEntries - s.curEntry

/-- The loop over the lookup pages of a block. -/
def gcPages (curBlock page : ℕ) (s : GcScan) : Option (ℤ × GcScan) :=
  if page < cfg.objLookupPages then do
    let ((res, buf), cache) ← physRd hal cfg s.cache (opTObjLu ||| opCRead)
      (curBlock * cfg.logBlockSize + cfg.pageToPaddr page) cfg.logPageSize
    let s := { s with cache := cache, luWork := buf }
    if res = spiffsOk then
      let (res, s) ← gcEntries cfg maxFreePages page s
      if res = spiffsOk then gcPages curBlock (page + 1) s else return (res, s)
    else return (res, s)
  else some (spiffsOk, s)
  termination_by cfg.objLookupPages - page

/-- The loop over the blocks, of which so many are left. -/
def gcBlocks : ℕ → ℕ → GcScan → Option (ℤ × GcScan)
  | 0, _, s => some (errNoDeletedBlocks, s)
  | blocks + 1, curBlock, s => do
    let (res, s) ← gcPages hal cfg maxFreePages curBlock 0
      { s with deletedPages := 0, freePages := 0, curEntry := 0 }
    if res = spiffsOk ∨ res = 1 then
      if s.deletedPages + s.freePages = cfg.objLookupMaxEntries ∧
          s.freePages ≤ maxFreePages then
        let (res, cache) ← gcEraseBlock hal cfg s.cache curBlock
        return (res, { s with
          cache := cache, statsPDeleted := s.statsPDeleted - UInt32.ofNat s.deletedPages })
      else gcBlocks blocks (curBlock + 1) s
    else return (res, s)

/-- **`spiffs_gc_quick`**. -/
def gcQuick (s : GcScan) : Option (ℤ × GcScan) :=
  gcBlocks hal cfg maxFreePages cfg.blockCount 0 s

/-! ## Free entries -/

/-- `SPIFFS_ERR_FULL`. -/
def errFull : ℤ := -10001

/-- `spiffs_obj_lu_find_id`: the result, and where it is. -/
def findId {τ : Type} (rd : Reader τ) (cfg : SpiffsConfig) (startingBlock startingLuEntry : ℕ)
    (objId : UInt16) (fs : τ) : Fueled (Option ((ℤ × ℕ × ℕ) × τ)) := do
  let found ←
    findEntryVisitor rd cfg ⟨true, false, false⟩ objId none startingBlock startingLuEntry fs
  return found.map fun (res, s) =>
    ((if res = visEnd then errNotFound else res, s.blockIx, s.luEntry), s.fs)

/-- What `spiffs_obj_lu_find_free` works on: `fs->free_cursor_block_ix` and
`fs->free_cursor_obj_lu_entry`, too. -/
structure FreeSearch where
  scan : GcScan
  freeCursorBlockIx : ℕ
  freeCursorObjLuEntry : ℕ

/-- A block is collected if there are less than two free ones. -/
def collectIfFull (cleaning : Bool) (s : GcScan) : Option (ℤ × GcScan) :=
  if cleaning = false ∧ s.cache.freeBlocks < 2 then do
    let (res, s) ← gcQuick hal cfg 0 s
    if res = errNoDeletedBlocks ∨ spiffsOk ≤ res then
      return (if s.cache.freeBlocks < 2 then errFull else spiffsOk, s)
    else return (res, s)
  else some (spiffsOk, s)

/-- **`spiffs_obj_lu_find_free`**: the result, `*block_ix` and `*lu_entry`. -/
def findFree (cleaning : Bool) (startingBlock startingLuEntry : ℕ) (s : FreeSearch) :
    Fueled (Option ((ℤ × ℕ × ℕ) × FreeSearch)) := do
  match collectIfFull hal cfg cleaning s.scan with
  | none => pure none
  | some (res, scan) =>
    if res < spiffsOk then pure (some ((res, 0, 0), { s with scan := scan }))
    else do
      let found ← findId (physRd hal cfg) cfg startingBlock startingLuEntry objIdFree scan.cache
      return found.map fun ((res, block, entry), cache) =>
        let s := { s with scan := { scan with cache := cache } }
        if res = spiffsOk then
          ((res, block, entry), {
            scan := if entry = 0 then { s.scan with cache := { cache with
                freeBlocks := (cache.freeBlocks + (2 ^ 32 - 1)) % 2 ^ 32 } }
              else s.scan
            freeCursorBlockIx := block
            freeCursorObjLuEntry := entry })
        else ((res, block, entry), s)

end SpiffsLookup
