import Esp31b.Fueled
import Esp31b.SpiffsCache

/-!
# The lookup of objects

Each block of SPIFFS starts with lookup pages: the ids of the objects that its other pages are
of, one behind the other. `spiffs_obj_lu_find_entry_visitor` goes through them, from a given
entry on through all blocks, and asks a visitor about each entry, or each with a given id. It
stops where the visitor does not tell it to go on. The functions below are those of the source,
over the function that reads the flash.

The loops are left when a page cannot be read. The one over the blocks counts the entries; that
it ends is shown where it is used. What is in `*block_ix` and `*lu_entry` is part of the state.
-/

namespace SpiffsConfig

variable (cfg : SpiffsConfig)

/-- `SPIFFS_OBJ_LOOKUP_MAX_ENTRIES`. -/
def objLookupMaxEntries : ℕ := cfg.pagesPerBlock - cfg.objLookupPages

/-- `fs->block_count`. -/
def blockCount : ℕ := cfg.physSize / cfg.logBlockSize

/-- The entries of a lookup page. -/
def entriesPerPage : ℕ := cfg.logPageSize / 2

/-- `SPIFFS_OBJ_LOOKUP_ENTRY_TO_PIX`, as a `spiffs_page_ix`. -/
def objLookupEntryToPix (block entry : ℕ) : ℕ :=
  (block * cfg.pagesPerBlock + (cfg.objLookupPages + entry)) % 2 ^ 16

end SpiffsConfig

/-- Sixteen bits in a buffer. -/
def List.word? (buf : List UInt8) (i : ℕ) : Option UInt16 := do
  let low ← buf[i]?
  let high ← buf[i + 1]?
  return low.toUInt16 ||| high.toUInt16 <<< 8

/-- **`spiffs_page_header`**. -/
structure PageHeader where
  objId : UInt16
  spanIx : UInt16
  flags : UInt8
  deriving DecidableEq

namespace PageHeader

/-- `sizeof(spiffs_page_header)`. -/
def size : ℕ := 5

/-- `SPIFFS_PH_FLAG_USED`, which is zero in a page that is written to. -/
def flagUsed : UInt8 := 1

/-- `SPIFFS_PH_FLAG_FINAL`. -/
def flagFinal : UInt8 := 2

/-- `SPIFFS_PH_FLAG_INDEX`. -/
def flagIndex : UInt8 := 4

/-- `SPIFFS_PH_FLAG_IXDELE`. -/
def flagIxdele : UInt8 := 0x40

/-- `SPIFFS_PH_FLAG_DELET`. -/
def flagDelet : UInt8 := 0x80

/-- The header in the bytes of a page. -/
def ofBytes (buf : List UInt8) : Option PageHeader := do
  let objId ← buf.word? 0
  let spanIx ← buf.word? 2
  let flags ← buf[4]?
  return ⟨objId, spanIx, flags⟩

end PageHeader

namespace SpiffsLookup

open SpiffsCache (opTObjLu opTObjLu2 spiffsOk objIdIxFlag)

/-- `SPIFFS_OP_C_READ`. -/
def opCRead : UInt8 := 20

/-- `SPIFFS_OBJ_ID_DELETED`. -/
def objIdDeleted : UInt16 := 0

/-- `SPIFFS_OBJ_ID_FREE`. -/
def objIdFree : UInt16 := 0xFFFF

/-- `SPIFFS_ERR_NOT_FOUND`. -/
def errNotFound : ℤ := -10002

/-- `SPIFFS_VIS_COUNTINUE`. -/
def visContinue : ℤ := -10070

/-- `SPIFFS_VIS_COUNTINUE_RELOAD`. -/
def visContinueReload : ℤ := -10071

/-- `SPIFFS_VIS_END`. -/
def visEnd : ℤ := -10072

/-- `_spiffs_rd`: the operation, the address and the length. -/
abbrev Reader (τ : Type) := τ → UInt8 → ℕ → ℕ → Option ((ℤ × List UInt8) × τ)

/-- `spiffs_visitor_f`: the id, the block and the entry. -/
abbrev Visitor (τ : Type) := τ → UInt16 → ℕ → ℕ → Option (ℤ × τ)

/-- `SPIFFS_VIS_CHECK_ID`, `SPIFFS_VIS_CHECK_PH` and `SPIFFS_VIS_NO_WRAP`. -/
structure VisFlags where
  checkId : Bool
  checkPh : Bool
  noWrap : Bool

/-- What the search works on, besides its position: `fs->lu_work`, `*block_ix` and `*lu_entry`,
and `entry_count`. -/
structure LuSearch (τ : Type) where
  fs : τ
  luWork : List UInt8
  blockIx : ℕ
  luEntry : ℕ
  entryCount : ℤ

variable {τ : Type} (rd : Reader τ) (cfg : SpiffsConfig) (flags : VisFlags) (objId : UInt16)
variable (v : Option (Visitor τ))

/-- A lookup page is read to `fs->lu_work`. -/
def loadPage (curBlock page : ℕ) (s : LuSearch τ) : Option (ℤ × LuSearch τ) := do
  let ((res, buf), fs) ← rd s.fs (opTObjLu ||| opCRead)
    (curBlock * cfg.logBlockSize + cfg.pageToPaddr page) cfg.logPageSize
  return (res, { s with fs := fs, luWork := buf })

/-- The search goes on. -/
def LuSearch.next (s : LuSearch τ) : LuSearch τ := { s with entryCount := s.entryCount - 1 }

/-- What is done with an entry: the function returns (`inl`), or goes on. -/
def visitEntry (curBlock page curEntry : ℕ) (s : LuSearch τ) :
    Option ((ℤ × LuSearch τ) ⊕ LuSearch τ) := do
  let id ← s.luWork.word? (2 * (curEntry - page * cfg.entriesPerPage))
  if flags.checkId = false ∨ id = objId then
    let s := { s with blockIx := curBlock, luEntry := curEntry }
    match v with
    | none => return .inl (spiffsOk, s)
    | some visitor =>
      let (res, fs) ← visitor s.fs (if flags.checkPh then objId else id) curBlock curEntry
      let s := { s with fs := fs }
      if res = visContinue then return .inr s.next
      else if res = visContinueReload then
        let (res, s) ← loadPage rd cfg curBlock page s
        if res < spiffsOk then return .inl (res, s) else return .inr s.next
      else return .inl (res, s)
  else return .inr s.next

/-- The loop over the entries of a page, left with the next entry. -/
def visitEntries (curBlock page curEntry : ℕ) (s : LuSearch τ) :
    Option ((ℤ × LuSearch τ) ⊕ (ℕ × LuSearch τ)) :=
  if curEntry - page * cfg.entriesPerPage < cfg.entriesPerPage ∧
      curEntry < cfg.objLookupMaxEntries then do
    match ← visitEntry rd cfg flags objId v curBlock page curEntry s with
    | .inl r => return .inl r
    | .inr s => visitEntries curBlock page (curEntry + 1) s
  else some (.inr (curEntry, s))
  termination_by cfg.objLookupMaxEntries - curEntry

/-- The loop over the lookup pages of a block, left with a result. -/
def visitPages (curBlock page curEntry : ℕ) (s : LuSearch τ) :
    Option ((ℤ × LuSearch τ) ⊕ (ℤ × LuSearch τ)) :=
  if page < cfg.objLookupPages then do
    let (res, s) ← loadPage rd cfg curBlock page s
    if res = spiffsOk then
      match ← visitEntries rd cfg flags objId v curBlock page curEntry s with
      | .inl r => return .inl r
      | .inr (curEntry, s) => visitPages curBlock (page + 1) curEntry s
    else return .inr (res, s)
  else some (.inr (spiffsOk, s))
  termination_by cfg.objLookupPages - page

/-- A turn of the loop over the blocks. -/
def visitBlock : ℕ × ℕ × LuSearch τ → (ℕ × ℕ × LuSearch τ) ⊕ Option (ℤ × LuSearch τ)
  | (curBlock, curEntry, s) =>
    if 0 < s.entryCount then
      match visitPages rd cfg flags objId v curBlock
        (curEntry / cfg.entriesPerPage) curEntry s with
      | none => .inr none
      | some (.inl r) => .inr (some r)
      | some (.inr (res, s)) =>
        let curBlock := (curBlock + 1) % 2 ^ 16
        if cfg.blockCount ≤ curBlock ∧ flags.noWrap then .inr (some (visEnd, s))
        else if res = spiffsOk then .inl
          (if cfg.blockCount ≤ curBlock then 0 else curBlock, 0, s)
        else .inr (some (if res < spiffsOk then res else visEnd, s))
    else .inr (some (visEnd, s))

/-- The loop over the blocks. -/
def visitBlocks : ℕ × ℕ × LuSearch τ → Fueled (Option (ℤ × LuSearch τ)) :=
  Fueled.loop fun s => pure (visitBlock rd cfg flags objId v s)

/-- **`spiffs_obj_lu_find_entry_visitor`**: the result, and where it is from. There is none
through a null pointer. -/
def findEntryVisitor (startingBlock startingLuEntry : ℕ) (fs : τ) :
    Fueled (Option (ℤ × LuSearch τ)) :=
  let s : LuSearch τ := ⟨fs, [], 0, 0, cfg.blockCount * cfg.objLookupMaxEntries⟩
  -- The last entry of a block counts as the first one of the next.
  if cfg.objLookupMaxEntries ≤ startingLuEntry + 1 then
    let curBlock := (startingBlock + 1) % 2 ^ 16
    if cfg.blockCount ≤ curBlock then
      if flags.noWrap then pure (some (visEnd, s))
      else visitBlocks rd cfg flags objId v (0, 0, s)
    else visitBlocks rd cfg flags objId v (curBlock, 0, s)
  else visitBlocks rd cfg flags objId v (startingBlock, startingLuEntry, s)

/-- What `spiffs` keeps for the lookups: where the last one ended. -/
structure Fs (τ : Type) where
  device : τ
  cursorBlockIx : ℕ
  cursorObjLuEntry : ℕ

/-- What `spiffs_obj_lu_find_id_and_span_v` looks for. -/
def Sought (objId spix : UInt16) (exclusionPix pix : ℕ) (ph : PageHeader) : Prop :=
  ph.objId = objId ∧ ph.spanIx = spix ∧
    ph.flags &&& (PageHeader.flagFinal ||| PageHeader.flagDelet ||| PageHeader.flagUsed) =
      PageHeader.flagDelet ∧
    ¬ (objId &&& objIdIxFlag ≠ 0 ∧ ph.flags &&& PageHeader.flagIxdele = 0 ∧ ph.spanIx = 0) ∧
    (exclusionPix = 0 ∨ exclusionPix ≠ pix)

instance (objId spix : UInt16) (exclusionPix pix : ℕ) (ph : PageHeader) :
    Decidable (Sought objId spix exclusionPix pix ph) :=
  inferInstanceAs (Decidable (_ ∧ _ ∧ _ ∧ _ ∧ _))

/-- `spiffs_obj_lu_find_id_and_span_v`. The source swaps two arguments: the operation is zero,
and it is the number of the descriptor that says `SPIFFS_OP_T_OBJ_LU2`. -/
def findIdAndSpanV (spix : UInt16) (exclusionPix : ℕ) : Visitor τ :=
  fun fs objId bix ixEntry => do
  let pix := cfg.objLookupEntryToPix bix ixEntry
  let ((res, buf), fs) ← rd fs 0 (cfg.pageToPaddr pix) PageHeader.size
  if res < spiffsOk then return (res, fs)
  let ph ← PageHeader.ofBytes buf
  return (if Sought objId spix exclusionPix pix ph then spiffsOk else visContinue, fs)

/-- **`spiffs_obj_lu_find_id_and_span`**: the result, and `*pix`. -/
def findIdAndSpan (fs : Fs τ) (spix : UInt16) (exclusionPix : ℕ) :
    Fueled (Option ((ℤ × ℕ) × Fs τ)) := do
  let found ← findEntryVisitor rd cfg ⟨true, false, false⟩ objId
    (some (findIdAndSpanV rd cfg spix exclusionPix)) fs.cursorBlockIx
    fs.cursorObjLuEntry fs.device
  return found.map fun (res, s) =>
    let res := if res = visEnd then errNotFound else res
    if res < spiffsOk then ((res, 0), { fs with device := s.fs })
    else ((res, cfg.objLookupEntryToPix s.blockIx s.luEntry), ⟨s.fs, s.blockIx, s.luEntry⟩)

end SpiffsLookup
