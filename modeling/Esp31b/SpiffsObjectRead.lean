import Esp31b.SpiffsFile
import Esp31b.SpiffsLookup

/-!
# Objects on the flash

An object has an index header page, with its size, its type and its name, and index pages behind
it. They have tables of its data pages. `spiffs_object_open_by_id` looks for the index header,
and `spiffs_object_read` goes from data page to data page: it loads the index page that has the
next one, unless it is the one before, checks the data page and reads from it.

The functions below are those of the source, over the function that reads the flash. A table
that is read behind the page it is in has no result.
-/

namespace SpiffsConfig

variable (cfg : SpiffsConfig)

/-- `sizeof(spiffs_page_object_ix)`, with what aligns its table. -/
def objectIxSize : ℕ := 8

/-- `sizeof(spiffs_page_object_ix_header)`, with what aligns its table. -/
def objectIxHeaderSize : ℕ := 46

/-- `SPIFFS_MAX_PAGES`. -/
def maxPages : ℕ := cfg.physSize / cfg.logPageSize

/-- `SPIFFS_BLOCK_FOR_PAGE`. -/
def blockForPage (page : ℕ) : ℕ := page / cfg.pagesPerBlock

/-- `SPIFFS_OBJ_LOOKUP_ENTRY_FOR_PAGE`, of a page that is not a lookup page. -/
def objLookupEntryForPage (page : ℕ) : ℕ := page % cfg.pagesPerBlock - cfg.objLookupPages

/-- `SPIFFS_DATA_PAGE_SIZE`. -/
def dataPageSize : ℕ := cfg.logPageSize - PageHeader.size

/-- `SPIFFS_OBJ_HDR_IX_LEN`. -/
def objHdrIxLen : ℕ := (cfg.logPageSize - objectIxHeaderSize) / 2

/-- `SPIFFS_OBJ_IX_LEN`. -/
def objIxLen : ℕ := (cfg.logPageSize - objectIxSize) / 2

/-- `SPIFFS_OBJ_IX_ENTRY`. -/
def objIxEntry (spix : ℕ) : ℕ :=
  if spix < cfg.objHdrIxLen then spix else (spix - cfg.objHdrIxLen) % cfg.objIxLen

/-- `SPIFFS_OBJ_IX_ENTRY_SPAN_IX`, as a `spiffs_span_ix`. -/
def objIxEntrySpanIx (spix : ℕ) : ℕ :=
  (if spix < cfg.objHdrIxLen then 0 else 1 + (spix - cfg.objHdrIxLen) / cfg.objIxLen) % 2 ^ 16

end SpiffsConfig

/-- Thirty-two bits in a buffer. -/
def List.long? (buf : List UInt8) (i : ℕ) : Option UInt32 := do
  let low ← buf.word? i
  let high ← buf.word? (i + 2)
  return low.toUInt32 ||| high.toUInt32 <<< 16

/-- **`spiffs_page_object_ix_header`**. -/
structure ObjectIxHeader where
  pHdr : PageHeader
  size : UInt32
  type : UInt8
  name : List UInt8
  deriving DecidableEq

namespace ObjectIxHeader

/-- `SPIFFS_OBJ_NAME_LEN`. -/
def objNameLen : ℕ := 32

/-- The index header in the bytes of a page. -/
def ofBytes (buf : List UInt8) : Option ObjectIxHeader := do
  let pHdr ← PageHeader.ofBytes buf
  let size ← buf.long? 8
  let type ← buf[12]?
  let name ← Block.read buf 13 objNameLen
  return ⟨pHdr, size, type, name⟩

end ObjectIxHeader

/-- **`spiffs_fd`**: what the functions for objects look at. -/
structure ObjectFd where
  objId : UInt16
  size : ℕ
  objixHdrPix : ℕ
  cursorObjixPix : ℕ
  cursorObjixSpix : ℕ
  offset : ℕ
  flags : UInt16
  deriving DecidableEq

namespace SpiffsLookup

open SpiffsCache (opTObjLu spiffsOk objIdIxFlag)

/-- `SPIFFS_OP_T_OBJ_IX`. -/
def opTObjIx : UInt8 := 2

/-- `SPIFFS_OP_T_OBJ_DA`. -/
def opTObjDa : UInt8 := 3

/-- `SPIFFS_ERR_DELETED`. -/
def errDeleted : ℤ := -10004

/-- `SPIFFS_ERR_NOT_FINALIZED`. -/
def errNotFinalized : ℤ := -10005

/-- `SPIFFS_ERR_NOT_INDEX`. -/
def errNotIndex : ℤ := -10006

/-- `SPIFFS_ERR_IS_INDEX`. -/
def errIsIndex : ℤ := -10011

/-- `SPIFFS_ERR_IS_FREE`. -/
def errIsFree : ℤ := -10012

/-- `SPIFFS_ERR_INDEX_SPAN_MISMATCH`. -/
def errIndexSpanMismatch : ℤ := -10013

/-- `SPIFFS_ERR_DATA_SPAN_MISMATCH`. -/
def errDataSpanMismatch : ℤ := -10014

/-- `SPIFFS_ERR_INDEX_REF_FREE`. -/
def errIndexRefFree : ℤ := -10015

/-- `SPIFFS_ERR_INDEX_REF_LU`. -/
def errIndexRefLu : ℤ := -10016

/-- `SPIFFS_ERR_INDEX_REF_INVALID`. -/
def errIndexRefInvalid : ℤ := -10017

/-- What `SPIFFS_VALIDATE_OBJIX` and `SPIFFS_VALIDATE_DATA` both ask for first. -/
def validate (ph : PageHeader) (rest : ℤ) : ℤ :=
  if ph.flags &&& PageHeader.flagUsed ≠ 0 then errIsFree
  else if ph.flags &&& PageHeader.flagDelet = 0 then errDeleted
  else if ph.flags &&& PageHeader.flagFinal ≠ 0 then errNotFinalized
  else rest

/-- `SPIFFS_VALIDATE_OBJIX`. -/
def validateObjix (ph : PageHeader) (objId : UInt16) (spix : ℕ) : ℤ :=
  validate ph
    (if ph.flags &&& PageHeader.flagIndex ≠ 0 then errNotIndex
    else if objId &&& objIdIxFlag = 0 then errNotIndex
    else if ph.spanIx ≠ UInt16.ofNat spix then errIndexSpanMismatch
    else spiffsOk)

/-- `SPIFFS_VALIDATE_DATA`. The id in the header is not looked at. -/
def validateData (ph : PageHeader) (objId : UInt16) (spix : ℕ) : ℤ :=
  validate ph
    (if ph.flags &&& PageHeader.flagIndex = 0 then errIsIndex
    else if objId &&& objIdIxFlag ≠ 0 then errIsIndex
    else if ph.spanIx ≠ UInt16.ofNat spix then errDataSpanMismatch
    else spiffsOk)

variable {τ : Type} (rd : Reader τ) (cfg : SpiffsConfig)

/-! ## Opening -/

/-- **`spiffs_object_open_by_page`**: the result, and the descriptor. -/
def openByPage (fs : τ) (pix : ℕ) (fd : ObjectFd) (flags : UInt16) :
    Option ((ℤ × ObjectFd) × τ) := do
  let ((res, buf), fs) ← rd fs (opTObjIx ||| opCRead) (cfg.pageToPaddr pix)
    SpiffsConfig.objectIxHeaderSize
  if res < spiffsOk then return ((res, fd), fs)
  let oixHdr ← ObjectIxHeader.ofBytes buf
  let ((res, buf), fs) ← rd fs (opTObjLu ||| opCRead)
    (cfg.blockToPaddr (cfg.blockForPage pix) + cfg.objLookupEntryForPage pix * 2) 2
  let objId ← buf.word? 0
  let valid := validateObjix oixHdr.pHdr objId 0
  return ((if valid < spiffsOk then valid else res,
    ⟨objId, oixHdr.size.toNat, pix, pix, 0, 0, flags⟩), fs)

/-- **`spiffs_object_open_by_id`**. -/
def openById (fs : Fs τ) (objId : UInt16) (fd : ObjectFd) (flags : UInt16) :
    Fueled (Option ((ℤ × ObjectFd) × Fs τ)) := do
  let found ← findIdAndSpan rd cfg (objId ||| objIdIxFlag) fs 0 0
  return do
    let ((res, pix), fs) ← found
    if res < spiffsOk then return ((res, fd), fs)
    let (opened, device) ← openByPage rd cfg fs.device pix fd flags
    return (opened, { fs with device := device })

/-! ## Reading -/

/-- **`spiffs_page_data_check`**. -/
def pageDataCheck (fs : τ) (fd : ObjectFd) (pix spix : ℕ) : Option (ℤ × τ) :=
  if pix = 2 ^ 16 - 1 then some (errIndexRefFree, fs)
  else if pix % cfg.pagesPerBlock < cfg.objLookupPages then some (errIndexRefLu, fs)
  else if cfg.maxPages < pix then some (errIndexRefInvalid, fs)
  else do
    let ((res, buf), fs) ← rd fs (opTObjDa ||| opCRead) (cfg.pageToPaddr pix) PageHeader.size
    if res < spiffsOk then return (res, fs)
    let ph ← PageHeader.ofBytes buf
    let valid := validateData ph (fd.objId &&& ~~~objIdIxFlag) spix
    return (if valid < spiffsOk then valid else res, fs)

/-- What `spiffs_object_read` works on, with `fs->work` and what it has read. -/
structure ObjectReading (τ : Type) where
  res : ℤ
  fs : Fs τ
  fd : ObjectFd
  work : List UInt8
  prevObjixSpix : ℕ
  curOffset : ℕ
  dataSpix : ℕ
  dst : List UInt8

/-- Where the index page of a span is: the index header is known. -/
def findObjix (curObjixSpix : ℕ) (fd : ObjectFd) (fs : Fs τ) :
    Fueled (Option ((ℤ × ℕ) × Fs τ)) :=
  if curObjixSpix = 0 then pure (some ((spiffsOk, fd.objixHdrPix), fs))
  else findIdAndSpan rd cfg (fd.objId ||| objIdIxFlag) fs (UInt16.ofNat curObjixSpix) 0

/-- The index page of a span is in `fs->work`, or is loaded. -/
def loadIndex (curObjixSpix : ℕ) (s : ObjectReading τ) : Fueled (Option (ObjectReading τ)) :=
  if s.prevObjixSpix ≠ curObjixSpix then do
    let found ← findObjix rd cfg curObjixSpix s.fd s.fs
    return do
      let ((res, objixPix), fs) ← found
      let s := { s with res := res, fs := fs }
      if res < spiffsOk then return s
      let ((res, work), device) ← rd s.fs.device (opTObjIx ||| opCRead)
          (cfg.pageToPaddr objixPix)
        cfg.logPageSize
      let s := { s with res := res, fs := { s.fs with device := device }, work := work }
      if res < spiffsOk then return s
      let ph ← PageHeader.ofBytes work
      let valid := validateObjix ph s.fd.objId curObjixSpix
      if valid < spiffsOk then return { s with res := valid }
      return { s with
        fd := { s.fd with
          offset := s.curOffset, cursorObjixPix := objixPix, cursorObjixSpix := curObjixSpix }
        prevObjixSpix := curObjixSpix }
  else pure (some s)

/-- The entry of a table: that of the index header, or of an index page. -/
def tableEntry (work : List UInt8) (curObjixSpix dataSpix : ℕ) : Option UInt16 :=
  if curObjixSpix = 0 then work.word? (SpiffsConfig.objectIxHeaderSize + 2 * dataSpix)
  else work.word? (SpiffsConfig.objectIxSize + 2 * cfg.objIxEntry dataSpix)

/-- What is read of a data page: the loop goes on (`inl`), or is left. -/
def readPage (offset len curObjixSpix : ℕ) (s : ObjectReading τ) :
    Option (ObjectReading τ ⊕ ObjectReading τ) := do
  let dataPix ← tableEntry cfg s.work curObjixSpix s.dataSpix
  let lenToRead := min (min ((offset + len) % 2 ^ 32 - s.curOffset)
    (cfg.dataPageSize - s.curOffset % cfg.dataPageSize)) s.fd.size
  if lenToRead = 0 then return .inr { s with res := SpiffsObject.errEndOfObject }
  let (res, device) ← pageDataCheck rd cfg s.fs.device s.fd dataPix.toNat s.dataSpix
  let s := { s with res := res, fs := { s.fs with device := device } }
  if res < spiffsOk then return .inr s
  let ((res, buf), device) ← rd s.fs.device (opTObjDa ||| opCRead)
    (cfg.pageToPaddr dataPix.toNat + PageHeader.size + s.curOffset % cfg.dataPageSize) lenToRead
  let s := { s with res := res, fs := { s.fs with device := device } }
  if res < spiffsOk then return .inr s
  let curOffset := (s.curOffset + lenToRead) % 2 ^ 32
  return .inl { s with
    dst := s.dst ++ buf
    curOffset := curOffset
    fd := { s.fd with offset := curOffset }
    dataSpix := (s.dataSpix + 1) % 2 ^ 16 }

/-- A turn of the loop. -/
def readTurn (offset len : ℕ) (s : ObjectReading τ) :
    Fueled (ObjectReading τ ⊕ Option (ObjectReading τ)) :=
  if s.curOffset < (offset + len) % 2 ^ 32 then do
    let loaded ← loadIndex rd cfg (cfg.objIxEntrySpanIx s.dataSpix) s
    match loaded with
    | none => return .inr none
    | some s =>
      if s.res < spiffsOk then return .inr (some s)
      else
        match readPage rd cfg offset len (cfg.objIxEntrySpanIx s.dataSpix) s with
        | none => return .inr none
        | some (.inl s) => return .inl s
        | some (.inr s) => return .inr (some s)
  else return .inr (some s)

/-- **`spiffs_object_read`**. -/
def objectRead (fs : Fs τ) (work : List UInt8) (fd : ObjectFd) (offset len : ℕ) :
    Fueled (Option (ObjectReading τ)) :=
  Fueled.loop (readTurn rd cfg offset len)
    ⟨spiffsOk, fs, fd, work, 2 ^ 16 - 1, offset, offset / cfg.dataPageSize % 2 ^ 16, []⟩

end SpiffsLookup
