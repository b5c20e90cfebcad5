import Esp31b.Overlay
import Esp31b.SpiffsFile
import Esp31b.SpiffsLookup

/-!
# The write cache of SPIFFS

`SPIFFS_write` does not write, if it can keep what it is given. A page of the pool collects
small writes to an object, as long as they are in what it has or right behind it and stay in the
page; all descriptors of the object share it. A write that does not fit, a read, a seek,
`SPIFFS_fflush` and `SPIFFS_close` give its data to the object first, and release it.

The functions below are those of the source, over the functions that look after an object on the
flash (`SpiffsObjects`), over what is found under a name, and over the choice of a page, which
depends on the rest of the pool (`SpiffsCache.pageAllocateByFd`). A descriptor that points to a
page without data has no result.
-/

/-- **The functions for the objects on the flash**, of a state with what they keep in the
descriptors: the size, the index pages. They are called with the number of a descriptor. -/
structure SpiffsObjects (σ : Type) where
  /-- `spiffs_obj_lu_find_free_obj_id` may find this id. -/
  isFree : σ → ℕ → Bool
  /-- `spiffs_object_create`. -/
  objectCreate : σ → ℕ → ℤ × σ
  /-- `spiffs_object_open_by_page`, of an object. -/
  openByPage : σ → ℕ → ℕ → ℤ × σ
  /-- `fd->size`. -/
  size : σ → ℕ → ℕ
  /-- `spiffs_object_modify`. -/
  objectModify : σ → ℕ → ℕ → List UInt8 → ℤ × σ
  /-- `spiffs_object_append`. -/
  objectAppend : σ → ℕ → ℕ → List UInt8 → ℤ × σ
  /-- `spiffs_object_read`. -/
  objectRead : σ → ℕ → ℕ → ℕ → ℤ × List UInt8 × σ
  /-- The index page of an offset becomes that of the descriptor, unless it is. -/
  findIndex : σ → ℕ → ℕ → ℤ × σ
  /-- `spiffs_object_truncate` to nothing. -/
  objectTruncate : σ → ℕ → ℤ × σ
  /-- `spiffs_object_open_by_page` and `spiffs_object_truncate`, to remove an object. -/
  objectRemove : σ → ℕ → ℕ → ℤ × σ

/-- The flags of an open file. -/
structure SpiffsFlags where
  append : Bool
  rdonly : Bool
  wronly : Bool
  direct : Bool
  deriving DecidableEq

/-- The flags of `SPIFFS_open`. -/
structure OpenFlags extends SpiffsFlags where
  creat : Bool
  trunc : Bool
  excl : Bool
  deriving DecidableEq

/-- **`spiffs_fd`**: that `file_nbr` is not zero, and what the functions below look at. -/
structure SpiffsFile where
  isOpen : Bool
  objId : ℕ
  flags : SpiffsFlags
  fdoffset : ℕ
  cachePage : Option ℕ
  deriving DecidableEq

/-- **A page of the pool with data of an object**, and its memory. -/
structure WrPage where
  objId : ℕ
  offset : ℕ
  size : ℕ
  mem : List UInt8
  deriving DecidableEq

namespace WrPage

/-- The data that the object has not been given yet. -/
def data (p : WrPage) : List UInt8 := p.mem.take p.size

end WrPage

/-- **The open files**: the descriptors, the pages with data, the objects, and whether one of
the functions for them has failed. -/
structure SpiffsFiles (σ : Type) where
  fds : List SpiffsFile
  pages : List (Option WrPage)
  objects : σ
  failed : Bool

namespace SpiffsFiles

variable {σ : Type} (o : SpiffsObjects σ) (pageSize : ℕ)

/-- `spiffs_fd_get`. -/
def fdGet (s : SpiffsFiles σ) (fh : ℕ) : Option SpiffsFile := s.fds[fh]?.filter (·.isOpen)

/-- A descriptor is changed. -/
def modifyFd (s : SpiffsFiles σ) (fh : ℕ) (f : SpiffsFile → SpiffsFile) : SpiffsFiles σ :=
  { s with fds := s.fds.modify fh f }

/-- A function for the objects was called. -/
def called (s : SpiffsFiles σ) (r : ℤ × σ) : SpiffsFiles σ :=
  { s with objects := r.2, failed := s.failed || decide (r.1 < 0) }

/-- `spiffs_cache_page_get_by_fd`. -/
def pageGetByFd (s : SpiffsFiles σ) (objId : ℕ) : Option ℕ :=
  s.pages.findIdx? (Option.any (·.objId == objId))

/-- The page of a descriptor: the one it has, or that of its object. -/
def cachePage (s : SpiffsFiles σ) (fd : SpiffsFile) : Option ℕ :=
  fd.cachePage.or (s.pageGetByFd fd.objId)

/-- `spiffs_cache_fd_release`. -/
def fdRelease (s : SpiffsFiles σ) (ix : ℕ) : SpiffsFiles σ :=
  { s with
    fds := s.fds.map fun fd =>
      if fd.isOpen ∧ fd.cachePage = some ix then { fd with cachePage := none } else fd
    pages := s.pages.set ix none }

/-- What `spiffs_hydro_write` appends of `len` bytes: the rest of them, if there is one. -/
def hydroAppend (objects : σ) (fh len : ℕ) (rest : List UInt8) (offset : ℕ) : ℤ × σ :=
  if 0 < rest.length then
    let r := o.objectAppend objects fh offset rest
    (if r.1 < 0 then r.1 else len, r.2)
  else (len, objects)

/-- **`spiffs_hydro_write`**. -/
def hydroWrite (objects : σ) (fh : ℕ) (buf : List UInt8) (offset : ℕ) : ℤ × σ :=
  let size := o.size objects fh
  if size ≠ SpiffsObject.undefinedLen ∧ offset < size then
    let mLen := min (size - offset) buf.length
    let r := o.objectModify objects fh offset (buf.take mLen)
    if r.1 < 0 then r
    else hydroAppend o r.2 fh buf.length (buf.drop mLen) (offset + mLen)
  else hydroAppend o objects fh buf.length buf offset

/-- The page of a descriptor is written to its object, and released. -/
def dump (s : SpiffsFiles σ) (fh ix : ℕ) : Option (ℤ × SpiffsFiles σ) := do
  let page ← s.pages[ix]?.join
  let r := hydroWrite o s.objects fh page.data page.offset
  return (r.1, (s.called r).fdRelease ix)

/-- `spiffs_fflush_cache`. -/
def fflushCache (s : SpiffsFiles σ) (fh : ℕ) : Option (ℤ × SpiffsFiles σ) :=
  match s.fdGet fh with
  | none => some (-1, s)
  | some fd =>
    if fd.flags.direct then some (0, s)
    else
      match s.cachePage fd with
      | none => some (0, s)
      | some ix => dump o (s.modifyFd fh fun fd => { fd with cachePage := some ix }) fh ix

/-- `fd->fdoffset += len`. -/
def advance (len : ℕ) (fd : SpiffsFile) : SpiffsFile :=
  { fd with fdoffset := (fd.fdoffset + len) % 2 ^ 32 }

/-- What `SPIFFS_write` does with data that it does not keep. -/
def writeThrough (s : SpiffsFiles σ) (fh : ℕ) (buf : List UInt8) (offset : ℕ) :
    ℤ × SpiffsFiles σ :=
  let r := hydroWrite o s.objects fh buf offset
  let s := s.called r
  if r.1 < 0 then (-1, s) else (r.1, s.modifyFd fh (advance buf.length))

/-- What it does with data that goes to a page. -/
def writePage (s : SpiffsFiles σ) (fh ix : ℕ) (buf : List UInt8) (offset : ℕ) :
    Option (ℤ × SpiffsFiles σ) := do
  let page ← s.pages[ix]?.join
  let offsetInCpage := offset - page.offset
  let mem ← Block.write page.mem offsetInCpage buf
  -- `size` is a `u16_t`.
  let size := max page.size (offsetInCpage + buf.length) % 2 ^ 16
  let s := { s with pages := s.pages.set ix (some { page with mem := mem, size := size }) }
  return (buf.length, s.modifyFd fh (advance buf.length))

/-- What it does with a small piece of data that has no page: `alloc` is the page that
`spiffs_cache_page_allocate_by_fd` finds, if it does, with what is in its memory. -/
def writeNew (s : SpiffsFiles σ) (fh : ℕ) (fd : SpiffsFile) (buf : List UInt8) (offset : ℕ)
    (alloc : Option (ℕ × List UInt8)) : Option (ℤ × SpiffsFiles σ) :=
  match alloc with
  | none => some (writeThrough o s fh buf offset)
  | some (ix, mem) =>
    let page : WrPage := { objId := fd.objId, offset := offset, size := 0, mem := mem }
    writePage ({ s with pages := s.pages.set ix (some page) }.modifyFd fh fun fd =>
      { fd with cachePage := some ix }) fh ix buf offset

/-- The length of an object. -/
def length (s : SpiffsFiles σ) (fh : ℕ) : ℕ :=
  let size := o.size s.objects fh
  if size = SpiffsObject.undefinedLen then 0 else size

/-- Where `SPIFFS_write` writes to: the position, or behind the data of the object and of its
page. -/
def writeOffset (s : SpiffsFiles σ) (fh : ℕ) (fd : SpiffsFile) (page : Option WrPage) : ℕ :=
  if fd.flags.append then
    page.elim (length o s fh) fun p => max (length o s fh) (p.offset + p.size)
  else fd.fdoffset

/-- **`SPIFFS_write`**. -/
def write (s : SpiffsFiles σ) (fh : ℕ) (buf : List UInt8) (alloc : Option (ℕ × List UInt8)) :
    Option (ℤ × SpiffsFiles σ) :=
  match s.fdGet fh with
  | none => some (-1, s)
  | some fd =>
    if fd.flags.wronly = false then some (-1, s)
    else
      match s.cachePage fd with
      | none =>
        let offset := writeOffset o s fh fd none
        if fd.flags.direct = false ∧ buf.length < pageSize then
          writeNew o s fh fd buf offset alloc
        else some (writeThrough o s fh buf offset)
      | some ix => do
        let page ← s.pages[ix]?.join
        let offset := writeOffset o s fh fd page
        let s := s.modifyFd fh fun fd => { fd with cachePage := some ix }
        if fd.flags.direct then return writeThrough o s fh buf offset
        else if buf.length < pageSize then
          if offset < page.offset ∨ page.offset + page.size < offset ∨
              page.offset + pageSize < offset + buf.length then
            let (res, s) ← dump o s fh ix
            if res < 0 then return (-1, s) else writeNew o s fh fd buf offset alloc
          else writePage s fh ix buf offset
        else
          let (res, s) ← dump o s fh ix
          if res < 0 then return (-1, s)
          else
            -- The data is written here, and once more below.
            let r := hydroWrite o s.objects fh buf offset
            let s := s.called r
            if r.1 < 0 then return (-1, s) else return writeThrough o s fh buf offset

/-- What `SPIFFS_read` does after the flush. -/
def readObject (s : SpiffsFiles σ) (fh : ℕ) (fd : SpiffsFile) (len : ℕ) :
    (ℤ × List UInt8) × SpiffsFiles σ :=
  let size := o.size s.objects fh
  let atEnd := size ≤ (fd.fdoffset + len) % 2 ^ 32
  if atEnd ∧ size ≤ fd.fdoffset then ((-1, []), s)
  else
    let len := if atEnd then size - fd.fdoffset else len
    let r := o.objectRead s.objects fh fd.fdoffset len
    if 0 ≤ r.1 ∨ atEnd ∧ r.1 = SpiffsObject.errEndOfObject then
      ((len, r.2.1), { s with objects := r.2.2 }.modifyFd fh (advance len))
    else ((-1, []), s.called (r.1, r.2.2))

/-- **`SPIFFS_read`**. -/
def read (s : SpiffsFiles σ) (fh len : ℕ) : Option ((ℤ × List UInt8) × SpiffsFiles σ) :=
  match s.fdGet fh with
  | none => some ((-1, []), s)
  | some fd =>
    if fd.flags.rdonly = false then some ((-1, []), s)
    else if o.size s.objects fh = SpiffsObject.undefinedLen ∧ 0 < len then some ((-1, []), s)
    else (fflushCache o s fh).map fun r => readObject o r.2 fh fd len

/-- The offset that is meant. -/
def whenceOffset (s : SpiffsFiles σ) (fh : ℕ) (fd : SpiffsFile) (offs : ℤ) : SeekMode → ℤ
  | .seekSet => offs
  | .seekCur => int32 (fd.fdoffset + offs)
  | .seekEnd => int32 (length o s fh + offs)

/-- What `SPIFFS_lseek` does after the flush. -/
def seekObject (s : SpiffsFiles σ) (fh : ℕ) (fd : SpiffsFile) (offs : ℤ) (whence : SeekMode) :
    ℤ × SpiffsFiles σ :=
  let offs := whenceOffset o s fh fd offs whence
  if int32 (o.size s.objects fh) < offs then (-1, s)
  else
    let fdoffset := (offs % 2 ^ 32).toNat
    let r := o.findIndex s.objects fh fdoffset
    let s := s.called r
    if r.1 < 0 then (-1, s)
      else (offs, s.modifyFd fh fun fd => { fd with fdoffset := fdoffset })

/-- **`SPIFFS_lseek`**. -/
def lseek (s : SpiffsFiles σ) (fh : ℕ) (offs : ℤ) (whence : SeekMode) :
    Option (ℤ × SpiffsFiles σ) :=
  match s.fdGet fh with
  | none => some (-1, s)
  | some fd => (fflushCache o s fh).map fun r => seekObject o r.2 fh fd offs whence

/-- **`SPIFFS_fflush`**: it returns how much was written. -/
def fflush (s : SpiffsFiles σ) (fh : ℕ) : Option (ℤ × SpiffsFiles σ) := do
  let (res, s) ← fflushCache o s fh
  return (if res < 0 then -1 else res, s)

/-- **`SPIFFS_close`**. -/
def close (s : SpiffsFiles σ) (fh : ℕ) : Option (ℤ × SpiffsFiles σ) := do
  let (res, s) ← fflushCache o s fh
  if res < 0 then return (-1, s)
  else return (0, s.modifyFd fh fun fd => { fd with isOpen := false })

/-- What `SPIFFS_open` does with a descriptor when there is an object for it. -/
def openObject (s : SpiffsFiles σ) (fh objId : ℕ) (flags : SpiffsFlags) (trunc : Bool) :
    ℤ × SpiffsFiles σ :=
  let r := o.openByPage s.objects fh objId
  let s := s.called r
  if r.1 < 0 then (-1, s)
  else
    let r := if trunc then o.objectTruncate s.objects fh else (0, s.objects)
    let s := s.called r
    if r.1 < 0 then (-1, s)
    else (fh + 1, s.modifyFd fh fun fd =>
      { fd with isOpen := true, objId := objId, flags := flags, fdoffset := 0 })

/-- **`SPIFFS_open`**: `found` is the object under the name, or the error of the lookup, and
`newId` what `spiffs_obj_lu_find_free_obj_id` finds, if it does. -/
def openFile (s : SpiffsFiles σ) (found : Except ℤ ℕ) (newId : Option ℕ) (flags : OpenFlags) :
    ℤ × SpiffsFiles σ :=
  match s.fds.findIdx? (!·.isOpen) with
  | none => (-1, s)
  | some fh =>
    match found with
    | .ok objId =>
      if flags.creat ∧ flags.excl then (-1, s)
      else openObject o s fh objId flags.toSpiffsFlags flags.trunc
    | .error err =>
      if flags.creat ∧ err = SpiffsLookup.errNotFound then
        match newId with
        | none => (-1, s)
        | some objId =>
          let r := o.objectCreate s.objects objId
          let s := s.called r
          -- A new object is not truncated.
          if r.1 < 0 then (-1, s) else openObject o s fh objId flags.toSpiffsFlags false
      else (-1, s)

/-- The descriptors of an object that is removed are not open any more. -/
def objectRemoved (objId : ℕ) (fd : SpiffsFile) : SpiffsFile :=
  if fd.isOpen ∧ fd.objId = objId then { fd with isOpen := false, objId := 0 } else fd

/-- **`SPIFFS_remove`**, of the object that was found under the name. -/
def remove (s : SpiffsFiles σ) (found : Except ℤ ℕ) : ℤ × SpiffsFiles σ :=
  match s.fds.findIdx? (!·.isOpen), found with
  | some fh, .ok objId =>
    let r := o.objectRemove s.objects fh objId
    let s := s.called r
    if r.1 < 0 then (-1, s)
    else (0, { s with fds := s.fds.map (objectRemoved objId) })
  | _, _ => (-1, s)

end SpiffsFiles
