import Esp31b.CString
import Esp31b.Transducer

/-!
# Reading a file

A file that is opened for reading should be its contents and a position
(`FileReader.spec`). What there is, is a `File` that passes every call on to a
`SPIFFSFileImpl`, which passes it on to a descriptor of SPIFFS. A position goes
through an `int32_t` on the way, and a failure is a negative result.

The pages of the file on the flash are not modelled. `SpiffsObject` has what is
known of them: how an index page is found and what a read of the object returns.

`seek` computes the negative offset that a `SeekEnd` needs, and passes on the
positive one. Besides, an empty file has a size of -1 in its descriptor, so that
every offset is behind its end; an offset that does not fit an `int32_t` comes to lie
in front of the start, which nobody refuses; an offset at the end of the file may need
an index page that the file does not have; and a read of so many bytes that the position
overflows goes back. `FileReader.calls_refine` says that in all other calls the file is
what it should be.
-/

/-- The modes of `seek`, with the numbers of SPIFFS. -/
inductive SeekMode
  | seekSet
  | seekCur
  | seekEnd
  deriving DecidableEq

/-- **A descriptor**: what the two functions look at. -/
structure SpiffsFd where
  size : ℕ
  cursorObjixPix : ℕ
  cursorObjixSpix : ℕ
  fdoffset : ℕ
  rdonly : Bool

/-- **The object on the flash**: the size of a data page, the numbers of entries of
the index header and of an index page, and the functions that go to the pages. -/
structure SpiffsObject where
  dataPageSize : ℕ
  objHdrIxLen : ℕ
  objIxLen : ℕ
  /-- `spiffs_obj_lu_find_id_and_span`, for its index pages. -/
  findIndex : ℕ → ℤ × ℕ
  /-- `spiffs_object_read`: the result, the bytes and the descriptor. -/
  objectRead : SpiffsFd → ℕ → ℕ → ℤ × List UInt8 × SpiffsFd
  /-- `SPIFFS_fstat`. -/
  fstat : ℤ × ℕ

namespace SpiffsObject

/-- `SPIFFS_UNDEFINED_LEN`. -/
def undefinedLen : ℕ := 2 ^ 32 - 1

/-- `SPIFFS_ERR_END_OF_OBJECT`. -/
def errEndOfObject : ℤ := -10003

variable (o : SpiffsObject)

/-- The index page of an offset: `SPIFFS_OBJ_IX_ENTRY_SPAN_IX`. -/
def objixSpix (offs : ℕ) : ℕ :=
  let dataSpix := offs / o.dataPageSize % 2 ^ 16
  (if dataSpix < o.objHdrIxLen then 0 else 1 + (dataSpix - o.objHdrIxLen) / o.objIxLen) % 2 ^ 16

/-- The offset that is meant. -/
def whenceOffset (fd : SpiffsFd) (offs : ℤ) : SeekMode → ℤ
  | .seekSet => offs
  | .seekCur => int32 (fd.fdoffset + offs)
  | .seekEnd => int32 ((if fd.size = undefinedLen then 0 else fd.size : ℕ) + offs)

/-- `SPIFFS_lseek`. -/
def lseek (fd : SpiffsFd) (offs : ℤ) (whence : SeekMode) : ℤ × SpiffsFd :=
  let offs := whenceOffset fd offs whence
  if int32 fd.size < offs then (-1, fd)
  else
    let fdoffset := (offs % 2 ^ 32).toNat
    let objixSpix := o.objixSpix fdoffset
    if fd.cursorObjixSpix ≠ objixSpix then
      let (res, pix) := o.findIndex objixSpix
      if res < 0 then (-1, fd)
      else
        (offs, { fd with
          cursorObjixSpix := objixSpix, cursorObjixPix := pix, fdoffset := fdoffset })
    else (offs, { fd with fdoffset := fdoffset })

/-- What `SPIFFS_read` makes of a read of so many bytes, at the end of the file or
inside of it. -/
def afterRead (len : ℤ) (atEnd : Bool) : ℤ × List UInt8 × SpiffsFd → ℤ × List UInt8 × SpiffsFd
  | (res, buf, fd) =>
    let next := { fd with fdoffset := ((fd.fdoffset + len) % 2 ^ 32).toNat }
    if atEnd ∧ res = errEndOfObject then (len, buf, next)
    else if res < 0 then (-1, buf, fd)
    else (len, buf, next)

/-- `SPIFFS_read`. -/
def read (fd : SpiffsFd) (len : ℤ) : ℤ × List UInt8 × SpiffsFd :=
  if fd.rdonly = false then (-1, [], fd)
  else if fd.size = undefinedLen ∧ 0 < len then (-1, [], fd)
  else if (fd.size : ℤ) ≤ (fd.fdoffset + len) % 2 ^ 32 then
    let avail := int32 (fd.size - fd.fdoffset)
    if avail ≤ 0 then (-1, [], fd)
    else afterRead avail true (o.objectRead fd fd.fdoffset avail.toNat)
  else afterRead len false (o.objectRead fd fd.fdoffset (len % 2 ^ 32).toNat)

end SpiffsObject

/-- **`SPIFFSFileImpl`**: the descriptor, `_stat.size` and `_written`. -/
structure SpiffsFileImpl where
  fd : SpiffsFd
  statSize : ℕ
  written : Bool

namespace SpiffsFileImpl

variable (o : SpiffsObject)

/-- `_getStat`. -/
def getStat (f : SpiffsFileImpl) : SpiffsFileImpl :=
  { f with statSize := if o.fstat.1 ≠ 0 then 0 else o.fstat.2, written := false }

/-- `read`. -/
def read (f : SpiffsFileImpl) (size : UInt32) : ℕ × List UInt8 × SpiffsFileImpl :=
  let (result, buf, fd) := o.read f.fd (int32 size.toNat)
  (if result < 0 then 0 else result.toNat, buf, { f with fd := fd })

/-- `seek`. The offset is computed, and `pos` is passed on. -/
def seek (f : SpiffsFileImpl) (pos : UInt32) (mode : SeekMode) : Bool × SpiffsFileImpl :=
  let offset := int32 pos.toNat
  let _offset := if mode = .seekEnd then -offset else offset
  let (rc, fd) := o.lseek f.fd (int32 pos.toNat) mode
  (if rc < 0 then false else true, { f with fd := fd })

/-- `position`. -/
def position (f : SpiffsFileImpl) : ℕ × SpiffsFileImpl :=
  (o.lseek f.fd 0 .seekCur).map (fun result => if result < 0 then 0 else result.toNat)
    fun fd => { f with fd := fd }

/-- `size`. -/
def size (f : SpiffsFileImpl) : ℕ × SpiffsFileImpl :=
  let f := if f.written then f.getStat o else f
  (f.statSize, f)

end SpiffsFileImpl

/-! ## `File` -/

/-- **The calls.** -/
inductive FileCall
  | read
  | readBuf (n : UInt32)
  | peek
  | available
  | position
  | size
  | seek (pos : UInt32) (mode : SeekMode)

/-- What they return; a read of more bytes the bytes too. -/
inductive FileAnswer
  | int (v : ℤ)
  | size (n : ℕ)
  | bytes (n : ℕ) (buf : List UInt8)
  | bool (b : Bool)
  deriving DecidableEq

namespace FileReader

variable (o : SpiffsObject)

/-- `File::read()`. -/
def read (f : SpiffsFileImpl) : ℤ × SpiffsFileImpl :=
  let (n, buf, f) := f.read o 1
  (if n ≠ 1 then -1 else (buf.headD 0).toNat, f)

/-- `File::available`. -/
def available (f : SpiffsFileImpl) : ℤ × SpiffsFileImpl :=
  let size := f.size o
  let position := size.2.position o
  (int32 (size.1 - position.1), position.2)

/-- `File::peek`. -/
def peek (f : SpiffsFileImpl) : ℤ × SpiffsFileImpl :=
  let curPos := f.position o
  let result := read o curPos.2
  (result.1, (result.2.seek o (UInt32.ofNat curPos.1) .seekSet).2)

/-- **A `File`**, call by call. -/
def file : Transducer SpiffsFileImpl FileCall FileAnswer where
  step f
    | .read => some ((read o f).map .int id)
    | .readBuf n =>
      let (count, buf, f) := f.read o n
      some (.bytes count buf, f)
    | .peek => some ((peek o f).map .int id)
    | .available => some ((available o f).map .int id)
    | .position => some ((f.position o).map .size id)
    | .size => some ((f.size o).map .size id)
    | .seek pos mode => some ((f.seek o pos mode).map .bool id)

/-! ## What it should be -/

/-- Where a `seek` should go. -/
def target (content : List UInt8) (position : ℕ) (pos : UInt32) : SeekMode → ℤ
  | .seekSet => pos.toNat
  | .seekCur => position + pos.toNat
  | .seekEnd => content.length - pos.toNat

/-- The next byte, or -1. -/
def next (content : List UInt8) (position : ℕ) : ℤ :=
  (content[position]?).elim (-1) fun c => c.toNat

/-- **Contents and a position.** -/
def spec (content : List UInt8) : Transducer ℕ FileCall FileAnswer where
  step position
    | .read => some (.int (next content position), min (position + 1) content.length)
    | .readBuf n =>
      let buf := (content.drop position).take n.toNat
      some (.bytes buf.length buf, position + buf.length)
    | .peek => some (.int (next content position), position)
    | .available => some (.int (content.length - position), position)
    | .position => some (.size position, position)
    | .size => some (.size content.length, position)
    | .seek pos mode =>
      let t := target content position pos mode
      if 0 ≤ t ∧ t ≤ content.length then some (.bool true, t.toNat)
      else some (.bool false, position)

/-- The size in a descriptor. -/
def sizeField (content : List UInt8) : ℕ :=
  if content = [] then SpiffsObject.undefinedLen else content.length

/-- **The object has these contents**: the index page of every byte is found, and a read
inside of them returns them and moves the cursor at most. An empty object has no page to
read. -/
structure Holds (o : SpiffsObject) (content : List UInt8) : Prop where
  fstat : o.fstat = (0, content.length)
  findIndex : ∀ offset < content.length, 0 ≤ (o.findIndex (o.objixSpix offset)).1
  objectRead : ∀ (fd : SpiffsFd) (offset len : ℕ), fd.size = sizeField content →
    offset + len ≤ content.length →
    ∃ pix spix, o.objectRead fd offset len = (0, (content.drop offset).take len,
      { fd with cursorObjixPix := pix, cursorObjixSpix := spix })
  nothing : content = [] → ∀ (fd : SpiffsFd) (offset len : ℕ), 0 < len →
    ∃ res pix spix, res < 0 ∧ o.objectRead fd offset len = (res, [],
      { fd with cursorObjixPix := pix, cursorObjixSpix := spix })

/-- **A file at a position.** -/
structure At (content : List UInt8) (f : SpiffsFileImpl) (position : ℕ) : Prop where
  size : f.fd.size = sizeField content
  fdoffset : f.fd.fdoffset = position
  le : position ≤ content.length
  rdonly : f.fd.rdonly = true
  statSize : f.statSize = content.length
  written : f.written = false

/-- The index page of an offset is at hand, or is found. -/
def Indexed (o : SpiffsObject) (fd : SpiffsFd) (offset : ℕ) : Prop :=
  fd.cursorObjixSpix = o.objixSpix offset ∨ 0 ≤ (o.findIndex (o.objixSpix offset)).1

/-- The offset that is passed on, and the one it is added to. -/
def requested (content : List UInt8) (position : ℕ) (pos : UInt32) : SeekMode → ℕ
  | .seekSet => pos.toNat
  | .seekCur => position + pos.toNat
  | .seekEnd => content.length + pos.toNat

/-- An offset is behind the end. An empty file ends at -1. -/
def Behind (content : List UInt8) (offset : ℤ) : Prop :=
  (if content = [] then -1 else (content.length : ℤ)) < offset

/-- **A seek that is as it should be.** If the `target` is in the file, it is not counted back
from the end, and its index page is there; if not, the offset that is passed on is behind
the end, or has no index page. -/
def Seeks (o : SpiffsObject) (content : List UInt8) (fd : SpiffsFd) (target : ℤ) (offset : ℕ)
    (pos : UInt32) (mode : SeekMode) : Prop :=
  if 0 ≤ target ∧ target ≤ content.length then
    content ≠ [] ∧ Indexed o fd target.toNat ∧ (mode = .seekEnd → pos = 0)
  else Behind content (int32 offset) ∨ ¬ Indexed o fd (offset % 2 ^ 32)

/-- **The calls that are as they should be.** -/
def Admitted (o : SpiffsObject) (content : List UInt8) (f : SpiffsFileImpl) : FileCall → Prop
  | .read => True
  | .readBuf n => f.fd.fdoffset + n.toNat < 2 ^ 32
  | .peek => content ≠ [] → Indexed o f.fd f.fd.fdoffset
  | .available => content ≠ [] → Indexed o f.fd f.fd.fdoffset
  | .position => content ≠ [] → Indexed o f.fd f.fd.fdoffset
  | .size => True
  | .seek pos mode =>
    Seeks o content f.fd (target content f.fd.fdoffset pos mode)
      (requested content f.fd.fdoffset pos mode) pos mode

instance decidableIndexed (o : SpiffsObject) (fd : SpiffsFd) (offset : ℕ) :
    Decidable (Indexed o fd offset) :=
  inferInstanceAs (Decidable (_ ∨ _))

instance decidableBehind (content : List UInt8) (offset : ℤ) :
    Decidable (Behind content offset) :=
  inferInstanceAs (Decidable (_ < _))

instance decidableSeeks (o : SpiffsObject) (content : List UInt8) (fd : SpiffsFd) (target : ℤ)
    (offset : ℕ) (pos : UInt32) (mode : SeekMode) :
    Decidable (Seeks o content fd target offset pos mode) := by
  unfold Seeks
  infer_instance

instance decidableAdmitted (o : SpiffsObject) (content : List UInt8) (f : SpiffsFileImpl) :
    (call : FileCall) → Decidable (Admitted o content f call)
  | .read => inferInstanceAs (Decidable True)
  | .readBuf _ => inferInstanceAs (Decidable (_ < _))
  | .peek => inferInstanceAs (Decidable (_ → _))
  | .available => inferInstanceAs (Decidable (_ → _))
  | .position => inferInstanceAs (Decidable (_ → _))
  | .size => inferInstanceAs (Decidable True)
  | .seek pos mode => decidableSeeks o content f.fd (target content f.fd.fdoffset pos mode)
      (requested content f.fd.fdoffset pos mode) pos mode

/-! ## Descriptors -/

variable {o : SpiffsObject} {content : List UInt8} {f : SpiffsFileImpl} {p : ℕ}

theorem sizeField_of_ne (h : content ≠ []) : sizeField content = content.length := if_neg h

theorem sizeField_nil : sizeField [] = SpiffsObject.undefinedLen := rfl

theorem int32_add_int32 (a b : ℤ) : int32 (a + int32 b) = int32 (a + b) := by
  unfold int32
  omega

theorem int32_emod (v : ℕ) : (int32 v % 2 ^ 32).toNat = v % 2 ^ 32 := by
  unfold int32
  omega

/-- An empty file is at its start. -/
theorem At.eq_zero (h : At content f p) (hnil : content = []) : p = 0 := by
  have hle := h.le
  rw [hnil] at hle
  exact Nat.le_zero.mp hle

/-- The size, where a seek looks at it. -/
theorem At.behind_iff (h : At content f p) (hlen : content.length < 2 ^ 31) (offset : ℤ) :
    int32 f.fd.size < offset ↔ Behind content offset := by
  rw [Behind, h.size]
  by_cases hne : content = []
  · rw [if_pos hne, hne, sizeField_nil]
    rfl
  · rw [if_neg hne, sizeField_of_ne hne, int32_of_lt (Int.natCast_nonneg _) (by omega)]

/-- **The descriptor moves**, and the cursor may. -/
theorem At.move (h : At content f p) {pix spix new : ℕ} (hnew : new ≤ content.length) :
    At content { f with fd := { f.fd with
      cursorObjixPix := pix, cursorObjixSpix := spix, fdoffset := new } } new :=
  ⟨h.size, rfl, hnew, h.rdonly, h.statSize, h.written⟩

/-! ## Seeking -/

/-- **A seek to an offset in the file**, whose index page is there. -/
theorem At.lseek (h : At content f p) (hlen : content.length < 2 ^ 31)
    (hne : content ≠ []) {offs : ℤ} {whence : SeekMode} {new : ℕ}
    (hoffs : SpiffsObject.whenceOffset f.fd offs whence = new) (hnew : new ≤ content.length)
    (hindexed : Indexed o f.fd new) :
    ∃ fd, o.lseek f.fd offs whence = ((new : ℤ), fd) ∧ At content { f with fd := fd } new ∧
      fd.cursorObjixSpix = o.objixSpix new := by
  have hinside : ¬ int32 f.fd.size < new := by
    rw [h.behind_iff hlen, Behind, if_neg hne]
    omega
  have hoffset : ((new : ℤ) % 2 ^ 32).toNat = new := by omega
  unfold SpiffsObject.lseek
  dsimp only
  rw [hoffs, if_neg hinside, hoffset]
  by_cases hcursor : f.fd.cursorObjixSpix = o.objixSpix new
  · rw [if_neg (not_not.mpr hcursor)]
    exact ⟨_, rfl, h.move hnew, hcursor⟩
  · rw [if_pos hcursor, if_neg (Int.not_lt.mpr (hindexed.resolve_left hcursor))]
    exact ⟨_, rfl, h.move hnew, rfl⟩

/-- **A seek that is refused**, behind the end or for want of an index page. -/
theorem lseek_refused {fd : SpiffsFd} {offs : ℤ} {whence : SeekMode} {w : ℤ}
    (hoffs : SpiffsObject.whenceOffset fd offs whence = w)
    (hrefused : int32 fd.size < w ∨ ¬ Indexed o fd (w % 2 ^ 32).toNat) :
    o.lseek fd offs whence = (-1, fd) := by
  unfold SpiffsObject.lseek
  dsimp only
  rw [hoffs]
  by_cases hbehind : int32 fd.size < w
  · rw [if_pos hbehind]
  · obtain ⟨hcursor, hfind⟩ := not_or.mp (hrefused.resolve_left hbehind)
    rw [if_neg hbehind, if_pos hcursor, if_pos (Int.not_le.mp hfind)]

/-- The offset that is meant. -/
theorem At.whenceOffset (h : At content f p) (hlen : content.length < 2 ^ 31) (pos : UInt32)
    (mode : SeekMode) :
    SpiffsObject.whenceOffset f.fd (int32 pos.toNat) mode =
      int32 (requested content p pos mode) := by
  cases mode with
  | seekSet => rfl
  | seekCur =>
    show int32 ((f.fd.fdoffset : ℤ) + int32 pos.toNat) = int32 ((p + pos.toNat : ℕ) : ℤ)
    rw [h.fdoffset, int32_add_int32]
    rfl
  | seekEnd =>
    have hfield : (if f.fd.size = SpiffsObject.undefinedLen then 0 else f.fd.size) =
        content.length := by
      rw [h.size]
      by_cases hne : content = []
      · rw [hne]
        rfl
      · have hdefined : content.length ≠ SpiffsObject.undefinedLen := by
          unfold SpiffsObject.undefinedLen
          omega
        rw [sizeField_of_ne hne, if_neg hdefined]
    show int32 (((if f.fd.size = SpiffsObject.undefinedLen then 0 else f.fd.size : ℕ) : ℤ) +
      int32 pos.toNat) = int32 ((content.length + pos.toNat : ℕ) : ℤ)
    rw [hfield, int32_add_int32]
    rfl

/-- **The position is told**, and its index page is at hand after that. -/
theorem At.position (h : At content f p) (hlen : content.length < 2 ^ 31)
    (hindexed : content ≠ [] → Indexed o f.fd p) :
    ∃ f', f.position o = (p, f') ∧ At content f' p ∧
      (content ≠ [] → f'.fd.cursorObjixSpix = o.objixSpix p) := by
  have hle := h.le
  have hoffs : SpiffsObject.whenceOffset f.fd 0 .seekCur = p := by
    rw [SpiffsObject.whenceOffset, h.fdoffset, Int.add_zero]
    exact int32_of_lt (by omega) (by omega)
  by_cases hne : content = []
  · have hbehind : int32 f.fd.size < p := by
      rw [h.behind_iff hlen, Behind, if_pos hne]
      omega
    refine ⟨f, ?_, h, fun hcontent => absurd hne hcontent⟩
    rw [SpiffsFileImpl.position, lseek_refused hoffs (Or.inl hbehind), h.eq_zero hne]
    rfl
  · obtain ⟨fd, hseek, hat, hcursor⟩ := h.lseek hlen hne hoffs hle (hindexed hne)
    refine ⟨_, ?_, hat, fun _ => hcursor⟩
    rw [SpiffsFileImpl.position, hseek, Prod.map_apply,
      if_neg (Int.not_lt.mpr (Int.natCast_nonneg p)), Int.toNat_natCast]

/-- **A seek is answered.** -/
theorem At.seek (h : At content f p) (hlen : content.length < 2 ^ 31) {pos : UInt32}
    {mode : SeekMode} (hadmitted : Admitted o content f (.seek pos mode)) :
    ∃ b f' q, f.seek o pos mode = (b, f') ∧
      (spec content).step p (.seek pos mode) = some (.bool b, q) ∧ At content f' q := by
  have hwhence := h.whenceOffset hlen pos mode
  simp only [Admitted, Seeks, h.fdoffset] at hadmitted
  simp only [spec, SpiffsFileImpl.seek]
  by_cases hin : 0 ≤ target content p pos mode ∧ target content p pos mode ≤ content.length
  · rw [if_pos hin] at hadmitted ⊢
    obtain ⟨hne, hindexed, hend⟩ := hadmitted
    have hrequested : (requested content p pos mode : ℤ) = target content p pos mode := by
      cases mode with
      | seekSet => rfl
      | seekCur => rfl
      | seekEnd =>
        rw [hend rfl]
        rfl
    have hoffs : SpiffsObject.whenceOffset f.fd (int32 pos.toNat) mode =
        ((target content p pos mode).toNat : ℤ) := by
      rw [hwhence, hrequested, Int.toNat_of_nonneg hin.1]
      exact int32_of_lt (by omega) (by omega)
    obtain ⟨fd, hseek, hat, -⟩ := h.lseek hlen hne hoffs (by omega) hindexed
    rw [hseek]
    exact ⟨true, _, _, by rw [if_neg (by omega)], rfl, hat⟩
  · rw [if_neg hin] at hadmitted ⊢
    rw [← h.behind_iff hlen, ← int32_emod] at hadmitted
    rw [lseek_refused hwhence hadmitted]
    exact ⟨false, f, p, rfl, rfl, h⟩

/-! ## Reading -/

/-- A read of the object that succeeds. -/
theorem afterRead_ok (len : ℤ) (atEnd : Bool) (buf : List UInt8) (fd : SpiffsFd) :
    SpiffsObject.afterRead len atEnd (0, buf, fd) =
      (len, buf, { fd with fdoffset := ((fd.fdoffset + len) % 2 ^ 32).toNat }) := by
  rw [SpiffsObject.afterRead, if_neg (fun h => absurd h.2 (by decide)), if_neg (by decide)]

/-- **A read inside of the contents.** -/
theorem At.objectRead (h : At content f p) (ho : Holds o content)
    (hlen : content.length < 2 ^ 31) (atEnd : Bool) {len : ℕ}
    (hfits : p + len ≤ content.length) :
    ∃ fd, SpiffsObject.afterRead len atEnd (o.objectRead f.fd f.fd.fdoffset len) =
        ((len : ℤ), (content.drop p).take len, fd) ∧
      At content { f with fd := fd } (p + len) := by
  obtain ⟨pix, spix, hread⟩ := ho.objectRead f.fd f.fd.fdoffset len h.size
    (by rw [h.fdoffset]; exact hfits)
  rw [hread, afterRead_ok, h.fdoffset]
  refine ⟨_, rfl, h.size, ?_, hfits, h.rdonly, h.statSize, h.written⟩
  show (((p : ℤ) + len) % 2 ^ 32).toNat = p + len
  omega

/-- The object is read in vain. -/
theorem afterRead_of_neg {res : ℤ} (hres : res < 0) (len : ℤ) (buf : List UInt8)
    (fd : SpiffsFd) : SpiffsObject.afterRead len false (res, buf, fd) = (-1, buf, fd) := by
  rw [SpiffsObject.afterRead, if_neg (fun h => absurd h.1 (by decide)), if_pos hres]

/-- **An empty file** has nothing to read: its size is undefined. -/
theorem At.spiffsRead_nil (h : At [] f p) (ho : Holds o []) (n : UInt32) :
    ∃ res fd, o.read f.fd (int32 n.toNat) = (res, [], fd) ∧ res ≤ 0 ∧
      At [] { f with fd := fd } 0 := by
  have hzero := h.eq_zero rfl
  subst hzero
  have hundef : f.fd.size = SpiffsObject.undefinedLen := h.size
  unfold SpiffsObject.read
  rw [h.rdonly, if_neg (by simp)]
  by_cases hpos : 0 < int32 n.toNat
  · rw [if_pos ⟨hundef, hpos⟩]
    exact ⟨-1, _, rfl, by decide, h⟩
  · rw [if_neg (fun hlt => hpos hlt.2)]
    by_cases hbeyond : (f.fd.size : ℤ) ≤ ((f.fd.fdoffset : ℤ) + int32 n.toNat) % 2 ^ 32
    · have havail : int32 ((f.fd.size : ℤ) - f.fd.fdoffset) ≤ 0 := by
        rw [hundef, h.fdoffset]
        decide
      rw [if_pos hbeyond, if_pos havail]
      exact ⟨-1, _, rfl, by decide, h⟩
    · rw [if_neg hbeyond, int32_emod, Nat.mod_eq_of_lt n.toNat_lt]
      by_cases hn : n.toNat = 0
      · obtain ⟨fd, hread, hat⟩ :=
          h.objectRead ho (by decide) false (by decide : 0 + 0 ≤ ([] : List UInt8).length)
        rw [hn]
        exact ⟨_, fd, hread, by decide, hat⟩
      · obtain ⟨res, pix, spix, hres, hread⟩ :=
          ho.nothing rfl f.fd f.fd.fdoffset n.toNat (Nat.pos_of_ne_zero hn)
        rw [hread, afterRead_of_neg hres]
        exact ⟨-1, _, rfl, by decide, h.size, h.fdoffset, h.le, h.rdonly, h.statSize, h.written⟩

/-- **Bytes are read**, as many as there are. At the end the descriptor stays. -/
theorem At.spiffsRead (h : At content f p) (ho : Holds o content)
    (hlen : content.length < 2 ^ 31)
    (hne : content ≠ []) {n : UInt32} (hn : p + n.toNat < 2 ^ 32) :
    ∃ res fd, o.read f.fd (int32 n.toNat) = (res, (content.drop p).take n.toNat, fd) ∧
      (if res < 0 then 0 else res.toNat) = ((content.drop p).take n.toNat).length ∧
      At content { f with fd := fd } (p + ((content.drop p).take n.toNat).length) ∧
      (p = content.length → fd = f.fd) := by
  have hle := h.le
  have hsize : f.fd.size = content.length := h.size.trans (sizeField_of_ne hne)
  have hdefined : f.fd.size ≠ SpiffsObject.undefinedLen := by
    rw [hsize]
    unfold SpiffsObject.undefinedLen
    omega
  have hsum : ((f.fd.fdoffset : ℤ) + int32 n.toNat) % 2 ^ 32 = (p + n.toNat : ℕ) := by
    rw [h.fdoffset]
    unfold int32
    omega
  unfold SpiffsObject.read
  rw [h.rdonly, if_neg (by simp), if_neg (fun hundef => hdefined hundef.1), hsum, hsize]
  by_cases hbeyond : (content.length : ℤ) ≤ ((p + n.toNat : ℕ) : ℤ)
  · -- All that is left, if anything is.
    have htake : (content.drop p).take n.toNat = content.drop p :=
      List.take_of_length_le (by rw [List.length_drop]; omega)
    have havail : int32 ((content.length : ℤ) - f.fd.fdoffset) = (content.length - p : ℕ) := by
      rw [h.fdoffset, int32_of_lt (by omega) (by omega)]
      omega
    rw [if_pos hbeyond, htake, havail]
    by_cases hend : content.length - p = 0
    · have hnil : content.drop p = [] := List.drop_eq_nil_of_le (by omega)
      rw [hend, hnil]
      exact ⟨-1, _, rfl, rfl, h, fun _ => rfl⟩
    · obtain ⟨fd, hread, hat⟩ := h.objectRead ho hlen true
        (by omega : p + (content.length - p) ≤ content.length)
      have hall : (content.drop p).take (content.length - p) = content.drop p :=
        List.take_of_length_le (by rw [List.length_drop])
      rw [hall] at hread
      rw [List.length_drop]
      refine ⟨_, fd, (if_neg (by omega)).trans hread, ?_, hat, fun hlast => by omega⟩
      rw [if_neg (by omega), Int.toNat_natCast]
  · obtain ⟨fd, hread, hat⟩ := h.objectRead ho hlen false
      (by omega : p + n.toNat ≤ content.length)
    have hint : int32 n.toNat = n.toNat := int32_of_lt (by omega) (by omega)
    have hmod : ((n.toNat : ℤ) % 2 ^ 32).toNat = n.toNat := by omega
    have htaken : ((content.drop p).take n.toNat).length = n.toNat := by
      rw [List.length_take, List.length_drop]
      omega
    rw [if_neg hbeyond, hint, hmod, htaken]
    refine ⟨_, fd, hread, ?_, hat, fun hlast => by omega⟩
    rw [if_neg (by omega), Int.toNat_natCast]

/-- **Bytes are read** from a file, which keeps to its end there. -/
theorem At.read (h : At content f p) (ho : Holds o content) (hlen : content.length < 2 ^ 31)
    {n : UInt32} (hn : p + n.toNat < 2 ^ 32) :
    ∃ f', f.read o n =
        (((content.drop p).take n.toNat).length, (content.drop p).take n.toNat, f') ∧
      At content f' (p + ((content.drop p).take n.toNat).length) ∧
      (content ≠ [] → p = content.length → f' = f) := by
  by_cases hne : content = []
  · subst hne
    obtain ⟨res, fd, hread, hres, hat⟩ := h.spiffsRead_nil ho n
    have hcount : (if res < 0 then 0 else res.toNat) = 0 := by
      split
      · rfl
      · omega
    rw [h.eq_zero rfl, List.drop_nil, List.take_nil, SpiffsFileImpl.read, hread]
    dsimp only
    rw [hcount]
    exact ⟨_, rfl, hat, fun hcontent => absurd rfl hcontent⟩
  · obtain ⟨res, fd, hread, hcount, hat, hend⟩ := h.spiffsRead ho hlen hne hn
    rw [SpiffsFileImpl.read, hread]
    dsimp only
    rw [hcount]
    exact ⟨_, rfl, hat, fun _ hlast => by rw [hend hlast]⟩

/-- **A byte is read.** -/
theorem At.readByte (h : At content f p) (ho : Holds o content)
    (hlen : content.length < 2 ^ 31) :
    ∃ f', FileReader.read o f = (next content p, f') ∧
      At content f' (min (p + 1) content.length) ∧
      (content ≠ [] → p = content.length → f' = f) := by
  have hle := h.le
  have hone : (1 : UInt32).toNat = 1 := rfl
  obtain ⟨f', hread, hat, hend⟩ := h.read ho hlen (by omega : p + (1 : UInt32).toNat < 2 ^ 32)
  rw [hone] at hread hat
  have hcount : p + ((content.drop p).take 1).length = min (p + 1) content.length := by
    rw [List.length_take, List.length_drop]
    omega
  rw [hcount] at hat
  refine ⟨f', ?_, hat, hend⟩
  rw [FileReader.read, hread, next]
  by_cases hlt : p < content.length
  · have htake : (content.drop p).take 1 = [content[p]] := by
      rw [List.drop_eq_getElem_cons hlt, List.take_succ_cons, List.take_zero]
    rw [htake, List.getElem?_eq_getElem hlt]
    rfl
  · have hdrop : content.drop p = [] := List.drop_eq_nil_of_le (Nat.not_lt.mp hlt)
    rw [hdrop, List.getElem?_eq_none (Nat.not_lt.mp hlt)]
    rfl

/-! ## The calls of a `File` -/

/-- The size is told. -/
theorem At.sizeTold (h : At content f p) : f.size o = (content.length, f) := by
  rw [SpiffsFileImpl.size, h.written]
  exact Prod.ext h.statSize rfl

/-- **What is left is told.** -/
theorem At.available (h : At content f p) (hlen : content.length < 2 ^ 31)
    (hindexed : content ≠ [] → Indexed o f.fd p) :
    ∃ f', FileReader.available o f = ((content.length : ℤ) - p, f') ∧ At content f' p := by
  have hle := h.le
  obtain ⟨f', hposition, hat, -⟩ := h.position hlen hindexed
  have hint : int32 ((content.length : ℤ) - p) = (content.length : ℤ) - p :=
    int32_of_lt (by omega) (by omega)
  refine ⟨f', ?_, hat⟩
  unfold FileReader.available
  dsimp only
  rw [h.sizeTold, hposition, hint]

/-- Back to where the next byte was. -/
theorem At.seekBack {q : ℕ} (h : At content f q) (hlen : content.length < 2 ^ 31)
    (hp : p ≤ content.length) (hindexed : content ≠ [] → Indexed o f.fd p)
    (hnil : content = [] → q = p) :
    ∃ b f', f.seek o (UInt32.ofNat p) .seekSet = (b, f') ∧ At content f' p := by
  have htoNat : (UInt32.ofNat p).toNat = p := UInt32.toNat_ofNat_of_lt (by
    show p < 2 ^ 32
    omega)
  have hoffs : SpiffsObject.whenceOffset f.fd (int32 (UInt32.ofNat p).toNat) .seekSet = p := by
    rw [htoNat]
    exact int32_of_lt (by omega) (by omega)
  rw [SpiffsFileImpl.seek]
  by_cases hne : content = []
  · have hbehind : int32 f.fd.size < p := by
      rw [h.behind_iff hlen, Behind, if_pos hne]
      omega
    rw [lseek_refused hoffs (Or.inl hbehind), ← hnil hne]
    exact ⟨false, f, rfl, h⟩
  · obtain ⟨fd, hseek, hat, -⟩ := h.lseek hlen hne hoffs hp (hindexed hne)
    rw [hseek]
    exact ⟨_, _, rfl, hat⟩

/-- **A look at the next byte** leaves the file where it is. At its end the cursor has not
moved since the position was told. -/
theorem At.peek (h : At content f p) (ho : Holds o content) (hlen : content.length < 2 ^ 31)
    (hindexed : content ≠ [] → Indexed o f.fd p) :
    ∃ f', FileReader.peek o f = (next content p, f') ∧ At content f' p := by
  have hle := h.le
  obtain ⟨f₁, hposition, hat₁, hcursor⟩ := h.position hlen hindexed
  obtain ⟨f₂, hread, hat₂, hend⟩ := hat₁.readByte ho hlen
  have hindexed₂ : content ≠ [] → Indexed o f₂.fd p := by
    intro hne
    by_cases hlt : p < content.length
    · exact Or.inr (ho.findIndex p hlt)
    · rw [hend hne (by omega)]
      exact Or.inl (hcursor hne)
  have hnil : content = [] → min (p + 1) content.length = p := by
    intro hnil
    rw [h.eq_zero hnil, hnil]
    rfl
  obtain ⟨b, f₃, hseek, hat₃⟩ := hat₂.seekBack hlen hle hindexed₂ hnil
  refine ⟨f₃, ?_, hat₃⟩
  unfold FileReader.peek
  dsimp only
  rw [hposition, hread, hseek]

/-- **Every call** that is admitted is answered as it should be. -/
theorem step_refines (ho : Holds o content) (hlen : content.length < 2 ^ 31) (call : FileCall)
    (h : At content f p) (hadmitted : Admitted o content f call) :
    ∃ answer f' q, (file o).step f call = some (answer, f') ∧
      (spec content).step p call = some (answer, q) ∧ At content f' q := by
  have hle := h.le
  cases call with
  | read =>
    obtain ⟨f', hread, hat, -⟩ := h.readByte ho hlen
    refine ⟨_, f', _, ?_, rfl, hat⟩
    simp only [file, hread, Prod.map_apply, id]
  | readBuf n =>
    rw [Admitted, h.fdoffset] at hadmitted
    obtain ⟨f', hread, hat, -⟩ := h.read ho hlen hadmitted
    refine ⟨_, f', _, ?_, rfl, hat⟩
    simp only [file, hread]
  | peek =>
    rw [Admitted, h.fdoffset] at hadmitted
    obtain ⟨f', hpeek, hat⟩ := h.peek ho hlen hadmitted
    refine ⟨_, f', _, ?_, rfl, hat⟩
    simp only [file, hpeek, Prod.map_apply, id]
  | available =>
    rw [Admitted, h.fdoffset] at hadmitted
    obtain ⟨f', havailable, hat⟩ := h.available hlen hadmitted
    refine ⟨_, f', _, ?_, rfl, hat⟩
    simp only [file, havailable, Prod.map_apply, id]
  | position =>
    rw [Admitted, h.fdoffset] at hadmitted
    obtain ⟨f', hposition, hat, -⟩ := h.position hlen hadmitted
    refine ⟨_, f', _, ?_, rfl, hat⟩
    simp only [file, hposition, Prod.map_apply, id]
  | size =>
    refine ⟨_, f, _, ?_, rfl, h⟩
    simp only [file, h.sizeTold, Prod.map_apply, id]
  | seek pos mode =>
    obtain ⟨b, f', q, hseek, hspec, hat⟩ := h.seek hlen hadmitted
    refine ⟨_, f', q, ?_, hspec, hat⟩
    simp only [file, hseek, Prod.map_apply, id]

/-- The calls are answered as the contents and a position would. -/
def Reads (o : SpiffsObject) (content : List UInt8) (f : SpiffsFileImpl) (p : ℕ)
    (calls : List FileCall) : Prop :=
  ∃ answers f' q, (file o).run f calls = some (answers, f') ∧
    (spec content).run p calls = some (answers, q) ∧ At content f' q

/-- **A file is its contents and a position**, in every run of calls that are admitted. -/
theorem calls_refine (o : SpiffsObject) (content : List UInt8) (hlen : content.length < 2 ^ 31)
    (ho : Holds o content) (f : SpiffsFileImpl) (p : ℕ) (h : At content f p)
    (calls : List FileCall) (hcalls : (file o).Along (Admitted o content) f calls) :
    Reads o content f p calls :=
  Transducer.run_refines (fun _ _ call hat hadmitted => step_refines ho hlen call hat hadmitted)
    h hcalls

/-! ## A small file -/

/-- An object whose data pages are all in the index header. -/
def inHeader (content : List UInt8) : SpiffsObject where
  dataPageSize := 251
  objHdrIxLen := 105
  objIxLen := 124
  findIndex spix := if spix = 0 then (0, 1) else (-10002, 0)
  objectRead fd offset len :=
    let next := { fd with cursorObjixPix := 1, cursorObjixSpix := 0 }
    if offset + len ≤ content.length then (0, (content.drop offset).take len, next)
    else (-10015, content.drop offset, next)
  fstat := (0, content.length)

theorem inHeader_holds {content : List UInt8} (h : content.length ≤ 105 * 251) :
    Holds (inHeader content) content where
  fstat := rfl
  findIndex offset hoffset := by
    have hpage : offset / 251 % 2 ^ 16 < 105 := by omega
    have hspix : (inHeader content).objixSpix offset = 0 := by
      unfold SpiffsObject.objixSpix inHeader
      dsimp only
      rw [if_pos hpage, Nat.zero_mod]
    rw [hspix]
    exact Int.le_refl 0
  objectRead fd offset len _ hfits := ⟨1, 0, if_pos hfits⟩
  nothing hnil fd offset len hlen := by
    subst hnil
    refine ⟨-10015, 1, 0, by decide, ?_⟩
    unfold inHeader
    dsimp only
    rw [if_neg (by rw [List.length_nil]; omega), List.drop_nil]

/-- A file that has been opened. -/
def opened (content : List UInt8) : SpiffsFileImpl where
  fd := ⟨sizeField content, 1, 0, 0, true⟩
  statSize := content.length
  written := false

theorem opened_at (content : List UInt8) : At content (opened content) 0 :=
  ⟨rfl, rfl, Nat.zero_le _, rfl, rfl, rfl⟩

/-- Three bytes, looked at and read from all sides. -/
theorem calls_refine_abc : Reads (inHeader [97, 98, 99]) [97, 98, 99] (opened [97, 98, 99]) 0
    [.read, .peek, .available, .seek 1 .seekCur, .readBuf 10, .peek, .seek 0 .seekEnd, .read,
      .seek 4 .seekEnd, .seek 4 .seekSet, .position, .seek 1 .seekSet, .peek, .size] :=
  calls_refine _ _ (by decide) (inHeader_holds (by decide)) _ _ (opened_at _) _ (by decide)

/-- One before the end is sought behind the end. -/
theorem not_reads_seekEnd : Holds (inHeader [97, 98, 99]) [97, 98, 99] ∧
    At [97, 98, 99] (opened [97, 98, 99]) 0 ∧
    ¬ Reads (inHeader [97, 98, 99]) [97, 98, 99]
      (opened [97, 98, 99]) 0 [.seek 1 .seekEnd] := by
  refine ⟨inHeader_holds (by decide), opened_at _, ?_⟩
  rintro ⟨answers, f', q, hrun, hspec, -⟩
  have hrefused : (file (inHeader [97, 98, 99])).run (opened [97, 98, 99]) [.seek 1 .seekEnd] =
      some ([.bool false], opened [97, 98, 99]) := rfl
  have hmoved : (spec [97, 98, 99]).run 0 [.seek 1 .seekEnd] = some ([.bool true], 2) := rfl
  rw [hrefused] at hrun
  rw [hmoved] at hspec
  have hfalse : [FileAnswer.bool false] = answers := (Prod.mk.inj (Option.some.inj hrun)).1
  have htrue : [FileAnswer.bool true] = answers := (Prod.mk.inj (Option.some.inj hspec)).1
  exact absurd (hfalse.trans htrue.symm) (by decide)

end FileReader
