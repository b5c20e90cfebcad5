import Esp31b.TextBlock

/-!
# `String` objects

What `String` keeps is a pointer to a block, its capacity and a length, and the
bytes up to the length are the contents. All of it is kept up by hand. The
operations are written over the block itself, so that an access outside shows as
an operation without a result; `malloc` is whether there is memory.

A `WString` is the contents of such an object. What is told apart here is what
the contents do not show: a null buffer, the room behind the contents, and
whether a NUL ends them.
-/

/-- The three fields of a `String`. -/
structure StringObject where
  buffer : Option (List UInt8)
  capacity : ℕ
  len : ℕ
  deriving DecidableEq, Repr

namespace StringObject

/-- `init`. -/
def init : StringObject := ⟨none, 0, 0⟩

/-- `invalidate`. -/
def invalidate (_ : StringObject) : StringObject := init

/-! ## The buffer -/

/-- The bytes at an offset from the buffer; none of them are read from anywhere. -/
def load (s : StringObject) (p n : ℕ) : Option (List UInt8) :=
  if n = 0 then some []
  else do
    let b ← s.buffer
    Block.read b p n

/-- They become these. -/
def store (s : StringObject) (p : ℕ) (d : List UInt8) : Option StringObject := do
  let b ← s.buffer
  let b ← Block.write b p d
  return { s with buffer := some b }

/-- The text at an offset from the buffer. -/
def text (s : StringObject) (p : ℕ) : Option (List UInt8) := do
  let b ← s.buffer
  Block.text b p

/-- The buffer as an argument: null, or a text. -/
def cptr (s : StringObject) : Option (Option (List UInt8)) :=
  match s.buffer with
  | none => some none
  | some b => (Block.text b 0).map some

/-! ## Memory management -/

/-- `changeBuffer`. -/
def changeBuffer (s : StringObject) (maxStrLen : ℕ) (malloc : Bool) :
    Option (Bool × StringObject) :=
  let newSize := (maxStrLen + 16) % 2 ^ 32 / 16 * 16
  if malloc then do
    let old ← s.load 0 s.len
    let newbuffer ← Block.write (List.replicate newSize 0) 0 old
    return (true, ⟨some newbuffer, (newSize + 2 ^ 32 - 1) % 2 ^ 32, s.len⟩)
  else some (false, { s with buffer := none })

/-- `reserve`. -/
def reserve (s : StringObject) (size : ℕ) (malloc : Bool) : Option (Bool × StringObject) :=
  if s.buffer.isSome ∧ s.capacity ≥ size then some (true, s)
  else do
    let (changed, s) ← s.changeBuffer size malloc
    if changed then
      if s.len = 0 then
        let s ← s.store 0 [0]
        return (true, s)
      else return (true, s)
    else return (false, s)

/-! ## Copy and move -/

/-- `copy`, of a text in memory or in flash. -/
def copy (s : StringObject) (cstr : List UInt8) (length : ℕ) (malloc : Bool) :
    Option StringObject := do
  let (reserved, s) ← s.reserve length malloc
  if reserved then store { s with len := length } 0 (cstr ++ [0]) else return s.invalidate

/-- `move`: this object and the other one. -/
def move (s rhs : StringObject) : Option (StringObject × StringObject) :=
  if s.buffer.isSome ∧ s.capacity ≥ rhs.len then do
    let cstr ← rhs.text 0
    let s ← s.store 0 (cstr ++ [0])
    return ({ s with len := rhs.len }, { rhs with len := 0 })
  else some (rhs, init)

/-- `operator =(const String &)`, of another object. -/
def assign (s rhs : StringObject) (malloc : Bool) : Option StringObject :=
  if rhs.buffer.isSome then do
    let cstr ← rhs.text 0
    s.copy cstr rhs.len malloc
  else some s.invalidate

/-- `operator =(const char *)`, and of a text in flash; `none` is a null
pointer. -/
def assignText (s : StringObject) (cstr : Option (List UInt8)) (malloc : Bool) :
    Option StringObject :=
  match cstr with
  | some cstr => s.copy cstr cstr.length malloc
  | none => some s.invalidate

/-! ## Constructors -/

/-- `String(const char *)`; characters and numbers are written out first. -/
def ofText (cstr : Option (List UInt8)) (malloc : Bool) : Option StringObject :=
  match cstr with
  | some cstr => init.copy cstr cstr.length malloc
  | none => some init

/-- `String(const String &)`. -/
def ofCopy (value : StringObject) (malloc : Bool) : Option StringObject :=
  init.assign value malloc

/-- `String(String &&)`. -/
def ofMove (rval : StringObject) : Option (StringObject × StringObject) := init.move rval

/-! ## `concat` -/

/-- `concat(const char *, unsigned int)`. -/
def concatFrom (s : StringObject) (cstr : Option (List UInt8)) (length : ℕ) (malloc : Bool) :
    Option (Bool × StringObject) :=
  let newlen := (s.len + length) % 2 ^ 32
  match cstr with
  | none => some (false, s)
  | some cstr =>
    if length = 0 then some (true, s)
    else do
      let (reserved, s) ← s.reserve newlen malloc
      if reserved then
        let s ← s.store s.len (cstr ++ [0])
        return (true, { s with len := newlen })
      else return (false, s)

/-- `concat(const String &)`, of another object. -/
def concat (s rhs : StringObject) (malloc : Bool) : Option (Bool × StringObject) := do
  let cstr ← rhs.cptr
  s.concatFrom cstr rhs.len malloc

/-- `concat(const char *)`; numbers are written out first. -/
def concatText (s : StringObject) (cstr : Option (List UInt8)) (malloc : Bool) :
    Option (Bool × StringObject) :=
  match cstr with
  | none => some (false, s)
  | some cstr => s.concatFrom (some cstr) cstr.length malloc

/-- `concat(char)`, of a text that ends at once if it is a NUL. -/
def concatChar (s : StringObject) (c : UInt8) (malloc : Bool) : Option (Bool × StringObject) :=
  s.concatFrom (some (cstr [c])) 1 malloc

/-- `concat(const __FlashStringHelper *)`. -/
def concatFlash (s : StringObject) (str : Option (List UInt8)) (malloc : Bool) :
    Option (Bool × StringObject) :=
  match str with
  | none => some (false, s)
  | some str =>
    if str.length = 0 then some (true, s)
    else do
      let newlen := (s.len + str.length) % 2 ^ 32
      let (reserved, s) ← s.reserve newlen malloc
      if reserved then
        let s ← s.store s.len (str ++ [0])
        return (true, { s with len := newlen })
      else return (false, s)

/-! ## Characters -/

/-- `setCharAt`. -/
def setCharAt (s : StringObject) (loc : ℕ) (c : UInt8) : Option StringObject :=
  if loc < s.len then s.store loc [c] else some s

/-- A loop over the buffer up to the first NUL. -/
def mapText (s : StringObject) (f : UInt8 → UInt8) : Option StringObject :=
  match s.buffer with
  | none => some s
  | some b => do
    let text ← Block.text b 0
    s.store 0 (text.map f)

/-- `replace(char, char)`. -/
def replaceChar (s : StringObject) (find replace : UInt8) : Option StringObject :=
  s.mapText fun c => if c = find then replace else c

/-- `toLowerCase`. -/
def toLowerCase (s : StringObject) : Option StringObject := s.mapText tolower

/-- The C function. -/
def toupper (c : UInt8) : UInt8 := if 0x61 ≤ c ∧ c ≤ 0x7A then c - 0x20 else c

/-- `toUpperCase`. -/
def toUpperCase (s : StringObject) : Option StringObject := s.mapText toupper

/-! ## Parts -/

/-- `substring(left, right)`: this object, in which a byte is replaced and put
back, and the new one, which is made of an empty text and assigned to. -/
def substring (s : StringObject) (left right : ℕ) (malloc : Bool) :
    Option (StringObject × StringObject) := do
  let (left, right) := if left > right then (right, left) else (left, right)
  let out ← ofText (some []) malloc
  if left ≥ s.len then return (s, out)
  else
    let right := if right > s.len then s.len else right
    let temp ← s.load right 1
    let s ← s.store right [0]
    let cstr ← s.text left
    let out ← out.assignText (some cstr) malloc
    let s ← s.store right temp
    return (s, out)

/-- `remove(index, count)`. -/
def remove (s : StringObject) (index count : ℕ) : Option StringObject :=
  if index ≥ s.len then some s
  else if count = 0 then some s
  else do
    let count := if count > s.len - index then s.len - index else count
    let len := s.len - count
    let rest ← s.load (index + count) (len - index)
    -- `strncpy` clears what is behind a NUL
    let s ← s.store index (cstr rest ++ List.replicate (rest.length - (cstr rest).length) 0)
    store { s with len := len } len [0]

/-- The loop of `trim` from the end, down to the byte in front of `begin`: it
looks at a byte before it knows that there is one. -/
def trimEnd (b : List UInt8) (begin : ℕ) : ℕ → Option ℕ
  | 0 => none
  | last + 1 => do
    let c ← b[last]?
    if isspace c ∧ last ≥ begin then trimEnd b begin last else return last + 1

/-- The loop from the start, to a byte that is no blank. -/
def trimBegin (b : List UInt8) : Option ℕ :=
  let begin := (b.takeWhile isspace).length
  if begin < b.length then some begin else none

/-- What is left is moved to the start. -/
def moveToStart (s : StringObject) (begin len : ℕ) : Option StringObject :=
  if begin > 0 then do
    let d ← s.load begin len
    s.store 0 d
  else some s

/-- `trim`. -/
def trim (s : StringObject) : Option StringObject :=
  match s.buffer with
  | none => some s
  | some b =>
    if s.len = 0 then some s
    else do
      let begin ← trimBegin b
      let behind ← trimEnd b begin s.len
      let len := behind - begin
      let s ← s.moveToStart begin len
      store { s with len := len } len [0]

/-! ## `replace` -/

/-- The loop where both texts are of one length. -/
def replaceSame (find : List UInt8) (rep : List UInt8) :
    ℕ → List UInt8 → ℕ → Option (List UInt8)
  | 0, _, _ => none
  | turns + 1, b, readFrom => do
    let foundAt ← Block.strstr b readFrom find
    match foundAt with
    | none => return b
    | some foundAt =>
      let b ← Block.write b foundAt rep
      replaceSame find rep turns b (foundAt + rep.length)

/-- The loop where the new text is shorter: the block, where is written to and
read from, and the length. -/
def replaceShorter (find : List UInt8) (findLen : ℕ) (rep : List UInt8) :
    ℕ → List UInt8 → ℕ → ℕ → ℕ → Option (List UInt8 × ℕ)
  | 0, _, _, _, _ => none
  | turns + 1, b, writeTo, readFrom, len => do
    let foundAt ← Block.strstr b readFrom find
    match foundAt with
    | none =>
      let rest ← Block.text b readFrom
      let b ← Block.write b writeTo (rest ++ [0])
      return (b, len)
    | some foundAt =>
      let d ← Block.read b readFrom (foundAt - readFrom)
      let b ← Block.write b writeTo d
      let b ← Block.write b (writeTo + (foundAt - readFrom)) rep
      replaceShorter find findLen rep turns b (writeTo + (foundAt - readFrom) + rep.length)
        (foundAt + findLen)
        (len - (findLen - rep.length))

/-- The size needed where it is longer. -/
def sizeNeeded (find : List UInt8) (findLen diff : ℕ) (b : List UInt8) : ℕ → ℕ → ℕ → Option ℕ
  | 0, _, _ => none
  | turns + 1, readFrom, size => do
    let foundAt ← Block.strstr b readFrom find
    match foundAt with
    | none => return size
    | some foundAt =>
      sizeNeeded find findLen diff b turns (foundAt + findLen) ((size + diff) % 2 ^ 32)

/-- The loop of `lastIndexOf(s2, fromIndex)`. -/
def lastFound (find : List UInt8) (b : List UInt8) (fromIndex : ℕ) : ℕ → ℕ → Option ℕ →
    Option (Option ℕ)
  | 0, _, _ => none
  | turns + 1, p, found =>
    if p ≤ fromIndex then do
      let q ← Block.strstr b p find
      match q with
      | none => return found
      | some q =>
        lastFound find b fromIndex turns (q + 1) (if q ≤ fromIndex then some q else found)
    else some found

/-- `lastIndexOf(s2, fromIndex)`, where `none` is -1. -/
def lastIndexOf (find : List UInt8) (findLen : ℕ) (b : List UInt8) (len fromIndex : ℕ) :
    Option (Option ℕ) :=
  if findLen = 0 ∨ len = 0 ∨ findLen > len then some none
  else
    let fromIndex := if fromIndex ≥ len then len - 1 else fromIndex
    lastFound find b fromIndex (b.length + 1) 0 none

/-- One occurrence is replaced by a longer text: the block, and the new length. The
count of the `memmove` is unsigned. -/
def replaceFound (findLen : ℕ) (rep b : List UInt8) (len index : ℕ) :
    Option (List UInt8 × ℕ) := do
  let diff := rep.length - findLen
  let d ← Block.read b (index + findLen) ((len + 2 ^ 32 - (index + findLen)) % 2 ^ 32)
  let b ← Block.write b (index + findLen + diff) d
  let b ← Block.write b (len + diff) [0]
  let b ← Block.write b index rep
  return (b, len + diff)

/-- The loop from the right where it is longer; the index plus one is what is
left of the string. -/
def replaceLonger (find : List UInt8) (findLen : ℕ) (rep : List UInt8) :
    ℕ → List UInt8 → ℕ → ℕ →
    Option (List UInt8 × ℕ)
  | 0, _, _, _ => none
  | _ + 1, b, len, 0 => some (b, len)
  | turns + 1, b, len, index + 1 => do
    let found ← lastIndexOf find findLen b len index
    match found with
    | none => return (b, len)
    | some index =>
      let (b, len) ← replaceFound findLen rep b len index
      replaceLonger find findLen rep turns b len index

/-- The buffer is made larger if it has to be. -/
def grow (s : StringObject) (size : ℕ) (malloc : Bool) : Option (Bool × StringObject) :=
  if size > s.capacity then s.changeBuffer size malloc else some (true, s)

/-- `replace(const String &, const String &)`. -/
def replace (s find replace : StringObject) (malloc : Bool) : Option StringObject :=
  if s.len = 0 ∨ find.len = 0 then some s
  else do
    let b ← s.buffer
    let text ← find.text 0
    let rep ← replace.load 0 replace.len
    if replace.len = find.len then
      let b ← replaceSame text rep (b.length + 1) b 0
      return { s with buffer := some b }
    else if replace.len < find.len then
      let (b, len) ← replaceShorter text find.len rep (b.length + 1) b 0 0 s.len
      return { s with buffer := some b, len := len }
    else
      let size ← sizeNeeded text find.len (replace.len - find.len) b (b.length + 1) 0 s.len
      if size = s.len then return s
      else
        let (changed, s) ← s.grow size malloc
        if changed then
          let b ← s.buffer
          let (b, len) ← replaceLonger text find.len rep (s.len + 1) b s.len s.len
          return { s with buffer := some b, len := len }
        else return s

/-! ## Valid objects -/

/-- **A null string, or a text in its block**: a NUL is behind the contents. -/
def Valid (s : StringObject) : Prop :=
  match s.buffer with
  | none => s.len = 0 ∧ s.capacity = 0
  | some b => b.length = s.capacity + 1 ∧ s.len ≤ s.capacity ∧ b[s.len]? = some 0

instance (s : StringObject) : Decidable s.Valid :=
  match h : s.buffer with
  | none => decidable_of_iff (s.len = 0 ∧ s.capacity = 0) (by unfold Valid; rw [h])
  | some b =>
    decidable_of_iff (b.length = s.capacity + 1 ∧ s.len ≤ s.capacity ∧ b[s.len]? = some 0)
      (by unfold Valid; rw [h])

variable {s : StringObject} {b : List UInt8}

theorem valid_init : init.Valid := ⟨rfl, rfl⟩

theorem valid_none (h : s.buffer = none) : s.Valid ↔ s.len = 0 ∧ s.capacity = 0 := by
  unfold Valid
  rw [h]

theorem valid_some (h : s.buffer = some b) :
    s.Valid ↔ b.length = s.capacity + 1 ∧ s.len ≤ s.capacity ∧ b[s.len]? = some 0 := by
  unfold Valid
  rw [h]

/-- The text of a valid object is no longer than its contents. -/
theorem Valid.text (hs : s.Valid) (h : s.buffer = some b) : ∃ t, Block.text b 0 = some t ∧
    t.length ≤ s.len := by
  obtain ⟨-, -, hzero⟩ := (valid_some h).mp hs
  obtain ⟨t, ht, hle⟩ := Block.text_of_zero hzero (Nat.zero_le _)
  exact ⟨t, ht, by omega⟩

end StringObject
