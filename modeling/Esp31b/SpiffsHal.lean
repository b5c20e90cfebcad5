import Esp31b.ByteMem

/-!
# The SPIFFS flash write

`spi_flash_write` wants a flash address that is a multiple of four, a length
that is a multiple of four and a source it can read a word at a time.
`spiffs_hal_write` takes none of the three for granted: it writes the part
before the first word boundary from a word padded with `0xff`, the words in
between directly – or, when the source is not word-aligned, through a
512-byte buffer – and the part after the last word boundary from a second
padded word. Flash bits can only be cleared, so `0xff` is neutral and the
padding leaves its neighbours alone.

The SDK call is a parameter of the model, `SpiFlashWrite`; what it is
documented to do is `SpiFlashWrite.Clears`. Every read of the source is
recorded, so that "reads only `src[0 .. size)`" is a statement about the
record.

The buffered middle advances its source as a `uint32_t *`, four bytes for
each byte it has copied. One piece is copied correctly; from the second
piece on the source has run away (`exists_read_of_writePieces`).
-/

/-- The SDK's `spi_flash_write`: flash contents, address and data to the
result code and the new contents. -/
abbrev SpiFlashWrite : Type := ByteMem → ℕ → List UInt8 → ℤ × ByteMem

/-- **What the SDK documents**: at word-aligned addresses and lengths the
call succeeds and clears, in each byte, the bits that are clear in the data. -/
def SpiFlashWrite.Clears (sdk : SpiFlashWrite) : Prop :=
  ∀ (f : ByteMem) (a : ℕ) (d : List UInt8), 4 ∣ a → 4 ∣ d.length →
    sdk f a d = (0, f.combineAt (· &&& ·) a d)

namespace SpiffsHal

/-- `SPIFFS_OK`. -/
def ok : ℤ := 0

/-- `SPIFFS_ERR_INTERNAL`. -/
def errInternal : ℤ := -10050

/-- `UNALIGNED_WRITE_BUFFER_SIZE`. -/
def unalignedWriteBufferSize : ℕ := 512

/-- A 32-bit value with its two low bits cleared, `x & (~3)`. -/
def wordFloor (x : ℕ) : ℕ := x - x % 4

/-- `alignedBegin`: the first word boundary not before `addr`. -/
def alignedBegin (addr : ℕ) : ℕ := wordFloor ((addr + 3) % 2 ^ 32)

/-- `alignedEnd`: the last word boundary not after `addr + size`, but never
before `alignedBegin`. -/
def alignedEnd (addr size : ℕ) : ℕ :=
  let e := wordFloor ((addr + size) % 2 ^ 32)
  if e < alignedBegin addr then alignedBegin addr else e

/-- What a write has done so far: the flash contents, and the source runs
`(pointer, length)` it has read. -/
structure State where
  flash : ByteMem
  reads : List (ℕ × ℕ)

/-- A source run copied out, and the read recorded. -/
def State.load (s : State) (mem : ByteMem) (p n : ℕ) : List UInt8 × State :=
  (mem.slice p n, { s with reads := s.reads ++ [(p, n)] })

/-- `EspClass::flashWrite`: the SDK call, successful when it returns 0. -/
def State.flashWrite (sdk : SpiFlashWrite) (s : State) (a : ℕ) (d : List UInt8) :
    Bool × State :=
  let r := sdk s.flash a d
  (r.1 == 0, { s with flash := r.2 })

variable (sdk : SpiFlashWrite) (mem : ByteMem)

/-- The part before the first word boundary. -/
def writeHead (addr size src : ℕ) (s : State) : Bool × State :=
  if addr < alignedBegin addr then
    let ofs := alignedBegin addr - addr
    let nb := if size < ofs then size else ofs
    let (d, s) := s.load mem src nb
    let tmp := (List.replicate 4 0xff).overlay (4 - ofs) d
    s.flashWrite sdk (alignedBegin addr - 4) tmp
  else (true, s)

/-- The loop over the buffered pieces of the middle. `p` is `srcLeftover`,
a `uint32_t *`: adding `willCopy` to it moves it `4 * willCopy` bytes. -/
def writePieces (a p sizeLeft : ℕ) (s : State) : Bool × State :=
  if sizeLeft = 0 then (true, s)
  else
    let willCopy := min sizeLeft unalignedWriteBufferSize
    let (buf, s) := s.load mem p willCopy
    match s.flashWrite sdk a buf with
    | (false, s) => (false, s)
    | (true, s) => writePieces (a + willCopy) (p + 4 * willCopy) (sizeLeft - willCopy) s
  termination_by sizeLeft
  decreasing_by
    have : 0 < unalignedWriteBufferSize := by decide
    omega

/-- The whole words in between: directly when the source is word-aligned
there, through the buffer when it is not. -/
def writeMiddle (addr size src : ℕ) (s : State) : Bool × State :=
  if alignedEnd addr size ≠ alignedBegin addr then
    let srcLeftover := src + alignedBegin addr - addr
    if srcLeftover % 4 = 0 then
      let (d, s) := s.load mem srcLeftover (alignedEnd addr size - alignedBegin addr)
      s.flashWrite sdk (alignedBegin addr) d
    else
      writePieces sdk mem (alignedBegin addr) srcLeftover
        (alignedEnd addr size - alignedBegin addr) s
  else (true, s)

/-- The part after the last word boundary. -/
def writeTail (addr size src : ℕ) (s : State) : Bool × State :=
  if (addr + size) % 2 ^ 32 > alignedEnd addr size then
    let nb := (addr + size) % 2 ^ 32 - alignedEnd addr size
    let (d, s) := s.load mem (src + size - nb) nb
    let tmp := (List.replicate 4 0xff).overlay 0 d
    s.flashWrite sdk (alignedEnd addr size) tmp
  else (true, s)

/-- **`spiffs_hal_write(addr, size, src)`** on the flash contents `flash`,
with the source at address `src` of `mem`. -/
def spiffsHalWrite (flash : ByteMem) (addr size src : ℕ) : ℤ × State :=
  match writeHead sdk mem addr size src ⟨flash, []⟩ with
  | (false, s) => (errInternal, s)
  | (true, s) =>
    match writeMiddle sdk mem addr size src s with
    | (false, s) => (errInternal, s)
    | (true, s) =>
      match writeTail sdk mem addr size src s with
      | (false, s) => (errInternal, s)
      | (true, s) => (ok, s)

/-! ## The word boundaries -/

theorem alignedBegin_spec (addr : ℕ) (h : addr + 3 < 2 ^ 32) :
    addr ≤ alignedBegin addr ∧ alignedBegin addr < addr + 4 ∧ 4 ∣ alignedBegin addr := by
  unfold alignedBegin wordFloor
  rw [Nat.mod_eq_of_lt h]
  omega

/-- The last boundary is either inside the last word of the range or, when
the range ends before its first boundary, that boundary. -/
theorem alignedEnd_spec {addr size : ℕ} (h : addr + size + 3 < 2 ^ 32) :
    4 ∣ alignedEnd addr size ∧ alignedBegin addr ≤ alignedEnd addr size ∧
      (alignedEnd addr size ≤ addr + size ∧ addr + size < alignedEnd addr size + 4 ∨
        addr + size < alignedBegin addr ∧ alignedEnd addr size = alignedBegin addr) := by
  have hb := alignedBegin_spec addr (by omega)
  unfold alignedEnd wordFloor
  simp only [Nat.mod_eq_of_lt (show addr + size < 2 ^ 32 by omega)]
  split <;> omega

/-! ## What each part does

Under the SDK's contract each of the three parts is one run of the source
combined into the flash. -/

section Parts

variable {sdk} (hsdk : sdk.Clears)

/-- No bit is cleared by `0xff`. -/
theorem and_ff (b : UInt8) : b &&& 0xff = b := by
  exact UInt8.and_neg_one

include hsdk in
theorem flashWrite_eq (s : State) {a : ℕ} {d : List UInt8} (ha : 4 ∣ a) (hd : 4 ∣ d.length) :
    s.flashWrite sdk a d = (true, { s with flash := s.flash.combineAt (· &&& ·) a d }) := by
  rw [State.flashWrite, hsdk s.flash a d ha hd]
  rfl

include hsdk in
/-- A word of `0xff` overlaid with a short run writes that run and nothing
else. -/
theorem flashWrite_overlay (s : State) {a k : ℕ} {d : List UInt8} (ha : 4 ∣ a)
    (hk : k + d.length ≤ 4) :
    s.flashWrite sdk a ((List.replicate 4 0xff).overlay k d)
      = (true, { s with flash := s.flash.combineAt (· &&& ·) (a + k) d }) := by
  rw [List.overlay_replicate 4 k 0xff d hk, flashWrite_eq hsdk s ha,
    ByteMem.combineAt_pad _ _ and_ff]
  simp only [List.length_append, List.length_replicate]
  omega

include hsdk in
/-- **The head** writes the bytes up to the first boundary, or the whole
range when it ends before it. -/
theorem writeHead_eq (addr size src : ℕ) (h : addr + 3 < 2 ^ 32) (s : State) :
    ∃ reads, writeHead sdk mem addr size src s
        = (true, ⟨s.flash.combineAt (· &&& ·) addr
            (mem.slice src (min size (alignedBegin addr - addr))), s.reads ++ reads⟩) ∧
      ∀ r ∈ reads, src ≤ r.1 ∧ r.1 + r.2 ≤ src + size := by
  obtain ⟨hle, hlt, hdvd⟩ := alignedBegin_spec addr h
  unfold writeHead State.load
  by_cases hne : addr < alignedBegin addr
  · have hnb : (if size < alignedBegin addr - addr then size else alignedBegin addr - addr)
        = min size (alignedBegin addr - addr) := by
      split <;> omega
    refine ⟨[(src, min size (alignedBegin addr - addr))], ?_, ?_⟩
    · rw [if_pos hne]
      simp only [hnb]
      rw [flashWrite_overlay hsdk _ (by omega) (by rw [ByteMem.length_slice]; omega),
        show alignedBegin addr - 4 + (4 - (alignedBegin addr - addr)) = addr by omega]
    · simp only [List.mem_singleton, forall_eq]
      omega
  · refine ⟨[], ?_, by simp⟩
    rw [if_neg hne, show alignedBegin addr - addr = 0 by omega]
    simp

include hsdk in
/-- **The tail** writes the bytes after the last boundary. -/
theorem writeTail_eq (addr size src : ℕ) (h : addr + size + 3 < 2 ^ 32) (s : State) :
    ∃ reads, writeTail sdk mem addr size src s
        = (true, ⟨s.flash.combineAt (· &&& ·) (alignedEnd addr size)
            (mem.slice (src + size - (addr + size - alignedEnd addr size))
              (addr + size - alignedEnd addr size)), s.reads ++ reads⟩) ∧
      ∀ r ∈ reads, src ≤ r.1 ∧ r.1 + r.2 ≤ src + size := by
  obtain ⟨hdvd, hble, hcase⟩ := alignedEnd_spec h
  obtain ⟨hle, -, -⟩ := alignedBegin_spec addr (by omega)
  unfold writeTail State.load
  rw [Nat.mod_eq_of_lt (show addr + size < 2 ^ 32 by omega)]
  by_cases hgt : addr + size > alignedEnd addr size
  · refine ⟨[(src + size - (addr + size - alignedEnd addr size),
      addr + size - alignedEnd addr size)], ?_, ?_⟩
    · rw [if_pos hgt]
      simp only
      rw [flashWrite_overlay hsdk _ hdvd (by rw [ByteMem.length_slice]; omega), Nat.add_zero]
    · simp only [List.mem_singleton, forall_eq]
      omega
  · refine ⟨[], ?_, by simp⟩
    rw [if_neg hgt, show addr + size - alignedEnd addr size = 0 by omega]
    simp

include hsdk in
/-- **The middle** writes the whole words in between, when the source is
word-aligned there or one buffer holds them all. -/
theorem writeMiddle_eq (addr size src : ℕ) (h : addr + size + 3 < 2 ^ 32) (s : State)
    (hok : (src + alignedBegin addr - addr) % 4 = 0 ∨
      alignedEnd addr size - alignedBegin addr ≤ unalignedWriteBufferSize) :
    ∃ reads, writeMiddle sdk mem addr size src s
        = (true, ⟨s.flash.combineAt (· &&& ·) (alignedBegin addr)
            (mem.slice (src + alignedBegin addr - addr)
              (alignedEnd addr size - alignedBegin addr)), s.reads ++ reads⟩) ∧
      ∀ r ∈ reads, src ≤ r.1 ∧ r.1 + r.2 ≤ src + size := by
  obtain ⟨hdvd, hble, hcase⟩ := alignedEnd_spec h
  obtain ⟨hle, -, hbdvd⟩ := alignedBegin_spec addr (by omega)
  unfold writeMiddle
  by_cases hne : alignedEnd addr size ≠ alignedBegin addr
  · refine ⟨[(src + alignedBegin addr - addr, alignedEnd addr size - alignedBegin addr)], ?_,
      ?_⟩
    · rw [if_pos hne]
      by_cases hal : (src + alignedBegin addr - addr) % 4 = 0
      · simp only [hal, if_true, State.load]
        rw [flashWrite_eq hsdk _ hbdvd (by rw [ByteMem.length_slice]; omega)]
      · have hone : alignedEnd addr size - alignedBegin addr ≤ unalignedWriteBufferSize :=
          hok.resolve_left hal
        simp only [hal, if_false]
        -- one piece, after which nothing is left
        rw [writePieces, if_neg (by omega), Nat.min_eq_left hone]
        simp only [State.load]
        rw [flashWrite_eq hsdk _ hbdvd (by rw [ByteMem.length_slice]; omega)]
        simp only [Nat.sub_self]
        rw [writePieces, if_pos rfl]
    · simp only [List.mem_singleton, forall_eq]
      omega
  · rw [not_not] at hne
    refine ⟨[], ?_, by simp⟩
    rw [if_neg (by simp [hne]), hne, Nat.sub_self]
    simp

include hsdk in
/-- **The pieces run away from their source.** A middle that takes more than
one piece reads, in its last piece, at least `3 * 512` bytes beyond its end. -/
theorem exists_read_of_writePieces (a p sizeLeft : ℕ) (s : State) (ha : 4 ∣ a)
    (hd : 4 ∣ sizeLeft) (hpos : 0 < sizeLeft) :
    ∃ q n, (q, n) ∈ (writePieces sdk mem a p sizeLeft s).2.reads ∧ p + sizeLeft ≤ q + n ∧
      (unalignedWriteBufferSize < sizeLeft →
        p + sizeLeft + 3 * unalignedWriteBufferSize ≤ q + n) := by
  have hbuf : unalignedWriteBufferSize = 512 := rfl
  induction sizeLeft using Nat.strong_induction_on generalizing a p s with
  | _ sizeLeft ih =>
    rw [writePieces, if_neg (by omega)]
    simp only [State.load]
    rw [flashWrite_eq hsdk _ ha (by rw [ByteMem.length_slice]; omega)]
    simp only
    by_cases hmore : unalignedWriteBufferSize < sizeLeft
    · rw [Nat.min_eq_right (by omega)]
      obtain ⟨q, n, hmem, hfar, -⟩ := ih (sizeLeft - unalignedWriteBufferSize) (by omega)
        (a + unalignedWriteBufferSize) (p + 4 * unalignedWriteBufferSize)
        ⟨s.flash.combineAt (· &&& ·) a (mem.slice p unalignedWriteBufferSize),
          s.reads ++ [(p, unalignedWriteBufferSize)]⟩ (by omega) (by omega) (by omega)
      exact ⟨q, n, hmem, by omega, fun _ => by omega⟩
    · rw [Nat.min_eq_left (by omega), Nat.sub_self, writePieces, if_pos rfl]
      exact ⟨p, sizeLeft, by simp, le_refl _, fun hc => absurd hc hmore⟩

include hsdk in
/-- A later part only adds to the record of reads. -/
theorem writeTail_reads (addr size src : ℕ) (h : addr + size + 3 < 2 ^ 32) (s : State) :
    (writeTail sdk mem addr size src s).1 = true ∧
      ∀ r ∈ s.reads, r ∈ (writeTail sdk mem addr size src s).2.reads := by
  obtain ⟨reads, heq, -⟩ := writeTail_eq mem hsdk addr size src h s
  rw [heq]
  exact ⟨rfl, fun r hr => List.mem_append_left _ hr⟩

end Parts

/-! ## The whole write -/

/-- **The write is exact**: it succeeds, every byte of the range is cleared
by the corresponding source byte, every other byte is untouched, and the
source is read only inside the `size` bytes at `src`. -/
structure WritesExactly (flash : ByteMem) (addr size src : ℕ) (r : ℤ × State) : Prop where
  result : r.1 = ok
  written : ∀ i < size, r.2.flash (addr + i) = flash (addr + i) &&& mem (src + i)
  frame : ∀ j, j < addr ∨ addr + size ≤ j → r.2.flash j = flash j
  within : ∀ q ∈ r.2.reads, src ≤ q.1 ∧ q.1 + q.2 ≤ src + size

variable {sdk}

/-- The three runs, one after the other, are the whole range. -/
theorem combineAt_parts (op : UInt8 → UInt8 → UInt8) (flash : ByteMem) (addr size src : ℕ)
    (h : addr + size + 3 < 2 ^ 32) :
    ((flash.combineAt op addr
        (mem.slice src (min size (alignedBegin addr - addr)))).combineAt op
        (alignedBegin addr) (mem.slice (src + alignedBegin addr - addr)
          (alignedEnd addr size - alignedBegin addr))).combineAt op (alignedEnd addr size)
        (mem.slice (src + size - (addr + size - alignedEnd addr size))
          (addr + size - alignedEnd addr size))
      = flash.combineAt op addr (mem.slice src size) := by
  obtain ⟨-, hble, hcase⟩ := alignedEnd_spec h
  obtain ⟨hle, -, -⟩ := alignedBegin_spec addr (by omega)
  rcases hcase with ⟨hae, hae'⟩ | ⟨hshort, hae⟩
  · rw [Nat.min_eq_right (by omega)]
    have hmid :
        (flash.combineAt op addr (mem.slice src (alignedBegin addr - addr))).combineAt op
        (alignedBegin addr) (mem.slice (src + alignedBegin addr - addr)
          (alignedEnd addr size - alignedBegin addr))
        = flash.combineAt op addr (mem.slice src (alignedEnd addr size - addr)) := by
      have h1 :=
        ByteMem.combineAt_append op flash addr (mem.slice src (alignedBegin addr - addr))
        (mem.slice (src + (alignedBegin addr - addr))
        (alignedEnd addr size - alignedBegin addr))
      rw [ByteMem.length_slice, ByteMem.slice_append,
        show addr + (alignedBegin addr - addr) = alignedBegin addr by omega,
        show src + (alignedBegin addr - addr) = src + alignedBegin addr - addr by omega,
        show alignedBegin addr - addr + (alignedEnd addr size - alignedBegin addr)
          = alignedEnd addr size - addr by omega] at h1
      exact h1
    have h2 :=
      ByteMem.combineAt_append op flash addr (mem.slice src (alignedEnd addr size - addr))
      (mem.slice (src + (alignedEnd addr size - addr)) (addr + size - alignedEnd addr size))
    rw [ByteMem.length_slice, ByteMem.slice_append,
      show addr + (alignedEnd addr size - addr) = alignedEnd addr size by omega,
      show src + (alignedEnd addr size - addr)
        = src + size - (addr + size - alignedEnd addr size) by omega,
      show alignedEnd addr size - addr + (addr + size - alignedEnd addr size) =
          size by omega] at h2
    rw [hmid, h2]
  · rw [hae, Nat.sub_self, show addr + size - alignedBegin addr = 0 by omega,
      Nat.min_eq_left (by omega)]
    simp

/-- A source with the alignment of the flash address, or a middle that one
buffer holds, is written exactly. -/
theorem writesExactly_of_fits (hsdk : sdk.Clears) (flash : ByteMem) (addr size src : ℕ)
    (h : addr + size + 3 < 2 ^ 32)
    (hok : src % 4 = addr % 4 ∨
      alignedEnd addr size - alignedBegin addr ≤ unalignedWriteBufferSize) :
    WritesExactly mem flash addr size src (spiffsHalWrite sdk mem flash addr size src) := by
  obtain ⟨hle, -, hbdvd⟩ := alignedBegin_spec addr (by omega)
  obtain ⟨rh, hhead, hrh⟩ := writeHead_eq mem hsdk addr size src (by omega) ⟨flash, []⟩
  obtain ⟨rm, hmid, hrm⟩ := writeMiddle_eq mem hsdk addr size src h
    ⟨flash.combineAt (· &&& ·) addr (mem.slice src (min size (alignedBegin addr - addr))),
      [] ++ rh⟩ (hok.imp_left (fun _ => by omega))
  obtain ⟨rt, htail, hrt⟩ := writeTail_eq mem hsdk addr size src h
    ⟨(flash.combineAt (· &&& ·) addr (mem.slice src
      (min size (alignedBegin addr - addr)))).combineAt
        (· &&& ·) (alignedBegin addr) (mem.slice (src + alignedBegin addr - addr)
          (alignedEnd addr size - alignedBegin addr)), [] ++ rh ++ rm⟩
  have heq : spiffsHalWrite sdk mem flash addr size src
      = (ok, ⟨flash.combineAt (· &&& ·) addr (mem.slice src size), [] ++ rh ++ rm ++ rt⟩) := by
    unfold spiffsHalWrite
    simp only [hhead, hmid, htail, combineAt_parts mem _ flash addr size src h]
  rw [heq]
  refine ⟨rfl, fun i hi => ?_, fun j hj => ?_, fun q hq => ?_⟩
  · simp only
    rw [ByteMem.combineAt_of_mem _ _ _ _ _ (by simpa using hi), ByteMem.getElem_slice]
  · exact ByteMem.combineAt_of_not_mem _ _ _ _ _ (by simpa using hj)
  · simp only [List.nil_append, List.mem_append] at hq
    rcases hq with (hq | hq) | hq
    · exact hrh q hq
    · exact hrm q hq
    · exact hrt q hq

/-- A source of another alignment with more than one buffer of whole words
is read out of bounds. -/
theorem not_writesExactly_of_pieces (hsdk : sdk.Clears) (flash : ByteMem) (addr size src : ℕ)
    (h : addr + size + 3 < 2 ^ 32) (hal : src % 4 ≠ addr % 4)
    (hlong : unalignedWriteBufferSize < alignedEnd addr size - alignedBegin addr) :
    ¬ WritesExactly mem flash addr size src (spiffsHalWrite sdk mem flash addr size src) := by
  intro hex
  obtain ⟨hle, hlt, hbdvd⟩ := alignedBegin_spec addr (by omega)
  obtain ⟨hdvd, hble, hcase⟩ := alignedEnd_spec h
  have hbuf : unalignedWriteBufferSize = 512 := rfl
  obtain ⟨rh, hhead, -⟩ := writeHead_eq mem hsdk addr size src (by omega) ⟨flash, []⟩
  generalize hs : (⟨_, [] ++ rh⟩ : State) = s at hhead
  have hmid : writeMiddle sdk mem addr size src s
      = writePieces sdk mem (alignedBegin addr) (src + alignedBegin addr - addr)
          (alignedEnd addr size - alignedBegin addr) s := by
    unfold writeMiddle
    rw [if_pos (by omega)]
    exact if_neg (by omega)
  obtain ⟨q, n, hmem, -, hfar⟩ := exists_read_of_writePieces mem hsdk (alignedBegin addr)
    (src + alignedBegin addr - addr) (alignedEnd addr size - alignedBegin addr) s hbdvd
    (by omega) (by omega)
  have hread : (q, n) ∈ (spiffsHalWrite sdk mem flash addr size src).2.reads := by
    unfold spiffsHalWrite
    simp only [hhead, hmid]
    generalize writePieces sdk mem (alignedBegin addr) (src + alignedBegin addr - addr)
      (alignedEnd addr size - alignedBegin addr) s = r at hmem
    obtain ⟨b, s'⟩ := r
    cases b with
    | false => exact hmem
    | true =>
      have ht := writeTail_reads mem hsdk addr size src h s'
      simp only
      generalize writeTail sdk mem addr size src s' = r at ht
      obtain ⟨b, s''⟩ := r
      obtain ⟨rfl, hsub⟩ := ht
      exact hsub _ hmem
  have := (hex.within (q, n) hread).2
  have := hfar hlong
  omega

/-- **`spiffs_hal_write` is exact for one kind of input only**: where the
source pointer has the alignment of the flash address, or where the whole
words between the two boundaries fit the 512-byte buffer. -/
theorem spiffsHalWrite_exact_iff (hsdk : sdk.Clears) (flash : ByteMem) (addr size src : ℕ)
    (h : addr + size + 3 < 2 ^ 32) :
    WritesExactly mem flash addr size src (spiffsHalWrite sdk mem flash addr size src)
      ↔ src % 4 = addr % 4 ∨
        alignedEnd addr size - alignedBegin addr ≤ unalignedWriteBufferSize := by
  constructor
  · intro hex
    by_contra hno
    obtain ⟨hal, hlong⟩ := not_or.mp hno
    exact not_writesExactly_of_pieces mem hsdk flash addr size src h hal
      (Nat.lt_of_not_le hlong) hex
  · exact writesExactly_of_fits mem hsdk flash addr size src h

/-- The documented SDK call, as a function. -/
def clearingFlash : SpiFlashWrite := fun f a d => (0, f.combineAt (· &&& ·) a d)

theorem clears_clearingFlash : clearingFlash.Clears := fun _ _ _ _ _ => rfl

/-- Six bytes from an odd source to flash address 1: a head of three bytes,
no whole word and a tail of three, each from its own padded word. -/
theorem spiffsHalWrite_exact_six :
    SpiFlashWrite.Clears clearingFlash ∧
      WritesExactly UInt8.ofNat (fun _ => 0xff) 1 6 3
        (spiffsHalWrite clearingFlash UInt8.ofNat (fun _ => 0xff) 1 6 3) :=
  ⟨clears_clearingFlash,
    (spiffsHalWrite_exact_iff UInt8.ofNat clears_clearingFlash (fun _ => 0xff) 1 6 3
      (by decide)).mpr (Or.inr (by decide))⟩

/-- **516 bytes from an odd source to flash address 0** are not written
exactly: the last word is read 1536 bytes beyond the source. -/
theorem spiffsHalWrite_not_exact_516 :
    ¬ WritesExactly (fun _ => 0) (fun _ => 0xff) 0 516 1
      (spiffsHalWrite clearingFlash (fun _ => 0) (fun _ => 0xff) 0 516 1) :=
  not_writesExactly_of_pieces (fun _ => 0) clears_clearingFlash (fun _ => 0xff) 0 516 1
    (by decide) (by decide) (by decide)

end SpiffsHal
