import Esp31b.Block
import Esp31b.BoundedQueue
import Esp31b.Transducer
import Mathlib.Order.Nat

/-!
# `cbuf`

A circular buffer in a block of `size` bytes, with pointers to the next byte to
be read and to the next free place. One place is always free, so that equal
pointers mean that nothing is queued.

The queue lies in one piece, or its front lies at the end of the block and the
rest at the start (`Cbuf.Layout`). Every operation on several bytes splits at
the end of the block with a condition of its own, and what it does is to move
between these two.
-/

/-- `cbuf`. Pointers are offsets from `_buf`, and `bufend` is that of
`_bufend`. -/
structure Cbuf where
  size : ℕ
  buf : List UInt8
  bufend : ℕ
  begin : ℕ
  «end» : ℕ
  deriving DecidableEq, Repr

namespace Cbuf

/-- The buffer as constructed, around the bytes `new` has returned. -/
def init (buf : List UInt8) : Cbuf := ⟨buf.length, buf, buf.length, 0, 0⟩

/-- A `size_t` less one. -/
def pred (n : ℕ) : ℕ := (n + 2 ^ 32 - 1) % 2 ^ 32

/-- `wrap_if_bufend`. -/
def wrapIfBufend (c : Cbuf) (ptr : ℕ) : ℕ := if ptr = c.bufend then 0 else ptr

/-- `empty`. -/
def empty (c : Cbuf) : Bool := c.begin = c.end

/-- `full`. -/
def full (c : Cbuf) : Bool := c.wrapIfBufend (c.end + 1) = c.begin

/-- `available`. -/
def available (c : Cbuf) : ℕ :=
  if c.end ≥ c.begin then c.end - c.begin else c.size - (c.begin - c.end)

/-- `room`. -/
def room (c : Cbuf) : ℕ :=
  if c.end ≥ c.begin then pred (c.size - (c.end - c.begin)) else pred (c.begin - c.end)

/-- How much of a request there is. -/
def atMost (size bytesAvailable : ℕ) : ℕ :=
  if size < bytesAvailable then size else bytesAvailable

/-- `peek()`, where `none` is the -1 of an empty buffer. -/
def peek (c : Cbuf) : Option (Option UInt8) :=
  if c.empty then some none
  else do
    let bytes ← Block.read c.buf c.begin 1
    return bytes.head?

/-- `peek(dst, size)`: what is returned, and the bytes put into `dst`. -/
def peekInto (c : Cbuf) (size : ℕ) : Option (ℕ × List UInt8) := do
  let sizeToRead := atMost size c.available
  if c.end < c.begin ∧ sizeToRead > c.bufend - c.begin then
    let topSize := c.bufend - c.begin
    let top ← Block.read c.buf c.begin topSize
    let rest ← Block.read c.buf 0 (sizeToRead - topSize)
    return (sizeToRead, top ++ rest)
  else
    let bytes ← Block.read c.buf c.begin sizeToRead
    return (sizeToRead, bytes)

/-- `read()`. -/
def read (c : Cbuf) : Option (Option UInt8 × Cbuf) :=
  if c.empty then some (none, c)
  else do
    let bytes ← Block.read c.buf c.begin 1
    return (bytes.head?, { c with begin := c.wrapIfBufend (c.begin + 1) })

/-- `read(dst, size)`. -/
def readInto (c : Cbuf) (size : ℕ) : Option (ℕ × List UInt8 × Cbuf) := do
  let sizeToRead := atMost size c.available
  if c.end < c.begin ∧ sizeToRead > c.bufend - c.begin then
    let topSize := c.bufend - c.begin
    let top ← Block.read c.buf c.begin topSize
    let rest ← Block.read c.buf 0 (sizeToRead - topSize)
    return (sizeToRead, top ++ rest, { c with begin := c.wrapIfBufend (sizeToRead - topSize) })
  else
    let bytes ← Block.read c.buf c.begin sizeToRead
    return (sizeToRead, bytes, { c with begin := c.wrapIfBufend (c.begin + sizeToRead) })

/-- `write(c)`. -/
def write (c : Cbuf) (ch : UInt8) : Option (ℕ × Cbuf) :=
  if c.full then some (0, c)
  else do
    let buf ← Block.write c.buf c.end [ch]
    return (1, { c with buf := buf, «end» := c.wrapIfBufend (c.end + 1) })

/-- `write(src, size)`, `size` being the length of `src`. -/
def writeFrom (c : Cbuf) (src : List UInt8) : Option (ℕ × Cbuf) := do
  let sizeToWrite := atMost src.length c.room
  if c.end ≥ c.begin ∧ sizeToWrite > c.bufend - c.end then
    let topSize := c.bufend - c.end
    let buf ← Block.write c.buf c.end (src.take topSize)
    let buf ← Block.write buf 0 ((src.take sizeToWrite).drop topSize)
    return (sizeToWrite, { c with buf := buf, «end» := c.wrapIfBufend (sizeToWrite - topSize) })
  else
    let buf ← Block.write c.buf c.end (src.take sizeToWrite)
    return (sizeToWrite, { c with buf := buf, «end» := c.wrapIfBufend (c.end + sizeToWrite) })

/-- `flush`. -/
def flush (c : Cbuf) : Cbuf := { c with begin := 0, «end» := 0 }

/-- `remove`. -/
def remove (c : Cbuf) (size : ℕ) : ℕ × Cbuf :=
  if size ≥ c.available then (0, c.flush)
  else
    let sizeToRemove := atMost size c.available
    let c :=
      if c.end < c.begin ∧ sizeToRemove > c.bufend - c.begin then
        { c with begin := c.wrapIfBufend (sizeToRemove - (c.bufend - c.begin)) }
      else { c with begin := c.wrapIfBufend (c.begin + sizeToRemove) }
    (c.available, c)

/-- The bytes between the pointers, the next one to be read first. -/
def contents (c : Cbuf) : List UInt8 :=
  if c.end ≥ c.begin then (c.buf.drop c.begin).take (c.end - c.begin)
    else c.buf.drop c.begin ++ c.buf.take c.end

/-! ## Where the queue lies -/

/-- **The queue in a block**: in one piece, with free places behind it, or
around the end, with free places between. -/
inductive Layout : List UInt8 → ℕ → ℕ → List UInt8 → Prop where
  | straight (before q after : List UInt8) (hafter : after ≠ []) :
    Layout (before ++ q ++ after) before.length (before.length + q.length) q
  | wrapped (back gap front : List UInt8) (hgap : gap ≠ []) (hfront : front ≠ []) :
    Layout (back ++ gap ++ front) (back.length + gap.length) back.length (front ++ back)

/-- **The buffer has these bytes queued.** -/
structure Holds (c : Cbuf) (q : List UInt8) : Prop where
  size : c.size = c.buf.length
  bufend : c.bufend = c.buf.length
  fits : c.buf.length < 2 ^ 32
  layout : Layout c.buf c.begin c.end q

variable {c : Cbuf} {buf q src : List UInt8} {b e n : ℕ}

/-- **Both pointers stay in the block**, and one place stays free. -/
theorem Layout.bounds (h : Layout buf b e q) : b < buf.length ∧ e < buf.length ∧
    q.length < buf.length := by
  cases h with
  | straight before q after hafter =>
    have := List.length_pos_iff.mpr hafter
    simp only [List.length_append]
    omega
  | wrapped back gap front hgap hfront =>
    have := List.length_pos_iff.mpr hgap
    have := List.length_pos_iff.mpr hfront
    simp only [List.length_append]
    omega

/-- What is to be read when nothing is split off. -/
theorem Layout.of_le (h : Layout buf b e q) (hbe : b ≤ e) :
    ∃ before after, after ≠ [] ∧ buf = before ++ q ++ after ∧ b = before.length ∧
      e = before.length + q.length := by
  cases h with
  | straight before q after hafter => exact ⟨before, after, hafter, rfl, rfl, rfl⟩
  | wrapped back gap front hgap hfront =>
    have := List.length_pos_iff.mpr hgap
    omega

theorem Layout.of_lt (h : Layout buf b e q) (heb : e < b) :
    ∃ back gap front, gap ≠ [] ∧ front ≠ [] ∧ buf = back ++ gap ++ front ∧
      b = back.length + gap.length ∧
      e = back.length ∧ q = front ++ back := by
  cases h with
  | straight before q after hafter => omega
  | wrapped back gap front hgap hfront =>
      exact ⟨back, gap, front, hgap, hfront, rfl, rfl, rfl, rfl⟩

theorem Holds.available (h : Holds c q) : c.available = q.length := by
  unfold Cbuf.available
  rw [h.size]
  split
  · rename_i hle
    obtain ⟨before, after, -, -, hb, he⟩ := h.layout.of_le hle
    omega
  · rename_i hlt
    obtain ⟨back, gap, front, -, -, hbuf, hb, he, rfl⟩ := h.layout.of_lt (by omega)
    rw [hbuf, hb, he]
    simp only [List.length_append]
    omega

/-- **What is queued** is what lies between the pointers. -/
theorem Holds.contents (h : Holds c q) : c.contents = q := by
  unfold Cbuf.contents
  split
  · rename_i hle
    obtain ⟨before, after, -, hbuf, hb, he⟩ := h.layout.of_le hle
    rw [hbuf, hb, he, List.append_assoc, List.drop_left, Nat.add_sub_cancel_left,
      List.take_left]
  · rename_i hlt
    obtain ⟨back, gap, front, -, -, hbuf, hb, he, rfl⟩ := h.layout.of_lt (by omega)
    rw [hbuf, hb, he, ← List.length_append, List.drop_left, List.append_assoc, List.take_left]

theorem pred_of_pos (hpos : 0 < n) (hlt : n < 2 ^ 32) : pred n = n - 1 := by
  unfold pred
  omega

theorem Holds.room (h : Holds c q) : c.room = c.buf.length - 1 - q.length := by
  have hbounds := h.layout.bounds
  have hfits := h.fits
  unfold Cbuf.room
  rw [h.size]
  split
  · rename_i hle
    obtain ⟨before, after, -, -, hb, he⟩ := h.layout.of_le hle
    rw [pred_of_pos (by omega) (by omega)]
    omega
  · rename_i hlt
    obtain ⟨back, gap, front, -, -, hbuf, hb, he, rfl⟩ := h.layout.of_lt (by omega)
    rw [pred_of_pos (by omega) (by omega), hbuf, hb, he]
    simp only [List.length_append]
    omega

theorem Holds.empty (h : Holds c q) : c.empty = true ↔ q.length = 0 := by
  rw [← h.available]
  have hbounds := h.layout.bounds
  unfold Cbuf.empty Cbuf.available
  rw [decide_eq_true_iff, h.size]
  split <;> omega

theorem Holds.full (h : Holds c q) : c.full = true ↔ q.length = c.buf.length - 1 := by
  have hbounds := h.layout.bounds
  rw [← h.available]
  unfold Cbuf.full wrapIfBufend Cbuf.available
  rw [decide_eq_true_iff, h.size, h.bufend]
  split <;> split <;> omega

/-! ### The next bytes -/

/-- A pointer inside the block is not wrapped. -/
theorem Holds.wrap_of_lt (h : Holds c q) (hn : n < c.buf.length) : c.wrapIfBufend n = n := by
  rw [wrapIfBufend, h.bufend, if_neg (by omega)]

theorem Holds.wrap_length (h : Holds c q) (hn : n = c.buf.length) : c.wrapIfBufend n = 0 := by
  rw [wrapIfBufend, h.bufend, if_pos hn]

/-- **The next bytes lie in one piece.** -/
theorem Holds.read_whole (h : Holds c q) (hn : n ≤ q.length)
    (hwhole : ¬ (c.end < c.begin ∧ n > c.bufend - c.begin)) :
    Block.read c.buf c.begin n = some (q.take n) := by
  rw [h.bufend] at hwhole
  by_cases hle : c.begin ≤ c.end
  · obtain ⟨before, after, -, hbuf, hb, -⟩ := h.layout.of_le hle
    rw [hbuf, hb]
    exact Block.read_append before after hn
  · obtain ⟨back, gap, front, -, -, hbuf, hb, -, rfl⟩ := h.layout.of_lt (by omega)
    have hfront : n ≤ front.length := by
      rw [hbuf, hb] at hwhole
      simp only [List.length_append] at hwhole
      omega
    have hread := Block.read_append (back ++ gap) [] hfront
    rw [List.append_nil, List.length_append] at hread
    rw [hbuf, hb, hread, List.take_append_of_le_length hfront]

/-- **They go round the end of the block**: the rest is at its start. -/
theorem Holds.read_split (h : Holds c q) (hn : n ≤ q.length)
    (hsplit : c.end < c.begin ∧ n > c.bufend - c.begin) :
    ∃ top rest, Block.read c.buf c.begin (c.bufend - c.begin) = some top ∧
      Block.read c.buf 0 (n - (c.bufend - c.begin)) = some rest ∧ top ++ rest = q.take n := by
  obtain ⟨back, gap, front, -, -, hbuf, hb, -, rfl⟩ := h.layout.of_lt hsplit.1
  have htop : c.bufend - c.begin = front.length := by
    rw [h.bufend, hbuf, hb]
    simp only [List.length_append]
    omega
  rw [htop] at hsplit ⊢
  rw [List.length_append] at hn
  have hread := Block.read_append (back ++ gap) [] (le_refl front.length)
  rw [List.append_nil, List.length_append, List.take_length] at hread
  have hrest := Block.read_append [] (gap ++ front) (by omega : n - front.length ≤ back.length)
  rw [List.nil_append, ← List.append_assoc, List.length_nil] at hrest
  refine ⟨front, back.take (n - front.length), by rw [hbuf, hb, hread], by rw [hbuf, hrest], ?_⟩
  rw [List.take_append, List.take_of_length_le hsplit.2.le]

/-- **Bytes leave**, and the pointer stops in front of the end of the block, or
at its start. -/
theorem Holds.advance_whole (h : Holds c q) (hn : n ≤ q.length)
    (hwhole : ¬ (c.end < c.begin ∧ n > c.bufend - c.begin)) :
    Holds { c with begin := c.wrapIfBufend (c.begin + n) } (q.drop n) := by
  refine ⟨h.size, h.bufend, h.fits, ?_⟩
  rw [h.bufend] at hwhole
  dsimp only
  by_cases hle : c.begin ≤ c.end
  · obtain ⟨before, after, hafter, hbuf, hb, he⟩ := h.layout.of_le hle
    have hbounds := h.layout.bounds
    have hlayout := Layout.straight (before ++ q.take n) (q.drop n) after hafter
    rw [h.wrap_of_lt (by omega), hbuf, hb, he]
    simpa [List.append_assoc, hn, Nat.add_assoc] using hlayout
  · obtain ⟨back, gap, front, hgap, hfront, hbuf, hb, he, rfl⟩ := h.layout.of_lt (by omega)
    have hlen : c.buf.length = back.length + gap.length + front.length := by
      rw [hbuf, List.length_append, List.length_append]
    have hle : n ≤ front.length := by omega
    rw [List.drop_append_of_le_length hle]
    rcases hle.eq_or_lt with heq | hlt
    · -- the front is used up
      rw [h.wrap_length (by omega), heq, List.drop_length, List.nil_append, hbuf, he]
      have hlayout := Layout.straight [] back (gap ++ front)
        (List.append_ne_nil_of_left_ne_nil hgap _)
      simpa [List.append_assoc] using hlayout
    · rw [h.wrap_of_lt (by omega), hbuf, hb, he]
      have hlayout := Layout.wrapped back (gap ++ front.take n) (front.drop n)
        (List.append_ne_nil_of_left_ne_nil hgap _)
        (by rw [ne_eq, List.drop_eq_nil_iff]; omega)
      simpa [List.append_assoc, hle, Nat.add_assoc] using hlayout

theorem Holds.advance_split (h : Holds c q) (hn : n ≤ q.length)
    (hsplit : c.end < c.begin ∧ n > c.bufend - c.begin) :
    Holds { c with begin := c.wrapIfBufend (n - (c.bufend - c.begin)) } (q.drop n) := by
  refine ⟨h.size, h.bufend, h.fits, ?_⟩
  obtain ⟨back, gap, front, hgap, -, hbuf, hb, he, rfl⟩ := h.layout.of_lt hsplit.1
  have hlen : c.buf.length = back.length + gap.length + front.length := by
    rw [hbuf, List.length_append, List.length_append]
  have htop : c.bufend - c.begin = front.length := by
    rw [h.bufend]
    omega
  rw [List.length_append] at hn
  have hpos := List.length_pos_iff.mpr hgap
  dsimp only
  rw [htop] at hsplit ⊢
  obtain ⟨k, rfl⟩ : ∃ k, n = front.length + k := ⟨n - front.length, by omega⟩
  rw [Nat.add_sub_cancel_left, h.wrap_of_lt (by omega), List.drop_length_add_append, hbuf, he]
  have hk : k ≤ back.length := by omega
  have hlayout := Layout.straight (back.take k) (back.drop k) (gap ++ front)
    (List.append_ne_nil_of_left_ne_nil hgap _)
  simpa [List.append_assoc, hk] using hlayout

/-! ### The next places -/

/-- **Bytes are written in one piece.** -/
theorem Holds.write_whole (h : Holds c q) (hsrc : src.length ≤ c.buf.length - 1 - q.length)
    (hwhole : ¬ (c.end ≥ c.begin ∧ src.length > c.bufend - c.end)) :
    ∃ buf, Block.write c.buf c.end src = some buf ∧
      Holds { c with buf := buf, «end» := c.wrapIfBufend (c.end + src.length) } (q ++ src) ∧
      buf.length = c.buf.length := by
  rw [h.bufend] at hwhole
  have hbounds := h.layout.bounds
  suffices hwritten : ∃ buf, Block.write c.buf c.end src = some buf ∧
      Layout buf c.begin (c.wrapIfBufend (c.end + src.length)) (q ++ src) by
    obtain ⟨buf, hwrite, hlayout⟩ := hwritten
    have hlen := Block.length_of_write hwrite
    exact ⟨buf, hwrite,
      ⟨h.size.trans hlen.symm, h.bufend.trans hlen.symm, hlen ▸ h.fits, hlayout⟩, hlen⟩
  by_cases hle : c.begin ≤ c.end
  · obtain ⟨before, after, hafter, hbuf, hb, he⟩ := h.layout.of_le hle
    have hlen : c.buf.length = before.length + q.length + after.length := by
      rw [hbuf, List.length_append, List.length_append]
    have hfit : src.length ≤ after.length := by omega
    have hwrite := Block.write_append (before ++ q) [] hfit
    rw [List.append_nil, List.append_nil, List.length_append] at hwrite
    refine ⟨_, by rw [hbuf, he, hwrite], ?_⟩
    rcases hfit.eq_or_lt with heq | hlt
    · -- up to the end of the block
      have hpos := List.length_pos_iff.mpr hafter
      rw [h.wrap_length (by omega), heq, List.drop_length, List.append_nil, hb,
        List.append_assoc]
      have hlayout := Layout.wrapped [] before (q ++ src) (by rw [← List.length_pos_iff]; omega)
        (by rw [← List.length_pos_iff, List.length_append]; omega)
      simpa using hlayout
    · rw [h.wrap_of_lt (by omega), hb, he]
      have hlayout := Layout.straight before (q ++ src) (after.drop src.length)
        (by rw [ne_eq, List.drop_eq_nil_iff]; omega)
      simpa [List.append_assoc, Nat.add_assoc] using hlayout
  · obtain ⟨back, gap, front, hgap, hfront, hbuf, hb, he, rfl⟩ := h.layout.of_lt (by omega)
    have hlen : c.buf.length = back.length + gap.length + front.length := by
      rw [hbuf, List.length_append, List.length_append]
    have hpos := List.length_pos_iff.mpr hgap
    rw [List.length_append] at hsrc
    have hfit : src.length < gap.length := by omega
    have hwrite := Block.write_append back front hfit.le
    refine ⟨_, by rw [hbuf, he, hwrite], ?_⟩
    rw [h.wrap_of_lt (by omega), hb, he]
    have hlayout := Layout.wrapped (back ++ src) (gap.drop src.length) front
      (by rw [ne_eq, List.drop_eq_nil_iff]; omega)
      hfront
    have hbegin : (back ++ src).length + (gap.drop src.length).length =
        back.length + gap.length := by
      rw [List.length_append, List.length_drop]
      omega
    rw [hbegin] at hlayout
    simpa [List.append_assoc] using hlayout

/-- **They go round the end of the block**, and are queued behind what starts
there. -/
theorem Holds.write_split (h : Holds c q) (hsrc : src.length ≤ c.buf.length - 1 - q.length)
    (hsplit : c.end ≥ c.begin ∧ src.length > c.bufend - c.end) :
    ∃ buf buf', Block.write c.buf c.end (src.take (c.bufend - c.end)) = some buf ∧
      Block.write buf 0 (src.drop (c.bufend - c.end)) = some buf' ∧
      Holds { c with buf := buf', «end» := c.wrapIfBufend (src.length - (c.bufend - c.end)) }
        (q ++ src) ∧
      buf'.length = c.buf.length := by
  obtain ⟨before, after, hafter, hbuf, hb, he⟩ := h.layout.of_le hsplit.1
  have hlen : c.buf.length = before.length + q.length + after.length := by
    rw [hbuf, List.length_append, List.length_append]
  have htop : c.bufend - c.end = after.length := by
    rw [h.bufend]
    omega
  rw [htop] at hsplit ⊢
  have htake : (src.take after.length).length = after.length := by
    rw [List.length_take]
    omega
  have hpos := List.length_pos_iff.mpr hafter
  have hfit : (src.drop after.length).length < before.length := by
    rw [List.length_drop]
    omega
  have hwrite := Block.write_append (before ++ q) [] htake.le
  rw [List.append_nil, List.append_nil, htake, List.drop_length, List.append_nil,
    List.length_append] at hwrite
  have hwrite' := Block.write_append [] (q ++ src.take after.length) hfit.le
  rw [List.nil_append, List.nil_append, ← List.append_assoc before] at hwrite'
  have hlen' := Block.length_of_write hwrite'
  have hlen'' : (before ++ q ++ src.take after.length).length = c.buf.length := by
    rw [List.length_append, List.length_append, htake, hlen]
  refine ⟨_, _, by rw [hbuf, he, hwrite], hwrite', ⟨h.size.trans (hlen'.trans hlen'').symm,
    h.bufend.trans (hlen'.trans hlen'').symm, by dsimp only; rw [hlen', hlen'']; exact h.fits,
    ?_⟩, hlen'.trans hlen''⟩
  dsimp only
  rw [← List.length_drop, h.wrap_of_lt (by omega), hb]
  have hlayout := Layout.wrapped (src.drop after.length)
    (before.drop (src.drop after.length).length)
    (q ++ src.take after.length) (by rw [ne_eq, List.drop_eq_nil_iff]; omega)
    (by rw [← List.length_pos_iff, List.length_append]; omega)
  have hbegin :
      (src.drop after.length).length + (before.drop (src.drop after.length).length).length
      = before.length := by
    simp only [List.length_drop] at hfit ⊢
    omega
  rwa [hbegin, List.append_assoc q, List.take_append_drop] at hlayout

/-! ## What the operations do -/

theorem atMost_eq (m n : ℕ) : atMost m n = min m n := by
  unfold atMost
  split <;> omega

theorem Holds.peekInto (h : Holds c q) (n : ℕ) :
    c.peekInto n = some (min n q.length, q.take n) := by
  have hle : min n q.length ≤ q.length := Nat.min_le_right _ _
  have htake : q.take (min n q.length) = q.take n := List.take_eq_take_min.symm
  unfold Cbuf.peekInto
  simp only [atMost_eq, h.available]
  split
  · rename_i hsplit
    obtain ⟨top, rest, htop, hrest, heq⟩ := h.read_split hle hsplit
    rw [htop, hrest, Option.bind_eq_bind, Option.bind_some, Option.bind_some, heq, htake]
    rfl
  · rename_i hwhole
    rw [h.read_whole hle hwhole, Option.bind_eq_bind, Option.bind_some, htake]
    rfl

theorem Holds.readInto (h : Holds c q) (n : ℕ) :
    ∃ d, c.readInto n = some (min n q.length, q.take n, d) ∧ Holds d (q.drop n) ∧
      d.buf = c.buf := by
  have hle : min n q.length ≤ q.length := Nat.min_le_right _ _
  have htake : q.take (min n q.length) = q.take n := List.take_eq_take_min.symm
  have hdrop : q.drop (min n q.length) = q.drop n := by
    rcases Nat.le_total n q.length with hn | hn
    · rw [Nat.min_eq_left hn]
    · rw [Nat.min_eq_right hn, List.drop_length, List.drop_eq_nil_of_le hn]
  unfold Cbuf.readInto
  simp only [atMost_eq, h.available]
  split
  · rename_i hsplit
    obtain ⟨top, rest, htop, hrest, heq⟩ := h.read_split hle hsplit
    rw [htop, hrest, Option.bind_eq_bind, Option.bind_some, Option.bind_some, heq, htake]
    exact ⟨_, rfl, hdrop ▸ h.advance_split hle hsplit, rfl⟩
  · rename_i hwhole
    rw [h.read_whole hle hwhole, Option.bind_eq_bind, Option.bind_some, htake]
    exact ⟨_, rfl, hdrop ▸ h.advance_whole hle hwhole, rfl⟩

/-- One byte never goes round the end. -/
theorem Holds.one_whole (h : Holds c q) : ¬ (c.end < c.begin ∧ 1 > c.bufend - c.begin) := by
  have hbounds := h.layout.bounds
  rw [h.bufend]
  omega

theorem Holds.peek (h : Holds c q) : c.peek = some q.head? := by
  unfold Cbuf.peek
  split
  · rename_i hempty
    rw [List.eq_nil_of_length_eq_zero (h.empty.mp hempty)]
    rfl
  · rename_i hne
    have hpos : 1 ≤ q.length := Nat.one_le_iff_ne_zero.mpr fun hzero => hne (h.empty.mpr hzero)
    rw [h.read_whole hpos h.one_whole, Option.bind_eq_bind, Option.bind_some, List.head?_take,
      if_neg Nat.one_ne_zero]
    rfl

theorem Holds.read (h : Holds c q) : ∃ d, c.read = some (q.head?, d) ∧ Holds d (q.drop 1) ∧
    d.buf = c.buf := by
  unfold Cbuf.read
  split
  · rename_i hempty
    obtain rfl := List.eq_nil_of_length_eq_zero (h.empty.mp hempty)
    exact ⟨c, rfl, h, rfl⟩
  · rename_i hne
    have hpos : 1 ≤ q.length := Nat.one_le_iff_ne_zero.mpr fun hzero => hne (h.empty.mpr hzero)
    rw [h.read_whole hpos h.one_whole, Option.bind_eq_bind, Option.bind_some, List.head?_take,
      if_neg Nat.one_ne_zero]
    exact ⟨_, rfl, h.advance_whole hpos h.one_whole, rfl⟩

theorem Holds.writeFrom (h : Holds c q) (src : List UInt8) :
    ∃ d, c.writeFrom src = some (min src.length (c.buf.length - 1 - q.length), d) ∧
      Holds d (q ++ src.take (c.buf.length - 1 - q.length)) ∧ d.buf.length = c.buf.length := by
  have hlen : (src.take (c.buf.length - 1 - q.length)).length =
      min src.length (c.buf.length - 1 - q.length) := by
    rw [List.length_take, Nat.min_comm]
  have htake : src.take (min src.length (c.buf.length - 1 - q.length)) =
      src.take (c.buf.length - 1 - q.length) := by
    rw [Nat.min_comm, ← List.take_eq_take_min]
  have hfit : (src.take (c.buf.length - 1 - q.length)).length ≤
      c.buf.length - 1 - q.length := by
    rw [hlen]
    exact Nat.min_le_right _ _
  unfold Cbuf.writeFrom
  simp only [atMost_eq, h.room, htake]
  rw [← hlen]
  split
  · rename_i hsplit
    obtain ⟨buf, buf', hwrite, hwrite', hholds, heq⟩ := h.write_split hfit hsplit
    have htop : (src.take (c.buf.length - 1 - q.length)).take (c.bufend - c.end) =
        src.take (c.bufend - c.end) := by
      rw [List.take_take, Nat.min_eq_left (by rw [hlen] at hsplit; omega)]
    rw [htop] at hwrite
    rw [hwrite, Option.bind_eq_bind, Option.bind_some, hwrite', Option.bind_some]
    exact ⟨_, rfl, hholds, heq⟩
  · rename_i hwhole
    obtain ⟨buf, hwrite, hholds, heq⟩ := h.write_whole hfit hwhole
    rw [hwrite, Option.bind_eq_bind, Option.bind_some]
    exact ⟨_, rfl, hholds, heq⟩

theorem Holds.write (h : Holds c q) (ch : UInt8) :
    ∃ d, c.write ch = some (min 1 (c.buf.length - 1 - q.length), d) ∧
      Holds d (q ++ [ch].take (c.buf.length - 1 - q.length)) ∧ d.buf.length = c.buf.length := by
  have hbounds := h.layout.bounds
  unfold Cbuf.write
  split
  · rename_i hfull
    rw [h.full.mp hfull, Nat.sub_self, Nat.min_zero, List.take_zero, List.append_nil]
    exact ⟨c, rfl, h, rfl⟩
  · rename_i hroom
    have hpos : 1 ≤ c.buf.length - 1 - q.length := by
      have hne := mt h.full.mpr hroom
      omega
    have hsrc : [ch].length ≤ c.buf.length - 1 - q.length := hpos
    obtain ⟨buf, hwrite, hholds, heq⟩ := h.write_whole hsrc
      (by rw [h.bufend, List.length_singleton]; omega)
    rw [hwrite, Option.bind_eq_bind, Option.bind_some, Nat.min_eq_left hpos,
      List.take_of_length_le hpos]
    exact ⟨_, rfl, hholds, heq⟩

theorem Holds.flush (h : Holds c q) : Holds c.flush [] := by
  have hpos := h.layout.bounds.1
  have hlayout := Layout.straight [] [] c.buf (by rw [← List.length_pos_iff]; omega)
  exact ⟨h.size, h.bufend, h.fits, (by simpa using hlayout : Layout c.buf 0 0 [])⟩

theorem Holds.remove (h : Holds c q) (n : ℕ) :
    (c.remove n).1 = q.length - n ∧ Holds (c.remove n).2 (q.drop n) ∧
    (c.remove n).2.buf = c.buf := by
  unfold Cbuf.remove
  rw [h.available, atMost_eq]
  split
  · rename_i hall
    rw [List.drop_eq_nil_of_le hall]
    exact ⟨by omega, h.flush, rfl⟩
  · rename_i hsome
    have hle : n ≤ q.length := by omega
    rw [Nat.min_eq_left hle]
    dsimp only
    split
    · rename_i hsplit
      have hholds := h.advance_split hle hsplit
      exact ⟨hholds.available.trans List.length_drop, hholds, rfl⟩
    · rename_i hwhole
      have hholds := h.advance_whole hle hwhole
      exact ⟨hholds.available.trans List.length_drop, hholds, rfl⟩

/-! ## A bounded queue -/

/-- The operations. -/
inductive Op where
  | write (ch : UInt8)
  | writeFrom (src : List UInt8)
  | read
  | readInto (size : ℕ)
  | peek
  | peekInto (size : ℕ)
  | remove (size : ℕ)
  | flush
  deriving DecidableEq, Repr

/-- What they return, and what they put into a buffer of the caller. -/
inductive Answer where
  | byte (b : Option UInt8)
  | count (n : ℕ)
  | copied (n : ℕ) (dst : List UInt8)
  | done
  deriving DecidableEq, Repr

/-- One operation. -/
def step (c : Cbuf) : Op → Option (Answer × Cbuf)
  | .write ch => (c.write ch).map fun r => (.count r.1, r.2)
  | .writeFrom src => (c.writeFrom src).map fun r => (.count r.1, r.2)
  | .read => c.read.map fun r => (.byte r.1, r.2)
  | .readInto size => (c.readInto size).map fun r => (.copied r.1 r.2.1, r.2.2)
  | .peek => c.peek.map fun r => (.byte r, c)
  | .peekInto size => (c.peekInto size).map fun r => (.copied r.1 r.2, c)
  | .remove size => some (.count (c.remove size).1, (c.remove size).2)
  | .flush => some (.done, c.flush)

/-- **The buffer.** -/
def cbuf : Transducer Cbuf Op Answer := ⟨step⟩

variable {capacity : ℕ}

/-- One operation of a queue. -/
def queueStep (q : BoundedQueue UInt8 capacity) : Op → Answer × BoundedQueue UInt8 capacity
  | .write ch => (.count (min 1 q.room), q.push ch)
  | .writeFrom src => (.count (min src.length q.room), q.pushAll src)
  | .read => (.byte q.items.head?, q.pop)
  | .readInto size => (.copied (min size q.items.length) (q.items.take size), q.drop size)
  | .peek => (.byte q.items.head?, q)
  | .peekInto size => (.copied (min size q.items.length) (q.items.take size), q)
  | .remove size => (.count (q.items.length - size), q.drop size)
  | .flush => (.done, .empty)

/-- **The queue it is to be.** -/
def queue (capacity : ℕ) : Transducer (BoundedQueue UInt8 capacity) Op Answer :=
  ⟨fun q op => some (queueStep q op)⟩

/-- **The buffer is this queue.** -/
structure Refines (c : Cbuf) (q : BoundedQueue UInt8 capacity) : Prop where
  holds : Holds c q.items
  capacity : c.buf.length = capacity + 1

/-- **Every operation does what that of the queue does.** -/
theorem Refines.step {q : BoundedQueue UInt8 capacity} (h : Refines c q) (op : Op) :
    ∃ d, c.step op = some ((queueStep q op).1, d) ∧ Refines d (queueStep q op).2 := by
  have hroom : c.buf.length - 1 - q.items.length = q.room := by
    rw [h.capacity]
    rfl
  cases op with
  | write ch =>
    obtain ⟨d, heq, hholds, hlen⟩ := h.holds.write ch
    rw [hroom] at heq hholds
    exact ⟨d, by rw [Cbuf.step, heq]; rfl, hholds, hlen.trans h.capacity⟩
  | writeFrom src =>
    obtain ⟨d, heq, hholds, hlen⟩ := h.holds.writeFrom src
    rw [hroom] at heq hholds
    exact ⟨d, by rw [Cbuf.step, heq]; rfl, hholds, hlen.trans h.capacity⟩
  | read =>
    obtain ⟨d, heq, hholds, hbuf⟩ := h.holds.read
    exact ⟨d, by rw [Cbuf.step, heq]; rfl, hholds, hbuf ▸ h.capacity⟩
  | readInto size =>
    obtain ⟨d, heq, hholds, hbuf⟩ := h.holds.readInto size
    exact ⟨d, by rw [Cbuf.step, heq]; rfl, hholds, hbuf ▸ h.capacity⟩
  | peek => exact ⟨c, by rw [Cbuf.step, h.holds.peek]; rfl, h⟩
  | peekInto size => exact ⟨c, by rw [Cbuf.step, h.holds.peekInto]; rfl, h⟩
  | remove size =>
    obtain ⟨heq, hholds, hbuf⟩ := h.holds.remove size
    exact ⟨_, by rw [Cbuf.step, heq]; rfl, hholds, hbuf ▸ h.capacity⟩
  | flush => exact ⟨_, rfl, h.holds.flush, h.capacity⟩

/-- **So does every list of operations.** -/
theorem Refines.run {q : BoundedQueue UInt8 capacity} (h : Refines c q) (ops : List Op) :
    ∃ answers d r, cbuf.run c ops = some (answers, d) ∧
      (queue capacity).run q ops = some (answers, r) ∧ Refines d r :=
  Transducer.run_refines (P := fun _ _ => True)
    (fun c q op hR _ => by
      obtain ⟨d, heq, hd⟩ := hR.step op
      exact ⟨_, d, _, heq, rfl, hd⟩)
    h (by
      suffices halong : ∀ (ops : List Op) (c : Cbuf), cbuf.Along (fun _ _ => True)
        c ops from halong ops c
      intro ops
      induction ops with
      | nil => exact fun _ => trivial
      | cons op ops ih => exact fun c => ⟨trivial, fun _ d _ => ih d⟩)

/-! ### Byte by byte -/

/-- Bytes written one by one are counted until the queue is full. -/
theorem queue_run_write (q : BoundedQueue UInt8 capacity) (src : List UInt8) :
    (queue capacity).run q (src.map .write) =
      some (List.replicate (min src.length q.room) (.count 1) ++
        List.replicate (src.length - min src.length q.room) (.count 0), q.pushAll src) := by
  induction src generalizing q with
  | nil =>
    rw [q.pushAll_eq_foldl]
    simp [Transducer.run]
  | cons x src ih =>
    have hroom : (q.push x).room = q.room - 1 := by
      have hitems : (q.push x).items = q.items ++ [x].take q.room := rfl
      simp only [BoundedQueue.room, hitems, List.length_append, List.length_take,
        List.length_singleton]
      omega
    have hpush : (q.push x).pushAll src = q.pushAll (x :: src) := by
      rw [q.pushAll_eq_foldl, List.foldl_cons, ← BoundedQueue.pushAll_eq_foldl]
    have hstep : (queue capacity).step q (.write x) = some (.count (min 1 q.room), q.push x) :=
      rfl
    rw [List.map_cons, Transducer.run, hstep, Option.bind_some, ih, hroom,
      hpush, Option.map_some, List.length_cons]
    rcases Nat.eq_zero_or_pos q.room with hfull | hpos
    · simp [hfull, List.replicate_succ]
    · obtain ⟨k, hk⟩ : ∃ k, q.room = k + 1 := ⟨q.room - 1, by omega⟩
      rw [hk, Nat.add_sub_cancel, Nat.add_min_add_right, Nat.min_eq_left (by omega),
        List.replicate_succ,
        Nat.add_sub_add_right]
      rfl

/-- Bytes read one by one are those in front, until there are no more. -/
theorem queue_run_read (q : BoundedQueue UInt8 capacity) (n : ℕ) :
    (queue capacity).run q (List.replicate n .read) =
      some ((q.items.take n).map (fun b => .byte (some b)) ++ List.replicate
        (n - q.items.length) (.byte none),
        q.drop n) := by
  induction n generalizing q with
  | zero =>
    rw [q.drop_eq_iterate]
    simp [Transducer.run]
  | succ n ih =>
    have hstep : (queue capacity).step q .read = some (.byte q.items.head?, q.pop) := rfl
    have hdrop : q.pop.drop n = q.drop (n + 1) := by
      rw [q.drop_eq_iterate, Function.iterate_succ_apply, ← BoundedQueue.drop_eq_iterate]
    have hitems : q.pop.items = q.items.tail := List.drop_one
    rw [List.replicate_succ, Transducer.run, hstep, Option.bind_some, ih, hdrop,
      Option.map_some, hitems]
    cases q.items with
    | nil => simp [List.replicate_succ]
    | cons x items => simp

/-- **An operation on several bytes** is so many on one: it returns as much, and
leaves the same queued. -/
structure Bulk (c : Cbuf) : Prop where
  writeFrom : ∀ src, ∃ k d e, c.writeFrom src = some (k, d) ∧
    cbuf.run c (src.map .write) =
      some (List.replicate k (.count 1) ++ List.replicate (src.length - k) (.count 0), e) ∧
    d.contents = e.contents
  readInto : ∀ n, ∃ bytes d e, c.readInto n = some (bytes.length, bytes, d) ∧
    cbuf.run c (List.replicate n .read) =
      some (bytes.map (fun b => .byte (some b)) ++ List.replicate (n - bytes.length)
        (.byte none), e) ∧
    d.contents = e.contents
  peekInto : ∀ n, ∃ bytes e, c.peekInto n = some (bytes.length, bytes) ∧
    cbuf.run c (List.replicate n .read) =
      some (bytes.map (fun b => .byte (some b)) ++ List.replicate (n - bytes.length)
        (.byte none), e)
  remove : ∀ n, ∃ answers e, cbuf.run c (List.replicate n .read) = some (answers, e) ∧
    (c.remove n).1 = e.available ∧ (c.remove n).2.contents = e.contents

theorem Refines.bulk {q : BoundedQueue UInt8 capacity} (h : Refines c q) : Bulk c := by
  have hlen : ∀ n, (q.items.take n).length = min n q.items.length := fun n => List.length_take
  have hrest : ∀ n, n - min n q.items.length = n - q.items.length := fun n => by omega
  have hreads : ∀ n, ∃ e, cbuf.run c (List.replicate n .read) =
      some ((q.items.take n).map (fun b => .byte (some b)) ++
        List.replicate (n - (q.items.take n).length) (.byte none), e) ∧
          Refines e (q.drop n) := fun n => by
    obtain ⟨answers, e, r, hrun, hqueue, he⟩ := h.run (List.replicate n .read)
    rw [queue_run_read] at hqueue
    cases hqueue
    exact ⟨e, by rw [hrun, hlen, hrest], he⟩
  refine ⟨fun src => ?_, fun n => ?_, fun n => ?_, fun n => ?_⟩
  · obtain ⟨d, heq, hholds, -⟩ := h.holds.writeFrom src
    obtain ⟨answers, e, r, hrun, hqueue, he⟩ := h.run (src.map .write)
    have hroom : c.buf.length - 1 - q.items.length = q.room := by
      rw [h.capacity]
      rfl
    rw [queue_run_write] at hqueue
    cases hqueue
    rw [hroom] at heq hholds
    exact ⟨_, d, e, heq, hrun, hholds.contents.trans he.holds.contents.symm⟩
  · obtain ⟨d, heq, hholds, -⟩ := h.holds.readInto n
    obtain ⟨e, hrun, he⟩ := hreads n
    exact ⟨_, d, e, by rw [heq, hlen], hrun, hholds.contents.trans he.holds.contents.symm⟩
  · obtain ⟨e, hrun, -⟩ := hreads n
    exact ⟨_, e, by rw [h.holds.peekInto, hlen], hrun⟩
  · obtain ⟨heq, hholds, -⟩ := h.holds.remove n
    obtain ⟨e, hrun, he⟩ := hreads n
    refine ⟨_, e, hrun, ?_, hholds.contents.trans he.holds.contents.symm⟩
    rw [heq, he.holds.available]
    exact List.length_drop.symm

/-- **What is seen of the buffer** is what is seen of the queue, and both
pointers are in the block. -/
structure Shows (c : Cbuf) (q : BoundedQueue UInt8 capacity) : Prop where
  contents : c.contents = q.items
  available : c.available = q.items.length
  room : c.room = capacity - q.items.length
  empty : c.empty = true ↔ q.items.length = 0
  full : c.full = true ↔ q.items.length = capacity
  begin_lt : c.begin < c.size
  end_lt : c.end < c.size

theorem Refines.shows {q : BoundedQueue UInt8 capacity} (h : Refines c q) : Shows c q where
  contents := h.holds.contents
  available := h.holds.available
  room := by rw [h.holds.room, h.capacity, Nat.add_sub_cancel]
  empty := h.holds.empty
  full := by rw [h.holds.full, h.capacity, Nat.add_sub_cancel]
  begin_lt := h.holds.size ▸ h.holds.layout.bounds.1
  end_lt := h.holds.size ▸ h.holds.layout.bounds.2.1

/-- A new buffer is an empty queue. -/
theorem refines_init {buf : List UInt8} (hsize : buf.length = capacity + 1)
    (hfits : buf.length < 2 ^ 32) :
    Refines (init buf) (.empty : BoundedQueue UInt8 capacity) := by
  have hlayout := Layout.straight [] [] buf (by rw [← List.length_pos_iff]; omega)
  exact ⟨⟨rfl, rfl, hfits, (by simpa using hlayout : Layout buf 0 0 [])⟩, hsize⟩

/-- **The circular buffer is a queue** with room for one byte less than its
size, whatever is done with it. -/
theorem cbuf_refines_queue (buf : List UInt8) (hpos : 1 ≤ buf.length)
    (hfits : buf.length < 2 ^ 32)
    (ops : List Op) :
    ∃ answers c q, cbuf.run (init buf) ops = some (answers, c) ∧
      (queue (buf.length - 1)).run .empty ops = some (answers, q) ∧ Shows c q ∧ Bulk c := by
  have hsize : buf.length = buf.length - 1 + 1 := by omega
  obtain ⟨answers, c, q, hrun, hqueue, hR⟩ := (refines_init hsize hfits).run ops
  exact ⟨answers, c, q, hrun, hqueue, hR.shows, hR.bulk⟩

/-- A buffer of three bytes goes round its end. -/
theorem cbuf_refines_queue_three : ∃ answers c q,
    cbuf.run (init [0, 0, 0]) [.writeFrom [1, 2, 3], .read, .write 4, .peekInto 5, .remove 1] =
      some (answers, c) ∧
      (queue 2).run .empty [.writeFrom [1, 2, 3], .read, .write 4, .peekInto 5, .remove 1] =
      some (answers, q) ∧
      Shows c q ∧ Bulk c :=
  cbuf_refines_queue [0, 0, 0] (by decide) (by decide) _

end Cbuf
