import Esp31b.HttpRequest
import Esp31b.StringHolding
import Esp31b.StringValid

/-!
# What `reserve` promises

`reserve` returning 1 says that there is room for so many characters and a NUL.
The size of the block is rounded up in unsigned arithmetic, and for the last
sixteen sizes below `2 ^ 32` it wraps to zero: `malloc` is asked for nothing,
may well succeed, and the capacity is one less than zero.

`StringObject.reserve` has no result there, as the first store leaves the block.
The processor does not stop at that store, so here the same statements go on
behind it, and what is written outside is not in the block. Where nothing is
written outside, both are the same (`reserveUnchecked_of_reserve`).

A server gets there: `HTTPClient::getString` reserves one more than the
Content-Length, which is a signed number of the server's.
-/

/-- **A write that may leave the block**: what falls behind the end of it is
written elsewhere. -/
def Block.spill {α : Type} (b : List α) (p : ℕ) (d : List α) : List α :=
  (b.take p ++ d ++ b.drop (p + d.length)).take b.length

/-- A write inside the block is an ordinary one. -/
theorem Block.spill_of_write {α : Type} {b c d : List α} {p : ℕ}
    (h : Block.write b p d = some c) :
    Block.spill b p d = c := by
  have hinside : p + d.length ≤ b.length := Block.write_isSome.mp (by rw [h]; rfl)
  have hlength : (b.take p ++ d ++ b.drop (p + d.length)).length ≤ b.length := by
    simp only [List.length_append, List.length_take, List.length_drop]
    omega
  rw [Block.spill, List.take_of_length_le hlength]
  exact Option.some.inj ((Block.write_eq hinside).symm.trans h)

namespace StringObject

/-- `changeBuffer`, with writes that may leave the block. -/
def changeBufferUnchecked (s : StringObject) (maxStrLen : ℕ) (malloc : Bool) :
    Bool × StringObject :=
  let newSize := (maxStrLen + 16) % 2 ^ 32 / 16 * 16
  if malloc then
    let old := (s.buffer.getD []).take s.len
    let newbuffer := Block.spill (List.replicate newSize 0) 0 old
    (true, ⟨some newbuffer, (newSize + 2 ^ 32 - 1) % 2 ^ 32, s.len⟩)
  else (false, { s with buffer := none })

/-- `reserve`, with writes that may leave the block. -/
def reserveUnchecked (s : StringObject) (size : ℕ) (malloc : Bool) : Bool × StringObject :=
  if s.buffer.isSome ∧ s.capacity ≥ size then (true, s)
  else
    let (changed, s) := s.changeBufferUnchecked size malloc
    if changed then
      if s.len = 0 then (true, { s with buffer := s.buffer.map fun b => Block.spill b 0 [0] })
      else (true, s)
    else (false, s)

/-- **Room for `size` characters and a NUL**: so much is allocated, and the
capacity says so without going beyond what is allocated. -/
def RoomFor (s : StringObject) (size : ℕ) : Prop :=
  ∃ b, s.buffer = some b ∧ size + 1 ≤ b.length ∧ size ≤ s.capacity ∧ s.capacity + 1 ≤ b.length

/-- **`reserve` keeps its promise**: if it returns 1, there is the room. -/
def KeepsPromise (s : StringObject) (size : ℕ) (malloc : Bool) : Prop :=
  (s.reserveUnchecked size malloc).1 = true → (s.reserveUnchecked size malloc).2.RoomFor size

variable {s t : StringObject} {size : ℕ} {malloc r : Bool}

/-- A valid string has the room its capacity says. -/
theorem Valid.roomFor (hs : s.Valid) (hsome : s.buffer.isSome = true)
    (hroom : size ≤ s.capacity) :
    s.RoomFor size := by
  obtain ⟨b, hb⟩ := Option.isSome_iff_exists.mp hsome
  obtain ⟨hlength, -⟩ := (valid_some hb).mp hs
  exact ⟨b, hb, by omega, hroom, hlength.ge⟩

theorem changeBufferUnchecked_of_changeBuffer
    (h : s.changeBuffer size malloc = some (r, t)) :
    s.changeBufferUnchecked size malloc = (r, t) := by
  unfold changeBuffer at h
  unfold changeBufferUnchecked
  dsimp only at h ⊢
  split at h
  · rename_i hmalloc
    obtain ⟨old, hold, h⟩ := Option.bind_eq_some_iff.mp h
    obtain ⟨newbuffer, hwrite, h⟩ := Option.bind_eq_some_iff.mp h
    have hcontents : (s.buffer.getD []).take s.len = old := by
      unfold load at hold
      split at hold
      · rename_i hzero
        rw [hzero]
        exact Option.some.inj hold
      · obtain ⟨b, hb, hread⟩ := Option.bind_eq_some_iff.mp hold
        rw [hb]
        unfold Block.read at hread
        split at hread
        · exact Option.some.inj hread
        · cases hread
    rw [if_pos hmalloc, hcontents, Block.spill_of_write hwrite]
    exact Option.some.inj h
  · rename_i hmalloc
    rw [if_neg hmalloc]
    exact Option.some.inj h

/-- **Where no write leaves the block**, `reserve` is the checked one. -/
theorem reserveUnchecked_of_reserve (h : s.reserve size malloc = some (r, t)) :
    s.reserveUnchecked size malloc = (r, t) := by
  unfold reserve at h
  unfold reserveUnchecked
  split at h
  · rename_i hroom
    rw [if_pos hroom]
    exact Option.some.inj h
  · rename_i hroom
    rw [if_neg hroom]
    obtain ⟨⟨changed, u⟩, hchange, h⟩ := Option.bind_eq_some_iff.mp h
    rw [changeBufferUnchecked_of_changeBuffer hchange]
    dsimp only at h ⊢
    split at h
    · rename_i hchanged
      rw [if_pos hchanged]
      split at h
      · rename_i hempty
        obtain ⟨v, hstore, h⟩ := Option.bind_eq_some_iff.mp h
        obtain ⟨b, hb, hstore⟩ := Option.bind_eq_some_iff.mp hstore
        obtain ⟨c, hc, hstore⟩ := Option.bind_eq_some_iff.mp hstore
        rw [if_pos hempty, hb, Option.map_some, Block.spill_of_write hc, Option.some.inj hstore]
        exact Option.some.inj h
      · rename_i hempty
        rw [if_neg hempty]
        exact Option.some.inj h
    · rename_i hchanged
      rw [if_neg hchanged]
      exact Option.some.inj h

/-- **Where the rounded size wraps to zero**, a block of no bytes is said to
hold all but one of `2 ^ 32`. -/
theorem not_keepsPromise_of_wraps (hroom : ¬(s.buffer.isSome = true ∧ s.capacity ≥ size))
    (hsize : size < 2 ^ 32) (hwraps : 2 ^ 32 ≤ size + 16) : ¬s.KeepsPromise size true := by
  have hzero : (size + 16) % 2 ^ 32 / 16 * 16 = 0 := by omega
  have hempty : ∀ b, (s.reserveUnchecked size true).2.buffer = some b → b.length = 0 := by
    intro b hb
    unfold reserveUnchecked changeBufferUnchecked at hb
    dsimp only at hb
    rw [if_neg hroom, if_pos rfl, hzero] at hb
    dsimp only at hb
    rw [if_pos rfl] at hb
    split at hb
    · obtain rfl := Option.some.inj hb
      rfl
    · obtain rfl := Option.some.inj hb
      rfl
  intro hkeeps
  have hreturned : (s.reserveUnchecked size true).1 = true := by
    unfold reserveUnchecked changeBufferUnchecked
    dsimp only
    rw [if_neg hroom, if_pos rfl]
    dsimp only
    rw [if_pos rfl]
    split <;> rfl
  obtain ⟨b, hb, hlength, -⟩ := hkeeps hreturned
  rw [hempty b hb] at hlength
  exact absurd hlength (Nat.not_succ_le_zero size)

/-- **When the promise is kept**: there is the room already, or there is no
memory, or the size is not one of the last sixteen. -/
theorem keepsPromise_iff (hs : s.Valid) (hsize : size < 2 ^ 32) :
    s.KeepsPromise size malloc ↔
      (s.buffer.isSome = true ∧ size ≤ s.capacity) ∨ malloc = false ∨ size + 16 < 2 ^ 32 := by
  by_cases hroom : s.buffer.isSome = true ∧ s.capacity ≥ size
  · refine iff_of_true (fun _ => ?_) (Or.inl hroom)
    rw [reserveUnchecked, if_pos hroom]
    exact hs.roomFor hroom.1 hroom.2
  · rw [or_iff_right hroom]
    cases malloc with
    | false =>
      refine iff_of_true (fun hreturned => ?_) (Or.inl rfl)
      rw [reserveUnchecked, if_neg hroom] at hreturned
      cases hreturned
    | true =>
      rw [or_iff_right (by decide)]
      by_cases hfits : size + 16 < 2 ^ 32
      · refine iff_of_true (fun _ => ?_) hfits
        obtain ⟨t, hreserve, hreserved⟩ := exists_reserve hs hfits
        rw [reserveUnchecked_of_reserve hreserve]
        exact hreserved.valid.roomFor hreserved.isSome hreserved.room
      · exact iff_of_false (not_keepsPromise_of_wraps hroom hsize (by omega)) hfits

end StringObject

/-! ## The size a server sends -/

theorem clampLong_mem (v : ℤ) : -2 ^ 31 ≤ clampLong v ∧ clampLong v < 2 ^ 31 := by
  unfold clampLong
  omega

/-- A number read from a text is a `long`. -/
theorem atol_mem (s : List UInt8) : -2 ^ 31 ≤ atol s ∧ atol s < 2 ^ 31 := clampLong_mem _

namespace HTTPClient

/-- `_size + 1` as the argument of `reserve`, an `unsigned int`. -/
def reserveArgument (size : ℤ) : ℕ := ((size + 1) % 2 ^ 32).toNat

open StringObject

/-- The `StreamString` of `getString` before anything is reserved: sixteen
bytes, or none if there was no memory for them. -/
theorem sstring_cases {malloc : Bool} {sstring : StringObject}
    (h : ofText (some []) malloc = some sstring) :
    sstring.Valid ∧ sstring.capacity ≤ 15 := by
  cases malloc with
  | true =>
    obtain rfl : holding [] 15 = sstring := Option.some.inj (Eq.trans (by decide) h)
    exact ⟨valid_holding (Nat.zero_le 15), le_rfl⟩
  | false =>
    obtain rfl : StringObject.init = sstring := Option.some.inj (Eq.trans (by decide) h)
    exact ⟨valid_init, Nat.zero_le 15⟩

/-- **`reserve` promises real space, but for the last sixteen sizes.** For
every valid string and 32-bit size the promise is kept if and only if there is
the room already, there is no memory, or the size is below `2 ^ 32 - 16`; and
for what `getString` reserves, if and only if there is no memory or the
Content-Length is not between -17 and -2. -/
theorem reserve_promises_iff {s : StringObject} {size : ℕ} (malloc : Bool) (hs : s.Valid)
    (hsize : size < 2 ^ 32) :
    (s.KeepsPromise size malloc ↔
      (s.buffer.isSome = true ∧ size ≤ s.capacity) ∨ malloc = false ∨ size + 16 < 2 ^ 32) ∧
    ∀ (headerValue : WString) (malloc₀ : Bool) (sstring : StringObject),
      ofText (some []) malloc₀ = some sstring →
      (sstring.KeepsPromise (reserveArgument headerValue.toInt) malloc ↔
        malloc = false ∨ headerValue.toInt < -17 ∨ -2 < headerValue.toInt) := by
  refine ⟨keepsPromise_iff hs hsize, ?_⟩
  intro headerValue malloc₀ sstring hsstring
  obtain ⟨hvalid, hcapacity⟩ := sstring_cases hsstring
  obtain ⟨hlow, hhigh⟩ := atol_mem headerValue
  have hargument : (reserveArgument headerValue.toInt : ℤ) = (atol headerValue + 1) % 2 ^ 32 :=
    Int.toNat_of_nonneg (Int.emod_nonneg _ (by decide))
  have hlarge : reserveArgument headerValue.toInt + 16 < 2 ^ 32 ↔
      headerValue.toInt < -17 ∨ -2 < headerValue.toInt := by
    show _ ↔ atol headerValue < -17 ∨ -2 < atol headerValue
    omega
  rw [keepsPromise_iff hvalid (by omega), ← hlarge]
  constructor
  · rintro (⟨-, hroom⟩ | h)
    · exact Or.inr (by omega)
    · exact h
  · exact Or.inr

/-- The reserve of a `StreamString` for a page of 100 bytes. -/
theorem reserve_promises_iff_page :
    StringObject.init.KeepsPromise 100 true ∧
      (holding [] 15).KeepsPromise (reserveArgument (WString.toInt (ascii "100"))) true := by
  obtain ⟨hinit, hheader⟩ :=
    reserve_promises_iff true valid_init (by decide : 100 < 2 ^ 32)
  exact ⟨hinit.mpr (Or.inr (Or.inr (by decide))),
    (hheader (ascii "100") true (holding [] 15) (by decide)).mpr (Or.inr (Or.inr (by decide)))⟩

/-- What is known of a response before its first line. -/
def noLines : Response := ⟨-1, -1, false, [], []⟩

/-- **A server that sends `Content-Length: -5`** has `getString` reserve
`2 ^ 32 - 4` bytes: it is told that they are there, with a block of none. -/
theorem reserve_breaks_promise :
    (handleLine noLines (ascii "Content-Length: -5")).size = -5 ∧
      ofText (some []) true = some (holding [] 15) ∧
      (holding [] 15).reserveUnchecked (reserveArgument (-5)) true
        = (true, ⟨some [], 2 ^ 32 - 1, 0⟩) ∧
      ¬(holding [] 15).KeepsPromise (reserveArgument (-5)) true := by
  have hreserve : (holding [] 15).reserveUnchecked (reserveArgument (-5)) true
      = (true, ⟨some [], 2 ^ 32 - 1, 0⟩) := by decide
  refine ⟨by decide, by decide, hreserve, fun hkeeps => ?_⟩
  obtain ⟨b, hb, hlength, -⟩ := hkeeps (congrArg Prod.fst hreserve)
  rw [hreserve] at hb
  obtain rfl := Option.some.inj hb
  exact absurd hlength (Nat.not_succ_le_zero _)

end HTTPClient
