import Esp31b.Cencode
import Esp31b.TextBlock

/-!
# The buffer of `base64::encode`

The text is written to a block that is allocated by an estimate, 1.6 bytes for every byte
and one more, and copied from there. Four characters for every three bytes are less
than that, but a group that is not full has four of them, too: for 1, 2, 4 and 7 bytes the
estimate is too small. From 54 bytes on there is room, and a line feed in the text.
-/

namespace Base64Buffer

open Cencode

/-- What is allocated, `length * 1.6f + 1`. -/
def size (length : ℕ) : ℕ := 8 * length / 5 + 1

/-- **`base64::encode`**, with the block from `malloc`: the `String` that is returned. -/
def encode (buffer data : List UInt8) : Option (List UInt8) := do
  let (code, state) := base64EncodeBlock data base64InitEncodestate
  let buffer ← Block.write buffer 0 code
  let buffer ← Block.write buffer code.length (base64EncodeBlockend state ++ [0])
  Block.text buffer 0

/-- **The encoding is returned**, whatever was in the block. -/
def Encodes (data : List UInt8) : Prop :=
  ∀ buffer : List UInt8, buffer.length = size data.length →
    encode buffer data = some (Base64.encode data)

theorem zero_not_mem (data : List UInt8) : 0 ∉ base64EncodeChars data := by
  have hvalue : ∀ b, base64EncodeValue b ≠ 0 := fun b =>
    (Base64.alphabet_plain _ (base64EncodeValue_mem b)).2.1
  exact fun hmem =>
    forall_base64EncodeChars (P := fun c => c ≠ 0) hvalue (by decide)
      (by decide) data 0 hmem rfl

/-- **What comes of it**, if it fits with its NUL. -/
theorem encode_eq (buffer data : List UInt8) :
    encode buffer data =
      if (base64EncodeChars data).length < buffer.length then some (base64EncodeChars data)
      else none := by
  have hchars : base64EncodeChars data = (base64EncodeBlock data base64InitEncodestate).1 ++
      base64EncodeBlockend (base64EncodeBlock data base64InitEncodestate).2 := rfl
  have hfree := zero_not_mem data
  unfold encode
  rw [hchars] at hfree ⊢
  generalize base64EncodeBlock data base64InitEncodestate = written at hfree ⊢
  obtain ⟨code, state⟩ := written
  dsimp only at hfree ⊢
  generalize base64EncodeBlockend state = rest at hfree ⊢
  rw [List.length_append]
  split
  · rename_i hfits
    obtain ⟨b₁, hcode⟩ := Option.isSome_iff_exists.mp (Block.write_isSome.mpr
      (by omega : 0 + code.length ≤ buffer.length))
    have hlength := Block.length_of_write hcode
    obtain ⟨b₂, hrest⟩ := Option.isSome_iff_exists.mp (Block.write_isSome.mpr
      (by rw [List.length_append, List.length_singleton]; omega :
        code.length + (rest ++ [0]).length ≤ b₁.length))
    have htake := Block.take_add_of_write hcode
    have hall := Block.take_add_of_write hrest
    rw [Nat.zero_add, List.take_zero, List.nil_append] at htake
    rw [htake, ← List.append_assoc] at hall
    have htext : Block.text b₂ 0 = some (code ++ rest) := by
      refine Block.text_eq_some_iff.mpr
        ⟨hfree, b₂.drop (code.length + (rest ++ [0]).length), ?_⟩
      rw [List.drop_zero]
      calc b₂ = code ++ rest ++ [0] ++ b₂.drop (code.length + (rest ++ [0]).length) := by
            rw [← hall, List.take_append_drop]
        _ = _ := by rw [List.append_assoc _ [0]]; rfl
    rw [hcode, Option.bind_eq_bind, Option.bind_some, hrest, Option.bind_some, htext]
  · -- The NUL is the last thing that is written.
    rename_i hlong
    cases hcode : Block.write buffer 0 code with
    | none => rfl
    | some b₁ =>
      have hlength := Block.length_of_write hcode
      have hrest : Block.write b₁ code.length (rest ++ [0]) = none :=
        if_neg (by rw [List.length_append, List.length_singleton]; omega)
      rw [Option.bind_eq_bind, Option.bind_some, hrest]
      rfl

/-- **There is room** but for these lengths. -/
theorem fits_iff (data : List UInt8) :
    (base64EncodeChars data).length < size data.length ↔ data.length ∉ [1, 2, 4, 7] := by
  have hlengths : data.length ∉ [1, 2, 4, 7] ↔
      data.length ≠ 1 ∧ data.length ≠ 2 ∧ data.length ≠ 4 ∧ data.length ≠ 7 := by simp
  rw [hlengths, length_base64EncodeChars, size]
  omega

/-- **`base64::encode` is right** for these lengths, and no other. -/
theorem encodes_iff (data : List UInt8) :
    Encodes data ↔ data.length ≤ 53 ∧ data.length ∉ [1, 2, 4, 7] := by
  have hlengths : data.length ∉ [1, 2, 4, 7] ↔
      data.length ≠ 1 ∧ data.length ≠ 2 ∧ data.length ≠ 4 ∧ data.length ≠ 7 := by simp
  rw [hlengths]
  have hencoding := Base64.length_encode data
  constructor
  · intro h
    have hsome := h (List.replicate (size data.length) 0) List.length_replicate
    rw [encode_eq, List.length_replicate] at hsome
    split at hsome
    · rename_i hfits
      have hchars := Option.some.inj hsome
      have hshort : data.length ≤ 53 := by
        by_contra hlong
        have hfeed := lineFeed_mem_base64EncodeChars (by omega : 54 ≤ data.length)
        rw [hchars] at hfeed
        exact absurd (Base64.printable_of_mem_encode hfeed).1 (by decide)
      rw [hchars, size] at hfits
      omega
    · cases hsome
  · rintro ⟨hshort, hne⟩ buffer hbuffer
    rw [encode_eq, base64EncodeChars_eq hshort, if_pos (by rw [hbuffer, size]; omega)]

/-- One byte is four characters, in a block of two bytes. -/
theorem not_encodes_singleton : ¬ Encodes [97] := by
  intro h
  have hout : encode [0, 0] [97] = none := by decide
  rw [h [0, 0] rfl] at hout
  cases hout

end Base64Buffer
