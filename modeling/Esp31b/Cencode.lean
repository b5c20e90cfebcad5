import Esp31b.Base64

/-!
# libb64's encoder

`base64_encode_block` is a coroutine: a `switch` jumps into the middle of a
loop, so the encoder can be left and entered again after any byte. Per byte
that is a state machine with three steps, and it is modelled as such.
`base64_encode_blockend` writes what is left and the padding.

The encoder breaks lines: after every 18 groups, 72 characters, it writes a
line feed, also when nothing follows. Up to 53 bytes there is none and the
output is the RFC 4648 encoding (`base64EncodeChars_eq`); from 54 on there is
one (`lineFeed_mem_base64EncodeChars`).
-/

namespace Cencode

/-- `base64_encodestep`. -/
inductive EncodeStep where
  | stepA
  | stepB
  | stepC
  deriving DecidableEq, Repr

/-- `base64_encodestate`. -/
structure EncodeState where
  step : EncodeStep
  result : UInt8
  stepcount : ℕ
  deriving DecidableEq, Repr

/-- `CHARS_PER_LINE`. -/
def charsPerLine : ℕ := 72

/-- `base64_init_encodestate`. -/
def base64InitEncodestate : EncodeState := ⟨.stepA, 0, 0⟩

/-- `base64_encode_value`. -/
def base64EncodeValue (valueIn : UInt8) : UInt8 :=
  if valueIn > 63 then 0x3D
  else (ascii "ABCDEFGHIJKLMNOPQRSTUVWXYZabcdefghijklmnopqrstuvwxyz0123456789+/").getD
    valueIn.toNat 0

/-- `base64_encode_block`: what it writes and the state it leaves. -/
def base64EncodeBlock : List UInt8 → EncodeState → List UInt8 × EncodeState
  | [], st => ([], st)
  | fragment :: rest, st =>
    match st.step with
    | .stepA =>
      let (out, st) := base64EncodeBlock rest ⟨.stepB, (fragment &&& 0x03) <<< 4, st.stepcount⟩
      (base64EncodeValue ((fragment &&& 0xFC) >>> 2) :: out, st)
    | .stepB =>
      let result := st.result ||| (fragment &&& 0xF0) >>> 4
      let (out, st) := base64EncodeBlock rest ⟨.stepC, (fragment &&& 0x0F) <<< 2, st.stepcount⟩
      (base64EncodeValue result :: out, st)
    | .stepC =>
      let result := st.result ||| (fragment &&& 0xC0) >>> 6
      let last := fragment &&& 0x3F
      let full := st.stepcount + 1 = charsPerLine / 4
      let (out, st) :=
        base64EncodeBlock rest ⟨.stepA, last, if full then 0 else st.stepcount + 1⟩
      (base64EncodeValue result :: base64EncodeValue last ::
        ((if full then [0x0A] else []) ++ out), st)

/-- `base64_encode_blockend`. -/
def base64EncodeBlockend (st : EncodeState) : List UInt8 :=
  match st.step with
  | .stepA => []
  | .stepB => [base64EncodeValue st.result, 0x3D, 0x3D]
  | .stepC => [base64EncodeValue st.result, 0x3D]

/-- `base64_encode_chars`: the characters before the closing NUL. -/
def base64EncodeChars (plaintext : List UInt8) : List UInt8 :=
  let (out, st) := base64EncodeBlock plaintext base64InitEncodestate
  out ++ base64EncodeBlockend st

/-- What is written from a state on. -/
def writtenFrom (s : List UInt8) (st : EncodeState) : List UInt8 :=
  (base64EncodeBlock s st).1 ++ base64EncodeBlockend (base64EncodeBlock s st).2

/-! ## The bit fields -/

/-- The high bits of a byte, moved down by `s`. -/
theorem toNat_and_shiftRight {m : UInt8} {s : ℕ} (hs : s < 8)
    (hmask : m.toNat >>> s = 2 ^ (8 - s) - 1) (a : UInt8) :
    ((a &&& m) >>> UInt8.ofNat s).toNat = a.toNat / 2 ^ s := by
  have hlt : a.toNat / 2 ^ s < 2 ^ (8 - s) := by
    rw [Nat.div_lt_iff_lt_mul (Nat.two_pow_pos s), ← pow_add, Nat.sub_add_cancel hs.le]
    exact a.toNat_lt
  have hshift : (UInt8.ofNat s).toNat % 8 = s := by
    rw [UInt8.toNat_ofNat', Nat.mod_mod_of_dvd s (by decide), Nat.mod_eq_of_lt hs]
  rw [UInt8.toNat_shiftRight, hshift, UInt8.toNat_and, Nat.shiftRight_and_distrib, hmask,
    Nat.and_two_pow_sub_one_eq_mod, Nat.shiftRight_eq_div_pow, Nat.mod_eq_of_lt hlt]

/-- The low `n` bits of a byte. -/
theorem toNat_and_low {m : UInt8} {n : ℕ} (hmask : m.toNat = 2 ^ n - 1) (a : UInt8) :
    (a &&& m).toNat = a.toNat % 2 ^ n := by
  rw [UInt8.toNat_and, hmask, Nat.and_two_pow_sub_one_eq_mod]

/-- The low `n` bits of a byte, moved up by `s`. -/
theorem toNat_and_shiftLeft {m : UInt8} {n s : ℕ} (hs : s < 8) (hn : n + s ≤ 8)
    (hmask : m.toNat = 2 ^ n - 1) (a : UInt8) :
    ((a &&& m) <<< UInt8.ofNat s).toNat = 2 ^ s * (a.toNat % 2 ^ n) := by
  have hlow : a.toNat % 2 ^ n < 2 ^ n := Nat.mod_lt _ (Nat.two_pow_pos n)
  have hlt : a.toNat % 2 ^ n * 2 ^ s < 2 ^ 8 :=
    calc a.toNat % 2 ^ n * 2 ^ s < 2 ^ n * 2 ^ s :=
      Nat.mul_lt_mul_of_pos_right hlow (Nat.two_pow_pos s)
      _ = 2 ^ (n + s) := (pow_add 2 n s).symm
      _ ≤ 2 ^ 8 := Nat.pow_le_pow_right (by decide) hn
  have hshift : (UInt8.ofNat s).toNat % 8 = s := by
    rw [UInt8.toNat_ofNat', Nat.mod_mod_of_dvd s (by decide), Nat.mod_eq_of_lt hs]
  rw [UInt8.toNat_shiftLeft, hshift, toNat_and_low hmask, Nat.shiftLeft_eq,
    Nat.mod_eq_of_lt hlt, Nat.mul_comm]

theorem base64EncodeValue_eq (b : UInt8) (h : b.toNat < 64) :
    base64EncodeValue b = Base64.char b.toNat := by
  have hsmall : ¬ b > 63 := fun hlarge => absurd (UInt8.lt_iff_toNat_lt.mp hlarge) (by
    rw [show (63 : UInt8).toNat = 63 from rfl]
    omega)
  have hget : Base64.alphabet[b.toNat]? = some Base64.alphabet[b.toNat] :=
    List.getElem?_eq_getElem h
  rw [base64EncodeValue, if_neg hsmall, Base64.char, List.getD_eq_getElem?_getD,
    List.getD_eq_getElem?_getD, hget]
  exact congrArg (fun v => Option.getD v 0) hget

/-- Whatever the value is, the character is one of an encoding. -/
theorem base64EncodeValue_mem (b : UInt8) :
    base64EncodeValue b ∈ Base64.pad :: Base64.alphabet := by
  by_cases h : b > 63
  · rw [base64EncodeValue, if_pos h]
    exact List.mem_cons_self
  · have hlt : b.toNat < 64 := by
      have := mt UInt8.lt_iff_toNat_lt.mpr h
      rw [show (63 : UInt8).toNat = 63 from rfl] at this
      omega
    have hget : Base64.alphabet[b.toNat]? = some Base64.alphabet[b.toNat] :=
      List.getElem?_eq_getElem hlt
    rw [base64EncodeValue_eq b hlt, Base64.char, List.getD_eq_getElem?_getD, hget]
    exact List.mem_cons_of_mem _ (List.getElem_mem hlt)

theorem high_six (a : UInt8) : ((a &&& 0xFC) >>> 2).toNat = a.toNat / 4 :=
  toNat_and_shiftRight (m := 0xFC) (s := 2) (by decide) rfl a

theorem low_two (a : UInt8) : ((a &&& 0x03) <<< 4).toNat = 2 ^ 4 * (a.toNat % 4) :=
  toNat_and_shiftLeft (m := 0x03) (n := 2) (s := 4) (by decide) (by decide) rfl a

theorem high_four (b : UInt8) : ((b &&& 0xF0) >>> 4).toNat = b.toNat / 16 :=
  toNat_and_shiftRight (m := 0xF0) (s := 4) (by decide) rfl b

theorem low_four (b : UInt8) : ((b &&& 0x0F) <<< 2).toNat = 2 ^ 2 * (b.toNat % 16) :=
  toNat_and_shiftLeft (m := 0x0F) (n := 4) (s := 2) (by decide) (by decide) rfl b

theorem high_two (c : UInt8) : ((c &&& 0xC0) >>> 6).toNat = c.toNat / 64 :=
  toNat_and_shiftRight (m := 0xC0) (s := 6) (by decide) rfl c

theorem low_six (c : UInt8) : (c &&& 0x3F).toNat = c.toNat % 64 :=
  toNat_and_low (m := 0x3F) (n := 6) rfl c

theorem middle_ab (a b : UInt8) :
    ((a &&& 0x03) <<< 4 ||| (b &&& 0xF0) >>> 4).toNat =
    2 ^ 4 * (a.toNat % 4) + b.toNat / 16 := by
  have hb := b.toNat_lt
  rw [UInt8.toNat_or, low_two, high_four, Nat.two_pow_add_eq_or_of_lt (by omega)]

theorem middle_bc (b c : UInt8) :
    ((b &&& 0x0F) <<< 2 ||| (c &&& 0xC0) >>> 6).toNat =
    2 ^ 2 * (b.toNat % 16) + c.toNat / 64 := by
  have hc := c.toNat_lt
  rw [UInt8.toNat_or, low_four, high_two, Nat.two_pow_add_eq_or_of_lt (by omega)]

/-! The characters written for the fields of a group, a field that is cut off
by the end of the data included. -/

theorem value_high_six (a : UInt8) :
    base64EncodeValue ((a &&& 0xFC) >>> 2) = Base64.char (a.toNat / 4) := by
  have ha := a.toNat_lt
  rw [base64EncodeValue_eq _ (by rw [high_six]; omega), high_six]

theorem value_middle_ab (a b : UInt8) :
    base64EncodeValue ((a &&& 0x03) <<< 4 ||| (b &&& 0xF0) >>> 4)
      = Base64.char (2 ^ 4 * (a.toNat % 4) + b.toNat / 16) := by
  have hb := b.toNat_lt
  rw [base64EncodeValue_eq _ (by rw [middle_ab]; omega), middle_ab]

theorem value_middle_bc (b c : UInt8) :
    base64EncodeValue ((b &&& 0x0F) <<< 2 ||| (c &&& 0xC0) >>> 6)
      = Base64.char (2 ^ 2 * (b.toNat % 16) + c.toNat / 64) := by
  have hc := c.toNat_lt
  rw [base64EncodeValue_eq _ (by rw [middle_bc]; omega), middle_bc]

theorem value_low_six (c : UInt8) :
    base64EncodeValue (c &&& 0x3F) = Base64.char (c.toNat % 64) := by
  rw [base64EncodeValue_eq _ (by rw [low_six]; omega), low_six]

theorem value_low_two (a : UInt8) :
    base64EncodeValue ((a &&& 0x03) <<< 4) = Base64.char (2 ^ 4 * (a.toNat % 4)) := by
  rw [base64EncodeValue_eq _ (by rw [low_two]; omega), low_two]

theorem value_low_four (b : UInt8) :
    base64EncodeValue ((b &&& 0x0F) <<< 2) = Base64.char (2 ^ 2 * (b.toNat % 16)) := by
  rw [base64EncodeValue_eq _ (by rw [low_four]; omega), low_four]

/-! ## The output -/

/-- **One group**: four characters of the encoding, and the line feed when
the line is full. -/
theorem writtenFrom_group (a b c : UInt8) (rest : List UInt8) (r : UInt8) (k : ℕ) :
    writtenFrom (a :: b :: c :: rest) ⟨.stepA, r, k⟩ =
      (Base64.encode [a, b, c] ++ if k + 1 = 18 then [0x0A] else []) ++
        writtenFrom rest ⟨.stepA, c &&& 0x3F, if k + 1 = 18 then 0 else k + 1⟩ := by
  have ha := a.toNat_lt
  have hb := b.toNat_lt
  have hc := c.toNat_lt
  -- the four fields, cut out of the 24-bit group
  have h₁ : (a.toNat * 2 ^ 16 + b.toNat * 2 ^ 8 + c.toNat) / 2 ^ 18 = a.toNat / 4 := by omega
  have h₂ : (a.toNat * 2 ^ 16 + b.toNat * 2 ^ 8 + c.toNat) / 2 ^ 12 % 2 ^ 6
      = 2 ^ 4 * (a.toNat % 4) + b.toNat / 16 := by omega
  have h₃ : (a.toNat * 2 ^ 16 + b.toNat * 2 ^ 8 + c.toNat) / 2 ^ 6 % 2 ^ 6
      = 2 ^ 2 * (b.toNat % 16) + c.toNat / 64 := by omega
  have h₄ : (a.toNat * 2 ^ 16 + b.toNat * 2 ^ 8 + c.toNat) % 2 ^ 6 = c.toNat % 64 := by omega
  simp only [writtenFrom, base64EncodeBlock, charsPerLine, Base64.encode, value_high_six,
    value_middle_ab, value_middle_bc, value_low_six, h₁, h₂, h₃, h₄]
  simp

/-- What is written for the last bytes, fewer than a group. -/
theorem writtenFrom_tail {s : List UInt8} (hs : s.length < 3) (r : UInt8) (k : ℕ) :
    writtenFrom s ⟨.stepA, r, k⟩ = Base64.encode s := by
  match s, hs with
  | [], _ => rfl
  | [a], _ =>
    have ha := a.toNat_lt
    have h₁ : a.toNat * 2 ^ 16 / 2 ^ 18 = a.toNat / 4 := by omega
    have h₂ : a.toNat * 2 ^ 16 / 2 ^ 12 % 2 ^ 6 = 2 ^ 4 * (a.toNat % 4) := by omega
    simp only [writtenFrom, base64EncodeBlock, base64EncodeBlockend,
      Base64.encode, value_high_six, value_low_two, h₁, h₂]
    rfl
  | [a, b], _ =>
    have ha := a.toNat_lt
    have hb := b.toNat_lt
    have h₁ : (a.toNat * 2 ^ 16 + b.toNat * 2 ^ 8) / 2 ^ 18 = a.toNat / 4 := by omega
    have h₂ : (a.toNat * 2 ^ 16 + b.toNat * 2 ^ 8) / 2 ^ 12 % 2 ^ 6
        = 2 ^ 4 * (a.toNat % 4) + b.toNat / 16 := by omega
    have h₃ : (a.toNat * 2 ^ 16 + b.toNat * 2 ^ 8) / 2 ^ 6 % 2 ^ 6 =
        2 ^ 2 * (b.toNat % 16) := by
      omega
    simp only [writtenFrom, base64EncodeBlock, base64EncodeBlockend,
      Base64.encode, value_high_six, value_middle_ab, value_low_four, h₁, h₂, h₃]
    rfl

/-- The encoding goes group by group. -/
theorem encode_group (a b c : UInt8) (rest : List UInt8) :
    Base64.encode (a :: b :: c :: rest) = Base64.encode [a, b, c] ++ Base64.encode rest := rfl

/-- While the line does not fill up, the output is the encoding. -/
theorem writtenFrom_eq (s : List UInt8) (r : UInt8) (k : ℕ) (h : k + s.length / 3 < 18) :
    writtenFrom s ⟨.stepA, r, k⟩ = Base64.encode s := by
  match s with
  | a :: b :: c :: rest =>
    simp only [List.length_cons] at h
    rw [writtenFrom_group, if_neg (by omega), if_neg (by omega), List.append_nil,
      writtenFrom_eq rest _ (k + 1) (by omega), ← encode_group]
  | [] => exact writtenFrom_tail (by simp) r k
  | [a] => exact writtenFrom_tail (by simp) r k
  | [a, b] => exact writtenFrom_tail (by simp) r k

/-- A line that fills up is broken. -/
theorem lineFeed_mem_writtenFrom (s : List UInt8) (r : UInt8) (k : ℕ) (hk : k < 18)
    (h : 18 ≤ k + s.length / 3) : 0x0A ∈ writtenFrom s ⟨.stepA, r, k⟩ := by
  match s with
  | a :: b :: c :: rest =>
    simp only [List.length_cons] at h
    rw [writtenFrom_group]
    by_cases hfull : k + 1 = 18
    · simp [hfull]
    · rw [if_neg hfull, if_neg hfull]
      exact List.mem_append_right _
        (lineFeed_mem_writtenFrom rest _ (k + 1) (by omega) (by omega))
  | [] => simp at h; omega
  | [a] => simp at h; omega
  | [a, b] => simp at h; omega

/-- **How much is written**: four characters for a group, and a line feed for a full line. -/
theorem length_writtenFrom (s : List UInt8) (r : UInt8) (k : ℕ) (hk : k < 18) :
    (writtenFrom s ⟨.stepA, r, k⟩).length =
      4 * ((s.length + 2) / 3) + (k + s.length / 3) / 18 := by
  match s with
  | a :: b :: c :: rest =>
    have hgroup : (Base64.encode [a, b, c]).length = 4 := rfl
    rw [writtenFrom_group, List.length_append, List.length_append, hgroup]
    simp only [List.length_cons]
    by_cases hfull : k + 1 = 18
    · rw [if_pos hfull, if_pos hfull, length_writtenFrom rest _ 0 (by omega),
        List.length_singleton]
      omega
    · rw [if_neg hfull, if_neg hfull, length_writtenFrom rest _ (k + 1) (by omega),
        List.length_nil]
      omega
  | [] =>
    rw [writtenFrom_tail (by simp), Base64.length_encode, List.length_nil]
    omega
  | [a] =>
    rw [writtenFrom_tail (by simp), Base64.length_encode, List.length_singleton]
    omega
  | [a, b] =>
    rw [writtenFrom_tail (by simp), Base64.length_encode, List.length_cons,
      List.length_singleton]
    omega

theorem length_base64EncodeChars (s : List UInt8) :
    (base64EncodeChars s).length = 4 * ((s.length + 2) / 3) + s.length / 3 / 18 := by
  have hlength := length_writtenFrom s 0 0 (by decide)
  rwa [Nat.zero_add] at hlength

/-- **Up to 53 bytes the encoder writes the RFC 4648 encoding.** -/
theorem base64EncodeChars_eq {s : List UInt8} (h : s.length ≤ 53) :
    base64EncodeChars s = Base64.encode s :=
  writtenFrom_eq s 0 0 (by omega)

/-- **From 54 bytes on it breaks lines.** -/
theorem lineFeed_mem_base64EncodeChars {s : List UInt8} (h : 54 ≤ s.length) :
    0x0A ∈ base64EncodeChars s :=
  lineFeed_mem_writtenFrom s 0 0 (by omega) (by omega)

/-- **What the output consists of**: values, padding and line feeds. -/
theorem forall_base64EncodeBlock {P : UInt8 → Prop} (hvalue : ∀ b, P (base64EncodeValue b))
    (hfeed : P 0x0A)
    (s : List UInt8) (st : EncodeState) : ∀ c ∈ (base64EncodeBlock s st).1, P c := by
  induction s generalizing st with
  | nil => simp [base64EncodeBlock]
  | cons fragment rest ih =>
    unfold base64EncodeBlock
    cases st.step with
    | stepA => exact List.forall_mem_cons.mpr ⟨hvalue _, ih _⟩
    | stepB => exact List.forall_mem_cons.mpr ⟨hvalue _, ih _⟩
    | stepC =>
      refine List.forall_mem_cons.mpr
        ⟨hvalue _, List.forall_mem_cons.mpr ⟨hvalue _, fun c hc => ?_⟩⟩
      rcases List.mem_append.mp hc with hc | hc
      · split at hc
        · rw [List.mem_singleton.mp hc]
          exact hfeed
        · cases hc
      · exact ih _ c hc

theorem forall_base64EncodeChars {P : UInt8 → Prop} (hvalue : ∀ b, P (base64EncodeValue b))
    (hpad : P 0x3D)
    (hfeed : P 0x0A) (s : List UInt8) : ∀ c ∈ base64EncodeChars s, P c := by
  intro c hc
  rcases List.mem_append.mp hc with hc | hc
  · exact forall_base64EncodeBlock hvalue hfeed s _ c hc
  · unfold base64EncodeBlockend at hc
    split at hc
    · cases hc
    · simp only [List.mem_cons, List.not_mem_nil, or_false] at hc
      rcases hc with rfl | rfl | rfl
      · exact hvalue _
      · exact hpad
      · exact hpad
    · simp only [List.mem_cons, List.not_mem_nil, or_false] at hc
      rcases hc with rfl | rfl
      · exact hvalue _
      · exact hpad

end Cencode
