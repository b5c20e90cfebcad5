import Esp31b.Arguments
import Esp31b.StringHolding

/-!
# Decoding what a form encodes

`urlDecode` reads a text from the left and appends what it decodes to a `String`,
one character at a time. Each character may move the string to a larger block, and
a decoded NUL is a character like any other, so the string that is built has to be
looked at as an object: it is in a block that is cleared behind the contents
(`StringObject.holding`), and that is what a NUL needs to be kept.

`FormEncoded` says what may be written for some bytes. Each byte has several
ways to be written, and a text with any of them is decoded to the bytes
(`ESP31BWebServer.urlDecode_encoded`).
-/

/-! ## Decoding -/

namespace WString

/-- `charAt`: 0 outside. -/
def charAt (s : WString) (loc : ℕ) : UInt8 := s.getD loc 0

end WString

namespace ESP31BWebServer

open StringObject

/-- The loop of `urlDecode`: a position, and the string that is built. Each
turn passes a character at least. -/
def urlDecodeFrom (text : WString) : ℕ → ℕ → StringObject → Option StringObject
  | 0, _, _ => none
  | turns + 1, i, decoded =>
    if i < text.length then
      let encodedChar := text.charAt i
      let i := (i + 1) % 2 ^ 32
      if encodedChar = 0x25 ∧ (i + 1) % 2 ^ 32 < text.length then do
        let temp := [0x30, 0x78, text.charAt i, text.charAt (i + 1)]
        let (_, decoded) ← decoded.concatChar (UInt8.ofInt (strtol temp 16)) true
        urlDecodeFrom text turns (i + 2) decoded
      else do
        let decodedChar := if encodedChar = 0x2B then 0x20 else encodedChar
        let (_, decoded) ← decoded.concatChar decodedChar true
        urlDecodeFrom text turns i decoded
    else some decoded

/-- `urlDecode`, with memory for the string. -/
def urlDecodeString (text : WString) : Option StringObject := do
  let decoded ← ofText (some []) true
  urlDecodeFrom text (text.length + 1) 0 decoded

theorem urlDecode_escape (a b : UInt8) (text : WString) :
    urlDecode (0x25 :: a :: b :: text) =
      UInt8.ofInt (strtol [0x30, 0x78, a, b] 16) :: urlDecode text := by
  rw [urlDecode, if_pos rfl]

/-- A character that is no escape, or has not two behind it. -/
theorem urlDecode_plain {c : UInt8} {text : WString} (h : c ≠ 0x25 ∨ text.length < 2) :
    urlDecode (c :: text) = (if c = 0x2B then 0x20 else c) :: urlDecode text := by
  match text with
  | [] | [_] => rfl
  | a :: b :: text =>
    rw [urlDecode, if_neg (h.resolve_right (by simp))]

theorem charAt_of_drop {text t : WString} {c : UInt8} {i : ℕ} (h : text.drop i = c :: t) :
    text.charAt i = c := by
  rw [WString.charAt, List.getD_eq_getElem?_getD, ← Nat.add_zero i, ← List.getElem?_drop, h]
  rfl

theorem drop_succ_of_drop {text t : WString} {c : UInt8} {i : ℕ} (h : text.drop i = c :: t) :
    text.drop (i + 1) = t := by
  rw [← List.drop_drop, h]
  rfl

/-- **The string that is built holds what is decoded**, from a position on. -/
theorem exists_urlDecodeFrom {text : WString} {d : List UInt8} {n i k : ℕ}
    (hi : i ≤ text.length)
    (hn : text.length < i + n) (hk : d.length ≤ k) (hlen : text.length + 16 < 2 ^ 32)
    (hfits : d.length + (text.length - i) + 16 < 2 ^ 32) :
    ∃ k', urlDecodeFrom text n i (holding d k) =
        some (holding (d ++ urlDecode (text.drop i)) k') ∧
      (d ++ urlDecode (text.drop i)).length ≤ k' := by
  induction n generalizing d i k with
  | zero => omega
  | succ n ih =>
    unfold urlDecodeFrom
    have hdrop : (text.drop i).length = text.length - i := List.length_drop
    generalize ht : text.drop i = t at hdrop
    match t with
    | [] =>
      rw [List.length_nil] at hdrop
      rw [if_neg (by omega), urlDecode, List.append_nil]
      exact ⟨k, rfl, hk⟩
    | c :: t =>
      rw [List.length_cons] at hdrop
      have hnext := drop_succ_of_drop ht
      rw [if_pos (by omega), charAt_of_drop ht]
      dsimp only
      rw [Nat.mod_eq_of_lt (by omega : i + 1 < 2 ^ 32),
        Nat.mod_eq_of_lt (by omega : i + 1 + 1 < 2 ^ 32)]
      split
      · rename_i hescape
        obtain ⟨rfl, hroom⟩ := hescape
        match t with
        | [] | [_] =>
          simp only [List.length_nil, List.length_singleton] at hdrop
          omega
        | a :: b :: t =>
          simp only [List.length_cons] at hdrop
          have hbehind := drop_succ_of_drop (drop_succ_of_drop hnext)
          rw [charAt_of_drop hnext, charAt_of_drop (drop_succ_of_drop hnext), urlDecode_escape]
          obtain ⟨k₁, hconcat, hk₁⟩ := exists_concatChar_holding hk (by omega)
            (UInt8.ofInt (strtol [0x30, 0x78, a, b] 16))
          have hmore := ih (i := i + 3) (d := d ++ [UInt8.ofInt (strtol [0x30, 0x78, a, b] 16)])
            (by omega) (by omega) hk₁ (by rw [List.length_append, List.length_singleton]; omega)
          rw [hbehind, List.append_assoc] at hmore
          rw [hconcat, Option.bind_eq_bind, Option.bind_some]
          exact hmore
      · rename_i hplain
        have hshort : c ≠ 0x25 ∨ t.length < 2 := by
          by_contra hlong
          rw [not_or, not_not, Nat.not_lt] at hlong
          exact hplain ⟨hlong.1, by omega⟩
        rw [urlDecode_plain hshort]
        obtain ⟨k₁, hconcat, hk₁⟩ := exists_concatChar_holding hk (by omega)
          (if c = 0x2B then 0x20 else c)
        have hmore := ih (i := i + 1) (d := d ++ [if c = 0x2B then 0x20 else c])
          (by omega) (by omega) hk₁ (by rw [List.length_append, List.length_singleton]; omega)
        rw [hnext, List.append_assoc] at hmore
        rw [hconcat, Option.bind_eq_bind, Option.bind_some]
        exact hmore

/-- **The string that is returned.** -/
theorem exists_urlDecodeString {text : WString} (hlen : text.length + 16 < 2 ^ 32) :
    ∃ k, urlDecodeString text = some (holding (urlDecode text) k) ∧
      (urlDecode text).length ≤ k := by
  obtain ⟨k, hk, hle⟩ := exists_urlDecodeFrom (d := []) (k := 15) (n := text.length + 1)
    (Nat.zero_le text.length) (by omega) (Nat.zero_le _) hlen
    (by rw [List.length_nil]; omega)
  rw [List.drop_zero, List.nil_append] at hk hle
  exact ⟨k, hk, hle⟩

/-! ## Where it is moved to -/

/-- The text of a string of any bytes ends at the first NUL. -/
theorem text_holding {d : List UInt8} {k : ℕ} (hk : d.length ≤ k) :
    (holding d k).text 0 = some (cstr d) := by
  obtain ⟨m, hm⟩ : ∃ m, k + 1 - d.length = m + 1 := ⟨k - d.length, by omega⟩
  have hcstr : cstr (d ++ 0 :: List.replicate m 0) = cstr d := by
    by_cases h0 : 0 ∈ d
    · obtain ⟨rest, hd⟩ := Block.exists_cstr_append h0
      have hfront : d ++ 0 :: List.replicate m 0 =
          cstr d ++ 0 :: (rest ++ 0 :: List.replicate m 0) := by
        conv_lhs => rw [hd]
        rw [List.append_assoc, List.cons_append]
      rw [hfront, Block.cstr_append_zero (zero_not_mem_cstr d)]
    · rw [Block.cstr_append_zero h0, cstr_of_not_mem h0]
  show Block.text (d ++ List.replicate (k + 1 - d.length) 0) 0 = some (cstr d)
  rw [hm, List.replicate_succ, Block.text_eq_some_iff, List.drop_zero]
  have hend := Block.exists_cstr_append (l := d ++ 0 :: List.replicate m 0) (by simp)
  rw [hcstr] at hend
  exact ⟨zero_not_mem_cstr d, hend⟩

/-- **A string that was just made is assigned to**: what it gets is `WString.moved`. -/
theorem exists_move_holding {d : List UInt8} {k : ℕ} (hk : d.length ≤ k) :
    ∃ k' r, (holding [] 15).move (holding d k) = some (holding (WString.moved d) k', r) ∧
      (WString.moved d).length ≤ k' := by
  unfold move WString.moved
  by_cases hshort : d.length < 16
  · have hle := length_cstr_le d
    obtain ⟨m, hm⟩ : ∃ m, 16 - ((cstr d).length + 1) = m ∧ (d.length - (cstr d).length) +
        (16 - d.length) = m + 1 := ⟨_, rfl, by omega⟩
    have hwrite := Block.write_append [] []
      (show (cstr d ++ [0]).length ≤ (List.replicate 16 (0 : UInt8)).length by
        rw [List.length_append, List.length_singleton, List.length_replicate]; omega)
    rw [List.nil_append, List.append_nil, List.nil_append, List.append_nil, List.drop_replicate,
      List.length_nil, List.length_append, List.length_singleton, hm.1,
      List.append_assoc] at hwrite
    have hstore : (holding [] 15).store 0 (cstr d ++ [0]) =
        some { holding [] 15 with buffer := some (cstr d ++ ([0] ++ List.replicate m 0)) } := by
      show (Block.write (List.replicate 16 0) 0 (cstr d ++ [0])).bind _ = _
      rw [hwrite]
      rfl
    have hcleared : cstr d ++ ([0] ++ List.replicate m 0) =
        WString.cleared d ++ List.replicate (15 + 1 - (WString.cleared d).length) 0 := by
      rw [WString.length_cleared, WString.cleared, List.append_assoc,
        List.replicate_append_replicate, hm.2]
      rfl
    rw [if_pos hshort, if_pos ⟨rfl, by show 15 ≥ d.length; omega⟩, text_holding hk,
      Option.bind_eq_bind, Option.bind_some, hstore, hcleared, WString.length_cleared]
    refine ⟨15, { holding d k with len := 0 }, ?_, by omega⟩
    unfold holding
    rw [WString.length_cleared]
    rfl
  · rw [if_neg hshort, if_neg (by show ¬ (_ ∧ 15 ≥ d.length); omega)]
    exact ⟨k, StringObject.init, rfl, hk⟩

/-- **The value of an argument**: a string that was just made, to which what is decoded
is moved. -/
theorem exists_moved_urlDecode {text : WString} (hlen : text.length + 16 < 2 ^ 32) :
    ∃ decoded value t r, urlDecodeString text = some decoded ∧
      ofText (some []) true = some value ∧
      value.move decoded = some (t, r) ∧ t.Valid ∧
      t.load 0 t.len = some (urlDecode text).moved := by
  obtain ⟨k, hdecoded, hk⟩ := exists_urlDecodeString hlen
  obtain ⟨k', r, hmove, hk'⟩ := exists_move_holding hk
  exact ⟨_, holding [] 15, _, r, hdecoded, rfl, hmove, valid_holding hk', load_holding _ k'⟩

/-! ## What may be written for some bytes -/

/-- A character that stands for itself. -/
def IsLiteral (c : UInt8) : Prop := c ≠ 0 ∧ c ≠ 0x25 ∧ c ≠ 0x2B

instance (c : UInt8) : Decidable (IsLiteral c) := inferInstanceAs (Decidable (_ ∧ _))

/-- **A text that encodes these bytes.** -/
inductive FormEncoded : List UInt8 → WString → Prop where
  | nil : FormEncoded [] []
  | literal {c : UInt8} {b : List UInt8} {text : WString} (hc : IsLiteral c)
      (h : FormEncoded b text) : FormEncoded (c :: b) (c :: text)
  | plus {b : List UInt8} {text : WString} (h : FormEncoded b text) :
      FormEncoded (0x20 :: b) (0x2B :: text)
  | escape {c high low : UInt8} {b : List UInt8} {text : WString} (hhigh : digitVal high < 16)
      (hlow : digitVal low < 16) (hc : c.toNat = 16 * digitVal high + digitVal low)
      (h : FormEncoded b text) : FormEncoded (c :: b) (0x25 :: high :: low :: text)

/-- Two hex digits behind a `0x`. -/
theorem strtol_hex {high low : UInt8} (hhigh : digitVal high < 16) (hlow : digitVal low < 16) :
    strtol [0x30, 0x78, high, low] 16 = 16 * digitVal high + digitVal low := by
  have hcstr : cstr [0x30, 0x78, high, low] = [0x30, 0x78, high, low] := by
    refine cstr_of_not_mem fun h0 => ?_
    have hhigh0 := (digit_cases hhigh).1
    have hlow0 := (digit_cases hlow).1
    simp [hhigh0.symm, hlow0.symm] at h0
  unfold strtol
  rw [hcstr]
  have hdigits : [high, low].takeWhile (fun c => digitVal c < 16) = [high, low] := by
    simp [hhigh, hlow]
  have hsign : takeSign ([0x30, 0x78, high, low].dropWhile isspace) =
      (false, [0x30, 0x78, high, low]) := rfl
  have hmark : skipHexMark [0x30, 0x78, high, low] = [high, low] := rfl
  rw [hsign]
  dsimp only
  rw [if_pos rfl, hmark, hdigits]
  unfold numeral
  rw [if_neg Bool.false_ne_true, clampLong_of_le (by omega) (by simp; omega)]
  simp
  omega

theorem ofInt_of_toNat {c : UInt8} {v : ℤ} (h : v = c.toNat) : UInt8.ofInt v = c := by
  have hlt := c.toNat_lt
  have hmod : (v % 2 ^ 8).toNat = c.toNat := by omega
  rw [UInt8.ofInt, hmod, UInt8.ofNat_toNat]

/-- **An encoded text is decoded to its bytes**, whatever follows it. -/
theorem urlDecode_append {b : List UInt8} {text : WString} (h : FormEncoded b text)
    (rest : WString) : urlDecode (text ++ rest) = b ++ urlDecode rest := by
  induction h with
  | nil => rfl
  | literal hc h ih =>
    rw [List.cons_append, urlDecode_plain (Or.inl hc.2.1), if_neg hc.2.2, ih]
    rfl
  | plus h ih =>
    rw [List.cons_append, urlDecode_plain (Or.inl (by decide)), if_pos rfl, ih]
    rfl
  | escape hhigh hlow hc h ih =>
    rw [List.cons_append, List.cons_append, List.cons_append, urlDecode_escape,
      strtol_hex hhigh hlow, ofInt_of_toNat (by rw [hc]; push_cast; rfl), ih]
    rfl

/-- A text that a `String` can hold: its blocks are made in steps of 16 bytes. -/
def Fits (text : WString) : Prop := text.length + 16 < 2 ^ 32

instance (text : WString) : Decidable (Fits text) := inferInstanceAs (Decidable (_ < _))

/-- **The string that is returned has these bytes**, NULs included. -/
def Decodes (text : WString) (b : List UInt8) : Prop :=
  ∃ s, urlDecodeString text = some s ∧ s.Valid ∧ s.len = b.length ∧ s.load 0 s.len = some b

theorem decodes_urlDecode {text : WString} (h : Fits text) : Decodes text (urlDecode text) := by
  obtain ⟨k, hdecoded, hk⟩ := exists_urlDecodeString h
  exact ⟨_, hdecoded, valid_holding hk, rfl, load_holding _ k⟩

/-- **Decoding undoes encoding**, in whichever way each byte was written; and a
`%` that has not two characters behind it stands for itself. -/
theorem urlDecode_encoded {b : List UInt8} {text : WString} (h : FormEncoded b text) :
    (Fits text → Decodes text b) ∧
    (Fits (text ++ [0x25]) → Decodes (text ++ [0x25]) (b ++ [0x25])) ∧
    ∀ c, IsLiteral c → Fits (text ++ [0x25, c]) →
      Decodes (text ++ [0x25, c]) (b ++ [0x25, c]) := by
  refine ⟨fun hfits => ?_, fun hfits => ?_, fun c hc hfits => ?_⟩
  · have hdecoded := urlDecode_append h []
    rw [List.append_nil, urlDecode, List.append_nil] at hdecoded
    exact hdecoded ▸ decodes_urlDecode hfits
  · have hdecoded : urlDecode (text ++ [0x25]) = b ++ [0x25] := urlDecode_append h [0x25]
    exact hdecoded ▸ decodes_urlDecode hfits
  · have hstray : urlDecode [0x25, c] = [0x25, c] := by
      rw [urlDecode_plain (Or.inr (by simp)), urlDecode_plain (Or.inl hc.2.1), if_neg hc.2.2]
      rfl
    have hdecoded := urlDecode_append h [0x25, c]
    rw [hstray] at hdecoded
    exact hdecoded ▸ decodes_urlDecode hfits

/-- A NUL that is escaped, in front of a blank and a stray `%`. -/
theorem urlDecode_encoded_nul :
    Decodes (ascii "a%00+") [0x61, 0, 0x20] ∧
      Decodes (ascii "a%00+" ++ [0x25]) ([0x61, 0, 0x20] ++ [0x25]) := by
  have h : FormEncoded [0x61, 0, 0x20] (ascii "a%00+") :=
    .literal (by decide) (.escape (by decide) (by decide) (by decide) (.plus .nil))
  exact ⟨(urlDecode_encoded h).1 (by decide), (urlDecode_encoded h).2.1 (by decide)⟩

end ESP31BWebServer
