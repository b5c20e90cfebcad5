import Esp31b.Cencode
import Esp31b.TextBlock

/-!
# Hex digits of `MD5Builder`

`addHexString` decodes a string of hex digits into a block of half its length, with lengths and
an index of 16 bits, and feeds the block to the digest. `getChars` prints the bytes of a digest
one behind the other, each with a NUL that the next one overwrites.

What the block has room for is an even number of digits, and what 16 bits count is less than
65536 of them (`MD5Builder.addsHex_iff`). The NUL behind the last two digits of a digest needs a
33rd byte, which the buffer of `toString` does not have (`MD5Builder.getsChars_iff`,
`MD5Builder.toString_eq_none`).
-/

/-! ## Hex digits -/

/-- One byte for every two. -/
def mapPairs (f : UInt8 → UInt8 → UInt8) : List UInt8 → List UInt8
  | c :: d :: s => f c d :: mapPairs f s
  | _ => []

theorem length_mapPairs (f : UInt8 → UInt8 → UInt8) (s : List UInt8) :
    (mapPairs f s).length = s.length / 2 := by
  induction s using mapPairs.induct with
  | case1 c d s ih =>
    rw [mapPairs, List.length_cons, ih, List.length_cons, List.length_cons]
    omega
  | case2 s hs =>
    match s with
    | [] => rfl
    | [_] => simp [mapPairs]
    | c :: d :: s => exact absurd rfl (hs c d s)

/-- **The bytes that hex digits stand for**, two for each. -/
def hexBytes : List UInt8 → List UInt8 :=
  mapPairs fun c d => UInt8.ofNat (16 * digitVal c + digitVal d)

/-- A hex digit in lower case. -/
def hexDigit (n : ℕ) : UInt8 := UInt8.ofNat (if n < 10 then 0x30 + n else 0x57 + n)

/-- What `sprintf` writes for `%02x`, in front of its NUL. -/
def hexPair (b : UInt8) : List UInt8 := [hexDigit (b.toNat / 16), hexDigit (b.toNat % 16)]

/-- A digit in lower case, as a character. -/
def IsLowerHex (c : UInt8) : Prop := 0x30 ≤ c ∧ c ≤ 0x39 ∨ 0x61 ≤ c ∧ c ≤ 0x66

instance (c : UInt8) : Decidable (IsLowerHex c) := inferInstanceAs (Decidable (_ ∨ _))

/-- **These are the digits of the bytes**, in lower case. -/
def IsHexOf (H b : List UInt8) : Prop :=
  H.length = 2 * b.length ∧ (∀ c ∈ H, IsLowerHex c) ∧ hexBytes H = b

theorem digitVal_hexDigit : ∀ n < 16, digitVal (hexDigit n) = n := by decide

theorem isLowerHex_hexDigit : ∀ n < 16, IsLowerHex (hexDigit n) := by decide

/-- **The digits that are printed** stand for the bytes. -/
theorem isHexOf_flatMap (b : List UInt8) : IsHexOf (b.flatMap hexPair) b := by
  induction b with
  | nil => exact ⟨rfl, fun c hc => absurd hc List.not_mem_nil, rfl⟩
  | cons a b ih =>
    obtain ⟨hlength, hlower, hbytes⟩ := ih
    have hhigh : a.toNat / 16 < 16 := by
      have := a.toNat_lt
      omega
    have hlow : a.toNat % 16 < 16 := Nat.mod_lt _ (by decide)
    rw [List.flatMap_cons]
    refine ⟨?_, fun c hc => ?_, ?_⟩
    · rw [List.length_append, hlength, List.length_cons]
      show 2 + 2 * b.length = 2 * (b.length + 1)
      omega
    · rcases List.mem_append.mp hc with hpair | hrest
      · rcases List.mem_cons.mp hpair with rfl | hsecond
        · exact isLowerHex_hexDigit _ hhigh
        · rw [List.mem_singleton.mp hsecond]
          exact isLowerHex_hexDigit _ hlow
      · exact hlower c hrest
    · show UInt8.ofNat (16 * digitVal (hexDigit (a.toNat / 16)) +
        digitVal (hexDigit (a.toNat % 16))) :: hexBytes (b.flatMap hexPair) = a :: b
      rw [digitVal_hexDigit _ hhigh, digitVal_hexDigit _ hlow, hbytes, Nat.div_add_mod,
        UInt8.ofNat_toNat]

namespace MD5Builder

/-! ## The functions -/

/-- `hex_char_to_byte`. -/
def hexCharToByte (c : UInt8) : UInt8 :=
  if c ≥ 0x61 ∧ c ≤ 0x66 then c - 87
  else if c ≥ 0x41 ∧ c ≤ 0x46 then c - 55
  else if c ≥ 0x30 ∧ c ≤ 0x39 then c - 48
  else 0

/-- The byte of two characters. -/
def pairByte (c d : UInt8) : UInt8 :=
  (hexCharToByte c &&& 0x0F) <<< 4 ||| (hexCharToByte d &&& 0x0F)

/-- `add`: what `MD5Update` was fed with before, and now. -/
def add (updates : List (List UInt8)) (data : List UInt8) (len : ℕ) :
    Option (List (List UInt8)) := do
  let data ← Block.read data 0 len
  return updates ++ [data]

/-- The loop of `addHexString`, so many turns of it. -/
def addHexLoop (data : List UInt8) (len : ℕ) : ℕ → ℕ → List UInt8 → Option (List UInt8)
  | 0, _, _ => none
  | turns + 1, i, tmp =>
    if i < len then do
      let c ← data[i]?
      let d ← data[i + 1]?
      let tmp ← Block.set tmp (i / 2) (pairByte c d)
      addHexLoop data len turns ((i + 2) % 2 ^ 16) tmp
    else some tmp

/-- **`addHexString`**, with the block that `malloc` gives, if it gives one. -/
def addHexString (turns : ℕ) (updates : List (List UInt8)) (data : List UInt8)
    (tmp : Option (List UInt8)) : Option (List (List UInt8)) := do
  let text ← Block.text data 0
  let len := text.length % 2 ^ 16
  match tmp with
  | none => return updates
  | some tmp =>
    let tmp ← addHexLoop data len turns 0 tmp
    add updates tmp (len / 2)

/-- The loop of `getChars` over the bytes from an index on. -/
def getCharsFrom : List UInt8 → ℕ → List UInt8 → Option (List UInt8)
  | [], _, output => some output
  | c :: buf, i, output => do
    let output ← Block.write output (i * 2) (hexPair c ++ [0])
    getCharsFrom buf (i + 1) output

/-- **`getChars`** of a digest. -/
def getChars (buf output : List UInt8) : Option (List UInt8) := getCharsFrom buf 0 output

/-- **`toString`**, with what is in the buffer before: the text of the `String`. -/
def toString (buf out : List UInt8) : Option (List UInt8) := do
  let out ← getChars buf out
  Block.text out 0

/-! ## What they should do -/

/-- **The string is added as it should be**: the call returns, and if it is an even number of
hex digits, what was fed is their bytes. -/
def AddsHex (data T : List UInt8) (tmp : Option (List UInt8)) : Prop :=
  ∀ updates, ∃ turns fed, addHexString turns updates data tmp = some (updates ++ fed) ∧
    (T.length % 2 = 0 → (∀ c ∈ T, digitVal c < 16) → fed.flatten = hexBytes T)

/-- **The length is even**, and 16 bits are enough for that of hex digits; or there is no
memory, and there are no bytes. -/
def HexFits (T : List UInt8) (tmp : Option (List UInt8)) : Prop :=
  if tmp.isSome then T.length % 2 = 0 ∧ ((∀ c ∈ T, digitVal c < 16) → T.length < 2 ^ 16)
  else T.length % 2 = 0 → (∀ c ∈ T, digitVal c < 16) → T = []

/-- **The digest is printed.** -/
def GetsChars (buf output : List UInt8) : Prop :=
  ∃ out H, getChars buf output = some out ∧ Block.text out 0 = some H ∧ IsHexOf H buf

variable {T R S W data tmp buf output : List UInt8} {turns len i : ℕ} {c d : UInt8}

/-! ## `addHexString` -/

/-- The macro has the value of a digit. -/
theorem toNat_hexCharToByte (h : digitVal c < 16) : (hexCharToByte c).toNat = digitVal c := by
  have hall : ∀ i : Fin 256, digitVal (UInt8.ofFin i) < 16 →
      (hexCharToByte (UInt8.ofFin i)).toNat = digitVal (UInt8.ofFin i) := by
    decide +kernel
  exact hall c.toFin h

theorem toNat_high (a : UInt8) : ((a &&& 0x0F) <<< 4).toNat = 2 ^ 4 * (a.toNat % 16) :=
  Cencode.toNat_and_shiftLeft (m := 0x0F) (n := 4) (s := 4) (by decide) (by decide) rfl a

theorem toNat_low (a : UInt8) : (a &&& 0x0F).toNat = a.toNat % 16 :=
  Cencode.toNat_and_low (m := 0x0F) (n := 4) rfl a

/-- **Two digits are decoded.** -/
theorem pairByte_eq (hc : digitVal c < 16) (hd : digitVal d < 16) :
    pairByte c d = UInt8.ofNat (16 * digitVal c + digitVal d) := by
  refine UInt8.toNat_inj.mp ?_
  rw [pairByte, UInt8.toNat_or, toNat_high, toNat_low, toNat_hexCharToByte hc,
    toNat_hexCharToByte hd, Nat.mod_eq_of_lt hc, Nat.mod_eq_of_lt hd,
    ← Nat.two_pow_add_eq_or_of_lt hd, UInt8.toNat_ofNat']
  omega

/-- **Digits are decoded.** -/
theorem mapPairs_pairByte (hT : ∀ c ∈ T, digitVal c < 16) :
    mapPairs pairByte T = hexBytes T := by
  unfold hexBytes
  induction T using mapPairs.induct with
  | case1 c d s ih =>
    rw [mapPairs, mapPairs, ih fun e he => hT e (by simp [he]),
      pairByte_eq (hT c (by simp)) (hT d (by simp))]
  | case2 s hs => rw [mapPairs, mapPairs] <;> exact hs

/-- A turn of the loop, at a pair of characters. -/
theorem addHexLoop_cons {P done rest : List UInt8} {x : UInt8} (hP : P.length = 2 * done.length)
    (hlen : P.length < len) (hfits : P.length + 2 < 2 ^ 16) :
    addHexLoop (P ++ c :: d :: W) len (turns + 1) P.length (done ++ x :: rest) =
      addHexLoop (P ++ [c, d] ++ W) len turns (P ++ [c, d]).length
        (done ++ [pairByte c d] ++ rest) := by
  have hfirst : (P ++ c :: d :: W)[P.length]? = some c := Block.getElem?_append P (d :: W) c
  have hsecond : (P ++ c :: d :: W)[P.length + 1]? = some d := by
    rw [List.getElem?_append_right (Nat.le_add_right _ 1), Nat.add_sub_cancel_left]
    rfl
  have hset := Block.set_append done rest x (pairByte c d)
  rw [addHexLoop, if_pos hlen, hfirst, Option.bind_eq_bind, Option.bind_some, hsecond,
    Option.bind_some, show P.length / 2 = done.length by omega, hset, Option.bind_eq_bind,
    Option.bind_some, Nat.mod_eq_of_lt hfits, List.append_assoc, List.append_assoc,
    List.length_append]
  rfl

theorem length_append_pair (P : List UInt8) (c d : UInt8) :
    (P ++ [c, d]).length = P.length + 2 :=
  List.length_append

/-- **An even number of characters** is decoded into a block of half of it. -/
theorem addHexLoop_even (P done rest S : List UInt8) (hP : P.length = 2 * done.length)
    (hS : S.length = 2 * rest.length) (hfits : P.length + S.length < 2 ^ 16)
    (hturns : rest.length < turns) :
    addHexLoop (P ++ (S ++ W)) (P.length + S.length) turns P.length (done ++ rest) =
      some (done ++ mapPairs pairByte S) := by
  induction rest generalizing P S done turns with
  | nil =>
    obtain ⟨turns, rfl⟩ : ∃ n, turns = n + 1 :=
      ⟨turns - 1, (Nat.succ_pred_eq_of_pos hturns).symm⟩
    obtain rfl := List.length_eq_zero_iff.mp hS
    rw [addHexLoop, if_neg (by rw [List.length_nil]; omega)]
    rfl
  | cons x rest ih =>
    rw [List.length_cons] at hturns
    obtain ⟨turns, rfl⟩ : ∃ n, turns = n + 1 := ⟨turns - 1, by omega⟩
    match S with
    | [] => cases hS
    | [_] =>
      rw [List.length_singleton, List.length_cons] at hS
      omega
    | c :: d :: S =>
      simp only [List.length_cons] at hS hfits
      have hP' := length_append_pair P c d
      have hdone : (done ++ [pairByte c d]).length = done.length + 1 := List.length_append
      have hnext := ih (P ++ [c, d]) (done ++ [pairByte c d]) S (by omega) (by omega) (by omega)
        (Nat.lt_of_succ_lt_succ hturns)
      have hlen : (P ++ [c, d]).length + S.length = P.length + (c :: d :: S).length := by
        rw [hP', List.length_cons, List.length_cons]
        omega
      rw [List.cons_append, List.cons_append, addHexLoop_cons hP
        (by simp only [List.length_cons]; omega) (by omega), ← hlen, hnext, mapPairs,
        List.append_assoc]
      rfl

/-- **An odd number** leaves the block at its last character. -/
theorem addHexLoop_odd (P done rest S : List UInt8) (hP : P.length = 2 * done.length)
    (hS : S.length = 2 * rest.length + 1) (hfits : P.length + S.length < 2 ^ 16) :
    addHexLoop (P ++ (S ++ W)) (P.length + S.length) turns P.length (done ++ rest) = none := by
  induction rest generalizing P S done turns with
  | nil =>
    cases turns with
    | zero => rfl
    | succ turns =>
      have hfull : ∀ y, Block.set (done ++ []) (P.length / 2) y = none := fun y =>
        if_neg (by rw [List.append_nil]; omega)
      rw [addHexLoop, if_pos (by rw [hS]; omega)]
      cases (P ++ (S ++ W))[P.length]? with
      | none => rfl
      | some c =>
        cases (P ++ (S ++ W))[P.length + 1]? with
        | none => rfl
        | some d =>
          rw [Option.bind_eq_bind, Option.bind_some, Option.bind_some, hfull]
          rfl
  | cons x rest ih =>
    cases turns with
    | zero => rfl
    | succ turns =>
      match S with
      | [] => cases hS
      | [_] =>
        rw [List.length_singleton, List.length_cons] at hS
        omega
      | c :: d :: S =>
        simp only [List.length_cons] at hS hfits
        have hP' := length_append_pair P c d
        have hdone : (done ++ [pairByte c d]).length = done.length + 1 := List.length_append
        have hnext : addHexLoop _ _ turns _ _ = none :=
          ih (P ++ [c, d]) (done ++ [pairByte c d]) S (by omega) (by omega) (by omega)
        have hlen : (P ++ [c, d]).length + S.length = P.length + (c :: d :: S).length := by
          rw [hP', List.length_cons, List.length_cons]
          omega
        rw [List.cons_append, List.cons_append, addHexLoop_cons hP
          (by simp only [List.length_cons]; omega) (by omega), ← hlen, hnext]

/-- **`addHexString` of an even number of characters**, as 16 bits count them. -/
theorem addHexString_even (h0 : 0 ∉ T) (heven : T.length % 2 = 0)
    (htmp : tmp.length = T.length % 2 ^ 16 / 2) (updates : List (List UInt8)) :
    addHexString (tmp.length + 1) updates (T ++ 0 :: R) (some tmp) =
      some (updates ++ [mapPairs pairByte (T.take (T.length % 2 ^ 16))]) := by
  have htake : (T.take (T.length % 2 ^ 16)).length = T.length % 2 ^ 16 :=
    List.length_take_of_le (Nat.mod_le _ _)
  have hloop := addHexLoop_even [] [] tmp (T.take (T.length % 2 ^ 16))
    (W := T.drop (T.length % 2 ^ 16) ++ 0 :: R) rfl (by rw [htake, htmp]; omega)
    (by rw [List.length_nil, htake]; omega) (Nat.lt_add_one tmp.length)
  rw [← List.append_assoc (T.take _), List.take_append_drop, List.length_nil,
    htake, Nat.zero_add, List.nil_append, List.nil_append, List.nil_append] at hloop
  have hlength : (mapPairs pairByte (T.take (T.length % 2 ^ 16))).length =
      T.length % 2 ^ 16 / 2 := by
    rw [length_mapPairs, htake]
  unfold addHexString
  rw [Block.text_append_zero h0, Option.bind_eq_bind, Option.bind_some]
  dsimp only
  rw [hloop, Option.bind_some, add, ← hlength, Block.read_eq (by rw [Nat.zero_add]),
    List.drop_zero, List.take_length]
  rfl

/-- **An odd number** does not return. -/
theorem addHexString_odd (h0 : 0 ∉ T) (hodd : T.length % 2 = 1)
    (htmp : tmp.length = T.length % 2 ^ 16 / 2) (updates : List (List UInt8)) :
    addHexString turns updates (T ++ 0 :: R) (some tmp) = none := by
  have htake : (T.take (T.length % 2 ^ 16)).length = T.length % 2 ^ 16 :=
    List.length_take_of_le (Nat.mod_le _ _)
  have hloop : addHexLoop _ _ turns _ _ = none :=
    addHexLoop_odd [] [] tmp (T.take (T.length % 2 ^ 16))
      (W := T.drop (T.length % 2 ^ 16) ++ 0 :: R) rfl (by rw [htake, htmp]; omega)
      (by rw [List.length_nil, htake]; omega)
  rw [← List.append_assoc (T.take _), List.take_append_drop, List.length_nil,
    htake, Nat.zero_add, List.nil_append, List.nil_append] at hloop
  unfold addHexString
  rw [Block.text_append_zero h0, Option.bind_eq_bind, Option.bind_some]
  dsimp only
  rw [hloop]
  rfl

/-- **So many bytes are fed.** -/
theorem length_fed {updates fed : List (List UInt8)} (hT : Block.text data 0 = some T)
    (h : addHexString turns updates data (some tmp) = some (updates ++ fed)) :
    fed.flatten.length = T.length % 2 ^ 16 / 2 := by
  unfold addHexString at h
  rw [hT, Option.bind_eq_bind, Option.bind_some] at h
  obtain ⟨tmp', -, h⟩ := Option.bind_eq_some_iff.mp h
  obtain ⟨d, hread, h⟩ := Option.bind_eq_some_iff.mp h
  obtain rfl : [d] = fed := List.append_cancel_left (Option.some.inj h)
  have hfits := Block.read_isSome.mp (Option.isSome_of_eq_some hread)
  rw [Block.read_eq hfits] at hread
  rw [List.flatten_singleton, ← Option.some.inj hread, List.length_take, List.length_drop]
  omega

/-- **When a string is added as it should be.** -/
theorem addsHex_iff {block : Option (List UInt8)} (hT : Block.text data 0 = some T)
    (hblock : ∀ tmp ∈ block, tmp.length = T.length % 2 ^ 16 / 2) :
    AddsHex data T block ↔ HexFits T block := by
  obtain ⟨h0, R, hdata⟩ := Block.text_eq_some_iff.mp hT
  obtain rfl : data = T ++ 0 :: R := hdata
  cases block with
  | none =>
    have hcall : ∀ turns updates, addHexString turns updates (T ++ 0 :: R) none =
        some (updates ++ []) := by
      intro turns updates
      rw [addHexString, hT, List.append_nil]
      rfl
    constructor
    · intro h heven hdigits
      obtain ⟨turns, fed, hfed, hbytes⟩ := h []
      rw [hcall] at hfed
      obtain rfl : [] = fed := Option.some.inj hfed
      have hlength := congrArg List.length (hbytes heven hdigits)
      rw [hexBytes, length_mapPairs] at hlength
      refine List.length_eq_zero_iff.mp ?_
      have hzero : T.length / 2 = 0 := hlength.symm
      omega
    · intro h updates
      refine ⟨0, [], hcall 0 updates, fun heven hdigits => ?_⟩
      rw [h heven hdigits]
      rfl
  | some tmp =>
    have htmp := hblock tmp rfl
    constructor
    · intro h
      obtain ⟨turns, fed, hfed, hbytes⟩ := h []
      have heven : T.length % 2 = 0 := by
        by_contra hodd
        rw [addHexString_odd h0 (by omega) htmp] at hfed
        cases hfed
      refine ⟨heven, fun hdigits => ?_⟩
      have hlength := length_fed hT hfed
      rw [hbytes heven hdigits, hexBytes, length_mapPairs] at hlength
      omega
    · rintro ⟨heven, hshort⟩ updates
      refine ⟨_, _, addHexString_even h0 heven htmp updates, fun _ hdigits => ?_⟩
      rw [Nat.mod_eq_of_lt (hshort hdigits), List.take_length, List.flatten_singleton,
        mapPairs_pairByte hdigits]

/-! ## `getChars` -/

/-- The digits of one byte are printed, and their NUL. -/
theorem getCharsFrom_cons {A rest : List UInt8} {b : UInt8} (hA : A.length = i * 2)
    (hfits : 3 ≤ rest.length) :
    getCharsFrom (b :: buf) i (A ++ rest) =
      getCharsFrom buf (i + 1) (A ++ hexPair b ++ 0 :: rest.drop 3) := by
  have hlength : (hexPair b ++ [0]).length = 3 := rfl
  have hwrite := Block.write_append A [] (c := rest) (d := hexPair b ++ [0]) (hlength ▸ hfits)
  rw [List.append_nil, List.append_nil, hA] at hwrite
  rw [getCharsFrom, hwrite, Option.bind_eq_bind, Option.bind_some,
    List.append_assoc (hexPair b), ← List.append_assoc A]
  rfl

/-- **The digits are printed one behind the other**, if there is room for the NUL behind
them. -/
theorem exists_getCharsFrom (A rest : List UInt8) (hA : A.length = i * 2)
    (hroom : 2 * buf.length + 1 ≤ rest.length) (hnul : buf = [] → rest.head? = some 0) :
    ∃ R, getCharsFrom buf i (A ++ rest) = some (A ++ buf.flatMap hexPair ++ 0 :: R) := by
  induction buf generalizing A rest i with
  | nil =>
    cases rest with
    | nil => cases hnul rfl
    | cons x R =>
      obtain rfl : x = 0 := Option.some.inj (hnul rfl)
      exact ⟨R, by rw [getCharsFrom, List.flatMap_nil, List.append_nil]⟩
  | cons b buf ih =>
    rw [List.length_cons] at hroom
    obtain ⟨R, hR⟩ := ih (A ++ hexPair b) (0 :: rest.drop 3) (i := i + 1)
      (by rw [List.length_append, hA]; show i * 2 + 2 = (i + 1) * 2; omega)
      (by rw [List.length_cons, List.length_drop]; omega) fun _ => rfl
    refine ⟨R, ?_⟩
    rw [getCharsFrom_cons hA (by omega), hR, List.flatMap_cons, ← List.append_assoc A]

/-- **Where there is none**, it does not return. -/
theorem getCharsFrom_eq_none (A rest : List UInt8) (hA : A.length = i * 2) (hbuf : buf ≠ [])
    (hroom : rest.length < 2 * buf.length + 1) : getCharsFrom buf i (A ++ rest) = none := by
  induction buf generalizing A rest i with
  | nil => exact absurd rfl hbuf
  | cons b buf ih =>
    rw [List.length_cons] at hroom
    by_cases hfits : 3 ≤ rest.length
    · rw [getCharsFrom_cons hA hfits]
      refine ih _ _ ?_ ?_ (by rw [List.length_cons, List.length_drop]; omega)
      · rw [List.length_append, hA]
        show i * 2 + 2 = (i + 1) * 2
        omega
      · rintro rfl
        rw [List.length_nil] at hroom
        omega
    · have hwrite : Block.write (A ++ rest) (i * 2) (hexPair b ++ [0]) = none := by
        refine if_neg ?_
        show ¬ i * 2 + 3 ≤ (A ++ rest).length
        rw [List.length_append]
        omega
      rw [getCharsFrom, hwrite]
      rfl

/-- **When a digest is printed.** -/
theorem getsChars_iff (hbuf : buf.length = 16) : GetsChars buf output ↔ 33 ≤ output.length := by
  constructor
  · rintro ⟨out, H, hout, -⟩
    by_contra hshort
    have hnone := getCharsFrom_eq_none [] output (i := 0) rfl
      (List.ne_nil_of_length_pos (by omega)) (show output.length < 2 * buf.length + 1 by omega)
    rw [getChars] at hout
    rw [List.nil_append, hout] at hnone
    cases hnone
  · intro hroom
    obtain ⟨R, hR⟩ := exists_getCharsFrom (i := 0) [] output rfl
      (show 2 * buf.length + 1 ≤ output.length by omega) fun hnil => by
        rw [hnil] at hbuf
        cases hbuf
    have hhex := isHexOf_flatMap buf
    refine ⟨_, buf.flatMap hexPair, hR, Block.text_append_zero (fun h0 => ?_) R, hhex⟩
    exact absurd (hhex.2.1 0 h0) (by decide)

/-- **`toString` has no room** for the last NUL. -/
theorem toString_eq_none (hbuf : buf.length = 16) (hout : output.length = 32) :
    toString buf output = none := by
  have hnone := getCharsFrom_eq_none [] output (i := 0) rfl
    (List.ne_nil_of_length_pos (by omega)) (show output.length < 2 * buf.length + 1 by omega)
  rw [List.nil_append] at hnone
  rw [toString, getChars, hnone]
  rfl

/-! ## All of them -/

/-- **When hex digits are converted as they should be**: a string of them is added if its length
is even and below 65536, a digest is printed if the buffer has 33 bytes, and `toString`, which
has 32, never does it. -/
theorem converts_iff (hT : Block.text data 0 = some T) {block : Option (List UInt8)}
    (hblock : ∀ tmp ∈ block, tmp.length = T.length % 2 ^ 16 / 2) (hbuf : buf.length = 16) :
    (AddsHex data T block ↔ HexFits T block) ∧
    (∀ output, GetsChars buf output ↔ 33 ≤ output.length) ∧
    ∀ out : List UInt8, out.length = 32 → ¬ ∃ H, toString buf out = some H ∧ IsHexOf H buf := by
  refine ⟨addsHex_iff hT hblock, fun output => getsChars_iff hbuf, fun out hout => ?_⟩
  rintro ⟨H, hH, -⟩
  rw [toString_eq_none hbuf hout] at hH
  cases hH

/-- Digits in either case, and a digest of zeros. -/
theorem converts_iff_digits :
    AddsHex (ascii "aF09" ++ [0]) (ascii "aF09") (some [1, 2]) ∧
      GetsChars (List.replicate 16 0) (List.replicate 33 7) := by
  have hT : Block.text (ascii "aF09" ++ [0]) 0 = some (ascii "aF09") := by decide
  have hblock : ∀ tmp ∈ some [(1 : UInt8), 2],
      tmp.length = (ascii "aF09").length % 2 ^ 16 / 2 := by
    decide
  have hbuf : (List.replicate 16 (0 : UInt8)).length = 16 := by decide
  obtain ⟨hadds, hgets, -⟩ := converts_iff hT hblock hbuf
  exact ⟨hadds.mpr ⟨by decide, fun _ => by decide⟩, (hgets _).mpr (by decide)⟩

/-- **One character is too many** for the block, and a digest is too long for `toString`. -/
theorem not_converts :
    (¬ ∀ data T tmp : List UInt8, Block.text data 0 = some T →
      tmp.length = T.length % 2 ^ 16 / 2 → AddsHex data T (some tmp)) ∧
    ¬ ∀ buf out : List UInt8, buf.length = 16 → out.length = 32 →
      ∃ H, toString buf out = some H ∧ IsHexOf H buf := by
  constructor
  · intro h
    obtain ⟨turns, fed, hfed, -⟩ := h [0x61, 0] [0x61] [] (by decide) (by decide) []
    rw [show ([0x61, 0] : List UInt8) = [0x61] ++ 0 :: [] from rfl,
      addHexString_odd (by decide) (by decide) (by decide)] at hfed
    cases hfed
  · intro h
    obtain ⟨H, hH, -⟩ := h (List.replicate 16 0) (List.replicate 32 0) (by decide) (by decide)
    rw [toString_eq_none (by decide) (by decide)] at hH
    cases hH

end MD5Builder
