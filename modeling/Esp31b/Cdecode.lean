import Esp31b.Cencode
import Esp31b.Block
import Mathlib.Tactic.IntervalCases

/-!
# libb64's decoder

`base64_decode_block` is a coroutine as the encoder is: it can be left and entered again after
any character, also with another buffer, and the bits that it keeps in between are put back into
the memory where the next byte will be. What the calls put out is one text, however the code was
cut (`Cdecode.exists_decodeCalls`).

What is no character of the alphabet is passed over: it decodes to a fragment below zero. That
is so where a `char` has a sign, and here it has none, so that every character counts, the
padding and the line feeds of the encoder too. The model has the sign as a parameter. With a
sign the decoder undoes the encoder; without one it does so where there is neither padding nor a
line feed, and never where there is padding (`Cdecode.round_trip`).
-/

namespace Cdecode

open Cencode

/-- `base64_decodestep`. -/
inductive DecodeStep where
  | stepA
  | stepB
  | stepC
  | stepD
  deriving DecidableEq, Repr

/-- `base64_decodestate`. -/
structure DecodeState where
  step : DecodeStep
  plainchar : UInt8
  deriving DecidableEq, Repr

/-- `base64_init_decodestate`. -/
def base64InitDecodestate : DecodeState := ⟨.stepA, 0⟩

/-- `decoding`, with -1 and -2 as a `char` has them. -/
def decoding : List UInt8 :=
  [62, 255, 255, 255, 63, 52, 53, 54, 55, 56, 57, 58, 59, 60, 61, 255, 255, 255, 254, 255, 255,
    255, 0, 1, 2, 3, 4, 5, 6, 7, 8, 9, 10, 11, 12, 13, 14, 15, 16, 17, 18, 19, 20, 21, 22, 23,
    24, 25, 255, 255, 255, 255, 255, 255, 26, 27, 28, 29, 30, 31, 32, 33, 34, 35, 36, 37, 38,
    39, 40, 41, 42, 43, 44, 45, 46, 47, 48, 49, 50, 51]

/-- `c < 0`, of a `char` that has a sign or has none. -/
def negative (signed : Bool) (c : UInt8) : Bool := signed && decide (128 ≤ c)

/-- `base64_decode_value`, as a `char`. The table has no element at its own size. -/
def base64DecodeValue (signed : Bool) (valueIn : UInt8) : Option UInt8 :=
  let valueIn := valueIn - 43
  if negative signed valueIn ∨ valueIn > 80 then some 255 else decoding[valueIn.toNat]?

/-- `*plainchar++ |= byte`. -/
def putOr (out : List UInt8) (p : ℕ) (byte : UInt8) : Option (List UInt8) := do
  let old ← out[p]?
  Block.set out p (old ||| byte)

/-- What the `while` of `base64_decode_block` does with a fragment: the buffer, `plainchar` and
the step behind it. -/
def decodeFragment (out : List UInt8) (p : ℕ) (step : DecodeStep) (fragment : UInt8) :
    Option (List UInt8 × ℕ × DecodeStep) :=
  match step with
  | .stepA => do
    let out ← Block.set out p ((fragment &&& 0x3F) <<< 2)
    return (out, p, .stepB)
  | .stepB => do
    let out ← putOr out p ((fragment &&& 0x30) >>> 4)
    let out ← Block.set out (p + 1) ((fragment &&& 0x0F) <<< 4)
    return (out, p + 1, .stepC)
  | .stepC => do
    let out ← putOr out p ((fragment &&& 0x3C) >>> 2)
    let out ← Block.set out (p + 1) ((fragment &&& 0x03) <<< 6)
    return (out, p + 1, .stepD)
  | .stepD => do
    let out ← putOr out p (fragment &&& 0x3F)
    return (out, p + 1, .stepA)

/-- The `while` of `base64_decode_block`, up to the end of the code. -/
def decodeLoop (signed : Bool) :
    List UInt8 → List UInt8 → ℕ → DecodeStep → Option (List UInt8 × ℕ × DecodeStep)
  | [], out, p, step => some (out, p, step)
  | codechar :: code, out, p, step => do
    let fragment ← base64DecodeValue signed codechar
    if negative signed fragment then decodeLoop signed code out p step
    else do
      let (out, p, step) ← decodeFragment out p step fragment
      decodeLoop signed code out p step

/-- **`base64_decode_block`** into a buffer: the buffer, how many bytes were put out and the
state that is left. -/
def base64DecodeBlock (signed : Bool) (code out : List UInt8) (st : DecodeState) :
    Option (List UInt8 × ℕ × DecodeState) := do
  let out ← Block.set out 0 st.plainchar
  let (out, p, step) ← decodeLoop signed code out 0 st.step
  let plainchar ← out[p]?
  return (out, p, ⟨step, plainchar⟩)

/-- One call after the other, each with a part of the code and a buffer: what they put out, and
the state that is left. -/
def decodeCalls (signed : Bool) :
    DecodeState → List (List UInt8 × List UInt8) → Option (List (List UInt8) × DecodeState)
  | st, [] => some ([], st)
  | st, (code, out) :: calls => do
    let (out, len, st) ← base64DecodeBlock signed code out st
    let (outs, st) ← decodeCalls signed st calls
    return (out.take len :: outs, st)

/-! ## Fragments -/

/-- **The fragments of a code**: what is below zero is left out. -/
def fragments (signed : Bool) : List UInt8 → Option (List UInt8)
  | [] => some []
  | c :: code => do
    let fragment ← base64DecodeValue signed c
    let rest ← fragments signed code
    return if negative signed fragment then rest else fragment :: rest

/-- What a fragment puts out behind the bits that are kept, the step behind it and the bits that
are kept then. -/
def emit (step : DecodeStep) (kept fragment : UInt8) : List UInt8 × DecodeStep × UInt8 :=
  match step with
  | .stepA => ([], .stepB, (fragment &&& 0x3F) <<< 2)
  | .stepB => ([kept ||| (fragment &&& 0x30) >>> 4], .stepC, (fragment &&& 0x0F) <<< 4)
  | .stepC => ([kept ||| (fragment &&& 0x3C) >>> 2], .stepD, (fragment &&& 0x03) <<< 6)
  | .stepD => ([kept ||| (fragment &&& 0x3F)], .stepA, 0)

/-- **The bytes of fragments**, and the step and the bits behind them. -/
def bytes : List UInt8 → DecodeStep → UInt8 → List UInt8 × DecodeStep × UInt8
  | [], step, kept => ([], step, kept)
  | fragment :: fs, step, kept =>
    let r := emit step kept fragment
    let r' := bytes fs r.2.1 r.2.2
    (r.1 ++ r'.1, r'.2)

variable {signed : Bool} {code fs gs out : List UInt8} {step : DecodeStep}
  {kept : UInt8} {p : ℕ}

theorem fragments_append (code code' : List UInt8) :
    fragments signed (code ++ code') = (fragments signed code).bind fun fs =>
      (fragments signed code').map (fs ++ ·) := by
  induction code with
  | nil =>
    show fragments signed code' = (fragments signed code').map ([] ++ ·)
    simp
  | cons c code ih =>
    rw [List.cons_append, fragments, fragments, ih]
    cases base64DecodeValue signed c with
    | none => rfl
    | some fragment =>
      cases fragments signed code with
      | none => rfl
      | some fs =>
        cases fragments signed code' with
        | none => rfl
        | some gs =>
          simp only [Option.bind_eq_bind, Option.bind_some, Option.map_some, Option.pure_def]
          split <;> rfl

theorem bytes_append (fs gs : List UInt8) (step : DecodeStep) (kept : UInt8) :
    bytes (fs ++ gs) step kept =
      ((bytes fs step kept).1 ++ (bytes gs (bytes fs step kept).2.1 (bytes fs step kept).2.2).1,
        (bytes gs (bytes fs step kept).2.1 (bytes fs step kept).2.2).2) := by
  induction fs generalizing step kept with
  | nil => rfl
  | cons fragment fs ih => simp only [List.cons_append, bytes, ih, List.append_assoc]

/-- A code has no more fragments than characters. -/
theorem length_fragments_le (h : fragments signed code = some fs) :
    fs.length ≤ code.length := by
  induction code generalizing fs with
  | nil => exact (Option.some.inj h) ▸ Nat.le_refl 0
  | cons c code ih =>
    rw [fragments] at h
    obtain ⟨fragment, -, h⟩ := Option.bind_eq_some_iff.mp h
    obtain ⟨rest, hrest, h⟩ := Option.bind_eq_some_iff.mp h
    have hle := ih hrest
    obtain rfl := Option.some.inj h
    split <;> simp only [List.length_cons] <;> omega

/-- Every fragment puts out one byte at most. -/
theorem length_bytes_le (fs : List UInt8) (step : DecodeStep) (kept : UInt8) :
    (bytes fs step kept).1.length ≤ fs.length := by
  induction fs generalizing step kept with
  | nil => exact Nat.le_refl 0
  | cons fragment fs ih =>
    have hemit : (emit step kept fragment).1.length ≤ 1 := by
      cases step <;> simp [emit]
    have hle := ih (emit step kept fragment).2.1 (emit step kept fragment).2.2
    simp only [bytes, List.length_append, List.length_cons]
    omega

/-! ## The buffer -/

/-- **Bytes were put to a buffer**, in place of what was there. -/
structure Put (out : List UInt8) (p : ℕ) (bs out' : List UInt8) : Prop where
  length : out'.length = out.length
  taken : out'.take (p + bs.length) = out.take p ++ bs

/-- The bits that are kept are where the next byte will be. -/
def HasKept (out : List UInt8) (p : ℕ) (step : DecodeStep) (kept : UInt8) : Prop :=
  step = .stepA ∨ out[p]? = some kept

variable {out₁ out₂ bs bs₁ bs₂ : List UInt8} {fragment x : UInt8}

theorem put_nil (out : List UInt8) (p : ℕ) : Put out p [] out :=
  ⟨rfl, by rw [List.length_nil, Nat.add_zero, List.append_nil]⟩

theorem Put.trans (h₁ : Put out p bs₁ out₁) (h₂ : Put out₁ (p + bs₁.length) bs₂ out₂) :
    Put out p (bs₁ ++ bs₂) out₂ :=
  ⟨h₂.length.trans h₁.length, by
    rw [List.length_append, ← Nat.add_assoc, h₂.taken, h₁.taken, List.append_assoc]⟩

/-- An element is set behind what was put. -/
theorem Put.set (h : Put out p bs out₁) (hset : Block.set out₁ (p + bs.length) x = some out₂) :
    Put out p bs out₂ ∧ out₂[p + bs.length]? = some x := by
  unfold Block.set at hset
  split at hset
  · rename_i hp
    cases hset
    refine ⟨⟨List.length_set.trans h.length, ?_⟩, ?_⟩
    · rw [List.take_set_of_le (Nat.le_refl _), h.taken]
    · rw [List.getElem?_set_self hp]
  · cases hset

/-- A byte is put where bits were kept. -/
theorem exists_putOr (hroom : p < out.length) (hkept : out[p]? = some kept) (byte : UInt8) :
    ∃ out', putOr out p byte = some out' ∧ Put out p [kept ||| byte] out' := by
  refine ⟨out.set p (kept ||| byte), ?_, List.length_set, ?_⟩
  · rw [putOr, hkept]
    exact if_pos hroom
  · have htake := Block.take_of_set (b := out) (p := p) (x := kept ||| byte) (if_pos hroom)
    exact htake

/-- A byte is put, and the bits behind it are kept. -/
theorem exists_putOr_set (hroom : p + 1 < out.length) (hkept : out[p]? = some kept)
    (byte x : UInt8) :
    ∃ out₁ out₂, putOr out p byte = some out₁ ∧ Block.set out₁ (p + 1) x = some out₂ ∧
      Put out p [kept ||| byte] out₂ ∧ out₂[p + 1]? = some x := by
  obtain ⟨out₁, hput, hPut⟩ := exists_putOr (by omega) hkept byte
  obtain ⟨out₂, hset⟩ : ∃ out₂, Block.set out₁ (p + 1) x = some out₂ :=
    ⟨_, if_pos (by rw [hPut.length]; exact hroom)⟩
  obtain ⟨hPut', hx⟩ := hPut.set hset
  exact ⟨out₁, out₂, hput, hset, hPut', hx⟩

/-- **A fragment** puts out what it should, and keeps the rest. -/
theorem exists_decodeFragment (hroom : p + 1 < out.length) (hkept : HasKept out p step kept)
    (fragment : UInt8) :
    ∃ out', decodeFragment out p step fragment =
        some (out', p + (emit step kept fragment).1.length, (emit step kept fragment).2.1) ∧
      Put out p (emit step kept fragment).1 out' ∧
      HasKept out' (p + (emit step kept fragment).1.length) (emit step kept fragment).2.1
        (emit step kept fragment).2.2 := by
  cases step with
  | stepA =>
    obtain ⟨out', hset⟩ : ∃ out', Block.set out p ((fragment &&& 0x3F) <<< 2) = some out' :=
      ⟨_, if_pos (by omega)⟩
    obtain ⟨hput, hx⟩ := (put_nil out p).set hset
    exact ⟨out', by rw [decodeFragment, hset]; rfl, hput, Or.inr hx⟩
  | stepB =>
    obtain ⟨out₁, out₂, hput, hset, hPut, hx⟩ :=
      exists_putOr_set hroom (hkept.resolve_left (by decide)) ((fragment &&& 0x30) >>> 4)
        ((fragment &&& 0x0F) <<< 4)
    refine ⟨out₂, ?_, hPut, Or.inr hx⟩
    rw [decodeFragment, hput, Option.bind_eq_bind, Option.bind_some, hset]
    rfl
  | stepC =>
    obtain ⟨out₁, out₂, hput, hset, hPut, hx⟩ :=
      exists_putOr_set hroom (hkept.resolve_left (by decide)) ((fragment &&& 0x3C) >>> 2)
        ((fragment &&& 0x03) <<< 6)
    refine ⟨out₂, ?_, hPut, Or.inr hx⟩
    rw [decodeFragment, hput, Option.bind_eq_bind, Option.bind_some, hset]
    rfl
  | stepD =>
    obtain ⟨out', hput, hPut⟩ := exists_putOr (show p < out.length by omega)
      (hkept.resolve_left (by decide)) (fragment &&& 0x3F)
    exact ⟨out', by rw [decodeFragment, hput]; rfl, hPut, Or.inl rfl⟩

/-- **A code** puts out the bytes of its fragments. -/
theorem exists_decodeLoop (hf : fragments signed code = some fs)
    (hroom : p + code.length < out.length) (hkept : HasKept out p step kept) :
    ∃ out', decodeLoop signed code out p step =
        some (out', p + (bytes fs step kept).1.length, (bytes fs step kept).2.1) ∧
      Put out p (bytes fs step kept).1 out' ∧
      HasKept out' (p + (bytes fs step kept).1.length) (bytes fs step kept).2.1
        (bytes fs step kept).2.2 := by
  induction code generalizing fs out p step kept with
  | nil =>
    obtain rfl := Option.some.inj hf
    exact ⟨out, rfl, put_nil out p, hkept⟩
  | cons c code ih =>
    rw [fragments] at hf
    obtain ⟨fragment, hfragment, hf⟩ := Option.bind_eq_some_iff.mp hf
    obtain ⟨rest, hrest, hf⟩ := Option.bind_eq_some_iff.mp hf
    obtain rfl := Option.some.inj hf
    rw [List.length_cons] at hroom
    rw [decodeLoop, hfragment, Option.bind_eq_bind, Option.bind_some]
    by_cases hneg : negative signed fragment = true
    · rw [if_pos hneg, if_pos hneg]
      exact ih hrest (by omega) hkept
    · rw [if_neg hneg, if_neg hneg]
      obtain ⟨out₁, hone, hput, hkept'⟩ :=
        exists_decodeFragment (p := p) (by omega) hkept fragment
      have hlength : (emit step kept fragment).1.length ≤ 1 := by
        cases step <;> simp [emit]
      obtain ⟨out₂, hloop, hput', hkept''⟩ := ih hrest
        (by rw [hput.length]; omega) hkept'
      rw [hone, Option.bind_eq_bind, Option.bind_some]
      refine ⟨out₂, ?_, hput.trans hput', ?_⟩
      · rw [bytes, List.length_append, ← Nat.add_assoc]
        exact hloop
      · rw [bytes, List.length_append, ← Nat.add_assoc]
        exact hkept''

/-- The state that is left keeps what it should. -/
def Keeps (st : DecodeState) (step : DecodeStep) (kept : UInt8) : Prop :=
  st.step = step ∧ (step = .stepA ∨ st.plainchar = kept)

/-- **A call** puts out the bytes of the fragments of its code. -/
theorem exists_base64DecodeBlock {st : DecodeState} (hf : fragments signed code = some fs)
    (hroom : code.length < out.length) (hst : Keeps st step kept) :
    ∃ out' st', base64DecodeBlock signed code out st =
        some (out', (bytes fs step kept).1.length, st') ∧ out'.length = out.length ∧
      out'.take (bytes fs step kept).1.length = (bytes fs step kept).1 ∧
      Keeps st' (bytes fs step kept).2.1 (bytes fs step kept).2.2 := by
  obtain ⟨hstep, hplain⟩ := hst
  have hpos : 0 < out.length := by omega
  have hset : Block.set out 0 st.plainchar = some (out.set 0 st.plainchar) := if_pos hpos
  have hkept : HasKept (out.set 0 st.plainchar) 0 step kept := by
    rcases hplain with hA | hplain
    · exact Or.inl hA
    · exact Or.inr (by rw [List.getElem?_set_self hpos, hplain])
  obtain ⟨out', hloop, hput, hkept'⟩ := exists_decodeLoop (p := 0) hf
    (by rw [List.length_set]; omega) hkept
  rw [Nat.zero_add] at hloop hkept'
  have hle := (length_bytes_le fs step kept).trans (length_fragments_le hf)
  have hlength : out'.length = out.length := hput.length.trans List.length_set
  have htaken := hput.taken
  rw [Nat.zero_add, List.take_zero, List.nil_append] at htaken
  obtain ⟨plainchar, hread⟩ : ∃ x, out'[(bytes fs step kept).1.length]? = some x :=
    ⟨_, List.getElem?_eq_getElem (by omega)⟩
  refine ⟨out', ⟨_, plainchar⟩, ?_, hlength, htaken, rfl, ?_⟩
  · rw [base64DecodeBlock, hset, Option.bind_eq_bind, Option.bind_some, hstep, hloop,
      Option.bind_eq_bind, Option.bind_some]
    dsimp only
    rw [hread]
    rfl
  · exact hkept'.imp_right fun h => Option.some.inj (hread.symm.trans h)

/-- **However the code is cut**, and whatever the buffers are, the calls put out the bytes of
its fragments. -/
theorem exists_decodeCalls {calls : List (List UInt8 × List UInt8)} {st : DecodeState}
    (hf : fragments signed (calls.map Prod.fst).flatten = some fs)
    (hroom : ∀ c ∈ calls, c.1.length < c.2.length) (hst : Keeps st step kept) :
    ∃ outs st', decodeCalls signed st calls = some (outs, st') ∧
      outs.flatten = (bytes fs step kept).1 ∧
      Keeps st' (bytes fs step kept).2.1 (bytes fs step kept).2.2 := by
  induction calls generalizing fs st step kept with
  | nil =>
    obtain rfl := Option.some.inj hf
    exact ⟨[], st, rfl, rfl, hst⟩
  | cons c calls ih =>
    rw [List.map_cons, List.flatten_cons, fragments_append] at hf
    obtain ⟨gs, hgs, hf⟩ := Option.bind_eq_some_iff.mp hf
    obtain ⟨hs, hhs, rfl⟩ := Option.map_eq_some_iff.mp hf
    obtain ⟨out', st₁, hblock, -, htake, hst₁⟩ :=
      exists_base64DecodeBlock hgs (hroom c List.mem_cons_self) hst
    obtain ⟨outs, st₂, hcalls, hflatten, hst₂⟩ := ih hhs
      (fun d hd => hroom d (List.mem_cons_of_mem _ hd)) hst₁
    refine ⟨out'.take (bytes gs step kept).1.length :: outs, st₂, ?_, ?_, ?_⟩
    · rw [decodeCalls, hblock, Option.bind_eq_bind, Option.bind_some]
      dsimp only
      rw [hcalls]
      rfl
    · rw [List.flatten_cons, htake, hflatten, bytes_append]
    · rw [bytes_append]
      exact hst₂

/-! ## What the encoder wrote -/

/-- Values of six bits. -/
def sextets : List UInt8 → List UInt8
  | a :: b :: c :: rest =>
    (a &&& 0xFC) >>> 2 :: ((a &&& 0x03) <<< 4 ||| (b &&& 0xF0) >>> 4) ::
      ((b &&& 0x0F) <<< 2 ||| (c &&& 0xC0) >>> 6) :: (c &&& 0x3F) :: sextets rest
  | [a, b] =>
    [(a &&& 0xFC) >>> 2, (a &&& 0x03) <<< 4 ||| (b &&& 0xF0) >>> 4, (b &&& 0x0F) <<< 2]
  | [a] => [(a &&& 0xFC) >>> 2, (a &&& 0x03) <<< 4]
  | [] => []

/-- **The table is the inverse of the alphabet.** -/
theorem base64DecodeValue_base64EncodeValue (signed : Bool) {v : UInt8} (hv : v < 64) :
    base64DecodeValue signed (base64EncodeValue v) = some v ∧ negative signed v = false := by
  have hall : ∀ signed : Bool, ∀ i : Fin 64,
      base64DecodeValue signed (base64EncodeValue (UInt8.ofNat i)) = some (UInt8.ofNat i) ∧
        negative signed (UInt8.ofNat i) = false := by
    decide +kernel
  have h := hall signed ⟨v.toNat, UInt8.lt_iff_toNat_lt.mp hv⟩
  rwa [UInt8.ofNat_toNat] at h

theorem fragments_encode {v : UInt8} (hv : v < 64) (code : List UInt8) :
    fragments signed (base64EncodeValue v :: code) = (fragments signed code).map (v :: ·) := by
  obtain ⟨hvalue, hneg⟩ := base64DecodeValue_base64EncodeValue signed hv
  rw [fragments, hvalue, Option.bind_eq_bind, Option.bind_some, hneg]
  cases fragments signed code <;> rfl

/-- The fields of a group have six bits. -/
theorem fields_lt (a b c : UInt8) :
    (a &&& 0xFC) >>> 2 < 64 ∧ (a &&& 0x03) <<< 4 ||| (b &&& 0xF0) >>> 4 < 64 ∧
      (b &&& 0x0F) <<< 2 ||| (c &&& 0xC0) >>> 6 < 64 ∧ c &&& 0x3F < 64 ∧
      (a &&& 0x03) <<< 4 < 64 ∧ (b &&& 0x0F) <<< 2 < 64 := by
  have ha := a.toNat_lt
  have hb := b.toNat_lt
  have hc := c.toNat_lt
  refine ⟨?_, ?_, ?_, ?_, ?_, ?_⟩ <;> refine UInt8.lt_iff_toNat_lt.mpr ?_
  · rw [high_six]
    show a.toNat / 4 < 64
    omega
  · rw [middle_ab]
    show 2 ^ 4 * (a.toNat % 4) + b.toNat / 16 < 64
    omega
  · rw [middle_bc]
    show 2 ^ 2 * (b.toNat % 16) + c.toNat / 64 < 64
    omega
  · rw [low_six]
    exact Nat.mod_lt _ (by decide)
  · rw [low_two]
    show 2 ^ 4 * (a.toNat % 4) < 64
    omega
  · rw [low_four]
    show 2 ^ 2 * (b.toNat % 16) < 64
    omega

/-- What is passed over where a `char` has a sign: the padding and the line feed. -/
theorem fragments_skip {c : UInt8} (hc : c = 0x3D ∨ c = 0x0A) (code : List UInt8) :
    fragments true (c :: code) = fragments true code := by
  obtain ⟨v, hvalue, hneg⟩ : ∃ v, base64DecodeValue true c = some v ∧
      negative true v = true := by
    rcases hc with rfl | rfl
    · exact ⟨254, by decide, by decide⟩
    · exact ⟨255, by decide, by decide⟩
  rw [fragments, hvalue, Option.bind_eq_bind, Option.bind_some, hneg]
  cases fragments true code <;> rfl

/-- **The fragments of what the encoder writes**, if a `char` has a sign, or if there is nothing
to be passed over. -/
theorem fragments_writtenFrom (s : List UInt8) (r : UInt8) (k : ℕ)
    (hskip : signed = true ∨ s.length % 3 = 0 ∧ k + s.length / 3 < 18) :
    fragments signed (writtenFrom s ⟨.stepA, r, k⟩) = some (sextets s) := by
  match s with
  | a :: b :: c :: rest =>
    obtain ⟨h₁, h₂, h₃, h₄, -, -⟩ := fields_lt a b c
    simp only [List.length_cons] at hskip
    have hrest := fragments_writtenFrom rest (c &&& 0x3F) (if k + 1 = 18 then 0 else k + 1) (by
      refine hskip.imp_right fun h => ⟨by omega, ?_⟩
      rw [if_neg (by omega)]
      omega)
    have hfeed : fragments signed ((if k + 1 = 18 then [0x0A] else []) ++
        writtenFrom rest ⟨.stepA, c &&& 0x3F, if k + 1 = 18 then 0 else k + 1⟩) =
        some (sextets rest) := by
      by_cases hfull : k + 1 = 18
      · obtain rfl : signed = true := hskip.resolve_right fun h => by omega
        rw [if_pos hfull, List.singleton_append, fragments_skip (Or.inr rfl)]
        exact hrest
      · rw [if_neg hfull, List.nil_append]
        exact hrest
    have hwritten : writtenFrom (a :: b :: c :: rest) ⟨.stepA, r, k⟩ =
        base64EncodeValue ((a &&& 0xFC) >>> 2) ::
        base64EncodeValue ((a &&& 0x03) <<< 4 ||| (b &&& 0xF0) >>> 4) ::
        base64EncodeValue ((b &&& 0x0F) <<< 2 ||| (c &&& 0xC0) >>> 6) ::
        base64EncodeValue (c &&& 0x3F) :: ((if k + 1 = 18 then [0x0A] else []) ++
          writtenFrom rest ⟨.stepA, c &&& 0x3F, if k + 1 = 18 then 0 else k + 1⟩) := by
      simp only [writtenFrom, base64EncodeBlock, charsPerLine]
      simp
    rw [hwritten, fragments_encode h₁, fragments_encode h₂, fragments_encode h₃,
      fragments_encode h₄, hfeed]
    rfl
  | [a, b] =>
    obtain ⟨h₁, h₂, -, -, -, h₆⟩ := fields_lt a b 0
    obtain rfl : signed = true := hskip.resolve_right fun h => by simp at h
    show fragments true (base64EncodeValue _ :: base64EncodeValue _ ::
      base64EncodeValue ((b &&& 0x0F) <<< 2) :: [0x3D]) = _
    rw [fragments_encode h₁, fragments_encode h₂, fragments_encode h₆,
      fragments_skip (Or.inl rfl)]
    rfl
  | [a] =>
    obtain ⟨h₁, -, -, -, h₅, -⟩ := fields_lt a 0 0
    obtain rfl : signed = true := hskip.resolve_right fun h => by simp at h
    show fragments true (base64EncodeValue _ ::
      base64EncodeValue ((a &&& 0x03) <<< 4) :: [0x3D, 0x3D]) = _
    rw [fragments_encode h₁, fragments_encode h₅, fragments_skip (Or.inl rfl),
      fragments_skip (Or.inl rfl)]
    rfl
  | [] => rfl

/-- The first byte of a group. -/
theorem first_byte (a b : UInt8) :
    ((a &&& 0xFC) >>> 2 &&& 0x3F) <<< 2 |||
      (((a &&& 0x03) <<< 4 ||| (b &&& 0xF0) >>> 4) &&& 0x30) >>> 4 = a := by
  apply UInt8.toBitVec_inj.mp
  refine BitVec.eq_of_getLsbD_eq fun i hi => ?_
  interval_cases i <;> simp

/-- The second one. -/
theorem second_byte (a b c : UInt8) :
    (((a &&& 0x03) <<< 4 ||| (b &&& 0xF0) >>> 4) &&& 0x0F) <<< 4 |||
      (((b &&& 0x0F) <<< 2 ||| (c &&& 0xC0) >>> 6) &&& 0x3C) >>> 2 = b := by
  apply UInt8.toBitVec_inj.mp
  refine BitVec.eq_of_getLsbD_eq fun i hi => ?_
  interval_cases i <;> simp

/-- The third one. -/
theorem third_byte (b c : UInt8) :
    (((b &&& 0x0F) <<< 2 ||| (c &&& 0xC0) >>> 6) &&& 0x03) <<< 6 ||| (c &&& 0x3F &&& 0x3F) =
    c := by
  apply UInt8.toBitVec_inj.mp
  refine BitVec.eq_of_getLsbD_eq fun i hi => ?_
  interval_cases i <;> simp

/-- **The bytes of sextets.** -/
theorem bytes_sextets (s : List UInt8) (kept : UInt8) :
    (bytes (sextets s) .stepA kept).1 = s := by
  match s with
  | a :: b :: c :: rest =>
    simp only [sextets, bytes, emit, List.nil_append, List.cons_append, first_byte, second_byte,
      third_byte, bytes_sextets rest]
  | [a, b] =>
    have hsecond := second_byte a b 0
    rw [UInt8.zero_and, UInt8.zero_shiftRight, UInt8.or_zero] at hsecond
    simp only [sextets, bytes, emit, List.nil_append, List.cons_append, first_byte, hsecond]
  | [a] =>
    have hfirst := first_byte a 0
    rw [UInt8.zero_and, UInt8.zero_shiftRight, UInt8.or_zero] at hfirst
    simp only [sextets, bytes, emit, List.nil_append, List.cons_append, hfirst]
  | [] => rfl

/-! ## What the padding becomes -/

/-- There is no element at the size of the table, which is where `{` would be. -/
theorem isSome_base64DecodeValue {c : UInt8} (h : c ≠ 0x7B) :
    (base64DecodeValue false c).isSome = true := by
  unfold base64DecodeValue
  dsimp only
  split
  · rfl
  · rename_i hinside
    have hle : ¬ c - 43 > 80 := fun hlarge => hinside (Or.inr hlarge)
    have hne : c - 43 ≠ 80 := fun heq => h (by rw [← UInt8.sub_add_cancel c 43, heq]; rfl)
    have hlt : (c - 43).toNat < decoding.length := by
      have hle' := mt UInt8.lt_iff_toNat_lt.mpr hle
      have hne' := mt UInt8.toNat_inj.mp hne
      change ¬ 80 < (c - 43).toNat at hle'
      change ¬ (c - 43).toNat = 80 at hne'
      change (c - 43).toNat < 80
      omega
    rw [List.getElem?_eq_getElem hlt]
    rfl

/-- Nothing is passed over where a `char` has no sign, and the table has an element for what the
encoder writes. -/
theorem exists_fragments {code : List UInt8} (h : ∀ c ∈ code, c ≠ 0x7B) :
    ∃ fs, fragments false code = some fs ∧ fs.length = code.length := by
  induction code with
  | nil => exact ⟨[], rfl, rfl⟩
  | cons c code ih =>
    obtain ⟨fs, hfs, hlength⟩ := ih fun d hd => h d (List.mem_cons_of_mem _ hd)
    obtain ⟨fragment, hfragment⟩ := Option.isSome_iff_exists.mp
      (isSome_base64DecodeValue (h c List.mem_cons_self))
    refine ⟨fragment :: fs, ?_, congrArg Nat.succ hlength⟩
    rw [fragments, hfragment, Option.bind_eq_bind, Option.bind_some, hfs]
    rfl

/-- How many fragments a group has in front of a step. -/
def DecodeStep.index : DecodeStep → ℕ
  | .stepA => 0
  | .stepB => 1
  | .stepC => 2
  | .stepD => 3

/-- **Four fragments are three bytes.** -/
theorem length_bytes (fs : List UInt8) (step : DecodeStep) (kept : UInt8) :
    (bytes fs step kept).1.length + 3 * step.index / 4 = 3 * (step.index + fs.length) / 4 := by
  induction fs generalizing step kept with
  | nil => simp [bytes]
  | cons fragment fs ih =>
    have hrest := ih (emit step kept fragment).2.1 (emit step kept fragment).2.2
    rw [bytes, List.length_append, List.length_cons]
    cases step <;> simp only [emit, DecodeStep.index, List.length_nil, List.length_singleton]
      at hrest ⊢ <;> omega

/-- Four characters are written for three bytes and for what is left, and line feeds. -/
theorem le_length_writtenFrom (s : List UInt8) (r : UInt8) (k : ℕ) :
    4 * ((s.length + 2) / 3) ≤ (writtenFrom s ⟨.stepA, r, k⟩).length := by
  match s with
  | a :: b :: c :: rest =>
    have hrest := le_length_writtenFrom rest (c &&& 0x3F) (if k + 1 = 18 then 0 else k + 1)
    rw [writtenFrom_group, List.length_append, List.length_append, Base64.length_encode]
    simp only [List.length_cons, List.length_nil]
    omega
  | [] | [_] | [_, _] => rw [writtenFrom_tail (by simp), Base64.length_encode]

/-! ## Both of them -/

/-- What calls of the encoder write, one behind the other, and `base64_encode_blockend`. -/
def encodeCalls : EncodeState → List (List UInt8) → List UInt8
  | st, [] => base64EncodeBlockend st
  | st, s :: pieces =>
    let (out, st) := base64EncodeBlock s st
    out ++ encodeCalls st pieces

theorem writtenFrom_append (s t : List UInt8) (st : EncodeState) :
    writtenFrom (s ++ t) st =
      (base64EncodeBlock s st).1 ++ writtenFrom t (base64EncodeBlock s st).2 := by
  induction s generalizing st with
  | nil => rfl
  | cons fragment s ih =>
    have hone : ∀ st, writtenFrom (s ++ t) st = (base64EncodeBlock (s ++ t) st).1 ++
      base64EncodeBlockend (base64EncodeBlock (s ++ t) st).2 := fun _ => rfl
    rw [List.cons_append, writtenFrom, base64EncodeBlock, base64EncodeBlock]
    cases st.step <;> simp only [List.cons_append, List.append_assoc, ← hone, ih]

/-- **The encoder does not see where the data is cut.** -/
theorem encodeCalls_eq (st : EncodeState) (pieces : List (List UInt8)) :
    encodeCalls st pieces = writtenFrom pieces.flatten st := by
  induction pieces generalizing st with
  | nil => rfl
  | cons s pieces ih =>
    rw [encodeCalls, List.flatten_cons, writtenFrom_append]
    exact congrArg (_ ++ ·) (ih _)

/-- **Data is encoded and decoded in pieces**, and the calls of the decoder get the characters
that those of the encoder wrote, cut in any way. With signs they put out the data; without, they
do if there is neither padding nor a line feed, and they do not if there is padding. -/
theorem round_trip (signed : Bool) (pieces : List (List UInt8))
    (calls : List (List UInt8 × List UInt8))
    (hcode : (calls.map Prod.fst).flatten = encodeCalls base64InitEncodestate pieces)
    (hroom : ∀ c ∈ calls, c.1.length < c.2.length) :
    ∃ outs st, decodeCalls signed base64InitDecodestate calls = some (outs, st) ∧
      (signed = true → outs.flatten = pieces.flatten) ∧
      (signed = false → 3 ∣ pieces.flatten.length → pieces.flatten.length < 54 →
        outs.flatten = pieces.flatten) ∧
      (signed = false → ¬ 3 ∣ pieces.flatten.length → outs.flatten ≠ pieces.flatten) := by
  rw [encodeCalls_eq] at hcode
  generalize pieces.flatten = s at hcode ⊢
  have hinit : Keeps base64InitDecodestate .stepA 0 := ⟨rfl, Or.inl rfl⟩
  by_cases hskip : signed = true ∨ s.length % 3 = 0 ∧ 0 + s.length / 3 < 18
  · obtain ⟨outs, st, hcalls, hflatten, -⟩ := exists_decodeCalls
      (hcode ▸ fragments_writtenFrom s 0 0 hskip) hroom hinit
    rw [bytes_sextets] at hflatten
    refine ⟨outs, st, hcalls, fun _ => hflatten, fun _ _ _ => hflatten, fun hsign hdvd => ?_⟩
    rcases hskip with hsigned | hshort
    · rw [hsign] at hsigned
      cases hsigned
    · exact absurd (Nat.dvd_of_mod_eq_zero hshort.1) hdvd
  · obtain rfl : signed = false := by
      cases signed
      · rfl
      · exact absurd (Or.inl rfl) hskip
    have hchars : ∀ c ∈ writtenFrom s base64InitEncodestate, c ≠ 0x7B :=
      forall_base64EncodeChars (P := (· ≠ 0x7B))
        (fun b => (Base64.alphabet_plain _ (base64EncodeValue_mem b)).2.2.2)
        (by decide) (by decide) s
    obtain ⟨fs, hfs, hlength⟩ := exists_fragments hchars
    obtain ⟨outs, st, hcalls, hflatten, -⟩ := exists_decodeCalls (hcode ▸ hfs) hroom hinit
    refine ⟨outs, st, hcalls, fun hsign => (by cases hsign), fun _ hdvd hshort => ?_,
      fun _ hdvd heq => ?_⟩
    · exact absurd (Or.inr ⟨Nat.mod_eq_zero_of_dvd hdvd, by omega⟩) hskip
    · -- More bytes are put out than there were.
      have hwritten := le_length_writtenFrom s 0 0
      have hbytes := length_bytes fs .stepA 0
      rw [← hflatten, heq, hlength] at hbytes
      simp only [DecodeStep.index] at hbytes
      have hrest : s.length % 3 ≠ 0 := fun h => hdvd (Nat.dvd_of_mod_eq_zero h)
      have hsame : (writtenFrom s base64InitEncodestate).length =
        (writtenFrom s ⟨.stepA, 0, 0⟩).length := rfl
      have hwhole : 3 * ((s.length + 2) / 3) ≤ s.length := by omega
      omega

/-- `foob`, cut in two ways. -/
theorem round_trip_foob :
    ∃ outs st, decodeCalls true base64InitDecodestate
        [(ascii "Zm9", List.replicate 4 0), (ascii "vYg==", List.replicate 6 7)] = some
        (outs, st) ∧
      outs.flatten = ascii "foob" := by
  obtain ⟨outs, st, hcalls, hflatten, -⟩ := round_trip true [ascii "f", ascii "oob"]
    [(ascii "Zm9", List.replicate 4 0), (ascii "vYg==", List.replicate 6 7)]
    (by decide) (by decide)
  exact ⟨outs, st, hcalls, hflatten rfl⟩

end Cdecode
