import Mathlib.Data.List.Induction
import Esp31b.PrintNumber

/-!
# `itoa` and its kin

`itoa`, `ltoa`, `utoa` and `ultoa` are one program for four types: the digits are
put into the buffer of the caller from the lowest one on, a sign behind them, and
all of it is reversed in place. Digits are looked up in a table of 16 characters,
and an access outside of it, or of the buffer, has no result.

The signed ones divide the absolute value. The lowest number has none, so it stays
negative, and the indices of its digits are negative too. It is the only one for
which a numeral is not written (`Noniso.formats_iff`).
-/

namespace Noniso

/-- The character at an index of the table. -/
def digitAt (index : ℤ) : Option UInt8 :=
  if 0 ≤ index then (ascii "0123456789abcdef")[index.toNat]? else none

/-- The loop over the quotients; a number of 32 bits has at most 32 digits. -/
def digitsLoop (base : ℤ) : ℕ → List UInt8 → ℕ → ℤ → Option (List UInt8 × ℕ)
  | 0, _, _, _ => none
  | turns + 1, result, out, quotient => do
    let tmp := quotient.tdiv base
    let c ← digitAt (quotient - tmp * base)
    let result ← Block.set result out c
    if tmp = 0 then return (result, out + 1) else digitsLoop base turns result (out + 1) tmp

/-- The loop of `reverse`. -/
def reverseLoop : ℕ → List UInt8 → ℕ → ℕ → Option (List UInt8)
  | 0, _, _, _ => none
  | turns + 1, b, is, ie =>
    if is < ie then do
      let tmp ← b[ie]?
      let c ← b[is]?
      let b ← Block.set b ie c
      let b ← Block.set b is tmp
      reverseLoop turns b (is + 1) (ie - 1)
    else some b

/-- `reverse`. -/
def reverse (b : List UInt8) (begin «end» : ℕ) : Option (List UInt8) :=
  reverseLoop (b.length + 1) b begin («end» - 1)

/-- The sign behind the digits. -/
def putSign (result : List UInt8) (out : ℕ) (negative : Bool) : Option (List UInt8 × ℕ) :=
  if negative then (Block.set result out 0x2D).map (·, out + 1) else some (result, out)

/-- **The body of the four functions**: the buffer afterwards. -/
def writeNumber (quotient : ℤ) (negative : Bool) (result : List UInt8) (base : ℤ) :
    Option (List UInt8) :=
  if base < 2 ∨ base > 16 then Block.set result 0 0
  else do
    let (result, out) ← digitsLoop base 32 result 0 quotient
    let (result, out) ← putSign result out negative
    let result ← reverse result 0 out
    Block.set result out 0

/-- `abs`, of an `int`. -/
def abs (value : ℤ) : ℤ := int32 value.natAbs

/-- `itoa`. -/
def itoa (value : Int32) (result : List UInt8) (base : ℤ) : Option (List UInt8) :=
  writeNumber (abs value.toInt) (value < 0) result base

/-- `ltoa`. -/
def ltoa (value : Int32) (result : List UInt8) (base : ℤ) : Option (List UInt8) :=
  writeNumber (abs value.toInt) (value < 0) result base

/-- `utoa`. -/
def utoa (value : UInt32) (result : List UInt8) (base : ℤ) : Option (List UInt8) :=
  writeNumber value.toNat false result base

/-- `ultoa`. -/
def ultoa (value : UInt32) (result : List UInt8) (base : ℤ) : Option (List UInt8) :=
  writeNumber value.toNat false result base

/-! ## Canonical numerals -/

/-- A digit, above 9 a small letter. -/
def digitChar (d : ℕ) : UInt8 := (ascii "0123456789abcdef").getD d 0

/-- **The numeral of a number.** -/
def canonical (base n : ℕ) : List UInt8 := (Nat.lowDigits base n).reverse.map digitChar

/-- With a sign in front if it is negative. -/
def canonicalInt (base : ℕ) (v : ℤ) : List UInt8 :=
  if v < 0 then 0x2D :: canonical base v.natAbs else canonical base v.natAbs

variable {base n : ℕ}

theorem digitVal_digitChar {d : ℕ} (hd : d < 16) : digitVal (digitChar d) = d := by
  have hall : ∀ d < 16, digitVal (digitChar d) = d := by decide
  exact hall d hd

theorem digitAt_eq {d : ℕ} (hd : d < 16) : digitAt d = some (digitChar d) := by
  have hall : ∀ d : ℕ, d < 16 → digitAt d = some (digitChar d) := by decide
  exact hall d hd

theorem tolower_printChar {d : ℕ} (hd : d < 16) :
    tolower (Print.printChar (UInt8.ofNat d)) = digitChar d := by
  have hall : ∀ d < 16, tolower (Print.printChar (UInt8.ofNat d)) = digitChar d := by decide
  exact hall d hd

/-- **What is printed is canonical**, but for capital letters. -/
theorem map_tolower_printed (hbase : 1 < base) (hbase' : base ≤ 16) (n : ℕ) :
    (Print.printed base n).map tolower = canonical base n := by
  rw [Print.printed, canonical, List.map_map]
  refine List.map_congr_left fun d hd => tolower_printChar ?_
  exact (Nat.lowDigits_lt hbase d (List.mem_reverse.mp hd)).trans_le hbase'

/-- **Its value is the number.** -/
theorem numeral_canonical (hbase : 1 < base) (hbase' : base ≤ 16) (n : ℕ) :
    numeral base (canonical base n) = n := by
  have hdigits := Nat.lowDigits_lt (n := n) hbase
  have hfold : ∀ l : List ℕ, (∀ d ∈ l, d < base) →
      numeral base (l.reverse.map digitChar) = Nat.ofDigits base l := by
    intro l hl
    rw [numeral, List.map_reverse, List.foldl_reverse, Nat.ofDigits_eq_foldr]
    induction l with
    | nil => rfl
    | cons d l ih =>
      have hd : d < 16 := (hl d List.mem_cons_self).trans_le hbase'
      rw [List.map_cons, List.foldr_cons, List.foldr_cons, digitVal_digitChar hd,
        ih fun e he => hl e (List.mem_cons_of_mem _ he)]
      push_cast
      ring
  rw [canonical, hfold _ hdigits, Nat.ofDigits_lowDigits]

/-! ## The two loops -/

theorem lowDigits_length_pos : 0 < (Nat.lowDigits base n).length :=
  List.length_pos_iff.mpr Nat.lowDigits_ne_nil

/-- **The digits are put down from the lowest one on.** -/
theorem digitsLoop_eq (hbase : 1 < base) (hbase' : base ≤ 16) {turns : ℕ}
    (pre mid post : List UInt8) (hmid : mid.length = (Nat.lowDigits base n).length)
    (hturns : mid.length ≤ turns) :
    digitsLoop base turns (pre ++ mid ++ post) pre.length n =
      some (pre ++ (Nat.lowDigits base n).map digitChar ++ post, pre.length + mid.length) := by
  induction turns generalizing n pre mid with
  | zero =>
    have hpos : 0 < (Nat.lowDigits base n).length := lowDigits_length_pos
    omega
  | succ turns ih =>
    have hdigit : n % base < 16 := (Nat.mod_lt n (by omega)).trans_le hbase'
    rw [Nat.lowDigits_eq hbase, List.length_cons] at hmid
    match mid with
    | [] => cases hmid
    | x :: mid =>
      rw [List.length_cons] at hmid hturns
      have hset : Block.set (pre ++ x :: mid ++ post) pre.length (digitChar (n % base)) =
          some (pre ++ digitChar (n % base) :: mid ++ post) := by
        simpa using Block.set_append pre (mid ++ post) x (digitChar (n % base))
      have htmp : (n : ℤ).tdiv base = (n / base : ℕ) := rfl
      have hindex : (n : ℤ) - (n / base : ℕ) * base = (n % base : ℕ) := by
        have hdiv : (base : ℤ) * (n / base : ℕ) + (n % base : ℕ) = n :=
          congrArg Nat.cast (Nat.div_add_mod n base)
        linarith
      rw [digitsLoop, htmp, hindex, digitAt_eq hdigit, Option.bind_eq_bind, Option.bind_some,
        hset, Option.bind_eq_bind, Option.bind_some, Nat.lowDigits_eq hbase n]
      by_cases hlast : n / base = 0
      · rw [if_pos hlast, List.length_nil] at hmid
        obtain rfl : mid = [] := List.eq_nil_of_length_eq_zero (by omega)
        simp [hlast]
      · rw [if_neg hlast] at hmid
        have hrest :=
          ih (n := n / base) (pre ++ [digitChar (n % base)]) mid (by omega) (by omega)
        rw [List.length_append, List.length_singleton] at hrest
        rw [if_neg (by exact_mod_cast hlast), if_neg hlast]
        simpa [Nat.add_assoc, Nat.add_comm 1] using hrest

/-- **A negative quotient** has a digit with a negative index: the remainders are
not positive, and not all of them are 0. -/
theorem digitsLoop_neg {turns : ℕ} {result : List UInt8} {out : ℕ} {quotient : ℤ}
    (h : quotient < 0) : digitsLoop base turns result out quotient = none := by
  induction turns generalizing result out quotient with
  | zero => rfl
  | succ turns ih =>
    have hindex : quotient - quotient.tdiv base * base = quotient.tmod base := by
      have hdiv := Int.tmod_add_mul_tdiv quotient base
      linarith
    have hsign : quotient.tmod base ≤ 0 := by
      have hopposite := Int.tmod_nonneg (a := -quotient) base (by omega)
      rw [Int.neg_tmod] at hopposite
      omega
    have hquotient : quotient.tdiv base ≤ 0 := by
      have hopposite := Int.tdiv_nonneg (a := -quotient) (b := base) (by omega) (by omega)
      rw [Int.neg_tdiv] at hopposite
      omega
    rw [digitsLoop, hindex]
    by_cases hneg : quotient.tmod base < 0
    · rw [digitAt, if_neg (by omega)]
      rfl
    · -- The number is a multiple of the base, so the quotient is not 0.
      have hmore : quotient.tdiv base < 0 := by
        have hdiv := Int.tmod_add_mul_tdiv quotient base
        refine lt_of_le_of_ne hquotient fun hzero => ?_
        rw [hzero, Int.mul_zero] at hdiv
        omega
      refine Option.bind_eq_none_iff.mpr fun c _ => Option.bind_eq_none_iff.mpr fun b _ => ?_
      rw [if_neg (by omega)]
      exact ih hmore

/-- **The bytes between the two pointers change places.** -/
theorem reverseLoop_eq (pre mid post : List UInt8) {turns : ℕ}
    (hturns : mid.length < 2 * turns) :
    reverseLoop turns (pre ++ mid ++ post) pre.length (pre.length + mid.length - 1) =
      some (pre ++ mid.reverse ++ post) := by
  induction mid using List.bidirectionalRec generalizing pre post turns with
  | nil =>
    obtain ⟨turns, rfl⟩ : ∃ t, turns = t + 1 := ⟨turns - 1, by simp at hturns; omega⟩
    rw [reverseLoop, if_neg (by simp)]
    rfl
  | singleton x =>
    obtain ⟨turns, rfl⟩ : ∃ t, turns = t + 1 := ⟨turns - 1, by simp at hturns; omega⟩
    rw [reverseLoop, if_neg (by simp)]
    rfl
  | cons_append x mid y ih =>
    obtain ⟨turns, rfl⟩ : ∃ t, turns = t + 1 := ⟨turns - 1, by omega⟩
    have hlength : (x :: (mid ++ [y])).length = mid.length + 2 := by simp
    rw [hlength] at hturns ⊢
    have hend : pre.length + (mid.length + 2) - 1 = (pre ++ x :: mid).length := by simp
    have hb : pre ++ x :: (mid ++ [y]) ++ post = pre ++ x :: mid ++ y :: post := by simp
    have hlast : (pre ++ x :: mid ++ y :: post)[(pre ++ x :: mid).length]? = some y :=
      Block.getElem?_append _ _ _
    have hfirst : (pre ++ x :: mid ++ y :: post)[pre.length]? = some x := by
      rw [List.append_assoc]
      exact Block.getElem?_append _ _ _
    have hset : Block.set (pre ++ x :: mid ++ y :: post) (pre ++ x :: mid).length x =
        some (pre ++ x :: mid ++ x :: post) := Block.set_append _ _ _ _
    have hset' : Block.set (pre ++ x :: mid ++ x :: post) pre.length y =
        some (pre ++ y :: (mid ++ x :: post)) := by
      rw [List.append_assoc]
      exact Block.set_append _ _ _ _
    have hrest := ih (pre ++ [y]) (x :: post) (show mid.length < 2 * turns by omega)
    rw [List.length_append, List.length_singleton] at hrest
    have hnext : (pre ++ x :: mid).length - 1 = pre.length + 1 + mid.length - 1 := by
      simp
    rw [hend, hb, reverseLoop, if_pos (by simp), hnext]
    simp only [Option.bind_eq_bind, Option.bind_some, hlast, hfirst, hset, hset']
    simpa using hrest

theorem reverse_eq (mid post : List UInt8) :
    reverse (mid ++ post) 0 mid.length = some (mid.reverse ++ post) := by
  have hloop := reverseLoop_eq [] mid post
    (show mid.length < 2 * ((mid ++ post).length + 1) by rw [List.length_append]; omega)
  rw [List.nil_append, List.nil_append, List.length_nil, Nat.zero_add] at hloop
  exact hloop

/-! ## The four functions -/

theorem length_canonical (base n : ℕ) :
    (canonical base n).length = (Nat.lowDigits base n).length := by
  rw [canonical, List.length_map, List.length_reverse]

/-- **The text and a NUL** are written to the start of any buffer with room for
them. -/
def Writes (f : List UInt8 → Option (List UInt8)) (text : List UInt8) : Prop :=
  ∀ result : List UInt8, text.length < result.length →
    f result = some (text ++ 0 :: result.drop (text.length + 1))

/-- **A quotient that is not negative** is written behind the sign. -/
theorem writes_writeNumber (hbase : 2 ≤ base) (hbase' : base ≤ 16) (hn : n < 2 ^ 32)
    (negative : Bool) :
    Writes (writeNumber n negative · base)
      (if negative then 0x2D :: canonical base n else canonical base n) := by
  intro result hroom
  have hlength : (Nat.lowDigits base n).length ≤ 32 :=
    Nat.length_lowDigits_le hbase (by decide) hn
  have hdigits : canonical base n = ((Nat.lowDigits base n).map digitChar).reverse := by
    rw [canonical, List.map_reverse]
  -- The part that the digits are put into, and what is behind it.
  obtain ⟨mid, post, rfl, hmid⟩ : ∃ mid post : List UInt8, result = mid ++ post ∧
      mid.length = (Nat.lowDigits base n).length :=
    ⟨result.take (Nat.lowDigits base n).length, result.drop (Nat.lowDigits base n).length,
      (List.take_append_drop _ _).symm, by
        split at hroom <;> simp only [List.length_cons, length_canonical] at hroom <;> simp <;>
          omega⟩
  have hloop := digitsLoop_eq hbase hbase' [] mid post hmid (hmid.trans_le hlength)
  rw [List.nil_append, List.nil_append, List.length_nil, Nat.zero_add, hmid] at hloop
  unfold writeNumber
  dsimp only
  rw [if_neg (by omega), hloop, Option.bind_eq_bind, Option.bind_some]
  cases negative with
  | false =>
    simp only [Bool.false_eq_true, if_false, length_canonical,
      List.length_append, hmid] at hroom ⊢
    match post with
    | [] => simp at hroom
    | z :: post =>
      have hreverse := reverse_eq ((Nat.lowDigits base n).map digitChar) (z :: post)
      have hnul := Block.set_append (canonical base n) post z 0
      rw [List.length_map, ← hdigits] at hreverse
      rw [length_canonical] at hnul
      rw [putSign, if_neg (by simp), Option.bind_eq_bind, Option.bind_some, hreverse]
      refine hnul.trans ?_
      rw [← hmid, List.drop_length_add_append]
      rfl
  | true =>
    simp only [if_true, List.length_cons, length_canonical, List.length_append, hmid] at hroom ⊢
    match post with
    | [] => simp at hroom
    | [y] => simp at hroom
    | y :: z :: post =>
      have hsign := Block.set_append ((Nat.lowDigits base n).map digitChar) (z :: post) y 0x2D
      have hreverse := reverse_eq ((Nat.lowDigits base n).map digitChar ++ [0x2D]) (z :: post)
      have hnul := Block.set_append (0x2D :: canonical base n) post z 0
      rw [List.length_map] at hsign
      rw [List.length_append, List.length_map, List.length_singleton, List.append_assoc,
        List.singleton_append, List.reverse_append, ← hdigits] at hreverse
      rw [List.length_cons, length_canonical] at hnul
      rw [putSign, if_pos rfl, hsign, Option.map_some, Option.bind_eq_bind, Option.bind_some,
        hreverse]
      refine hnul.trans ?_
      rw [← hmid, Nat.add_assoc, List.drop_length_add_append]
      rfl

/-- **A negative quotient** is written nowhere. -/
theorem not_writes_writeNumber (hbase : 2 ≤ base) (hbase' : base ≤ 16) {quotient : ℤ}
    (hneg : quotient < 0) (negative : Bool) (text : List UInt8) :
    ¬ Writes (writeNumber quotient negative · base) text := by
  intro h
  have hresult := h (List.replicate (text.length + 1) 0) (by simp)
  unfold writeNumber at hresult
  dsimp only at hresult
  rw [if_neg (by omega), digitsLoop_neg hneg] at hresult
  cases hresult

/-- **All four write the canonical numeral**, and what is printed is that of the
unsigned value in capital letters. -/
structure Formats (base : ℕ) (value : UInt32) : Prop where
  itoa : Writes (itoa value.toInt32 · base) (canonicalInt base value.toInt32.toInt)
  ltoa : Writes (ltoa value.toInt32 · base) (canonicalInt base value.toInt32.toInt)
  utoa : Writes (utoa value · base) (canonical base value.toNat)
  ultoa : Writes (ultoa value · base) (canonical base value.toNat)
  print : ∀ raw, (Print.printUnsignedLong raw value base).map (List.map tolower) =
    some (canonical base value.toNat)

/-- The absolute value of an `int`, but for the lowest one. -/
theorem abs_toInt {value : Int32} (h : value ≠ Int32.minValue) :
    abs value.toInt = value.toInt.natAbs := by
  have hlow := value.le_toInt
  have hhigh := value.toInt_lt
  have hne : value.toInt ≠ -2 ^ 31 := fun heq => h (Int32.toInt_inj.mp heq)
  exact int32_of_lt (by omega) (by omega)

/-- **The signed ones write every number but the lowest one.** -/
theorem writes_signed_iff (hbase : 2 ≤ base) (hbase' : base ≤ 16) (value : Int32) :
    Writes (writeNumber (abs value.toInt) (value < 0) · base) (canonicalInt base value.toInt) ↔
      value ≠ Int32.minValue := by
  constructor
  · rintro h rfl
    exact not_writes_writeNumber hbase hbase' (by decide) _ _ h
  · intro hvalue
    have hwrites := writes_writeNumber (n := value.toInt.natAbs) hbase hbase'
      (by have := value.le_toInt; have := value.toInt_lt; omega) (value < 0)
    rw [abs_toInt hvalue]
    have hsign : (value < 0) = (value.toInt < 0) := propext Int32.lt_iff_toInt_lt
    simp only [decide_eq_true_eq, hsign] at hwrites
    simp only [hsign]
    exact hwrites

/-- **Formatting is canonical** but for the lowest `int`, which has no absolute
value. -/
theorem formats_iff {base : ℕ} (hbase : 2 ≤ base) (hbase' : base ≤ 16) (value : UInt32) :
    Formats base value ↔ value ≠ 0x80000000 := by
  have hlowest : value.toInt32 ≠ Int32.minValue ↔ value ≠ 0x80000000 :=
    not_congr ⟨fun h => by rw [← UInt32.toUInt32_toInt32 value, h]; rfl,
      fun h => by rw [h]; rfl⟩
  have hsigned := writes_signed_iff hbase hbase' value.toInt32
  refine ⟨fun h => hlowest.mp (hsigned.mp h.itoa), fun h => ?_⟩
  have hunsigned := writes_writeNumber hbase hbase' value.toNat_lt false
  refine ⟨hsigned.mpr (hlowest.mpr h), hsigned.mpr (hlowest.mpr h), hunsigned, hunsigned,
    fun raw => ?_⟩
  have hcasts : ∀ b < 17, (UInt8.ofInt (b : ℕ)).toNat = b := by decide
  have hcast := hcasts base (by omega)
  have hbase8 : 2 ≤ UInt8.ofInt base := UInt8.le_iff_toNat_le.mpr (by rw [hcast]; exact hbase)
  have hbase8' : UInt8.ofInt base ≤ 16 :=
    UInt8.le_iff_toNat_le.mpr (by rw [hcast]; exact hbase')
  rw [Print.printUnsignedLong, if_neg (by omega), Print.printNumber_eq raw value hbase8 hbase8',
    Option.map_some, hcast, map_tolower_printed hbase hbase']

/-- 48879 in base 16. -/
theorem formats_beef : Formats 16 0xBEEF :=
  (formats_iff (by decide) (by decide) 0xBEEF).mpr (by decide)

/-- The digit at the index -8 is looked up. -/
theorem not_formats_lowest : ¬ ∀ base value, 2 ≤ base → base ≤ 16 → Formats base value := by
  intro h
  have hwrites :=
    (h 16 0x80000000 (by decide) (by decide)).itoa (List.replicate 34 0) (by decide)
  have hnone : itoa (0x80000000 : UInt32).toInt32 (List.replicate 34 0) 16 = none := by
    decide
  cases hnone.symm.trans hwrites

end Noniso
