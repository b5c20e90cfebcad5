import Esp31b.Numerals
import Esp31b.TextBlock

/-!
# Printing integers

`Print::print` writes an integer with `printNumber`, which divides by the base and
fills a buffer from its end. The buffer has a byte for each bit and one for the
NUL, which is what base 2 needs; an access outside has no result, and
`Print.printNumber_eq` says that there is none and which digits are written.

A `long` in base 10 is printed as a sign and its absolute value, taken as an
`unsigned long`: that is right for the lowest one too, which has no positive
counterpart.
-/

namespace Print

/-- A digit, above 9 a capital letter. -/
def printChar (c : UInt8) : UInt8 := if c < 10 then c + 0x30 else c + 0x41 - 10

/-- The loop of `printNumber`: the buffer, where `str` is, and the number. -/
def printDigits (base : ℕ) : ℕ → List UInt8 → ℕ → ℕ → Option (List UInt8 × ℕ)
  | 0, _, _, _ => none
  | _ + 1, _, 0, _ => none
  | turns + 1, buf, str + 1, n => do
    let m := n
    let n := n / base
    let c := UInt8.ofNat (m - base * n)
    let buf ← Block.set buf str (printChar c)
    if n = 0 then return (buf, str) else printDigits base turns buf str n

/-- `printNumber`: what is written. The buffer is not cleared before. -/
def printNumber (raw : ℕ → UInt8) (n : UInt32) (base : UInt8) : Option (List UInt8) := do
  let buf := (List.range 33).map raw
  let buf ← Block.set buf 32 0
  let base := if base < 2 then 10 else base
  let (buf, str) ← printDigits base.toNat 33 buf 32 n.toNat
  Block.text buf str

/-- `print(unsigned long, int)`. -/
def printUnsignedLong (raw : ℕ → UInt8) (n : UInt32) (base : ℤ) : Option (List UInt8) :=
  if base = 0 then some [n.toUInt8] else printNumber raw n (UInt8.ofInt base)

/-- `print(long, int)`. -/
def printLong (raw : ℕ → UInt8) (n : Int32) (base : ℤ) : Option (List UInt8) :=
  if base = 0 then some [n.toUInt32.toUInt8]
  else if base = 10 then
    if n < 0 then (printNumber raw (-n).toUInt32 10).map (0x2D :: ·)
    else printNumber raw n.toUInt32 10
  else printNumber raw n.toUInt32 (UInt8.ofInt base)

/-! ## What is written -/

/-- **The numeral that is printed.** -/
def printed (base n : ℕ) : List UInt8 :=
  (Nat.lowDigits base n).reverse.map fun d => printChar (UInt8.ofNat d)

variable {base n : ℕ} {raw : ℕ → UInt8}

/-- No digit is a NUL. -/
theorem printChar_ne_zero {d : ℕ} (hd : d < 16) : printChar (UInt8.ofNat d) ≠ 0 := by
  have hall : ∀ d < 16, printChar (UInt8.ofNat d) ≠ 0 := by decide
  exact hall d hd

theorem zero_not_mem_printed (hbase : 1 < base) (hbase' : base ≤ 16) : 0 ∉ printed base n := by
  intro h0
  obtain ⟨d, hd, hzero⟩ := List.mem_map.mp h0
  have hlt := Nat.lowDigits_lt hbase d (List.mem_reverse.mp hd)
  exact printChar_ne_zero (by omega) hzero

/-- **One division**: the lowest digit is printed last. -/
theorem printed_eq (hbase : 1 < base) (n : ℕ) :
    printed base n = (if n / base = 0 then [] else printed base (n / base)) ++
      [printChar (UInt8.ofNat (n % base))] := by
  unfold printed
  rw [Nat.lowDigits_eq hbase, List.reverse_cons, List.map_append]
  split
  · rfl
  · rfl

theorem length_printed (base n : ℕ) :
    (printed base n).length = (Nat.lowDigits base n).length := by
  rw [printed, List.length_map, List.length_reverse]

/-- **The loop puts the digits in front of what it found**, over as many
bytes. -/
theorem printDigits_eq (hbase : 1 < base) {turns : ℕ} (pre mid post : List UInt8)
    (hmid : mid.length = (printed base n).length) (hturns : mid.length ≤ turns) :
    printDigits base turns (pre ++ mid ++ post) (pre.length + mid.length) n =
      some (pre ++ printed base n ++ post, pre.length) := by
  induction turns generalizing n mid post with
  | zero =>
    have hpos : 0 < (Nat.lowDigits base n).length :=
      List.length_pos_iff.mpr Nat.lowDigits_ne_nil
    rw [length_printed] at hmid
    omega
  | succ turns ih =>
    rw [printed_eq hbase, List.length_append, List.length_singleton] at hmid
    have hne : mid ≠ [] := List.ne_nil_of_length_pos (by omega)
    obtain ⟨front, x, rfl⟩ : ∃ front x, mid = front ++ [x] :=
      ⟨_, _, (List.dropLast_append_getLast hne).symm⟩
    rw [List.length_append, List.length_singleton] at hmid hturns
    have hset := Block.set_append (pre ++ front) post x (printChar (UInt8.ofNat (n % base)))
    rw [List.length_append] at hset
    have hbuf : pre ++ (front ++ [x]) ++ post = pre ++ front ++ x :: post := by simp
    rw [List.length_append, List.length_singleton, ← Nat.add_assoc, hbuf, printDigits]
    rw [← Nat.mod_def, hset, Option.bind_eq_bind, Option.bind_some, printed_eq hbase n]
    split
    · rename_i hlast
      rw [if_pos hlast, List.length_nil] at hmid
      obtain rfl : front = [] := List.eq_nil_of_length_eq_zero (by omega)
      simp
    · rename_i hmore
      rw [if_neg hmore] at hmid
      rw [ih front _ (by omega) (by omega)]
      simp

/-- **`printNumber`**: no access is outside its buffer, and the digits are
written. -/
theorem printNumber_eq (raw : ℕ → UInt8) (n : UInt32) {base : UInt8} (hbase : 2 ≤ base)
    (hbase' : base ≤ 16) : printNumber raw n base = some (printed base.toNat n.toNat) := by
  have hlow : 1 < base.toNat := UInt8.le_iff_toNat_le.mp hbase
  have hhigh : base.toNat ≤ 16 := UInt8.le_iff_toNat_le.mp hbase'
  have hlength : (printed base.toNat n.toNat).length ≤ 32 :=
    (length_printed _ _).trans_le (Nat.length_lowDigits_le hlow (by decide) n.toNat_lt)
  have hset : Block.set ((List.range 33).map raw) 32 0 =
      some ((List.range 32).map raw ++ [0]) := by
    rw [List.range_succ, List.map_append]
    have happend := Block.set_append ((List.range 32).map raw) [] (raw 32) 0
    rw [List.length_map, List.length_range] at happend
    exact happend
  obtain ⟨pre, mid, hsplit, hmid⟩ : ∃ pre mid : List UInt8,
      (List.range 32).map raw = pre ++ mid ∧
      mid.length = (printed base.toNat n.toNat).length :=
    ⟨((List.range 32).map raw).take (32 - (printed base.toNat n.toNat).length),
      ((List.range 32).map raw).drop (32 - (printed base.toNat n.toNat).length),
      (List.take_append_drop _ _).symm, by
        rw [List.length_drop, List.length_map, List.length_range]
        omega⟩
  have htotal : pre.length + mid.length = 32 := by
    rw [← List.length_append, ← hsplit, List.length_map, List.length_range]
  have hloop := printDigits_eq hlow pre mid [0] hmid (show mid.length ≤ 33 by omega)
  rw [htotal] at hloop
  unfold printNumber
  dsimp only
  rw [hset, hsplit, if_neg (UInt8.not_lt.mpr hbase), Option.bind_eq_bind,
    Option.bind_some, hloop, Option.bind_eq_bind, Option.bind_some]
  refine Block.text_eq_some_iff.mpr ⟨zero_not_mem_printed hlow hhigh, [], ?_⟩
  rw [List.append_assoc, List.drop_left]

end Print
