import Esp31b.ByteScan
import Esp31b.StringCompare

/-!
# Strings in flash

Flash is read a word at a time, at addresses divisible by four; any other
address raises an exception. `pgm_read_byte` reads the word a byte lies in and
shifts it down, and the `_P` functions are the C library's with this in the
place of a plain read.

Here a read at any other address has no result. Every byte is readable
nonetheless (`pgmReadByte_eq`), so each function is a loop over a run of bytes,
and what it computes is said of that run. `char` is unsigned, and RAM and flash
are two memories.
-/

namespace Pgmspace

/-! ## The functions -/

/-- `*__addr32`: a little-endian word at an aligned address. -/
def word (flash : ByteMem) (addr : ℕ) : Option UInt32 :=
  if addr % 4 = 0 then
    some (UInt32.ofNat ((flash addr).toNat + 2 ^ 8 * (flash (addr + 1)).toNat
      + 2 ^ 16 * (flash (addr + 2)).toNat + 2 ^ 24 * (flash (addr + 3)).toNat))
  else none

/-- `pgm_read_byte`. -/
def pgmReadByte (flash : ByteMem) (addr : ℕ) : Option UInt8 :=
  let offset := addr &&& 3
  (word flash (addr - offset)).map fun w => (w >>> UInt32.ofNat (offset * 8)).toUInt8

/-- A turn of `strnlen_P`, with `cp`. -/
def strnlenTurn (cp : ℕ) (ch : UInt8) : ℕ ⊕ ℕ := if ch ≠ 0 then .inr (cp + 1) else .inl cp

/-- `strnlen_P`. -/
def strnlenP (flash : ByteMem) (s size : ℕ) : Option ℕ :=
  (ByteMem.scan (pgmReadByte flash) strnlenTurn id size s s).map fun cp => cp - s

/-- A turn of `memcpy_P`, with `write` and RAM. -/
def memcpyTurn (s : ℕ × ByteMem) (ch : UInt8) : (ℕ × ByteMem) ⊕ (ℕ × ByteMem) :=
  .inr (s.1 + 1, s.2.store s.1 [ch])

/-- `memcpy_P`: what is returned, and RAM afterwards. -/
def memcpyP (flash ram : ByteMem) (dest src count : ℕ) : Option (ℕ × ByteMem) :=
  ByteMem.scan (pgmReadByte flash) memcpyTurn (fun s => (dest, s.2)) count src (dest, ram)

/-- A turn of `memcmp_P`, with `read1`. -/
def memcmpTurn (ram : ByteMem) (read1 : ℕ) (ch2 : UInt8) : ℤ ⊕ ℕ :=
  let ch1 := ram read1
  if ch1 ≠ ch2 then .inl ((ch1.toNat : ℤ) - ch2.toNat) else .inr (read1 + 1)

/-- `memcmp_P`. -/
def memcmpP (flash ram : ByteMem) (buf1 buf2P size : ℕ) : Option ℤ :=
  ByteMem.scan (pgmReadByte flash) (memcmpTurn ram) (fun _ => 0) size buf2P buf1

/-- A turn of `memccpy_P`, with `write` and RAM. -/
def memccpyTurn (c : ℤ) (s : ℕ × ByteMem) (ch : UInt8) :
    (Option ℕ × ByteMem) ⊕ (ℕ × ByteMem) :=
  let ram := s.2.store s.1 [ch]
  let write := s.1 + 1
  if c = ch.toNat then .inl (some write, ram) else .inr (write, ram)

/-- `memccpy_P`: what is returned, `none` being the null pointer, and RAM
afterwards. -/
def memccpyP (flash ram : ByteMem) (dest src : ℕ) (c : ℤ) (count : ℕ) :
    Option (Option ℕ × ByteMem) :=
  ByteMem.scan (pgmReadByte flash) (memccpyTurn c) (fun s => (none, s.2)) count src (dest, ram)

/-- A turn of `strncmp_P`, with `str1` and `result`. -/
def strncmpTurn (ram : ByteMem) (s : ℕ × ℤ) (ch2 : UInt8) : ℤ ⊕ (ℕ × ℤ) :=
  let ch1 := ram s.1
  let result : ℤ := ch1.toNat - ch2.toNat
  if result ≠ 0 ∨ ch2 = 0 then .inl result else .inr (s.1 + 1, result)

/-- `strncmp_P`. -/
def strncmpP (flash ram : ByteMem) (str1 str2P size : ℕ) : Option ℤ :=
  ByteMem.scan (pgmReadByte flash) (strncmpTurn ram) Prod.snd size str2P (str1, 0)

/-! ## Reading a byte -/

/-- A byte of a little-endian word is shifted down. -/
theorem toUInt8_shiftRight_word (flash : ByteMem) (addr : ℕ) {r : ℕ} (hr : r < 4) :
    (UInt32.ofNat ((flash addr).toNat + 2 ^ 8 * (flash (addr + 1)).toNat
      + 2 ^ 16 * (flash (addr + 2)).toNat + 2 ^ 24 * (flash (addr + 3)).toNat)
        >>> UInt32.ofNat (r * 8)).toUInt8 = flash (addr + r) := by
  have h₀ := (flash addr).toNat_lt
  have h₁ := (flash (addr + 1)).toNat_lt
  have h₂ := (flash (addr + 2)).toNat_lt
  have h₃ := (flash (addr + 3)).toNat_lt
  have hsize : UInt32.size = 2 ^ 32 := rfl
  have hshift : (UInt32.ofNat (r * 8)).toNat % 32 = r * 8 := by
    rw [UInt32.toNat_ofNat_of_lt' (by omega)]
    omega
  rw [← UInt8.toNat_inj, UInt32.toNat_toUInt8, UInt32.toNat_shiftRight, hshift,
    UInt32.toNat_ofNat_of_lt' (by omega), Nat.shiftRight_eq_div_pow]
  match r, hr with
  | 0, _ => show _ / 2 ^ 0 % 2 ^ 8 = (flash addr).toNat; omega
  | 1, _ => show _ / 2 ^ 8 % 2 ^ 8 = (flash (addr + 1)).toNat; omega
  | 2, _ => show _ / 2 ^ 16 % 2 ^ 8 = (flash (addr + 2)).toNat; omega
  | 3, _ => show _ / 2 ^ 24 % 2 ^ 8 = (flash (addr + 3)).toNat; omega

/-- **Every byte of flash is read as it is**, whatever its alignment. -/
theorem pgmReadByte_eq (flash : ByteMem) (addr : ℕ) :
    pgmReadByte flash addr = some (flash addr) := by
  have hoffset : addr &&& 3 = addr % 4 := Nat.and_two_pow_sub_one_eq_mod addr 2
  have haligned : (addr - addr % 4) % 4 = 0 := by omega
  have hback : addr - addr % 4 + addr % 4 = addr := Nat.sub_add_cancel (Nat.mod_le addr 4)
  unfold pgmReadByte word
  dsimp only
  rw [hoffset, if_pos haligned, Option.map_some,
    toUInt8_shiftRight_word flash _ (Nat.mod_lt addr (by decide)), hback]

/-! ## The C library's functions on a run of bytes -/

/-- `memccpy`: up to the first `c` of the run, or all of it. -/
def memccpy (ram : ByteMem) (dest : ℕ) (run : List UInt8) (c : UInt8) : Option ℕ × ByteMem :=
  if c ∈ run then
    (some (dest + (run.idxOf c + 1)), ram.store dest (run.take (run.idxOf c + 1)))
  else (none, ram.store dest run)

variable (flash ram : ByteMem)

/-- **`strnlen_P` counts up to the first NUL.** -/
theorem strnlenP_eq (s size : ℕ) :
    strnlenP flash s size = some (cstr (flash.slice s size)).length := by
  have hfold : ∀ (bs : List UInt8) (cp : ℕ),
      ByteMem.foldUntil strnlenTurn id cp bs = cp + (cstr bs).length := by
    intro bs
    induction bs with
    | nil => exact fun cp => rfl
    | cons ch bs ih =>
      intro cp
      by_cases hch : ch = 0
      · rw [ByteMem.foldUntil_of_inl (if_neg (not_not.mpr hch)), hch, cstr_zero_cons]
        rfl
      · rw [ByteMem.foldUntil_of_inr (if_pos hch), ih, cstr_cons hch, List.length_cons]
        omega
  rw [strnlenP, ByteMem.scan_eq (pgmReadByte_eq flash), hfold, Option.map_some,
    Nat.add_sub_cancel_left]

/-- Storing a byte and then the bytes behind it stores the run. -/
theorem store_cons (m : ByteMem) (a : ℕ) (b : UInt8) (bs : List UInt8) :
    (m.store a [b]).store (a + 1) bs = m.store a (b :: bs) :=
  ByteMem.combineAt_append _ m a [b] bs

theorem store_nil (m : ByteMem) (a : ℕ) : m.store a [] = m := ByteMem.combineAt_nil _ m a

/-- **`memcpy_P` copies the run.** -/
theorem memcpyP_eq (dest src count : ℕ) :
    memcpyP flash ram dest src count = some (dest, ram.store dest (flash.slice src count)) := by
  have hfold : ∀ (bs : List UInt8) (write : ℕ) (ram : ByteMem),
      ByteMem.foldUntil memcpyTurn (fun s => (dest, s.2)) (write, ram) bs
        = (dest, ram.store write bs) := by
    intro bs
    induction bs with
    | nil => exact fun write ram => by rw [store_nil]; rfl
    | cons ch bs ih =>
      intro write ram
      rw [ByteMem.foldUntil_of_inr rfl, ih, store_cons]
  rw [memcpyP, ByteMem.scan_eq (pgmReadByte_eq flash), hfold]

/-- **`memcmp_P` orders the two runs.** -/
theorem orders_memcmpP (buf1 buf2P size : ℕ) :
    ∃ r, memcmpP flash ram buf1 buf2P size = some r ∧
      StringObject.Orders r (ram.slice buf1 size) (flash.slice buf2P size) := by
  refine ⟨_, ByteMem.scan_eq (pgmReadByte_eq flash) size buf2P buf1, ?_⟩
  induction size generalizing buf1 buf2P with
  | zero => exact StringObject.orders_nil
  | succ size ih =>
    rw [ByteMem.slice_succ, ByteMem.slice_succ]
    by_cases hch : ram buf1 = flash buf2P
    · rw [ByteMem.foldUntil_of_inr (if_neg (not_not.mpr hch)), hch]
      exact (ih (buf1 + 1) (buf2P + 1)).cons (flash buf2P)
    · rw [ByteMem.foldUntil_of_inl (if_pos hch)]
      exact StringObject.orders_cons_of_ne hch _ _

/-- The first difference of two C strings decides, also where one of them ends
there. -/
theorem orders_cstr_of_ne {c d : UInt8} (hne : c ≠ d) (T U : List UInt8) :
    StringObject.Orders (c.toNat - d.toNat) (cstr (c :: T)) (cstr (d :: U)) := by
  by_cases hc : c = 0
  · subst hc
    rw [cstr_zero_cons, cstr_cons hne.symm]
    exact StringObject.orders_nil_cons hne.symm _
  by_cases hd : d = 0
  · subst hd
    rw [cstr_zero_cons, cstr_cons hc, ← Int.neg_sub]
    exact (StringObject.orders_nil_cons hc _).symm
  · rw [cstr_cons hc, cstr_cons hd]
    exact StringObject.orders_cons_of_ne hne _ _

/-- A turn of `strncmp_P` on two equal bytes ends only at a NUL. -/
theorem strncmpTurn_of_eq {str1 : ℕ} (result : ℤ) {ch2 : UInt8} (h : ram str1 = ch2) :
    strncmpTurn ram (str1, result) ch2 = if ch2 = 0 then .inl 0 else .inr (str1 + 1, 0) := by
  simp [strncmpTurn, h]

theorem strncmpTurn_of_ne {str1 : ℕ} {result : ℤ} {ch2 : UInt8} (h : ram str1 ≠ ch2) :
    strncmpTurn ram (str1, result) ch2 = .inl ((ram str1).toNat - ch2.toNat) := by
  have hvalue : (ram str1).toNat ≠ ch2.toNat := fun heq => h (UInt8.toNat_inj.mp heq)
  exact if_pos (Or.inl (by show ((ram str1).toNat : ℤ) - ch2.toNat ≠ 0; omega))

/-- **`strncmp_P` orders the C strings at the start of the two runs.** -/
theorem orders_strncmpP (str1 str2P size : ℕ) :
    ∃ r, strncmpP flash ram str1 str2P size = some r ∧
      StringObject.Orders r (cstr (ram.slice str1 size)) (cstr (flash.slice str2P size)) := by
  refine ⟨_, ByteMem.scan_eq (pgmReadByte_eq flash) size str2P (str1, 0), ?_⟩
  induction size generalizing str1 str2P with
  | zero => exact StringObject.orders_nil
  | succ size ih =>
    rw [ByteMem.slice_succ, ByteMem.slice_succ]
    by_cases hch : ram str1 = flash str2P
    · have hturn := strncmpTurn_of_eq ram 0 hch
      by_cases hnul : flash str2P = 0
      · rw [if_pos hnul] at hturn
        rw [ByteMem.foldUntil_of_inl hturn, hch, hnul, cstr_zero_cons, cstr_zero_cons]
        exact StringObject.orders_nil
      · rw [if_neg hnul] at hturn
        rw [ByteMem.foldUntil_of_inr hturn, hch, cstr_cons hnul, cstr_cons hnul]
        exact (ih (str1 + 1) (str2P + 1)).cons (flash str2P)
    · rw [ByteMem.foldUntil_of_inl (strncmpTurn_of_ne ram hch)]
      exact orders_cstr_of_ne hch _ _

/-- **`memccpy_P` copies up to the first `c`.** -/
theorem memccpyP_eq (dest src : ℕ) (c : UInt8) (count : ℕ) :
    memccpyP flash ram dest src c.toNat count
      = some (memccpy ram dest (flash.slice src count) c) := by
  have hfold : ∀ (bs : List UInt8) (write : ℕ) (ram : ByteMem),
      ByteMem.foldUntil (memccpyTurn c.toNat) (fun s => (none, s.2)) (write, ram) bs
        = memccpy ram write bs c := by
    intro bs
    induction bs with
    | nil => exact fun write ram => by rw [memccpy, if_neg List.not_mem_nil, store_nil]; rfl
    | cons ch bs ih =>
      intro write ram
      by_cases hch : c = ch
      · subst hch
        rw [ByteMem.foldUntil_of_inl (if_pos rfl), memccpy, if_pos List.mem_cons_self,
          List.idxOf_cons_self]
        rfl
      · have hvalue : ¬(c.toNat : ℤ) = ch.toNat := fun h =>
          hch (UInt8.toNat_inj.mp (Int.ofNat_inj.mp h))
        have hidx : (ch :: bs).idxOf c = bs.idxOf c + 1 := List.idxOf_cons_ne bs (Ne.symm hch)
        have hmem : c ∈ ch :: bs ↔ c ∈ bs := by rw [List.mem_cons, or_iff_right hch]
        rw [ByteMem.foldUntil_of_inr (if_neg hvalue), ih, memccpy, memccpy, hidx]
        by_cases hc : c ∈ bs
        · rw [if_pos hc, if_pos (hmem.mpr hc), List.take_succ_cons, store_cons, Nat.add_assoc,
            Nat.add_comm 1]
        · rw [if_neg hc, if_neg (fun h => hc (hmem.mp h)), store_cons]
  rw [memccpyP, ByteMem.scan_eq (pgmReadByte_eq flash), hfold]

/-! ## Bytes behind the one that decides -/

variable {flash ram} {flash' : ByteMem}

/-- A loop over two memories that agree on the bytes it looks at. -/
theorem scan_congr {σ β : Type} {turn : σ → UInt8 → β ⊕ σ} {out : σ → β}
    {goesOn : ℕ → UInt8 → Prop} (inv : ℕ → σ → Prop)
    (hturn : ∀ i s ch s', inv i s → turn s ch = .inr s' → goesOn i ch ∧ inv (i + 1) s')
    {p size : ℕ} {s : σ} (hs : inv 0 s) (hsame : ByteMem.SameUntil goesOn flash flash' p size) :
    ByteMem.scan (pgmReadByte flash') turn out size p s
      = ByteMem.scan (pgmReadByte flash) turn out size p s := by
  rw [ByteMem.scan_eq (pgmReadByte_eq flash'), ByteMem.scan_eq (pgmReadByte_eq flash),
    ByteMem.foldUntil_slice_congr hturn hs hsame]

/-- `strnlen_P` ends at a NUL. -/
theorem strnlenP_congr {s size : ℕ}
    (h : ByteMem.SameUntil (fun _ ch => ch ≠ 0) flash flash' s size) :
    strnlenP flash' s size = strnlenP flash s size := by
  refine congrArg _ (scan_congr (fun _ _ => True) (fun i cp ch cp' _ hturn => ?_) trivial h)
  by_contra hnot
  rw [strnlenTurn, if_neg (fun hch => hnot ⟨hch, trivial⟩)] at hturn
  cases hturn

theorem memcpyP_congr {dest src count : ℕ}
    (h : ByteMem.SameUntil (fun _ _ => True) flash flash' src count) :
    memcpyP flash' ram dest src count = memcpyP flash ram dest src count :=
  scan_congr (fun _ _ => True) (fun _ _ _ _ _ _ => ⟨trivial, trivial⟩) trivial h

/-- `memcmp_P` ends at a byte that differs from the one in RAM. -/
theorem memcmpP_congr {buf1 buf2P size : ℕ}
    (h : ByteMem.SameUntil (fun i ch2 => ram (buf1 + i) = ch2) flash flash' buf2P size) :
    memcmpP flash' ram buf1 buf2P size = memcmpP flash ram buf1 buf2P size := by
  refine scan_congr (fun i read1 => read1 = buf1 + i) (fun i read1 ch2 s' hs hturn => ?_)
    rfl h
  subst hs
  by_cases hch : ram (buf1 + i) = ch2
  · rw [memcmpTurn, if_neg (not_not.mpr hch)] at hturn
    exact ⟨hch, (Sum.inr.inj hturn).symm⟩
  · rw [memcmpTurn, if_pos hch] at hturn
    cases hturn

/-- `strncmp_P` ends at a byte that differs from the one in RAM, and at a NUL. -/
theorem strncmpP_congr {str1 str2P size : ℕ}
    (h : ByteMem.SameUntil (fun i ch2 => ram (str1 + i) = ch2 ∧ ch2 ≠ 0) flash
      flash' str2P size) :
    strncmpP flash' ram str1 str2P size = strncmpP flash ram str1 str2P size := by
  refine scan_congr (fun i s => s.1 = str1 + i) (fun i s ch2 s' hs hturn => ?_) rfl h
  obtain ⟨p, result⟩ := s
  obtain rfl : p = str1 + i := hs
  by_cases hch : ram (str1 + i) = ch2
  · rw [strncmpTurn_of_eq ram result hch] at hturn
    split at hturn
    · cases hturn
    · rename_i hnul
      exact ⟨⟨hch, hnul⟩, congrArg Prod.fst (Sum.inr.inj hturn).symm⟩
  · rw [strncmpTurn_of_ne ram hch] at hturn
    cases hturn

/-- `memccpy_P` ends at a `c`. -/
theorem memccpyP_congr {dest src : ℕ} {c : UInt8} {count : ℕ}
    (h : ByteMem.SameUntil (fun _ ch => c ≠ ch) flash flash' src count) :
    memccpyP flash' ram dest src c.toNat count = memccpyP flash ram dest src c.toNat count := by
  refine scan_congr (fun _ _ => True) (fun i s ch s' _ hturn => ⟨?_, trivial⟩) trivial h
  rintro rfl
  rw [memccpyTurn, if_pos rfl] at hturn
  cases hturn

/-- **The `_P` functions are the C library's.** For every content of flash and
RAM, all addresses and every size they return, and what they return and store
is what the C library's functions do on the run of bytes in flash, with the
bytes compared as unsigned ones. In another flash that has the same bytes up to
the one that decides they do the same. -/
theorem counterparts (flash ram : ByteMem) (p q size : ℕ) (c : UInt8) :
    (strnlenP flash p size = some (cstr (flash.slice p size)).length ∧
      memcpyP flash ram q p size = some (q, ram.store q (flash.slice p size)) ∧
      (∃ r, memcmpP flash ram q p size = some r ∧
        StringObject.Orders r (ram.slice q size) (flash.slice p size)) ∧
      (∃ r, strncmpP flash ram q p size = some r ∧
        StringObject.Orders r (cstr (ram.slice q size)) (cstr (flash.slice p size))) ∧
      memccpyP flash ram q p c.toNat size = some (memccpy ram q (flash.slice p size) c)) ∧
    ∀ flash' : ByteMem,
      (ByteMem.SameUntil (fun _ ch => ch ≠ 0) flash flash' p size →
        strnlenP flash' p size = strnlenP flash p size) ∧
      (ByteMem.SameUntil (fun _ _ => True) flash flash' p size →
        memcpyP flash' ram q p size = memcpyP flash ram q p size) ∧
      (ByteMem.SameUntil (fun i ch => ram (q + i) = ch) flash flash' p size →
        memcmpP flash' ram q p size = memcmpP flash ram q p size) ∧
      (ByteMem.SameUntil (fun i ch => ram (q + i) = ch ∧ ch ≠ 0) flash flash' p size →
        strncmpP flash' ram q p size = strncmpP flash ram q p size) ∧
      (ByteMem.SameUntil (fun _ ch => c ≠ ch) flash flash' p size →
        memccpyP flash' ram q p c.toNat size = memccpyP flash ram q p c.toNat size) :=
  ⟨⟨strnlenP_eq flash p size, memcpyP_eq flash ram q p size, orders_memcmpP flash ram q p size,
      orders_strncmpP flash ram q p size, memccpyP_eq flash ram q p c size⟩,
    fun _ => ⟨strnlenP_congr, memcpyP_congr, memcmpP_congr, strncmpP_congr, memccpyP_congr⟩⟩

/-- Memory with a run of bytes in it. -/
def holding (p : ℕ) (run : List UInt8) : ByteMem := ByteMem.store (fun _ => 0xFF) p run

/-- `hi` from an odd address on, with different bytes behind the NUL. -/
theorem counterparts_odd :
    strnlenP (holding 5 [0x68, 0x69, 0, 0x21]) 5 9 = some 2 ∧
      strnlenP (holding 5 [0x68, 0x69, 0, 0x3F]) 5 9 = some 2 ∧
      memccpyP (holding 5 [0x68, 0x69, 0, 0x3F]) (holding 0 []) 2 5 (0x69 : UInt8).toNat 9
        = memccpyP (holding 5 [0x68, 0x69, 0, 0x21]) (holding 0 []) 2 5
          (0x69 : UInt8).toNat 9 := by
  have hcounterparts := counterparts (holding 5 [0x68, 0x69, 0, 0x21]) (holding 0 []) 5 2 9 0x69
  obtain ⟨⟨hlength, -⟩, hother⟩ := hcounterparts
  obtain ⟨hsame, -, -, -, hcopied⟩ := hother (holding 5 [0x68, 0x69, 0, 0x3F])
  have hlength : strnlenP (holding 5 [0x68, 0x69, 0, 0x21]) 5 9 = some 2 :=
    hlength.trans (by decide)
  refine ⟨hlength, (hsame ?_).trans hlength, hcopied ?_⟩
  · unfold ByteMem.SameUntil
    decide
  · unfold ByteMem.SameUntil
    decide

end Pgmspace
