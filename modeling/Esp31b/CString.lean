import Mathlib.Algebra.Group.Int.Defs
import Mathlib.Algebra.GroupWithZero.Nat
import Mathlib.Data.List.DropRight
import Mathlib.Data.List.TakeWhile
import Mathlib.Data.Nat.Basic

/-!
# C strings

The parts of the C library that text protocols on a microcontroller are
written with, over byte lists: the string a pointer to some bytes denotes,
the character classes of the C locale, and `strtol` for a 32-bit `long`,
which saturates where the numeral does not fit.
-/

/-- The bytes of a text literal. -/
def ascii (s : String) : List UInt8 := s.toList.map (fun c => UInt8.ofNat c.toNat)

/-- What is said of the bytes of a list is decided along the list, not for each of the 256. -/
instance decidableForallMemBytes {l : List UInt8} {p : UInt8 → Prop} [DecidablePred p] :
    Decidable (∀ c ∈ l, p c) := List.decidableBAll p l

/-- The same of a byte that may be missing. -/
instance decidableForallMemByte {o : Option UInt8} {p : UInt8 → Prop} [DecidablePred p] :
    Decidable (∀ c ∈ o, p c) := Option.decidableForallMem o

/-- **The C string at the start of some bytes**: all before the first NUL. -/
def cstr (s : List UInt8) : List UInt8 := s.takeWhile (· ≠ 0)

theorem cstr_of_not_mem {s : List UInt8} (h : 0 ∉ s) : cstr s = s :=
  List.takeWhile_eq_self_iff.mpr (fun c hc => by
    simp only [decide_eq_true_eq]
    exact fun h0 => h (h0 ▸ hc))

/-- Nothing is in front of a NUL. -/
theorem cstr_zero_cons (s : List UInt8) : cstr (0 :: s) = [] :=
  List.takeWhile_cons_of_neg (by decide)

theorem cstr_cons {c : UInt8} (h : c ≠ 0) (s : List UInt8) : cstr (c :: s) = c :: cstr s :=
  List.takeWhile_cons_of_pos (decide_eq_true h)

theorem zero_not_mem_cstr (s : List UInt8) : 0 ∉ cstr s := fun h => by
  simpa using List.mem_takeWhile_imp h

theorem length_cstr_le (s : List UInt8) : (cstr s).length ≤ s.length :=
  (List.takeWhile_prefix _).length_le

theorem cstr_take (s : List UInt8) (m : ℕ) : cstr (s.take m) = (cstr s).take m :=
  List.take_takeWhile.symm

/-- `isspace`: blank, and the controls from tab to carriage return. -/
def isspace (c : UInt8) : Bool := c = 0x20 || (0x09 ≤ c && c ≤ 0x0D)

/-- `tolower`. -/
def tolower (c : UInt8) : UInt8 := if 0x41 ≤ c ∧ c ≤ 0x5A then c + 0x20 else c

/-- What a character counts as a digit, letters from ten on; 36, a digit in
no base, for all others. -/
def digitVal (c : UInt8) : ℕ :=
  if 0x30 ≤ c ∧ c ≤ 0x39 then c.toNat - 0x30
  else if 0x41 ≤ c ∧ c ≤ 0x5A then c.toNat - 0x37
  else if 0x61 ≤ c ∧ c ≤ 0x7A then c.toNat - 0x57
  else 36

/-- **The value of a numeral**, most significant digit first. -/
def numeral (base : ℕ) (ds : List UInt8) : ℕ := ds.foldl (fun v c => v * base + digitVal c) 0

/-- The sign of a number and what follows it. -/
def takeSign : List UInt8 → Bool × List UInt8
  | c :: s => if c = 0x2D then (true, s) else if c = 0x2B then (false, s) else (false, c :: s)
  | [] => (false, [])

/-- What follows a `0x`. -/
def skipHexMark : List UInt8 → List UInt8
  | c :: x :: s => if c = 0x30 ∧ (x = 0x78 ∨ x = 0x58) then s else c :: x :: s
  | s => s

/-- A number in the range of a 32-bit `long`, the nearest one. -/
def clampLong (v : ℤ) : ℤ := max (-2 ^ 31) (min v (2 ^ 31 - 1))

/-- An `int` after an addition. -/
def int32 (v : ℤ) : ℤ := (v + 2 ^ 31) % 2 ^ 32 - 2 ^ 31

/-- **`strtol`**, with a 32-bit `long`. -/
def strtol (s : List UInt8) (base : ℕ) : ℤ :=
  let (neg, s) := takeSign ((cstr s).dropWhile isspace)
  let s := if base = 16 then skipHexMark s else s
  let v := numeral base (s.takeWhile (fun c => digitVal c < base))
  clampLong (if neg then -v else v)

/-- `atol`. -/
def atol (s : List UInt8) : ℤ := strtol s 10

/-! ## Numbers read back -/

theorem clampLong_of_le {v : ℤ} (h : 0 ≤ v) (h' : v < 2 ^ 31) : clampLong v = v := by
  unfold clampLong
  omega

theorem int32_of_lt {v : ℤ} (h : -2 ^ 31 ≤ v) (h' : v < 2 ^ 31) : int32 v = v := by
  unfold int32
  omega

/-- Additions wrap once. -/
theorem int32_int32_add (v w : ℤ) : int32 (int32 v + w) = int32 (v + w) := by
  unfold int32
  omega

/-- A digit of a base up to sixteen is no blank, no sign, no `x` and no NUL. -/
theorem digit_cases {c : UInt8} (h : digitVal c < 16) :
    c ≠ 0 ∧ isspace c = false ∧ c ≠ 0x2D ∧ c ≠ 0x2B ∧ c ≠ 0x78 ∧ c ≠ 0x58 := by
  refine ⟨?_, ?_, ?_, ?_, ?_, ?_⟩
  · rintro rfl
    exact absurd h (by decide)
  · by_contra hspace
    simp only [isspace, UInt8.le_iff_toNat_le, ← UInt8.toNat_inj] at hspace
    simp only [digitVal, UInt8.le_iff_toNat_le] at h
    simp at hspace h
    split_ifs at h <;> omega
  all_goals
    rintro rfl
    exact absurd h (by decide)

/-- **`strtol` of a numeral is its value**, or the largest `long`. -/
theorem strtol_numeral {base : ℕ} {ds : List UInt8} (hbase : base ≤ 16) (hne : ds ≠ [])
    (hds : ∀ c ∈ ds, digitVal c < base) : strtol ds base = clampLong (numeral base ds) := by
  have hdig : ∀ c ∈ ds, digitVal c < 16 := fun c hc => lt_of_lt_of_le (hds c hc) hbase
  have hcstr : cstr ds = ds := cstr_of_not_mem (fun h0 => (digit_cases (hdig 0 h0)).1 rfl)
  have htake : ds.takeWhile (fun c => digitVal c < base) = ds :=
    List.takeWhile_eq_self_iff.mpr (fun c hc => decide_eq_true (hds c hc))
  obtain ⟨c, s, rfl⟩ := List.exists_cons_of_ne_nil hne
  obtain ⟨-, hspace, hminus, hplus, -⟩ := digit_cases (hdig c (by simp))
  have hskip : skipHexMark (c :: s) = c :: s := by
    cases s with
    | nil => rfl
    | cons x s =>
      obtain ⟨-, -, -, -, hx, hX⟩ := digit_cases (hdig x (by simp))
      simp [skipHexMark, hx, hX]
  unfold strtol
  rw [hcstr]
  simp [hspace, takeSign, hminus, hplus, hskip, htake]

/-- Blanks in front of a number are skipped. -/
theorem strtol_blanks {base : ℕ} {blanks : List UInt8} (s : List UInt8)
    (h : ∀ c ∈ blanks, isspace c = true ∧ c ≠ 0) :
    strtol (blanks ++ s) base = strtol s base := by
  have hcstr : cstr (blanks ++ s) = blanks ++ cstr s := by
    unfold cstr
    exact List.takeWhile_append_of_pos (fun c hc => decide_eq_true (h c hc).2)
  unfold strtol
  rw [hcstr, List.dropWhile_append_of_pos (fun c hc => (h c hc).1)]

/-- White space behind a number is not read. -/
theorem atol_append_blank (s : List UInt8) {blank : List UInt8}
    (hblank : ∀ c ∈ blank, isspace c = true) :
    atol (s ++ blank) = atol s := by
  have hdigit : ∀ c ∈ blank, decide (digitVal c < 10) = false ∧ c ≠ 0 := by
    intro c hc
    refine ⟨decide_eq_false fun hlt => ?_, ?_⟩
    · have hspace := (digit_cases (lt_trans hlt (by decide))).2.1
      rw [hblank c hc] at hspace
      cases hspace
    · rintro rfl
      exact absurd (hblank 0 hc) (by decide)
  have htake : ∀ t : List UInt8, (t ++ blank).takeWhile (fun c => decide (digitVal c < 10)) =
      t.takeWhile (fun c => decide (digitVal c < 10)) := by
    intro t
    rw [List.takeWhile_append]
    split
    · rename_i hall
      have hnone : blank.takeWhile (fun c => decide (digitVal c < 10)) = [] := by
        cases blank with
        | nil => rfl
        | cons c blank => exact List.takeWhile_cons_of_neg (by simp [(hdigit c (by simp)).1])
      rw [hnone, List.append_nil, (List.takeWhile_prefix _).eq_of_length hall]
    · rfl
  unfold atol strtol
  by_cases hzero : 0 ∈ s
  · obtain ⟨p, t, rfl, hp⟩ := List.eq_append_cons_of_mem hzero
    have hcut : ∀ u : List UInt8, cstr (p ++ 0 :: u) = p := fun u => by
      have hplain : ∀ c ∈ p, decide (c ≠ 0) = true := fun c hc =>
        decide_eq_true fun h0 => hp (h0 ▸ hc)
      rw [cstr, List.takeWhile_append_of_pos hplain, List.takeWhile_cons_of_neg (by decide),
        List.append_nil]
    rw [List.append_assoc, List.cons_append, hcut, hcut]
  · rw [cstr_of_not_mem hzero, cstr_of_not_mem (List.not_mem_append hzero fun h =>
      (hdigit 0 h).2 rfl), List.dropWhile_append]
    cases hdrop : s.dropWhile isspace with
    | nil => rw [List.isEmpty_nil, if_pos rfl, List.dropWhile_eq_nil_iff.mpr hblank]
    | cons c t =>
      have hsign : takeSign (c :: (t ++ blank)) =
          ((takeSign (c :: t)).1, (takeSign (c :: t)).2 ++ blank) := by
        simp only [takeSign]
        split_ifs <;> rfl
      rw [List.isEmpty_cons, if_neg Bool.false_ne_true, List.cons_append, hsign]
      have hbase : ¬ (10 : ℕ) = 16 := by decide
      simp only [if_neg hbase, htake]

/-! ## Decimal texts -/

/-- A digit as a byte. -/
theorem ofNat_digit {d : Char} (h : d.isDigit = true) :
    0x30 ≤ UInt8.ofNat d.toNat ∧ UInt8.ofNat d.toNat ≤ 0x39 ∧
      (UInt8.ofNat d.toNat).toNat = d.toNat := by
  simp only [Char.isDigit, ge_iff_le, Bool.and_eq_true, decide_eq_true_eq] at h
  have hlow : 48 ≤ d.toNat := h.1
  have hhigh : d.toNat ≤ 57 := h.2
  have hnat : (UInt8.ofNat d.toNat).toNat = d.toNat := by
    rw [UInt8.toNat_ofNat', Nat.mod_eq_of_lt (by omega)]
  rw [UInt8.le_iff_toNat_le, UInt8.le_iff_toNat_le, hnat]
  exact ⟨hlow, hhigh, rfl⟩

theorem isDigit_of_mem_toString {n : ℕ} {d : Char} (h : d ∈ (toString n).toList) :
    d.isDigit = true := by
  rw [show (toString n).toList = Nat.toDigits 10 n from Nat.toList_repr] at h
  exact Nat.isDigit_of_mem_toDigits (by decide) (by decide) h

/-- The characters of a decimal number are digits. -/
theorem digit_of_mem_decimal {n : ℕ} {c : UInt8} (h : c ∈ ascii (toString n)) :
    0x30 ≤ c ∧ c ≤ 0x39 := by
  obtain ⟨d, hd, rfl⟩ := List.mem_map.mp h
  obtain ⟨hlow, hhigh, -⟩ := ofNat_digit (isDigit_of_mem_toString hd)
  exact ⟨hlow, hhigh⟩

/-- A decimal number is on one line. -/
theorem newline_not_mem_decimal (n : ℕ) : 0x0A ∉ ascii (toString n) := fun hmem =>
  absurd (digit_of_mem_decimal hmem).1 (by decide)

/-- **The value of a decimal number.** -/
theorem numeral_decimal (n : ℕ) : numeral 10 (ascii (toString n)) = n := by
  have hfold : ∀ (ds : List Char) (v : ℕ), (∀ d ∈ ds, d.isDigit = true) →
      (ds.map (fun d => UInt8.ofNat d.toNat)).foldl (fun v c => v * 10 + digitVal c) v
        = Nat.ofDigitChars 10 ds v := by
    intro ds
    induction ds with
    | nil => exact fun v _ => by simp
    | cons d ds ih =>
      intro v hds
      obtain ⟨hlow, hhigh, hnat⟩ := ofNat_digit (hds d (by simp))
      have hval : digitVal (UInt8.ofNat d.toNat) = d.toNat - '0'.toNat := by
        unfold digitVal
        rw [if_pos ⟨hlow, hhigh⟩, hnat]
        rfl
      rw [List.map_cons, List.foldl_cons, hval, ih _ (fun e he => hds e (by simp [he])),
        Nat.ofDigitChars_cons, Nat.mul_comm]
  rw [numeral, ascii, hfold _ _ fun d hd => isDigit_of_mem_toString hd,
    show (toString n).toList = Nat.toDigits 10 n from Nat.toList_repr,
      Nat.ofDigitChars_ten_toDigits]

/-- A number without digits there is not. -/
theorem decimal_ne_nil (n : ℕ) : ascii (toString n) ≠ [] := by
  have hlen : 0 < (Nat.toDigits 10 n).length := Nat.length_toDigits_pos
  rw [ascii, show (toString n).toList = Nat.toDigits 10 n from Nat.toList_repr]
  simp [List.ne_nil_of_length_pos hlen]

theorem digitVal_of_mem_decimal {n : ℕ} {c : UInt8} (h : c ∈ ascii (toString n)) :
    digitVal c < 10 := by
  obtain ⟨hlow, hhigh⟩ := digit_of_mem_decimal h
  rw [digitVal, if_pos ⟨hlow, hhigh⟩]
  rw [UInt8.le_iff_toNat_le] at hlow hhigh
  have h48 : (0x30 : UInt8).toNat = 48 := rfl
  have h57 : (0x39 : UInt8).toNat = 57 := rfl
  omega

/-- **`atol` reads a decimal number**, or the largest `long`. -/
theorem atol_decimal (n : ℕ) : atol (ascii (toString n)) = clampLong n := by
  rw [atol, strtol_numeral (by omega) (decimal_ne_nil n) (fun _ hc =>
    digitVal_of_mem_decimal hc), numeral_decimal]
