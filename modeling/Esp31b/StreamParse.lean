import Esp31b.Millis
import Esp31b.Noniso

/-!
# `Stream::parseInt`

The stream is one that has what it has: its contents are a list, and when the list
is empty nothing comes any more, so every look fails and the wait ends with -1
(`Stream.timedPeek_of_nil`), while a byte that is there is returned at the first look
(`Stream.timedPeek_of_cons`).

`parseInt` skips what is neither a digit nor a minus sign, and reads on to the
first byte that is no digit. Its value is a `long` that wraps around, which is what
makes it right for every number that `Print::print` writes
(`Stream.parseInt_print`): the digits of the lowest one are a number that does not
fit, and the negation takes it to itself.
-/

namespace Stream

/-- `read()`. -/
def read : List UInt8 → ℤ × List UInt8
  | [] => (-1, [])
  | c :: s => (c.toNat, s)

/-- `peek()`. -/
def peek (s : List UInt8) : ℤ := (read s).1

/-- `timedRead`: what the first look finds. -/
def timedRead (s : List UInt8) : ℤ × List UInt8 := read s

/-- `timedPeek`. -/
def timedPeek (s : List UInt8) : ℤ := peek s

/-- `c >= '0' && c <= '9'`. -/
def IsDigit (c : ℤ) : Prop := 0x30 ≤ c ∧ c ≤ 0x39

instance (c : ℤ) : Decidable (IsDigit c) := inferInstanceAs (Decidable (_ ∧ _))

/-- `peekNextDigit`, and what is left of the stream. -/
def peekNextDigit : List UInt8 → ℤ × List UInt8
  | [] => (timedPeek [], [])
  | b :: s =>
    let c := timedPeek (b :: s)
    if c = 0x2D then (c, b :: s)
    else if IsDigit c then (c, b :: s)
    else peekNextDigit s

/-- The loop of `parseInt`: the sign, the value, and what is left. It is entered
with the byte that was peeked. -/
def parseLoop (skipChar : UInt8) : List UInt8 → ℤ → Bool → Int32 → Bool × Int32 × List UInt8
  | [], _, isNegative, value => (isNegative, value, [])
  | _ :: s, c, isNegative, value =>
    let (isNegative, value) :=
      if c = skipChar.toNat then (isNegative, value)
      else if c = 0x2D then (true, value)
      else if IsDigit c then (isNegative, value * 10 + Int32.ofInt c - 0x30)
      else (isNegative, value)
    let c := timedPeek s
    if IsDigit c ∨ c = skipChar.toNat then parseLoop skipChar s c isNegative value
    else (isNegative, value, s)

/-- `parseInt(skipChar)`. -/
def parseIntSkip (skipChar : UInt8) (s : List UInt8) : Int32 × List UInt8 :=
  let (c, s) := peekNextDigit s
  if c < 0 then (0, s)
  else
    let (isNegative, value, s) := parseLoop skipChar s c false 0
    (if isNegative then -value else value, s)

/-- `parseInt()`. -/
def parseInt (s : List UInt8) : Int32 × List UInt8 := parseIntSkip 1 s

/-! ## The waits -/

theorem timedPeek_of_cons (c : UInt8) (s : List UInt8) (clock : Wiring.Clock)
    (timeout : UInt32) :
    (Wiring.timedPeek (fun _ => Int32.ofInt (peek (c :: s))) clock timeout).Yields
      (Int32.ofInt (timedPeek (c :: s)), 0) := by
  refine Fueled.yields_loop_leave ?_
  have hbyte : (0 : Int32) ≤ Int32.ofInt (peek (c :: s)) := by
    have hlt := c.toNat_lt
    have hpeek : peek (c :: s) = c.toNat := rfl
    have hsize : Int32.size = 2 ^ 32 := rfl
    rw [Int32.le_iff_toInt_le, Int32.toInt_ofInt, hsize, hpeek,
      Int.bmod_eq_of_le (by omega) (by omega)]
    exact Int.natCast_nonneg _
  rw [Wiring.timedTurn, if_pos hbyte]
  exact Fueled.yields_pure _

/-- A wait that comes to an end, if nothing is there, returns -1. -/
theorem timedPeek_of_nil {clock : Wiring.Clock} {timeout : UInt32} {r : Int32 × ℕ}
    (h : (Wiring.timedPeek (fun _ => Int32.ofInt (peek [])) clock timeout).Yields r) :
    r.1 = Int32.ofInt (timedPeek []) := by
  obtain ⟨n, hn⟩ := h
  refine Fueled.loop_sound (fun _ => True) (fun r => r.1 = Int32.ofInt (timedPeek []))
    (fun _ _ _ _ _ => trivial) ?_ trivial (hn n le_rfl)
  intro i m r _ hturn
  rw [Wiring.timedTurn, if_neg (by decide)] at hturn
  split at hturn
  · cases hturn
  · cases hturn
    rfl

/-! ## The digits -/

variable {p s ds : List UInt8}

/-- What is in front of a number: no digit, and no minus sign. -/
def Junk (p : List UInt8) : Prop := ∀ c ∈ p, c ≠ 0x2D ∧ ¬ IsDigit c.toNat

/-- What ends a number: no digit, and not the byte that is skipped. -/
def Ends (s : List UInt8) : Prop := ∀ c ∈ s.head?, c ≠ 1 ∧ ¬ IsDigit c.toNat

/-- **What is in front is skipped.** -/
theorem peekNextDigit_append (hp : Junk p) (s : List UInt8) :
    peekNextDigit (p ++ s) = peekNextDigit s := by
  induction p with
  | nil => rfl
  | cons c p ih =>
    obtain ⟨hminus, hdigit⟩ := hp c List.mem_cons_self
    have hne : ((c.toNat : ℕ) : ℤ) ≠ 0x2D := fun h =>
      hminus (UInt8.toNat_inj.mp (by exact_mod_cast h))
    rw [List.cons_append, peekNextDigit]
    show (if ((c.toNat : ℕ) : ℤ) = 0x2D then _ else if IsDigit c.toNat then _ else _) = _
    rw [if_neg hne, if_neg hdigit]
    exact ih fun d hd => hp d (List.mem_cons_of_mem _ hd)

/-- A number stops where it should. -/
theorem not_timedPeek (hs : Ends s) :
    ¬ (IsDigit (timedPeek s) ∨ timedPeek s = (1 : UInt8).toNat) := by
  cases s with
  | nil => decide
  | cons c s =>
    obtain ⟨hone, hdigit⟩ := hs c rfl
    rintro (h | h)
    · exact hdigit h
    · exact hone (UInt8.toNat_inj.mp (Int.ofNat.inj h))

theorem IsDigit.ne {c : ℤ} (h : IsDigit c) : c ≠ (1 : UInt8).toNat ∧ c ≠ 0x2D := by
  unfold IsDigit at h
  exact ⟨fun h1 => by rw [h1] at h; exact absurd h (by decide), by omega⟩

/-- **The digits are read into the value**, and nothing behind them. -/
theorem parseLoop_digits {c : UInt8} (hc : IsDigit c.toNat) (hds : ∀ d ∈ ds, IsDigit d.toNat)
    (hs : Ends s) (isNegative : Bool) (value : Int32) :
    parseLoop 1 (c :: ds ++ s) c.toNat isNegative value =
      (isNegative,
        (c :: ds).foldl (fun v d => v * 10 + Int32.ofInt d.toNat - 0x30) value, s) := by
  induction ds generalizing c value with
  | nil =>
    rw [List.cons_append, parseLoop, if_neg hc.ne.1, if_neg hc.ne.2, if_pos hc]
    dsimp only
    rw [List.nil_append, if_neg (not_timedPeek hs)]
    rfl
  | cons d ds ih =>
    have hnext : IsDigit (timedPeek (d :: ds ++ s)) := hds d List.mem_cons_self
    have hrest := ih hnext (fun e he => hds e (List.mem_cons_of_mem _ he))
      (value * 10 + Int32.ofInt c.toNat - 0x30)
    rw [List.cons_append, parseLoop, if_neg hc.ne.1, if_neg hc.ne.2, if_pos hc]
    dsimp only
    rw [if_pos (Or.inl hnext), List.foldl_cons]
    exact hrest

/-- **Their value**, in a `long` that wraps around. -/
theorem foldl_digits (hds : ∀ d ∈ ds, IsDigit d.toNat) :
    ds.foldl (fun v d => v * 10 + Int32.ofInt d.toNat - 0x30) 0 =
      Int32.ofInt (numeral 10 ds) := by
  have hfold : ∀ n : ℕ,
      ds.foldl (fun v d => v * 10 + Int32.ofInt d.toNat - 0x30) (Int32.ofInt n) =
      Int32.ofInt (ds.foldl (fun v c => v * 10 + digitVal c) n : ℕ) := by
    induction ds with
    | nil => exact fun n => rfl
    | cons d ds ih =>
      intro n
      obtain ⟨hlow, hhigh⟩ := hds d List.mem_cons_self
      have hval : digitVal d = d.toNat - 0x30 := by
        rw [digitVal, if_pos ⟨UInt8.le_iff_toNat_le.mpr (Int.ofNat_le.mp hlow),
          UInt8.le_iff_toNat_le.mpr (Int.ofNat_le.mp hhigh)⟩]
      have hstep : Int32.ofInt n * 10 + Int32.ofInt d.toNat - 0x30 =
          Int32.ofInt (n * 10 + digitVal d : ℕ) := by
        have hsum : ((n * 10 + digitVal d : ℕ) : ℤ) = n * 10 + d.toNat + -0x30 := by
          rw [hval]
          omega
        rw [hsum, Int32.ofInt_add, Int32.ofInt_add, Int32.ofInt_mul, Int32.sub_eq_add_neg]
        rfl
      rw [List.foldl_cons, hstep, ih fun e he => hds e (List.mem_cons_of_mem _ he)]
      rfl
  exact hfold 0

/-! ## What is printed -/

/-- In base 10 there are no letters. -/
theorem printed_ten (n : ℕ) : Print.printed 10 n = Noniso.canonical 10 n := by
  have hall : ∀ d < 10, Print.printChar (UInt8.ofNat d) = Noniso.digitChar d := by decide
  rw [Print.printed, Noniso.canonical]
  refine List.map_congr_left fun d hd => hall d ?_
  exact Nat.lowDigits_lt (by decide) d (List.mem_reverse.mp hd)

theorem printed_ne_nil (n : ℕ) : Print.printed 10 n ≠ [] := by
  intro hprinted
  have hlength := Print.length_printed 10 n
  rw [hprinted] at hlength
  exact absurd (List.length_eq_zero_iff.mp hlength.symm) Nat.lowDigits_ne_nil

theorem isDigit_of_mem_printed {n : ℕ} {c : UInt8} (hc : c ∈ Print.printed 10 n) :
    IsDigit c.toNat := by
  have hall : ∀ d < 10, IsDigit (Noniso.digitChar d).toNat := by decide
  rw [printed_ten, Noniso.canonical] at hc
  obtain ⟨d, hd, rfl⟩ := List.mem_map.mp hc
  exact hall d (Nat.lowDigits_lt (by decide) d (List.mem_reverse.mp hd))

/-- **A printed number is read**, behind a sign or without one. -/
theorem parseLoop_printed (hs : Ends s) (n : ℕ) (isNegative : Bool) :
    parseLoop 1 (Print.printed 10 n ++ s) (timedPeek (Print.printed 10 n ++ s)) isNegative 0 =
      (isNegative, Int32.ofInt n, s) := by
  have hdigits : ∀ c ∈ Print.printed 10 n, IsDigit c.toNat := fun c => isDigit_of_mem_printed
  have hvalue := foldl_digits hdigits
  rw [printed_ten, Noniso.numeral_canonical (by decide) (by decide), ← printed_ten] at hvalue
  cases hprinted : Print.printed 10 n with
  | nil => exact absurd hprinted (printed_ne_nil n)
  | cons c ds =>
    rw [hprinted] at hdigits hvalue
    rw [← hvalue]
    exact parseLoop_digits (hdigits c List.mem_cons_self)
      (fun d hd => hdigits d (List.mem_cons_of_mem _ hd)) hs isNegative 0

/-- A printed number begins with a digit. -/
theorem isDigit_timedPeek_printed (n : ℕ) (s : List UInt8) :
    IsDigit (timedPeek (Print.printed 10 n ++ s)) := by
  cases hprinted : Print.printed 10 n with
  | nil => exact absurd hprinted (printed_ne_nil n)
  | cons c ds => exact isDigit_of_mem_printed (hprinted ▸ List.mem_cons_self)

/-- A `long` that was an `unsigned long` in between. -/
theorem ofInt_toNat_toUInt32 (n : Int32) : Int32.ofInt n.toUInt32.toNat = n := by
  rw [Int32.ofInt_eq_ofNat]
  exact Int32.ofNat_bitVecToNat n.toBitVec

theorem peekNextDigit_of_digit (h : IsDigit (timedPeek s)) :
    peekNextDigit s = (timedPeek s, s) := by
  cases s with
  | nil => exact absurd h (by decide)
  | cons c s => rw [peekNextDigit, if_neg h.ne.2, if_pos h]

/-- The sign is taken, and the loop goes on behind it. -/
theorem parseLoop_minus (h : IsDigit (timedPeek s)) :
    parseLoop 1 (0x2D :: s) 0x2D false 0 = parseLoop 1 s (timedPeek s) true 0 := by
  rw [parseLoop, if_neg (by decide), if_pos rfl]
  exact if_pos (Or.inl h)

/-- **Printing and parsing agree**, behind what is no number and in front of what
ends one. -/
theorem parseInt_print (raw : ℕ → UInt8) (n : Int32) (hp : Junk p) (hs : Ends s) :
    ∃ text, Print.printLong raw n 10 = some text ∧ parseInt (p ++ text ++ s) = (n, s) := by
  unfold Print.printLong
  rw [if_neg (by decide), if_pos rfl]
  split
  · -- The sign is read first, and the absolute value behind it.
    have hdigit := isDigit_timedPeek_printed (-n).toUInt32.toNat s
    rw [Print.printNumber_eq raw _ (by decide) (by decide)]
    refine ⟨_, rfl, ?_⟩
    show parseInt (p ++ 0x2D :: Print.printed 10 (-n).toUInt32.toNat ++ s) = (n, s)
    have hpeek : peekNextDigit (0x2D :: (Print.printed 10 (-n).toUInt32.toNat ++ s)) =
        (0x2D, 0x2D :: (Print.printed 10 (-n).toUInt32.toNat ++ s)) := rfl
    rw [List.append_assoc, List.cons_append, parseInt, parseIntSkip,
      peekNextDigit_append hp, hpeek]
    dsimp only
    rw [if_neg (by decide), parseLoop_minus hdigit, parseLoop_printed hs, ofInt_toNat_toUInt32]
    dsimp only
    rw [if_pos rfl, Int32.neg_neg]
  · have hdigit := isDigit_timedPeek_printed n.toUInt32.toNat s
    have hnonneg : ¬ timedPeek (Print.printed 10 n.toUInt32.toNat ++ s) < 0 := by
      have hlow := hdigit.1
      omega
    refine ⟨_, Print.printNumber_eq raw _ (by decide) (by decide), ?_⟩
    show parseInt (p ++ Print.printed 10 n.toUInt32.toNat ++ s) = (n, s)
    rw [List.append_assoc, parseInt, parseIntSkip, peekNextDigit_append hp,
      peekNextDigit_of_digit hdigit]
    dsimp only
    rw [if_neg hnonneg, parseLoop_printed hs, ofInt_toNat_toUInt32]
    rfl

/-- The lowest number, between two words. -/
theorem parseInt_print_lowest :
    ∃ text, Print.printLong (fun _ => 0) (-2147483648) 10 = some text ∧
      parseInt (ascii "t=" ++ text ++ ascii ";") = (-2147483648, ascii ";") :=
  parseInt_print _ _ (by unfold Junk; decide) (by unfold Ends; decide)

end Stream
