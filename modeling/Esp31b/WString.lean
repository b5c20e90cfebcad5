import Esp31b.CString

/-!
# The `String` class

`String` keeps a buffer and a length, and its operations are of two kinds:
those that go by the length (`trim`, comparisons of lengths) and those that
hand the buffer to a C function and so stop at the first NUL (`indexOf`,
`substring`, `toInt`, every comparison of contents). A `WString` is the
`len` bytes of the buffer, NULs included, so both kinds are visible.

Positions are `unsigned int`, and the -1 of a failed search becomes the
largest of them when it is passed on; `pos` is that conversion.
-/

/-- The contents of a `String`. -/
abbrev WString := List UInt8

/-- `RequestArgument`, an argument or a header; the server and the client
declare the same. -/
structure RequestArgument where
  key : WString
  value : WString
  deriving DecidableEq, Repr

namespace WString

/-- An `int` passed for an `unsigned int`. -/
def pos (i : ℤ) : ℕ := (i % 2 ^ 32).toNat

/-- `indexOf(ch, fromIndex)`, by `strchr`. -/
def indexOf (s : WString) (ch : UInt8) (fromIndex : ℕ) : ℤ :=
  if fromIndex ≥ s.length then -1
  else
    match (cstr (s.drop fromIndex)).findIdx? (· == ch) with
    | some i => fromIndex + i
    | none => -1

/-- `substring(left, right)`. -/
def substring (s : WString) (left right : ℕ) : WString :=
  let (left, right) := if left > right then (right, left) else (left, right)
  if left ≥ s.length then [] else cstr ((s.take right).drop left)

/-- What `strncpy` makes of a text, and `strcpy` in a block of zeros: behind a NUL
there are only NULs. -/
def cleared (s : WString) : WString := cstr s ++ List.replicate (s.length - (cstr s).length) 0

/-- `remove(0, count)`, by `strncpy`. -/
def removeFront (s : WString) (count : ℕ) : WString :=
  if s = [] ∨ count = 0 then s else cleared (s.drop count)

/-- `startsWith`, by `strncmp`. -/
def startsWith (s t : WString) : Bool :=
  t.length ≤ s.length && cstr (s.take t.length) == cstr t

/-- `equals(const char *)`, by `strcmp`. -/
def equalsC (s t : WString) : Bool := cstr s == t

/-- `equals(const String &)`. -/
def equals (s t : WString) : Bool := s.length == t.length && cstr s == cstr t

/-- `equalsIgnoreCase`, up to the first NUL of the left side. -/
def equalsIgnoreCase (s t : WString) : Bool :=
  s.length == t.length && (cstr s).map tolower == (t.take (cstr s).length).map tolower

/-- `toLowerCase`, up to the first NUL. -/
def toLowerCase (s : WString) : WString := (cstr s).map tolower ++ s.drop (cstr s).length

/-- What is kept of a C string when every `find` goes, `skip` bytes of one
being still to go. -/
def keptFrom (find : WString) : ℕ → WString → WString
  | _, [] => []
  | skip + 1, _ :: s => keptFrom find skip s
  | 0, c :: s => if find.isPrefixOf (c :: s) then keptFrom find (find.length - 1) s
      else c :: keptFrom find 0 s

/-- `replace(find, "")`, by `strstr` and a closing `strcpy`: behind a NUL the
buffer is as it was. -/
def replaceEmpty (s find : WString) : WString :=
  if s = [] ∨ find = [] then s
  else
    let kept := keptFrom find 0 (cstr s)
    (kept ++ 0 :: s.drop (kept.length + 1)).take (s.length - ((cstr s).length - kept.length))

/-- `trim`. -/
def trim (s : WString) : WString := (s.dropWhile isspace).rdropWhile isspace

/-- `toInt`. -/
def toInt (s : WString) : ℤ := atol s

/-! ## Copies

Contents are handed on by `strcpy`, with the length. -/

/-- **What a new string gets** that a text is moved to: it has a block of 16 bytes,
and a text that fits is copied to it. The block of a longer one is taken over. -/
def moved (s : WString) : WString := if s.length < 16 then cleared s else s

/-- Nothing but NULs is behind the first NUL. -/
def NulsLast (s : WString) : Prop := ∀ c ∈ s.dropWhile (· ≠ 0), c = 0

instance (s : WString) : Decidable (NulsLast s) := List.decidableBAll _ _

/-- **Texts that arrive as they are**: the long ones, and those with their NULs last. -/
def ArrivesWhole (s : WString) : Prop := 16 ≤ s.length ∨ NulsLast s

instance (s : WString) : Decidable (ArrivesWhole s) := inferInstanceAs (Decidable (_ ∨ _))

theorem cleared_of_plain {s : WString} (h : 0 ∉ s) : cleared s = s := by
  rw [cleared, cstr_of_not_mem h, Nat.sub_self, List.replicate_zero, List.append_nil]

/-- What is cleared was behind a NUL. -/
theorem mem_of_mem_cleared {s : WString} {b : UInt8} (h : b ∈ cleared s) : b ∈ s := by
  by_cases hzero : 0 ∈ s
  · rcases List.mem_append.mp h with h | h
    · exact (List.takeWhile_prefix _).subset h
    · exact List.eq_of_mem_replicate h ▸ hzero
  · rwa [cleared_of_plain hzero] at h

theorem length_cleared (s : WString) : (cleared s).length = s.length := by
  have hle := length_cstr_le s
  rw [cleared, List.length_append, List.length_replicate]
  omega

/-- What is in front of the first NUL is as it was. -/
theorem cleared_append {p : WString} (hp : 0 ∉ p) (t : WString) :
    cleared (p ++ t) = p ++ cleared t := by
  have hcstr : cstr (p ++ t) = p ++ cstr t := by
    unfold cstr
    exact List.takeWhile_append_of_pos fun c hc => decide_eq_true fun h0 => hp (h0 ▸ hc)
  unfold cleared
  rw [hcstr, List.append_assoc, List.length_append, List.length_append, Nat.add_sub_add_left]

theorem cstr_cleared (s : WString) : cstr (cleared s) = cstr s := by
  unfold cleared
  generalize s.length - (cstr s).length = n
  have hplain : ∀ c ∈ cstr s, decide (c ≠ 0) = true := fun c hc =>
    decide_eq_true fun h0 => zero_not_mem_cstr s (h0 ▸ hc)
  have hzeros : cstr (List.replicate n 0) = [] := by
    cases n with
    | zero => rfl
    | succ n => exact List.takeWhile_cons_of_neg (by decide)
  show (cstr s ++ List.replicate n 0).takeWhile (· ≠ 0) = cstr s
  rw [List.takeWhile_append_of_pos hplain]
  show cstr s ++ cstr (List.replicate n 0) = cstr s
  rw [hzeros, List.append_nil]

theorem cleared_cleared (s : WString) : cleared (cleared s) = cleared s := by
  show cstr (cleared s) ++ List.replicate ((cleared s).length - (cstr (cleared s)).length) 0 =
    cleared s
  rw [cstr_cleared, length_cleared]
  rfl

/-- **Nothing is lost** exactly if no other byte stands behind a NUL. -/
theorem cleared_eq_iff {s : WString} : cleared s = s ↔ NulsLast s := by
  have hrest : s.length - (cstr s).length = (s.dropWhile (· ≠ 0)).length := by
    have hlen := congrArg List.length (List.takeWhile_append_dropWhile (p := (· ≠ 0)) (l := s))
    rw [List.length_append] at hlen
    unfold cstr
    omega
  have hsplit : cleared s = s ↔
      cstr s ++ List.replicate (s.dropWhile (· ≠ 0)).length 0 =
      cstr s ++ s.dropWhile (· ≠ 0) := by
    rw [cleared, hrest, cstr, List.takeWhile_append_dropWhile]
  rw [hsplit, List.append_cancel_left_eq, eq_comm, List.eq_replicate_iff]
  exact and_iff_right rfl

theorem moved_eq_iff {s : WString} : moved s = s ↔ ArrivesWhole s := by
  unfold moved ArrivesWhole
  split
  · rename_i hshort
    rw [cleared_eq_iff, or_iff_right (Nat.not_le.mpr hshort)]
  · rename_i hlong
    exact iff_of_true rfl (Or.inl (Nat.le_of_not_lt hlong))

theorem moved_of_plain {s : WString} (h : 0 ∉ s) : moved s = s := by
  unfold moved
  split
  · exact cleared_of_plain h
  · rfl

/-- **Texts without NUL** are moved from themselves only. -/
theorem moved_eq_plain {s t : WString} (ht : 0 ∉ t) : moved s = t ↔ s = t := by
  refine ⟨fun h => ?_, fun h => h ▸ moved_of_plain (h ▸ ht)⟩
  unfold moved at h
  split at h
  · unfold cleared at h
    have hrest : s.length - (cstr s).length = 0 := by
      by_contra hne
      refine ht (h ▸ List.mem_append_right _ ?_)
      exact List.mem_replicate.mpr ⟨hne, rfl⟩
    have hwhole : cstr s = s :=
      (List.takeWhile_prefix _).eq_of_length_le (by unfold cstr at hrest; omega)
    rwa [hrest, List.replicate_zero, List.append_nil, hwhole] at h
  · exact h

/-! ## On strings without NUL -/

theorem pos_natCast {n : ℕ} (h : n < 2 ^ 32) : pos n = n := by
  unfold pos
  omega

theorem length_le_pos_neg_one {s : WString} (h : s.length < 2 ^ 32) : s.length ≤ pos (-1) := by
  unfold pos
  omega

/-- No blank at the end, and nothing is cut there. -/
theorem rdropWhile_of_last {s : WString} (hlast : ∀ c ∈ s.getLast?, isspace c = false) :
    s.rdropWhile isspace = s := by
  rw [List.rdropWhile_eq_self_iff]
  intro hne
  rw [hlast _ (List.getLast?_eq_some_getLast hne)]
  exact Bool.false_ne_true

/-- Blanks at the end are all cut. -/
theorem rdropWhile_append_blank (s : WString) {blank : WString}
    (hblank : ∀ c ∈ blank, isspace c = true) :
    (s ++ blank).rdropWhile isspace = s.rdropWhile isspace := by
  have hdrop : blank.reverse.dropWhile isspace = [] :=
    List.dropWhile_eq_nil_iff.mpr fun c hc => hblank c (List.mem_reverse.mp hc)
  rw [List.rdropWhile, List.reverse_append, List.dropWhile_append, hdrop, List.isEmpty_nil,
    if_pos rfl]
  rfl

/-- Of a text that starts with `c` nothing is left, or one that does. -/
theorem rdropWhile_cons (c : UInt8) (s : WString) :
    (c :: s).rdropWhile isspace = [] ∨ ∃ u, (c :: s).rdropWhile isspace = c :: u := by
  cases hu : (c :: s).rdropWhile isspace with
  | nil => exact Or.inl rfl
  | cons x u =>
    have hstart := List.rdropWhile_prefix isspace (c :: s)
    rw [hu, List.cons_prefix_cons] at hstart
    exact Or.inr ⟨u, by rw [hstart.1]⟩

theorem trim_of_ends {s : WString} (hfirst : ∀ c ∈ s.head?, isspace c = false)
    (hlast : ∀ c ∈ s.getLast?, isspace c = false) : trim s = s := by
  unfold trim
  cases s with
  | nil => rfl
  | cons c s =>
    rw [List.dropWhile_cons_of_neg (by simp [hfirst c rfl]), rdropWhile_of_last hlast]

/-- A blank at the end is trimmed. -/
theorem trim_concat {s : WString} {c : UInt8} (h : isspace c = true) :
    trim (s ++ [c]) = trim s := by
  unfold trim
  rw [List.dropWhile_append]
  split
  · rename_i hs
    rw [List.isEmpty_iff.mp hs]
    simp [h]
  · rw [List.rdropWhile_concat_pos _ _ _ h]

/-- **What is trimmed of a text that starts with `p`** when no blank is at
either end of `p`. -/
theorem trim_append {p : WString} (hne : p ≠ []) (hfirst : ∀ c ∈ p.head?, isspace c = false)
    (hlast : ∀ c ∈ p.getLast?, isspace c = false) (q : WString) :
    trim (p ++ q) = p ++ q.rdropWhile isspace := by
  obtain ⟨c, p', rfl⟩ := List.exists_cons_of_ne_nil hne
  have hp : (c :: p').rdropWhile isspace = c :: p' := rdropWhile_of_last hlast
  unfold trim
  rw [List.cons_append, List.dropWhile_cons_of_neg (by simp [hfirst c rfl]), ← List.cons_append]
  rw [List.rdropWhile, List.reverse_append, List.dropWhile_append]
  split
  · rename_i hq
    rw [List.isEmpty_iff] at hq
    rw [← List.rdropWhile, hp, List.rdropWhile, hq]
    simp
  · rw [List.reverse_append, List.reverse_reverse]
    rfl

/-- **What is trimmed of a name, a colon and a text.** -/
theorem trim_colon {name : WString} (hne : name ≠ []) (hname : ∀ c ∈ name, isspace c = false)
    (t : WString) : trim (name ++ 0x3A :: t) = name ++ 0x3A :: t.rdropWhile isspace := by
  have hsplit : ∀ t : WString, name ++ 0x3A :: t = (name ++ [0x3A]) ++ t := fun t =>
    (List.append_cons name 0x3A t)
  rw [hsplit, trim_append (List.append_ne_nil_of_left_ne_nil hne _) ?_ ?_, ← hsplit]
  · intro c hc
    rw [List.head?_append_of_ne_nil _ hne] at hc
    exact hname c (List.mem_of_mem_head? hc)
  · intro c hc
    rw [List.getLast?_concat] at hc
    obtain rfl := Option.some.inj hc
    decide

/-- **A name, a colon and a value with blanks around it**: the blanks in front
stay, unless there is no value. -/
theorem trim_field {name pad value blank : WString} (hne : name ≠ [])
    (hname : ∀ c ∈ name, isspace c = false) (hpad : ∀ c ∈ pad, isspace c = true)
    (hlast : ∀ c ∈ value.getLast?, isspace c = false) (hblank : ∀ c ∈ blank, isspace c = true) :
    trim (name ++ 0x3A :: (pad ++ value ++ blank)) =
      name ++ 0x3A :: (if value = [] then [] else pad ++ value) := by
  rw [trim_colon hne hname, rdropWhile_append_blank _ hblank]
  split
  · rename_i hnil
    rw [hnil, List.append_nil, List.rdropWhile_eq_nil_iff.mpr hpad]
  · rename_i hvalue
    rw [rdropWhile_of_last]
    rwa [List.getLast?_append_of_ne_nil _ hvalue]

theorem not_mem_trim {s : WString} {c : UInt8} (h : c ∉ s) : c ∉ trim s := by
  intro hc
  exact h ((List.dropWhile_suffix _).subset ((List.rdropWhile_prefix _ _).subset hc))

theorem zero_not_mem_substring (s : WString) (left right : ℕ) : 0 ∉ s.substring left right := by
  unfold substring
  generalize (if left > right then (right, left) else (left, right)) = bounds
  obtain ⟨left, right⟩ := bounds
  dsimp only
  split
  · exact List.not_mem_nil
  · exact zero_not_mem_cstr _

@[simp]
theorem moved_substring (s : WString) (left right : ℕ) :
    (s.substring left right).moved = s.substring left right :=
  moved_of_plain (zero_not_mem_substring s left right)

/-- `substring` up to the end, from anywhere. -/
theorem substring_to_end (s : WString) (left : ℕ) :
    s.substring left s.length = cstr (s.drop left) := by
  unfold substring
  by_cases hleft : left < s.length
  · rw [if_neg (by omega)]
    dsimp only
    rw [if_neg (by omega), List.take_length]
  · rw [List.drop_eq_nil_of_le (by omega)]
    by_cases hgt : left > s.length
    · rw [if_pos hgt]
      exact if_pos (Nat.le_refl _)
    · rw [if_neg hgt]
      exact if_pos (by omega)

/-- The same without NUL. -/
theorem substring_length {s : WString} (h : 0 ∉ s) (left : ℕ) :
    s.substring left s.length = s.drop left := by
  rw [substring_to_end]
  exact cstr_of_not_mem (fun h0 => h (List.mem_of_mem_drop h0))

/-- `substring` with its bounds in order. -/
theorem substring_of_le {s : WString} {left right : ℕ} (h : left ≤ right) :
    s.substring left right = cstr ((s.take right).drop left) := by
  unfold substring
  rw [if_neg (by omega)]
  dsimp only
  split
  · rw [List.drop_eq_nil_of_le (by rw [List.length_take]; omega)]
    rfl
  · rfl

/-- **A search that finds something**, behind bytes that are neither it nor
NUL. -/
theorem indexOf_of_drop {s p t : WString} {ch : UInt8} {i : ℕ} (hd : s.drop i = p ++ ch :: t)
    (hp : ∀ c ∈ p, c ≠ ch ∧ c ≠ 0) (hch : ch ≠ 0) : indexOf s ch i = i + p.length := by
  have hlt : i < s.length := by
    have h := congrArg List.length hd
    simp only [List.length_drop, List.length_append, List.length_cons] at h
    omega
  have hcstr : cstr (p ++ ch :: t) = p ++ ch :: cstr t := by
    unfold cstr
    rw [List.takeWhile_append_of_pos (fun c hc => decide_eq_true (hp c hc).2),
      List.takeWhile_cons_of_pos (by simpa using hch)]
  have hfind : (p ++ ch :: cstr t).findIdx? (· == ch) = some p.length := by
    rw [List.findIdx?_append, List.findIdx?_eq_none_iff.mpr (fun c hc => by simp [(hp c hc).1])]
    simp [List.findIdx?_cons]
  unfold indexOf
  rw [if_neg (by omega), hd, hcstr, hfind]

/-- The same from the start. -/
theorem indexOf_append {p t : WString} {ch : UInt8} (hp : ∀ c ∈ p, c ≠ ch ∧ c ≠ 0)
    (hch : ch ≠ 0) :
    indexOf (p ++ ch :: t) ch 0 = p.length := by
  rw [indexOf_of_drop (t := t) (List.drop_zero) hp hch]
  omega

/-- A search that finds nothing. -/
theorem indexOf_none {s : WString} {ch : UInt8} {i : ℕ} (h : ch ∉ s.drop i) :
    indexOf s ch i = -1 := by
  unfold indexOf
  split
  · rfl
  · rw [List.findIdx?_eq_none_iff.mpr (fun c hc => by
      simp only [beq_eq_false_iff_ne]
      rintro rfl
      exact h ((List.takeWhile_prefix _).subset hc))]

/-- **A text up to a byte**: from `i` on as far as the byte, a NUL or the end. -/
theorem substring_indexOf {s : WString} {ch : UInt8} (hch : ch ≠ 0)
    (hlen : s.length < 2 ^ 32) {i : ℕ}
    (hi : i < 2 ^ 32) :
    s.substring i (pos (s.indexOf ch i)) = (s.drop i).takeWhile (fun c => c ≠ ch ∧ c ≠ 0) := by
  set p := (s.drop i).takeWhile (fun c => c ≠ ch ∧ c ≠ 0) with hp
  have hsplit := List.takeWhile_append_dropWhile (p := fun c => decide (c ≠ ch ∧ c ≠ 0))
    (l := s.drop i)
  have hmem : ∀ c ∈ p, c ≠ ch ∧ c ≠ 0 := fun c hc => by simpa using List.mem_takeWhile_imp hc
  have hplain : ∀ c ∈ p, decide (c ≠ 0) = true := fun c hc => decide_eq_true (hmem c hc).2
  have hbig : i ≤ pos (-1) ∧ s.length ≤ pos (-1) := by
    unfold pos
    omega
  rw [← hp] at hsplit
  cases hrest : (s.drop i).dropWhile (fun c => decide (c ≠ ch ∧ c ≠ 0)) with
  | nil =>
    -- to the end
    rw [hrest, List.append_nil] at hsplit
    rw [indexOf_none (hsplit ▸ fun hc => (hmem ch hc).1 rfl), substring_of_le hbig.1,
      List.take_of_length_le hbig.2, ← hsplit]
    exact cstr_of_not_mem fun h0 => (hmem 0 h0).2 rfl
  | cons c t =>
    have hstop : decide (c ≠ ch ∧ c ≠ 0) = false := by
      have hhead := List.head?_dropWhile_not (fun c => decide (c ≠ ch ∧ c ≠ 0)) (s.drop i)
      rw [hrest] at hhead
      simpa using hhead
    rw [hrest] at hsplit
    rw [decide_eq_false_iff_not, not_and_or, not_not, not_not] at hstop
    by_cases hfound : c = ch
    · subst hfound
      have hle : i + p.length < s.length := by
        have hlength := congrArg List.length hsplit
        simp only [List.length_append, List.length_cons, List.length_drop] at hlength
        omega
      rw [indexOf_of_drop hsplit.symm hmem hch,
        show (i : ℤ) + (p.length : ℤ) = ((i + p.length : ℕ) : ℤ) by omega,
        pos_natCast (by omega), substring_of_le (by omega), List.drop_take, ← hsplit,
        Nat.add_sub_cancel_left, List.take_left]
      exact cstr_of_not_mem fun h0 => (hmem 0 h0).2 rfl
    · -- up to a NUL
      obtain rfl : c = 0 := hstop.resolve_left hfound
      have hcstr : cstr (s.drop i) = p := by
        rw [← hsplit, cstr, List.takeWhile_append_of_pos hplain,
          List.takeWhile_cons_of_neg (by decide), List.append_nil]
      have hnone : s.indexOf ch i = -1 := by
        unfold indexOf
        split
        · rfl
        · rw [hcstr, List.findIdx?_eq_none_iff.mpr fun c hc =>
            beq_eq_false_iff_ne.mpr (hmem c hc).1]
      rw [hnone, substring_of_le hbig.1, List.take_of_length_le hbig.2, hcstr]

theorem equalsIgnoreCase_iff {s t : WString} (hs : 0 ∉ s) :
    s.equalsIgnoreCase t = true ↔ s.map tolower = t.map tolower := by
  unfold equalsIgnoreCase
  rw [cstr_of_not_mem hs, Bool.and_eq_true, beq_iff_eq, beq_iff_eq]
  constructor
  · rintro ⟨hlen, hmap⟩
    rwa [hlen, List.take_length] at hmap
  · intro hmap
    have hlen : s.length = t.length := by simpa using congrArg List.length hmap
    exact ⟨hlen, by rw [hlen, List.take_length, hmap]⟩

theorem startsWith_iff {s t : WString} (ht : 0 ∉ t) : s.startsWith t = true ↔ t <+: s := by
  unfold startsWith
  rw [cstr_of_not_mem ht, List.prefix_iff_eq_take]
  simp only [Bool.and_eq_true, decide_eq_true_eq, beq_iff_eq]
  constructor
  · rintro ⟨hlen, htake⟩
    have hwhole : cstr (s.take t.length) = s.take t.length :=
      (List.takeWhile_prefix _).eq_of_length_le (by
        show (s.take t.length).length ≤ (cstr (s.take t.length)).length
        rw [htake, List.length_take]
        exact Nat.min_le_left _ _)
    exact htake.symm.trans hwhole
  · intro heq
    refine ⟨?_, by rw [← heq, cstr_of_not_mem ht]⟩
    rw [heq, List.length_take]
    exact Nat.min_le_right _ _

theorem equalsC_iff {s t : WString} (hs : 0 ∉ s) : s.equalsC t = true ↔ s = t := by
  unfold equalsC
  rw [cstr_of_not_mem hs, beq_iff_eq]

end WString
