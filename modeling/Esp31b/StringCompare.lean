import Esp31b.StringText
import Mathlib.Data.List.Lex
import Mathlib.Order.Lattice

/-!
# Comparing `String`s

`compareTo` is `strcmp`, but a null string has no buffer to hand to it: then the first byte of
the other one decides. `equals` compares the lengths first, and is written once more for a C
string. On strings of a text all of them are the lexicographic order of the unsigned bytes
(`StringObject.Orders`), and the laws are those of that order (`StringObject.comparisons_spec`).

Two objects can be the same one, and `equalsIgnoreCase` looks at that first; it is an argument
here.
-/

namespace StringObject

/-! ## The functions -/

/-- `strcmp`: the difference of the first two bytes that differ. -/
def strcmp : List UInt8 → List UInt8 → ℤ
  | [], [] => 0
  | [], d :: _ => 0 - d.toNat
  | c :: _, [] => c.toNat - 0
  | c :: s, d :: t => if c = d then strcmp s t else c.toNat - d.toNat

/-- `compareTo`. -/
def compareTo (s s2 : StringObject) : Option ℤ :=
  if s.buffer = none ∨ s2.buffer = none then
    if s2.buffer ≠ none ∧ s2.len > 0 then (s2.byte 0).map fun c => 0 - (c.toNat : ℤ)
    else if s.buffer ≠ none ∧ s.len > 0 then (s.byte 0).map fun c => (c.toNat : ℤ)
    else some 0
  else do
    let t ← s.text 0
    let u ← s2.text 0
    return strcmp t u

/-- `equals(const String &)`, and `==`. -/
def equals (s s2 : StringObject) : Option Bool :=
  if s.len = s2.len then (s.compareTo s2).map fun r => decide (r = 0) else some false

/-- `equals(const char *)`, and `==`; `none` is a null pointer. -/
def equalsText (s : StringObject) (cstr : Option (List UInt8)) : Option Bool :=
  if s.len = 0 then some (decide (cstr = none ∨ cstr = some []))
  else
    match cstr with
    | none => (s.byte 0).map fun c => decide (c = 0)
    | some u => (s.text 0).map fun t => decide (strcmp t u = 0)

/-- `!=`, of a string. -/
def notEquals (s s2 : StringObject) : Option Bool := (s.equals s2).map not

/-- `!=`, of a C string. -/
def notEqualsText (s : StringObject) (cstr : Option (List UInt8)) : Option Bool :=
  (s.equalsText cstr).map not

/-- `<`. -/
def less (s rhs : StringObject) : Option Bool := (s.compareTo rhs).map fun r => decide (r < 0)

/-- `>`. -/
def greater (s rhs : StringObject) : Option Bool :=
  (s.compareTo rhs).map fun r => decide (r > 0)

/-- `<=`. -/
def lessEqual (s rhs : StringObject) : Option Bool :=
  (s.compareTo rhs).map fun r => decide (r ≤ 0)

/-- `>=`. -/
def greaterEqual (s rhs : StringObject) : Option Bool :=
  (s.compareTo rhs).map fun r => decide (r ≥ 0)

/-- The loop of `equalsIgnoreCase`, over the bytes from two positions on. -/
def ignoreCaseLoop : List UInt8 → List UInt8 → Option Bool
  | [], _ => none
  | c :: p1, p2 =>
    if c = 0 then some true
    else
      match p2 with
      | [] => none
      | d :: p2 => if tolower c ≠ tolower d then some false else ignoreCaseLoop p1 p2

/-- `equalsIgnoreCase`; `same` is whether the other object is this one. -/
def equalsIgnoreCase (s s2 : StringObject) (same : Bool) : Option Bool :=
  if same then some true
  else if s.len ≠ s2.len then some false
  else if s.len = 0 then some true
  else do
    let p1 ← s.buffer
    let p2 ← s2.buffer
    ignoreCaseLoop p1 p2

/-! ## The order of texts -/

/-- The unsigned bytes of a text. -/
def values (T : List UInt8) : List ℕ := T.map UInt8.toNat

/-- **The sign of a number** says how two texts are ordered. -/
structure Orders (r : ℤ) (T U : List UInt8) : Prop where
  lt : r < 0 ↔ values T < values U
  eq : r = 0 ↔ T = U
  gt : r > 0 ↔ values U < values T

variable {s s2 s3 : StringObject} {T U V : List UInt8} {r r' r'' : ℤ} {c d : UInt8}

theorem orders_nil : Orders 0 [] [] :=
  ⟨by simp [values], by simp, by simp [values]⟩

/-- **The end of a text** is in front of every byte. -/
theorem orders_nil_cons (hd : d ≠ 0) (U : List UInt8) : Orders (0 - d.toNat) [] (d :: U) := by
  have hpos : 0 < d.toNat := Nat.pos_of_ne_zero fun h => hd (UInt8.toNat_inj.mp h)
  refine ⟨iff_of_true (by omega) (List.nil_lt_cons _ _), iff_of_false (by omega) ?_,
    iff_of_false (by omega) (List.not_lt_nil _)⟩
  exact (List.cons_ne_nil d U).symm

/-- What is greater and what is less change places. -/
theorem Orders.symm (h : Orders r T U) : Orders (-r) U T :=
  ⟨by rw [Int.neg_neg_iff_pos]; exact h.gt, by rw [Int.neg_eq_zero, h.eq, eq_comm],
    by rw [← h.lt]; omega⟩

theorem values_cons_lt (c d : UInt8) (T U : List UInt8) : values (c :: T) < values (d :: U) ↔
    c.toNat < d.toNat ∨ c.toNat = d.toNat ∧ values T < values U :=
  List.cons_lt_cons_iff

/-- Behind a common byte the order is that of what follows. -/
theorem Orders.cons (h : Orders r T U) (c : UInt8) : Orders r (c :: T) (c :: U) := by
  refine ⟨?_, ?_, ?_⟩
  · rw [values_cons_lt, h.lt]
    simp
  · rw [h.eq, List.cons_inj_right]
  · rw [values_cons_lt, h.gt]
    simp

/-- The first difference decides. -/
theorem orders_cons_of_ne (hne : c ≠ d) (T U : List UInt8) :
    Orders (c.toNat - d.toNat) (c :: T) (d :: U) := by
  have hvalue : c.toNat ≠ d.toNat := fun h => hne (UInt8.toNat_inj.mp h)
  refine ⟨?_, ?_, ?_⟩
  · rw [values_cons_lt, or_iff_left fun h => hvalue h.1]
    omega
  · exact iff_of_false (by omega) fun h => hne (List.cons.inj h).1
  · rw [values_cons_lt, or_iff_left fun h => hvalue h.1.symm]
    omega

/-- **`strcmp` orders texts.** -/
theorem orders_strcmp (hT : 0 ∉ T) (hU : 0 ∉ U) : Orders (strcmp T U) T U := by
  induction T generalizing U with
  | nil =>
    cases U with
    | nil => exact orders_nil
    | cons d U => exact orders_nil_cons (List.ne_of_not_mem_cons hU).symm U
  | cons c T ih =>
    cases U with
    | nil =>
      have hsymm := (orders_nil_cons (List.ne_of_not_mem_cons hT).symm T).symm
      rwa [Int.neg_sub] at hsymm
    | cons d U =>
      rw [strcmp]
      by_cases hcd : c = d
      · subst hcd
        rw [if_pos rfl]
        exact (ih (List.not_mem_of_not_mem_cons hT) (List.not_mem_of_not_mem_cons hU)).cons c
      · rw [if_neg hcd]
        exact orders_cons_of_ne hcd T U

/-- Both signs are opposite. -/
theorem Orders.sign_eq (h : Orders r T U) (h' : Orders r' U T) : r.sign = -r'.sign := by
  rcases lt_trichotomy r 0 with hlt | heq | hgt
  · have hpos : r' > 0 := h'.gt.mpr (h.lt.mp hlt)
    rw [Int.sign_eq_neg_one_of_neg hlt, Int.sign_eq_one_of_pos hpos]
  · have hzero : r' = 0 := h'.eq.mpr (h.eq.mp heq).symm
    rw [heq, hzero]
    rfl
  · have hneg : r' < 0 := h'.lt.mpr (h.gt.mp hgt)
    rw [Int.sign_eq_one_of_pos hgt, Int.sign_eq_neg_one_of_neg hneg]
    rfl

/-- It is not greater where the text is not. -/
theorem Orders.nonpos_iff (h : Orders r T U) : r ≤ 0 ↔ values T ≤ values U := by
  rw [← not_lt, ← not_lt]
  exact not_congr h.gt

/-! ## What the functions return -/

/-- **`compareTo` orders the texts**, null strings like empty ones. -/
theorem HasText.compareTo_spec (hs : s.HasText T) (hs2 : s2.HasText U) :
    ∃ r, s.compareTo s2 = some r ∧ Orders r T U := by
  unfold compareTo
  rcases hs.cases with ⟨rfl, rfl⟩ | ⟨R, k, rfl, -⟩ <;>
    rcases hs2.cases with ⟨rfl, rfl⟩ | ⟨R', k', rfl, -⟩
  · exact ⟨0, rfl, orders_nil⟩
  · rw [if_pos (Or.inl (show init.buffer = none from rfl))]
    cases U with
    | nil => exact ⟨0, rfl, orders_nil⟩
    | cons d U =>
      exact ⟨0 - d.toNat, rfl, orders_nil_cons (List.ne_of_not_mem_cons hs2.zero).symm U⟩
  · rw [if_pos (Or.inr (show init.buffer = none from rfl))]
    cases T with
    | nil => exact ⟨0, rfl, orders_nil⟩
    | cons c T =>
      have hsymm := (orders_nil_cons (List.ne_of_not_mem_cons hs.zero).symm T).symm
      rw [Int.neg_sub, Int.sub_zero] at hsymm
      exact ⟨c.toNat, rfl, hsymm⟩
  · have ht : StringObject.text ⟨some (T ++ 0 :: R), k, T.length⟩ 0 = some T :=
      Block.text_append_zero hs.zero R
    have hu : StringObject.text ⟨some (U ++ 0 :: R'), k', U.length⟩ 0 = some U :=
      Block.text_append_zero hs2.zero R'
    rw [if_neg (by simp), ht, hu]
    exact ⟨strcmp T U, rfl, orders_strcmp hs.zero hs2.zero⟩

/-- **`equals` compares the texts.** -/
theorem HasText.equals_eq (hs : s.HasText T) (hs2 : s2.HasText U) :
    s.equals s2 = some (decide (T = U)) := by
  unfold equals
  rw [hs.len, hs2.len]
  split
  · obtain ⟨r, hr, horders⟩ := hs.compareTo_spec hs2
    rw [hr, Option.map_some]
    exact congrArg some (decide_eq_decide.mpr horders.eq)
  · rename_i hlen
    exact congrArg some (decide_eq_false fun h => hlen (congrArg List.length h)).symm

/-- **So does the one for a C string**, with a null pointer as the empty text. -/
theorem HasText.equalsText_eq (hs : s.HasText T) (cstr : Option (List UInt8))
    (h0 : 0 ∉ cstr.getD []) : s.equalsText cstr = some (decide (T = cstr.getD [])) := by
  unfold equalsText
  by_cases hT : T = []
  · rw [if_pos (by rw [hs.len, hT]; rfl), hT]
    refine congrArg some (decide_eq_decide.mpr ?_)
    cases cstr with
    | none => exact iff_of_true (Or.inl rfl) rfl
    | some u => simp [eq_comm]
  · have hpos := List.length_pos_iff.mpr hT
    obtain ⟨R, k, rfl, -⟩ := hs.exists_block hT
    rw [if_neg hpos.ne']
    cases cstr with
    | none =>
      obtain ⟨c, T, rfl⟩ := List.exists_cons_of_ne_nil hT
      have hc : c ≠ 0 := (List.ne_of_not_mem_cons hs.zero).symm
      exact congrArg some (decide_eq_decide.mpr (iff_of_false hc hT))
    | some u =>
      have ht : StringObject.text ⟨some (T ++ 0 :: R), k, T.length⟩ 0 = some T :=
        Block.text_append_zero hs.zero R
      rw [ht]
      exact congrArg some (decide_eq_decide.mpr (orders_strcmp hs.zero h0).eq)

/-- The loop compares two texts of one length. -/
theorem ignoreCaseLoop_eq {R R' : List UInt8} (hT : 0 ∉ T) (hlen : T.length = U.length) :
    ignoreCaseLoop (T ++ 0 :: R) (U ++ 0 :: R') =
      some (decide (T.map tolower = U.map tolower)) := by
  induction T generalizing U with
  | nil =>
    obtain rfl := List.length_eq_zero_iff.mp hlen.symm
    rfl
  | cons c T ih =>
    cases U with
    | nil => cases hlen
    | cons d U =>
      have hc : c ≠ 0 := (List.ne_of_not_mem_cons hT).symm
      rw [List.cons_append, List.cons_append, ignoreCaseLoop, if_neg hc]
      rw [List.map_cons, List.map_cons]
      split
      · rename_i hne
        exact congrArg some (decide_eq_false fun h => hne (List.cons.inj h).1).symm
      · rename_i heq
        rw [ih (List.not_mem_of_not_mem_cons hT) (Nat.succ_inj.mp hlen)]
        refine congrArg some (decide_eq_decide.mpr ?_)
        rw [not_not.mp heq, List.cons_inj_right]

/-- **`equalsIgnoreCase` compares the texts in lower case**, if it looks at them. -/
theorem HasText.equalsIgnoreCase_eq (hs : s.HasText T) (hs2 : s2.HasText U) {same : Bool}
    (hsame : same = true → s = s2) :
    s.equalsIgnoreCase s2 same = some (decide (T.map tolower = U.map tolower)) := by
  unfold equalsIgnoreCase
  split
  · rename_i htrue
    have hTU : T = U := by rw [← hs.contents, ← hs2.contents, hsame htrue]
    rw [hTU, decide_eq_true rfl]
  · rw [hs.len, hs2.len]
    split
    · rename_i hne
      refine congrArg some (decide_eq_false fun h => hne ?_).symm
      simpa using congrArg List.length h
    · rename_i hlen
      have hlen' := not_not.mp hlen
      split
      · rename_i hzero
        rw [List.length_eq_zero_iff.mp hzero,
          List.length_eq_zero_iff.mp (hlen'.symm.trans hzero)]
        rfl
      · rename_i hne
        obtain ⟨R, k, rfl, -⟩ := hs.exists_block fun h => hne (congrArg List.length h)
        obtain ⟨R', k', rfl, -⟩ :=
          hs2.exists_block fun h => hne (hlen'.trans (congrArg List.length h))
        exact ignoreCaseLoop_eq hs.zero hlen'

/-! ## The laws -/

/-- **The comparisons are those of one total order**, over valid strings without NULs: its laws,
the relations that agree with it, and an equivalence that is weaker than equality. -/
theorem comparisons_spec (hs : s.Valid) (hfree : s.NulFree) (hs2 : s2.Valid)
    (hfree2 : s2.NulFree)
    (hs3 : s3.Valid) (hfree3 : s3.NulFree) :
    (∃ r r' r₂₃ r₁₃ : ℤ, s.compareTo s2 = some r ∧ s2.compareTo s = some r' ∧
      s2.compareTo s3 = some r₂₃ ∧ s.compareTo s3 = some r₁₃ ∧
      Orders r s.contents s2.contents ∧ r.sign = -r'.sign ∧ (r ≤ 0 ∨ r' ≤ 0) ∧
      (r ≤ 0 → r₂₃ ≤ 0 → r₁₃ ≤ 0) ∧
      s.equals s2 = some (decide (r = 0)) ∧ s.notEquals s2 = some (decide (r ≠ 0)) ∧
      (∀ cstr : Option (List UInt8), cstr.getD [] = s2.contents →
        s.equalsText cstr = some (decide (r = 0)) ∧
          s.notEqualsText cstr = some (decide (r ≠ 0))) ∧
      s.less s2 = some (decide (r < 0)) ∧ s.greater s2 = some (decide (r > 0)) ∧
      s.lessEqual s2 = some (decide (r ≤ 0)) ∧ s.greaterEqual s2 = some (decide (r ≥ 0))) ∧
    (∀ same, s.equalsIgnoreCase s same = some true) ∧
    (∀ same, (same = true → s = s2) →
      (∃ e, s.equalsIgnoreCase s2 same = some e ∧ s2.equalsIgnoreCase s same = some e) ∧
        (s.equals s2 = some true → s.equalsIgnoreCase s2 same = some true)) ∧
    ∀ same₁₂ same₂₃ same₁₃, (same₁₂ = true → s = s2) → (same₂₃ = true → s2 = s3) →
      (same₁₃ = true → s = s3) → s.equalsIgnoreCase s2 same₁₂ = some true →
        s2.equalsIgnoreCase s3 same₂₃ = some true →
          s.equalsIgnoreCase s3 same₁₃ = some true := by
  have ht := hfree.hasText hs
  have ht2 := hfree2.hasText hs2
  have ht3 := hfree3.hasText hs3
  obtain ⟨r, hr, horders⟩ := ht.compareTo_spec ht2
  obtain ⟨r', hr', horders'⟩ := ht2.compareTo_spec ht
  obtain ⟨r₂₃, hr₂₃, horders₂₃⟩ := ht2.compareTo_spec ht3
  obtain ⟨r₁₃, hr₁₃, horders₁₃⟩ := ht.compareTo_spec ht3
  have hequals : decide (s.contents = s2.contents) = decide (r = 0) :=
    decide_eq_decide.mpr horders.eq.symm
  refine ⟨⟨r, r', r₂₃, r₁₃, hr, hr', hr₂₃, hr₁₃, horders, horders.sign_eq horders', ?_,
    ?_, ?_, ?_, fun cstr hcstr => ?_, ?_, ?_, ?_, ?_⟩, fun same => ?_,
    fun same hsame => ⟨?_, ?_⟩, ?_⟩
  · rw [horders.nonpos_iff, horders'.nonpos_iff]
    exact le_total _ _
  · rw [horders.nonpos_iff, horders₂₃.nonpos_iff, horders₁₃.nonpos_iff]
    exact le_trans
  · rw [ht.equals_eq ht2, hequals]
  · rw [notEquals, ht.equals_eq ht2, hequals, Option.map_some, decide_not]
  · have h0 : 0 ∉ cstr.getD [] := hcstr ▸ ht2.zero
    rw [notEqualsText, ht.equalsText_eq cstr h0, hcstr, hequals, Option.map_some, decide_not]
    exact ⟨rfl, rfl⟩
  · rw [less, hr, Option.map_some]
  · rw [greater, hr, Option.map_some]
  · rw [lessEqual, hr, Option.map_some]
  · rw [greaterEqual, hr, Option.map_some]
  · rw [ht.equalsIgnoreCase_eq ht fun _ => rfl, decide_eq_true rfl]
  · refine ⟨_, ht.equalsIgnoreCase_eq ht2 hsame, ?_⟩
    rw [ht2.equalsIgnoreCase_eq ht fun h => (hsame h).symm]
    exact congrArg some (decide_eq_decide.mpr eq_comm)
  · rw [ht.equals_eq ht2, ht.equalsIgnoreCase_eq ht2 hsame, Option.some_inj, Option.some_inj,
      decide_eq_true_eq, decide_eq_true_eq]
    exact congrArg _
  · intro same₁₂ same₂₃ same₁₃ h₁₂ h₂₃ h₁₃
    rw [ht.equalsIgnoreCase_eq ht2 h₁₂, ht2.equalsIgnoreCase_eq ht3 h₂₃,
      ht.equalsIgnoreCase_eq ht3 h₁₃, Option.some_inj, Option.some_inj, Option.some_inj,
      decide_eq_true_eq, decide_eq_true_eq, decide_eq_true_eq]
    exact Eq.trans

/-- A null string, an empty one and one with a byte that is negative as a `signed char`. -/
theorem comparisons_spec_null :
    ∃ r, init.compareTo ⟨some [0, 7], 1, 0⟩ = some r ∧ r.sign = 0 := by
  have hinit : init.Valid ∧ init.NulFree := by decide
  have hempty : Valid ⟨some [0, 7], 1, 0⟩ ∧ NulFree ⟨some [0, 7], 1, 0⟩ := by decide
  have hbyte : Valid ⟨some [0xE4, 0], 1, 1⟩ ∧ NulFree ⟨some [0xE4, 0], 1, 1⟩ := by decide
  obtain ⟨⟨r, r', _, _, hr, -, -, -, horders, -⟩, -⟩ :=
    comparisons_spec hinit.1 hinit.2 hempty.1 hempty.2 hbyte.1 hbyte.2
  exact ⟨r, hr, by rw [horders.eq.mpr rfl]; rfl⟩

end StringObject
