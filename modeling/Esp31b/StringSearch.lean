import Esp31b.StringEditing
import Mathlib.Order.Bounds.Basic

/-!
# Searching a `String`

`indexOf` hands a part of the buffer to `strchr` or `strstr`. There is no such function that
goes backwards: `lastIndexOf` puts a NUL behind the part it searches and takes it away again, or
calls `strstr` again and again, each time from behind the start of what was found. On strings of
a text they all find what they should (`StringObject.searches_spec`).

The answers are of type `int`, so an index from 2^31 on would come out negative.
-/

namespace Block

/-- `strchr`: the NUL is a character of the text here. -/
def strchr (b : List UInt8) (p : ℕ) (c : UInt8) : Option (Option ℕ) := do
  let s ← text b p
  return (List.firstOccurrence [c] (s ++ [0])).map (p + ·)

/-- `strrchr`. -/
def strrchr (b : List UInt8) (p : ℕ) (c : UInt8) : Option (Option ℕ) := do
  let s ← text b p
  return (List.lastOccurrence [c] (s ++ [0]) (s.length + 1)).map (p + ·)

end Block

namespace StringObject

/-! ## The functions -/

/-- What is returned: an index as an `int`, or -1. -/
def toInt : Option ℕ → ℤ
  | none => -1
  | some i => int32 i

/-- `indexOf(ch, fromIndex)`. -/
def indexOfChar (s : StringObject) (ch : UInt8) (fromIndex : ℕ) : Option ℤ :=
  if fromIndex ≥ s.len then some (-1)
  else do
    let b ← s.buffer
    let temp ← Block.strchr b fromIndex ch
    return toInt temp

/-- `indexOf(s2, fromIndex)`. -/
def indexOf (s s2 : StringObject) (fromIndex : ℕ) : Option ℤ :=
  if fromIndex ≥ s.len then some (-1)
  else do
    let b ← s.buffer
    let find ← s2.text 0
    let found ← Block.strstr b fromIndex find
    return toInt found

/-- `lastIndexOf(ch, fromIndex)`: this object, in which a byte is replaced and put back, and the
index. -/
def lastIndexOfChar (s : StringObject) (ch : UInt8) (fromIndex : ℕ) :
    Option (StringObject × ℤ) :=
  if fromIndex ≥ s.len then some (s, -1)
  else do
    let tempchar ← s.load (fromIndex + 1) 1
    let s ← s.store (fromIndex + 1) [0]
    let b ← s.buffer
    let temp ← Block.strrchr b 0 ch
    let s ← s.store (fromIndex + 1) tempchar
    return (s, toInt temp)

/-- `lastIndexOf(s2, fromIndex)`. -/
def lastIndexFrom (s s2 : StringObject) (fromIndex : ℕ) : Option ℤ :=
  if s2.len = 0 ∨ s.len = 0 ∨ s2.len > s.len then some (-1)
  else do
    let b ← s.buffer
    let find ← s2.text 0
    let found ← lastIndexOf find s2.len b s.len fromIndex
    return toInt found

/-- `lastIndexOf(s2)`. -/
def lastIndex (s s2 : StringObject) : Option ℤ :=
  s.lastIndexFrom s2 ((s.len + 2 ^ 32 - s2.len) % 2 ^ 32)

/-! ## What they should find -/

/-- **The least of some indexes**, or -1 if there are none. -/
def Least (I : Set ℕ) (r : ℤ) : Prop := (∃ i, IsLeast I i ∧ r = int32 i) ∨ I = ∅ ∧ r = -1

/-- **The greatest.** -/
def Greatest (I : Set ℕ) (r : ℤ) : Prop := (∃ i, IsGreatest I i ∧ r = int32 i) ∨ I = ∅ ∧ r = -1

variable {s s2 : StringObject} {T R f : List UInt8} {c : UInt8} {fromIndex p k m : ℕ}

/-- An occurrence of some length is in the text. -/
theorem lt_of_prefix_drop {i : ℕ} (hf : f ≠ []) (h : f <+: T.drop i) : i < T.length := by
  have hpos := List.length_pos_iff.mpr hf
  have hle := h.length_le
  rw [List.length_drop] at hle
  omega

theorem least_of_forall_notMem {I : Set ℕ} (h : ∀ i, i ∉ I) : Least I (-1) :=
  Or.inr ⟨Set.eq_empty_iff_forall_notMem.mpr h, rfl⟩

theorem greatest_of_forall_notMem {I : Set ℕ} (h : ∀ i, i ∉ I) : Greatest I (-1) :=
  Or.inr ⟨Set.eq_empty_iff_forall_notMem.mpr h, rfl⟩

/-- There is none from the end on. -/
theorem least_of_length_le {P : ℕ → Prop} (hP : ∀ i, P i → i < T.length) (hp : T.length ≤ p) :
    Least {i | p ≤ i ∧ P i} (-1) := by
  refine least_of_forall_notMem fun i hi => ?_
  obtain ⟨hpi, hi⟩ := hi
  exact absurd (hP i hi) (Nat.not_lt.mpr (hp.trans hpi))

/-- **The first occurrence** from a position on. -/
theorem least_firstOccurrence (hf : f ≠ []) (p : ℕ) :
    Least {i | p ≤ i ∧ f <+: T.drop i}
      (toInt ((List.firstOccurrence f (T.drop p)).map (p + ·))) := by
  cases hfirst : List.firstOccurrence f (T.drop p) with
  | none =>
    refine least_of_forall_notMem fun i hi => ?_
    obtain ⟨hpi, hoccurs⟩ := hi
    have hlt := lt_of_prefix_drop hf hoccurs
    refine List.firstOccurrence_none hfirst (i - p) (by rw [List.length_drop]; omega) ?_
    rwa [List.drop_drop, Nat.add_sub_cancel' hpi]
  | some q =>
    obtain ⟨hoccurs, hbefore⟩ := List.firstOccurrence_some hfirst
    rw [List.drop_drop] at hoccurs
    refine Or.inl ⟨p + q, ⟨⟨Nat.le_add_right p q, hoccurs⟩, fun i hi => ?_⟩, rfl⟩
    obtain ⟨hpi, hi⟩ := hi
    by_contra hlt
    refine hbefore (i - p) (by omega) ?_
    rwa [List.drop_drop, Nat.add_sub_cancel' hpi]

/-- **The last one** in front of a position. -/
theorem greatest_lastOccurrence (k : ℕ) :
    Greatest {i | i < k ∧ f <+: T.drop i} (toInt (List.lastOccurrence f T k)) := by
  cases hlast : List.lastOccurrence f T k with
  | none =>
    refine greatest_of_forall_notMem fun i hi => ?_
    exact List.lastOccurrence_none hlast i hi.1 hi.2
  | some q =>
    obtain ⟨hq, hoccurs, hmax⟩ := List.lastOccurrence_some hlast
    exact Or.inl ⟨q, ⟨⟨hq, hoccurs⟩, fun i hi => hmax i hi.1 hi.2⟩, rfl⟩

/-- One character occurs where it is. -/
theorem singleton_prefix_drop {i : ℕ} : [c] <+: T.drop i ↔ T[i]? = some c := by
  rw [List.prefix_iff_getElem?]
  simp [List.getElem?_drop]

/-- One that is no NUL is in front of it. -/
theorem getElem?_append_nul (hc : c ≠ 0) {i : ℕ} :
    (T ++ [0])[i]? = some c ↔ T[i]? = some c := by
  rw [List.getElem?_append]
  split
  · rfl
  · rename_i hi
    rw [List.getElem?_eq_none (l := T) (Nat.le_of_not_lt hi)]
    constructor
    · intro h
      have hmem := List.mem_of_getElem? h
      exact absurd (List.mem_singleton.mp hmem) hc
    · exact fun h => nomatch h

/-! ## Forwards -/

/-- The text from a position on. -/
theorem text_drop_block (h0 : 0 ∉ T) (hp : p ≤ T.length) :
    Block.text (T ++ 0 :: R) p = some (T.drop p) := by
  have hdrop := text_drop (Block.text_append_zero h0 R) hp
  rwa [Nat.zero_add] at hdrop

/-- **`indexOf` of a text.** -/
theorem HasText.indexOf_spec (hs : s.HasText T) (hs2 : s2.HasText f) (hf : f ≠ [])
    (fromIndex : ℕ) :
    ∃ r, s.indexOf s2 fromIndex = some r ∧ Least {i | fromIndex ≤ i ∧ f <+: T.drop i} r := by
  unfold indexOf
  by_cases hfrom : fromIndex ≥ s.len
  · rw [if_pos hfrom]
    rw [hs.len] at hfrom
    exact ⟨-1, rfl, least_of_length_le (fun i hi => lt_of_prefix_drop hf hi) hfrom⟩
  · rw [if_neg hfrom]
    rw [hs.len, Nat.not_le] at hfrom
    obtain ⟨R, k, rfl, -⟩ := hs.exists_block_of_lt hfrom
    obtain ⟨R', k', rfl, -⟩ := hs2.exists_block hf
    have hfind : StringObject.text ⟨some (f ++ 0 :: R'), k', f.length⟩ 0 = some f :=
      Block.text_append_zero hs2.zero R'
    have hfound := Block.strstr_eq (f := f) (text_drop_block (R := R) hs.zero hfrom.le)
    dsimp only
    rw [Option.bind_eq_bind, Option.bind_some, hfind, Option.bind_eq_bind,
      Option.bind_some, hfound]
    exact ⟨_, rfl, least_firstOccurrence hf fromIndex⟩

/-- **`indexOf` of a character.** -/
theorem HasText.indexOfChar_spec (hs : s.HasText T) (hc : c ≠ 0) (fromIndex : ℕ) :
    ∃ r, s.indexOfChar c fromIndex = some r ∧
      Least {i | fromIndex ≤ i ∧ T[i]? = some c} r := by
  unfold indexOfChar
  by_cases hfrom : fromIndex ≥ s.len
  · rw [if_pos hfrom]
    rw [hs.len] at hfrom
    exact ⟨-1, rfl, least_of_length_le (fun i hi => (List.getElem?_eq_some_iff.mp hi).1) hfrom⟩
  · rw [if_neg hfrom]
    rw [hs.len, Nat.not_le] at hfrom
    obtain ⟨R, k, rfl, -⟩ := hs.exists_block_of_lt hfrom
    have hchars : {i | fromIndex ≤ i ∧ T[i]? = some c} =
        {i | fromIndex ≤ i ∧ [c] <+: (T ++ [0]).drop i} := by
      ext i
      rw [Set.mem_ofPred_eq, Set.mem_ofPred_eq, singleton_prefix_drop, getElem?_append_nul hc]
    have hleast := least_firstOccurrence (f := [c]) (T := T ++ [0]) (List.cons_ne_nil c [])
      fromIndex
    rw [List.drop_append_of_le_length hfrom.le, ← hchars] at hleast
    dsimp only
    unfold Block.strchr
    rw [Option.bind_eq_bind, Option.bind_some, text_drop_block hs.zero hfrom.le]
    exact ⟨_, rfl, hleast⟩

/-! ## Backwards -/

/-- **`lastIndexOf` of a character**: the NUL that is put in is taken away. -/
theorem HasText.lastIndexOfChar_spec (hs : s.HasText T) (hc : c ≠ 0)
    (hfrom : fromIndex < s.len) :
    ∃ r, s.lastIndexOfChar c fromIndex = some (s, r) ∧
      Greatest {i | i ≤ fromIndex ∧ T[i]? = some c} r := by
  unfold lastIndexOfChar
  rw [if_neg (Nat.not_le.mpr hfrom)]
  rw [hs.len] at hfrom
  obtain ⟨R, k, rfl, -⟩ := hs.exists_block_of_lt hfrom
  obtain ⟨x, W, hload, hput, hback⟩ := exists_cut R k T.length (Nat.succ_le_of_lt hfrom)
  have hlength : (T.take (fromIndex + 1)).length = fromIndex + 1 :=
    List.length_take_of_le (Nat.succ_le_of_lt hfrom)
  have hzero : 0 ∉ T.take (fromIndex + 1) := fun h => hs.zero (List.mem_of_mem_take h)
  have htext := Block.text_append_zero hzero W
  have hchars : {i | i ≤ fromIndex ∧ T[i]? = some c} =
      {i | i < (T.take (fromIndex + 1)).length + 1 ∧
        [c] <+: (T.take (fromIndex + 1) ++ [0]).drop i} := by
    ext i
    rw [Set.mem_ofPred_eq, Set.mem_ofPred_eq, singleton_prefix_drop, getElem?_append_nul hc,
      List.getElem?_take, hlength]
    constructor
    · rintro ⟨hi, hget⟩
      exact ⟨by omega, by rw [if_pos (by omega), hget]⟩
    · rintro ⟨-, hget⟩
      split at hget
      · rename_i hi
        exact ⟨Nat.le_of_lt_succ hi, hget⟩
      · cases hget
  have hgreatest := greatest_lastOccurrence (f := [c]) (T := T.take (fromIndex + 1) ++ [0])
    ((T.take (fromIndex + 1)).length + 1)
  rw [← hchars] at hgreatest
  have hfront : ∀ found : Option ℕ, found.map (0 + ·) = found := fun found => by simp
  unfold Block.strrchr
  rw [hload]
  simp only [Option.bind_eq_bind, Option.bind_some, hput, htext, hback]
  refine ⟨_, rfl, ?_⟩
  rw [hfront]
  exact hgreatest

/-- **`lastIndexOf` of a text**, from a position or, if that is behind the end, from the end. -/
theorem HasText.lastIndexFrom_spec (hs : s.HasText T) (hs2 : s2.HasText f) (hf : f ≠ [])
    (fromIndex : ℕ) :
    ∃ r, s.lastIndexFrom s2 fromIndex = some r ∧
      Greatest {i | i ≤ fromIndex ∧ f <+: T.drop i} r := by
  unfold lastIndexFrom
  by_cases hshort : s2.len = 0 ∨ s.len = 0 ∨ s2.len > s.len
  · rw [if_pos hshort]
    refine ⟨-1, rfl, greatest_of_forall_notMem fun i hi => ?_⟩
    have hpos := List.length_pos_iff.mpr hf
    have hlen := hi.2.length_le
    rw [List.length_drop] at hlen
    rw [hs.len, hs2.len] at hshort
    omega
  · rw [if_neg hshort]
    rw [hs.len, hs2.len] at hshort
    have hpos : 0 < T.length := by omega
    obtain ⟨R, k, rfl, -⟩ := hs.exists_block_of_lt hpos
    obtain ⟨R', k', rfl, -⟩ := hs2.exists_block hf
    have hfind : StringObject.text ⟨some (f ++ 0 :: R'), k', f.length⟩ 0 = some f :=
      Block.text_append_zero hs2.zero R'
    have hnul : (T ++ 0 :: R)[T.length]? = some 0 := Block.getElem?_append T R 0
    -- the position that the search starts at
    obtain ⟨n, hn, hnT, hsame⟩ :
        ∃ n, (if fromIndex ≥ T.length then T.length - 1 else fromIndex) = n ∧ n < T.length ∧
          {i | i ≤ fromIndex ∧ f <+: T.drop i} = {i | i < n + 1 ∧ f <+: T.drop i} := by
      refine ⟨_, rfl, by split <;> omega, ?_⟩
      ext i
      rw [Set.mem_ofPred_eq, Set.mem_ofPred_eq, and_congr_left_iff]
      intro hoccurs
      have hlt := lt_of_prefix_drop hf hoccurs
      split <;> omega
    have hstart : lastIndexOf f f.length (T ++ 0 :: R) T.length fromIndex =
        lastIndexOf f f.length (T ++ 0 :: R) T.length n := by
      unfold lastIndexOf
      rw [hn, if_neg (Nat.not_le.mpr hnT)]
    dsimp only
    rw [Option.bind_eq_bind, Option.bind_some, hfind, Option.bind_eq_bind,
      Option.bind_some, hstart,
      lastIndexOf_eq hf hnul (Block.text_append_zero hs.zero R) le_rfl hnT, hsame]
    exact ⟨_, rfl, greatest_lastOccurrence (n + 1)⟩

/-- **`lastIndexOf` of a text, without a position.** The difference of the lengths wraps if the
text is too long, and then it is not looked for. -/
theorem HasText.lastIndex_spec (hs : s.HasText T) (hs2 : s2.HasText f) (hf : f ≠ [])
    (hlen : T.length < 2 ^ 32) :
    ∃ r, s.lastIndex s2 = some r ∧ Greatest {i | f <+: T.drop i} r := by
  obtain ⟨r, hr, hgreatest⟩ :=
    hs.lastIndexFrom_spec hs2 hf ((s.len + 2 ^ 32 - s2.len) % 2 ^ 32)
  refine ⟨r, hr, ?_⟩
  have hall : {i | i ≤ (s.len + 2 ^ 32 - s2.len) % 2 ^ 32 ∧ f <+: T.drop i} =
      {i | f <+: T.drop i} := by
    ext i
    rw [Set.mem_ofPred_eq, Set.mem_ofPred_eq, and_iff_right_iff_imp]
    intro hoccurs
    have hlt := lt_of_prefix_drop hf hoccurs
    have hle := hoccurs.length_le
    rw [List.length_drop] at hle
    rw [hs.len, hs2.len]
    omega
  rwa [hall] at hgreatest

/-! ## All of them -/

/-- **Each search finds the index it should**, in a valid string without NULs, and none of them
changes it. -/
theorem searches_spec (hs : s.Valid) (hfree : s.NulFree) (hlen : s.len < 2 ^ 32)
    (fromIndex : ℕ) :
    (∀ c : UInt8, c ≠ 0 → ∃ r, s.indexOfChar c fromIndex = some r ∧
      Least {i | fromIndex ≤ i ∧ s.contents[i]? = some c} r) ∧
    (∀ c : UInt8, c ≠ 0 → ∃ r, s.lastIndexOfChar c fromIndex = some (s, r) ∧
      (fromIndex < s.len → Greatest {i | i ≤ fromIndex ∧ s.contents[i]? = some c} r) ∧
        (s.len ≤ fromIndex → r = -1)) ∧
    ∀ s2 : StringObject, s2.Valid → s2.NulFree → s2.len ≠ 0 →
      (∃ r, s.indexOf s2 fromIndex = some r ∧
        Least {i | fromIndex ≤ i ∧ s2.contents <+: s.contents.drop i} r) ∧
      (∃ r, s.lastIndexFrom s2 fromIndex = some r ∧
        Greatest {i | i ≤ fromIndex ∧ s2.contents <+: s.contents.drop i} r) ∧
      ∃ r, s.lastIndex s2 = some r ∧ Greatest {i | s2.contents <+: s.contents.drop i} r := by
  have htext := hfree.hasText hs
  refine ⟨fun c hc => htext.indexOfChar_spec hc fromIndex, fun c hc => ?_,
    fun s2 hs2 hfree2 hne => ?_⟩
  · by_cases hfrom : fromIndex < s.len
    · obtain ⟨r, hr, hgreatest⟩ := htext.lastIndexOfChar_spec hc hfrom
      exact ⟨r, hr, fun _ => hgreatest, fun h => absurd hfrom (Nat.not_lt.mpr h)⟩
    · refine ⟨-1, ?_, fun h => absurd h hfrom, fun _ => rfl⟩
      unfold lastIndexOfChar
      rw [if_pos (Nat.le_of_not_lt hfrom)]
  · have htext2 := hfree2.hasText hs2
    have hf : s2.contents ≠ [] := fun h => hne (by rw [htext2.len, h]; rfl)
    exact ⟨htext.indexOf_spec htext2 hf fromIndex, htext.lastIndexFrom_spec htext2 hf fromIndex,
      htext.lastIndex_spec htext2 hf (by rw [← htext.len]; exact hlen)⟩

/-- Occurrences that overlap, and a position behind the end. -/
theorem searches_spec_overlapping :
    ∃ r, lastIndexFrom ⟨some (ascii "aaa" ++ [0]), 3, 3⟩ ⟨some (ascii "aa" ++ [0, 7]), 3, 2⟩ 9 =
      some r ∧ Greatest {i | i ≤ 9 ∧ ascii "aa" <+: (ascii "aaa").drop i} r := by
  obtain ⟨-, -, hstrings⟩ := searches_spec (s := ⟨some (ascii "aaa" ++ [0]), 3, 3⟩) (by decide)
    (by decide) (by decide) 9
  exact (hstrings ⟨some (ascii "aa" ++ [0, 7]), 3, 2⟩ (by decide) (by decide) (by decide)).2.1

end StringObject
