import Esp31b.Replacement
import Esp31b.StringReplace

/-!
# What `replace` leaves in a `String`

The text should be the one in which every occurrence, found from the left, is replaced
(`StringObject.replaced`). A new text that is no longer than the old one is put in from
the left, and that is what comes of it. A longer one is put in from the right:
what comes of that is `List.replaceBack` of the text, and
`StringObject.substitutes_iff` says when it is the same.
-/

namespace StringObject

variable {T f rep b R : List UInt8} {i k m turns : ℕ}

/-! ## Texts in a block -/

/-- **A block with a text in it**, its NUL, and what was behind it. -/
def withText (b T : List UInt8) : List UInt8 := T ++ 0 :: b.drop (T.length + 1)

theorem length_withText (h : T.length < b.length) : (withText b T).length = b.length := by
  unfold withText
  rw [List.length_append, List.length_cons, List.length_drop]
  omega

theorem drop_withText {n : ℕ} (h : T.length < n) : (withText b T).drop n = b.drop n := by
  obtain ⟨k, rfl⟩ : ∃ k, n = T.length + (1 + k) := ⟨n - T.length - 1, by omega⟩
  unfold withText
  rw [List.drop_length_add_append, Nat.add_comm 1 k, List.drop_succ_cons, List.drop_drop,
    Nat.add_assoc, Nat.add_comm 1 k]

/-- A text that ends at a NUL is in its block. -/
theorem withText_take (h : b[i]? = some 0) : withText b (b.take i) = b := by
  obtain ⟨hi, hzero⟩ := List.getElem?_eq_some_iff.mp h
  have hlen : (b.take i).length = i := by
    rw [List.length_take]
    omega
  unfold withText
  rw [hlen, ← hzero, ← List.drop_eq_getElem_cons hi, List.take_append_drop]

theorem withText_of_text (h : Block.text b 0 = some T) : withText b T = b := by
  have hzero := (Block.getElem?_text h le_rfl).trans (if_pos rfl)
  rw [Nat.zero_add] at hzero
  have htake := withText_take hzero
  rwa [Block.take_of_text h le_rfl, List.take_length] at htake

/-! ## From the right -/

/-- **One occurrence is replaced** if there is room. -/
theorem replaceFound_eq (hi : i + m ≤ T.length) (hm : m ≤ rep.length) (hT : T.length < b.length)
    (hb : b.length ≤ 2 ^ 32) :
    replaceFound m rep (withText b T) T.length i =
      if (T.take i ++ (rep ++ T.drop (i + m))).length < b.length then
        some (withText b (T.take i ++ (rep ++ T.drop (i + m))),
          (T.take i ++ (rep ++ T.drop (i + m))).length)
      else none := by
  have hlength := List.length_replaceAt hi hm
  have hcount : (T.length + 2 ^ 32 - (i + m)) % 2 ^ 32 = (T.drop (i + m)).length := by
    rw [List.length_drop]
    omega
  have htotal := length_withText hT
  have hrest : (T.drop (i + m)).length = T.length - (i + m) := List.length_drop
  have hread : Block.read (withText b T) (i + m) (T.drop (i + m)).length =
      some (T.drop (i + m)) := by
    have hsplit :
        withText b T = T.take (i + m) ++ T.drop (i + m) ++ 0 :: b.drop (T.length + 1) := by
      rw [List.take_append_drop]
      rfl
    have happend := Block.read_append (T.take (i + m)) (0 :: b.drop (T.length + 1))
      (le_refl (T.drop (i + m)).length)
    rwa [← hsplit, List.length_take_of_le hi, List.take_length] at happend
  unfold replaceFound
  dsimp only
  rw [hcount, hread, hlength, Option.bind_eq_bind, Option.bind_some]
  generalize hS : T.drop (i + m) = S at hrest ⊢
  by_cases hroom : T.length + (rep.length - m) < b.length
  · obtain ⟨b₁, hmove⟩ := Option.isSome_iff_exists.mp (Block.write_isSome.mpr
      (by omega : i + m + (rep.length - m) + S.length ≤ (withText b T).length))
    have hlength₁ := Block.length_of_write hmove
    obtain ⟨b₂, hend⟩ := Option.isSome_iff_exists.mp (Block.write_isSome.mpr
      (by rw [List.length_singleton]; omega :
        T.length + (rep.length - m) + ([0] : List UInt8).length ≤ b₁.length))
    have hlength₂ := Block.length_of_write hend
    obtain ⟨b₃, hput⟩ := Option.isSome_iff_exists.mp (Block.write_isSome.mpr
      (by omega : i + rep.length ≤ b₂.length))
    rw [if_pos hroom, hmove, Option.bind_some, hend, Option.bind_some, hput, Option.bind_some]
    -- What was moved lies behind the new text, with its NUL.
    have hfront : b₂.take i = T.take i := by
      rw [Block.take_of_write hend (by omega), Block.take_of_write hmove (by omega), withText,
        List.take_append_of_le_length (by omega)]
    have hmoved := Block.take_add_of_write hmove
    have hnul := Block.take_add_of_write hend
    have hn : i + m + (rep.length - m) + S.length = T.length + (rep.length - m) := by omega
    rw [hn] at hmoved
    rw [hmoved] at hnul
    have hback : b₂.drop (i + rep.length) =
        S ++ 0 :: b.drop (T.length + (rep.length - m) + 1) := by
      have hbehind := Block.drop_of_write hend (n := T.length + (rep.length - m) + 1) le_rfl
      rw [Block.drop_of_write hmove (by omega), drop_withText (by omega)] at hbehind
      have hq : i + rep.length = ((withText b T).take (i + m + (rep.length - m))).length := by
        rw [List.length_take]
        omega
      rw [← List.take_append_drop (T.length + (rep.length - m) + 1) b₂, hbehind,
        ← List.length_singleton (a := (0 : UInt8)), hnul, hq, List.append_assoc,
        List.append_assoc, List.drop_left]
      rfl
    have htext : b₃ = withText b (T.take i ++ (rep ++ S)) := by
      rw [hS] at hlength
      rw [withText, hlength, List.append_assoc, List.append_assoc, ← hback, ← hfront,
        ← Block.drop_of_write hput le_rfl, ← List.append_assoc,
        ← Block.take_add_of_write hput, List.take_append_drop]
    rw [htext]
    rfl
  · -- There is no room for the NUL.
    rw [if_neg hroom]
    cases hmove : Block.write (withText b T) (i + m + (rep.length - m)) S with
    | none => rfl
    | some b₁ =>
      have hlength₁ := Block.length_of_write hmove
      have hend : Block.write b₁ (T.length + (rep.length - m)) [0] = none :=
        if_neg (by rw [List.length_singleton]; omega)
      rw [Option.bind_some, hend]
      rfl

/-- **The last occurrence** is found in front of the first NUL. -/
theorem lastIndexOf_contents (hf : f ≠ []) (hf0 : 0 ∉ f) (hm : f.length ≤ m)
    (hmT : m ≤ T.length)
    (hT : T.length < b.length) (hk : k < T.length) (hfree : 0 ∉ T.take (k + 1)) :
    lastIndexOf f m (withText b T) T.length k = some (List.lastOccurrence f T (k + 1)) := by
  have hpos := List.length_pos_iff.mpr hf
  have hzero : (withText b T)[T.length]? = some 0 := by
    rw [withText, List.getElem?_append_right le_rfl, Nat.sub_self]
    rfl
  obtain ⟨t, ht, hle⟩ := Block.text_of_zero hzero (Nat.zero_le _)
  rw [Nat.zero_add] at hle
  have htake : T.take t.length = t := by
    have htext := Block.take_of_text ht le_rfl
    rwa [withText, List.take_append_of_le_length hle, List.take_length] at htext
  -- The text ends at the length, or at a NUL that is in the contents.
  have hend : t.length = T.length ∨ T[t.length]? = some 0 := by
    rcases Nat.lt_or_eq_of_le hle with hlt | heq
    · have hnul := (Block.getElem?_text ht le_rfl).trans (if_pos rfl)
      rw [Nat.zero_add, withText, List.getElem?_append_left hlt] at hnul
      exact Or.inr hnul
    · exact Or.inl heq
  have hsame : ∀ j < k + 1, f <+: t.drop j ↔ f <+: T.drop j := by
    intro j hj
    constructor
    · intro hstart
      rw [← htake] at hstart
      exact hstart.trans (List.IsPrefix.drop (List.take_prefix _ _) j)
    · intro hstart
      rw [← htake]
      refine (List.prefix_drop_take hf).mpr ⟨hstart, ?_⟩
      rcases hend with heq | hnul
      · have hlen := hstart.length_le
        rw [List.length_drop] at hlen
        omega
      · by_contra hshort
        by_cases hfront : t.length < k + 1
        · refine hfree (List.mem_of_getElem? (i := t.length) ?_)
          rwa [List.getElem?_take_of_lt hfront]
        · have hget := List.prefix_iff_getElem?.mp hstart (t.length - j) (by omega)
          rw [List.getElem?_drop, Nat.add_sub_cancel' (by omega), hnul] at hget
          exact hf0 (Option.some.inj hget ▸ List.getElem_mem _)
  rw [← List.lastOccurrence_congr hsame]
  unfold lastIndexOf
  rw [if_neg (by omega)]
  dsimp only
  rw [if_neg (by omega)]
  refine lastFound_eq hf ht (Nat.zero_le _) (by rw [Nat.zero_min]; rfl) ?_
  rw [length_withText hT]
  omega

/-- What is in front of an occurrence stays free of NULs. -/
theorem zero_not_mem_front (hi : i < k) (hT : i ≤ T.length) (hfree : 0 ∉ T.take k) :
    0 ∉ (T.take i ++ R).take i := by
  have htake : (T.take k).take i = T.take i := by
    rw [List.take_take, Nat.min_eq_left (by omega)]
  rw [List.take_left' (List.length_take_of_le hT), ← htake]
  exact fun hmem => hfree (List.mem_of_mem_take hmem)

/-- **What the loop from the right comes to**, if there is room for it. -/
theorem replaceLonger_eq (hf : f ≠ []) (hf0 : 0 ∉ f) (hm : f.length ≤ m) (hle : m ≤ rep.length)
    (hb : b.length ≤ 2 ^ 32) (k : ℕ) (T : List UInt8) (hT : T.length < b.length)
    (hk : k ≤ T.length) (hmT : m ≤ T.length) (hfree : 0 ∉ T.take k)
    (hclear : ∀ j < k, f <+: T.drop j → j + m ≤ T.length) (hturns : k < turns) :
    replaceLonger f m rep turns (withText b T) T.length k =
      if (List.replaceBack f rep m k T).length < b.length then
        some (withText b (List.replaceBack f rep m k T), (List.replaceBack f rep m k T).length)
      else none := by
  induction k, T using List.last_induction f rep m generalizing turns with
  | hnone k T hnone =>
    obtain ⟨n, rfl⟩ : ∃ n, turns = n + 1 := ⟨turns - 1, by omega⟩
    rw [List.replaceBack_of_none hnone, if_pos hT]
    cases k with
    | zero => rfl
    | succ k =>
      rw [replaceLonger, lastIndexOf_contents hf hf0 hm hmT hT hk hfree, hnone]
      rfl
  | hsome k T i hlast ih =>
    obtain ⟨n, rfl⟩ : ∃ n, turns = n + 1 := ⟨turns - 1, by omega⟩
    obtain ⟨hi, hoccurs, -⟩ := List.lastOccurrence_some hlast
    have him := hclear i hi hoccurs
    obtain ⟨k, rfl⟩ : ∃ k', k = k' + 1 := ⟨k - 1, by omega⟩
    have hlength := List.length_replaceAt him hle
    rw [replaceLonger, lastIndexOf_contents hf hf0 hm hmT hT hk hfree, hlast,
      Option.bind_eq_bind, Option.bind_some, List.replaceBack_of_last hlast]
    dsimp only
    rw [replaceFound_eq him hle hT hb]
    by_cases hroom : (T.take i ++ (rep ++ T.drop (i + m))).length < b.length
    · rw [if_pos hroom, Option.bind_eq_bind, Option.bind_some]
      exact ih hroom (by omega) (by omega) (zero_not_mem_front hi (by omega) hfree)
        (fun j hj _ => by omega) (by omega)
    · have hgrown := List.length_replaceBack (f := f) (r := rep) (k := i) hle
        (s := T.take i ++ (rep ++ T.drop (i + m))) (fun j hj _ => by omega)
      rw [if_neg hroom, if_neg (by omega)]
      rfl

/-! ## From the left -/

/-- The text behind a part of the block. -/
theorem strstr_append {D s : List UInt8} (hs : 0 ∉ s) (f : List UInt8) :
    Block.strstr (D ++ (s ++ 0 :: R)) D.length f =
      some ((List.firstOccurrence f s).map (D.length + ·)) :=
  Block.strstr_eq (Block.text_eq_some_iff.mpr ⟨hs, R, List.drop_left⟩)

/-- **Texts of one length.** -/
theorem replaceSame_eq (hf : f ≠ []) (hlen : rep.length = f.length) (s : List UInt8)
    (D : List UInt8) (hs : 0 ∉ s) (hturns : s.length < turns) :
    replaceSame f rep turns (D ++ (s ++ 0 :: R)) D.length =
      some (D ++ (List.intercalate rep (List.cut f 0 s) ++ 0 :: R)) := by
  have hpos := List.length_pos_iff.mpr hf
  induction s using List.first_induction hf generalizing D turns with
  | hnone s hnone =>
    obtain ⟨n, rfl⟩ : ∃ n, turns = n + 1 := ⟨turns - 1, by omega⟩
    rw [replaceSame, strstr_append hs, hnone, List.cut_of_none hnone,
      List.intercalate_singleton]
    rfl
  | hsome g s hfirst ih =>
    obtain ⟨n, rfl⟩ : ∃ n, turns = n + 1 := ⟨turns - 1, by omega⟩
    obtain ⟨p, gs, hcut⟩ := List.cut_eq_cons hf s
    have hs' : 0 ∉ s := fun hmem =>
      hs (List.mem_append_right _ (List.mem_append_right _ hmem))
    have hwrite : Block.write (D ++ (g ++ (f ++ s) ++ 0 :: R)) (D.length + g.length) rep =
        some (D ++ g ++ rep ++ (s ++ 0 :: R)) := by
      have happend := Block.write_append (D ++ g) (s ++ 0 :: R) (c := f) (d := rep) hlen.le
      rw [hlen, List.drop_length, List.append_nil, List.length_append] at happend
      simpa only [List.append_assoc] using happend
    rw [replaceSame, strstr_append hs, hfirst, Option.map_some, Option.bind_eq_bind,
      Option.bind_some]
    dsimp only
    rw [hwrite, Option.bind_eq_bind, Option.bind_some, ← List.length_append,
      ← List.length_append]
    simp only [List.length_append] at hturns
    rw [ih (D ++ g ++ rep) hs' (by omega), List.cut_append hf hfirst, hcut,
      List.intercalate_cons_cons]
    simp only [List.append_assoc]

/-- **A shorter text**, over what has been read already. -/
theorem exists_replaceShorter_eq (hf : f ≠ []) (hlen : rep.length < f.length)
    (s : List UInt8) (D J : List UInt8) (hs : 0 ∉ s) (hturns : s.length < turns) :
    ∃ R', replaceShorter f f.length rep turns (D ++ (J ++ (s ++ 0 :: R))) D.length
        (D.length + J.length) (D.length + s.length) =
      some (D ++ (List.intercalate rep (List.cut f 0 s) ++ 0 :: R'),
        D.length + (List.intercalate rep (List.cut f 0 s)).length) ∧
      (List.intercalate rep (List.cut f 0 s)).length + R'.length =
        J.length + s.length + R.length := by
  have hpos := List.length_pos_iff.mpr hf
  induction s using List.first_induction hf generalizing D J turns with
  | hnone s hnone =>
    obtain ⟨n, rfl⟩ : ∃ n, turns = n + 1 := ⟨turns - 1, by omega⟩
    have hfound := strstr_append (R := R) (D := D ++ J) hs f
    have htext : Block.text (D ++ J ++ (s ++ 0 :: R)) (D ++ J).length = some s :=
      Block.text_eq_some_iff.mpr ⟨hs, R, List.drop_left⟩
    rw [List.append_assoc, List.length_append] at hfound htext
    have hwrite := Block.write_append D R (c := J ++ (s ++ [0])) (d := s ++ [0])
      (by simp only [List.length_append]; omega)
    have hblock : D ++ (J ++ (s ++ 0 :: R)) = D ++ (J ++ (s ++ [0])) ++ R := by simp
    refine ⟨(J ++ (s ++ [0])).drop (s ++ [0]).length ++ R, ?_, ?_⟩
    · rw [replaceShorter, hfound, hnone, Option.map_none, Option.bind_eq_bind, Option.bind_some]
      dsimp only
      rw [htext, Option.bind_eq_bind, Option.bind_some, hblock, hwrite, List.cut_of_none hnone,
        List.intercalate_singleton]
      simp
    · rw [List.cut_of_none hnone, List.intercalate_singleton]
      simp only [List.length_append, List.length_drop]
      omega
  | hsome g s hfirst ih =>
    obtain ⟨n, rfl⟩ : ∃ n, turns = n + 1 := ⟨turns - 1, by omega⟩
    obtain ⟨p, gs, hcut⟩ := List.cut_eq_cons hf s
    have hs' : 0 ∉ s := fun hmem =>
      hs (List.mem_append_right _ (List.mem_append_right _ hmem))
    have hfound := strstr_append (R := R) (D := D ++ J) hs f
    have hread := Block.read_append (D ++ J) (f ++ (s ++ 0 :: R)) (le_refl g.length)
    rw [List.append_assoc, List.length_append] at hfound
    rw [List.length_append, List.take_length] at hread
    have hkeep := Block.write_append D (s ++ 0 :: R) (c := J ++ (g ++ f)) (d := g)
      (by simp only [List.length_append]; omega)
    generalize hc : (J ++ (g ++ f)).drop g.length = c at hkeep
    have hclen : c.length = J.length + f.length := by
      rw [← hc]
      simp only [List.length_drop, List.length_append]
      omega
    have hput := Block.write_append (D ++ g) (s ++ 0 :: R) (c := c) (d := rep) (by omega)
    have hnext : D ++ g ++ (rep ++ c.drop rep.length) ++ (s ++ 0 :: R) =
        D ++ g ++ rep ++ (c.drop rep.length ++ (s ++ 0 :: R)) := by simp
    rw [List.length_append, hnext] at hput
    have hblock : D ++ (J ++ (g ++ (f ++ s) ++ 0 :: R)) = D ++ J ++ g ++
        (f ++ (s ++ 0 :: R)) := by
      simp
    have hblock' : D ++ (J ++ (g ++ (f ++ s) ++ 0 :: R)) =
        D ++ (J ++ (g ++ f)) ++ (s ++ 0 :: R) := by simp
    have hblock'' : D ++ (g ++ c) ++ (s ++ 0 :: R) = D ++ g ++ c ++ (s ++ 0 :: R) := by simp
    simp only [List.length_append] at hturns
    obtain ⟨R', hrest, hlength⟩ := ih (D ++ g ++ rep) (c.drop rep.length) hs'
      (by omega : s.length < n)
    have hfrom : (D ++ g ++ rep).length + (c.drop rep.length).length =
        D.length + J.length + g.length + f.length := by
      simp only [List.length_append, List.length_drop]
      omega
    have hnew : (D ++ g ++ rep).length + s.length =
        D.length + (g ++ (f ++ s)).length - (f.length - rep.length) := by
      simp only [List.length_append]
      omega
    rw [hfrom, hnew] at hrest
    rw [← hblock] at hread
    rw [← hblock', hblock''] at hkeep
    refine ⟨R', ?_, ?_⟩
    · rw [replaceShorter, hfound, hfirst, Option.map_some, Option.bind_eq_bind,
        Option.bind_some]
      dsimp only
      rw [Nat.add_sub_cancel_left, hread, Option.bind_eq_bind, Option.bind_some, hkeep,
        Option.bind_some, hput, Option.bind_some]
      have hwrite : D.length + g.length + rep.length = (D ++ g ++ rep).length := by
        rw [List.length_append, List.length_append]
      rw [hwrite, hrest, List.cut_append hf hfirst, hcut, List.intercalate_cons_cons]
      simp only [List.length_append, List.append_assoc, Nat.add_assoc]
    · rw [List.cut_append hf hfirst, hcut, List.intercalate_cons_cons, ← hcut]
      simp only [List.length_append, List.length_drop] at hlength ⊢
      omega

/-! ## `replace` -/

variable {s find : StringObject}

theorem contents_eq (hb : s.buffer = some b) (ht : Block.text b 0 = some T) :
    s.contents = T := by
  rw [contents, text_eq hb, ht]
  rfl

/-- A string of some length has a block. -/
theorem Valid.exists_buffer (hs : s.Valid) (hlen : s.len ≠ 0) : ∃ b, s.buffer = some b := by
  cases hb : s.buffer with
  | none => exact absurd ((valid_none hb).mp hs).1 hlen
  | some b => exact ⟨b, rfl⟩

/-- **Contents without a NUL** are all of the string. -/
theorem NulFree.contents_spec (hfree : s.NulFree) (hs : s.Valid) :
    s.contents.length = s.len ∧ 0 ∉ s.contents ∧ s.load 0 s.len = some s.contents := by
  cases hb : s.buffer with
  | none =>
    obtain ⟨hlen, -⟩ := (valid_none hb).mp hs
    have hnil : s.contents = [] := by
      rw [contents, StringObject.text, hb]
      rfl
    rw [hnil, hlen]
    exact ⟨rfl, List.not_mem_nil, rfl⟩
  | some b =>
    obtain ⟨t, ht, -⟩ := hs.text hb
    obtain ⟨hcapacity, hle, -⟩ := (valid_some hb).mp hs
    have hlen : t.length = s.len := hfree t ((text_eq hb 0).trans ht)
    rw [contents_eq hb ht]
    refine ⟨hlen, (Block.text_eq_some_iff.mp ht).1, ?_⟩
    rw [load_eq hb (by omega), List.drop_zero, Block.take_of_text ht hlen.ge, ← hlen,
      List.take_length]

/-- They are in its block. -/
theorem Valid.text_contents (hs : s.Valid) (hb : s.buffer = some b) :
    Block.text b 0 = some s.contents := by
  obtain ⟨t, ht, -⟩ := hs.text hb
  rw [ht, contents_eq hb ht]

/-- **A string that was put together.** -/
theorem valid_text (capacity : ℕ) (hlen : (T ++ 0 :: R).length = capacity + 1) (h0 : 0 ∉ T) :
    Valid ⟨some (T ++ 0 :: R), capacity, T.length⟩ ∧
      contents ⟨some (T ++ 0 :: R), capacity, T.length⟩ = T := by
  have hlen' := hlen
  rw [List.length_append, List.length_cons] at hlen'
  refine ⟨(valid_some rfl).mpr ⟨hlen, by dsimp only; omega, ?_⟩, contents_eq rfl ?_⟩
  · dsimp only
    rw [List.getElem?_append_right le_rfl, Nat.sub_self]
    rfl
  · exact Block.text_append_zero h0 R

/-- **What it should leave**: every occurrence that is found from the left is replaced. -/
def replaced (s find rep : StringObject) : List UInt8 :=
  List.intercalate rep.contents (List.cut find.contents 0 s.contents)

/-- **It leaves that**, as long as it is. -/
def Substitutes (s find rep : StringObject) : Prop :=
  ∃ t, s.replace find rep true = some t ∧ t.Valid ∧ t.contents = s.replaced find rep ∧
    t.len = (s.replaced find rep).length

/-- **Texts of one length**, and shorter ones. -/
theorem substitutes_of_le {rep : StringObject} (hs : s.Valid) (hfind : find.Valid)
    (hrep : rep.Valid) (hsfree : s.NulFree) (hffree : find.NulFree) (hrfree : rep.NulFree)
    (hlen : s.len ≠ 0) (hne : find.len ≠ 0) (hle : rep.len ≤ find.len) :
    s.Substitutes find rep := by
  obtain ⟨b, hb⟩ := hs.exists_buffer hlen
  obtain ⟨fb, hfb⟩ := hfind.exists_buffer hne
  obtain ⟨hslen, hs0, -⟩ := hsfree.contents_spec hs
  obtain ⟨hflen, -, -⟩ := hffree.contents_spec hfind
  obtain ⟨hrlen, hr0, hload⟩ := hrfree.contents_spec hrep
  have htext := hs.text_contents hb
  have hf : find.contents ≠ [] := List.length_pos_iff.mp (by omega)
  obtain ⟨hcapacity, -, -⟩ := (valid_some hb).mp hs
  have hblock := withText_of_text htext
  have htotal : s.contents.length < b.length := by
    obtain ⟨-, hin, -⟩ := (valid_some hb).mp hs
    omega
  have h0 : 0 ∉ s.replaced find rep := fun hmem =>
    (List.mem_intercalate_cut hf s.contents hmem).elim hs0 hr0
  unfold Substitutes replace
  rw [if_neg (by omega), hb, text_eq hfb, hfind.text_contents hfb, hload]
  simp only [Option.bind_eq_bind, Option.bind_some]
  by_cases heq : rep.len = find.len
  · have hsame := replaceSame_eq (R := b.drop (s.contents.length + 1)) hf
      (hrlen.trans (heq.trans hflen.symm)) s.contents [] hs0
      (by omega : s.contents.length < b.length + 1)
    have hjoined : (s.replaced find rep).length = s.contents.length := by
      rw [replaced, List.length_intercalate_cut hf (by omega), hrlen, hflen, heq, Nat.sub_self,
        Nat.zero_mul, Nat.add_zero]
    rw [List.nil_append, List.nil_append, ← withText, hblock, List.length_nil] at hsame
    have hrest : (b.drop (s.contents.length + 1)).length = b.length - (s.contents.length + 1) :=
      List.length_drop
    generalize b.drop (s.contents.length + 1) = R at hsame hrest
    rw [if_pos heq, hsame, Option.bind_some]
    obtain ⟨hvalid, hcontents⟩ := valid_text (R := R) (T := s.replaced find rep) s.capacity
      (by rw [List.length_append, List.length_cons]; omega) h0
    rw [hjoined, hslen] at hvalid hcontents
    exact ⟨_, rfl, hvalid, hcontents, hslen.symm.trans hjoined.symm⟩
  · obtain ⟨R, hshorter, hlength⟩ :=
      exists_replaceShorter_eq (R := b.drop (s.contents.length + 1))
      hf (by omega : rep.contents.length < find.contents.length) s.contents [] [] hs0
      (by omega : s.contents.length < b.length + 1)
    rw [List.nil_append, List.nil_append, List.nil_append, ← withText, hblock, hflen, hslen]
      at hshorter
    simp only [List.length_nil, Nat.zero_add] at hshorter hlength
    rw [if_neg heq, if_pos (by omega), hshorter, Option.bind_some]
    obtain ⟨hvalid, hcontents⟩ := valid_text (R := R) (T := s.replaced find rep) s.capacity
      (by
        rw [List.length_drop] at hlength
        rw [List.length_append, List.length_cons, replaced]
        omega) h0
    exact ⟨_, rfl, hvalid, hcontents, rfl⟩

/-- There is memory for every occurrence, and the text is the same. -/
theorem grow_capacity {size : ℕ} {u : StringObject} (hcap : s.capacity < 2 ^ 32)
    (h : s.grow size true = some (true, u)) : u.capacity < 2 ^ 32 := by
  unfold grow at h
  split at h
  · unfold changeBuffer at h
    dsimp only at h
    rw [if_pos rfl] at h
    obtain ⟨old, -, h⟩ := Option.bind_eq_some_iff.mp h
    obtain ⟨c, -, h⟩ := Option.bind_eq_some_iff.mp h
    cases h
    exact Nat.mod_lt _ (by decide)
  · cases h
    exact hcap

/-- **`replace` is right**, exactly where the new text is no longer, or the occurrences
found from the left and from the right are the same ones. -/
theorem substitutes_iff (s find rep : StringObject) (hs : s.Valid) (hfind : find.Valid)
    (hrep : rep.Valid) (hsfree : s.NulFree) (hffree : find.NulFree) (hrfree : rep.NulFree)
    (hne : find.len ≠ 0) (hcap : s.capacity < 2 ^ 32)
    (hlen : (s.replaced find rep).length < 2 ^ 31) :
    s.Substitutes find rep ↔ rep.len ≤ find.len ∨
      List.Settled find.contents rep.contents (List.cut find.contents 0 s.contents) := by
  obtain ⟨hslen, hs0, -⟩ := hsfree.contents_spec hs
  by_cases hempty : s.len = 0
  · have hnil : s.contents = [] := List.length_eq_zero_iff.mp (by omega)
    have hsame : s.replaced find rep = [] := by
      rw [replaced, hnil]
      rfl
    refine ⟨fun _ => Or.inr ?_, fun _ => ⟨s, if_pos (Or.inl hempty), hs, ?_, ?_⟩⟩
    · rw [hnil]
      trivial
    · rw [hnil, hsame]
    · rw [hsame, hempty]
      rfl
  by_cases hle : rep.len ≤ find.len
  · exact ⟨fun _ => Or.inl hle, fun _ =>
      substitutes_of_le hs hfind hrep hsfree hffree hrfree hempty hne hle⟩
  obtain ⟨b, hb⟩ := hs.exists_buffer hempty
  obtain ⟨fb, hfb⟩ := hfind.exists_buffer hne
  obtain ⟨hflen, hf0, -⟩ := hffree.contents_spec hfind
  obtain ⟨hrlen, hr0, hload⟩ := hrfree.contents_spec hrep
  have hf : find.contents ≠ [] := List.length_pos_iff.mp (by omega)
  have hlonger : find.contents.length < rep.contents.length := by omega
  have htext := hs.text_contents hb
  obtain ⟨-, -, hzero⟩ := (valid_some hb).mp hs
  have hjoined := List.length_intercalate_cut hf hlonger.le s.contents
  rw [replaced, hjoined, hslen, hrlen, hflen] at hlen
  have hneeded := sizeNeeded_eq (rep.len - find.len) s.len hf hzero
    (Nat.zero_le _) htext (by omega) (by omega : b.length < 0 + (b.length + 1))
  rw [hflen] at hneeded
  unfold Substitutes replace
  rw [if_neg (by omega), hb, text_eq hfb, hfind.text_contents hfb, hload]
  simp only [Option.bind_eq_bind, Option.bind_some]
  rw [if_neg (by omega), if_neg (by omega), hneeded, Option.bind_some, or_iff_right hle]
  cases hfirst : List.firstOccurrence find.contents s.contents with
  | none =>
    have hsame : s.replaced find rep = s.contents := by
      rw [replaced, List.cut_of_none hfirst, List.intercalate_singleton]
    rw [List.countFrom_of_none hfirst, Nat.mul_zero, Nat.add_zero, if_pos rfl, hsame]
    refine ⟨fun _ => ?_, fun _ => ⟨s, rfl, hs, rfl, hslen.symm⟩⟩
    rw [List.cut_of_none hfirst]
    trivial
  | some i =>
    have hcount := (List.countFrom_eq_zero_iff hf).not.mpr
      (by rw [hfirst]; exact Option.some_ne_none i)
    have hgrows : (rep.len - find.len) * List.countFrom find.contents 0 s.contents ≠ 0 :=
      Nat.mul_ne_zero (by omega) hcount
    have hfits := (List.firstOccurrence_some hfirst).1.length_le
    rw [List.length_drop] at hfits
    obtain ⟨u, c, hgrow, hu, hulen, hc, hroom, hctext⟩ :=
      exists_grow hs hb htext (Or.inr (by omega : s.len + (rep.len - find.len) *
        List.countFrom find.contents 0 s.contents + 16 < 2 ^ 32))
    obtain ⟨hcapacity, -, -⟩ := (valid_some hc).mp hu
    have hucap := grow_capacity hcap hgrow
    have hclear : ∀ j < s.contents.length, find.contents <+: s.contents.drop j →
        j + find.contents.length ≤ s.contents.length := fun j hj hoccurs => by
      have hinside := hoccurs.length_le
      rw [List.length_drop] at hinside
      omega
    have hfound := replaceLonger_eq hf hf0 le_rfl hlonger.le (by omega : c.length ≤ 2 ^ 32)
      s.contents.length s.contents (by omega) le_rfl (by omega)
      (by rwa [List.take_length]) hclear
      (by omega : s.contents.length < s.len + 1)
    generalize hF : List.replaceBack find.contents rep.contents find.contents.length
      s.contents.length s.contents = F at hfound
    rw [withText_of_text hctext, hslen, hflen] at hfound
    rw [if_neg (by omega), hgrow, Option.bind_some]
    dsimp only
    rw [if_pos rfl, hc, hulen, Option.bind_some, hfound,
      ← List.replaceBack_eq_iff hf hlonger, hF]
    have hF0 : 0 ∉ F := fun hmem =>
      (List.mem_replaceBack _ _ (hF ▸ hmem)).elim hs0 hr0
    constructor
    · rintro ⟨t, ht, hvalid, hcontents, -⟩
      split at ht
      · rename_i hin
        cases ht
        have hlength := length_withText hin
        rw [withText] at hlength
        exact (valid_text u.capacity (hlength.trans hcapacity) hF0).2.symm.trans hcontents
      · cases ht
    · intro heq
      have hin : F.length < c.length := by
        rw [heq, hjoined, hslen, hrlen, hflen]
        omega
      have hlength := length_withText hin
      rw [withText] at hlength
      obtain ⟨hvalid, hcontents⟩ := valid_text u.capacity (hlength.trans hcapacity) hF0
      rw [if_pos hin]
      exact ⟨_, rfl, hvalid, hcontents.trans heq, congrArg List.length heq⟩

/-- One letter becomes two, in two places. -/
theorem substitutes_letter :
    Substitutes ⟨some [97, 120, 98, 120, 0, 0, 0], 6, 4⟩ ⟨some [120, 0], 1, 1⟩
      ⟨some [121, 122, 0], 2, 2⟩ :=
  (substitutes_iff _ _ _ (by decide) (by decide) (by decide) (by decide) (by decide) (by decide)
    (by decide) (by decide) (by decide)).mpr (Or.inr (by decide))

/-- Two of three letters: the last two are found first. -/
theorem not_substitutes_overlap :
    Valid ⟨some [97, 97, 97, 0, 0, 0, 0], 6, 3⟩ ∧
      ¬ Substitutes ⟨some [97, 97, 97, 0, 0, 0, 0], 6, 3⟩ ⟨some [97, 97, 0], 2, 2⟩
        ⟨some [98, 98, 98, 0], 3, 3⟩ := by
  refine ⟨by decide, ?_⟩
  rintro ⟨t, ht, -, hcontents, -⟩
  have hleft : replace ⟨some [97, 97, 97, 0, 0, 0, 0], 6, 3⟩ ⟨some [97, 97, 0], 2, 2⟩
      ⟨some [98, 98, 98, 0], 3, 3⟩ true = some ⟨some [97, 98, 98, 98, 0, 0, 0], 6, 4⟩ := by
    decide
  obtain rfl := Option.some.inj (hleft.symm.trans ht)
  exact absurd hcontents (by decide)

end StringObject
