import Esp31b.StringText
import Esp31b.WString

/-!
# Editing a `String`

`concat`, `substring`, `remove` and `trim` are pointer arithmetic on one block: bytes are moved
in it, a NUL is put behind them, and in `substring` one is put into the middle of a string that
is not to be changed. On strings of a text each of them is an operation on lists
(`StringObject.edits_spec`).

The lemmas about the block are about what it is made of. That of `remove` is about any bytes, as
`strncpy` does more than to move them if there is a NUL among them.
-/

namespace StringObject

variable {s rhs : StringObject} {T D M R : List UInt8} {k m p : ℕ} {c x : UInt8}

/-! ## Blocks that are made of parts -/

/-- A part is read. -/
theorem load_part (hp : D.length = p) :
    load ⟨some (D ++ (M ++ R)), k, m⟩ p M.length = some M := by
  subst hp
  rw [load_eq rfl (by rw [List.length_append, List.length_append]; omega), List.drop_left,
    List.take_left]

/-- A part is written over. -/
theorem store_part (hp : D.length = p) (hM : M.length = T.length) :
    store ⟨some (D ++ (M ++ R)), k, m⟩ p T = some ⟨some (D ++ (T ++ R)), k, m⟩ := by
  subst hp
  have hwrite := Block.write_append D R hM.ge
  rw [← hM, List.drop_length, List.append_nil, List.append_assoc, List.append_assoc] at hwrite
  unfold store
  rw [Option.bind_eq_bind, Option.bind_some, hwrite]
  rfl

/-- **The new length**, and a NUL there. -/
theorem store_end : store ⟨some (T ++ x :: R), k, T.length⟩ T.length [0] =
    some ⟨some (T ++ 0 :: R), k, T.length⟩ :=
  store_part (M := [x]) rfl rfl

/-- The text from a position of the block on. -/
theorem text_part (hp : D.length = p) (hT : 0 ∉ T) :
    text ⟨some (D ++ (T ++ 0 :: R)), k, m⟩ p = some T := by
  subst hp
  exact (text_eq rfl _).trans (Block.text_eq_some_iff.mpr ⟨hT, R, List.drop_left⟩)

/-- **A text and its NUL** are put behind a text, where there is room for them. -/
theorem exists_store_behind (hroom : T.length + M.length ≤ k)
    (hlength : (T ++ 0 :: R).length = k + 1) :
    ∃ R', store ⟨some (T ++ 0 :: R), k, m⟩ T.length (M ++ [0]) =
        some ⟨some ((T ++ M) ++ 0 :: R'), k, m⟩ ∧ ((T ++ M) ++ 0 :: R').length = k + 1 := by
  rw [List.length_append, List.length_cons] at hlength
  have hsplit : T ++ 0 :: R =
      T ++ ((0 :: R).take (M.length + 1) ++ (0 :: R).drop (M.length + 1)) := by
    rw [List.take_append_drop]
  have htake : ((0 :: R).take (M.length + 1)).length = (M ++ [0]).length := by
    rw [List.length_take_of_le (by rw [List.length_cons]; omega), List.length_append,
      List.length_singleton]
  refine ⟨(0 :: R).drop (M.length + 1), ?_, ?_⟩
  · rw [hsplit, store_part rfl htake, List.append_assoc M, ← List.append_assoc T]
    rfl
  · rw [List.length_append, List.length_append, List.length_cons, List.length_drop,
      List.length_cons]
    omega

/-- **A text is cut** at a position by a NUL, and the byte that was there is put back. -/
theorem exists_cut (R : List UInt8) (k m : ℕ) {e : ℕ} (he : e ≤ T.length) :
    ∃ x W, load ⟨some (T ++ 0 :: R), k, m⟩ e 1 = some [x] ∧
      store ⟨some (T ++ 0 :: R), k, m⟩ e [0] = some ⟨some (T.take e ++ 0 :: W), k, m⟩ ∧
      store ⟨some (T.take e ++ 0 :: W), k, m⟩ e [x] = some ⟨some (T ++ 0 :: R), k, m⟩ := by
  obtain ⟨x, W, hxW⟩ : ∃ x W, T.drop e ++ 0 :: R = x :: W :=
    List.exists_cons_of_ne_nil (by simp)
  have hblock : T ++ 0 :: R = T.take e ++ ([x] ++ W) := by
    rw [List.singleton_append, ← hxW, ← List.append_assoc, List.take_append_drop]
  have hlength : (T.take e).length = e := List.length_take_of_le he
  rw [hblock]
  exact ⟨x, W, load_part (M := [x]) hlength, store_part hlength rfl,
    store_part (M := [0]) hlength rfl⟩

/-! ## `concat` -/

/-- **A text is appended.** -/
theorem HasText.exists_concatFrom (hs : s.HasText T) (hM : 0 ∉ M)
    (hsize : T.length + M.length + 16 < 2 ^ 32) :
    ∃ t, s.concatFrom (some M) M.length true = some (true, t) ∧ t.HasText (T ++ M) := by
  unfold concatFrom
  dsimp only
  by_cases hempty : M.length = 0
  · rw [if_pos hempty, List.length_eq_zero_iff.mp hempty, List.append_nil]
    exact ⟨s, rfl, hs⟩
  · obtain ⟨R, k, hreserve, hroom, hlength⟩ := hs.exists_reserve hsize
    obtain ⟨R', hstore, hlength'⟩ := exists_store_behind (m := T.length) hroom hlength
    have hnewlen : (s.len + M.length) % 2 ^ 32 = T.length + M.length := by
      rw [hs.len]
      exact Nat.mod_eq_of_lt (by omega)
    rw [if_neg hempty, hnewlen, hreserve, Option.bind_eq_bind, Option.bind_some]
    dsimp only
    rw [if_pos rfl, hstore, ← List.length_append]
    exact ⟨_, rfl, hasText_block hlength' (by simp [hs.zero, hM])⟩

/-- **`concat` of another object.** -/
theorem HasText.exists_concat (hs : s.HasText T) (hrhs : rhs.HasText M)
    (hsize : T.length + M.length + 16 < 2 ^ 32) :
    ∃ r t, s.concat rhs true = some (r, t) ∧ t.HasText (T ++ M) := by
  unfold concat
  rcases hrhs.cases with ⟨rfl, rfl⟩ | ⟨R, k, rfl, -⟩
  · exact ⟨false, s, rfl, by rwa [List.append_nil]⟩
  · obtain ⟨t, hconcat, ht⟩ := hs.exists_concatFrom hrhs.zero hsize
    have hcptr : cptr ⟨some (M ++ 0 :: R), k, M.length⟩ = some (some M) := by
      show (Block.text (M ++ 0 :: R) 0).map some = some (some M)
      rw [Block.text_append_zero hrhs.zero]
      rfl
    rw [hcptr, Option.bind_eq_bind, Option.bind_some]
    exact ⟨true, t, hconcat, ht⟩

/-- **A character**, if it is no NUL. -/
theorem HasText.exists_concatChar (hs : s.HasText T) (hc : c ≠ 0)
    (hsize : T.length + 17 < 2 ^ 32) :
    ∃ t, s.concatChar c true = some (true, t) ∧ t.HasText (T ++ [c]) := by
  have hzero : 0 ∉ [c] := fun h => hc (List.mem_singleton.mp h).symm
  rw [concatChar, cstr_of_not_mem hzero]
  exact hs.exists_concatFrom hzero (by rw [List.length_singleton]; omega)

/-! ## `substring` -/

/-- **`copy`** to a string without a text. -/
theorem HasText.exists_copy (hs : s.HasText []) (hM : 0 ∉ M) (hsize : M.length + 16 < 2 ^ 32) :
    ∃ t, s.copy M M.length true = some t ∧ t.HasText M := by
  obtain ⟨R, k, hreserve, hroom, hlength⟩ := hs.exists_reserve hsize
  obtain ⟨R', hstore, hlength'⟩ :=
    exists_store_behind (T := []) (M := M) (m := M.length)
      (by rwa [List.length_nil, Nat.zero_add])
      hlength
  unfold copy
  rw [hreserve, Option.bind_eq_bind, Option.bind_some]
  dsimp only
  rw [if_pos rfl]
  exact ⟨_, hstore, hasText_block hlength' hM⟩

/-- The part between two positions, of which the first one is not behind the other. -/
theorem HasText.exists_part (hs : s.HasText T) (hlen : T.length + 16 < 2 ^ 32) {left right : ℕ}
    (hle : left ≤ right) :
    ∃ t, s.substring left right true = some (s, t) ∧
      t.HasText ((T.take right).drop left) := by
  obtain ⟨out, hout, hempty⟩ := hasText_init.exists_copy List.not_mem_nil (by decide)
  have hnew : ofText (some []) true = some out := hout
  unfold substring
  rw [if_neg (Nat.not_lt.mpr hle)]
  dsimp only
  rw [hnew, Option.bind_eq_bind, Option.bind_some]
  by_cases hleft : left ≥ s.len
  · have hnil : (T.take right).drop left = [] := by
      rw [hs.len] at hleft
      exact List.drop_of_length_le ((List.length_take_le' right T).trans hleft)
    rw [if_pos hleft, hnil]
    exact ⟨out, rfl, hempty⟩
  · rw [hs.len] at hleft
    obtain ⟨R, k, rfl, -⟩ := hs.exists_block_of_lt (Nat.lt_of_not_le hleft)
    -- the end of the part, and what it is the end of
    obtain ⟨e, he, hlefte, hele, hfront⟩ : ∃ e,
        (if right > T.length then T.length else right) = e ∧
        left ≤ e ∧ e ≤ T.length ∧ T.take right = T.take e := by
      refine ⟨_, rfl, ?_, ?_, ?_⟩
      · split <;> omega
      · split <;> omega
      · split
        · rename_i hbehind
          rw [List.take_of_length_le hbehind.le, List.take_length]
        · rfl
    have hlength : (T.take e).length = e := List.length_take_of_le hele
    obtain ⟨x, W, hload, hput, hback⟩ := exists_cut R k T.length hele
    have hpart : ((T.take e).take left).length = left :=
      List.length_take_of_le (by omega)
    have hzero : 0 ∉ (T.take e).drop left := fun h =>
      hs.zero (List.mem_of_mem_take (List.mem_of_mem_drop h))
    have htext : text ⟨some (T.take e ++ 0 :: W), k, T.length⟩ left =
        some ((T.take e).drop left) := by
      have hsplit : T.take e ++ 0 :: W =
          (T.take e).take left ++ ((T.take e).drop left ++ 0 :: W) := by
        rw [← List.append_assoc ((T.take e).take left), List.take_append_drop]
      rw [hsplit]
      exact text_part hpart hzero
    obtain ⟨t, hcopy, ht⟩ := hempty.exists_copy hzero
      (by rw [List.length_drop, hlength]; omega)
    have hassign : out.assignText (some ((T.take e).drop left)) true = some t := hcopy
    rw [if_neg hleft, he, hfront, hload]
    simp only [Option.bind_eq_bind, Option.bind_some, hput, htext, hassign, hback]
    exact ⟨t, rfl, ht⟩

/-- **`substring`** takes what is between the two positions, and leaves the string as it was. -/
theorem HasText.exists_substring (hs : s.HasText T) (hlen : T.length + 16 < 2 ^ 32)
    (left right : ℕ) :
    ∃ t, s.substring left right true = some (s, t) ∧
      t.HasText ((T.take (max left right)).drop (min left right)) := by
  by_cases hle : left ≤ right
  · rw [max_eq_right hle, min_eq_left hle]
    exact hs.exists_part hlen hle
  · have hlt : right < left := Nat.lt_of_not_le hle
    have hswap : s.substring left right true = s.substring right left true := by
      unfold substring
      rw [if_pos hlt, if_neg (Nat.not_lt.mpr hlt.le)]
    rw [hswap, max_eq_left hlt.le, min_eq_right hlt.le]
    exact hs.exists_part hlen hlt.le

/-! ## `remove` -/

/-- **Some bytes are removed**, whatever there is in the block: those behind them are moved. -/
theorem remove_part {count : ℕ} {P : List UInt8} (hM : M ≠ [])
    (hcount : (if count > M.length + P.length then M.length + P.length else count) = M.length) :
    remove ⟨some (D ++ (M ++ P ++ R)), k, D.length + (M.length + P.length)⟩ D.length count =
      some ⟨some (D ++ WString.cleared P ++ 0 :: ((M ++ P).drop (P.length + 1) ++ R)), k,
        D.length + P.length⟩ := by
  have hpos : 0 < M.length := List.length_pos_iff.mpr hM
  have hnone : count ≠ 0 := by
    rintro rfl
    rw [if_neg (Nat.not_lt_zero _)] at hcount
    omega
  -- the bytes that are written over, and the one that becomes the NUL
  obtain ⟨x, hx⟩ : ∃ x, (M ++ P).drop P.length = x :: (M ++ P).drop (P.length + 1) :=
    ⟨_, List.drop_eq_getElem_cons (by rw [List.length_append]; omega)⟩
  have hover : M ++ P ++ R =
      (M ++ P).take P.length ++ (x :: ((M ++ P).drop (P.length + 1) ++ R)) := by
    rw [← List.cons_append, ← hx, ← List.append_assoc, List.take_append_drop]
  have htake : ((M ++ P).take P.length).length = (WString.cleared P).length := by
    rw [WString.length_cleared]
    exact List.length_take_of_le (by rw [List.length_append]; omega)
  have hlen : (D ++ WString.cleared P).length = D.length + P.length := by
    rw [List.length_append, WString.length_cleared]
  have hload : load ⟨some (D ++ (M ++ P ++ R)), k, D.length + (M.length + P.length)⟩
      (D.length + M.length) P.length = some P := by
    rw [List.append_assoc M, ← List.append_assoc D]
    exact load_part List.length_append
  have hmove : store ⟨some (D ++ (M ++ P ++ R)), k, D.length + (M.length + P.length)⟩ D.length
      (WString.cleared P) =
        some ⟨some (D ++ WString.cleared P ++ x :: ((M ++ P).drop (P.length + 1) ++ R)), k,
        D.length + (M.length + P.length)⟩ := by
    rw [hover, store_part rfl htake, List.append_assoc]
  have hend := store_end (T := D ++ WString.cleared P) (x := x) (k := k)
    (R := (M ++ P).drop (P.length + 1) ++ R)
  rw [hlen] at hend
  unfold remove
  rw [if_neg (show ¬ D.length ≥ D.length + (M.length + P.length) by omega), if_neg hnone]
  dsimp only
  rw [Nat.add_sub_cancel_left, hcount,
    show D.length + (M.length + P.length) - M.length = D.length + P.length by omega,
    Nat.add_sub_cancel_left, hload, Option.bind_eq_bind, Option.bind_some]
  show (store _ D.length (WString.cleared P)).bind _ = _
  rw [hmove, Option.bind_some]
  exact hend

/-- **`remove`** takes the bytes from a position on out of a text, as many as there are. -/
theorem HasText.exists_remove (hs : s.HasText T) (index count : ℕ) :
    ∃ t, s.remove index count = some t ∧ t.HasText (T.take index ++ T.drop (index + count)) ∧
      (T.length ≤ index → t = s) := by
  by_cases hindex : T.length ≤ index
  · refine ⟨s, ?_, ?_, fun _ => rfl⟩
    · unfold remove
      rw [if_pos (show index ≥ s.len from hs.len ▸ hindex)]
    · rwa [List.take_of_length_le hindex, List.drop_of_length_le (by omega), List.append_nil]
  by_cases hcount : count = 0
  · refine ⟨s, ?_, ?_, fun h => absurd h hindex⟩
    · unfold remove
      rw [if_neg (show ¬ index ≥ s.len from hs.len ▸ hindex), if_pos hcount]
    · rwa [hcount, Nat.add_zero, List.take_append_drop]
  obtain ⟨R, k, rfl, hlength⟩ := hs.exists_block_of_lt (Nat.lt_of_not_le hindex)
  -- what is in front, what is removed, and what is moved
  have hmiddle : ((T.drop index).take count).length = min count (T.length - index) := by
    rw [List.length_take, List.length_drop]
  have hrest : (T.drop (index + count)).length = T.length - (index + count) := List.length_drop
  have hfront : (T.take index).length = index := List.length_take_of_le (by omega)
  have hsplit : T = T.take index ++ ((T.drop index).take count ++ T.drop (index + count)) := by
    rw [← List.drop_drop, List.take_append_drop, List.take_append_drop]
  have hzero : 0 ∉ T.drop (index + count) := fun h => hs.zero (List.mem_of_mem_drop h)
  have hremoved :
      (if count > ((T.drop index).take count).length + (T.drop (index + count)).length
      then ((T.drop index).take count).length + (T.drop (index + count)).length else count) =
        ((T.drop index).take count).length := by
    split <;> omega
  have hpart := remove_part (D := T.take index) (R := 0 :: R) (k := k)
    (List.length_pos_iff.mp (by omega)) hremoved
  rw [WString.cleared_of_plain hzero] at hpart
  have hlen : (T.take index).length +
      (((T.drop index).take count).length + (T.drop (index + count)).length) = T.length := by
    omega
  rw [hlen, ← List.append_assoc (T.take index), ← hsplit, ← List.length_append, hfront] at hpart
  refine ⟨_, hpart, hasText_block ?_ ?_, fun h => absurd h hindex⟩
  · rw [List.length_append, List.length_cons] at hlength
    simp only [List.length_append, List.length_cons, List.length_drop, hfront, hmiddle]
    omega
  · rw [List.mem_append, not_or]
    exact ⟨fun h => hs.zero (List.mem_of_mem_take h), hzero⟩

/-! ## `trim` -/

/-- The loop from the start passes the blanks in front. -/
theorem trimBegin_block (T R : List UInt8) :
    trimBegin (T ++ 0 :: R) = some (T.takeWhile isspace).length := by
  have hwhile : (T ++ 0 :: R).takeWhile isspace = T.takeWhile isspace := by
    rw [List.takeWhile_append, List.takeWhile_cons_of_neg (by decide), List.append_nil]
    split
    · rename_i hall
      exact ((List.takeWhile_prefix isspace).eq_of_length hall).symm
    · rfl
  have hle := (List.takeWhile_prefix (l := T) isspace).length_le
  unfold trimBegin
  dsimp only
  rw [hwhile, if_pos (by rw [List.length_append, List.length_cons]; omega)]

/-- **The loop from the end** passes the blanks at the end of a part, down to its start: the
part begins with no blank, or it is empty and there is a byte in front of it. -/
theorem trimEnd_part (D M R : List UInt8) (hpos : 0 < D.length + M.length)
    (hhead : ∀ c ∈ M.head?, isspace c = false) :
    trimEnd (D ++ (M ++ R)) D.length (D.length + M.length) =
      some (D.length + (M.rdropWhile isspace).length) := by
  induction M using List.reverseRecOn generalizing R with
  | nil =>
    obtain ⟨n, hn⟩ : ∃ n, D.length = n + 1 :=
      ⟨D.length - 1, by rw [List.length_nil] at hpos; omega⟩
    rw [List.rdropWhile_nil, List.length_nil, Nat.add_zero, hn, trimEnd,
      List.getElem?_eq_getElem (by rw [List.length_append]; omega), Option.bind_eq_bind,
      Option.bind_some, if_neg (by omega)]
    rfl
  | append_singleton M c ih =>
    have hget : (D ++ (M ++ [c] ++ R))[D.length + M.length]? = some c := by
      rw [List.append_assoc, ← List.append_assoc, ← List.length_append]
      exact Block.getElem?_append (D ++ M) R c
    rw [List.length_append, List.length_singleton, ← Nat.add_assoc, trimEnd, hget,
      Option.bind_eq_bind, Option.bind_some]
    by_cases hc : isspace c = true
    · have hM : M ≠ [] := by
        rintro rfl
        rw [hhead c rfl] at hc
        exact Bool.false_ne_true hc
      have hpos' := List.length_pos_iff.mpr hM
      rw [if_pos ⟨hc, Nat.le_add_right _ _⟩, List.rdropWhile_concat_pos _ _ _ hc,
        List.append_assoc]
      refine ih ([c] ++ R) (by omega) fun d hd => hhead d ?_
      rwa [List.head?_append_of_ne_nil _ hM]
    · rw [if_neg fun h => hc h.1, List.rdropWhile_concat_neg _ _ _ hc, List.length_append,
        List.length_singleton]
      rfl

/-- **What is left is moved to the start**, and something is behind it. -/
theorem exists_moveToStart (D M R : List UInt8) (m : ℕ) (hR : R ≠ []) :
    ∃ x R', moveToStart ⟨some (D ++ (M ++ R)), k, m⟩ D.length M.length =
      some ⟨some (M ++ x :: R'), k, m⟩ ∧ (M ++ x :: R').length = (D ++ (M ++ R)).length := by
  unfold moveToStart
  split
  · have hload : load ⟨some (D ++ (M ++ R)), k, m⟩ D.length M.length = some M := load_part rfl
    have hpos : 0 < R.length := List.length_pos_iff.mpr hR
    obtain ⟨x, R', hx⟩ : ∃ x R', (D ++ (M ++ R)).drop M.length = x :: R' :=
      List.exists_cons_of_ne_nil (List.ne_nil_of_length_pos (by
        simp only [List.length_drop, List.length_append]
        omega))
    have htake : ((D ++ (M ++ R)).take M.length).length = M.length :=
      List.length_take_of_le (by simp only [List.length_append]; omega)
    have hstore := store_part (D := []) (M := (D ++ (M ++ R)).take M.length) (T := M)
      (R := x :: R') (k := k) (m := m) rfl htake
    rw [← hx, List.nil_append, List.take_append_drop, List.nil_append, hx] at hstore
    refine ⟨x, R', ?_, ?_⟩
    · rw [hload, Option.bind_eq_bind, Option.bind_some]
      exact hstore
    · rw [← hx, List.length_append, List.length_drop, List.length_append, List.length_append]
      omega
  · rename_i hzero
    obtain rfl : D = [] := List.length_eq_zero_iff.mp (by omega)
    obtain ⟨x, R', rfl⟩ := List.exists_cons_of_ne_nil hR
    exact ⟨x, R', rfl, rfl⟩

/-- **`trim`** takes the blanks at both ends away. -/
theorem HasText.exists_trim (hs : s.HasText T) :
    ∃ t, s.trim = some t ∧ t.HasText (WString.trim T) := by
  by_cases hT : T = []
  · refine ⟨s, ?_, by rw [hT] at hs ⊢; exact hs⟩
    unfold trim
    have hlen : s.len = 0 := by rw [hs.len, hT]; rfl
    cases s.buffer with
    | none => rfl
    | some b => exact if_pos hlen
  obtain ⟨R, k, rfl, hlength⟩ := hs.exists_block hT
  have hpos := List.length_pos_iff.mpr hT
  -- the blanks in front, and the rest with those at its end
  obtain ⟨B, M, hB, hM⟩ : ∃ B M, T.takeWhile isspace = B ∧ T.dropWhile isspace = M :=
    ⟨_, _, rfl, rfl⟩
  have hfront : T = B ++ M := by rw [← hB, ← hM, List.takeWhile_append_dropWhile]
  have hhead : ∀ c ∈ M.head?, isspace c = false := by
    intro c hc
    rw [← hM] at hc
    have hnot := List.head?_dropWhile_not isspace T
    rw [Option.mem_def.mp hc] at hnot
    exact hnot
  have htrim : WString.trim T = M.rdropWhile isspace := by rw [WString.trim, hM]
  have hback : M = M.rdropWhile isspace ++ M.rtakeWhile isspace :=
    (List.rdropWhile_append_rtakeWhile ..).symm
  have hlen : T.length = B.length + M.length := by rw [hfront, List.length_append]
  have hbegin := trimBegin_block T R
  have hend := trimEnd_part B M (0 :: R) (by omega) hhead
  rw [hB] at hbegin
  rw [← List.append_assoc, ← hfront, ← hlen] at hend
  obtain ⟨x, R', hmove, hsame⟩ := exists_moveToStart (k := k) B (M.rdropWhile isspace)
    (M.rtakeWhile isspace ++ 0 :: R) T.length (by simp)
  rw [← List.append_assoc (M.rdropWhile isspace), ← hback, ← List.append_assoc B,
    ← hfront] at hmove hsame
  unfold trim
  dsimp only
  rw [if_neg hpos.ne', hbegin, Option.bind_eq_bind, Option.bind_some, hend, Option.bind_some,
    Nat.add_sub_cancel_left, hmove, Option.bind_eq_bind, Option.bind_some, htrim]
  refine ⟨_, store_end, hasText_block ?_ ?_⟩
  · rw [← hlength, ← hsame, List.length_append, List.length_append, List.length_cons,
      List.length_cons]
  · intro h
    have hmem : 0 ∈ M := (List.rdropWhile_prefix isspace M).subset h
    exact hs.zero (hfront ▸ List.mem_append_right B hmem)

/-! ## All of them -/

/-- **Each editing operation is one on lists**, on valid strings without NULs: a text or a
character is appended, a part is copied and the string stays as it was, bytes are removed, or
nothing is where they begin behind the end, and blanks are taken off both ends. The length that
is left is that of the text. -/
theorem edits_spec (hs : s.Valid) (hfree : s.NulFree) (hlen : s.len < 2 ^ 31) :
    (∀ rhs : StringObject, rhs.Valid → rhs.NulFree → s.len + rhs.len + 16 < 2 ^ 32 →
      ∃ r t, s.concat rhs true = some (r, t) ∧ t.HasText (s.contents ++ rhs.contents)) ∧
    (∀ cstr : List UInt8, 0 ∉ cstr → s.len + cstr.length + 16 < 2 ^ 32 →
      ∃ t, s.concatText (some cstr) true = some (true, t) ∧ t.HasText (s.contents ++ cstr)) ∧
    (∀ c : UInt8, c ≠ 0 →
      ∃ t, s.concatChar c true = some (true, t) ∧ t.HasText (s.contents ++ [c])) ∧
    (∀ left right, ∃ t, s.substring left right true = some (s, t) ∧
      t.HasText ((s.contents.take (max left right)).drop (min left right))) ∧
    (∀ index count, ∃ t, s.remove index count = some t ∧
      t.HasText (s.contents.take index ++ s.contents.drop (index + count)) ∧
        (s.len ≤ index → t = s)) ∧
    ∃ t, s.trim = some t ∧
      t.HasText ((s.contents.dropWhile isspace).rdropWhile isspace) := by
  have htext := hfree.hasText hs
  have hlen' := htext.len
  refine ⟨fun rhs hrhs hrfree hsize => ?_, fun cstr h0 hsize => ?_, fun c hc => ?_,
    fun left right => ?_, fun index count => ?_, htext.exists_trim⟩
  · have hrtext := hrfree.hasText hrhs
    exact htext.exists_concat hrtext (by rw [← hlen', ← hrtext.len]; exact hsize)
  · exact htext.exists_concatFrom h0 (by rw [← hlen']; exact hsize)
  · exact htext.exists_concatChar hc (by omega)
  · exact htext.exists_substring (by omega) left right
  · rw [hlen']
    exact htext.exists_remove index count

/-- A text with blanks, in a block with room for one more byte. -/
theorem edits_spec_blanks : ∃ t, remove ⟨some (ascii " ab " ++ [0, 7]), 5, 4⟩ 1 9 = some t ∧
    t.HasText (ascii " ") := by
  obtain ⟨-, -, -, -, hremove, -⟩ :=
    edits_spec (s := ⟨some (ascii " ab " ++ [0, 7]), 5, 4⟩) (by decide) (by decide) (by decide)
  obtain ⟨t, ht, htext, -⟩ := hremove 1 9
  exact ⟨t, ht, htext⟩

end StringObject
