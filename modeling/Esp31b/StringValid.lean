import Esp31b.StringObject

/-!
# What keeps a `String` valid

Nearly every operation puts a text somewhere into the buffer and sets a length
of its own. That is the length of the text if both come from the same place; a
text that is taken from another string ends at its first NUL, and the length
does not. Then the byte at the new length is what was there before.

Each operation has one lemma: it has a result, which is valid, under the
condition on the state before it, if it needs one.
-/

namespace StringObject

variable {s rhs t : StringObject} {b d : List UInt8} {p n length size : ℕ}

/-- The byte at an offset from the buffer. -/
def byte (s : StringObject) (i : ℕ) : Option UInt8 := s.buffer.bind fun b => b[i]?

/-- A new block is allocated for this length. -/
def Allocates (s : StringObject) (size : ℕ) : Prop :=
  ¬ (s.buffer.isSome = true ∧ s.capacity ≥ size)

instance (s : StringObject) (size : ℕ) : Decidable (s.Allocates size) :=
  inferInstanceAs (Decidable (¬ _))

/-- **Bytes that are put into the buffer.** -/
theorem exists_store (hb : s.buffer = some b) (hfits : p + d.length ≤ b.length) :
    ∃ b', s.store p d = some { s with buffer := some b' } ∧ b'.length = b.length ∧
      ∀ i, b'[i]? = if p ≤ i ∧ i < p + d.length then d[i - p]? else b[i]? := by
  have hwrite := Block.write_eq hfits
  refine ⟨_, ?_, Block.length_of_write hwrite, Block.getElem?_write hwrite⟩
  unfold store
  rw [hb, Option.bind_eq_bind, Option.bind_some, hwrite]
  rfl

/-- The length does not matter for it. -/
theorem store_with_len (s : StringObject) (n p : ℕ) (d : List UInt8) :
    store { s with len := n } p d = (s.store p d).map fun t => { t with len := n } := by
  unfold store
  cases hb : s.buffer with
  | none => rfl
  | some b =>
    rw [Option.bind_eq_bind, Option.bind_some, Option.bind_some]
    cases Block.write b p d <;> rfl

/-- Bytes that are there already. -/
theorem store_self (hb : s.buffer = some b) (hfits : p + d.length ≤ b.length)
    (hsame : ∀ i < d.length, b[p + i]? = d[i]?) : s.store p d = some s := by
  obtain ⟨b', hstore, -, hget⟩ := exists_store hb hfits
  have heq : b' = b := List.ext_getElem? fun i => by
    rw [hget]
    split
    · rename_i hin
      rw [← hsame (i - p) (by omega), Nat.add_sub_cancel' hin.1]
    · rfl
  rw [hstore, heq, ← hb]

/-- **They are valid contents** if a NUL is at the length, put there or left
there. -/
theorem exists_store_valid (hs : s.Valid) (hb : s.buffer = some b)
    (hfits : p + d.length ≤ b.length)
    (hlen : n ≤ s.capacity)
    (hzero : (if p ≤ n ∧ n < p + d.length then d[n - p]? else b[n]?) = some 0) :
    ∃ b', s.store p d = some { s with buffer := some b' } ∧
      Valid { s with buffer := some b', len := n } := by
  obtain ⟨b', hstore, hlength, hget⟩ := exists_store hb hfits
  obtain ⟨hcapacity, -, -⟩ := (valid_some hb).mp hs
  exact ⟨b', hstore, (valid_some rfl).mpr ⟨hlength.trans hcapacity, hlen, (hget n).trans hzero⟩⟩

/-- **A text with its NUL**, in front of the new length or up to it. -/
theorem exists_store_text (hs : s.Valid) (hb : s.buffer = some b) (hlen : p + n ≤ s.capacity)
    (hd : d.length ≤ n)
    (hzero : d.length = n ∨ b[p + n]? = some 0) :
    ∃ b', s.store p (d ++ [0]) = some { s with buffer := some b' } ∧
      Valid { s with buffer := some b', len := p + n } := by
  obtain ⟨hcapacity, -, -⟩ := (valid_some hb).mp hs
  have hlength : (d ++ [0]).length = d.length + 1 := List.length_append
  refine exists_store_valid hs hb (by omega) hlen ?_
  rw [hlength, Nat.add_sub_cancel_left]
  split
  · rename_i hin
    have hend : n = d.length := by omega
    rw [hend, List.getElem?_append_right le_rfl, Nat.sub_self]
    rfl
  · rename_i hout
    exact hzero.resolve_left fun heq => hout ⟨by omega, by omega⟩

/-! ## `reserve` -/

/-- **What is reserved**: room for so many bytes, and a string with the same
contents. -/
structure Reserved (s : StringObject) (size : ℕ) (t : StringObject) : Prop where
  valid : t.Valid
  len : t.len = s.len
  isSome : t.buffer.isSome = true
  room : size ≤ t.capacity
  bytes : ∀ i < s.len, t.byte i = s.byte i
  kept : ¬ s.Allocates size → t = s
  cleared : s.Allocates size → ∀ i, s.len ≤ i → i ≤ t.capacity → t.byte i = some 0

/-- The bytes of the contents. -/
theorem load_eq (hb : s.buffer = some b) (hfits : p + n ≤ b.length) :
    s.load p n = some ((b.drop p).take n) := by
  unfold load
  split
  · rename_i hzero
    rw [hzero]
    rfl
  · rw [hb, Option.bind_eq_bind, Option.bind_some, Block.read_eq hfits]

theorem Valid.load (hs : s.Valid) : ∃ d, s.load 0 s.len = some d ∧ d.length = s.len ∧
    ∀ i < s.len, d[i]? = s.byte i := by
  cases hb : s.buffer with
  | none =>
    obtain ⟨hlen, -⟩ := (valid_none hb).mp hs
    exact ⟨[], by rw [hlen]; rfl, hlen.symm, fun i hi => by omega⟩
  | some b =>
    obtain ⟨hcapacity, hle, -⟩ := (valid_some hb).mp hs
    have hload : s.load 0 s.len = some (b.take s.len) := by rw [load_eq hb (by omega)]; rfl
    refine ⟨b.take s.len, hload, by rw [List.length_take]; omega, fun i hi => ?_⟩
    unfold byte
    rw [hb, Option.bind_some, List.getElem?_take_of_lt hi]

/-- What has to be allocated is longer than the contents. -/
theorem Valid.len_le_of_allocates (hs : s.Valid) (h : s.Allocates size) : s.len ≤ size := by
  cases hb : s.buffer with
  | none => exact le_of_eq_of_le ((valid_none hb).mp hs).1 (Nat.zero_le _)
  | some b =>
    obtain ⟨-, hle, -⟩ := (valid_some hb).mp hs
    have hlt : ¬ s.capacity ≥ size := fun hge => h ⟨by rw [hb]; rfl, hge⟩
    omega

/-- **There is memory**, and the block is cleared behind the contents. -/
theorem exists_changeBuffer (hs : s.Valid) (hsize : size + 16 < 2 ^ 32) (hlen : s.len ≤ size) :
    ∃ t, s.changeBuffer size true = some (true, t) ∧ t.Valid ∧ t.len = s.len ∧
      t.buffer.isSome = true ∧
      size ≤ t.capacity ∧ (∀ i < s.len, t.byte i = s.byte i) ∧
      ∀ i, s.len ≤ i → i ≤ t.capacity → t.byte i = some 0 := by
  obtain ⟨old, hold, hlength, hbytes⟩ := hs.load
  obtain ⟨k, hk, hle⟩ : ∃ k, (size + 16) % 2 ^ 32 / 16 * 16 = k + 1 ∧
      size ≤ k ∧ k + 1 < 2 ^ 32 :=
    ⟨(size + 16) % 2 ^ 32 / 16 * 16 - 1, by omega, by omega, by omega⟩
  have hwrite := Block.write_append [] [] (by rw [List.length_replicate]; omega :
    old.length ≤ (List.replicate (k + 1) (0 : UInt8)).length)
  rw [List.nil_append, List.append_nil, List.nil_append, List.append_nil, List.drop_replicate,
    hlength] at hwrite
  have hget : ∀ i, (old ++ List.replicate (k + 1 - s.len) (0 : UInt8))[i]? =
      if i < s.len then s.byte i else if i ≤ k then some 0 else none := fun i => by
    split
    · rename_i hi
      rw [List.getElem?_append_left (by omega), hbytes i hi]
    · rename_i hi
      rw [List.getElem?_append_right (by omega), List.getElem?_replicate, hlength]
      exact if_congr (by omega) rfl rfl
  refine ⟨⟨some (old ++ List.replicate (k + 1 - s.len) 0), k, s.len⟩, ?_, (valid_some rfl).mpr
    ⟨?_, ?_, ?_⟩, rfl, rfl,
    hle.1, fun i hi => ?_, fun i hi hik => ?_⟩
  · unfold changeBuffer
    dsimp only
    rw [hk, if_pos rfl, hold, Option.bind_eq_bind, Option.bind_some]
    rw [List.length_nil] at hwrite
    rw [hwrite, Option.bind_some]
    have hcapacity : (k + 1 + 2 ^ 32 - 1) % 2 ^ 32 = k := by omega
    rw [hcapacity]
    rfl
  · rw [List.length_append, List.length_replicate, hlength]
    show s.len + (k + 1 - s.len) = k + 1
    omega
  · show s.len ≤ k
    omega
  · exact (hget s.len).trans ((if_neg (Nat.lt_irrefl _)).trans (if_pos (by omega)))
  · exact (hget i).trans (if_pos hi)
  · exact (hget i).trans ((if_neg (by omega)).trans (if_pos hik))

/-- **`reserve` with memory.** -/
theorem exists_reserve (hs : s.Valid) (hsize : size + 16 < 2 ^ 32) :
    ∃ t, s.reserve size true = some (true, t) ∧ Reserved s size t := by
  unfold reserve
  by_cases hroom : s.buffer.isSome ∧ s.capacity ≥ size
  · rw [if_pos hroom]
    exact ⟨s, rfl, hs, rfl, hroom.1, hroom.2, fun _ _ => rfl, fun _ => rfl,
      fun h => absurd hroom h⟩
  · rw [if_neg hroom]
    obtain ⟨t, ht, hvalid, hlen', hsome, hcap, hbytes, hcleared⟩ :=
      exists_changeBuffer hs hsize (hs.len_le_of_allocates hroom)
    have hreserved : Reserved s size t :=
      ⟨hvalid, hlen', hsome, hcap, hbytes, fun h => absurd hroom h, fun _ => hcleared⟩
    obtain ⟨b, hb⟩ := Option.isSome_iff_exists.mp hsome
    obtain ⟨hcapacity, -, hzero⟩ := (valid_some hb).mp hvalid
    rw [ht, Option.bind_eq_bind, Option.bind_some]
    dsimp only
    rw [if_pos rfl]
    split
    · rename_i hempty
      have hself : t.store 0 [0] = some t := by
        refine store_self hb (by rw [hcapacity, List.length_singleton]; omega) fun i hi => ?_
        obtain rfl : i = 0 := by
          rw [List.length_singleton] at hi
          omega
        rw [hempty] at hzero
        exact hzero
      rw [hself]
      exact ⟨t, rfl, hreserved⟩
    · exact ⟨t, rfl, hreserved⟩

/-! ## Copies and appended texts -/

/-- **The byte at a length is a NUL** once there is room for it. -/
def ZeroAt (s : StringObject) (size : ℕ) : Prop := s.Allocates size ∨ s.byte size = some 0

instance (s : StringObject) (size : ℕ) : Decidable (s.ZeroAt size) :=
  inferInstanceAs (Decidable (_ ∨ _))

/-- **A text is put at an offset**, where the length comes from somewhere
else. -/
theorem exists_put (hs : s.Valid) (hsize : p + n < 2 ^ 31) (hd : d.length ≤ n)
    (hzero : d.length = n ∨ s.ZeroAt (p + n)) :
    ∃ t b', s.reserve (p + n) true = some (true, t) ∧ t.len = s.len ∧
      t.store p (d ++ [0]) = some { t with buffer := some b' } ∧
      Valid { t with buffer := some b', len := p + n } := by
  obtain ⟨t, ht, hreserved⟩ := exists_reserve hs (by omega : p + n + 16 < 2 ^ 32)
  obtain ⟨b, hb⟩ := Option.isSome_iff_exists.mp hreserved.isSome
  have hbyte : d.length = n ∨ b[p + n]? = some 0 := by
    refine hzero.imp_right fun h => ?_
    have hget : t.byte (p + n) = some 0 := by
      by_cases hallocates : s.Allocates (p + n)
      · exact hreserved.cleared hallocates _ (hs.len_le_of_allocates hallocates) hreserved.room
      · rw [hreserved.kept hallocates]
        exact h.resolve_left hallocates
    unfold byte at hget
    rwa [hb] at hget
  obtain ⟨b', hstore, hvalid⟩ := exists_store_text hreserved.valid hb hreserved.room hd hbyte
  exact ⟨t, b', ht, hreserved.len, hstore, hvalid⟩

/-- **`copy`.** -/
theorem exists_copy (hs : s.Valid) (hsize : n < 2 ^ 31) (hd : d.length ≤ n)
    (hzero : d.length = n ∨ s.ZeroAt n) :
    ∃ t, s.copy d n true = some t ∧ t.Valid ∧ t.len = n := by
  have hzero' : d.length = n ∨ s.ZeroAt (0 + n) := by rwa [Nat.zero_add]
  obtain ⟨t, b', hreserve, -, hstore, hvalid⟩ := exists_put (p := 0) hs (by omega) hd hzero'
  rw [Nat.zero_add] at hreserve hvalid
  refine ⟨_, ?_, hvalid, rfl⟩
  unfold copy
  rw [hreserve, Option.bind_eq_bind, Option.bind_some]
  dsimp only
  rw [if_pos rfl]
  rw [store_with_len, hstore]
  rfl

/-- **`concat`.** -/
theorem exists_concatFrom (hs : s.Valid) (hsize : s.len + n < 2 ^ 31) (hd : d.length ≤ n)
    (hzero : d.length = n ∨ s.ZeroAt (s.len + n)) :
    ∃ r t, s.concatFrom (some d) n true = some (r, t) ∧ t.Valid ∧ t.len = s.len + n := by
  unfold concatFrom
  dsimp only
  split
  · rename_i hnone
    exact ⟨true, s, rfl, hs, by omega⟩
  · obtain ⟨t, b', hreserve, hlen, hstore, hvalid⟩ := exists_put hs hsize hd hzero
    rw [Nat.mod_eq_of_lt (by omega), hreserve, Option.bind_eq_bind, Option.bind_some]
    dsimp only
    rw [if_pos rfl, hlen, hstore]
    exact ⟨true, _, rfl, hvalid, rfl⟩

/-! ## Other strings -/

/-- There is no NUL in the contents. -/
def NulFree (s : StringObject) : Prop := ∀ t ∈ s.text 0, t.length = s.len

instance (s : StringObject) : Decidable s.NulFree :=
  inferInstanceAs (Decidable (∀ t ∈ s.text 0, _))

/-- **The contents of the other string arrive**: it has no NUL in them, or the
byte at the new length is one. -/
def Arrives (rhs s : StringObject) (size : ℕ) : Prop := rhs.NulFree ∨ s.ZeroAt size

instance (rhs s : StringObject) (size : ℕ) : Decidable (Arrives rhs s size) :=
  inferInstanceAs (Decidable (_ ∨ _))

/-- **It can be moved**: its block is taken over, or it is a NUL text, and what
is behind that in the other block is good for its length. -/
def Moves (rhs s : StringObject) : Prop :=
  s.Allocates rhs.len ∨ rhs.byte 0 = some 0 ∧ (rhs.len = 0 ∨ s.byte rhs.len = some 0)

instance (rhs s : StringObject) : Decidable (Moves rhs s) := inferInstanceAs (Decidable (_ ∨ _))

theorem text_eq (hb : s.buffer = some b) (p : ℕ) : s.text p = Block.text b p := by
  unfold StringObject.text
  rw [hb]
  rfl

theorem byte_eq (hb : s.buffer = some b) (i : ℕ) : s.byte i = b[i]? := by
  unfold byte
  rw [hb, Option.bind_some]

theorem Arrives.length_eq (h : Arrives rhs s size) (hb : rhs.buffer = some b)
    (ht : Block.text b 0 = some d) :
    d.length = rhs.len ∨ s.ZeroAt size :=
  h.imp_left fun hfree => hfree d ((text_eq hb 0).trans ht)

/-- **Copy assignment.** -/
theorem exists_assign (hs : s.Valid) (hrhs : rhs.Valid) (hlen : rhs.len < 2 ^ 31)
    (h : Arrives rhs s rhs.len) :
    ∃ t, s.assign rhs true = some t ∧ t.Valid ∧ t.len = rhs.len := by
  unfold assign
  cases hb : rhs.buffer with
  | none => exact ⟨init, rfl, valid_init, ((valid_none hb).mp hrhs).1.symm⟩
  | some b =>
    obtain ⟨d, hd, hle⟩ := hrhs.text hb
    obtain ⟨t, ht, hvalid, htlen⟩ := exists_copy hs hlen hle (h.length_eq hb hd)
    rw [if_pos Option.isSome_some, text_eq hb, hd]
    exact ⟨t, ht, hvalid, htlen⟩

/-- **`concat` of a string.** -/
theorem exists_concat (hs : s.Valid) (hrhs : rhs.Valid) (hlen : s.len + rhs.len < 2 ^ 31)
    (h : Arrives rhs s (s.len + rhs.len)) :
    ∃ r t, s.concat rhs true = some (r, t) ∧ t.Valid ∧ t.len = s.len + rhs.len := by
  unfold concat cptr
  cases hb : rhs.buffer with
  | none => exact ⟨false, s, rfl, hs, by rw [((valid_none hb).mp hrhs).1, Nat.add_zero]⟩
  | some b =>
    obtain ⟨d, hd, hle⟩ := hrhs.text hb
    obtain ⟨r, t, ht, hvalid, htlen⟩ := exists_concatFrom hs hlen hle (h.length_eq hb hd)
    dsimp only
    rw [hd]
    exact ⟨r, t, ht, hvalid, htlen⟩

/-- **Move assignment**, of both. -/
theorem exists_move (hs : s.Valid) (hrhs : rhs.Valid) (h : Moves rhs s) :
    ∃ t u, s.move rhs = some (t, u) ∧ t.Valid ∧ u.Valid ∧ t.len = rhs.len ∧ u.len = 0 := by
  unfold move
  split
  · rename_i hroom
    obtain ⟨hfirst, hlast⟩ := h.resolve_left fun hallocates => hallocates hroom
    obtain ⟨b, hb⟩ := Option.isSome_iff_exists.mp hroom.1
    obtain ⟨c, hc⟩ : ∃ c, rhs.buffer = some c := by
      cases hc : rhs.buffer with
      | none =>
        unfold byte at hfirst
        rw [hc] at hfirst
        cases hfirst
      | some c => exact ⟨c, rfl⟩
    rw [byte_eq hc] at hfirst
    obtain ⟨hcapacity, hle, -⟩ := (valid_some hc).mp hrhs
    obtain ⟨d, hd, hdle⟩ := Block.text_of_zero hfirst (le_refl 0)
    obtain rfl : d = [] := List.eq_nil_of_length_eq_zero (by omega)
    have hzero : ([] : List UInt8).length = rhs.len ∨ b[0 + rhs.len]? = some 0 :=
      hlast.imp Eq.symm fun hbyte => by rwa [byte_eq hb, ← Nat.zero_add rhs.len] at hbyte
    obtain ⟨b', hstore, hvalid⟩ := exists_store_text (p := 0) (n := rhs.len) hs hb (by omega)
      (Nat.zero_le _) hzero
    rw [text_eq hc, hd, Option.bind_eq_bind, Option.bind_some, hstore]
    rw [Nat.zero_add] at hvalid
    exact ⟨_, _, rfl, hvalid, (valid_some (s := { rhs with len := 0 }) hc).mpr
      ⟨hcapacity, Nat.zero_le _, hfirst⟩, rfl, rfl⟩
  · exact ⟨rhs, init, rfl, hrhs, valid_init, rfl, rfl⟩

/-! ## In one string -/

/-- **Bytes in front of the length** leave the string valid. -/
theorem exists_store_before (hs : s.Valid) (hb : s.buffer = some b)
    (hbefore : p + d.length ≤ s.len) :
    ∃ t, s.store p d = some t ∧ t.Valid ∧ t.len = s.len := by
  obtain ⟨hcapacity, hle, hzero⟩ := (valid_some hb).mp hs
  have hout : ¬ (p ≤ s.len ∧ s.len < p + d.length) := by omega
  obtain ⟨b', hstore, hvalid⟩ := exists_store_valid (p := p) (d := d) (n := s.len)
    hs hb (by omega) hle
    (by rw [if_neg hout]; exact hzero)
  exact ⟨_, hstore, hvalid, rfl⟩

/-- **A NUL at the new length** makes it valid, whatever is there. -/
theorem exists_store_end (hb : s.buffer = some b) (hcapacity : b.length = s.capacity + 1)
    (hn : n ≤ s.capacity) :
    ∃ t, store { s with len := n } n [0] = some t ∧ t.Valid ∧ t.len = n := by
  obtain ⟨b', hstore, hlength, hget⟩ := exists_store (s := { s with len := n })
    (p := n) (d := [0]) hb
    (by rw [List.length_singleton]; omega)
  refine ⟨_, hstore, (valid_some rfl).mpr ⟨hlength.trans hcapacity, hn, ?_⟩, rfl⟩
  rw [hget, if_pos ⟨le_rfl, Nat.lt_succ_self _⟩, Nat.sub_self]
  rfl

theorem exists_setCharAt (hs : s.Valid) (loc : ℕ) (c : UInt8) :
    ∃ t, s.setCharAt loc c = some t ∧ t.Valid ∧ t.len = s.len := by
  unfold setCharAt
  split
  · rename_i hloc
    cases hb : s.buffer with
    | none => exact absurd ((valid_none hb).mp hs).1 (by omega)
    | some b => exact exists_store_before hs hb hloc
  · exact ⟨s, rfl, hs, rfl⟩

/-- **The loops over the text** do not come to its end. -/
theorem exists_mapText (hs : s.Valid) (f : UInt8 → UInt8) :
    ∃ t, s.mapText f = some t ∧ t.Valid ∧
    t.len = s.len := by
  unfold mapText
  cases hb : s.buffer with
  | none => exact ⟨s, rfl, hs, rfl⟩
  | some b =>
    obtain ⟨d, hd, hle⟩ := hs.text hb
    dsimp only
    rw [hd, Option.bind_eq_bind, Option.bind_some]
    exact exists_store_before hs hb (by rw [List.length_map]; omega)

theorem exists_remove (hs : s.Valid) (index count : ℕ) :
    ∃ t, s.remove index count = some t ∧ t.Valid ∧ t.len ≤ s.len := by
  unfold remove
  split
  · exact ⟨s, rfl, hs, le_rfl⟩
  · rename_i hindex
    split
    · exact ⟨s, rfl, hs, le_rfl⟩
    · cases hb : s.buffer with
      | none => exact absurd ((valid_none hb).mp hs).1 (by omega)
      | some b =>
        obtain ⟨hcapacity, hle, -⟩ := (valid_some hb).mp hs
        obtain ⟨k, hk, hkle⟩ : ∃ k,
            (if count > s.len - index then s.len - index else count) = k ∧
            k ≤ s.len - index :=
          ⟨_, rfl, by split <;> omega⟩
        dsimp only
        rw [hk, load_eq hb (by omega), Option.bind_eq_bind, Option.bind_some]
        have hrest : ((b.drop (index + k)).take (s.len - k - index)).length =
            s.len - k - index := by
          rw [List.length_take, List.length_drop]
          omega
        have hpadded : ∀ d : List UInt8,
            (cstr d ++ List.replicate (d.length - (cstr d).length) 0).length = d.length :=
          fun d => by
            have := length_cstr_le d
            rw [List.length_append, List.length_replicate]
            omega
        obtain ⟨b', hstore, hlength, -⟩ := exists_store (p := index) hb
          (by rw [hpadded, hrest]; omega)
        rw [hstore, Option.bind_eq_bind, Option.bind_some]
        obtain ⟨t, ht, hvalid, htlen⟩ := exists_store_end (s := { s with buffer := some b' })
          (n := s.len - k) rfl
          (hlength.trans hcapacity) (by dsimp only; omega)
        exact ⟨t, ht, hvalid, by omega⟩

/-! ### `trim` -/

theorem length_takeWhile_le {f : UInt8 → Bool} {c : UInt8} (h : b[n]? = some c)
    (hc : f c = false) :
    (b.takeWhile f).length ≤ n := by
  induction b generalizing n with
  | nil => exact Nat.zero_le n
  | cons a b ih =>
    rw [List.takeWhile_cons]
    split
    · rename_i ha
      cases n with
      | zero =>
        cases h
        rw [hc] at ha
        cases ha
      | succ n => exact Nat.succ_le_succ (ih h)
    · exact Nat.zero_le n

theorem of_getElem?_takeWhile {f : UInt8 → Bool} {c : UInt8}
    (h : b[(b.takeWhile f).length]? = some c) : f c = false := by
  induction b with
  | nil => cases h
  | cons a b ih =>
    rw [List.takeWhile_cons] at h
    split at h
    · exact ih h
    · rename_i ha
      cases h
      exact Bool.eq_false_iff.mpr ha

/-- The loop from the start stops at the NUL, or before. -/
theorem trimBegin_eq (hzero : b[n]? = some 0) :
    ∃ begin, trimBegin b = some begin ∧ begin ≤ n ∧ ∀ c, b[begin]? = some c →
      isspace c = false := by
  have hn : n < b.length := (List.getElem?_eq_some_iff.mp hzero).1
  have hle := length_takeWhile_le hzero (by decide : isspace 0 = false)
  exact ⟨_, if_pos (by omega), hle, fun c hc => of_getElem?_takeWhile hc⟩

/-- The loop from the end stops there, or behind. -/
theorem trimEnd_eq {begin : ℕ} (hfirst : ∀ c, b[begin]? = some c → isspace c = false)
    (k : ℕ) (hpos : 1 ≤ k)
    (hle : begin ≤ k) (hk : k ≤ b.length) : ∃ e, trimEnd b begin k = some e ∧
      begin ≤ e ∧ e ≤ k := by
  induction k with
  | zero => omega
  | succ last ih =>
    have hget : b[last]? = some b[last] := List.getElem?_eq_getElem hk
    rw [trimEnd, hget, Option.bind_eq_bind, Option.bind_some]
    split
    · rename_i hspace
      have hne : last ≠ begin := by
        rintro rfl
        rw [hfirst _ hget] at hspace
        exact Bool.false_ne_true hspace.1
      obtain ⟨e, he, hbegin, hend⟩ := ih (by omega) hspace.2 (by omega)
      exact ⟨e, he, hbegin, by omega⟩
    · exact ⟨last + 1, rfl, hle, le_rfl⟩

theorem exists_trim (hs : s.Valid) : ∃ t, s.trim = some t ∧ t.Valid ∧ t.len ≤ s.len := by
  unfold trim
  cases hb : s.buffer with
  | none => exact ⟨s, rfl, hs, le_rfl⟩
  | some b =>
    obtain ⟨hcapacity, hle, hzero⟩ := (valid_some hb).mp hs
    dsimp only
    split
    · exact ⟨s, rfl, hs, le_rfl⟩
    · rename_i hlen
      obtain ⟨begin, hbegin, hbeginle, hfirst⟩ := trimBegin_eq hzero
      obtain ⟨behind, hbehind, hge, hbehindle⟩ :=
        trimEnd_eq hfirst s.len (by omega) hbeginle (by omega)
      obtain ⟨b', hmove, hlength⟩ : ∃ b', s.moveToStart begin (behind - begin) =
        some { s with buffer := some b' } ∧
          b'.length = b.length := by
        unfold moveToStart
        split
        · rw [load_eq hb (by omega), Option.bind_eq_bind, Option.bind_some]
          obtain ⟨b', hstore, hlength, -⟩ := exists_store (p := 0)
            (d := (b.drop begin).take (behind - begin)) hb
            (by rw [List.length_take, List.length_drop]; omega)
          exact ⟨b', hstore, hlength⟩
        · exact ⟨b, by rw [← hb], rfl⟩
      rw [hbegin, Option.bind_eq_bind, Option.bind_some, hbehind, Option.bind_some, hmove,
        Option.bind_eq_bind, Option.bind_some]
      obtain ⟨t, ht, hvalid, htlen⟩ := exists_store_end (s := { s with buffer := some b' })
        (n := behind - begin) rfl
        (hlength.trans hcapacity) (by dsimp only; omega)
      exact ⟨t, ht, hvalid, by omega⟩

/-! ### `substring` -/

/-- **The part is copied**, and the string is as it was. -/
theorem exists_substring (hs : s.Valid) (hlen : s.len < 2 ^ 31) (left right : ℕ) :
    ∃ t, s.substring left right true = some (s, t) ∧ t.Valid ∧ t.len ≤ s.len := by
  unfold substring
  obtain ⟨lo, hi, hbounds, hle⟩ : ∃ lo hi,
      (if left > right then (right, left) else (left, right)) =
      (lo, hi) ∧ lo ≤ hi := by
    split
    · exact ⟨right, left, rfl, by omega⟩
    · exact ⟨left, right, rfl, by omega⟩
  obtain ⟨new, hcopy, hnewvalid, hnewlen⟩ := exists_copy (d := []) (n := 0) valid_init
    (by decide) le_rfl (Or.inl rfl)
  have hnew : ofText (some []) true = some new := hcopy
  rw [hbounds]
  dsimp only
  rw [hnew, Option.bind_eq_bind, Option.bind_some]
  split
  · exact ⟨new, rfl, hnewvalid, by omega⟩
  · rename_i hlo
    obtain ⟨k, hk, hlok, hkle⟩ : ∃ k, (if hi > s.len then s.len else hi) = k ∧
        lo ≤ k ∧ k ≤ s.len :=
      ⟨_, rfl, by split <;> omega, by split <;> omega⟩
    cases hb : s.buffer with
    | none => exact absurd ((valid_none hb).mp hs).1 (by omega)
    | some b =>
      obtain ⟨hcapacity, hcap, -⟩ := (valid_some hb).mp hs
      have htemp : ((b.drop k).take 1).length = 1 := by
        rw [List.length_take, List.length_drop]
        omega
      -- the byte behind the part is a NUL for a while
      obtain ⟨b₁, hstore, hlength, hget⟩ := exists_store (p := k) (d := [0]) hb
        (by rw [List.length_singleton]; omega)
      have hzero : b₁[k]? = some 0 := by
        rw [hget, if_pos ⟨le_rfl, Nat.lt_succ_self _⟩, Nat.sub_self]
        rfl
      obtain ⟨d, hd, hdle⟩ := Block.text_of_zero hzero hlok
      obtain ⟨out, hout, hvalid, houtlen⟩ := exists_copy (d := d) (n := d.length) hnewvalid
        (by omega) le_rfl (Or.inl rfl)
      have hassign : new.assignText (some d) true = some out := hout
      obtain ⟨b₂, hback, -, hget₂⟩ := exists_store (s := { s with buffer := some b₁ }) (p := k)
        (d := (b.drop k).take 1) rfl
        (by rw [htemp]; omega)
      have heq : b₂ = b := List.ext_getElem? fun i => by
        rw [hget₂, htemp]
        split
        · rename_i hi
          obtain rfl : i = k := by omega
          rw [Nat.sub_self, List.getElem?_take_of_lt Nat.zero_lt_one,
            List.getElem?_drop, Nat.add_zero]
        · rename_i hi
          rw [hget, List.length_singleton, if_neg hi]
      refine ⟨out, ?_, hvalid, by omega⟩
      have htext : StringObject.text { s with buffer := some b₁ } lo = some d :=
        (text_eq rfl lo).trans hd
      rw [hk, load_eq hb (by omega)]
      simp only [Option.bind_eq_bind, Option.bind_some, hstore, htext, hassign, hback]
      rw [heq, ← hb]
      rfl

end StringObject
