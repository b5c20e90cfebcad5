import Esp31b.StringReplaced

/-!
# Strings of a text

A valid `String` without a NUL in its contents is one of two things: a null string, whose text
is empty, or a block that begins with the text and a NUL (`StringObject.HasText.cases`). What an
operation does to it can then be said of lists.
-/

namespace StringObject

/-- **A string of this text.** -/
structure HasText (s : StringObject) (T : List UInt8) : Prop where
  valid : s.Valid
  zero : 0 ∉ T
  len : s.len = T.length
  contents : s.contents = T

variable {s : StringObject} {T R : List UInt8} {k size : ℕ}

/-- A valid string without NULs has the text that is its contents. -/
theorem NulFree.hasText (hfree : s.NulFree) (hs : s.Valid) : s.HasText s.contents := by
  obtain ⟨hlen, hzero, -⟩ := hfree.contents_spec hs
  exact ⟨hs, hzero, hlen.symm, rfl⟩

theorem HasText.load (h : s.HasText T) : s.load 0 s.len = some T := by
  have hfree : s.NulFree := by
    intro t ht
    have hcontents := h.contents
    rw [StringObject.contents, Option.mem_def.mp ht, Option.getD_some] at hcontents
    rw [hcontents, h.len]
  rw [(hfree.contents_spec h.valid).2.2, h.contents]

/-- A null string. -/
theorem hasText_init : init.HasText [] := ⟨valid_init, List.not_mem_nil, rfl, rfl⟩

/-- A block that begins with the text and a NUL. -/
theorem hasText_block (hlength : (T ++ 0 :: R).length = k + 1) (h0 : 0 ∉ T) :
    HasText ⟨some (T ++ 0 :: R), k, T.length⟩ T := by
  obtain ⟨hvalid, hcontents⟩ := valid_text k hlength h0
  exact ⟨hvalid, h0, rfl, hcontents⟩

/-- **One of the two.** -/
theorem HasText.cases (h : s.HasText T) :
    (s = init ∧ T = []) ∨
      ∃ R k, s = ⟨some (T ++ 0 :: R), k, T.length⟩ ∧ (T ++ 0 :: R).length = k + 1 := by
  obtain ⟨buffer, capacity, len⟩ := s
  have hlen : len = T.length := h.len
  cases buffer with
  | none =>
    obtain ⟨hzero, hcapacity⟩ := (valid_none rfl).mp h.valid
    have hnil : len = 0 := hzero
    have hcap : capacity = 0 := hcapacity
    exact Or.inl ⟨by rw [hnil, hcap]; rfl, List.length_eq_zero_iff.mp (hlen.symm.trans hnil)⟩
  | some b =>
    have htext := h.valid.text_contents rfl
    rw [h.contents] at htext
    obtain ⟨-, R, hb⟩ := Block.text_eq_some_iff.mp htext
    rw [List.drop_zero] at hb
    exact Or.inr ⟨R, capacity, by rw [hb, hlen], hb ▸ ((valid_some rfl).mp h.valid).1⟩

/-- One that is not empty has a block. -/
theorem HasText.exists_block (h : s.HasText T) (hT : T ≠ []) :
    ∃ R k, s = ⟨some (T ++ 0 :: R), k, T.length⟩ ∧ (T ++ 0 :: R).length = k + 1 :=
  h.cases.resolve_left fun hnull => hT hnull.2

theorem HasText.exists_block_of_lt (h : s.HasText T) {p : ℕ} (hp : p < T.length) :
    ∃ R k, s = ⟨some (T ++ 0 :: R), k, T.length⟩ ∧ (T ++ 0 :: R).length = k + 1 :=
  h.exists_block (List.ne_nil_of_length_pos (Nat.zero_lt_of_lt hp))

/-- **Room is made** for a longer text. -/
theorem HasText.exists_reserve (h : s.HasText T) (hsize : size + 16 < 2 ^ 32) :
    ∃ R k, s.reserve size true = some (true, ⟨some (T ++ 0 :: R), k, T.length⟩) ∧ size ≤ k ∧
      (T ++ 0 :: R).length = k + 1 := by
  obtain ⟨t, ht, hreserved⟩ := StringObject.exists_reserve h.valid hsize
  obtain ⟨b, hb⟩ := Option.isSome_iff_exists.mp hreserved.isSome
  obtain ⟨hcapacity, -, hzero⟩ := (valid_some hb).mp hreserved.valid
  have hlen : t.len = T.length := hreserved.len.trans h.len
  have hroom := hreserved.room
  -- the bytes of the text are those of the block that it comes from
  obtain ⟨d, hd, -, hbytes⟩ := h.valid.load
  obtain rfl : T = d := Option.some.inj (h.load.symm.trans hd)
  have htake : b.take T.length = T := by
    refine List.ext_getElem? fun i => ?_
    rw [List.getElem?_take]
    split
    · rename_i hi
      rw [hbytes i (h.len ▸ hi), ← hreserved.bytes i (h.len ▸ hi), byte_eq hb]
    · rename_i hi
      exact (List.getElem?_eq_none (Nat.le_of_not_lt hi)).symm
  rw [hlen] at hzero
  have hblock : b = T ++ 0 :: b.drop (T.length + 1) := by
    have hwith := withText_take hzero
    rwa [htake, eq_comm] at hwith
  refine ⟨b.drop (T.length + 1), t.capacity, ?_, hroom, hblock ▸ hcapacity⟩
  rw [ht, ← hblock, ← hlen, ← hb]

end StringObject
