import Esp31b.StringObject

/-!
# Strings of any bytes

A `String` may hold NULs, if the block is cleared behind its contents: whatever byte is
appended to them, what is behind it ends the text, and all of it is read back. A string that is
built byte by byte in a block of its own is of this kind (`StringObject.holding`), as the
block is cleared when it is made and again when it gets larger.
-/

namespace StringObject

/-- **A string of these bytes**, in a block that is cleared behind them. -/
def holding (d : List UInt8) (capacity : ℕ) : StringObject :=
  ⟨some (d ++ List.replicate (capacity + 1 - d.length) 0), capacity, d.length⟩

variable {d : List UInt8} {k size : ℕ}

theorem load_holding (d : List UInt8) (k : ℕ) : (holding d k).load 0 d.length = some d := by
  unfold load holding
  split
  · rename_i hempty
    rw [List.length_eq_zero_iff.mp hempty]
  · have hread := Block.read_append [] (List.replicate (k + 1 - d.length) 0) (le_refl d.length)
    rw [List.nil_append, List.length_nil, List.take_length] at hread
    exact hread

theorem valid_holding (h : d.length ≤ k) : (holding d k).Valid := by
  refine (valid_some rfl).mpr ⟨?_, h, ?_⟩
  · rw [List.length_append, List.length_replicate]
    show d.length + (k + 1 - d.length) = k + 1
    omega
  · show (d ++ List.replicate (k + 1 - d.length) 0)[d.length]? = some 0
    rw [List.getElem?_append_right le_rfl, List.getElem?_replicate, if_pos (by omega)]

/-- **A larger block** is cleared behind the contents too. -/
theorem exists_changeBuffer_holding (h : d.length ≤ size) (hfits : size + 16 < 2 ^ 32) :
    ∃ k', (holding d k).changeBuffer size true = some (true, holding d k') ∧ size ≤ k' := by
  obtain ⟨k', hk', hle⟩ :
      ∃ k', (size + 16) % 2 ^ 32 / 16 * 16 = k' + 1 ∧ size ≤ k' ∧ k' + 1 < 2 ^ 32 :=
    ⟨(size + 16) % 2 ^ 32 / 16 * 16 - 1, by omega, by omega, by omega⟩
  have hwrite := Block.write_append [] []
    (show d.length ≤ (List.replicate (k' + 1) (0 : UInt8)).length by
      rw [List.length_replicate]; omega)
  rw [List.nil_append, List.append_nil, List.nil_append, List.append_nil, List.drop_replicate,
    List.length_nil] at hwrite
  have hcapacity : (k' + 1 + 2 ^ 32 - 1) % 2 ^ 32 = k' := by omega
  refine ⟨k', ?_, hle.1⟩
  unfold changeBuffer
  dsimp only
  rw [hk', if_pos rfl]
  show (load (holding d k) 0 d.length).bind _ = _
  rw [load_holding, Option.bind_some, hwrite, Option.bind_eq_bind, Option.bind_some, hcapacity]
  rfl

/-- **There is room**, in this block or in a larger one. -/
theorem exists_reserve_holding (h : d.length ≤ k) (hsize : d.length ≤ size)
    (hfits : size + 16 < 2 ^ 32) :
    ∃ k', (holding d k).reserve size true = some (true, holding d k') ∧ size ≤ k' := by
  unfold reserve
  split
  · rename_i hroom
    exact ⟨k, rfl, hroom.2⟩
  · obtain ⟨k', hchange, hle⟩ := exists_changeBuffer_holding (k := k) hsize hfits
    refine ⟨k', ?_, hle⟩
    rw [hchange, Option.bind_eq_bind, Option.bind_some]
    dsimp only
    rw [if_pos rfl]
    split
    · rename_i hempty
      obtain rfl : d = [] := List.length_eq_zero_iff.mp hempty
      rfl
    · rfl

/-- A character is put behind the contents, and a NUL behind it. -/
theorem store_holding (h : d.length + 1 ≤ k) (c : UInt8) :
    (holding d k).store d.length (cstr [c] ++ [0]) =
      some { holding d k with buffer := (holding (d ++ [c]) k).buffer } := by
  obtain ⟨m, hm⟩ : ∃ m, k + 1 - d.length = m + 2 := ⟨k - 1 - d.length, by omega⟩
  have hrest : k + 1 - (d ++ [c]).length = m + 1 := by
    rw [List.length_append, List.length_singleton]
    omega
  have hwrite : Block.write (d ++ List.replicate (m + 2) 0) d.length (cstr [c] ++ [0]) =
      some (d ++ [c] ++ List.replicate (m + 1) 0) := by
    by_cases hc : c = 0
    · have happend := Block.write_append d []
        (c := List.replicate (m + 2) (0 : UInt8)) (d := [0])
        (by rw [List.length_replicate, List.length_singleton]; omega)
      rw [List.append_nil, List.append_nil] at happend
      rw [hc, List.append_assoc]
      exact happend
    · have hcstr : cstr [c] = [c] :=
        cstr_of_not_mem fun h0 => hc (List.mem_singleton.mp h0).symm
      have happend := Block.write_append d []
        (show ([c] ++ [0]).length ≤ (List.replicate (m + 2) (0 : UInt8)).length by
          rw [List.length_replicate]; exact Nat.le_add_left 2 m)
      rw [List.append_nil, List.append_nil] at happend
      rw [hcstr, List.append_assoc]
      exact happend
  unfold store holding
  dsimp only
  rw [hm, hrest, Option.bind_eq_bind, Option.bind_some, hwrite]
  rfl

/-- **A character is appended**, whichever it is. -/
theorem exists_concatChar_holding (h : d.length ≤ k) (hfits : d.length + 17 < 2 ^ 32)
    (c : UInt8) :
    ∃ k', (holding d k).concatChar c true = some (true, holding (d ++ [c]) k') ∧
      (d ++ [c]).length ≤ k' := by
  obtain ⟨k', hreserve, hle⟩ :=
    exists_reserve_holding h (Nat.le_succ d.length) (by omega)
  have hlength : (d ++ [c]).length = d.length + 1 := List.length_append
  refine ⟨k', ?_, hlength ▸ hle⟩
  have hnewlen : ((holding d k).len + 1) % 2 ^ 32 = d.length + 1 :=
    Nat.mod_eq_of_lt (show d.length + 1 < 2 ^ 32 by omega)
  unfold concatChar concatFrom
  dsimp only
  rw [if_neg Nat.one_ne_zero, hnewlen, hreserve, Option.bind_eq_bind, Option.bind_some]
  dsimp only
  rw [if_pos rfl]
  show ((holding d k').store d.length (cstr [c] ++ [0])).bind _ = _
  rw [store_holding hle, Option.bind_some, ← hlength]
  rfl

end StringObject
