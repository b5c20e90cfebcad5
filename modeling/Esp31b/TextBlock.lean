import Esp31b.Block
import Esp31b.CString
import Esp31b.Occurrences

/-!
# C strings in blocks

A C function that is given a pointer into a block goes on until it finds a NUL.
It stays inside if there is one, and what it has read is the text up to it.
-/

namespace Block

/-- The text at an offset. -/
def text (b : List UInt8) (p : ℕ) : Option (List UInt8) :=
  if 0 ∈ b.drop p then some (cstr (b.drop p)) else none

/-- `strstr`: where it is, if it is. -/
def strstr (b : List UInt8) (p : ℕ) (f : List UInt8) : Option (Option ℕ) := do
  let s ← text b p
  return (List.firstOccurrence f s).map (p + ·)

variable {b s f : List UInt8} {p k : ℕ}

/-- What is in front of the first NUL, the NUL and what is behind it. -/
theorem exists_cstr_append {l : List UInt8} (h : 0 ∈ l) : ∃ rest, l = cstr l ++ 0 :: rest := by
  induction l with
  | nil => cases h
  | cons c l ih =>
    unfold cstr at ih ⊢
    by_cases hc : c = 0
    · exact ⟨l, by rw [hc]; rfl⟩
    · obtain ⟨rest, hrest⟩ := ih (by simpa [Ne.symm hc] using h)
      refine ⟨rest, ?_⟩
      rw [List.takeWhile_cons_of_pos (by simpa using hc), List.cons_append, ← hrest]

theorem cstr_append_zero (h : 0 ∉ s) (rest : List UInt8) : cstr (s ++ 0 :: rest) = s := by
  have hne : ∀ c ∈ s, decide (c ≠ 0) = true := fun c hc => decide_eq_true fun h0 => h (h0 ▸ hc)
  unfold cstr
  rw [List.takeWhile_append_of_pos hne, List.takeWhile_cons_of_neg (by simp), List.append_nil]

/-- **The text at an offset** is what is in front of a NUL. -/
theorem text_eq_some_iff : text b p = some s ↔ 0 ∉ s ∧ ∃ rest, b.drop p = s ++ 0 :: rest := by
  unfold text
  constructor
  · intro h
    split at h
    · rename_i hmem
      cases h
      exact ⟨zero_not_mem_cstr _, exists_cstr_append hmem⟩
    · cases h
  · rintro ⟨hzero, rest, heq⟩
    rw [heq, if_pos (List.mem_append_right _ List.mem_cons_self), cstr_append_zero hzero]

theorem text_append_zero (h : 0 ∉ s) (rest : List UInt8) : text (s ++ 0 :: rest) 0 = some s :=
  text_eq_some_iff.mpr ⟨h, rest, rfl⟩

/-- Its bytes and the NUL behind it. -/
theorem getElem?_text (h : text b p = some s) {i : ℕ} (hi : i ≤ s.length) :
    b[p + i]? = if i = s.length then some 0 else s[i]? := by
  obtain ⟨-, rest, heq⟩ := text_eq_some_iff.mp h
  rw [← List.getElem?_drop, heq]
  split
  · rename_i hend
    rw [hend, List.getElem?_append_right le_rfl, Nat.sub_self]
    rfl
  · exact List.getElem?_append_left (by omega)

/-- **A text ends at a NUL** behind its start, or before it. -/
theorem text_of_zero (h : b[k]? = some 0) (hp : p ≤ k) : ∃ s, text b p = some s ∧
    p + s.length ≤ k := by
  have hget : (b.drop p)[k - p]? = some 0 := by rwa [List.getElem?_drop, Nat.add_sub_cancel' hp]
  obtain ⟨rest, hrest⟩ := exists_cstr_append (List.mem_of_getElem? hget)
  refine ⟨cstr (b.drop p), text_eq_some_iff.mpr ⟨zero_not_mem_cstr _, rest, hrest⟩, ?_⟩
  by_contra hlong
  rw [hrest, List.getElem?_append_left (by omega)] at hget
  exact zero_not_mem_cstr _ (List.mem_of_getElem? hget)

/-- **A search** finds the first occurrence in the text, if there is one. -/
theorem strstr_eq (h : text b p = some s) :
    strstr b p f = some ((List.firstOccurrence f s).map (p + ·)) := by
  unfold strstr
  rw [h]
  rfl

/-- A text begins its block. -/
theorem prefix_of_text (h : text b 0 = some s) : s <+: b := by
  obtain ⟨-, rest, heq⟩ := text_eq_some_iff.mp h
  exact ⟨0 :: rest, heq.symm⟩

theorem take_of_text {i : ℕ} (h : text b 0 = some s) (hi : i ≤ s.length) :
    b.take i = s.take i := by
  obtain ⟨rest, heq⟩ := prefix_of_text h
  rw [← heq, List.take_append_of_le_length hi]

/-- **Blocks that begin alike**, in front of a NUL, have texts that do. -/
theorem take_text {c t u : List UInt8} {i : ℕ} (ht : text b 0 = some t) (hu : text c 0 = some u)
    (h : c.take i = b.take i)
    (hi : i ≤ t.length) : u.take i = t.take i := by
  have hlong : i ≤ u.length := by
    by_contra hshort
    have hzero := (getElem?_text hu le_rfl).trans (if_pos rfl)
    rw [Nat.zero_add, ← List.getElem?_take_of_lt (Nat.lt_of_not_le hshort), h,
      take_of_text ht hi] at hzero
    exact (text_eq_some_iff.mp ht).1 (List.mem_of_mem_take (List.mem_of_getElem? hzero))
  rw [← take_of_text hu hlong, h, take_of_text ht hi]

/-- A block that is the same up to a NUL has the same text. -/
theorem text_congr {e : List UInt8} {n : ℕ} (h : text b 0 = some s)
    (hsame : ∀ i < n, e[i]? = b[i]?)
    (hle : s.length ≤ n) (hzero : e[n]? = some 0) : text e 0 = some s := by
  obtain ⟨u, hu, hun⟩ := text_of_zero hzero (Nat.zero_le _)
  have htake : ∀ i ≤ n, e.take i = b.take i := fun i hi => List.ext_getElem? fun j => by
    rw [List.getElem?_take, List.getElem?_take]
    split
    · exact hsame j (by omega)
    · rfl
  have hfirst := take_text h hu (htake s.length hle) le_rfl
  have hsecond := take_text hu h (htake u.length (by omega)).symm le_rfl
  have hlength := congrArg List.length hfirst
  have hlength' := congrArg List.length hsecond
  rw [List.length_take, List.length_take] at hlength hlength'
  rw [List.take_of_length_le (by omega), List.take_length] at hfirst
  rw [hu, hfirst]

end Block
