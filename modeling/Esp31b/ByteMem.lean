import Mathlib.Data.List.Basic
import Mathlib.Tactic.Ring

/-!
# Byte-addressed memories

A memory is a function from addresses to bytes, and a program touches it a
contiguous run at a time: it copies a run out, overlays a run onto a buffer,
or combines a run with what is already there. The three are `ByteMem.slice`,
`List.overlay` and `ByteMem.combineAt`.

`combineAt` takes the operation that combines an old byte with a new one.
A plain store is the operation that keeps the new byte; a store into a
memory whose bits can only be cleared is the bitwise AND. What is needed of
it is the same for every operation: nothing happens outside the run
(`combineAt_of_not_mem`), each byte inside is combined once
(`combineAt_of_mem`), adjacent runs make one run (`combineAt_append`), and a
run padded with bytes that are neutral for the operation is the run without
its padding (`combineAt_pad`).
-/

/-- A byte-addressed memory. -/
abbrev ByteMem : Type := ℕ → UInt8

namespace ByteMem

/-- The `n` bytes at `p`, in address order. -/
def slice (m : ByteMem) (p n : ℕ) : List UInt8 :=
  (List.range n).map (fun i => m (p + i))

@[simp] theorem length_slice (m : ByteMem) (p n : ℕ) : (m.slice p n).length = n := by
  simp [slice]

@[simp] theorem slice_zero (m : ByteMem) (p : ℕ) : m.slice p 0 = [] := rfl

@[simp] theorem getElem_slice (m : ByteMem) (p n i : ℕ) (h : i < (m.slice p n).length) :
    (m.slice p n)[i] = m (p + i) := by
  simp [slice]

/-- Two adjacent runs are one run. -/
theorem slice_append (m : ByteMem) (p n k : ℕ) :
    m.slice p n ++ m.slice (p + n) k = m.slice p (n + k) := by
  simp only [slice, List.range_add, List.map_append, List.map_map]
  congr 1
  refine List.map_congr_left (fun i _ => ?_)
  simp [Nat.add_assoc]

theorem mem_slice {m : ByteMem} {p n i : ℕ} (h : i < n) : m (p + i) ∈ m.slice p n :=
  List.mem_map.mpr ⟨i, List.mem_range.mpr h, rfl⟩

/-- The first byte of a run. -/
theorem slice_succ (m : ByteMem) (p n : ℕ) : m.slice p (n + 1) = m p :: m.slice (p + 1) n := by
  rw [Nat.add_comm, ← slice_append m p 1 n]
  rfl

/-- The start of a run. -/
theorem take_slice {m : ByteMem} {p n k : ℕ} (h : k ≤ n) :
    (m.slice p n).take k = m.slice p k := by
  rw [slice, ← List.map_take, List.take_range, Nat.min_eq_left h]
  rfl

/-- The end of a run. -/
theorem drop_slice {m : ByteMem} {p n k : ℕ} (h : k ≤ n) :
    (m.slice p n).drop k = m.slice (p + k) (n - k) := by
  have happend := m.slice_append p k (n - k)
  rw [Nat.add_sub_cancel' h] at happend
  rw [← happend, List.drop_left' (length_slice m p k)]

/-- **The run `d` combined into the memory at `a`**: each covered byte
becomes `op old new`, every other byte stays. -/
def combineAt (op : UInt8 → UInt8 → UInt8) (m : ByteMem) (a : ℕ) (d : List UInt8) : ByteMem :=
  fun j => if a ≤ j then
      match d[j - a]? with
      | some b => op (m j) b
      | none => m j
    else m j

variable (op : UInt8 → UInt8 → UInt8) (m : ByteMem)

/-- Inside the run the old byte is combined with the run's byte. -/
theorem combineAt_of_mem (a : ℕ) (d : List UInt8) (i : ℕ) (h : i < d.length) :
    m.combineAt op a d (a + i) = op (m (a + i)) d[i] := by
  unfold combineAt
  rw [if_pos (Nat.le_add_right a i), Nat.add_sub_cancel_left, List.getElem?_eq_getElem h]

/-- Outside the run nothing happens. -/
theorem combineAt_of_not_mem (a : ℕ) (d : List UInt8) (j : ℕ)
    (h : j < a ∨ a + d.length ≤ j) : m.combineAt op a d j = m j := by
  unfold combineAt
  split
  · rw [List.getElem?_eq_none (by omega)]
  · rfl

@[simp] theorem combineAt_nil (a : ℕ) : m.combineAt op a [] = m := by
  funext j
  exact combineAt_of_not_mem op m a [] j (by simp; omega)

/-- **Adjacent runs make one run.** -/
theorem combineAt_append (a : ℕ) (d e : List UInt8) :
    (m.combineAt op a d).combineAt op (a + d.length) e = m.combineAt op a (d ++ e) := by
  funext j
  by_cases hlo : j < a
  · rw [combineAt_of_not_mem _ _ _ _ _ (by omega), combineAt_of_not_mem _ _ _ _ _ (by omega),
      combineAt_of_not_mem _ _ _ _ _ (by omega)]
  by_cases hd : j < a + d.length
  · obtain ⟨i, rfl⟩ := Nat.exists_eq_add_of_le (Nat.le_of_not_lt hlo)
    have hi : i < d.length := by omega
    rw [combineAt_of_not_mem _ _ _ _ _ (by omega), combineAt_of_mem _ _ _ _ _ hi,
      combineAt_of_mem _ _ _ _ _ (by simp; omega), List.getElem_append_left hi]
  by_cases he : j < a + d.length + e.length
  · obtain ⟨i, rfl⟩ := Nat.exists_eq_add_of_le (Nat.le_of_not_lt hd)
    have hi : i < e.length := by omega
    rw [combineAt_of_mem _ _ _ _ _ hi, combineAt_of_not_mem _ _ _ _ _ (by omega),
      Nat.add_assoc, combineAt_of_mem _ _ _ _ _ (by simp; omega),
      List.getElem_append_right (by omega)]
    simp
  · rw [combineAt_of_not_mem _ _ _ _ _ (by omega), combineAt_of_not_mem _ _ _ _ _ (by omega),
      combineAt_of_not_mem _ _ _ _ _ (by simp; omega)]

/-- A run of bytes that are neutral for the operation does nothing. -/
theorem combineAt_replicate_neutral {e : UInt8} (he : ∀ b, op b e = b) (a n : ℕ) :
    m.combineAt op a (List.replicate n e) = m := by
  funext j
  by_cases h : a ≤ j ∧ j < a + n
  · obtain ⟨i, rfl⟩ := Nat.exists_eq_add_of_le h.1
    rw [combineAt_of_mem _ _ _ _ _ (by simp; omega), List.getElem_replicate, he]
  · exact combineAt_of_not_mem op m a _ j (by simp; omega)

/-- **Neutral padding on both sides of a run does nothing.** -/
theorem combineAt_pad {e : UInt8} (he : ∀ b, op b e = b) (a k l : ℕ) (d : List UInt8) :
    m.combineAt op a (List.replicate k e ++ d ++ List.replicate l e)
      = m.combineAt op (a + k) d := by
  rw [← combineAt_append, combineAt_replicate_neutral op _ he, ← combineAt_append,
    combineAt_replicate_neutral op _ he, List.length_replicate]

/-- A plain store of a run. -/
def store (m : ByteMem) (a : ℕ) (d : List UInt8) : ByteMem := m.combineAt (fun _ b => b) a d

end ByteMem

/-- **A run copied over a buffer**: the bytes of `d` replace those of `buf`
from index `k` on. -/
def List.overlay (buf : List UInt8) (k : ℕ) (d : List UInt8) : List UInt8 :=
  buf.take k ++ d ++ buf.drop (k + d.length)

/-- Overlaying a run on a constant buffer pads the run on both sides. -/
theorem List.overlay_replicate (n k : ℕ) (e : UInt8) (d : List UInt8) (h : k + d.length ≤ n) :
    (List.replicate n e).overlay k d
      = List.replicate k e ++ d ++ List.replicate (n - (k + d.length)) e := by
  rw [List.overlay, List.take_replicate, List.drop_replicate, Nat.min_eq_left (by omega)]

theorem List.length_overlay {d e : List UInt8} {k : ℕ} (h : k + e.length ≤ d.length) :
    (d.overlay k e).length = d.length := by
  rw [List.overlay, List.length_append, List.length_append, List.length_take, List.length_drop]
  omega

/-- Outside the run that is copied over it a buffer is as it was. -/
theorem List.getElem?_overlay {d e : List UInt8} {k a : ℕ} (h : k + e.length ≤ d.length)
    (ha : a < k ∨ k + e.length ≤ a) : (d.overlay k e)[a]? = d[a]? := by
  rw [List.overlay]
  have htake : (d.take k).length = k := by rw [List.length_take]; omega
  rcases ha with hlt | hge
  · rw [List.append_assoc, List.getElem?_append_left (by omega), List.getElem?_take_of_lt hlt]
  · rw [List.getElem?_append_right (by rw [List.length_append]; omega), List.getElem?_drop,
      List.length_append, htake, Nat.add_sub_cancel' hge]

/-- A run copied behind what was filled fills that much more. -/
theorem List.take_overlay {d e : List UInt8} {k : ℕ} (h : k ≤ d.length) :
    (d.overlay k e).take (k + e.length) = d.take k ++ e := by
  have hlen : (d.take k ++ e).length = k + e.length := by
    rw [List.length_append, List.length_take, Nat.min_eq_left h]
  rw [List.overlay, List.take_left' hlen]

/-- A run copied over a part of a buffer. -/
theorem List.overlay_append {a d b e : List UInt8} {k : ℕ} (h : k + e.length ≤ d.length) :
    (a ++ d ++ b).overlay (a.length + k) e = a ++ d.overlay k e ++ b := by
  have hdrop : (a ++ d ++ b).drop (a.length + k + e.length) = d.drop (k + e.length) ++ b := by
    rw [List.append_assoc, Nat.add_assoc, List.drop_length_add_append,
      List.drop_append_of_le_length h]
  have htake : (a ++ d ++ b).take (a.length + k) = a ++ d.take k := by
    rw [List.append_assoc, List.take_length_add_append,
      List.take_append_of_le_length (by omega)]
  rw [List.overlay, List.overlay, hdrop, htake]
  simp only [List.append_assoc]
