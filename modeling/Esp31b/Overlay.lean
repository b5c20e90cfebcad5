import Esp31b.Block
import Esp31b.ByteMem

/-!
# Lists that are written over

`List.overlay c k d` is the list `c` with `d` written over it from `k` on, and made longer where
`d` reaches behind its end. Where it does not, that is a write into a block
(`Overlay.write_eq_overlay`); at the end, it appends (`Overlay.overlay_length`).

Writes compose as pending writes should: what is written over a part of `d`, or right behind it,
may as well be done to `d` before it is written (`Overlay.overlay_overlay`). There are no gaps,
so `k` is in the list or at its end throughout.
-/

open List (overlay)

namespace Overlay

variable {c d e : List UInt8} {k j : ℕ}

theorem length_overlay (d : List UInt8) (h : k ≤ c.length) :
    (overlay c k d).length = max c.length (k + d.length) := by
  unfold overlay
  rw [List.length_append, List.length_append, List.length_take, List.length_drop]
  omega

/-- What is found at each place. -/
theorem getElem?_overlay (d : List UInt8) (h : k ≤ c.length) (i : ℕ) :
    (overlay c k d)[i]? = if k ≤ i ∧ i < k + d.length then d[i - k]? else (c)[i]? := by
  have htake : (c.take k).length = k := by
    rw [List.length_take]
    omega
  unfold overlay
  rcases Nat.lt_or_ge i k with hlt | hge
  · rw [if_neg (by omega), List.append_assoc, List.getElem?_append_left (by omega),
      List.getElem?_take_of_lt hlt]
  · rcases Nat.lt_or_ge i (k + d.length) with hin | hout
    · rw [if_pos ⟨hge, hin⟩, List.append_assoc, List.getElem?_append_right (by omega), htake,
        List.getElem?_append_left (by omega)]
    · rw [if_neg (by omega), List.getElem?_append_right (by rw [List.length_append]; omega),
        List.getElem?_drop, List.length_append, htake]
      congr 1
      omega

theorem overlay_nil (c : List UInt8) (k : ℕ) : overlay c k [] = c := by
  unfold overlay
  rw [List.append_nil, List.length_nil, Nat.add_zero, List.take_append_drop]

/-- At the end, it appends. -/
theorem overlay_length (c d : List UInt8) : overlay c c.length d = c ++ d := by
  unfold overlay
  rw [List.take_length, List.drop_eq_nil_of_le (Nat.le_add_right _ _), List.append_nil]

/-- In a block, it is a write. -/
theorem write_eq_overlay (h : k + d.length ≤ c.length) :
    Block.write c k d = some (overlay c k d) :=
  Block.write_eq h

/-- **Writes compose**: what is written over a part of `d`, or right behind it. -/
theorem overlay_overlay (e : List UInt8) (hk : k ≤ c.length) (hj : j ≤ d.length) :
    overlay (overlay c k d) (k + j) e = overlay c k (overlay d j e) := by
  have hlen := length_overlay d hk
  have hlen' := length_overlay e hj
  refine List.ext_getElem? fun i => ?_
  rw [getElem?_overlay e (by omega), getElem?_overlay d hk, getElem?_overlay (overlay d j e) hk,
    hlen']
  by_cases hnew : k + j ≤ i ∧ i < k + j + e.length
  · rw [if_pos hnew, if_pos (by omega), getElem?_overlay e hj, if_pos (by omega)]
    congr 1
    omega
  · rw [if_neg hnew]
    by_cases hold : k ≤ i ∧ i < k + d.length
    · rw [if_pos hold, if_pos (by omega), getElem?_overlay e hj, if_neg (by omega)]
    · rw [if_neg hold, if_neg (by omega)]

/-- The first part and the rest are written one after the other. -/
theorem overlay_append (d e : List UInt8) (h : k ≤ c.length) :
    overlay c k (d ++ e) = overlay (overlay c k d) (k + d.length) e := by
  rw [overlay_overlay e h (Nat.le_refl _), overlay_length]

/-- **A write may be done twice.** -/
theorem overlay_overlay_self (d : List UInt8) (h : k ≤ c.length) :
    overlay (overlay c k d) k d = overlay c k d := by
  have hself : overlay d 0 d = d := by
    unfold overlay
    rw [List.take_zero, List.nil_append, Nat.zero_add, List.drop_length, List.append_nil]
  have htwice := overlay_overlay (j := 0) d h (Nat.zero_le d.length)
  rwa [Nat.add_zero, hself] at htwice

/-- A start of a block, that a write makes longer. -/
theorem take_overlay (d : List UInt8) {n : ℕ} (hj : j ≤ n) (hn : n ≤ c.length) :
    (overlay c j d).take (max n (j + d.length)) = overlay (c.take n) j d := by
  have htake : (c.take n).length = n := by
    rw [List.length_take]
    omega
  refine List.ext_getElem? fun i => ?_
  rw [List.getElem?_take, getElem?_overlay d (by omega), getElem?_overlay d (by omega),
    List.getElem?_take]
  by_cases hin : j ≤ i ∧ i < j + d.length
  · rw [if_pos hin, if_pos (by omega), if_pos hin]
  · rw [if_neg hin, if_neg hin]
    by_cases hi : i < n
    · rw [if_pos hi, if_pos (by omega)]
    · rw [if_neg hi]
      split
      · omega
      · rfl

end Overlay
