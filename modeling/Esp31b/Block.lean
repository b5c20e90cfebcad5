import Mathlib.Algebra.GroupWithZero.Nat
import Mathlib.Data.List.Basic

/-!
# Blocks of memory

A block that was allocated is the list of its elements, and an access goes to
a run of it. What lies behind a block is not known, so an access that leaves it
has no result: a program that stays inside its blocks is one that has a result.

What a write does is said of the element at each index (`Block.getElem?_write`),
and of a block that is known in parts (`Block.write_append`).
-/

namespace Block

variable {α : Type*}

/-- The `n` elements at `p`. -/
def read (b : List α) (p n : ℕ) : Option (List α) :=
  if p + n ≤ b.length then some ((b.drop p).take n) else none

/-- The elements at `p` become those of `d`. -/
def write (b : List α) (p : ℕ) (d : List α) : Option (List α) :=
  if p + d.length ≤ b.length then some (b.take p ++ d ++ b.drop (p + d.length)) else none

/-- One element becomes another one. -/
def set (b : List α) (p : ℕ) (x : α) : Option (List α) :=
  if p < b.length then some (List.set b p x) else none

variable {b c d e : List α} {p n : ℕ}

theorem read_eq (h : p + n ≤ b.length) : read b p n = some ((b.drop p).take n) := if_pos h

theorem write_eq (h : p + d.length ≤ b.length) :
    write b p d = some (b.take p ++ d ++ b.drop (p + d.length)) := if_pos h

/-- **A read inside** has a result. -/
theorem read_isSome : (read b p n).isSome = true ↔ p + n ≤ b.length := by
  unfold read
  split <;> simp [*]

/-- **A write inside** has a result. -/
theorem write_isSome : (write b p d).isSome = true ↔ p + d.length ≤ b.length := by
  unfold write
  split <;> simp [*]

/-- The start of a part is read. -/
theorem read_append (b₁ b₂ : List α) {n : ℕ} (h : n ≤ d.length) :
    read (b₁ ++ d ++ b₂) b₁.length n = some (d.take n) := by
  rw [read_eq (by simp; omega), List.append_assoc, List.drop_left,
    List.take_append_of_le_length h]

/-- The start of a part is written. -/
theorem write_append (b₁ b₂ : List α) {c d : List α} (h : d.length ≤ c.length) :
    write (b₁ ++ c ++ b₂) b₁.length d = some (b₁ ++ (d ++ c.drop d.length) ++ b₂) := by
  have hdrop : (b₁ ++ c ++ b₂).drop (b₁.length + d.length) = c.drop d.length ++ b₂ := by
    rw [List.append_assoc, List.drop_length_add_append, List.drop_append_of_le_length h]
  rw [write_eq (by simp; omega), hdrop, List.append_assoc b₁ c, List.take_left]
  simp

/-- **One element**, between what is in front of it and what is behind it. -/
theorem set_append (b₁ b₂ : List α) (x y : α) :
    set (b₁ ++ x :: b₂) b₁.length y = some (b₁ ++ y :: b₂) := by
  unfold set
  rw [if_pos (by rw [List.length_append, List.length_cons]; omega),
    List.set_append_right _ _ (Nat.le_refl _), Nat.sub_self]
  rfl

theorem getElem?_append (b₁ b₂ : List α) (x : α) : (b₁ ++ x :: b₂)[b₁.length]? = some x := by
  rw [List.getElem?_append_right (Nat.le_refl _), Nat.sub_self]
  rfl

/-- The elements up to the one that was set. -/
theorem take_of_set {x : α} (h : set b p x = some c) : c.take (p + 1) = b.take p ++ [x] := by
  unfold set at h
  split at h
  · rename_i hp
    cases h
    rw [List.set_eq_take_append_cons_drop, if_pos hp, List.take_append, List.take_take,
      Nat.min_eq_right (by omega),
      List.length_take, Nat.min_eq_left (by omega), Nat.add_sub_cancel_left]
    rfl
  · cases h

/-- What is behind it stays. -/
theorem drop_of_set {x : α} (h : set b p x = some c) (hn : p < n) : c.drop n = b.drop n := by
  unfold set at h
  split at h
  · cases h
    exact List.drop_set_of_lt hn
  · cases h

theorem length_of_set {x : α} (h : set b p x = some c) : c.length = b.length := by
  unfold set at h
  split at h
  · cases h
    exact List.length_set
  · cases h

/-- A write of one element. -/
theorem write_singleton (b : List α) (p : ℕ) (x : α) : write b p [x] = set b p x := by
  unfold write set
  by_cases hp : p < b.length
  · rw [if_pos (show p + [x].length ≤ b.length from hp), if_pos hp,
      List.set_eq_take_append_cons_drop, if_pos hp, List.append_assoc]
    rfl
  · rw [if_neg (show ¬ p + [x].length ≤ b.length from hp), if_neg hp]

/-- A write is one of its first element, and of the others behind it. -/
theorem write_cons (b d : List α) (p : ℕ) (x : α) :
    write b p (x :: d) = (set b p x).bind fun b => write b (p + 1) d := by
  cases hset : set b p x with
  | none =>
    have hp : ¬ p < b.length := by
      intro hp
      rw [set, if_pos hp] at hset
      cases hset
    exact if_neg (by rw [List.length_cons]; omega)
  | some b' =>
    have htake := take_of_set hset
    have hdrop := drop_of_set hset (show p < p + 1 + d.length by omega)
    unfold write
    rw [Option.bind_some, length_of_set hset, List.length_cons, htake, hdrop,
      show p + (d.length + 1) = p + 1 + d.length by omega, List.append_assoc (b.take p) [x] d]
    rfl

/-- A write leaves a block of the same size. -/
theorem length_of_write (h : write b p d = some c) : c.length = b.length := by
  unfold write at h
  split at h
  · cases h
    simp only [List.length_append, List.length_take, List.length_drop]
    omega
  · cases h

/-- **What is where** after a write. -/
theorem getElem?_write (h : write b p d = some e) (i : ℕ) :
    e[i]? = if p ≤ i ∧ i < p + d.length then d[i - p]? else b[i]? := by
  unfold write at h
  split at h
  · rename_i hfits
    cases h
    have htake : (b.take p).length = p := by rw [List.length_take]; omega
    split
    · rename_i hin
      rw [List.append_assoc, List.getElem?_append_right (by omega), htake,
        List.getElem?_append_left (by omega)]
    · rename_i hout
      by_cases hlt : i < p
      · rw [List.append_assoc, List.getElem?_append_left (by omega),
          List.getElem?_take_of_lt hlt]
      · rw [List.getElem?_append_right (by rw [List.length_append]; omega), List.getElem?_drop,
          List.length_append,
          htake, Nat.add_sub_cancel' (by omega)]
  · cases h

/-- What is behind it stays. -/
theorem drop_of_write (h : write b p d = some c) (hn : p + d.length ≤ n) :
    c.drop n = b.drop n := by
  refine List.ext_getElem? fun i => ?_
  rw [List.getElem?_drop, List.getElem?_drop, getElem?_write h, if_neg (by omega)]

/-- **Up to its end**, there are what is in front of it and what was written. -/
theorem take_add_of_write (h : write b p d = some c) :
    c.take (p + d.length) = b.take p ++ d := by
  unfold write at h
  split at h
  · cases h
    refine List.take_left' ?_
    rw [List.length_append, List.length_take]
    omega
  · cases h

/-- What is in front of it stays. -/
theorem take_of_write (h : write b p d = some c) (hn : n ≤ p) : c.take n = b.take n := by
  refine List.ext_getElem? fun i => ?_
  rw [List.getElem?_take, List.getElem?_take]
  split
  · rw [getElem?_write h, if_neg (by omega)]
  · rfl

end Block
