import Mathlib.Algebra.GroupWithZero.Nat
import Mathlib.Data.List.Dedup
import Mathlib.Data.List.Sort

/-!
# Increasing numbers and what lies between them

Numbers that increase cut a line into pieces, and `List.increments` are their
lengths. The pieces up to a number add up to it.

The numbers in a list, each once and in increasing order, are
`List.sortedDistinct`.
-/

namespace List

/-! ## Each member once -/

section Distinct

variable {α : Type*} [LinearOrder α] {l : List α} {x : α}

/-- The members in increasing order. -/
def sortedDistinct (l : List α) : List α := (l.insertionSort (· ≤ ·)).dedup

theorem mem_sortedDistinct : x ∈ l.sortedDistinct ↔ x ∈ l :=
  List.mem_dedup.trans (List.mem_insertionSort (· ≤ ·))

theorem length_sortedDistinct_le (l : List α) : l.sortedDistinct.length ≤ l.length :=
  (List.dedup_sublist _).length_le.trans_eq (List.length_insertionSort (· ≤ ·) l)

theorem pairwise_sortedDistinct (l : List α) : l.sortedDistinct.Pairwise (· < ·) := by
  have hsorted : l.sortedDistinct.Pairwise (· ≤ ·) :=
    (List.pairwise_insertionSort (· ≤ ·) l).sublist (List.dedup_sublist _)
  exact (hsorted.and (List.nodup_dedup _)).imp fun h => lt_of_le_of_ne h.1 h.2

end Distinct

/-! ## What lies between -/

variable {l : List ℕ} {prev x y : ℕ}

/-- Each number less the one before it. -/
def increments : ℕ → List ℕ → List ℕ
  | _, [] => []
  | prev, x :: l => (x - prev) :: increments x l

theorem length_increments (prev : ℕ) (l : List ℕ) : (increments prev l).length = l.length := by
  induction l generalizing prev with
  | nil => rfl
  | cons x l ih => exact congrArg Nat.succ (ih x)

/-- The piece between two of them. -/
theorem getElem?_increments (prev : ℕ) {l : List ℕ} {i x y : ℕ} (hx : l[i]? = some x)
    (hy : l[i + 1]? = some y) : (increments prev l)[i + 1]? = some (y - x) := by
  induction l generalizing prev i with
  | nil => cases hx
  | cons z l ih =>
    cases i with
    | zero =>
      cases l with
      | nil => cases hy
      | cons w l =>
        cases hx
        cases hy
        rfl
    | succ i => exact ih z hx hy

/-- The last one. -/
theorem increments_append (prev : ℕ) (l : List ℕ) (y x : ℕ) :
    increments prev (l ++ [y, x]) = increments prev (l ++ [y]) ++ [x - y] := by
  induction l generalizing prev with
  | nil => rfl
  | cons z l ih => exact congrArg _ (ih z)

/-- **They add up to the last number.** -/
theorem sum_increments (h : (prev :: (l ++ [x])).Pairwise (· ≤ ·)) :
    (increments prev (l ++ [x])).sum = x - prev := by
  induction l generalizing prev with
  | nil => exact Nat.add_zero _
  | cons z l ih =>
    obtain ⟨hprev, htail⟩ := List.pairwise_cons.mp h
    have hz := hprev z List.mem_cons_self
    have hx := (List.pairwise_cons.mp htail).1 x (List.mem_append_right _ List.mem_cons_self)
    show (z - prev) + (increments z (l ++ [x])).sum = x - prev
    rw [ih htail]
    omega

end List
