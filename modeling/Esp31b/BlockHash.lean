import Mathlib.Data.List.Basic

/-!
# Hashing block by block

A hash function of the usual kind takes a text a block at a time: a state, and a function that
takes a block into it. A text that comes in pieces leaves a rest of less than a block behind
every piece, which waits for the next one. `BlockHash.absorb` is what becomes of a text, the
state and the rest, and `BlockHash.absorb_append` says that pieces make no difference.
-/

namespace BlockHash

variable {σ α : Type*} {n : ℕ} {f : σ → List α → σ}

/-- **The whole blocks of a text are taken**: the state behind them, and the rest. -/
def absorb (n : ℕ) (f : σ → List α → σ) (s : σ) (l : List α) : σ × List α :=
  if 0 < n ∧ n ≤ l.length then absorb n f (f s (l.take n)) (l.drop n) else (s, l)
  termination_by l.length
  decreasing_by
    rw [List.length_drop]
    omega

/-- Less than a block waits. -/
theorem absorb_of_lt {s : σ} {l : List α} (h : l.length < n) : absorb n f s l = (s, l) := by
  rw [absorb, if_neg (by omega)]

/-- A block is taken. -/
theorem absorb_of_le {s : σ} {l : List α} (hn : 0 < n) (h : n ≤ l.length) :
    absorb n f s l = absorb n f (f s (l.take n)) (l.drop n) := by
  rw [absorb, if_pos ⟨hn, h⟩]

/-- **Pieces make no difference.** -/
theorem absorb_append (hn : 0 < n) (s : σ) (l m : List α) :
    absorb n f s (l ++ m) = absorb n f (absorb n f s l).1 ((absorb n f s l).2 ++ m) := by
  fun_induction absorb n f s l with
  | case1 s l h ih =>
    have happend : n ≤ (l ++ m).length := by
      rw [List.length_append]
      omega
    rw [absorb_of_le hn happend, List.take_append_of_le_length h.2,
      List.drop_append_of_le_length h.2, ih]
  | case2 s l h => rfl

/-- **How much waits.** -/
theorem length_absorb (hn : 0 < n) (s : σ) (l : List α) :
    (absorb n f s l).2.length = l.length % n := by
  fun_induction absorb n f s l with
  | case1 s l h ih => rw [ih, List.length_drop, ← Nat.mod_eq_sub_mod h.2]
  | case2 s l h => exact (Nat.mod_eq_of_lt (Nat.lt_of_not_le fun hle => h ⟨hn, hle⟩)).symm

end BlockHash
