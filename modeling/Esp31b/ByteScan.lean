import Esp31b.ByteMem

/-!
# Loops over a run of bytes

A loop reads one byte a turn, at most so many of them, and each turn either
ends it with a result or goes on with a new state. What such a loop returns
is a fold over the run that may end early (`ByteMem.scan_eq`), and bytes
behind the one at which it ends have no part in it
(`ByteMem.foldUntil_slice_congr`).
-/

namespace ByteMem

variable {σ β : Type}

/-- A loop that reads through `read`, `size` bytes from `p` on unless a turn
ends it; `out` is the result when none does. -/
def scan (read : ℕ → Option UInt8) (turn : σ → UInt8 → β ⊕ σ) (out : σ → β) :
    ℕ → ℕ → σ → Option β
  | 0, _, s => some (out s)
  | size + 1, p, s =>
    match read p with
    | none => none
    | some ch =>
      match turn s ch with
      | .inl result => some result
      | .inr s => scan read turn out size (p + 1) s

/-- **The fold over a run that may end early.** -/
def foldUntil (turn : σ → UInt8 → β ⊕ σ) (out : σ → β) : σ → List UInt8 → β
  | s, [] => out s
  | s, ch :: bs =>
    match turn s ch with
    | .inl result => result
    | .inr s => foldUntil turn out s bs

variable {m m' : ByteMem} {read : ℕ → Option UInt8} {turn : σ → UInt8 → β ⊕ σ} {out : σ → β}

theorem foldUntil_of_inl {s : σ} {ch : UInt8} {result : β} (h : turn s ch = .inl result)
    (bs : List UInt8) : foldUntil turn out s (ch :: bs) = result := by
  simp only [foldUntil, h]

theorem foldUntil_of_inr {s s' : σ} {ch : UInt8} (h : turn s ch = .inr s') (bs : List UInt8) :
    foldUntil turn out s (ch :: bs) = foldUntil turn out s' bs := by
  simp only [foldUntil, h]

/-- **A loop over a readable memory is the fold over the run.** -/
theorem scan_eq (hread : ∀ a, read a = some (m a)) (size p : ℕ) (s : σ) :
    scan read turn out size p s = some (foldUntil turn out s (m.slice p size)) := by
  induction size generalizing p s with
  | zero => rfl
  | succ size ih =>
    rw [slice_succ, scan]
    simp only [hread]
    cases hturn : turn s (m p) with
    | inl result => rw [foldUntil_of_inl hturn]
    | inr s' =>
      rw [foldUntil_of_inr hturn]
      exact ih (p + 1) s'

/-- The two memories agree on the run up to the byte that ends the loop, the
first that does not go on. -/
def SameUntil (goesOn : ℕ → UInt8 → Prop) (m m' : ByteMem) (p size : ℕ) : Prop :=
  ∀ i < size, (∀ j < i, goesOn j (m (p + j))) → m' (p + i) = m (p + i)

/-- The rest of a run behind a byte with which the loop goes on. -/
theorem SameUntil.tail {goesOn : ℕ → UInt8 → Prop} {p size : ℕ}
    (h : SameUntil goesOn m m' p (size + 1)) (h₀ : goesOn 0 (m p)) :
    SameUntil (fun j => goesOn (j + 1)) m m' (p + 1) size := by
  intro i hi hbefore
  have hsame := h (i + 1) (Nat.succ_lt_succ hi) ?_
  · rwa [Nat.add_assoc, Nat.add_comm 1 i]
  · intro j hj
    cases j with
    | zero => exact h₀
    | succ j =>
      have hgo := hbefore j (Nat.lt_of_succ_lt_succ hj)
      rwa [Nat.add_assoc, Nat.add_comm 1 j] at hgo

/-- **Bytes behind the one that ends the loop do not matter.** `inv` is what is
known of the state before each turn. -/
theorem foldUntil_slice_congr {goesOn : ℕ → UInt8 → Prop} {inv : ℕ → σ → Prop}
    (hturn : ∀ i s ch s', inv i s → turn s ch = .inr s' → goesOn i ch ∧ inv (i + 1) s')
    {p size : ℕ} {s : σ} (hs : inv 0 s) (hsame : SameUntil goesOn m m' p size) :
    foldUntil turn out s (m'.slice p size) = foldUntil turn out s (m.slice p size) := by
  induction size generalizing p s goesOn inv with
  | zero => rfl
  | succ size ih =>
    have hfirst : m' p = m p :=
      hsame 0 (Nat.succ_pos size) fun j hj => absurd hj (Nat.not_lt_zero j)
    rw [slice_succ, slice_succ, hfirst]
    cases hch : turn s (m p) with
    | inl result => rw [foldUntil_of_inl hch, foldUntil_of_inl hch]
    | inr s' =>
      obtain ⟨hgo, hs'⟩ := hturn 0 s (m p) s' hs hch
      rw [foldUntil_of_inr hch, foldUntil_of_inr hch]
      exact ih (fun i => hturn (i + 1)) hs' (hsame.tail hgo)

end ByteMem
