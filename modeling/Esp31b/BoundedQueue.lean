import Mathlib.Logic.Function.Iterate
import Mathlib.Data.List.Basic

/-!
# Bounded queues

A queue of limited length, first in first out. Elements that do not fit are not
taken, and of an operation on several elements as much is done as can be: it is
the operation on one element, so many times (`BoundedQueue.pushAll_eq_foldl`,
`BoundedQueue.drop_eq_iterate`).
-/

/-- **A queue** of at most `capacity` elements, the next one to leave first. -/
structure BoundedQueue (α : Type*) (capacity : ℕ) where
  items : List α
  fits : items.length ≤ capacity

namespace BoundedQueue

variable {α : Type*} {capacity : ℕ}

/-- Nothing is queued. -/
def empty : BoundedQueue α capacity := ⟨[], Nat.zero_le _⟩

/-- How much more fits. -/
def room (q : BoundedQueue α capacity) : ℕ := capacity - q.items.length

/-- As many elements as fit are appended. -/
def pushAll (q : BoundedQueue α capacity) (src : List α) : BoundedQueue α capacity where
  items := q.items ++ src.take q.room
  fits := by
    have hfits := q.fits
    rw [List.length_append, List.length_take, room]
    omega

/-- One element is appended, if it fits. -/
def push (q : BoundedQueue α capacity) (x : α) : BoundedQueue α capacity := q.pushAll [x]

/-- The first `n` elements leave, or all of them. -/
def drop (q : BoundedQueue α capacity) (n : ℕ) : BoundedQueue α capacity where
  items := q.items.drop n
  fits := Nat.le_trans (by simp) q.fits

/-- The first element leaves, if there is one. -/
def pop (q : BoundedQueue α capacity) : BoundedQueue α capacity := q.drop 1

variable {q r : BoundedQueue α capacity}

@[ext] theorem ext (h : q.items = r.items) : q = r := by
  cases q
  cases r
  cases h
  rfl

@[simp] theorem items_empty : (empty : BoundedQueue α capacity).items = [] := rfl

@[simp] theorem items_pushAll (q : BoundedQueue α capacity) (src : List α) :
    (q.pushAll src).items = q.items ++ src.take q.room := rfl

@[simp] theorem items_drop (q : BoundedQueue α capacity) (n : ℕ) : (q.drop n).items =
  q.items.drop n := rfl

/-- **Several elements are appended one by one.** -/
theorem pushAll_eq_foldl (q : BoundedQueue α capacity) (src : List α) :
    q.pushAll src = src.foldl push q := by
  induction src generalizing q with
  | nil => exact ext (by simp)
  | cons x src ih =>
    rw [List.foldl_cons, ← ih]
    refine ext ?_
    have hfits := q.fits
    simp only [items_pushAll, push, room, List.length_append,
      List.length_take, List.length_cons, List.length_nil]
    rcases Nat.eq_zero_or_pos (capacity - q.items.length) with hfull | hroom
    · simp [hfull]
    · obtain ⟨k, hk⟩ : ∃ k, capacity - q.items.length = k + 1 :=
        ⟨capacity - q.items.length - 1, by omega⟩
      rw [hk, show capacity - (q.items.length + min (k + 1) (0 + 1)) = k by omega]
      simp

/-- **Several elements leave one by one.** -/
theorem drop_eq_iterate (q : BoundedQueue α capacity) (n : ℕ) : q.drop n = pop^[n] q := by
  induction n generalizing q with
  | zero => exact ext (by simp)
  | succ n ih =>
    rw [Function.iterate_succ_apply, ← ih]
    refine ext ?_
    simp [pop]

end BoundedQueue
