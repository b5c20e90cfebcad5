import Mathlib.Data.List.Basic
import Mathlib.Data.List.Infix
import Mathlib.Order.Nat

/-!
# A search that does not go back

A text that comes one element at a time and cannot be read again is searched by
comparing it with the word from some position on. When the comparison breaks off
behind `k` elements, the search goes on `skip k` positions further: how far is its
rule. The positions at which a comparison begins are those that are **tried**
(`List.Tried`). They depend on the word and the text only, and an occurrence of the
word is found if it is tried; one that begins inside of a comparison that breaks
off is passed over.

A search remembers how many elements it has seen and how many of them agree.
`List.Matching` is what this says, and no tried occurrence has ended in it yet
(`List.Matching.lt_of_ends`). It has two rules, one for an element that agrees and
one for the next try.
-/

namespace List

variable {α : Type*}

/-- **The positions that are tried.** -/
inductive Tried (skip : ℕ → ℕ) (w s : List α) : ℕ → Prop
  | start : Tried skip w s 0
  | next {i k : ℕ} : Tried skip w s i → w.take k <+: s.drop i → ¬ w.take (k + 1) <+: s.drop i →
    Tried skip w s (i + skip k)

/-- A tried occurrence ends here. -/
def Ends (skip : ℕ → ℕ) (w s : List α) (e : ℕ) : Prop :=
  ∃ i, Tried skip w s i ∧ w <+: s.drop i ∧ i + w.length = e

/-- **Behind `j` elements**, of which the last `k` agree with the word. -/
structure Matching (skip : ℕ → ℕ) (w s : List α) (j k : ℕ) : Prop where
  /-- They were seen. -/
  le : k ≤ j
  /-- The word is not complete. -/
  lt : k < w.length
  /-- The comparison began at a tried position. -/
  tried : Tried skip w s (j - k)
  /-- They agree. -/
  part : w.take k <+: s.drop (j - k)
  /-- No tried occurrence is in front of it. -/
  first : ∀ i, Tried skip w s i → w <+: s.drop i → j - k ≤ i

variable {skip : ℕ → ℕ} {w s : List α} {i j k l : ℕ} {x : α}

/-- A shorter part agrees too. -/
theorem take_prefix_drop (h : w.take k <+: s.drop i) (hl : l ≤ k) : w.take l <+: s.drop i :=
  (List.take_prefix_take_left hl).trans h

/-- A comparison breaks off in one place. -/
theorem eq_of_break (hk : w.take k <+: s.drop i) (hk' : ¬ w.take (k + 1) <+: s.drop i)
    (hl : w.take l <+: s.drop i) (hl' : ¬ w.take (l + 1) <+: s.drop i) : k = l := by
  rcases Nat.lt_trichotomy k l with hlt | heq | hgt
  · exact absurd (take_prefix_drop hl hlt) hk'
  · exact heq
  · exact absurd (take_prefix_drop hk hgt) hl'

/-- **The next try** is the next position that is tried. -/
theorem Tried.le_of_break (hskip : ∀ k, 0 < skip k) (hi : Tried skip w s i)
    (hk : w.take k <+: s.drop i) (hk' : ¬ w.take (k + 1) <+: s.drop i) (hj : Tried skip w s j)
    (hlt : i < j) : i + skip k ≤ j := by
  induction j using Nat.strong_induction_on generalizing i k with
  | _ j ih =>
    cases hj with
    | start => cases hlt
    | @next i' k' hi' hl hl' =>
      rcases Nat.lt_trichotomy i' i with hbefore | heq | hbehind
      · -- The try behind `i'` is not behind `i`, which is one.
        have hle := ih i hlt hi' hl hl' hi hbefore
        omega
      · obtain rfl := heq
        rw [eq_of_break hk hk' hl hl']
      · have hpos := hskip k'
        exact (ih i' (by omega) hi hk hk' hi' hbehind).trans (Nat.le_add_right i' (skip k'))

/-- One element more agrees if the next one does. -/
theorem take_succ_prefix_drop (hk : k < w.length) (hpart : w.take k <+: s.drop i)
    (hx : s[i + k]? = some x) : w.take (k + 1) <+: s.drop i ↔ w[k]? = some x := by
  obtain ⟨t, ht⟩ := hpart
  have hlength : (w.take k).length = k := List.length_take_of_le hk.le
  have hhead : t.head? = some x := by
    rw [← hx, ← List.getElem?_drop, ← ht, List.getElem?_append_right hlength.le, hlength,
      Nat.sub_self, List.head?_eq_getElem?]
  rw [← ht, List.take_add_one, List.prefix_append_right_inj, List.getElem?_eq_getElem hk]
  match t with
  | [] => cases hhead
  | y :: t =>
    obtain rfl := Option.some.inj hhead
    simp

namespace Matching

/-- Nothing was seen. -/
theorem nil (hw : w ≠ []) : Matching skip w s 0 0 where
  le := le_rfl
  lt := List.length_pos_iff.mpr hw
  tried := Tried.start
  part := List.nil_prefix
  first _ _ _ := Nat.zero_le _

/-- **No tried occurrence has ended.** -/
theorem lt_of_ends (h : Matching skip w s j k) {e : ℕ} (he : Ends skip w s e) : j < e := by
  obtain ⟨i, htried, hoccurs, rfl⟩ := he
  have hfirst := h.first i htried hoccurs
  have hle := h.le
  have hlt := h.lt
  omega

theorem getElem?_eq (h : Matching skip w s j k) : s[j - k + k]? = s[j]? := by
  rw [Nat.sub_add_cancel h.le]

/-- **An element that agrees.** -/
theorem agree (h : Matching skip w s j k) (hx : s[j]? = some x) (hagree : w[k]? = some x)
    (hmore : k + 1 < w.length) : Matching skip w s (j + 1) (k + 1) where
  le := Nat.succ_le_succ h.le
  lt := hmore
  tried := by
    rw [Nat.add_sub_add_right]
    exact h.tried
  part := by
    rw [Nat.add_sub_add_right]
    exact (take_succ_prefix_drop h.lt h.part (h.getElem?_eq.trans hx)).mpr hagree
  first := by
    rw [Nat.add_sub_add_right]
    exact h.first

/-- **The last element agrees.** -/
theorem ends (h : Matching skip w s j k) (hx : s[j]? = some x) (hagree : w[k]? = some x)
    (hlast : k + 1 = w.length) : Ends skip w s (j + 1) := by
  have hpart := (take_succ_prefix_drop h.lt h.part (h.getElem?_eq.trans hx)).mpr hagree
  rw [hlast, List.take_length] at hpart
  have hle := h.le
  exact ⟨j - k, h.tried, hpart, by omega⟩

/-- **An element that does not agree**: the next try. -/
theorem next (hskip : ∀ k, 0 < skip k) (h : Matching skip w s j k) (hx : s[j]? = some x)
    (hagree : w[k]? ≠ some x) : Matching skip w s (j - k + skip k) 0 where
  le := Nat.zero_le _
  lt := (Nat.zero_le k).trans_lt h.lt
  tried := Tried.next h.tried h.part fun hpart =>
    hagree ((take_succ_prefix_drop h.lt h.part (h.getElem?_eq.trans hx)).mp hpart)
  part := List.nil_prefix
  first := by
    have hbreak : ¬ w.take (k + 1) <+: s.drop (j - k) := fun hpart =>
      hagree ((take_succ_prefix_drop h.lt h.part (h.getElem?_eq.trans hx)).mp hpart)
    intro i hi hoccurs
    have hne : j - k ≠ i := fun heq => hbreak (heq ▸ (List.take_prefix _ _).trans hoccurs)
    exact h.tried.le_of_break hskip h.part hbreak hi (lt_of_le_of_ne (h.first i hi hoccurs) hne)

end Matching

end List
