import Mathlib.Data.List.Basic
import Mathlib.Order.Nat

/-!
# Occurrences of one text in another

Texts that are searched from the left find their occurrences one behind the
other, and that is as many as can be had without overlap: whoever takes one
leaves room for at most the others in front of it
(`List.countFrom_take_lt`).

Searched from the right, each occurrence may be replaced before the next one is
looked for. The text that was put in then lies behind what is searched, and an
occurrence can begin in front of it and end in it. `List.crosses` says that one
does, and `List.keepsEdges` that none ever will.
-/

namespace List

variable {α : Type*} [DecidableEq α]

/-- The first occurrence. -/
def firstOccurrence (f : List α) : List α → Option ℕ
  | [] => if f = [] then some 0 else none
  | c :: s => if f.isPrefixOf (c :: s) then some 0 else (firstOccurrence f s).map (· + 1)

/-- The last occurrence in front of a position. -/
def lastOccurrence (f s : List α) : ℕ → Option ℕ
  | 0 => none
  | i + 1 => if f.isPrefixOf (s.drop i) then some i else lastOccurrence f s i

/-- **How many occurrences** are found from the left, the rest of one being
skipped. -/
def countFrom (f : List α) : ℕ → List α → ℕ
  | _, [] => 0
  | skip + 1, _ :: s => countFrom f skip s
  | 0, c :: s => if f.isPrefixOf (c :: s) then countFrom f (f.length - 1) s + 1
      else countFrom f 0 s

/-- **An occurrence can end in `r`**: some of it ends the text `s`, and the rest
begins `r`. -/
def crosses (f r s : List α) : Bool :=
  (List.range f.length).any fun n => n ≠ 0 && (f.take n).isSuffixOf s && (f.drop n).isPrefixOf r

/-- **None does** when the occurrences are replaced by `r` from the right. -/
def keepsEdges (f r : List α) : ℕ → List α → Bool
  | 0, _ => true
  | n + 1, s =>
    match lastOccurrence f s s.length with
    | none => true
    | some i => !crosses f r (s.take i) && keepsEdges f r n (s.take i)

variable {f r s : List α} {i j k n : ℕ}

/-! ## The first one -/

theorem firstOccurrence_some (h : firstOccurrence f s = some i) :
    f <+: s.drop i ∧ ∀ j < i, ¬ f <+: s.drop j := by
  induction s generalizing i with
  | nil =>
    rw [firstOccurrence] at h
    split at h
    · rename_i hf
      cases h
      exact ⟨hf ▸ List.nil_prefix, fun j hj => absurd hj (Nat.not_lt_zero j)⟩
    · cases h
  | cons c s ih =>
    rw [firstOccurrence] at h
    split at h
    · rename_i hprefix
      cases h
      exact ⟨List.isPrefixOf_iff_prefix.mp hprefix, fun j hj => absurd hj (Nat.not_lt_zero j)⟩
    · rename_i hnot
      obtain ⟨k, hk, rfl⟩ := Option.map_eq_some_iff.mp h
      obtain ⟨hfound, hbefore⟩ := ih hk
      refine ⟨hfound, fun j hj => ?_⟩
      cases j with
      | zero => exact fun hprefix => hnot (List.isPrefixOf_iff_prefix.mpr hprefix)
      | succ j => exact hbefore j (by omega)

theorem firstOccurrence_none (h : firstOccurrence f s = none) (j : ℕ) (hj : j ≤ s.length) :
    ¬ f <+: s.drop j := by
  induction s generalizing j with
  | nil =>
    rw [firstOccurrence] at h
    split at h
    · cases h
    · rename_i hf
      rw [List.drop_nil, List.prefix_nil]
      exact hf
  | cons c s ih =>
    rw [firstOccurrence] at h
    split at h
    · cases h
    · rename_i hnot
      cases j with
      | zero => exact fun hprefix => hnot (List.isPrefixOf_iff_prefix.mpr hprefix)
      | succ j => exact ih (Option.map_eq_none_iff.mp h) j (by simpa using hj)

/-- It is the one that has none in front of it. -/
theorem firstOccurrence_eq_some (h : f <+: s.drop i) (hi : i ≤ s.length)
    (hbefore : ∀ j < i, ¬ f <+: s.drop j) :
    firstOccurrence f s = some i := by
  cases hfirst : firstOccurrence f s with
  | none => exact absurd h (firstOccurrence_none hfirst i hi)
  | some q =>
    obtain ⟨hq, hnone⟩ := firstOccurrence_some hfirst
    rcases Nat.lt_trichotomy q i with hlt | rfl | hgt
    · exact absurd hq (hbefore q hlt)
    · rfl
    · exact absurd h (hnone i hgt)

/-! ## How many there are -/

theorem countFrom_skip (skip : ℕ) (s : List α) :
    countFrom f skip s = countFrom f 0 (s.drop skip) := by
  induction s generalizing skip with
  | nil => cases skip <;> rfl
  | cons c s ih =>
    cases skip with
    | zero => rfl
    | succ skip => exact ih skip

/-- **The next one**, and those behind it. -/
theorem countFrom_of_first (hf : f ≠ []) (h : firstOccurrence f s = some i) :
    countFrom f 0 s = countFrom f 0 (s.drop (i + f.length)) + 1 := by
  have hpos := List.length_pos_iff.mpr hf
  induction s generalizing i with
  | nil =>
    rw [firstOccurrence, if_neg hf] at h
    cases h
  | cons c s ih =>
    rw [firstOccurrence] at h
    rw [countFrom]
    split at h
    · rename_i hprefix
      cases h
      rw [if_pos hprefix, countFrom_skip, Nat.zero_add]
      obtain ⟨k, hk⟩ : ∃ k, f.length = k + 1 := ⟨f.length - 1, by omega⟩
      rw [hk]
      rfl
    · rename_i hnot
      obtain ⟨k, hk, rfl⟩ := Option.map_eq_some_iff.mp h
      rw [if_neg hnot, ih hk, Nat.add_right_comm, List.drop_succ_cons]

theorem countFrom_of_none (h : firstOccurrence f s = none) : countFrom f 0 s = 0 := by
  induction s with
  | nil => rfl
  | cons c s ih =>
    rw [firstOccurrence] at h
    split at h
    · cases h
    · rename_i hnot
      rw [countFrom, if_neg hnot]
      exact ih (Option.map_eq_none_iff.mp h)

omit [DecidableEq α] in
/-- An occurrence in the start of a text is one that ends there. -/
theorem prefix_drop_take (hf : f ≠ []) : f <+: (s.take i).drop j ↔ f <+: s.drop j ∧
    j + f.length ≤ i := by
  have hpos := List.length_pos_iff.mpr hf
  rw [List.drop_take, List.prefix_take_iff]
  exact and_congr_right fun _ => by omega

/-- **Whoever takes an occurrence** leaves one less in front of it. -/
theorem countFrom_take_lt (hf : f ≠ []) (h : f <+: s.drop i) (hi : i ≤ s.length) :
    countFrom f 0 (s.take i) + 1 ≤ countFrom f 0 s := by
  have hpos := List.length_pos_iff.mpr hf
  induction hn : s.length using Nat.strong_induction_on generalizing s i with
  | _ n ih =>
    cases hfirst : firstOccurrence f s with
    | none => exact absurd h (firstOccurrence_none hfirst i hi)
    | some q =>
      obtain ⟨hq, hbefore⟩ := firstOccurrence_some hfirst
      have hqi : q ≤ i := by
        by_contra hlt
        exact hbefore i (by omega) h
      rw [countFrom_of_first hf hfirst]
      by_cases hin : q + f.length ≤ i
      · -- the first one lies in front, and what is behind it is a shorter text
        have hfirst' : firstOccurrence f (s.take i) = some q := by
          refine firstOccurrence_eq_some ((prefix_drop_take hf).mpr ⟨hq, hin⟩)
            (by rw [List.length_take]; omega) ?_
          exact fun j hj hprefix => hbefore j hj ((prefix_drop_take hf).mp hprefix).1
        have hrest : f <+: (s.drop (q + f.length)).drop (i - (q + f.length)) := by
          rwa [List.drop_drop, Nat.add_sub_cancel' hin]
        have hless := ih (s.drop (q + f.length)).length (by rw [List.length_drop]; omega) hrest
          (by rw [List.length_drop]; omega) rfl
        rw [countFrom_of_first hf hfirst', List.drop_take]
        omega
      · -- there is none in front that does not reach behind it
        have hnone : firstOccurrence f (s.take i) = none := by
          cases hfirst' : firstOccurrence f (s.take i) with
          | none => rfl
          | some q' =>
            obtain ⟨hq', hle⟩ := (prefix_drop_take hf).mp (firstOccurrence_some hfirst').1
            exact absurd hq' (hbefore q' (by omega))
        rw [countFrom_of_none hnone]
        omega

/-! ## The last one -/

theorem lastOccurrence_some (h : lastOccurrence f s k = some i) :
    i < k ∧ f <+: s.drop i ∧ ∀ j < k, f <+: s.drop j → j ≤ i := by
  induction k with
  | zero => cases h
  | succ k ih =>
    rw [lastOccurrence] at h
    split at h
    · rename_i hprefix
      cases h
      exact ⟨Nat.lt_succ_self _, List.isPrefixOf_iff_prefix.mp hprefix, fun j hj _ =>
        Nat.le_of_lt_succ hj⟩
    · rename_i hnot
      obtain ⟨hi, hfound, hlast⟩ := ih h
      refine ⟨by omega, hfound, fun j hj hprefix => ?_⟩
      rcases Nat.lt_succ_iff_lt_or_eq.mp hj with hlt | rfl
      · exact hlast j hlt hprefix
      · exact absurd (List.isPrefixOf_iff_prefix.mpr hprefix) hnot

theorem lastOccurrence_none (h : lastOccurrence f s k = none) (j : ℕ) (hj : j < k) :
    ¬ f <+: s.drop j := by
  induction k with
  | zero => exact absurd hj (Nat.not_lt_zero j)
  | succ k ih =>
    rw [lastOccurrence] at h
    split at h
    · cases h
    · rename_i hnot
      rcases Nat.lt_succ_iff_lt_or_eq.mp hj with hlt | rfl
      · exact ih h hlt
      · exact fun hprefix => hnot (List.isPrefixOf_iff_prefix.mpr hprefix)

/-- It is the one that has none behind it. -/
theorem lastOccurrence_eq_some (hi : i < k) (h : f <+: s.drop i)
    (hlast : ∀ j < k, f <+: s.drop j → j ≤ i) :
    lastOccurrence f s k = some i := by
  cases hfound : lastOccurrence f s k with
  | none => exact absurd h (lastOccurrence_none hfound i hi)
  | some q =>
    obtain ⟨hq, hprefix, hmax⟩ := lastOccurrence_some hfound
    exact congrArg some (Nat.le_antisymm (hlast q hq hprefix) (hmax i hi h))

/-! ## Edges -/

/-- **No occurrence ends in the text put in**: it would begin in front of it, and
cross its edge. -/
theorem le_of_not_crosses {t : List α} (hcross : crosses f r s = false)
    (hr : f.length ≤ r.length)
    (hj : j < s.length)
    (h : f <+: (s ++ (r ++ t)).drop j) : j + f.length ≤ s.length := by
  by_contra hlong
  have hn : (s.drop j).length = s.length - j := List.length_drop
  rw [List.drop_append_of_le_length hj.le] at h
  obtain ⟨u, hu⟩ := h
  have htake : f.take (s.length - j) = s.drop j := by
    have heq := congrArg (List.take (s.length - j)) hu
    rwa [List.take_append_of_le_length (by omega), ← hn, List.take_left, hn] at heq
  have hdrop : f.drop (s.length - j) ++ u = r ++ t := by
    have heq := congrArg (List.drop (s.length - j)) hu
    rwa [List.drop_append_of_le_length (by omega), ← hn, List.drop_left, hn] at heq
  have hrest : f.drop (s.length - j) <+: r :=
    List.prefix_of_prefix_length_le ⟨u, hdrop⟩ (List.prefix_append r t)
      (by rw [List.length_drop]; omega)
  have htrue : crosses f r s = true := by
    refine List.any_eq_true.mpr ⟨s.length - j, List.mem_range.mpr (by omega), ?_⟩
    rw [htake]
    simp only [Bool.and_eq_true, decide_eq_true_eq, List.isSuffixOf_iff_suffix,
      List.isPrefixOf_iff_prefix]
    exact ⟨⟨by omega, List.drop_suffix j s⟩, hrest⟩
  rw [htrue] at hcross
  cases hcross

/-- **The last one is replaced**, and the text in front of it is like this one. -/
theorem keepsEdges_of_last (hk : keepsEdges f r (k + 1) s = true)
    (h : lastOccurrence f s s.length = some i) :
    crosses f r (s.take i) = false ∧ keepsEdges f r k (s.take i) = true := by
  rw [keepsEdges, h] at hk
  simpa using hk

end List
