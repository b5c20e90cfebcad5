import Mathlib.Data.List.Infix
import Esp31b.Occurrences

/-!
# Replacing every occurrence

A text is cut at the occurrences that are found from the left (`List.cut`), and what is
cut out is replaced by joining the pieces with something else.

Searched from the right, where each occurrence is replaced before the next one is looked
for (`List.replaceBack`), the replacements lie elsewhere if an occurrence overlaps the one
that is found from the left, or ends in what was put in. `List.Settled` says of the pieces
that neither happens. For a longer text that is all there is to it
(`List.replaceBack_eq_iff`): from the right there are at least as many occurrences, so
that a text of the right length has as many, and none of them is further to the left; and
if the first of them were further to the right, the text put in would have a period by
which the first occurrence is still there to be found.

`List.OneEach` says of the pieces that there are as many from the right as from the left
(`List.countBack_le_iff`): each occurrence that is found from the left has one that is
found from the right and begins in it, and that is all.
-/

namespace List

variable {α : Type*} [DecidableEq α]

/-- **The pieces** between the occurrences that are found from the left, the rest of one
being skipped. -/
def cut (f : List α) : ℕ → List α → List (List α)
  | _, [] => [[]]
  | skip + 1, _ :: s => cut f skip s
  | 0, c :: s =>
    if f.isPrefixOf (c :: s) then [] :: cut f (f.length - 1) s
    else (cut f 0 s).modifyHead (c :: ·)

/-- **From the right**: below an index, the last occurrence and the `m` elements from there
on become `r`, before the next one is looked for. -/
def replaceBack (f r : List α) (m : ℕ) : ℕ → List α → List α
  | 0, s => s
  | k + 1, s =>
    if f.isPrefixOf (s.drop k) then replaceBack f r m k (s.take k ++ (r ++ s.drop (k + m)))
    else replaceBack f r m k s

/-- How many are replaced then. -/
def countBack (f r : List α) (m : ℕ) : ℕ → List α → ℕ
  | 0, _ => 0
  | k + 1, s =>
    if f.isPrefixOf (s.drop k) then countBack f r m k (s.take k ++ (r ++ s.drop (k + m))) + 1
    else countBack f r m k s

/-- **Where both ways agree.** No occurrence begins in a piece and ends in what is put in
behind it, and none overlaps the one in front of a piece. -/
def Settled (f r : List α) : List (List α) → Prop
  | g :: h :: gs =>
    (∀ j < g.length, ¬ f <+: (g ++ r).drop j) ∧
      (∀ j < f.length, 0 < j → ¬ f <+: (f ++ (h ++ if gs = [] then [] else r)).drop j) ∧
      Settled f r (h :: gs)
  | _ => True

/-- **One from the right for each from the left**, with the start of what becomes of the
pieces. Of the occurrences that begin in the one that is found from the left the last one
is at `d`; when it is replaced, none begins in front of it any more. -/
inductive OneEach (f r : List α) : List (List α) → List α → Prop
  | last (g : List α) : OneEach f r [g] g
  | cons {g h : List α} {gs : List (List α)} {t : List α} {d : ℕ}
      (rest : OneEach f r (h :: gs) t)
      (inside : d < f.length) (occurs : f <+: (f ++ t).drop d)
      (behind : ∀ e < f.length, d < e → ¬ f <+: (f ++ t).drop e)
      (front : ∀ e < g.length + d, ¬ f <+: (g ++ (f.take d ++ r)).drop e) :
      OneEach f r (g :: h :: gs) (g ++ (f.take d ++ r))

instance decidableSettled (f r : List α) : (gs : List (List α)) → Decidable (Settled f r gs)
  | [] => inferInstanceAs (Decidable True)
  | [_] => inferInstanceAs (Decidable True)
  | _ :: h :: gs =>
    have := decidableSettled f r (h :: gs)
    inferInstanceAs (Decidable (_ ∧ _ ∧ _))

variable {f r s : List α} {i j k m : ℕ}

/-! ## From the left -/

/-- **Induction over the occurrences** that are found from the left. -/
theorem first_induction {P : List α → Prop} (hf : f ≠ [])
    (hnone : ∀ s, firstOccurrence f s = none → P s)
    (hsome : ∀ g s, firstOccurrence f (g ++ (f ++ s)) = some g.length → P s → P (g ++ (f ++ s)))
    (s : List α) : P s := by
  induction hn : s.length using Nat.strong_induction_on generalizing s with
  | _ n ih =>
    cases hfirst : firstOccurrence f s with
    | none => exact hnone s hfirst
    | some i =>
      obtain ⟨⟨rest, hrest⟩, -⟩ := firstOccurrence_some hfirst
      have hpos := List.length_pos_iff.mpr hf
      have hlen := congrArg List.length hrest
      rw [List.length_append, List.length_drop] at hlen
      have hi : (s.take i).length = i := by
        rw [List.length_take]
        omega
      have heq : s = s.take i ++ (f ++ rest) := by rw [hrest, List.take_append_drop]
      rw [heq]
      refine hsome (s.take i) rest ?_ (ih rest.length (by omega) rest rfl)
      rw [← heq, hfirst, hi]

theorem cut_skip (skip : ℕ) (s : List α) : cut f skip s = cut f 0 (s.drop skip) := by
  induction s generalizing skip with
  | nil => cases skip <;> rfl
  | cons c s ih =>
    cases skip with
    | zero => rfl
    | succ skip => exact ih skip

theorem cut_of_none (h : firstOccurrence f s = none) : cut f 0 s = [s] := by
  induction s with
  | nil => rfl
  | cons c s ih =>
    rw [firstOccurrence] at h
    split at h
    · cases h
    · rename_i hnot
      rw [cut, if_neg hnot, ih (Option.map_eq_none_iff.mp h)]
      rfl

/-- **The first piece** ends where the first occurrence begins. -/
theorem cut_of_first (hf : f ≠ []) (h : firstOccurrence f s = some i) :
    cut f 0 s = s.take i :: cut f 0 (s.drop (i + f.length)) := by
  have hpos := List.length_pos_iff.mpr hf
  induction s generalizing i with
  | nil =>
    rw [firstOccurrence, if_neg hf] at h
    cases h
  | cons c s ih =>
    rw [firstOccurrence] at h
    rw [cut]
    split at h
    · rename_i hprefix
      cases h
      obtain ⟨n, hn⟩ : ∃ n, f.length = n + 1 := ⟨f.length - 1, by omega⟩
      rw [if_pos hprefix, cut_skip, Nat.zero_add, hn]
      rfl
    · rename_i hnot
      obtain ⟨n, hn, rfl⟩ := Option.map_eq_some_iff.mp h
      rw [if_neg hnot, ih hn, Nat.add_right_comm, List.drop_succ_cons]
      rfl

theorem cut_append (hf : f ≠ []) {g : List α}
    (h : firstOccurrence f (g ++ (f ++ s)) = some g.length) :
    cut f 0 (g ++ (f ++ s)) = g :: cut f 0 s := by
  rw [cut_of_first hf h, List.take_left, ← List.drop_drop, List.drop_left, List.drop_left]

theorem countFrom_append (hf : f ≠ []) {g : List α}
    (h : firstOccurrence f (g ++ (f ++ s)) = some g.length) :
    countFrom f 0 (g ++ (f ++ s)) = countFrom f 0 s + 1 := by
  rw [countFrom_of_first hf h, ← List.drop_drop, List.drop_left, List.drop_left]

/-- There are some, or none is found. -/
theorem countFrom_eq_zero_iff (hf : f ≠ []) :
    countFrom f 0 s = 0 ↔ firstOccurrence f s = none := by
  refine ⟨fun hzero => ?_, countFrom_of_none⟩
  cases hfirst : firstOccurrence f s with
  | none => rfl
  | some i =>
    rw [countFrom_of_first hf hfirst] at hzero
    cases hzero

theorem cut_eq_cons (hf : f ≠ []) (s : List α) : ∃ h gs, cut f 0 s = h :: gs := by
  cases hfirst : firstOccurrence f s with
  | none => exact ⟨s, [], cut_of_none hfirst⟩
  | some i => exact ⟨_, _, cut_of_first hf hfirst⟩

/-- **The length** of what is joined again. -/
theorem length_intercalate_cut (hf : f ≠ []) (hle : f.length ≤ r.length) (s : List α) :
    (intercalate r (cut f 0 s)).length =
      s.length + (r.length - f.length) * countFrom f 0 s := by
  induction s using first_induction hf with
  | hnone s hnone =>
    rw [cut_of_none hnone, List.intercalate_singleton, countFrom_of_none hnone]
    omega
  | hsome g s hfirst ih =>
    obtain ⟨h, gs, hcut⟩ := cut_eq_cons hf s
    rw [hcut] at ih
    rw [cut_append hf hfirst, countFrom_append hf hfirst, hcut, List.intercalate_cons_cons,
      Nat.mul_succ]
    simp only [List.length_append, ih]
    omega

/-- Nothing else comes in. -/
theorem mem_intercalate_cut (hf : f ≠ []) {x : α} (s : List α)
    (h : x ∈ intercalate r (cut f 0 s)) : x ∈ s ∨ x ∈ r := by
  induction s using first_induction hf with
  | hnone s hnone =>
    rw [cut_of_none hnone, List.intercalate_singleton] at h
    exact Or.inl h
  | hsome g s hfirst ih =>
    obtain ⟨p, gs, hcut⟩ := cut_eq_cons hf s
    rw [cut_append hf hfirst, hcut, List.intercalate_cons_cons, ← hcut, List.append_assoc,
      List.mem_append, List.mem_append] at h
    rcases h with hg | hr | hrest
    · exact Or.inl (List.mem_append_left _ hg)
    · exact Or.inr hr
    · exact (ih hrest).imp_left fun hs =>
        List.mem_append_right _ (List.mem_append_right _ hs)

/-! ## From the right -/

theorem lastOccurrence_congr {t : List α} (h : ∀ j < k, f <+: s.drop j ↔ f <+: t.drop j) :
    lastOccurrence f s k = lastOccurrence f t k := by
  induction k with
  | zero => rfl
  | succ k ih =>
    have hsame : (f.isPrefixOf (s.drop k) = true) = (f.isPrefixOf (t.drop k) = true) :=
      propext (List.isPrefixOf_iff_prefix.trans ((h k (Nat.lt_succ_self k)).trans
        List.isPrefixOf_iff_prefix.symm))
    rw [lastOccurrence, lastOccurrence, ih fun j hj => h j (Nat.lt_succ_of_lt hj)]
    simp only [hsame]

theorem replaceBack_of_none (h : lastOccurrence f s k = none) : replaceBack f r m k s = s := by
  induction k with
  | zero => rfl
  | succ k ih =>
    rw [lastOccurrence] at h
    split at h
    · cases h
    · rename_i hnot
      rw [replaceBack, if_neg hnot, ih h]

theorem replaceBack_of_last (h : lastOccurrence f s k = some i) :
    replaceBack f r m k s = replaceBack f r m i (s.take i ++ (r ++ s.drop (i + m))) := by
  induction k with
  | zero => cases h
  | succ k ih =>
    rw [lastOccurrence] at h
    split at h
    · rename_i hprefix
      cases h
      rw [replaceBack, if_pos hprefix]
    · rename_i hnot
      rw [replaceBack, if_neg hnot, ih h]

theorem countBack_of_none (h : lastOccurrence f s k = none) : countBack f r m k s = 0 := by
  induction k with
  | zero => rfl
  | succ k ih =>
    rw [lastOccurrence] at h
    split at h
    · cases h
    · rename_i hnot
      rw [countBack, if_neg hnot, ih h]

theorem countBack_of_last (h : lastOccurrence f s k = some i) :
    countBack f r m k s = countBack f r m i (s.take i ++ (r ++ s.drop (i + m))) + 1 := by
  induction k with
  | zero => cases h
  | succ k ih =>
    rw [lastOccurrence] at h
    split at h
    · rename_i hprefix
      cases h
      rw [countBack, if_pos hprefix]
    · rename_i hnot
      rw [countBack, if_neg hnot, ih h]

/-- **Induction over the occurrences** that are found from the right. -/
theorem last_induction {P : ℕ → List α → Prop} (f r : List α) (m : ℕ)
    (hnone : ∀ k s, lastOccurrence f s k = none → P k s)
    (hsome : ∀ k s i, lastOccurrence f s k = some i →
      P i (s.take i ++ (r ++ s.drop (i + m))) → P k s) (k : ℕ) (s : List α) : P k s := by
  induction k using Nat.strong_induction_on generalizing s with
  | _ k ih =>
    cases hlast : lastOccurrence f s k with
    | none => exact hnone k s hlast
    | some i => exact hsome k s i hlast (ih i (lastOccurrence_some hlast).1 _)

omit [DecidableEq α] in
/-- The length when `m` elements from `i` on are replaced by more. -/
theorem length_replaceAt (hi : i + m ≤ s.length) (hle : m ≤ r.length) :
    (s.take i ++ (r ++ s.drop (i + m))).length = s.length + (r.length - m) := by
  simp only [List.length_append, List.length_take, List.length_drop]
  omega

/-- **The length**, if there are `m` elements from each occurrence on. -/
theorem length_replaceBack (hle : m ≤ r.length)
    (hclear : ∀ j < k, f <+: s.drop j → j + m ≤ s.length) :
    (replaceBack f r m k s).length = s.length + (r.length - m) * countBack f r m k s := by
  induction k, s using last_induction f r m with
  | hnone k s hnone =>
      rw [replaceBack_of_none hnone, countBack_of_none hnone, Nat.mul_zero]; rfl
  | hsome k s i hlast ih =>
    obtain ⟨hi, hoccurs, -⟩ := lastOccurrence_some hlast
    have him := hclear i hi hoccurs
    have hlen := length_replaceAt him hle
    rw [replaceBack_of_last hlast, countBack_of_last hlast, ih fun j hj _ => by omega, hlen,
      Nat.mul_succ]
    omega

theorem mem_replaceBack {x : α} (k : ℕ) (s : List α) (h : x ∈ replaceBack f r m k s) :
    x ∈ s ∨ x ∈ r := by
  induction k, s using last_induction f r m with
  | hnone k s hnone =>
    rw [replaceBack_of_none hnone] at h
    exact Or.inl h
  | hsome k s i hlast ih =>
    rw [replaceBack_of_last hlast] at h
    rcases ih h with hs | hr
    · rcases List.mem_append.mp hs with htake | hs
      · exact Or.inl (List.mem_of_mem_take htake)
      · exact (List.mem_append.mp hs).symm.imp_left List.mem_of_mem_drop
    · exact Or.inr hr

/-- A text only gets longer. -/
theorem length_le_replaceBack (hle : f.length ≤ r.length) (k : ℕ) (s : List α) :
    s.length ≤ (replaceBack f r f.length k s).length := by
  induction k, s using last_induction f r f.length with
  | hnone k s hnone => rw [replaceBack_of_none hnone]
  | hsome k s i hlast ih =>
    have hlen : s.length ≤ (s.take i ++ (r ++ s.drop (i + f.length))).length := by
      simp only [List.length_append, List.length_take, List.length_drop]
      omega
    rw [replaceBack_of_last hlast]
    exact hlen.trans ih

/-- What is in front of a text stays until the text is done. -/
theorem replaceBack_append (a : List α) (k : ℕ) (s : List α) :
    replaceBack f r m (a.length + k) (a ++ s) =
      replaceBack f r m a.length (a ++ replaceBack f r m k s) := by
  induction k generalizing s with
  | zero => rfl
  | succ k ih =>
    rw [← Nat.add_assoc, replaceBack, replaceBack, List.drop_length_add_append,
      List.take_length_add_append, Nat.add_assoc, List.drop_length_add_append,
      List.append_assoc,
      ih, ih]
    split
    · rfl
    · rfl

/-- **Whoever takes the last occurrence** leaves all but one in front of it. -/
theorem countFrom_le_take (hf : f ≠ []) (s : List α)
    (hlast : ∀ j < s.length, f <+: s.drop j → j ≤ i) :
    countFrom f 0 s ≤ countFrom f 0 (s.take i) + 1 := by
  induction s using first_induction hf generalizing i with
  | hnone s hnone =>
    rw [countFrom_of_none hnone]
    exact Nat.zero_le _
  | hsome g s hfirst ih =>
    have hpos := List.length_pos_iff.mpr hf
    obtain ⟨hq, hbefore⟩ := firstOccurrence_some hfirst
    have hlen : (g ++ (f ++ s)).length = g.length + f.length + s.length := by
      rw [List.length_append, List.length_append, Nat.add_assoc]
    rw [countFrom_append hf hfirst]
    by_cases hin : g.length + f.length ≤ i
    · -- The first one lies in front.
      obtain ⟨n, rfl⟩ : ∃ n, i = g.length + (f.length + n) :=
        ⟨i - (g.length + f.length), by omega⟩
      have htake : (g ++ (f ++ s)).take (g.length + (f.length + n)) = g ++ (f ++ s.take n) := by
        rw [List.take_length_add_append, List.take_length_add_append]
      have hfirst' : firstOccurrence f (g ++ (f ++ s.take n)) = some g.length := by
        rw [← htake]
        refine firstOccurrence_eq_some ((prefix_drop_take hf).mpr ⟨hq, by omega⟩)
          (by rw [List.length_take]; omega) ?_
        exact fun j hj hprefix => hbefore j hj ((prefix_drop_take hf).mp hprefix).1
      have hrest : ∀ j < s.length, f <+: s.drop j → j ≤ n := fun j hj hoccurs => by
        have hle := hlast (g.length + (f.length + j)) (by omega)
          (by rwa [List.drop_length_add_append, List.drop_length_add_append])
        omega
      rw [htake, countFrom_append hf hfirst']
      have hless := ih hrest
      omega
    · -- There is none behind it.
      have hnone : firstOccurrence f s = none := by
        cases hfirst' : firstOccurrence f s with
        | none => rfl
        | some j =>
          have hoccurs := (firstOccurrence_some hfirst').1
          have hj := hoccurs.length_le
          rw [List.length_drop] at hj
          have hle := hlast (g.length + (f.length + j)) (by omega)
            (by rwa [List.drop_length_add_append, List.drop_length_add_append])
          omega
      rw [countFrom_of_none hnone]
      omega

/-- **From the right there are at least as many.** -/
theorem countFrom_le_countBack (r : List α) (m : ℕ) (hf : f ≠ []) (k : ℕ) (s : List α) :
    countFrom f 0 (s.take k) ≤ countBack f r m k s := by
  induction k, s using last_induction f r m with
  | hnone k s hnone =>
    have hfirst : firstOccurrence f (s.take k) = none := by
      cases hfirst : firstOccurrence f (s.take k) with
      | none => rfl
      | some j =>
        obtain ⟨hoccurs, hle⟩ := (prefix_drop_take hf).mp (firstOccurrence_some hfirst).1
        have hpos := List.length_pos_iff.mpr hf
        exact absurd hoccurs (lastOccurrence_none hnone j (by omega))
    rw [countFrom_of_none hfirst]
    exact Nat.zero_le _
  | hsome k s i hlast ih =>
    obtain ⟨hi, hoccurs, hmax⟩ := lastOccurrence_some hlast
    have hpos := List.length_pos_iff.mpr hf
    have his := hoccurs.length_le
    rw [List.length_drop] at his
    have hle := countFrom_le_take hf (s.take k) (i := i) fun j hj hoccurs' => by
      rw [List.length_take] at hj
      exact hmax j (by omega) ((prefix_drop_take hf).mp hoccurs').1
    rw [List.take_take, Nat.min_eq_left hi.le] at hle
    have htake : (s.take i ++ (r ++ s.drop (i + m))).take i = s.take i :=
      List.take_left' (by rw [List.length_take]; omega)
    rw [htake] at ih
    rw [countBack_of_last hlast]
    exact hle.trans (Nat.succ_le_succ ih)

/-! ## Both ways -/

omit [DecidableEq α] in
/-- An occurrence that ends in the first of two texts. -/
theorem prefix_drop_append {u v : List α} (h : j + f.length ≤ u.length) :
    f <+: (u ++ v).drop j ↔ f <+: u.drop j := by
  rw [List.drop_append_of_le_length (by omega)]
  refine ⟨fun hprefix => ?_, fun hprefix => hprefix.trans (List.prefix_append _ _)⟩
  exact List.prefix_of_prefix_length_le hprefix (List.prefix_append _ _)
    (by rw [List.length_drop]; omega)

omit [DecidableEq α] in
/-- **Texts with one period** begin each other. -/
theorem prefix_of_period {x : List α} (hx : x ≠ []) (hf : f <+: x ++ f) (hr : r <+: x ++ r)
    (hle : f.length ≤ r.length) : f <+: r := by
  have hpos := List.length_pos_iff.mpr hx
  induction hn : f.length using Nat.strong_induction_on generalizing f r with
  | _ n ih =>
    by_cases hshort : f.length ≤ x.length
    · have hfx : f <+: x := List.prefix_of_prefix_length_le hf (List.prefix_append _ _) hshort
      exact List.prefix_of_prefix_length_le (hfx.trans (List.prefix_append _ _)) hr hle
    · obtain ⟨f', rfl⟩ :=
        List.prefix_of_prefix_length_le (List.prefix_append x f) hf (by omega)
      obtain ⟨r', rfl⟩ :=
        List.prefix_of_prefix_length_le (List.prefix_append x r) hr (by omega)
      rw [List.length_append] at hn hle
      rw [List.length_append] at hle
      have hshorter := ih f'.length (by omega) ((List.prefix_append_right_inj x).mp hf)
        ((List.prefix_append_right_inj x).mp hr) (by omega) rfl
      exact (List.prefix_append_right_inj x).mpr hshorter

/-- What lies behind the first occurrence is done first. -/
theorem replaceBack_behind (g s : List α) :
    replaceBack f r m (g ++ (f ++ s)).length (g ++ (f ++ s)) =
      replaceBack f r m (g.length + f.length)
        (g ++ (f ++ replaceBack f r m s.length s)) := by
  have happend := replaceBack_append (f := f) (r := r) (m := m) (g ++ f) s.length s
  rw [List.append_assoc, List.append_assoc, List.length_append] at happend
  rw [← happend, List.length_append, List.length_append, Nat.add_assoc]

omit [DecidableEq α] in
theorem isPrefix_piece (f r h : List α) (gs : List (List α)) :
    f ++ (h ++ if gs = [] then [] else r) <+: f ++ intercalate r (h :: gs) := by
  refine (List.prefix_append_right_inj f).mpr ?_
  cases gs with
  | nil => rw [if_pos rfl, List.append_nil, List.intercalate_singleton]
  | cons g gs =>
    rw [if_neg (List.cons_ne_nil g gs), List.intercalate_cons_cons]
    exact List.prefix_append _ _

omit [DecidableEq α] in
/-- An occurrence that overlaps the one in front of a piece does not come further. -/
theorem piece_occurs {h : List α} {gs : List (List α)} (hle : f.length ≤ r.length)
    (hj : j < f.length) (hoccurs : f <+: (f ++ intercalate r (h :: gs)).drop j) :
    f <+: (f ++ (h ++ if gs = [] then [] else r)).drop j := by
  obtain ⟨rest, hrest⟩ := isPrefix_piece f r h gs
  cases gs with
  | nil =>
    rw [List.intercalate_singleton] at hoccurs
    rwa [if_pos rfl, List.append_nil]
  | cons g gs =>
    rw [← hrest] at hoccurs
    refine (prefix_drop_append ?_).mp hoccurs
    rw [if_neg (List.cons_ne_nil g gs)]
    simp only [List.length_append]
    omega

/-- **Settled pieces are joined.** -/
theorem replaceBack_of_settled (hf : f ≠ []) (hle : f.length ≤ r.length) (s : List α)
    (h : Settled f r (cut f 0 s)) :
    replaceBack f r f.length s.length s = intercalate r (cut f 0 s) := by
  have hpos := List.length_pos_iff.mpr hf
  induction s using first_induction hf with
  | hnone s hnone =>
    have hlast : lastOccurrence f s s.length = none := by
      cases hlast : lastOccurrence f s s.length with
      | none => rfl
      | some i =>
        obtain ⟨hi, hoccurs, -⟩ := lastOccurrence_some hlast
        exact absurd hoccurs (firstOccurrence_none hnone i hi.le)
    rw [replaceBack_of_none hlast, cut_of_none hnone, List.intercalate_singleton]
  | hsome g s hfirst ih =>
    obtain ⟨p, gs, hcut⟩ := cut_eq_cons hf s
    rw [cut_append hf hfirst, hcut] at h ⊢
    rw [hcut] at ih
    obtain ⟨hin, hoverlap, hrest⟩ := h
    rw [replaceBack_behind, ih hrest, List.intercalate_cons_cons]
    generalize hL : intercalate r (p :: gs) = L
    -- The first one is the last one in front of what is done.
    have hlast : lastOccurrence f (g ++ (f ++ L)) (g.length + f.length) = some g.length := by
      refine lastOccurrence_eq_some (by omega) ?_ fun j hj hoccurs => ?_
      · rw [List.drop_left]
        exact List.prefix_append f L
      · by_contra hlt
        obtain ⟨n, rfl⟩ : ∃ n, j = g.length + n := ⟨j - g.length, by omega⟩
        rw [List.drop_length_add_append, ← hL] at hoccurs
        exact hoverlap n (by omega) (by omega) (piece_occurs hle (by omega) hoccurs)
    have hdrop : (g ++ (f ++ L)).drop (g.length + f.length) = L := by
      rw [List.drop_length_add_append, List.drop_left]
    -- In front of it there is none.
    have hnone : lastOccurrence f (g ++ (r ++ L)) g.length = none := by
      cases hnext : lastOccurrence f (g ++ (r ++ L)) g.length with
      | none => rfl
      | some j =>
        obtain ⟨hj, hoccurs, -⟩ := lastOccurrence_some hnext
        rw [← List.append_assoc] at hoccurs
        refine absurd ((prefix_drop_append ?_).mp hoccurs) (hin j hj)
        rw [List.length_append]
        omega
    rw [replaceBack_of_last hlast, List.take_left, hdrop, replaceBack_of_none hnone,
      List.append_assoc]

omit [DecidableEq α] in
/-- **An occurrence further to the right** is one by a period of the text put in, so that
the first one is still there. -/
theorem occurs_of_overlap {x u t : List α} (hx : x ≠ []) (hxf : x <+: f)
    (hoccurs : f <+: (f ++ u).drop x.length) (hle : f.length ≤ r.length)
    (h : r <+: x ++ (r ++ t)) : f <+: x ++ r := by
  obtain ⟨f', rfl⟩ := hxf
  rw [List.append_assoc, List.drop_left] at hoccurs
  have hrest : f' <+: x ++ f' := List.prefix_of_prefix_length_le (List.prefix_append f' u)
    hoccurs (by rw [List.length_append]; omega)
  have hr : r <+: x ++ r := by
    rw [← List.append_assoc] at h
    exact List.prefix_of_prefix_length_le h (List.prefix_append _ _)
      (by rw [List.length_append]; omega)
  have hfr := prefix_of_period hx ((List.prefix_append_right_inj x).mpr hrest) hr hle
  exact (List.prefix_append_right_inj x).mpr (hrest.trans hfr)

/-- A text done from the right is at least as long as one done from the left. -/
theorem length_cut_le_replaceBack (hf : f ≠ []) (hle : f.length ≤ r.length) (s : List α) :
    (intercalate r (cut f 0 s)).length ≤ (replaceBack f r f.length s.length s).length := by
  have hclear : ∀ j < s.length, f <+: s.drop j → j + f.length ≤ s.length :=
    fun j hj hoccurs => by
      have hlen := hoccurs.length_le
      rw [List.length_drop] at hlen
      omega
  have hcount := countFrom_le_countBack r f.length hf s.length s
  rw [List.take_length] at hcount
  rw [length_intercalate_cut hf hle, length_replaceBack hle hclear]
  exact Nat.add_le_add_left (Nat.mul_le_mul_left _ hcount) _

/-- A text that has the length it had has no occurrence any more. -/
theorem lastOccurrence_of_length (hlonger : f.length < r.length)
    (h : (replaceBack f r f.length k s).length ≤ s.length) : lastOccurrence f s k = none := by
  cases hlast : lastOccurrence f s k with
  | none => rfl
  | some i =>
    rw [replaceBack_of_last hlast] at h
    obtain ⟨-, hoccurs, -⟩ := lastOccurrence_some hlast
    have hlen := length_le_replaceBack hlonger.le i (s.take i ++ (r ++ s.drop (i + f.length)))
    have hinside := hoccurs.length_le
    simp only [List.length_append, List.length_take, List.length_drop] at hlen hinside
    omega

/-- **A text that is joined** has settled pieces. -/
theorem settled_of_replaceBack (hf : f ≠ []) (hlonger : f.length < r.length) (s : List α)
    (h : replaceBack f r f.length s.length s = intercalate r (cut f 0 s)) :
    Settled f r (cut f 0 s) := by
  have hpos := List.length_pos_iff.mpr hf
  induction s using first_induction hf with
  | hnone s hnone =>
    rw [cut_of_none hnone]
    trivial
  | hsome g s hfirst ih =>
    have hlength := length_cut_le_replaceBack hf hlonger.le s
    obtain ⟨p, gs, hcut⟩ := cut_eq_cons hf s
    rw [hcut] at ih hlength
    rw [cut_append hf hfirst, hcut, replaceBack_behind, List.intercalate_cons_cons] at h
    rw [cut_append hf hfirst, hcut]
    generalize hT : replaceBack f r f.length s.length s = T at h ih hlength
    generalize hL : intercalate r (p :: gs) = L at h ih hlength
    cases hlast : lastOccurrence f (g ++ (f ++ T)) (g.length + f.length) with
    | none =>
      refine absurd ?_ (lastOccurrence_none hlast g.length (by omega))
      rw [List.drop_left]
      exact List.prefix_append f T
    | some q =>
      obtain ⟨hq, hoccurs, hmax⟩ := lastOccurrence_some hlast
      have hgq : g.length ≤ q := hmax g.length (by omega) (by
        rw [List.drop_left]
        exact List.prefix_append f T)
      obtain ⟨n, rfl⟩ : ∃ n, q = g.length + n := ⟨q - g.length, by omega⟩
      have htake : (f ++ T).take n = f.take n := List.take_append_of_le_length (by omega)
      rw [List.drop_length_add_append] at hoccurs
      rw [replaceBack_of_last hlast, List.take_length_add_append, htake, Nat.add_assoc,
        List.drop_length_add_append] at h
      generalize hQ : (f ++ T).drop (n + f.length) = Q at h
      -- The text has its length now, so that this was the last one.
      have hlen : (g ++ r ++ L).length ≤ (g ++ f.take n ++ (r ++ Q)).length := by
        have hinside := hoccurs.length_le
        rw [← hQ]
        simp only [List.length_append, List.length_take, List.length_drop] at hinside ⊢
        omega
      have hnone : lastOccurrence f (g ++ f.take n ++ (r ++ Q)) (g.length + n) = none :=
        lastOccurrence_of_length hlonger (by rw [h]; omega)
      rw [replaceBack_of_none hnone, List.append_assoc, List.append_assoc] at h
      have hsame := List.append_cancel_left h
      cases n with
      | zero =>
        rw [List.take_zero, List.nil_append] at hsame
        rw [Nat.zero_add, List.drop_left] at hQ
        have hTL : T = L := hQ.trans (List.append_cancel_left hsame)
        subst hQ
        refine ⟨fun j hj hprefix => ?_, fun j hj hj0 hprefix => ?_, ih hTL⟩
        · refine lastOccurrence_none hnone j (by omega) ?_
          rw [List.take_zero, List.append_nil, ← List.append_assoc]
          exact hprefix.trans (List.IsPrefix.drop (List.prefix_append _ _) j)
        · have hpiece := hprefix.trans (List.IsPrefix.drop (isPrefix_piece f r p gs) j)
          rw [hL, ← hTL] at hpiece
          have hle := hmax (g.length + j) (by omega) (by rwa [List.drop_length_add_append])
          omega
      | succ n =>
        have hx : (f.take (n + 1)).length = n + 1 := by
          rw [List.length_take]
          omega
        have hstill : f <+: f.take (n + 1) ++ r :=
          occurs_of_overlap (u := T) (t := Q) (fun hnil => by rw [hnil] at hx; cases hx)
            (List.take_prefix _ _) (by rwa [hx]) hlonger.le
            (hsame ▸ List.prefix_append r L)
        refine absurd ?_ (lastOccurrence_none hnone g.length (by omega))
        rw [List.append_assoc, List.drop_left, ← List.append_assoc]
        exact hstill.trans (List.prefix_append _ _)

/-- **From the right as from the left**, exactly where the pieces are settled. -/
theorem replaceBack_eq_iff (hf : f ≠ []) (hlonger : f.length < r.length) (s : List α) :
    replaceBack f r f.length s.length s = intercalate r (cut f 0 s) ↔ Settled f r (cut f 0 s) :=
  ⟨settled_of_replaceBack hf hlonger s, replaceBack_of_settled hf hlonger.le s⟩

/-! ## As many both ways -/

/-- What is in front of a text is counted when the text is done. -/
theorem countBack_append (a : List α) (k : ℕ) (s : List α) :
    countBack f r m (a.length + k) (a ++ s) =
      countBack f r m k s + countBack f r m a.length (a ++ replaceBack f r m k s) := by
  induction k generalizing s with
  | zero => exact (Nat.zero_add _).symm
  | succ k ih =>
    rw [← Nat.add_assoc, countBack, countBack, replaceBack, List.drop_length_add_append,
      List.take_length_add_append, Nat.add_assoc, List.drop_length_add_append,
      List.append_assoc,
      ih, ih]
    split
    · exact Nat.add_right_comm _ _ _
    · rfl

/-- None is counted where there is none. -/
theorem countBack_eq_zero_iff : countBack f r m k s = 0 ↔ lastOccurrence f s k = none := by
  refine ⟨fun hzero => ?_, countBack_of_none⟩
  cases hlast : lastOccurrence f s k with
  | none => rfl
  | some i =>
    rw [countBack_of_last hlast] at hzero
    cases hzero

/-- **The start of a text**, all of it or as much as an occurrence is long. -/
def Starts (f t T : List α) : Prop := t = T ∨ f.length ≤ t.length ∧ t <+: T

omit [DecidableEq α] in
/-- An occurrence that begins in front of a text ends in its start. -/
theorem Starts.occurs_iff {t T : List α} (h : Starts f t T) {e : ℕ} (he : e < f.length) :
    f <+: (f ++ T).drop e ↔ f <+: (f ++ t).drop e := by
  rcases h with rfl | ⟨hlen, rest, rfl⟩
  · exact Iff.rfl
  · rw [← List.append_assoc]
    exact prefix_drop_append (by rw [List.length_append]; omega)

/-- **What becomes of one more piece.** -/
theorem countBack_behind (g s : List α) :
    countBack f r m (g ++ (f ++ s)).length (g ++ (f ++ s)) = countBack f r m s.length s +
      countBack f r m (g.length + f.length) (g ++ (f ++ replaceBack f r m s.length s)) := by
  have happend := countBack_append (f := f) (r := r) (m := m) (g ++ f) s.length s
  rw [List.append_assoc, List.append_assoc, List.length_append] at happend
  rw [← happend, List.length_append, List.length_append, Nat.add_assoc]

omit [DecidableEq α] in
/-- The occurrences around the first one, and where it is replaced. -/
theorem replaceAt_front (hlonger : f.length < r.length) {g T : List α} {d : ℕ}
    (hd : d < f.length) :
    ∃ Q, (g ++ (f ++ T)).take (g.length + d) ++ (r ++ (g ++ (f ++ T)).drop (g.length + d + m)) =
        g ++ (f.take d ++ r) ++ Q ∧
      ∀ e < g.length + d, f <+: (g ++ (f.take d ++ r) ++ Q).drop e ↔
        f <+: (g ++ (f.take d ++ r)).drop e := by
  refine ⟨(g ++ (f ++ T)).drop (g.length + d + m), ?_, fun e he => prefix_drop_append ?_⟩
  · rw [List.take_length_add_append, List.take_append_of_le_length hd.le]
    simp only [List.append_assoc]
  · simp only [List.length_append, List.length_take]
    omega

/-- The last occurrence that begins in the first one. -/
theorem lastOccurrence_front (g : List α) {T : List α} {d : ℕ} (hd : d < f.length)
    (hoccurs : f <+: (f ++ T).drop d)
    (hbehind : ∀ e < f.length, d < e → ¬ f <+: (f ++ T).drop e) :
    lastOccurrence f (g ++ (f ++ T)) (g.length + f.length) = some (g.length + d) := by
  refine lastOccurrence_eq_some (by omega) (by rwa [List.drop_length_add_append])
    fun j hj hprefix => ?_
  by_contra hlt
  obtain ⟨e, rfl⟩ : ∃ e, j = g.length + e := ⟨j - g.length, by omega⟩
  rw [List.drop_length_add_append] at hprefix
  exact hbehind e (by omega) (by omega) hprefix

/-- **A piece with one occurrence from the right**: it begins in the one from the left. -/
theorem countBack_front_iff (hf : f ≠ []) (hlonger : f.length < r.length) (g T : List α) :
    countBack f r m (g.length + f.length) (g ++ (f ++ T)) = 1 ↔
      ∃ d < f.length, f <+: (f ++ T).drop d ∧
        (∀ e < f.length, d < e → ¬ f <+: (f ++ T).drop e) ∧
        ∀ e < g.length + d, ¬ f <+: (g ++ (f.take d ++ r)).drop e := by
  have hpos := List.length_pos_iff.mpr hf
  have hfirst : f <+: (g ++ (f ++ T)).drop g.length := by
    rw [List.drop_left]
    exact List.prefix_append f T
  constructor
  · intro hone
    cases hlast : lastOccurrence f (g ++ (f ++ T)) (g.length + f.length) with
    | none => exact absurd hfirst (lastOccurrence_none hlast g.length (by omega))
    | some q =>
      obtain ⟨hq, hoccurs, hmax⟩ := lastOccurrence_some hlast
      have hgq := hmax g.length (by omega) hfirst
      obtain ⟨d, rfl⟩ : ∃ d, q = g.length + d := ⟨q - g.length, by omega⟩
      have hd : d < f.length := by omega
      obtain ⟨Q, htext, hsame⟩ := replaceAt_front (m := m) hlonger (g := g) (T := T) hd
      rw [countBack_of_last hlast, htext, Nat.add_eq_right, countBack_eq_zero_iff] at hone
      rw [List.drop_length_add_append] at hoccurs
      refine ⟨d, hd, hoccurs, fun e he hde hprefix => ?_, fun e he hprefix => ?_⟩
      · have hle := hmax (g.length + e) (by omega) (by rwa [List.drop_length_add_append])
        omega
      · exact lastOccurrence_none hone e he ((hsame e he).mpr hprefix)
  · rintro ⟨d, hd, hoccurs, hbehind, hfront⟩
    have hlast := lastOccurrence_front g hd hoccurs hbehind
    obtain ⟨Q, htext, hsame⟩ := replaceAt_front (m := m) hlonger (g := g) (T := T) hd
    rw [countBack_of_last hlast, htext, Nat.add_eq_right, countBack_eq_zero_iff]
    cases hnext : lastOccurrence f (g ++ (f.take d ++ r) ++ Q) (g.length + d) with
    | none => rfl
    | some e =>
      obtain ⟨he, hprefix, -⟩ := lastOccurrence_some hnext
      exact absurd ((hsame e he).mp hprefix) (hfront e he)

/-- **What becomes of a piece** with one occurrence from the right. -/
theorem starts_replaceBack (hf : f ≠ []) (hlonger : f.length < r.length) {g T : List α} {d : ℕ}
    (hd : d < f.length) (hoccurs : f <+: (f ++ T).drop d)
    (hbehind : ∀ e < f.length, d < e → ¬ f <+: (f ++ T).drop e)
    (hfront : ∀ e < g.length + d, ¬ f <+: (g ++ (f.take d ++ r)).drop e) :
    Starts f (g ++ (f.take d ++ r))
      (replaceBack f r m (g.length + f.length) (g ++ (f ++ T))) := by
  have hlast := lastOccurrence_front g hd hoccurs hbehind
  obtain ⟨Q, htext, -⟩ := replaceAt_front (m := m) hlonger (g := g) (T := T) hd
  have hone :=
    (countBack_front_iff (m := m) hf hlonger g T).mpr ⟨d, hd, hoccurs, hbehind, hfront⟩
  rw [countBack_of_last hlast, htext, Nat.add_eq_right, countBack_eq_zero_iff] at hone
  rw [replaceBack_of_last hlast, htext, replaceBack_of_none hone]
  exact Or.inr ⟨by simp only [List.length_append]; omega, List.prefix_append _ _⟩

/-- **One from the right for each from the left**: there are as many, and the start is that
of what becomes of the text. -/
theorem OneEach.count (hf : f ≠ []) (hlonger : f.length < r.length) (s : List α) {t : List α}
    (h : OneEach f r (cut f 0 s) t) :
    countBack f r f.length s.length s = countFrom f 0 s ∧
      Starts f t (replaceBack f r f.length s.length s) := by
  induction s using first_induction hf generalizing t with
  | hnone s hnone =>
    have hlast : lastOccurrence f s s.length = none := by
      cases hlast : lastOccurrence f s s.length with
      | none => rfl
      | some i =>
        obtain ⟨hi, hoccurs, -⟩ := lastOccurrence_some hlast
        exact absurd hoccurs (firstOccurrence_none hnone i hi.le)
    rw [cut_of_none hnone] at h
    cases h
    rw [countBack_of_none hlast, countFrom_of_none hnone, replaceBack_of_none hlast]
    exact ⟨rfl, Or.inl rfl⟩
  | hsome g s hfirst ih =>
    obtain ⟨p, gs, hcut⟩ := cut_eq_cons hf s
    rw [cut_append hf hfirst, hcut] at h
    cases h with
    | @cons _ _ _ t d rest inside occurs behind front =>
      obtain ⟨hcount, hstarts⟩ := ih (hcut ▸ rest)
      have hoccurs := (hstarts.occurs_iff inside).mpr occurs
      have hbehind : ∀ e < f.length, d < e →
          ¬ f <+: (f ++ replaceBack f r f.length s.length s).drop e := fun e he hde hprefix =>
        behind e he hde ((hstarts.occurs_iff he).mp hprefix)
      have hone := (countBack_front_iff (m := f.length) hf hlonger g
        (replaceBack f r f.length s.length s)).mpr ⟨d, inside, hoccurs, hbehind, front⟩
      rw [countBack_behind, replaceBack_behind, countFrom_append hf hfirst, hcount, hone]
      exact ⟨rfl, starts_replaceBack hf hlonger inside hoccurs hbehind front⟩

/-- **As many from the right as from the left**: there is one for each. -/
theorem exists_oneEach (hf : f ≠ []) (hlonger : f.length < r.length) (s : List α)
    (h : countBack f r f.length s.length s ≤ countFrom f 0 s) :
    ∃ t, OneEach f r (cut f 0 s) t := by
  induction s using first_induction hf with
  | hnone s hnone => exact ⟨s, cut_of_none hnone ▸ OneEach.last s⟩
  | hsome g s hfirst ih =>
    have hpos := List.length_pos_iff.mpr hf
    have hmore := countFrom_le_countBack r f.length hf s.length s
    rw [List.take_length] at hmore
    have hsome : 1 ≤ countBack f r f.length (g.length + f.length)
        (g ++ (f ++ replaceBack f r f.length s.length s)) := by
      by_contra hzero
      have hnone := countBack_eq_zero_iff.mp (Nat.lt_one_iff.mp (Nat.lt_of_not_le hzero))
      refine lastOccurrence_none hnone g.length (by omega) ?_
      rw [List.drop_left]
      exact List.prefix_append _ _
    rw [countBack_behind, countFrom_append hf hfirst] at h
    obtain ⟨t, hrest⟩ := ih (by omega)
    obtain ⟨-, hstarts⟩ := hrest.count hf hlonger s
    obtain ⟨d, hd, hoccurs, hbehind, hfront⟩ :=
      (countBack_front_iff (m := f.length) hf hlonger g
      (replaceBack f r f.length s.length s)).mp (by omega)
    obtain ⟨p, gs, hcut⟩ := cut_eq_cons hf s
    rw [hcut] at hrest
    rw [cut_append hf hfirst, hcut]
    exact ⟨_, .cons hrest hd ((hstarts.occurs_iff hd).mp hoccurs)
      (fun e he hde hprefix => hbehind e he hde ((hstarts.occurs_iff he).mpr hprefix)) hfront⟩

/-- **From the right no more than from the left**, exactly where there is one for each. -/
theorem countBack_le_iff (hf : f ≠ []) (hlonger : f.length < r.length) (s : List α) :
    countBack f r f.length s.length s ≤ countFrom f 0 s ↔ ∃ t, OneEach f r (cut f 0 s) t :=
  ⟨exists_oneEach hf hlonger s, fun ⟨_, h⟩ => (h.count hf hlonger s).1.le⟩

end List
