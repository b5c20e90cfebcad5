import Esp31b.GreedySearch
import Esp31b.Occurrences
import Esp31b.StreamParse

/-!
# `Stream::findUntil`

Two words are looked for in one pass: the target, and a terminator that ends the
search. Each has an index of what agrees so far. When a byte does not agree, the
index of the target goes back to 0 and the byte is tried again; that of the
terminator goes back to 0 and the byte is gone. So both are searches that do not go
back, and they differ in how far the next try is: at the byte that did not agree
(`Stream.skipTarget`), or behind it (`Stream.skipTerminator`).

What they find are the tried occurrences (`Stream.findLoop_spec`). A word that
overlaps itself has others, which are passed over: `aab` is not found in `aaab`.
`Stream.findsFirst_iff` says when the search is nevertheless right.
-/

namespace Stream

/-- The character at an index of a string, the NUL behind it included. -/
def charAt (text : List UInt8) (index : ℕ) : ℤ := (text.getD index 0).toNat

/-- The loop of `findUntil`: what is returned, and what is left of the stream. -/
def findLoop (target : List UInt8) (targetLen : ℕ) (terminator : List UInt8) (termLen : ℕ) :
    List UInt8 → ℕ → ℕ → Bool × List UInt8
  | [], _, _ => (false, (timedRead []).2)
  | b :: s, index, termIndex =>
    let (c, s') := timedRead (b :: s)
    if c ≤ 0 then (false, s')
    else
      let index := if c ≠ charAt target index then 0 else index
      if c = charAt target index ∧ targetLen ≤ index + 1 then (true, s')
      else
        let index := if c = charAt target index then index + 1 else index
        if 0 < termLen ∧ c = charAt terminator termIndex then
          if termLen ≤ termIndex + 1 then (false, s')
          else findLoop target targetLen terminator termLen s index (termIndex + 1)
        else findLoop target targetLen terminator termLen s index 0

/-- `findUntil` of two strings with their lengths. -/
def findUntilLen (target : List UInt8) (targetLen : ℕ) (terminator : List UInt8) (termLen : ℕ)
    (s : List UInt8) : Bool × List UInt8 :=
  if charAt target 0 = 0 then (true, s)
  else findLoop target targetLen terminator termLen s 0 0

/-- `findUntil`. -/
def findUntil (target terminator s : List UInt8) : Bool × List UInt8 :=
  findUntilLen target (cstr target).length terminator (cstr terminator).length s

/-- `find`. -/
def find (target s : List UInt8) : Bool × List UInt8 := findUntil target [] s

/-! ## Two searches in lock-step -/

/-- How far the next try of the target is. -/
def skipTarget (k : ℕ) : ℕ := max k 1

/-- How far the next try of the terminator is. -/
def skipTerminator (k : ℕ) : ℕ := k + 1

/-- A tried occurrence of the target ends here. -/
def TargetEnds (target s : List UInt8) (e : ℕ) : Prop := List.Ends skipTarget target s e

/-- A tried occurrence of the terminator ends here, if there is a terminator. -/
def TerminatorEnds (terminator s : List UInt8) (e : ℕ) : Prop :=
  terminator ≠ [] ∧ List.Ends skipTerminator terminator s e

variable {target terminator s : List UInt8} {j index termIndex : ℕ} {c : UInt8}

/-- A byte is that of a word. -/
theorem eq_charAt_iff (w : List UInt8) (hc : c ≠ 0) :
    (c.toNat : ℤ) = charAt w index ↔ w[index]? = some c := by
  rw [charAt, Int.natCast_inj, UInt8.toNat_inj, List.getD_eq_getElem?_getD]
  cases w[index]? with
  | none => simpa using hc
  | some d => simpa using eq_comm

/-- A string is read up to its NUL. -/
theorem charAt_cstr {w : List UInt8} (h : index < (cstr w).length) :
    charAt w index = charAt (cstr w) index := by
  have hprefix : cstr w <+: w := List.takeWhile_prefix _
  obtain ⟨t, ht⟩ := hprefix
  rw [charAt, charAt, List.getD_eq_getElem?_getD, List.getD_eq_getElem?_getD]
  nth_rewrite 1 [← ht]
  rw [List.getElem?_append_left h]

/-- The index of the target behind a byte. -/
def nextIndex (target : List UInt8) (index : ℕ) (c : UInt8) : ℕ :=
  if target[index]? = some c then index + 1 else if target[0]? = some c then 1 else 0

/-- The index of the terminator behind a byte. -/
def nextTermIndex (terminator : List UInt8) (termIndex : ℕ) (c : UInt8) : ℕ :=
  if terminator[termIndex]? = some c then termIndex + 1 else 0

/-- **A byte of the target**: the word is complete, or the search goes on. -/
theorem target_step (h : List.Matching skipTarget target s j index) (hc : s[j]? = some c) :
    if nextIndex target index c = target.length then TargetEnds target s (j + 1)
    else List.Matching skipTarget target s (j + 1) (nextIndex target index c) := by
  have hskip : ∀ k, 0 < skipTarget k := fun k =>
    Nat.lt_of_lt_of_le Nat.one_pos (Nat.le_max_right k 1)
  unfold nextIndex
  by_cases hagree : target[index]? = some c
  · rw [if_pos hagree]
    split
    · exact h.ends hc hagree ‹_›
    · exact h.agree hc hagree (lt_of_le_of_ne h.lt ‹_›)
  · rw [if_neg hagree]
    -- The byte is tried again, unless it was the first of a try.
    have hnext := h.next hskip hc hagree
    rcases Nat.eq_zero_or_pos index with rfl | hpos
    · rw [if_neg hagree, if_neg (Nat.ne_of_lt h.lt)]
      exact hnext
    · have hle := h.le
      have hagain : j - index + skipTarget index = j := by
        unfold skipTarget
        omega
      rw [hagain] at hnext
      by_cases hfirst : target[0]? = some c
      · rw [if_pos hfirst]
        split
        · exact hnext.ends hc hfirst ‹_›
        · exact hnext.agree hc hfirst (lt_of_le_of_ne hnext.lt ‹_›)
      · rw [if_neg hfirst, if_neg (Nat.ne_of_lt hnext.lt)]
        exact hnext.next hskip hc hfirst

/-- **A byte of the terminator.** -/
theorem terminator_step (h : List.Matching skipTerminator terminator s j termIndex)
    (hc : s[j]? = some c) :
    if nextTermIndex terminator termIndex c = terminator.length then
      List.Ends skipTerminator terminator s (j + 1)
    else List.Matching skipTerminator terminator s (j + 1)
      (nextTermIndex terminator termIndex c) := by
  unfold nextTermIndex
  by_cases hagree : terminator[termIndex]? = some c
  · rw [if_pos hagree]
    split
    · exact h.ends hc hagree ‹_›
    · exact h.agree hc hagree (lt_of_le_of_ne h.lt ‹_›)
  · have hskip : ∀ k, 0 < skipTerminator k := Nat.succ_pos
    have hnext := h.next hskip hc hagree
    have hle := h.le
    have hbehind : j - termIndex + skipTerminator termIndex = j + 1 := by
      unfold skipTerminator
      omega
    rw [hbehind] at hnext
    rw [if_neg hagree, if_neg (Nat.ne_of_lt hnext.lt)]
    exact hnext

/-- **One turn of the loop.** -/
theorem findLoop_cons (hc : c ≠ 0) (hindex : index < target.length)
    (htermIndex : cstr terminator ≠ [] → termIndex < (cstr terminator).length)
    (rest : List UInt8) :
    findLoop target target.length terminator (cstr terminator).length
      (c :: rest) index termIndex =
      if nextIndex target index c = target.length then (true, rest)
      else if cstr terminator ≠ [] ∧
        nextTermIndex (cstr terminator) termIndex c =
          (cstr terminator).length then (false, rest)
      else findLoop target target.length terminator (cstr terminator).length rest
        (nextIndex target index c) (nextTermIndex (cstr terminator) termIndex c) := by
  have hpos : ¬ (c.toNat : ℤ) ≤ 0 := by
    have hne : c.toNat ≠ 0 := fun h => hc (UInt8.toNat_inj.mp h)
    omega
  have hterm : (0 < (cstr terminator).length ∧ (c.toNat : ℤ) = charAt terminator termIndex) ↔
      (cstr terminator)[termIndex]? = some c := by
    rw [List.length_pos_iff]
    constructor
    · rintro ⟨hne, heq⟩
      rw [charAt_cstr (htermIndex hne)] at heq
      exact (eq_charAt_iff _ hc).mp heq
    · intro hsome
      have hne : cstr terminator ≠ [] := fun h => by simp [h] at hsome
      refine ⟨hne, ?_⟩
      rw [charAt_cstr (htermIndex hne)]
      exact (eq_charAt_iff _ hc).mpr hsome
  rw [findLoop]
  dsimp only [timedRead, read]
  rw [if_neg hpos]
  -- Behind the target, the terminator.
  have hrest :
      ∀ i, (if 0 < (cstr terminator).length ∧ (c.toNat : ℤ) = charAt terminator termIndex
      then if (cstr terminator).length ≤ termIndex + 1 then (false, rest)
        else findLoop target target.length terminator (cstr terminator).length rest i
          (termIndex + 1)
      else findLoop target target.length terminator (cstr terminator).length rest i 0) =
      if cstr terminator ≠ [] ∧
        nextTermIndex (cstr terminator) termIndex c =
        (cstr terminator).length then (false, rest)
      else findLoop target target.length terminator (cstr terminator).length rest i
        (nextTermIndex (cstr terminator) termIndex c) := by
    intro i
    unfold nextTermIndex
    by_cases hagree : (cstr terminator)[termIndex]? = some c
    · have hne := List.length_pos_iff.mp (hterm.mpr hagree).1
      have hlt := htermIndex hne
      rw [if_pos (hterm.mpr hagree), if_pos hagree]
      by_cases hlast : (cstr terminator).length ≤ termIndex + 1
      · rw [if_pos hlast, if_pos ⟨hne, by omega⟩]
      · rw [if_neg hlast, if_neg fun h => hlast h.2.ge]
    · rw [if_neg (mt hterm.mp hagree), if_neg hagree,
        if_neg fun h => h.1 (List.length_eq_zero_iff.mp h.2.symm)]
  simp only [hrest, ne_eq, eq_charAt_iff target hc]
  unfold nextIndex
  by_cases hagree : target[index]? = some c
  · simp only [hagree, not_true, if_false, if_true, true_and]
    by_cases hlast : target.length ≤ index + 1
    · rw [if_pos hlast, if_pos (show index + 1 = target.length by omega)]
    · rw [if_neg hlast, if_neg (show index + 1 ≠ target.length by omega)]
  · have hlength : target.length ≠ 0 := by omega
    simp only [hagree, not_false_iff, if_false, if_true]
    by_cases hfirst : target[0]? = some c
    · simp only [hfirst, if_true, true_and, Nat.zero_add]
      by_cases hlast : target.length ≤ 1
      · rw [if_pos hlast, if_pos (show 1 = target.length by omega)]
      · rw [if_neg hlast, if_neg (show 1 ≠ target.length by omega)]
    · simp only [hfirst, if_false, false_and]
      rw [if_neg hlength.symm]

/-- **What the loop finds**: the first tried occurrence of the target, unless a tried
occurrence of the terminator ends before it. -/
theorem findLoop_spec (h0 : 0 ∉ s) (htarget : List.Matching skipTarget target s j index)
    (hterm : cstr terminator ≠ [] →
      List.Matching skipTerminator (cstr terminator) s j termIndex) {r : Bool × List UInt8}
    (h : findLoop target target.length terminator (cstr terminator).length (s.drop j) index
      termIndex = r) :
    (r.1 = true → ∃ e, TargetEnds target s e ∧ (∀ e', TargetEnds target s e' → e ≤ e') ∧
      (∀ e', TerminatorEnds (cstr terminator) s e' → e ≤ e') ∧ r.2 = s.drop e) ∧
    (r.1 = false → ∀ e, TargetEnds target s e →
      ∃ e', TerminatorEnds (cstr terminator) s e' ∧ e' < e) := by
  induction hn : s.length - j generalizing j index termIndex with
  | zero =>
    -- The stream has ended, and so have all occurrences.
    rw [List.drop_eq_nil_of_le (by omega)] at h
    obtain rfl := h
    refine ⟨nofun, fun _ e he => ?_⟩
    have hlt := htarget.lt_of_ends he
    obtain ⟨i, -, hoccurs, rfl⟩ := he
    have hle := hoccurs.length_le
    rw [List.length_drop] at hle
    have hpos := htarget.lt
    omega
  | succ n ih =>
    have hj : j < s.length := by omega
    have hget : s[j]? = some s[j] := List.getElem?_eq_getElem hj
    have hc : s[j] ≠ 0 := fun hzero => h0 (hzero ▸ List.getElem_mem hj)
    rw [List.drop_eq_getElem_cons hj, findLoop_cons hc htarget.lt fun hne =>
      (hterm hne).lt] at h
    have htargetStep := target_step htarget hget
    split at h
    · -- The target is complete.
      rename_i hfound
      obtain rfl := h
      rw [if_pos hfound] at htargetStep
      exact ⟨fun _ => ⟨j + 1, htargetStep, fun e' he' => htarget.lt_of_ends he',
        fun e' he' => (hterm he'.1).lt_of_ends he'.2, rfl⟩, nofun⟩
    · rename_i hnot
      rw [if_neg hnot] at htargetStep
      split at h
      · -- The terminator is complete.
        rename_i hfound
        have htermStep := terminator_step (hterm hfound.1) hget
        obtain rfl := h
        rw [if_pos hfound.2] at htermStep
        exact ⟨nofun, fun _ e he => ⟨j + 1, ⟨hfound.1, htermStep⟩, htargetStep.lt_of_ends he⟩⟩
      · rename_i hnotTerm
        refine ih htargetStep (fun hne => ?_) h (by omega)
        have htermStep := terminator_step (hterm hne) hget
        rwa [if_neg fun hlast => hnotTerm ⟨hne, hlast⟩] at htermStep

/-! ## When the search is right -/

/-- **The end of the first occurrence.** -/
def firstEnd (w s : List UInt8) : Option ℕ := (List.firstOccurrence w s).map (· + w.length)

/-- The first occurrence of the target ends no later than that of the terminator. -/
def InTime (target terminator s : List UInt8) : Prop :=
  ∃ e ∈ firstEnd target s, terminator ≠ [] → ∀ e' ∈ firstEnd terminator s, e ≤ e'

/-- **The search is right**: it succeeds if the target is in time, and what it has
taken ends with the first occurrence. -/
structure FindsFirst (target terminator s : List UInt8) (r : Bool × List UInt8) : Prop where
  found : r.1 = true ↔ InTime target terminator s
  taken : r.1 = true → ∃ e ∈ firstEnd target s, r.2 = s.drop e

/-- **No occurrence that counts is passed over**: a target in time is tried, and one
that is not ends behind a terminator that is tried. -/
structure NonePassed (target terminator s : List UInt8) : Prop where
  inTime : InTime target terminator s → ∃ e ∈ firstEnd target s, TargetEnds target s e
  late : ¬ InTime target terminator s → ∀ e, TargetEnds target s e →
    ∃ e', TerminatorEnds terminator s e' ∧ e' < e

/-- The end of an occurrence is not in front of the end of the first one. -/
theorem firstEnd_le {skip : ℕ → ℕ} {w : List UInt8} {e : ℕ} (hw : w ≠ [])
    (he : List.Ends skip w s e) : ∃ e' ∈ firstEnd w s, e' ≤ e ∧ e ≤ s.length := by
  obtain ⟨i, -, hoccurs, rfl⟩ := he
  have hle := hoccurs.length_le
  have hpos := List.length_pos_iff.mpr hw
  rw [List.length_drop] at hle
  cases hfirst : List.firstOccurrence w s with
  | none => exact absurd hoccurs (List.firstOccurrence_none hfirst i (by omega))
  | some k =>
    refine ⟨k + w.length, by rw [firstEnd, hfirst]; rfl, ?_, by omega⟩
    have hki : ¬ i < k := fun hlt => (List.firstOccurrence_some hfirst).2 i hlt hoccurs
    omega

/-- **The search is right if and only if no occurrence that counts is passed
over.** -/
theorem findsFirst_iff (htarget : target ≠ []) (h0 : 0 ∉ target) (hs : 0 ∉ s)
    (terminator : List UInt8) :
    FindsFirst target (cstr terminator) s (findUntil target terminator s) ↔
      NonePassed target (cstr terminator) s := by
  have hstart : charAt target 0 ≠ 0 := by
    obtain ⟨c, t, rfl⟩ := List.exists_cons_of_ne_nil htarget
    intro hzero
    have hc : c = 0 := UInt8.toNat_inj.mp (Int.ofNat.inj hzero)
    exact h0 (hc ▸ List.mem_cons_self)
  have hloop :
      findLoop target target.length terminator (cstr terminator).length (s.drop 0) 0 0 =
      findUntil target terminator s := by
    rw [findUntil, findUntilLen, if_neg hstart, cstr_of_not_mem h0, List.drop_zero]
  obtain ⟨htrue, hfalse⟩ := findLoop_spec hs (List.Matching.nil htarget)
    (fun hne => List.Matching.nil hne) hloop
  constructor
  · rintro ⟨hfound, htaken⟩
    constructor
    · intro hin
      have hr := hfound.mpr hin
      obtain ⟨e, he, hrest⟩ := htaken hr
      obtain ⟨e', hends, -, -, hrest'⟩ := htrue hr
      obtain ⟨e'', he'', hle, hlength⟩ := firstEnd_le htarget hends
      obtain rfl := Option.mem_unique he he''
      have hlengths := congrArg List.length (hrest.symm.trans hrest')
      rw [List.length_drop, List.length_drop] at hlengths
      obtain rfl : e = e' := by omega
      exact ⟨e, he, hends⟩
    · intro hnot
      exact hfalse (Bool.eq_false_iff.mpr (mt hfound.mp hnot))
  · rintro ⟨hin, hlate⟩
    have hiff : (findUntil target terminator s).1 = true ↔
        InTime target (cstr terminator) s := by
      constructor
      · intro hr
        by_contra hnot
        obtain ⟨e, hends, -, hbefore, -⟩ := htrue hr
        obtain ⟨e', hends', hlt⟩ := hlate hnot e hends
        exact absurd (hbefore e' hends') (Nat.not_le_of_lt hlt)
      · intro hinTime
        by_contra hr
        obtain ⟨e, he, hends⟩ := hin hinTime
        obtain ⟨e', hends', hlt⟩ := hfalse (Bool.eq_false_iff.mpr hr) e hends
        obtain ⟨e₀, he₀, hbefore⟩ := hinTime
        obtain rfl := Option.mem_unique he he₀
        obtain ⟨e'', he'', hle, -⟩ := firstEnd_le hends'.1 hends'.2
        have hfirst := hbefore hends'.1 e'' he''
        omega
    refine ⟨hiff, fun hr => ?_⟩
    obtain ⟨e, he, hends⟩ := hin (hiff.mp hr)
    obtain ⟨e', hends', hfirst, -, hrest⟩ := htrue hr
    obtain ⟨e'', he'', hle, -⟩ := firstEnd_le htarget hends'
    obtain rfl := Option.mem_unique he he''
    obtain rfl : e' = e := le_antisymm (hfirst e hends) hle
    exact ⟨e', he, hrest⟩

/-- A partial match breaks off in front of the word, and nothing is passed over. -/
theorem findsFirst_ok :
    FindsFirst (ascii "ok") (cstr (ascii ";")) (ascii "o.ok;")
      (findUntil (ascii "ok") (ascii ";") (ascii "o.ok;")) := by
  refine (findsFirst_iff (by decide) (by decide) (by decide) _).mpr
    ⟨fun _ => ?_, fun hnot => ?_⟩
  · have htried : List.Tried skipTarget (ascii "ok") (ascii "o.ok;") 2 :=
      List.Tried.next (i := 1) (k := 0)
        (List.Tried.next (i := 0) (k := 1) List.Tried.start (by decide) (by decide)) (by decide)
        (by decide)
    exact ⟨4, by decide, 2, htried, by decide, rfl⟩
  · exact absurd ⟨4, by decide, fun _ => by decide⟩ hnot

/-- A word that overlaps itself is passed over. -/
theorem not_findsFirst_aab :
    ¬ ∀ target terminator s : List UInt8, target ≠ [] → 0 ∉ target → 0 ∉ s →
      FindsFirst target (cstr terminator) s (findUntil target terminator s) := by
  intro h
  have hfound := (h (ascii "aab") [] (ascii "aaab") (by decide) (by decide) (by decide)).found
  have hin : InTime (ascii "aab") (cstr []) (ascii "aaab") :=
    ⟨4, by decide, fun hne => absurd rfl hne⟩
  exact absurd (hfound.mpr hin) (by decide)

end Stream
