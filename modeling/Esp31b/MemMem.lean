import Esp31b.Fueled
import Esp31b.Occurrences
import Mathlib.Algebra.GroupWithZero.Nat

/-!
# `memmem_P`

At every place of the haystack the rest of the needle is compared until one of the two
ends, or they differ. Only a difference moves on to the next place: where the haystack
ends within the needle, the same place is looked at again, for ever. So the search ends
unless it comes to a place from which all of the haystack is the beginning of the needle,
and it comes there unless it finds an occurrence first.
-/

namespace MemMem

/-- The comparison of the rest of the needle, with what is left of it at the end and
whether a difference was found; `none` for a read outside of a buffer. -/
def compare (buf findP : List UInt8) : ℕ → ℕ → ℕ → ℕ → Option (Bool × ℕ)
  | findSize + 1, findTag, tagBufSize + 1, tag => do
    let ch ← findP[findTag]?
    let c ← buf[tag]?
    if ch ≠ c then some (true, findSize + 1)
    else compare buf findP findSize (findTag + 1) tagBufSize (tag + 1)
  | findSize, _, _, _ => some (false, findSize)

/-- A turn of the search with `read` and `bufSize`, for a needle with this first byte and
`findPSize` others. -/
def turn (buf findP : List UInt8) (first : UInt8) (findPSize : ℕ) (s : ℕ × ℕ) :
    (ℕ × ℕ) ⊕ Option (Option ℕ) :=
  if s.2 = 0 then Sum.inr (some none)
  else
    match buf[s.1]? with
    | none => Sum.inr none
    | some c =>
      if c = first then
        match compare buf findP findPSize 1 (s.2 - 1) (s.1 + 1) with
        | none => Sum.inr none
        | some (broke, findSize) =>
          let next := if broke then (s.1 + 1, s.2 - 1) else s
          if findSize = 0 then Sum.inr (some (some next.1)) else Sum.inl next
      else Sum.inl (s.1 + 1, s.2 - 1)

/-- **`memmem_P`**: where the needle is in the haystack; `none` for a read outside of
them. -/
def memmemP (buf : List UInt8) (bufSize : ℕ) (findP : List UInt8) (findPSize : ℕ) :
    Fueled (Option (Option ℕ)) :=
  match findP[0]? with
  | none => pure none
  | some first =>
    Fueled.loop (fun s => pure (turn buf findP first ((findPSize + 2 ^ 32 - 1) % 2 ^ 32) s))
      (0, bufSize)

/-- **The first occurrence is found**, if there is one, and nothing else is read. -/
def Finds (buf findP : List UInt8) : Prop :=
  (memmemP buf buf.length findP findP.length).Yields (some (List.firstOccurrence findP buf))

variable {buf findP as bs rest : List UInt8} {first : UInt8} {i : ℕ}

/-- **What the comparison finds out**: an occurrence, the end of the haystack, or a
difference. -/
theorem compare_cases {findTag tag : ℕ} (has : findP.drop findTag = as)
    (hbs : buf.drop tag = bs) :
    (as <+: bs ∧ compare buf findP as.length findTag bs.length tag = some (false, 0)) ∨
      (¬ as <+: bs ∧ bs <+: as ∧
        ∃ m, compare buf findP as.length findTag bs.length tag = some (false, m + 1)) ∨
      (¬ as <+: bs ∧ ¬ bs <+: as ∧
        ∃ m, compare buf findP as.length findTag bs.length tag = some (true, m + 1)) := by
  induction as generalizing findTag tag bs with
  | nil => exact Or.inl ⟨List.nil_prefix, by unfold compare; cases bs <;> rfl⟩
  | cons a as ih =>
    cases bs with
    | nil => exact Or.inr (Or.inl ⟨by simp, List.nil_prefix, as.length, by unfold compare; rfl⟩)
    | cons b bs =>
      have ha : findP[findTag]? = some a := by rw [← List.head?_drop, has]; rfl
      have hb : buf[tag]? = some b := by rw [← List.head?_drop, hbs]; rfl
      have has' : findP.drop (findTag + 1) = as := by rw [← List.tail_drop, has]; rfl
      have hbs' : buf.drop (tag + 1) = bs := by rw [← List.tail_drop, hbs]; rfl
      have hstep : compare buf findP (a :: as).length findTag (b :: bs).length tag =
          if a ≠ b then some (true, as.length + 1)
          else compare buf findP as.length (findTag + 1) bs.length (tag + 1) := by
        rw [List.length_cons, List.length_cons, compare, ha, hb]
        rfl
      rw [hstep, List.cons_prefix_cons, List.cons_prefix_cons]
      by_cases hab : a = b
      · subst hab
        simpa only [ne_eq, not_true_eq_false, if_false, true_and] using ih has' hbs'
      · rw [if_pos hab]
        exact Or.inr (Or.inr ⟨fun h => hab h.1, fun h => hab h.1.symm, as.length, rfl⟩)

/-- **What a turn does**: it reports that there is nothing left, or an occurrence; it
changes nothing; or it goes on to the next place. -/
theorem turn_cases (buf : List UInt8) (hfind : findP = first :: rest) (i : ℕ) :
    (buf.length ≤ i ∧
      turn buf findP first rest.length (i, (buf.drop i).length) = Sum.inr (some none)) ∨
    (findP <+: buf.drop i ∧
      turn buf findP first rest.length (i, (buf.drop i).length) = Sum.inr (some (some i))) ∨
    (i < buf.length ∧ ¬ findP <+: buf.drop i ∧ buf.drop i <+: findP ∧
      turn buf findP first rest.length (i, (buf.drop i).length) =
        Sum.inl (i, (buf.drop i).length)) ∨
    (i < buf.length ∧ ¬ findP <+: buf.drop i ∧ ¬ buf.drop i <+: findP ∧
      turn buf findP first rest.length (i, (buf.drop i).length) =
        Sum.inl (i + 1, (buf.drop (i + 1)).length)) := by
  subst hfind
  cases hdrop : buf.drop i with
  | nil => exact Or.inl ⟨List.drop_eq_nil_iff.mp hdrop, rfl⟩
  | cons c bs =>
    have hi : i < buf.length := by
      by_contra hge
      rw [List.drop_eq_nil_of_le (by omega)] at hdrop
      cases hdrop
    have hc : buf[i]? = some c := by rw [← List.head?_drop, hdrop]; rfl
    have hbs : buf.drop (i + 1) = bs := by rw [← List.tail_drop, hdrop]; rfl
    have hsub : (c :: bs).length - 1 = bs.length := rfl
    have hpos : (i, (c :: bs).length).2 ≠ 0 := Nat.succ_ne_zero _
    rw [hbs, List.cons_prefix_cons, List.cons_prefix_cons]
    refine Or.inr ?_
    unfold turn
    rw [if_neg hpos, hc]
    dsimp only
    by_cases hfirst : c = first
    · subst hfirst
      rw [if_pos rfl, hsub]
      rcases compare_cases (show (c :: rest).drop 1 = rest from rfl) hbs with
        ⟨hpre, heq⟩ | ⟨hnot, hpre, m, heq⟩ | ⟨hnot, hnot', m, heq⟩
      · exact Or.inl ⟨⟨rfl, hpre⟩, by rw [heq]; rfl⟩
      · exact Or.inr (Or.inl ⟨hi, fun h => hnot h.2, ⟨rfl, hpre⟩, by rw [heq]; rfl⟩)
      · exact Or.inr (Or.inr ⟨hi, fun h => hnot h.2, fun h => hnot' h.2, by rw [heq]; rfl⟩)
    · rw [if_neg hfirst]
      exact Or.inr (Or.inr ⟨hi, fun h => hfirst h.1.symm, fun h => hfirst h.1, rfl⟩)

theorem memmemP_eq (hfind : findP = first :: rest) (hsize : findP.length < 2 ^ 32) :
    memmemP buf buf.length findP findP.length =
      Fueled.loop (fun s => pure (turn buf findP first rest.length s))
        (0, (buf.drop 0).length) := by
  have hmod : (findP.length + 2 ^ 32 - 1) % 2 ^ 32 = rest.length := by
    rw [hfind] at hsize ⊢
    rw [List.length_cons] at hsize ⊢
    omega
  unfold memmemP
  rw [hmod, hfind]
  rfl

/-- **Where the haystack ends in the beginning of a needle** that is not in it, the search
comes to that place and stays there. -/
theorem never_memmemP (hfind : findP = first :: rest) (hsize : findP.length < 2 ^ 32)
    (hnone : ¬ findP <:+: buf) {n : ℕ} (hpos : 0 < n) (hlt : n < findP.length)
    (hends : findP.take n <:+ buf) : (memmemP buf buf.length findP findP.length).Never := by
  have hroom : n ≤ buf.length := by
    have hle := hends.length_le
    rw [List.length_take] at hle
    omega
  rw [memmemP_eq hfind hsize]
  refine Fueled.never_loop (fun s => ∃ i, s = (i, (buf.drop i).length) ∧ i + n ≤ buf.length)
    (fun s => Fueled.steady_pure _) ?_ ⟨0, rfl, by omega⟩
  rintro _ ⟨i, rfl, hi⟩
  refine Or.inr ?_
  rcases turn_cases buf hfind i with
    ⟨hend, -⟩ | ⟨hfound, -⟩ | ⟨-, -, -, heq⟩ | ⟨-, -, hdiffers, heq⟩
  · omega
  · exact absurd (hfound.isInfix.trans (List.drop_suffix i buf).isInfix) hnone
  · exact ⟨_, heq ▸ Fueled.yields_pure _, i, rfl, hi⟩
  · refine ⟨_, heq ▸ Fueled.yields_pure _, i + 1, rfl, ?_⟩
    -- At the last place it looks at, all of the haystack is the beginning.
    by_contra hlast
    obtain rfl : i = buf.length - n := by omega
    have htake : findP.take n = buf.drop (buf.length - n) := by
      rw [List.suffix_iff_eq_drop.mp hends, List.length_take, min_eq_left (by omega)]
    exact hdiffers (htake ▸ List.take_prefix n findP)

/-- A place at which the search stays is behind every occurrence, and the beginning of a
needle. -/
theorem not_stuck (hpre : buf.drop i <+: findP) (hnot : ¬ findP <+: buf.drop i)
    (hi : i < buf.length) (hbefore : ∀ j < i, ¬ findP <+: buf.drop j) :
    ¬ findP <:+: buf ∧ ∃ n, 0 < n ∧ n < findP.length ∧ findP.take n <:+ buf := by
  have hlength := hpre.length_le
  have hne : (buf.drop i).length ≠ findP.length := fun heq =>
    hnot (hpre.eq_of_length heq ▸ List.prefix_refl _)
  rw [List.length_drop] at hlength hne
  constructor
  · rintro ⟨t, u, htu⟩
    have hroom := congrArg List.length htu
    rw [List.length_append, List.length_append] at hroom
    refine hbefore t.length (by omega) ?_
    rw [← htu, List.append_assoc, List.drop_left]
    exact List.prefix_append findP u
  · refine ⟨buf.length - i, by omega, by omega, ?_⟩
    have htake := List.prefix_iff_eq_take.mp hpre
    rw [List.length_drop] at htake
    rw [← htake]
    exact List.drop_suffix i buf

/-- **Otherwise it ends** with the first occurrence. -/
theorem yields_memmemP (hfind : findP = first :: rest) (hsize : findP.length < 2 ^ 32)
    (hcond : findP <:+: buf ∨ ∀ n, 0 < n → n < findP.length → ¬ findP.take n <:+ buf) :
    (memmemP buf buf.length findP findP.length).Yields
      (some (List.firstOccurrence findP buf)) := by
  have hne : findP ≠ [] := hfind ▸ List.cons_ne_nil first rest
  have hinside : ∀ j, findP <+: buf.drop j → j < buf.length := by
    intro j hj
    by_contra hge
    rw [List.drop_eq_nil_of_le (by omega)] at hj
    exact hne (List.prefix_nil.mp hj)
  rw [memmemP_eq hfind hsize]
  have hloop : ∃ a, (Fueled.loop (fun s => pure (turn buf findP first rest.length s))
      (0, (buf.drop 0).length)).Yields a ∧ a = some (List.firstOccurrence findP buf) := by
    refine Fueled.exists_yields_loop
      (fun s => ∃ i, s = (i, (buf.drop i).length) ∧ ∀ j < i, ¬ findP <+: buf.drop j)
      (fun s => s.2) (fun a => a = some (List.firstOccurrence findP buf)) ?_
      ⟨0, rfl, fun j hj => absurd hj (Nat.not_lt_zero j)⟩
    rintro _ ⟨i, rfl, hbefore⟩
    rcases turn_cases buf hfind i with
      ⟨hend, heq⟩ | ⟨hfound, heq⟩ | ⟨hi, hnot, hpre, -⟩ | ⟨hi, hnot, -, heq⟩
    · refine Or.inl ⟨some none, heq ▸ Fueled.yields_pure _, ?_⟩
      cases hfirst : List.firstOccurrence findP buf with
      | none => rfl
      | some k =>
        obtain ⟨hk, -⟩ := List.firstOccurrence_some hfirst
        have hlt := hinside k hk
        exact absurd hk (hbefore k (by omega))
    · refine Or.inl ⟨some (some i), heq ▸ Fueled.yields_pure _, ?_⟩
      rw [List.firstOccurrence_eq_some hfound (hinside i hfound).le hbefore]
    · obtain ⟨hnone, n, hpos, hlt, hends⟩ := not_stuck hpre hnot hi hbefore
      exact absurd hends (hcond.resolve_left hnone n hpos hlt)
    · refine Or.inr ⟨_, heq ▸ Fueled.yields_pure _, ⟨i + 1, rfl, fun j hj => ?_⟩, ?_⟩
      · rcases Nat.lt_succ_iff_lt_or_eq.mp hj with hlt | rfl
        · exact hbefore j hlt
        · exact hnot
      · show (buf.drop (i + 1)).length < (buf.drop i).length
        rw [List.length_drop, List.length_drop]
        omega
  obtain ⟨a, ha, rfl⟩ := hloop
  exact ha

/-- **`memmem_P` is right** if it finds the needle, or if the haystack does not end in the
beginning of one; in no other case does it return. -/
theorem finds_iff (buf : List UInt8) (hfind : findP ≠ []) (hsize : findP.length < 2 ^ 32) :
    Finds buf findP ↔
      findP <:+: buf ∨ ∀ n, 0 < n → n < findP.length → ¬ findP.take n <:+ buf := by
  obtain ⟨first, rest, hcons⟩ := List.exists_cons_of_ne_nil hfind
  constructor
  · intro h
    refine or_iff_not_imp_left.mpr fun hnone n hpos hlt hends => ?_
    exact (never_memmemP hcons hsize hnone hpos hlt hends).not_yields _ h
  · exact yields_memmemP hcons hsize

/-- `bc` is not in `ab`, and is looked for in `b` for ever. -/
theorem not_finds_end : ¬ Finds [97, 98] [98, 99] :=
  (never_memmemP (n := 1) rfl (by decide) (by decide) (by decide) (by decide)
    (by decide)).not_yields _

theorem finds_inside : Finds [97, 98, 99, 98] [98, 99] :=
  (finds_iff [97, 98, 99, 98] (by decide) (by decide)).mpr (Or.inl (by decide))

end MemMem
