import Esp31b.StringReplaced

/-!
# Room for a longer text

Where `replace` makes a text longer, it counts the occurrences from the left, makes room
for them, and goes on from the right. Nothing looks at the room again.
`StringObject.growing` is that branch with the length after every pass, and
`StringObject.contained_iff` says when the length stays within the size that was counted
and every access in the block: each occurrence that is found from the left must have one
from the right and no more (`List.OneEach`), and the size must not overflow.

A text to look for that has a NUL in it is as long as its length in the counting and in the
replacing, and ends at the NUL in the searches. Where it does not occur, that makes no
difference.
-/

namespace StringObject

variable {s find rep : StringObject} {T f r b : List UInt8} {k m size turns : ℕ}

/-- The lengths that the loop from the right goes through. -/
def lensLonger (find : List UInt8) (findLen : ℕ) (rep : List UInt8) :
    ℕ → List UInt8 → ℕ → ℕ → Option (List ℕ)
  | 0, _, _, _ => none
  | _ + 1, _, len, 0 => some [len]
  | turns + 1, b, len, index + 1 => do
    let found ← lastIndexOf find findLen b len index
    match found with
    | none => return [len]
    | some index =>
      let (b, next) ← replaceFound findLen rep b len index
      let lens ← lensLonger find findLen rep turns b next index
      return len :: lens

/-- The size that is counted. -/
def sizeCounted (s find rep : StringObject) : Option ℕ := do
  let b ← s.buffer
  let text ← find.text 0
  sizeNeeded text find.len (rep.len - find.len) b (b.length + 1) 0 s.len

/-- **The branch for a longer text**: the size, and the lengths. -/
def growing (s find rep : StringObject) : Option (ℕ × List ℕ) :=
  if s.len = 0 ∨ find.len = 0 then some (s.len, [s.len])
  else do
    let size ← s.sizeCounted find rep
    if size = s.len then return (size, [s.len])
    else
      let text ← find.text 0
      let bytes ← rep.load 0 rep.len
      let (changed, s) ← s.grow size true
      if changed then
        let b ← s.buffer
        let lens ← lensLonger text find.len bytes (s.len + 1) b s.len s.len
        return (size, lens)
      else return (size, [s.len])

/-- **The length never exceeds the size**, and `replace` stays in its blocks. -/
def Contained (s find rep : StringObject) : Prop :=
  ∃ t size lens, s.replace find rep true = some t ∧ s.growing find rep = some (size, lens) ∧
    ∀ n ∈ lens, n ≤ size

/-- How many occurrences are found from the right, each being replaced at once. -/
def foundBack (s find rep : StringObject) : ℕ :=
  List.countBack find.contents ((rep.load 0 rep.len).getD []) find.len s.len s.contents

/-- **A size that is enough**: nothing is replaced; or there is memory, and there are no
more occurrences from the right than it has room for, each of them in the string as a
whole. -/
def Enough (s find rep : StringObject) (size : ℕ) : Prop :=
  size = s.len ∨ (size ≤ s.capacity ∨ size + 16 < 2 ^ 32) ∧
    (s.len < find.len ∧ s.len ≤ size ∨ find.len ≤ s.len ∧
      (∀ j < s.len, find.contents <+: s.contents.drop j → j + find.len ≤ s.len) ∧
      s.len + (rep.len - find.len) * s.foundBack find rep ≤ size)

/-- **Where there is no NUL in the text that is looked for**: nothing is replaced; or there
are no more occurrences from the right than from the left, and memory for them. -/
def NoMoreBack (s find rep : StringObject) : Prop :=
  let found := List.countFrom find.contents 0 s.contents
  (rep.len - find.len) * found % 2 ^ 32 = 0 ∨
    s.foundBack find rep ≤ found ∧
      (s.len + (rep.len - find.len) * found ≤ s.capacity ∨
        s.len + (rep.len - find.len) * found + 16 < 2 ^ 32)

/-! ## The loop -/

/-- **The lengths grow** up to the last one. -/
theorem exists_lensLonger (hf : f ≠ []) (hf0 : 0 ∉ f) (hm : f.length ≤ m) (hle : m ≤ r.length)
    (hb : b.length ≤ 2 ^ 32) (k : ℕ) (T : List UInt8) (hT : T.length < b.length)
    (hk : k ≤ T.length) (hmT : m ≤ T.length) (hfree : 0 ∉ T.take k)
    (hclear : ∀ j < k, f <+: T.drop j → j + m ≤ T.length) (hturns : k < turns)
    (hroom : (List.replaceBack f r m k T).length < b.length) :
    ∃ lens, lensLonger f m r turns (withText b T) T.length k = some lens ∧
      (List.replaceBack f r m k T).length ∈ lens ∧
      T.length ≤ (List.replaceBack f r m k T).length ∧
      ∀ n ∈ lens, n ≤ (List.replaceBack f r m k T).length := by
  induction k, T using List.last_induction f r m generalizing turns with
  | hnone k T hnone =>
    obtain ⟨n, rfl⟩ : ∃ n, turns = n + 1 := ⟨turns - 1, by omega⟩
    rw [List.replaceBack_of_none hnone]
    refine ⟨[T.length], ?_, List.mem_singleton_self _, le_rfl, fun n hn =>
      (List.mem_singleton.mp hn).le⟩
    cases k with
    | zero => rfl
    | succ k =>
      rw [lensLonger, lastIndexOf_contents hf hf0 hm hmT hT hk hfree, hnone]
      rfl
  | hsome k T i hlast ih =>
    obtain ⟨n, rfl⟩ : ∃ n, turns = n + 1 := ⟨turns - 1, by omega⟩
    obtain ⟨hi, hoccurs, -⟩ := List.lastOccurrence_some hlast
    have him := hclear i hi hoccurs
    obtain ⟨k, rfl⟩ : ∃ k', k = k' + 1 := ⟨k - 1, by omega⟩
    rw [List.replaceBack_of_last hlast] at hroom ⊢
    have hlength := List.length_replaceAt him hle
    have hgrown := List.length_replaceBack (f := f) (r := r) (k := i) hle
      (s := T.take i ++ (r ++ T.drop (i + m))) (fun j hj _ => by omega)
    obtain ⟨lens, hlens, hlast', hmore, hall⟩ := ih (by omega) (by omega) (by omega)
      (zero_not_mem_front hi (by omega) hfree) (fun j hj _ => by omega) (by omega : i < n) hroom
    refine ⟨T.length :: lens, ?_, List.mem_cons_of_mem _ hlast', by omega, fun n hn => ?_⟩
    · rw [lensLonger, lastIndexOf_contents hf hf0 hm hmT hT hk hfree, hlast,
        Option.bind_eq_bind, Option.bind_some]
      dsimp only
      rw [replaceFound_eq him hle hT hb, if_pos (by omega), Option.bind_eq_bind,
        Option.bind_some]
      dsimp only
      rw [hlens]
      rfl
    · rcases List.mem_cons.mp hn with rfl | hn
      · omega
      · exact hall n hn

/-- **An occurrence that is not all in the string**: what would be moved has a negative
length. -/
theorem replaceLonger_overrun {i : ℕ} (turns : ℕ) (r : List UInt8) (hf : f ≠ []) (hf0 : 0 ∉ f)
    (hm : f.length ≤ m) (hb : b.length ≤ 2 ^ 32) (hT : T.length < b.length) (hk : k < T.length)
    (hmT : m ≤ T.length) (hfree : 0 ∉ T.take (k + 1))
    (hlast : List.lastOccurrence f T (k + 1) = some i) (hover : T.length < i + m) :
    replaceLonger f m r turns (withText b T) T.length (k + 1) = none := by
  obtain ⟨hi, -, -⟩ := List.lastOccurrence_some hlast
  have hlength := length_withText hT
  cases turns with
  | zero => rfl
  | succ n =>
    have hread : Block.read (withText b T) (i + m) ((T.length + 2 ^ 32 - (i + m)) % 2 ^ 32) =
        none := if_neg (by omega)
    have hfound : replaceFound m r (withText b T) T.length i = none := by
      unfold replaceFound
      dsimp only
      rw [hread]
      rfl
    rw [replaceLonger, lastIndexOf_contents hf hf0 hm hmT hT hk hfree, hlast,
      Option.bind_eq_bind, Option.bind_some]
    dsimp only
    rw [hfound]
    rfl

/-- Nothing to look for is found for ever. -/
theorem sizeNeeded_nil (findLen diff p : ℕ) :
    sizeNeeded [] findLen diff b turns p size = none := by
  induction turns generalizing p size with
  | zero => rfl
  | succ n ih =>
    rw [sizeNeeded]
    cases hfound : Block.strstr b p [] with
    | none => rfl
    | some q =>
      unfold Block.strstr at hfound
      obtain ⟨t, -, hq⟩ := Option.bind_eq_some_iff.mp hfound
      have hfirst : List.firstOccurrence [] t = some 0 := by
        cases t <;> rfl
      rw [hfirst] at hq
      cases hq
      exact ih _

/-- A size is a 32-bit number. -/
theorem sizeNeeded_lt {findLen diff p n : ℕ} (hsize : size < 2 ^ 32)
    (h : sizeNeeded f findLen diff b turns p size = some n) : n < 2 ^ 32 := by
  induction turns generalizing p size with
  | zero => cases h
  | succ k ih =>
    rw [sizeNeeded] at h
    obtain ⟨q, -, h⟩ := Option.bind_eq_some_iff.mp h
    cases q with
    | none =>
      cases h
      exact hsize
    | some q => exact ih (Nat.mod_lt _ (by decide)) h

/-- There is no memory for a size that overflows. -/
theorem grow_overflow (hs : s.Valid) (hlen : s.len ≠ 0) (hcap : s.capacity < size)
    (hsize : size < 2 ^ 32) (hover : 2 ^ 32 ≤ size + 16) : s.grow size true = none := by
  obtain ⟨old, hold, hlength, -⟩ := hs.load
  have hzero : (size + 16) % 2 ^ 32 / 16 * 16 = 0 := by omega
  have hwrite : Block.write (List.replicate 0 (0 : UInt8)) 0 old = none :=
    if_neg (by rw [List.length_replicate]; omega)
  unfold grow changeBuffer
  dsimp only
  rw [if_pos hcap, if_pos rfl, hold, hzero, Option.bind_eq_bind, Option.bind_some, hwrite]
  rfl

/-! ## `replace` -/

/-- **The loop from the right** stays within a size that is enough. -/
theorem contained_loop {c : List UInt8} (hf : f ≠ []) (hf0 : 0 ∉ f) (hm : f.length ≤ m)
    (hle : m < r.length) (hc : c.length ≤ 2 ^ 32) (hT : T.length < c.length) (hT0 : 0 ∉ T)
    (hempty : T ≠ []) (hsize : size < c.length) :
    (∃ b' len' lens,
      replaceLonger f m r (T.length + 1) (withText c T) T.length T.length = some (b', len') ∧
      lensLonger f m r (T.length + 1) (withText c T) T.length T.length = some lens ∧
      ∀ n ∈ lens, n ≤ size) ↔
    T.length < m ∧ T.length ≤ size ∨ m ≤ T.length ∧
      (∀ j < T.length, f <+: T.drop j → j + m ≤ T.length) ∧
      T.length + (r.length - m) * List.countBack f r m T.length T ≤ size := by
  have hpos := List.length_pos_iff.mpr hempty
  have hfree : 0 ∉ T.take T.length := by rwa [List.take_length]
  by_cases hmT : m ≤ T.length
  · by_cases hclear : ∀ j < T.length, f <+: T.drop j → j + m ≤ T.length
    · have hturns := Nat.lt_succ_self T.length
      have hloop := replaceLonger_eq hf hf0 hm hle.le hc T.length T hT le_rfl hmT hfree hclear
        hturns
      have hlens := exists_lensLonger hf hf0 hm hle.le hc T.length T hT le_rfl hmT hfree hclear
        hturns
      rw [← List.length_replaceBack hle.le hclear]
      constructor
      · rintro ⟨b', len', lens, hrun, hrunLens, hall⟩
        rw [hloop] at hrun
        split at hrun
        · rename_i hroom
          obtain ⟨lens', hlens', hlast, -, -⟩ := hlens hroom
          obtain rfl := Option.some.inj (hlens'.symm.trans hrunLens)
          exact Or.inr ⟨hmT, hclear, hall _ hlast⟩
        · cases hrun
      · rintro (⟨hshort, -⟩ | ⟨-, -, hfits⟩)
        · omega
        · obtain ⟨lens, hrunLens, -, -, hall⟩ := hlens (by omega)
          rw [hloop, if_pos (by omega)]
          exact ⟨_, _, lens, rfl, hrunLens, fun n hn => (hall n hn).trans hfits⟩
    · -- The last occurrence is one that is not all in the string.
      have hnone : replaceLonger f m r (T.length + 1) (withText c T) T.length T.length =
          none := by
        obtain ⟨k, hk⟩ : ∃ k, T.length = k + 1 := ⟨T.length - 1, by omega⟩
        simp only [not_forall] at hclear
        obtain ⟨j, hj, hoccurs, hover⟩ := hclear
        cases hlast : List.lastOccurrence f T T.length with
        | none => exact absurd hoccurs (List.lastOccurrence_none hlast j hj)
        | some i =>
          have hji := (List.lastOccurrence_some hlast).2.2 j hj hoccurs
          rw [hk] at hlast hfree
          have hrun := replaceLonger_overrun T.length.succ r hf hf0 hm hc hT
            (by omega : k < T.length) hmT hfree hlast (by omega)
          rwa [← hk] at hrun
      rw [hnone]
      constructor
      · rintro ⟨b', len', lens, hrun, -, -⟩
        cases hrun
      · rintro (⟨hshort, -⟩ | ⟨-, hclear', -⟩)
        · omega
        · exact absurd hclear' hclear
  · -- The text that is looked for is longer than the string.
    obtain ⟨k, hk⟩ : ∃ k, T.length = k + 1 := ⟨T.length - 1, by omega⟩
    have hlast : lastIndexOf f m (withText c T) T.length k = some none :=
      if_pos (Or.inr (Or.inr (by omega)))
    have hrun : replaceLonger f m r (T.length + 1) (withText c T) T.length T.length =
        some (withText c T, T.length) := by
      rw [hk] at hlast ⊢
      rw [replaceLonger, hlast]
      rfl
    have hrunLens : lensLonger f m r (T.length + 1) (withText c T) T.length T.length =
        some [T.length] := by
      rw [hk] at hlast ⊢
      rw [lensLonger, hlast]
      rfl
    rw [hrun, hrunLens]
    constructor
    · rintro ⟨b', len', lens, -, hlens, hall⟩
      cases hlens
      exact Or.inl ⟨by omega, hall _ (List.mem_singleton_self _)⟩
    · rintro (⟨-, hfits⟩ | ⟨hshort, -⟩)
      · exact ⟨_, _, _, rfl, rfl, fun n hn => (List.mem_singleton.mp hn).le.trans hfits⟩
      · omega

/-! ## `replace` -/

/-- **Contained, by the size** that is counted. -/
theorem contained_iff_enough (hs : s.Valid) (hfind : find.Valid) (hrep : rep.Valid)
    (hsfree : s.NulFree) (hlen : s.len ≠ 0) (hne : find.len ≠ 0) (hlonger : find.len < rep.len)
    (hcap : s.capacity < 2 ^ 32) :
    s.Contained find rep ↔ ∃ size, s.sizeCounted find rep = some size ∧
      s.Enough find rep size := by
  obtain ⟨b, hb⟩ := hs.exists_buffer hlen
  obtain ⟨fb, hfb⟩ := hfind.exists_buffer hne
  obtain ⟨hslen, hs0, -⟩ := hsfree.contents_spec hs
  obtain ⟨f, hf, hflen⟩ := hfind.text hfb
  obtain ⟨r, hload, hrlen, -⟩ := hrep.load
  have hfcontents := contents_eq hfb hf
  have hf0 := (Block.text_eq_some_iff.mp hf).1
  have htext := hs.text_contents hb
  obtain ⟨hcapacity, hle, -⟩ := (valid_some hb).mp hs
  have hcounted : s.sizeCounted find rep =
      sizeNeeded f find.len (rep.len - find.len) b (b.length + 1) 0 s.len := by
    unfold sizeCounted
    rw [hb, text_eq hfb, hf]
    rfl
  unfold Contained growing replace Enough foundBack
  rw [hload, hfcontents, if_neg (by omega), if_neg (by omega), hcounted, hb, text_eq hfb, hf]
  simp only [Option.bind_eq_bind, Option.bind_some]
  rw [if_neg (by omega), if_neg (by omega), Option.getD_some]
  cases hsize : sizeNeeded f find.len (rep.len - find.len) b (b.length + 1) 0 s.len with
  | none =>
    constructor
    · rintro ⟨t, size, lens, ht, -, -⟩
      cases ht
    · rintro ⟨size, hnone, -⟩
      cases hnone
  | some size =>
    have hlt := sizeNeeded_lt (by omega) hsize
    have hf : f ≠ [] := fun hnil => by
      rw [hnil, sizeNeeded_nil] at hsize
      cases hsize
    simp only [Option.bind_some, Option.some.injEq, exists_eq_left']
    by_cases hsame : size = s.len
    · rw [if_pos hsame, if_pos hsame]
      refine ⟨fun _ => Or.inl hsame, fun _ => ⟨s, size, [s.len], rfl, rfl, fun n hn => ?_⟩⟩
      exact (List.mem_singleton.mp hn).le.trans hsame.ge
    rw [if_neg hsame, if_neg hsame, or_iff_right hsame]
    by_cases hmemory : size ≤ s.capacity ∨ size + 16 < 2 ^ 32
    · obtain ⟨u, c, hgrow, hu, hulen, hc, hroom, hctext⟩ := exists_grow hs hb htext hmemory
      obtain ⟨hucapacity, -, -⟩ := (valid_some hc).mp hu
      have hucap := grow_capacity hcap hgrow
      have hin : s.contents.length < c.length := by
        rw [hslen, ← hulen]
        have hule := ((valid_some hc).mp hu).2.1
        omega
      have hloop := contained_loop (T := s.contents) (m := find.len) (r := r) hf hf0 hflen
        (by omega)
        (by omega : c.length ≤ 2 ^ 32) hin hs0 (List.length_pos_iff.mp (by omega))
        (by omega : size < c.length)
      rw [withText_of_text hctext, hslen, hrlen] at hloop
      rw [hgrow]
      simp only [Option.bind_some, if_true, hc, hulen]
      rw [and_iff_right hmemory, ← hloop]
      constructor
      · rintro ⟨t, n, lens, ht, hlens, hall⟩
        obtain ⟨⟨b', len'⟩, hrun, -⟩ := Option.bind_eq_some_iff.mp ht
        obtain ⟨lens', hrunLens, hpair⟩ := Option.bind_eq_some_iff.mp hlens
        cases hpair
        exact ⟨b', len', lens, hrun, hrunLens, hall⟩
      · rintro ⟨b', len', lens, hrun, hrunLens, hall⟩
        rw [hrun, hrunLens]
        exact ⟨_, size, lens, rfl, rfl, hall⟩
    · rw [grow_overflow hs hlen (by omega) hlt (by omega)]
      constructor
      · rintro ⟨t, n, lens, ht, -, -⟩
        cases ht
      · rintro ⟨hmemory', -⟩
        exact absurd hmemory' hmemory

/-- **A text without a NUL**: what matters is how many occurrences there are. -/
theorem enough_iff_noMoreBack (hs : s.Valid) (hfind : find.Valid) (hsfree : s.NulFree)
    (hffree : find.NulFree) (hlen : s.len ≠ 0) (hne : find.len ≠ 0)
    (hlonger : find.len < rep.len) (hcap : s.capacity < 2 ^ 32) :
    (∃ size, s.sizeCounted find rep = some size ∧ s.Enough find rep size) ↔
      s.NoMoreBack find rep := by
  obtain ⟨b, hb⟩ := hs.exists_buffer hlen
  obtain ⟨fb, hfb⟩ := hfind.exists_buffer hne
  obtain ⟨hslen, -, -⟩ := hsfree.contents_spec hs
  obtain ⟨hflen, -, -⟩ := hffree.contents_spec hfind
  have hf : find.contents ≠ [] := List.length_pos_iff.mp (by omega)
  obtain ⟨-, hle, hzero⟩ := (valid_some hb).mp hs
  have hcounted : s.sizeCounted find rep = some ((s.len + (rep.len - find.len) *
      List.countFrom find.contents 0 s.contents) % 2 ^ 32) := by
    have hmod := sizeNeeded_mod (rep.len - find.len) s.len hf hzero (Nat.zero_le _)
      (hs.text_contents hb) (by omega) (by omega : b.length < 0 + (b.length + 1))
    unfold sizeCounted
    rw [hb, text_eq hfb, hfind.text_contents hfb, ← hmod, hflen]
    rfl
  have hmore : List.countFrom find.contents 0 s.contents ≤ s.foundBack find rep := by
    have hcount := List.countFrom_le_countBack ((rep.load 0 rep.len).getD []) find.len hf s.len
      s.contents
    rwa [← hslen, List.take_length, hslen] at hcount
  have hclear : ∀ j < s.len, find.contents <+: s.contents.drop j → j + find.len ≤ s.len :=
    fun j hj hoccurs => by
      have hinside := hoccurs.length_le
      rw [List.length_drop] at hinside
      omega
  have hshort : s.len < find.len →
      (rep.len - find.len) * List.countFrom find.contents 0 s.contents = 0 := by
    intro hlt
    have hnone : List.firstOccurrence find.contents s.contents = none := by
      cases hfirst : List.firstOccurrence find.contents s.contents with
      | none => rfl
      | some i =>
        have hinside := (List.firstOccurrence_some hfirst).1.length_le
        rw [List.length_drop] at hinside
        omega
    rw [List.countFrom_of_none hnone, Nat.mul_zero]
  have hmoreSize := Nat.mul_le_mul_left (rep.len - find.len) hmore
  have hnoMore : s.foundBack find rep ≤ List.countFrom find.contents 0 s.contents ↔
      (rep.len - find.len) * s.foundBack find rep ≤
        (rep.len - find.len) * List.countFrom find.contents 0 s.contents :=
    (Nat.mul_le_mul_left_iff (by omega)).symm
  unfold Enough NoMoreBack
  dsimp only
  rw [hcounted, hnoMore]
  simp only [Option.some.injEq, exists_eq_left']
  generalize (rep.len - find.len) * List.countFrom find.contents 0 s.contents = left at *
  generalize (rep.len - find.len) * s.foundBack find rep = right at *
  constructor
  · rintro (hsame | ⟨hmemory, ⟨hlt, -⟩ | ⟨-, -, hfits⟩⟩)
    · exact Or.inl (by omega)
    · exact Or.inl (by have hnone := hshort hlt; omega)
    · exact Or.inr ⟨by omega, by omega⟩
  · rintro (hzero' | ⟨hle', hmemory⟩)
    · exact Or.inl (by omega)
    · by_cases hlt : s.len < find.len
      · exact Or.inl (by rw [hshort hlt]; omega)
      · exact Or.inr ⟨by omega, Or.inr ⟨by omega, hclear, by omega⟩⟩

/-- Nothing is found, and the size is the length. -/
theorem sizeCounted_of_none (hs : s.Valid) (hfind : find.Valid) (hlen : s.len ≠ 0)
    (hne : find.len ≠ 0) (hnone : List.firstOccurrence find.contents s.contents = none) :
    s.sizeCounted find rep = some s.len := by
  obtain ⟨b, hb⟩ := hs.exists_buffer hlen
  obtain ⟨fb, hfb⟩ := hfind.exists_buffer hne
  unfold sizeCounted
  rw [hb, text_eq hfb, hfind.text_contents hfb]
  exact sizeNeeded_absent (hs.text_contents hb) hnone _ _ _

/-- **Where the length stays within the size**: the string is empty, or nothing has to be
put in; or there is memory, and the pieces that the string is cut into from the left have
one occurrence from the right for each. -/
def Fits (s find rep : StringObject) : Prop :=
  let found := List.countFrom find.contents 0 s.contents
  s.len = 0 ∨ (rep.len - find.len) * found % 2 ^ 32 = 0 ∨
    (∃ t, List.OneEach find.contents ((rep.load 0 rep.len).getD [])
      (List.cut find.contents 0 s.contents) t) ∧
    (s.len + (rep.len - find.len) * found ≤ s.capacity ∨
      s.len + (rep.len - find.len) * found + 16 < 2 ^ 32)

/-- **`replace` stays in its room**, exactly there. A text to look for with a NUL in it is
taken to be one that does not occur. -/
theorem contained_iff (s find rep : StringObject) (hs : s.Valid) (hfind : find.Valid)
    (hrep : rep.Valid) (hsfree : s.NulFree) (hne : find.len ≠ 0) (hlonger : find.len < rep.len)
    (hcap : s.capacity < 2 ^ 32)
    (hplain : find.NulFree ∨ ∀ j < s.len, ¬ find.contents <+: s.contents.drop j) :
    s.Contained find rep ↔ s.Fits find rep := by
  unfold Fits
  dsimp only
  by_cases hempty : s.len = 0
  · refine ⟨fun _ => Or.inl hempty, fun _ => ⟨s, s.len, [s.len], if_pos (Or.inl hempty),
      if_pos (Or.inl hempty), fun n hn => (List.mem_singleton.mp hn).le⟩⟩
  rw [or_iff_right hempty, contained_iff_enough hs hfind hrep hsfree hempty hne hlonger hcap]
  rcases hplain with hffree | hnone
  · obtain ⟨r, hload, hrlen, -⟩ := hrep.load
    obtain ⟨hflen, -, -⟩ := hffree.contents_spec hfind
    obtain ⟨hslen, -, -⟩ := hsfree.contents_spec hs
    have hle := List.countBack_le_iff (f := find.contents) (r := r)
      (List.length_pos_iff.mp (by omega)) (by omega) s.contents
    rw [hflen, hslen] at hle
    rw [enough_iff_noMoreBack hs hfind hsfree hffree hempty hne hlonger hcap,
      NoMoreBack, foundBack, hload, Option.getD_some, hle]
  · obtain ⟨hslen, -, -⟩ := hsfree.contents_spec hs
    have hfirst : List.firstOccurrence find.contents s.contents = none := by
      cases hfirst : List.firstOccurrence find.contents s.contents with
      | none => rfl
      | some i =>
        obtain ⟨hoccurs, -⟩ := List.firstOccurrence_some hfirst
        have hi : s.len ≤ i := Nat.le_of_not_lt fun hi => hnone i hi hoccurs
        have hnil : find.contents = [] := by
          rwa [List.drop_of_length_le (by omega), List.prefix_nil] at hoccurs
        exact absurd (hnil ▸ List.nil_prefix) (hnone 0 (by omega))
    rw [sizeCounted_of_none hs hfind hempty hne hfirst]
    refine iff_of_true ⟨s.len, rfl, Or.inl rfl⟩ (Or.inl ?_)
    rw [List.countFrom_of_none hfirst, Nat.mul_zero, Nat.zero_mod]

/-- The last two of three letters. -/
theorem contained_overlap :
    Contained ⟨some [97, 97, 97, 0, 0, 0, 0], 6, 3⟩ ⟨some [97, 97, 0], 2, 2⟩
      ⟨some [98, 98, 98, 0], 3, 3⟩ := by
  refine (contained_iff _ _ _ (by decide) (by decide) (by decide) (by decide) (by decide)
    (by decide) (by decide) (Or.inl (by decide))).mpr
    (Or.inr (Or.inr ⟨⟨[97, 98, 98, 98], ?_⟩, ?_⟩))
  · -- The pieces are nothing and a letter.
    exact .cons (g := []) (d := 1) (.last [97]) (by decide) (by decide) (by decide) (by decide)
  · decide

/-- A letter that is put in is found again with the one in front of it, thirteen times. -/
theorem not_contained_crossing :
    Valid ⟨some (List.replicate 13 97 ++ [98, 0, 0]), 15, 14⟩ ∧
      ¬ Contained ⟨some (List.replicate 13 97 ++ [98, 0, 0]), 15, 14⟩ ⟨some [97, 98, 0], 2, 2⟩
        ⟨some [98, 99, 100, 0], 3, 3⟩ := by
  refine ⟨by decide, ?_⟩
  rintro ⟨t, size, lens, ht, -, -⟩
  have hout : replace ⟨some (List.replicate 13 97 ++ [98, 0, 0]), 15, 14⟩
      ⟨some [97, 98, 0], 2, 2⟩
      ⟨some [98, 99, 100, 0], 3, 3⟩ true = none := by
    decide
  rw [hout] at ht
  cases ht

end StringObject
