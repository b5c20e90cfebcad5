import Mathlib.Data.List.Infix
import Esp31b.StringValid

/-!
# `replace` in a `String`

Where the new text is no longer than the old one, the occurrences are replaced
from the left, in place. Where it is longer, they are counted from the left to
know the size that is needed, and replaced from the right by a search that
begins anew each time: it also sees the text that was put in. An occurrence that
begins in front of that text and ends in it was not counted, and there is no
room for it.

So a longer text is safe if no occurrence ever crosses the edge of one that was
replaced. Apart from that, a search compares up to the first NUL of the text
that is looked for, and what is replaced has all of its length.
-/

namespace StringObject

variable {b f rep t : List UInt8} {p q r n w len turns : ℕ}

/-! ## The searches -/

/-- A text inside another one's. -/
theorem text_drop (h : Block.text b p = some t) (hn : n ≤ t.length) :
    Block.text b (p + n) = some (t.drop n) := by
  obtain ⟨hzero, rest, heq⟩ := Block.text_eq_some_iff.mp h
  refine Block.text_eq_some_iff.mpr ⟨fun h0 => hzero (List.mem_of_mem_drop h0), rest, ?_⟩
  rw [← List.drop_drop, heq, List.drop_append_of_le_length hn]

/-- **What a search comes to**, in front of a NUL. -/
theorem strstr_cases (hzero : b[n]? = some 0) (hr : r ≤ n) (hf : f ≠ []) :
    ∃ t, Block.text b r = some t ∧ r + t.length ≤ n ∧
      ((Block.strstr b r f = some none ∧ List.firstOccurrence f t = none) ∨
        ∃ q, Block.strstr b r f = some (some (r + q)) ∧ List.firstOccurrence f t = some q ∧
        q + f.length ≤ t.length) := by
  obtain ⟨t, ht, hle⟩ := Block.text_of_zero hzero hr
  refine ⟨t, ht, hle, ?_⟩
  rw [Block.strstr_eq ht]
  cases hfirst : List.firstOccurrence f t with
  | none => exact Or.inl ⟨rfl, rfl⟩
  | some q =>
    refine Or.inr ⟨q, rfl, rfl, ?_⟩
    obtain ⟨hq, -⟩ := List.firstOccurrence_some hfirst
    have hlen := hq.length_le
    have hpos := List.length_pos_iff.mpr hf
    rw [List.length_drop] at hlen
    omega

/-! ## From the left -/

/-- **Texts of one length**: what is replaced ends in front of the NUL. -/
theorem exists_replaceSame (hf : f ≠ []) (hrep : rep.length = f.length)
    (hzero : b[n]? = some 0) (hr : r ≤ n)
    (hturns : b.length < r + turns) :
    ∃ b', replaceSame f rep turns b r = some b' ∧ b'.length = b.length ∧ b'[n]? = some 0 := by
  have hn := (List.getElem?_eq_some_iff.mp hzero).1
  induction turns generalizing b r with
  | zero => omega
  | succ turns ih =>
    have hpos := List.length_pos_iff.mpr hf
    obtain ⟨t, -, hle, ⟨hnone, -⟩ | ⟨q, hfound, -, hq⟩⟩ := strstr_cases hzero hr hf
    · rw [replaceSame, hnone]
      exact ⟨b, rfl, rfl, hzero⟩
    · have hwrite := Block.write_eq (b := b) (p := r + q) (d := rep) (by omega)
      have hlength := Block.length_of_write hwrite
      have hzero' := (Block.getElem?_write hwrite n).trans ((if_neg (by omega)).trans hzero)
      obtain ⟨b', hb', hlen, hend⟩ := ih (r := r + q + rep.length) hzero' (by omega)
        (by omega) (by omega)
      rw [replaceSame, hfound, Option.bind_eq_bind, Option.bind_some]
      dsimp only
      rw [hwrite, Option.bind_eq_bind, Option.bind_some]
      exact ⟨b', hb', hlen.trans hlength, hend⟩

/-- **A shorter text** moves what is behind it to the left, and the NUL with
it. -/
theorem exists_replaceShorter (hf : f ≠ []) (hrep : rep.length < f.length)
    (hzero : b[n]? = some 0)
    (hfree : ∀ i, r ≤ i → i < n → b[i]? ≠ some 0) (hw : w ≤ r) (hr : r ≤ n)
    (hlen : len = n - (r - w))
    (hturns : b.length < r + turns) :
    ∃ b' len', replaceShorter f f.length rep turns b w r len = some (b', len') ∧
      b'.length = b.length ∧
      len' ≤ n ∧ b'[len']? = some 0 := by
  have hn := (List.getElem?_eq_some_iff.mp hzero).1
  induction turns generalizing b w r len with
  | zero => omega
  | succ turns ih =>
    have hpos := List.length_pos_iff.mpr hf
    obtain ⟨t, ht, hle, ⟨hnone, -⟩ | ⟨q, hfound, -, hq⟩⟩ := strstr_cases hzero hr hf
    · -- what is left is all up to the NUL
      have hend : r + t.length = n := by
        by_contra hne
        exact hfree _ (by omega) (by omega) ((Block.getElem?_text ht le_rfl).trans (if_pos rfl))
      have hlength : (t ++ [0]).length = t.length + 1 := List.length_append
      have hwrite := Block.write_eq (b := b) (p := w) (d := t ++ [0]) (by omega)
      rw [replaceShorter, hnone, Option.bind_eq_bind, Option.bind_some]
      dsimp only
      rw [ht, Option.bind_eq_bind, Option.bind_some, hwrite]
      refine ⟨_, len, rfl, Block.length_of_write hwrite, by omega, ?_⟩
      have hat : len - w = t.length := by omega
      rw [Block.getElem?_write hwrite, if_pos (by omega), hat,
        List.getElem?_append_right le_rfl, Nat.sub_self]
      rfl
    · have hread := Block.read_eq (b := b) (p := r) (n := q) (by omega)
      have hd : ((b.drop r).take q).length = q := by
        rw [List.length_take, List.length_drop]
        omega
      have hwrite := Block.write_eq (b := b) (p := w) (d := (b.drop r).take q) (by omega)
      have hlength := Block.length_of_write hwrite
      generalize hb₁ : b.take w ++ (b.drop r).take q ++
        b.drop (w + ((b.drop r).take q).length) =
        b₁ at hwrite hlength
      have hwrite' := Block.write_eq (b := b₁) (p := w + q) (d := rep) (by omega)
      have hlength' := Block.length_of_write hwrite'
      -- behind the occurrence nothing has changed
      have hbehind : ∀ i, r + q + f.length ≤ i →
          (b₁.take (w + q) ++ rep ++ b₁.drop (w + q + rep.length))[i]? = b[i]? :=
        fun i hi => by
          rw [Block.getElem?_write hwrite', if_neg (by omega), Block.getElem?_write hwrite,
            if_neg (by omega)]
      have hzero' := (hbehind n (by omega)).trans hzero
      obtain ⟨b', len', hb', hlen', hle', hend⟩ :=
        ih (w := w + q + rep.length) (r := r + q + f.length) hzero'
        (fun i hi hin => by rw [hbehind i hi]; exact hfree i (by omega) hin)
        (by omega) (by omega)
        (by omega : len - (f.length - rep.length) =
          n - (r + q + f.length - (w + q + rep.length))) (by omega) (by omega)
      rw [replaceShorter, hfound, Option.bind_eq_bind, Option.bind_some]
      dsimp only
      rw [Nat.add_sub_cancel_left, hread, Option.bind_eq_bind, Option.bind_some, hwrite,
        Option.bind_some, hwrite',
        Option.bind_some]
      exact ⟨b', len', hb', hlen'.trans (hlength'.trans hlength), hle', hend⟩

/-- **The size that is needed** is that of the text with all the occurrences
found from the left replaced, as far as it fits. -/
theorem sizeNeeded_mod (diff size : ℕ) (hf : f ≠ []) (hzero : b[n]? = some 0) (hr : r ≤ n)
    (ht : Block.text b r = some t) (hsize : size < 2 ^ 32) (hturns : b.length < r + turns) :
    sizeNeeded f f.length diff b turns r size =
      some ((size + diff * List.countFrom f 0 t) % 2 ^ 32) := by
  have hn := (List.getElem?_eq_some_iff.mp hzero).1
  induction turns generalizing r t size with
  | zero => omega
  | succ turns ih =>
    have hpos := List.length_pos_iff.mpr hf
    obtain ⟨t', ht', hle, hcases⟩ := strstr_cases hzero hr hf
    obtain rfl := Option.some.inj (ht.symm.trans ht')
    obtain ⟨hnone, hfirst⟩ | ⟨q, hfound, hfirst, hq⟩ := hcases
    · rw [sizeNeeded, hnone, List.countFrom_of_none hfirst, Nat.mul_zero, Nat.add_zero,
        Nat.mod_eq_of_lt hsize]
      rfl
    · rw [sizeNeeded, hfound, Option.bind_eq_bind, Option.bind_some]
      dsimp only
      rw [Nat.add_assoc r,
        ih _ (by omega) (text_drop ht hq) (Nat.mod_lt _ (by decide)) (by omega),
        List.countFrom_of_first hf hfirst, Nat.mul_succ, Nat.mod_add_mod]
      congr 2
      omega

theorem sizeNeeded_eq (diff size : ℕ) (hf : f ≠ []) (hzero : b[n]? = some 0) (hr : r ≤ n)
    (ht : Block.text b r = some t)
    (hsize : size + diff * List.countFrom f 0 t < 2 ^ 32) (hturns : b.length < r + turns) :
    sizeNeeded f f.length diff b turns r size = some (size + diff * List.countFrom f 0 t) := by
  rw [sizeNeeded_mod diff size hf hzero hr ht (by omega) hturns, Nat.mod_eq_of_lt hsize]

/-! ## From the right -/

theorem lastOccurrence_extend {k k' : ℕ} (hk : k ≤ k')
    (hnone : ∀ j, k ≤ j → j < k' → ¬ f <+: t.drop j) :
    List.lastOccurrence f t k' = List.lastOccurrence f t k := by
  induction hk with
  | refl => rfl
  | step hle ih =>
    rw [List.lastOccurrence, if_neg (fun h =>
      hnone _ hle (Nat.lt_succ_self _) (List.isPrefixOf_iff_prefix.mp h)),
      ih fun j hj hlt => hnone j hj (Nat.lt_succ_of_lt hlt)]

/-- An occurrence ends inside the text. -/
theorem lt_length_of_prefix {j : ℕ} (hf : f ≠ []) (h : f <+: t.drop j) : j < t.length := by
  have hlen := h.length_le
  have hpos := List.length_pos_iff.mpr hf
  rw [List.length_drop] at hlen
  omega

/-- **The loop finds the last occurrence** that is not behind an index. -/
theorem lastFound_eq {fromIndex : ℕ} {found : Option ℕ} (hf : f ≠ [])
    (ht : Block.text b 0 = some t)
    (hp : p ≤ t.length)
    (hfound : found = List.lastOccurrence f t (min p (fromIndex + 1)))
    (hturns : t.length < p + turns) :
    lastFound f b fromIndex turns p found = some (List.lastOccurrence f t (fromIndex + 1)) := by
  induction turns generalizing p found with
  | zero => omega
  | succ turns ih =>
    rw [lastFound]
    split
    · rename_i hle
      have htext : Block.text b p = some (t.drop p) := by
        have hdrop := text_drop ht hp
        rwa [Nat.zero_add] at hdrop
      rw [Nat.min_eq_left (by omega)] at hfound
      rw [Block.strstr_eq htext, Option.bind_eq_bind, Option.bind_some]
      cases hfirst : List.firstOccurrence f (t.drop p) with
      | none =>
        have hextend := lastOccurrence_extend (f := f) (t := t) (by omega : p ≤ fromIndex + 1)
          fun j hj _ hprefix => by
            have hlt := lt_length_of_prefix hf hprefix
            refine List.firstOccurrence_none hfirst (j - p) (by rw [List.length_drop]; omega) ?_
            rwa [List.drop_drop, Nat.add_sub_cancel' hj]
        rw [hextend, ← hfound]
        rfl
      | some q =>
        obtain ⟨hq, hbefore⟩ := List.firstOccurrence_some hfirst
        rw [List.drop_drop] at hq
        have hlt := lt_length_of_prefix hf hq
        refine ih (p := p + q + 1) (by omega) ?_ (by omega)
        show (if p + q ≤ fromIndex then some (p + q) else found) = _
        split
        · rw [Nat.min_eq_left (by omega), List.lastOccurrence,
            if_pos (List.isPrefixOf_iff_prefix.mpr hq)]
        · -- up to the index there is no other
          rw [Nat.min_eq_right (by omega), hfound]
          refine (lastOccurrence_extend (by omega) fun j hj hj' hprefix =>
            hbefore (j - p) (by omega) ?_).symm
          rwa [List.drop_drop, Nat.add_sub_cancel' hj]
    · rename_i hgt
      rw [hfound, Nat.min_eq_right (by omega)]

theorem lastIndexOf_eq {index : ℕ} (hf : f ≠ []) (hzero : b[len]? = some 0)
    (ht : Block.text b 0 = some t)
    (hle : t.length ≤ len) (hindex : index < len) :
    lastIndexOf f f.length b len index = some (List.lastOccurrence f t (index + 1)) := by
  have hpos := List.length_pos_iff.mpr hf
  have hn := (List.getElem?_eq_some_iff.mp hzero).1
  unfold lastIndexOf
  split
  · -- the text is too short for one
    cases hlast : List.lastOccurrence f t (index + 1) with
    | none => rfl
    | some i =>
      have hlen := (List.lastOccurrence_some hlast).2.1.length_le
      rw [List.length_drop] at hlen
      omega
  · dsimp only
    rw [if_neg (by omega)]
    exact lastFound_eq hf ht (Nat.zero_le _) (by rw [Nat.zero_min]; rfl) (by omega)

/-- **One occurrence is replaced**: what is behind it moves to the right, and
what is in front of it stays. -/
theorem exists_replaceOne {i cap : ℕ} (hlonger : f.length ≤ rep.length)
    (hlength : b.length = cap + 1) (hi : i + f.length ≤ len) (hlen : len < 2 ^ 32)
    (hroom : len + (rep.length - f.length) ≤ cap) :
    ∃ b₃, replaceFound f.length rep b len i = some (b₃, len + (rep.length - f.length)) ∧
      b₃.length = cap + 1 ∧ b₃[len + (rep.length - f.length)]? = some 0 ∧
      ∃ rest, b₃ = b.take i ++ (rep ++ rest) := by
  have hcount : (len + 2 ^ 32 - (i + f.length)) % 2 ^ 32 = len - (i + f.length) := by omega
  have hd : ((b.drop (i + f.length)).take (len - (i + f.length))).length =
      len - (i + f.length) := by
    rw [List.length_take, List.length_drop]
    omega
  have hmove := Block.write_eq (b := b) (p := i + f.length + (rep.length - f.length))
    (d := (b.drop (i + f.length)).take (len - (i + f.length))) (by omega)
  generalize b.take (i + f.length + (rep.length - f.length)) ++ _ ++ _ = b₁ at hmove
  have hlength₁ := Block.length_of_write hmove
  have hend := Block.write_eq (b := b₁) (p := len + (rep.length - f.length)) (d := [0])
    (by rw [List.length_singleton]; omega)
  generalize b₁.take (len + (rep.length - f.length)) ++ _ ++ _ = b₂ at hend
  have hlength₂ := Block.length_of_write hend
  have hput := Block.write_eq (b := b₂) (p := i) (d := rep) (by omega)
  have hread :=
    Block.read_eq (b := b) (p := i + f.length) (n := len - (i + f.length)) (by omega)
  refine ⟨b₂.take i ++ rep ++ b₂.drop (i + rep.length), ?_, ?_, ?_,
    b₂.drop (i + rep.length), ?_⟩
  · unfold replaceFound
    simp only [hcount, hread, hmove, hend, hput, Option.bind_eq_bind, Option.bind_some]
    rfl
  · exact (Block.length_of_write hput).trans (hlength₂.trans (hlength₁.trans hlength))
  · rw [Block.getElem?_write hput, if_neg (by omega), Block.getElem?_write hend,
      if_pos ⟨le_rfl, Nat.lt_succ_self _⟩, Nat.sub_self]
    rfl
  · rw [List.append_assoc, Block.take_of_write hend (by omega),
      Block.take_of_write hmove (by omega)]

/-- **A longer text** has room for every occurrence that was counted, and there
is no other. What is searched is the text up to `m`; an occurrence that is found
lies in it. -/
theorem exists_replaceLonger {m k index cap : ℕ} (hf : f ≠ []) (hlonger : f.length < rep.length)
    (ht : Block.text b 0 = some t) (hm : m ≤ t.length) (hmi : m ≤ index)
    (hedge : ∀ j < index, f <+: t.drop j → j + f.length ≤ m) (hindex : index ≤ len)
    (hzero : b[len]? = some 0)
    (hlength : b.length = cap + 1)
    (hroom : len + (rep.length - f.length) * List.countFrom f 0 (t.take m) ≤ cap)
    (hmax : len + (rep.length - f.length) * List.countFrom f 0 (t.take m) < 2 ^ 32)
    (hkeeps : List.keepsEdges f rep k (t.take m) = true) (hk : m ≤ k) (hturns : index < turns) :
    ∃ b' len', replaceLonger f f.length rep turns b len index = some (b', len') ∧
      b'.length = cap + 1 ∧
      len' ≤ len + (rep.length - f.length) * List.countFrom f 0 (t.take m) ∧
      b'[len']? = some 0 := by
  induction turns generalizing b len index t m k with
  | zero => omega
  | succ turns ih =>
    cases index with
    | zero => exact ⟨b, len, rfl, hlength, by omega, hzero⟩
    | succ index =>
      have hpos := List.length_pos_iff.mpr hf
      have hle : t.length ≤ len := by
        obtain ⟨t', ht', hle'⟩ := Block.text_of_zero hzero (Nat.zero_le _)
        obtain rfl := Option.some.inj (ht.symm.trans ht')
        omega
      rw [replaceLonger, lastIndexOf_eq hf hzero ht hle hindex, Option.bind_eq_bind,
        Option.bind_some]
      cases hlast : List.lastOccurrence f t (index + 1) with
      | none => exact ⟨b, len, rfl, hlength, by omega, hzero⟩
      | some i =>
        obtain ⟨hi, hoccurs, hmax⟩ := List.lastOccurrence_some hlast
        have him := hedge i hi hoccurs
        have hmlen : (t.take m).length = m := by rw [List.length_take]; omega
        -- it is the last one in the text up to `m`, too
        have hin : f <+: (t.take m).drop i := (List.prefix_drop_take hf).mpr ⟨hoccurs, him⟩
        have hlast' : List.lastOccurrence f (t.take m) (t.take m).length = some i := by
          refine List.lastOccurrence_eq_some (by omega) hin fun j hj hj' => ?_
          exact hmax j (by omega) ((List.prefix_drop_take hf).mp hj').1
        obtain ⟨k, rfl⟩ : ∃ k', k = k' + 1 := ⟨k - 1, by omega⟩
        obtain ⟨hcrosses, hkeeps'⟩ := List.keepsEdges_of_last hkeeps hlast'
        have hless := List.countFrom_take_lt hf hin (by omega)
        rw [List.take_take, Nat.min_eq_left (by omega)] at hcrosses hkeeps' hless
        have hmul := Nat.mul_le_mul_left (rep.length - f.length) hless
        rw [Nat.mul_succ] at hmul
        obtain ⟨b₃, hfound, hlength', hzero', rest, hrest⟩ :=
          exists_replaceOne hlonger.le hlength (by omega : i + f.length ≤ len)
            (by omega) (by omega)
        obtain ⟨t', ht', -⟩ := Block.text_of_zero hzero' (Nat.zero_le _)
        have htake : b₃.take i = b.take i := by
          have hi' : (b.take i).length = i := by
            have hn := (List.getElem?_eq_some_iff.mp hzero).1
            rw [List.length_take]
            omega
          rw [hrest, List.take_left' hi']
        have hsame := Block.take_text ht ht' htake (by omega)
        have hi' : i ≤ t'.length := by
          have heq := congrArg List.length hsame
          rw [List.length_take, List.length_take] at heq
          omega
        -- what begins in front of the text put in ends there
        have hedge' : ∀ j < i, f <+: t'.drop j → j + f.length ≤ i := by
          intro j hj hoccurs'
          have hblock := hoccurs'.trans (List.IsPrefix.drop (Block.prefix_of_text ht') j)
          rw [hrest, Block.take_of_text ht (by omega)] at hblock
          have hit : (t.take i).length = i := by rw [List.length_take]; omega
          have hle' := List.le_of_not_crosses hcrosses hlonger.le (by omega) hblock
          omega
        obtain ⟨b', len', hb', hlen', hle', hend'⟩ :=
          ih ht' hi' le_rfl hedge' (by omega) hzero' hlength'
          (by rw [hsame]; omega) (by rw [hsame]; omega) (by rw [hsame]; exact hkeeps')
          (by omega)
          (by omega)
        rw [hsame] at hle'
        dsimp only
        rw [hfound, Option.bind_eq_bind, Option.bind_some]
        exact ⟨b', len', hb', hlen', by omega, hend'⟩

/-! ## `replace` -/

/-- The text in front of the first NUL. -/
def contents (s : StringObject) : List UInt8 := (s.text 0).getD []

/-- The length with all the occurrences replaced, if that makes it longer. -/
def lenReplaced (s find rep : StringObject) : ℕ :=
  s.len + (rep.len - find.len) * List.countFrom find.contents 0 s.contents

/-- **The text can be replaced**: it is not there, or the search does not come
to an end in the middle of what is looked for or looked at, and finds no
occurrence that crosses an edge. -/
def Replaces (s find rep : StringObject) : Prop :=
  s.len = 0 ∨ find.len = 0 ∨ List.firstOccurrence find.contents s.contents = none ∨
    find.NulFree ∧ (rep.len < find.len → s.NulFree) ∧
      (find.len < rep.len → List.keepsEdges find.contents ((rep.load 0 rep.len).getD [])
        s.contents.length s.contents = true)

instance (s find rep : StringObject) : Decidable (Replaces s find rep) :=
  inferInstanceAs (Decidable (_ ∨ _))

variable {s find : StringObject} {size : ℕ}

/-- **There is room**, and the text is the same. -/
theorem exists_grow (hs : s.Valid) (hb : s.buffer = some b) (ht : Block.text b 0 = some t)
    (hsize : size ≤ s.capacity ∨ size + 16 < 2 ^ 32) :
    ∃ u c, s.grow size true = some (true, u) ∧ u.Valid ∧ u.len = s.len ∧ u.buffer = some c ∧
      size ≤ u.capacity ∧
      Block.text c 0 = some t := by
  unfold grow
  split
  · rename_i hgt
    obtain ⟨-, hle, -⟩ := (valid_some hb).mp hs
    obtain ⟨u, hu, hvalid, hulen, hsome, hroom, hbytes, -⟩ :=
      exists_changeBuffer hs (by omega : size + 16 < 2 ^ 32) (by omega)
    obtain ⟨c, hc⟩ := Option.isSome_iff_exists.mp hsome
    refine ⟨u, c, hu, hvalid, hulen, hc, hroom, Block.text_congr (n := s.len) ht
      (fun i hi => ?_) ?_ ?_⟩
    · rw [← byte_eq hc, ← byte_eq hb, hbytes i hi]
    · obtain ⟨t', ht', hle⟩ := hs.text hb
      obtain rfl := Option.some.inj (ht.symm.trans ht')
      exact hle
    · rw [← hulen]
      exact ((valid_some hc).mp hvalid).2.2
  · exact ⟨s, b, rfl, hs, rfl, hb, by omega, ht⟩

/-! ### A text that is not there -/

theorem replaceSame_absent (ht : Block.text b 0 = some t)
    (hnone : List.firstOccurrence f t = none)
    (r : List UInt8) :
    replaceSame f r (b.length + 1) b 0 = some b := by
  rw [replaceSame, Block.strstr_eq ht, hnone]
  rfl

theorem sizeNeeded_absent (ht : Block.text b 0 = some t)
    (hnone : List.firstOccurrence f t = none)
    (findLen diff size : ℕ) :
    sizeNeeded f findLen diff b (b.length + 1) 0 size = some size := by
  rw [sizeNeeded, Block.strstr_eq ht, hnone]
  rfl

/-- The text is copied to where it is. -/
theorem replaceShorter_absent (hs : s.Valid) (hb : s.buffer = some b)
    (ht : Block.text b 0 = some t)
    (hle : t.length ≤ s.len) (hnone : List.firstOccurrence f t = none)
    (r : List UInt8) (findLen : ℕ) :
    ∃ c, replaceShorter f findLen r (b.length + 1) b 0 0 s.len = some (c, s.len) ∧
      Valid { s with buffer := some c } := by
  obtain ⟨hcapacity, hlen, hzero⟩ := (valid_some hb).mp hs
  have hlength : (t ++ [0]).length = t.length + 1 := List.length_append
  have hwrite := Block.write_eq (b := b) (p := 0) (d := t ++ [0]) (by omega)
  refine ⟨_, ?_, (valid_some rfl).mpr ⟨(Block.length_of_write hwrite).trans hcapacity,
    hlen, ?_⟩⟩
  · rw [replaceShorter, Block.strstr_eq ht, hnone, Option.bind_eq_bind, Option.bind_some]
    dsimp only [Option.map_none]
    rw [ht, Option.bind_eq_bind, Option.bind_some, hwrite]
    rfl
  · rw [Block.getElem?_write hwrite]
    dsimp only
    split
    · rename_i hin
      have hend : s.len = t.length := by omega
      rw [Nat.sub_zero, hend, List.getElem?_append_right le_rfl, Nat.sub_self]
      rfl
    · exact hzero

/-! ### A text that is there -/

theorem exists_same (hs : s.Valid) (hb : s.buffer = some b) (hf : f ≠ [])
    (hsame : rep.length = f.length) :
    ∃ c, replaceSame f rep (b.length + 1) b 0 = some c ∧ Valid { s with buffer := some c } := by
  obtain ⟨hcapacity, hlen, hzero⟩ := (valid_some hb).mp hs
  obtain ⟨c, hc, hlength, hend⟩ := exists_replaceSame hf hsame hzero (Nat.zero_le _)
    (by omega : b.length < 0 + (b.length + 1))
  exact ⟨c, hc, (valid_some rfl).mpr ⟨hlength.trans hcapacity, hlen, hend⟩⟩

theorem exists_shorter (hs : s.Valid) (hb : s.buffer = some b) (ht : Block.text b 0 = some t)
    (hfree : t.length = s.len) (hf : f ≠ []) (hshorter : rep.length < f.length) :
    ∃ c n, replaceShorter f f.length rep (b.length + 1) b 0 0 s.len = some (c, n) ∧ n ≤ s.len ∧
      Valid { s with buffer := some c, len := n } := by
  obtain ⟨hcapacity, hlen, hzero⟩ := (valid_some hb).mp hs
  -- there is no NUL in front of the last one
  have hbytes : ∀ i, 0 ≤ i → i < s.len → b[i]? ≠ some 0 := fun i _ hi h0 => by
    have hget := Block.getElem?_text ht (i := i) (by omega)
    rw [Nat.zero_add, h0, if_neg (by omega)] at hget
    exact (Block.text_eq_some_iff.mp ht).1 (List.mem_of_getElem? hget.symm)
  obtain ⟨c, n, hc, hlength, hn, hend⟩ := exists_replaceShorter hf hshorter hzero hbytes
    (le_refl 0) (Nat.zero_le _)
    (rfl : s.len = s.len - (0 - 0)) (by omega : b.length < 0 + (b.length + 1))
  exact ⟨c, n, hc, hn, (valid_some rfl).mpr ⟨hlength.trans hcapacity, hn.trans hlen, hend⟩⟩

/-- **Room for every occurrence** is made, and is enough. -/
theorem exists_longer (hs : s.Valid) (hb : s.buffer = some b) (ht : Block.text b 0 = some t)
    (hle : t.length ≤ s.len)
    (hf : f ≠ []) (hlonger : f.length < rep.length)
    (hkeeps : List.keepsEdges f rep t.length t = true)
    (hsize : s.len + (rep.length - f.length) * List.countFrom f 0 t < 2 ^ 31) :
    ∃ size u c d n, sizeNeeded f f.length (rep.length - f.length) b (b.length + 1)
      0 s.len = some size ∧
      s.grow size true = some (true, u) ∧ u.len = s.len ∧ u.buffer = some c ∧
      replaceLonger f f.length rep (s.len + 1) c s.len s.len = some (d, n) ∧
      n ≤ s.len + (rep.length - f.length) * List.countFrom f 0 t ∧
      Valid { u with buffer := some d, len := n } := by
  obtain ⟨-, -, hzero⟩ := (valid_some hb).mp hs
  have hneeded := sizeNeeded_eq (rep.length - f.length) s.len hf hzero (Nat.zero_le _) ht
    (by omega : s.len + (rep.length - f.length) * List.countFrom f 0 t < 2 ^ 32)
    (by omega : b.length < 0 + (b.length + 1))
  obtain ⟨u, c, hgrow, hu, hulen, hc, hroom, htext⟩ :=
    exists_grow hs hb ht (Or.inr (by omega :
      s.len + (rep.length - f.length) * List.countFrom f 0 t + 16 < 2 ^ 32))
  obtain ⟨hcapacity, -, huzero⟩ := (valid_some hc).mp hu
  rw [hulen] at huzero
  have hinside : ∀ j < s.len, f <+: t.drop j → j + f.length ≤ t.length := fun j _ hoccurs => by
    have hlength := hoccurs.length_le
    have hlt := lt_length_of_prefix hf hoccurs
    rw [List.length_drop] at hlength
    omega
  have hwhole : t.take t.length = t := List.take_length
  obtain ⟨d, n, hd, hlength, hn, hend⟩ :=
    exists_replaceLonger hf hlonger htext le_rfl hle hinside
    le_rfl huzero hcapacity
    (by rw [hwhole]; exact hroom) (by rw [hwhole]; omega) (by rw [hwhole]; exact hkeeps) le_rfl
    (Nat.lt_succ_self _)
  rw [hwhole] at hn
  exact ⟨_, u, c, d, n, hneeded, hgrow, hulen, hc, hd, hn, (valid_some rfl).mpr
    ⟨hlength, hn.trans hroom, hend⟩⟩

/-- **`replace`.** -/
theorem exists_replace {rep : StringObject} (hs : s.Valid) (hfind : find.Valid)
    (hrep : rep.Valid)
    (hlen : s.lenReplaced find rep < 2 ^ 31) (h : Replaces s find rep) :
    ∃ t, s.replace find rep true = some t ∧ t.Valid ∧ t.len ≤ s.lenReplaced find rep := by
  unfold lenReplaced contents at hlen ⊢
  unfold Replaces contents at h
  unfold replace
  split
  · exact ⟨s, rfl, hs, Nat.le_add_right _ _⟩
  · rename_i hempty
    have hpresent := (h.resolve_left fun h0 => hempty (Or.inl h0)).resolve_left fun h0 =>
      hempty (Or.inr h0)
    obtain ⟨b, hb⟩ : ∃ b, s.buffer = some b := by
      cases hb : s.buffer with
      | none => exact absurd ((valid_none hb).mp hs).1 fun h0 => hempty (Or.inl h0)
      | some b => exact ⟨b, rfl⟩
    obtain ⟨fb, hfb⟩ : ∃ b, find.buffer = some b := by
      cases hfb : find.buffer with
      | none => exact absurd ((valid_none hfb).mp hfind).1 fun h0 => hempty (Or.inr h0)
      | some b => exact ⟨b, rfl⟩
    obtain ⟨t, ht, hle⟩ := hs.text hb
    obtain ⟨f, hf, hfle⟩ := hfind.text hfb
    obtain ⟨r, hr, hrlen, -⟩ := hrep.load
    simp only [text_eq hb, text_eq hfb, ht, hf, hr, Option.getD_some] at hpresent hlen ⊢
    rw [hb, Option.bind_eq_bind, Option.bind_some, Option.bind_some, Option.bind_some]
    rw [← hrlen] at hpresent hlen ⊢
    rcases hpresent with hnone | ⟨hfree, hnul, hkeeps⟩
    · split
      · rw [replaceSame_absent ht hnone]
        exact ⟨_, rfl, by rw [← hb]; exact hs, Nat.le_add_right _ _⟩
      · split
        · obtain ⟨c, hc, hvalid⟩ := replaceShorter_absent hs hb ht hle hnone r find.len
          rw [hc]
          exact ⟨_, rfl, hvalid, Nat.le_add_right _ _⟩
        · rw [sizeNeeded_absent ht hnone, Option.bind_eq_bind, Option.bind_some, if_pos rfl]
          exact ⟨s, rfl, hs, Nat.le_add_right _ _⟩
    · have hflen : f.length = find.len := hfree f ((text_eq hfb 0).trans hf)
      have hne : f ≠ [] := List.length_pos_iff.mp (by omega)
      rw [← hflen] at hnul hkeeps hlen ⊢
      split
      · rename_i heq
        obtain ⟨c, hc, hvalid⟩ := exists_same hs hb hne heq
        rw [hc]
        exact ⟨_, rfl, hvalid, Nat.le_add_right _ _⟩
      · rename_i hne'
        split
        · rename_i hlt
          obtain ⟨c, n, hc, hn, hvalid⟩ := exists_shorter hs hb ht
            (hnul hlt t ((text_eq hb 0).trans ht)) hne hlt
          rw [hc]
          exact ⟨_, rfl, hvalid, hn.trans (Nat.le_add_right _ _)⟩
        · rename_i hge
          have hgt : f.length < r.length := by omega
          obtain ⟨size, u, c, d, n, hneeded, hgrow, hulen, hc, hd, hn, hvalid⟩ :=
            exists_longer hs hb ht hle hne hgt (hkeeps hgt) hlen
          rw [hneeded, Option.bind_eq_bind, Option.bind_some]
          split
          · exact ⟨s, rfl, hs, Nat.le_add_right _ _⟩
          · rw [hgrow, Option.bind_eq_bind, Option.bind_some]
            dsimp only
            rw [if_pos rfl, hc, hulen, Option.bind_some, hd]
            exact ⟨_, rfl, hvalid, hn⟩

end StringObject
