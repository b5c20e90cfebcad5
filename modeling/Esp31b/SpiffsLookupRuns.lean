import Esp31b.SpiffsLookup

/-!
# A search visits the entries in order

What `spiffs_obj_lu_find_entry_visitor` does, does not depend on how it gets to the entries: it
is `SpiffsLookup.visit` of a list of them. With `SPIFFS_VIS_NO_WRAP` these are the entries from
the start to the last block; without, the blocks go round, and the one that the search starts in
may be visited twice.

The flash is read through a function with a state. All that is asked of it is that it reads what
the flash holds as long as an invariant holds, which it keeps (`SpiffsLookup.Reads`), so that
the results are about the cache as well as about the flash alone. The invariant of a search may
depend on how many entries were looked at since the last lookup page was read
(`SpiffsLookup.Loads`).

The lookup pages must have room for the entries of a block (`SpiffsConfig.HasEntries`). They are
so many as the entries fill, but the number is rounded down.
-/

namespace ByteMem

/-- Sixteen bits of a memory. -/
def word (m : ByteMem) (p : ℕ) : UInt16 := (m p).toUInt16 ||| (m (p + 1)).toUInt16 <<< 8

/-- Sixteen bits of a run. -/
theorem word?_slice (m : ByteMem) {p n i : ℕ} (h : i + 1 < n) :
    (m.slice p n).word? i = some (m.word (p + i)) := by
  have hget : ∀ j < n, (m.slice p n)[j]? = some (m (p + j)) := by
    intro j hj
    rw [List.getElem?_eq_getElem (by rw [length_slice]; exact hj), getElem_slice]
  rw [List.word?, hget i (by omega), hget (i + 1) h]
  rfl

end ByteMem

namespace SpiffsConfig

variable {cfg : SpiffsConfig} {bix page k len : ℕ}

/-- **The entries of a block are in its lookup pages**, and a page has a header. -/
structure HasEntries (cfg : SpiffsConfig) : Prop where
  pos : 0 < cfg.objLookupMaxEntries
  le : cfg.objLookupMaxEntries ≤ cfg.objLookupPages * cfg.entriesPerPage
  header : PageHeader.size ≤ cfg.logPageSize

theorem two_mul_entriesPerPage (cfg : SpiffsConfig) :
    2 * cfg.entriesPerPage = cfg.logPageSize := by
  have hdvd := cfg.four_dvd_page
  unfold entriesPerPage
  omega

theorem hasBlock_of_lt (h : bix < cfg.blockCount) : cfg.HasBlock bix :=
  (Nat.le_div_iff_mul_le cfg.block_pos).mp h

/-- The number of the next block has room. -/
theorem blockCount_lt (cfg : SpiffsConfig) : cfg.blockCount < 2 ^ 16 := by
  have hle : cfg.blockCount ≤ cfg.physSize / cfg.logPageSize :=
    Nat.div_le_div_left (Nat.le_of_dvd cfg.block_pos cfg.page_dvd_block) cfg.page_pos
  have hpages := cfg.pages_le
  omega

/-- Bytes of a page of a block. -/
theorem HasBlock.inPage (h : cfg.HasBlock bix) (hpage : cfg.InBlock bix page)
    (hk : k < cfg.logPageSize) {n : ℕ} (hn : k + n ≤ cfg.logPageSize) :
    cfg.InPage (cfg.pageToPaddr page + k) n := by
  obtain ⟨-, hupper⟩ := h.lt hpage
  refine ⟨?_, ?_, by omega⟩
  · unfold pageToPaddr
    omega
  · rw [(cfg.paddrToPage_pageToPaddr_add page hk).2]
    exact hn

/-- The address of a lookup page. -/
theorem mul_add_pageToPaddr (cfg : SpiffsConfig) (block page : ℕ) :
    block * cfg.logBlockSize + cfg.pageToPaddr page =
      cfg.pageToPaddr (block * cfg.pagesPerBlock + page) := by
  have hsize := cfg.pagesPerBlock_mul
  unfold pageToPaddr
  rw [Nat.add_mul, Nat.mul_assoc, hsize]
  omega

/-- The pages of the entries are those behind the lookup pages. -/
theorem HasBlock.entryToPix (h : cfg.HasBlock bix) {entry : ℕ}
    (hentry : entry < cfg.objLookupMaxEntries) :
    cfg.objLookupEntryToPix bix entry = bix * cfg.pagesPerBlock + (cfg.objLookupPages + entry) ∧
      cfg.InBlock bix (cfg.objLookupEntryToPix bix entry) := by
  unfold objLookupMaxEntries at hentry
  have hin : cfg.InBlock bix (bix * cfg.pagesPerBlock + (cfg.objLookupPages + entry)) := by
    refine ⟨Nat.le_add_right _ _, ?_⟩
    rw [Nat.succ_mul]
    omega
  have heq : cfg.objLookupEntryToPix bix entry =
      bix * cfg.pagesPerBlock + (cfg.objLookupPages + entry) := Nat.mod_eq_of_lt (h.lt hin).1
  rw [heq]
  exact ⟨rfl, hin⟩

/-- The id of an entry. -/
def idOf (cfg : SpiffsConfig) (flash : ByteMem) (bix entry : ℕ) : UInt16 :=
  flash.word (cfg.blockToPaddr bix + 2 * entry)

/-- The header of a page. -/
def headerOf (cfg : SpiffsConfig) (flash : ByteMem) (pix : ℕ) : PageHeader :=
  ⟨flash.word (cfg.pageToPaddr pix), flash.word (cfg.pageToPaddr pix + 2),
    flash (cfg.pageToPaddr pix + 4)⟩

/-- It is in front of the bytes of the page. -/
theorem ofBytes_slice (cfg : SpiffsConfig) (flash : ByteMem) (pix : ℕ) {n : ℕ}
    (hn : PageHeader.size ≤ n) :
    PageHeader.ofBytes (flash.slice (cfg.pageToPaddr pix) n) =
      some (cfg.headerOf flash pix) := by
  unfold PageHeader.size at hn
  have hflags : (flash.slice (cfg.pageToPaddr pix) n)[4]? =
      some (flash (cfg.pageToPaddr pix + 4)) := by
    rw [List.getElem?_eq_getElem (by rw [ByteMem.length_slice]; omega), ByteMem.getElem_slice]
  rw [PageHeader.ofBytes, ByteMem.word?_slice _ (by omega), ByteMem.word?_slice _ (by omega),
    hflags]
  rfl

end SpiffsConfig

namespace SpiffsLookup

open SpiffsCache (opTObjLu opTObjLu2 spiffsOk objIdIxFlag)

variable {τ α : Type} {rd : Reader τ} {cfg : SpiffsConfig} {flags : VisFlags} {objId : UInt16}
variable {v : Option (Visitor τ)} {flash : ByteMem} {ops : UInt8 → Prop} {I : ℕ → τ → α → Prop}
variable {w : α → UInt16 → ℕ → ℕ → ℤ × α} {a : α} {b e k p : ℕ} {s : LuSearch τ}

/-! ## What is visited -/

/-- **The flash is read**, by some operations. -/
def Reads (rd : Reader τ) (cfg : SpiffsConfig) (flash : ByteMem) (ops : UInt8 → Prop)
    (I : τ → α → Prop) : Prop :=
  ∀ t a op addr len, I t a → ops op → cfg.InPage addr len →
    ∃ t', rd t op addr len = some ((spiffsOk, flash.slice addr len), t') ∧ I t' a

/-- **The lookup pages are read**, at least when a page of entries was looked at. The invariant
is about how many these were. -/
structure Loads (rd : Reader τ) (cfg : SpiffsConfig) (flash : ByteMem) (I : ℕ → τ → α → Prop) :
    Prop where
  mono : ∀ {k l t a}, k ≤ l → I k t a → I l t a
  load : ∀ t a addr len, I cfg.entriesPerPage t a → cfg.InPage addr len →
    ∃ t', rd t (opTObjLu ||| opCRead) addr len = some ((spiffsOk, flash.slice addr len), t') ∧
      I 0 t' a

theorem Reads.loads {I : τ → α → Prop} (h : Reads rd cfg flash ops I)
    (hop : ops (opTObjLu ||| opCRead)) : Loads rd cfg flash fun _ => I :=
  ⟨fun _ => id, fun t a addr len hI => h t a _ addr len hI hop⟩

/-- The id that a visitor is told. -/
def visitedId (cfg : SpiffsConfig) (flash : ByteMem) (flags : VisFlags) (objId : UInt16)
    (b e : ℕ) : UInt16 := if flags.checkPh then objId else cfg.idOf flash b e

/-- **What a visitor says** about the entries, and what it makes of a value that the reads do
not change. -/
def Visits (v : Option (Visitor τ)) (cfg : SpiffsConfig) (flash : ByteMem) (flags : VisFlags)
    (objId : UInt16) (I : ℕ → τ → α → Prop) (w : α → UInt16 → ℕ → ℕ → ℤ × α) : Prop :=
  v.elim (∀ a id b e, w a id b e = (spiffsOk, a)) fun visitor =>
    ∀ k < cfg.entriesPerPage, ∀ t a b e, I k t a → b < cfg.blockCount →
      e < cfg.objLookupMaxEntries →
      ∃ t', visitor t (visitedId cfg flash flags objId b e) b e =
          some ((w a (visitedId cfg flash flags objId b e) b e).1, t') ∧
        I (k + 1) t' (w a (visitedId cfg flash flags objId b e) b e).2

/-- What is said about one entry, unless the search goes on. -/
def visitOne (cfg : SpiffsConfig) (flash : ByteMem) (flags : VisFlags) (objId : UInt16)
    (w : α → UInt16 → ℕ → ℕ → ℤ × α) (a : α) (x : ℕ × ℕ) : Option ℤ × α :=
  if flags.checkId = false ∨ cfg.idOf flash x.1 x.2 = objId then
    let r := w a (visitedId cfg flash flags objId x.1 x.2) x.1 x.2
    (if r.1 = visContinue ∨ r.1 = visContinueReload then none else some r.1, r.2)
  else (none, a)

/-- **Entries are visited** until the search stops at one. -/
def visit (cfg : SpiffsConfig) (flash : ByteMem) (flags : VisFlags) (objId : UInt16)
    (w : α → UInt16 → ℕ → ℕ → ℤ × α) : List (ℕ × ℕ) → α → Option (ℤ × ℕ × ℕ) × α
  | [], a => (none, a)
  | x :: l, a =>
    match visitOne cfg flash flags objId w a x with
    | (some res, a) => (some (res, x), a)
    | (none, a) => visit cfg flash flags objId w l a

theorem visit_append_of_some {l l' : List (ℕ × ℕ)} {r : ℤ × ℕ × ℕ} {a' : α}
    (h : visit cfg flash flags objId w l a = (some r, a')) :
    visit cfg flash flags objId w (l ++ l') a = (some r, a') := by
  induction l generalizing a with
  | nil => cases h
  | cons x l ih =>
    rw [List.cons_append, visit]
    rw [visit] at h
    cases hone : visitOne cfg flash flags objId w a x with
    | mk res a₁ =>
      rw [hone] at h
      cases res with
      | some res => exact h
      | none => exact ih h

theorem visit_append_of_none {l l' : List (ℕ × ℕ)} {a' : α}
    (h : visit cfg flash flags objId w l a = (none, a')) :
    visit cfg flash flags objId w (l ++ l') a = visit cfg flash flags objId w l' a' := by
  induction l generalizing a with
  | nil =>
    obtain ⟨-, rfl⟩ := Prod.mk.inj h
    rfl
  | cons x l ih =>
    rw [List.cons_append, visit]
    rw [visit] at h
    cases hone : visitOne cfg flash flags objId w a x with
    | mk res a₁ =>
      rw [hone] at h
      cases res with
      | some res => cases h
      | none => exact ih h

/-- Entries of a block. -/
def segment (b e f : ℕ) : List (ℕ × ℕ) := (List.range' e (f - e)).map (b, ·)

theorem segment_of_le {f : ℕ} (h : f ≤ e) : segment b e f = [] := by
  rw [segment, Nat.sub_eq_zero_of_le h]
  rfl

theorem segment_of_lt {f : ℕ} (h : e < f) : segment b e f = (b, e) :: segment b (e + 1) f := by
  obtain ⟨n, rfl⟩ := Nat.exists_eq_add_of_lt h
  rw [segment, segment, show e + n + 1 - e = n + 1 by omega, List.range'_succ,
    show e + n + 1 - (e + 1) = n by omega]
  rfl

theorem segment_append {f g : ℕ} (h : f ≤ g) :
    segment b e f ++ segment b (max e f) g = segment b e g := by
  rcases Nat.le_total f e with hle | hle
  · rw [segment_of_le hle, List.nil_append, Nat.max_eq_left hle]
  · rw [Nat.max_eq_right hle, segment, segment, segment, ← List.map_append]
    have hrange : List.range' e (f - e) ++ List.range' f (g - f) = List.range' e (g - e) := by
      have happend := @List.range'_append_1 e (f - e) (g - f)
      rwa [show e + (f - e) = f by omega, show f - e + (g - f) = g - e by omega] at happend
    rw [hrange]

theorem mem_segment {f : ℕ} {x : ℕ × ℕ} : x ∈ segment b e f ↔ x.1 = b ∧ e ≤ x.2 ∧ x.2 < f := by
  obtain ⟨c, i⟩ := x
  unfold segment
  rw [List.mem_map]
  constructor
  · rintro ⟨j, hj, heq⟩
    obtain ⟨rfl, rfl⟩ := Prod.mk.inj heq
    rw [List.mem_range'_1] at hj
    exact ⟨rfl, hj.1, by omega⟩
  · rintro ⟨rfl, hle, hlt⟩
    exact ⟨i, List.mem_range'_1.mpr ⟨hle, by omega⟩, rfl⟩

/-! ## The loops -/

/-- The search has stopped where it should. -/
structure Stopped (I : τ → α → Prop) (a : α) (r : ℤ × ℕ × ℕ) (x : ℤ × LuSearch τ) : Prop where
  res : x.1 = r.1
  blockIx : x.2.blockIx = r.2.1
  luEntry : x.2.luEntry = r.2.2
  inv : I x.2.fs a

/-- A lookup page is loaded. -/
theorem exists_loadPage (hrd : Loads rd cfg flash I) (hI : I cfg.entriesPerPage s.fs a)
    (hb : b < cfg.blockCount) (hp : p < cfg.objLookupPages) :
    ∃ s', loadPage rd cfg b p s = some (spiffsOk, s') ∧ I 0 s'.fs a ∧
      s'.luWork = flash.slice (cfg.pageToPaddr (b * cfg.pagesPerBlock + p)) cfg.logPageSize ∧
      s'.blockIx = s.blockIx ∧ s'.luEntry = s.luEntry ∧ s'.entryCount = s.entryCount := by
  have hin : cfg.InBlock b (b * cfg.pagesPerBlock + p) := by
    have hle := cfg.objLookupPages_le.2
    refine ⟨Nat.le_add_right _ _, ?_⟩
    rw [Nat.succ_mul]
    omega
  have hpage := (SpiffsConfig.hasBlock_of_lt hb).inPage hin cfg.page_pos (k := 0)
    (n := cfg.logPageSize) (by omega)
  obtain ⟨t, ht, hI'⟩ := hrd.load _ _ _ _ hI hpage
  rw [Nat.add_zero] at ht
  rw [loadPage, cfg.mul_add_pageToPaddr, ht]
  exact ⟨_, rfl, hI', rfl, rfl, rfl, rfl⟩

/-- **One entry.** -/
theorem exists_visitEntry (hrd : Loads rd cfg flash I) (hv : Visits v cfg flash flags objId I w)
    (hk : k < cfg.entriesPerPage) (hI : I k s.fs a) (hb : b < cfg.blockCount)
    (hp : p < cfg.objLookupPages)
    (hload : s.luWork = flash.slice (cfg.pageToPaddr (b * cfg.pagesPerBlock + p))
      cfg.logPageSize)
    (hle : p * cfg.entriesPerPage ≤ e) (hlt : e < (p + 1) * cfg.entriesPerPage)
    (he : e < cfg.objLookupMaxEntries) :
    (∃ res a' x, visitOne cfg flash flags objId w a (b, e) = (some res, a') ∧
      visitEntry rd cfg flags objId v b p e s = some (.inl x) ∧
      Stopped (I cfg.entriesPerPage) a' (res, b, e) x) ∨
    ∃ a' s', visitOne cfg flash flags objId w a (b, e) = (none, a') ∧
      visitEntry rd cfg flags objId v b p e s = some (.inr s') ∧ I (k + 1) s'.fs a' ∧
      s'.luWork = s.luWork ∧ s'.entryCount = s.entryCount - 1 := by
  have hpage := cfg.two_mul_entriesPerPage
  rw [Nat.succ_mul] at hlt
  have hword : s.luWork.word? (2 * (e - p * cfg.entriesPerPage)) =
      some (cfg.idOf flash b e) := by
    rw [hload, ByteMem.word?_slice _ (by omega), SpiffsConfig.idOf]
    congr 2
    rw [SpiffsConfig.blockToPaddr_eq, SpiffsConfig.pageToPaddr, SpiffsConfig.pageToPaddr,
      Nat.add_mul, ← hpage]
    have hmul : p * (2 * cfg.entriesPerPage) = 2 * (p * cfg.entriesPerPage) :=
      Nat.mul_left_comm _ _ _
    omega
  unfold visitEntry visitOne
  rw [hword, Option.bind_eq_bind, Option.bind_some]
  dsimp only
  by_cases hid : flags.checkId = false ∨ cfg.idOf flash b e = objId
  · rw [if_pos hid, if_pos hid]
    rw [← visitedId]
    cases v with
    | none =>
      have hok : w a (visitedId cfg flash flags objId b e) b e = (spiffsOk, a) := hv a _ b e
      rw [hok]
      exact Or.inl ⟨spiffsOk, a, _, rfl, rfl, rfl, rfl, rfl, hrd.mono hk.le hI⟩
    | some visitor =>
      obtain ⟨t, ht, hI'⟩ := hv k hk _ _ b e hI hb he
      dsimp only
      rw [ht, Option.bind_eq_bind, Option.bind_some]
      dsimp only
      generalize w a (visitedId cfg flash flags objId b e) b e = r at hI'
      obtain ⟨res, a'⟩ := r
      dsimp only
      by_cases hcont : res = visContinue
      · rw [if_pos hcont, if_pos (Or.inl hcont)]
        exact Or.inr ⟨a', _, rfl, rfl, hI', rfl, rfl⟩
      rw [if_neg hcont]
      by_cases hreload : res = visContinueReload
      · rw [if_pos hreload, if_pos (Or.inr hreload)]
        obtain ⟨s', hs', hIs', hwork, -, -, hcount⟩ := exists_loadPage (s := { s with
          fs := t, blockIx := b, luEntry := e }) hrd (hrd.mono hk hI') hb hp
        rw [hs', Option.bind_eq_bind, Option.bind_some]
        dsimp only
        rw [if_neg (lt_irrefl _)]
        exact Or.inr ⟨a', _, rfl, rfl, hrd.mono (Nat.zero_le _) hIs', hwork.trans hload.symm,
          congrArg (· - 1) hcount⟩
      · rw [if_neg hreload, if_neg (not_or.mpr ⟨hcont, hreload⟩)]
        exact Or.inl ⟨res, a', _, rfl, rfl, rfl, rfl, rfl, hrd.mono hk hI'⟩
  · rw [if_neg hid, if_neg hid]
    exact Or.inr ⟨a, _, rfl, rfl, hrd.mono (Nat.le_succ k) hI, rfl, rfl⟩

/-- **The entries of a page.** -/
theorem exists_visitEntries (hrd : Loads rd cfg flash I)
    (hv : Visits v cfg flash flags objId I w)
    (hI : I k s.fs a) (hb : b < cfg.blockCount) (hp : p < cfg.objLookupPages)
    (hload : s.luWork = flash.slice (cfg.pageToPaddr (b * cfg.pagesPerBlock + p))
      cfg.logPageSize)
    (hle : p * cfg.entriesPerPage ≤ e ∨ cfg.objLookupMaxEntries ≤ e) {f : ℕ}
    (hf : f = min ((p + 1) * cfg.entriesPerPage) cfg.objLookupMaxEntries)
    (hk : k + (f - e) ≤ cfg.entriesPerPage) :
    (∃ r a' x, visit cfg flash flags objId w (segment b e f) a = (some r, a') ∧
      visitEntries rd cfg flags objId v b p e s = some (.inl x) ∧
      Stopped (I cfg.entriesPerPage) a' r x) ∨
    ∃ a' s', visit cfg flash flags objId w (segment b e f) a = (none, a') ∧
      visitEntries rd cfg flags objId v b p e s = some (.inr (max e f, s')) ∧
      I cfg.entriesPerPage s'.fs a' ∧ s'.entryCount = s.entryCount - (f - e : ℕ) := by
  induction hn : f - e generalizing e k s a with
  | zero =>
    -- All entries of the page were visited.
    have hdone : ¬ (e - p * cfg.entriesPerPage < cfg.entriesPerPage ∧
        e < cfg.objLookupMaxEntries) := by
      rw [Nat.succ_mul] at hf
      omega
    refine Or.inr ⟨a, s, ?_, ?_, hrd.mono (by omega) hI, ?_⟩
    · rw [segment_of_le (by omega)]
      rfl
    · rw [visitEntries, if_neg hdone, Nat.max_eq_left (by omega)]
    · rw [Nat.cast_zero, sub_zero]
  | succ n ih =>
    have hlt : e < f := by omega
    rw [Nat.succ_mul] at hf
    have hmore : e - p * cfg.entriesPerPage < cfg.entriesPerPage ∧
        e < cfg.objLookupMaxEntries := by omega
    have hend : e < (p + 1) * cfg.entriesPerPage := by
      rw [Nat.succ_mul]
      omega
    rw [segment_of_lt hlt, visit, visitEntries, if_pos hmore]
    rcases exists_visitEntry hrd hv (by omega) hI hb hp hload
      (hle.resolve_right (by omega)) hend hmore.2 with
      ⟨res, a', x, hone, hentry, hstop⟩ | ⟨a', s', hone, hentry, hI', hwork, hcount⟩
    · rw [hone, hentry]
      exact Or.inl ⟨_, a', x, rfl, rfl, hstop⟩
    · rw [hone, hentry, Option.bind_eq_bind, Option.bind_some]
      dsimp only
      have hmax : max (e + 1) f = max e f := by omega
      rw [← hmax]
      refine (ih hI' (hwork.trans hload)
        (hle.imp_left (Nat.le_trans · (Nat.le_succ e)) |>.imp_right
        (Nat.le_trans · (Nat.le_succ e))) (by omega) (by omega)).imp_right ?_
      rintro ⟨a'', s'', hvisit, hentries, hI'', hcount'⟩
      refine ⟨a'', s'', hvisit, hentries, hI'', ?_⟩
      rw [hcount', hcount]
      push_cast
      omega

/-- **The entries of a block.** -/
theorem exists_visitPages (hrd : Loads rd cfg flash I) (hv : Visits v cfg flash flags objId I w)
    (hI : I cfg.entriesPerPage s.fs a) (hb : b < cfg.blockCount) (hcfg : cfg.HasEntries)
    (hle : p * cfg.entriesPerPage ≤ e ∨ cfg.objLookupMaxEntries ≤ e) :
    (∃ r a' x, visit cfg flash flags objId w (segment b e cfg.objLookupMaxEntries) a =
        (some r, a') ∧
      visitPages rd cfg flags objId v b p e s = some (.inl x) ∧
      Stopped (I cfg.entriesPerPage) a' r x) ∨
    ∃ a' s', visit cfg flash flags objId w (segment b e cfg.objLookupMaxEntries) a =
      (none, a') ∧
      visitPages rd cfg flags objId v b p e s = some (.inr (spiffsOk, s')) ∧
      I cfg.entriesPerPage s'.fs a' ∧
      s'.entryCount = s.entryCount - (cfg.objLookupMaxEntries - e : ℕ) := by
  induction hn : cfg.objLookupPages - p generalizing p e s a with
  | zero =>
    have hcover :=
      Nat.mul_le_mul_right cfg.entriesPerPage (show cfg.objLookupPages ≤ p by omega)
    have hend : cfg.objLookupMaxEntries ≤ e := by
      have hroom := hcfg.le
      omega
    refine Or.inr ⟨a, s, ?_, ?_, hI, ?_⟩
    · rw [segment_of_le hend]
      rfl
    · rw [visitPages, if_neg (by omega)]
    · rw [Nat.sub_eq_zero_of_le hend, Nat.cast_zero, sub_zero]
  | succ n ih =>
    have hp : p < cfg.objLookupPages := by omega
    obtain ⟨s₁, hs₁, hI₁, hwork, -, -, hcount₁⟩ := exists_loadPage hrd hI hb hp
    generalize hf : min ((p + 1) * cfg.entriesPerPage) cfg.objLookupMaxEntries = f
    have happend := segment_append (b := b) (e := e)
      (show f ≤ cfg.objLookupMaxEntries by omega)
    rw [visitPages, if_pos hp, hs₁, Option.bind_eq_bind, Option.bind_some]
    dsimp only
    rw [if_pos rfl, ← happend]
    have hall : 0 + (f - e) ≤ cfg.entriesPerPage := by
      rw [Nat.succ_mul] at hf
      omega
    rcases exists_visitEntries hrd hv hI₁ hb hp hwork hle hf.symm
      hall with
      ⟨r, a', x, hvisit, hentries, hstop⟩ | ⟨a', s', hvisit, hentries, hI', hcount'⟩
    · rw [hentries, visit_append_of_some hvisit]
      exact Or.inl ⟨r, a', x, rfl, rfl, hstop⟩
    · rw [hentries, visit_append_of_none hvisit, Option.bind_eq_bind, Option.bind_some]
      dsimp only
      refine (ih hI' (p := p + 1) (by omega) (by omega)).imp_right ?_
      rintro ⟨a'', s'', hvisit', hpages, hI'', hcount''⟩
      refine ⟨a'', s'', hvisit', hpages, hI'', ?_⟩
      rw [hcount'', hcount', hcount₁]
      omega

/-! ## The blocks -/

/-- **How a search ends**: stopped at an entry, or with `SPIFFS_VIS_END`. -/
def Ends (I : τ → α → Prop) (y : Option (ℤ × ℕ × ℕ) × α)
    (m : Fueled (Option (ℤ × LuSearch τ))) : Prop :=
  ∃ x, m.Yields (some x) ∧ I x.2.fs y.2 ∧
    y.1.elim (x.1 = visEnd) fun r => x.1 = r.1 ∧ x.2.blockIx = r.2.1 ∧ x.2.luEntry = r.2.2

/-- The block behind another one. -/
def nextBlock (cfg : SpiffsConfig) (b : ℕ) : ℕ := if cfg.blockCount ≤ b + 1 then 0 else b + 1

theorem nextBlock_lt (hb : b < cfg.blockCount) : nextBlock cfg b < cfg.blockCount := by
  unfold nextBlock
  split <;> omega

/-- When the entries are counted down, the search is at its end. -/
theorem ends_of_le (hI : I cfg.entriesPerPage s.fs a) (hcount : s.entryCount ≤ 0) :
    Ends (I cfg.entriesPerPage) (none, a) (visitBlocks rd cfg flags objId v (b, e, s)) := by
  refine ⟨(visEnd, s), Fueled.yields_loop_inr ?_, hI, rfl⟩
  unfold visitBlock
  dsimp only
  rw [if_neg (by omega)]

/-- **A block, and what is behind it.** -/
theorem ends_of_block (hrd : Loads rd cfg flash I) (hv : Visits v cfg flash flags objId I w)
    (hcfg : cfg.HasEntries) (hI : I cfg.entriesPerPage s.fs a) (hb : b < cfg.blockCount)
    (hcount : 0 < s.entryCount) {l : List (ℕ × ℕ)}
    (hrest : ∀ (a' : α) (s' : LuSearch τ), I cfg.entriesPerPage s'.fs a' →
      s'.entryCount = s.entryCount - (cfg.objLookupMaxEntries - e : ℕ) →
      if cfg.blockCount ≤ b + 1 ∧ flags.noWrap then l = []
      else Ends (I cfg.entriesPerPage) (visit cfg flash flags objId w l a')
        (visitBlocks rd cfg flags objId v (nextBlock cfg b, 0, s'))) :
    Ends (I cfg.entriesPerPage)
      (visit cfg flash flags objId w (segment b e cfg.objLookupMaxEntries ++ l) a)
      (visitBlocks rd cfg flags objId v (b, e, s)) := by
  have hnext : (b + 1) % 2 ^ 16 = b + 1 := by
    have hlt := cfg.blockCount_lt
    exact Nat.mod_eq_of_lt (by omega)
  rcases exists_visitPages hrd hv hI hb hcfg
    (Or.inl (Nat.div_mul_le_self e cfg.entriesPerPage)) with
    ⟨r, a', x, hvisit, hpages, hstop⟩ | ⟨a', s', hvisit, hpages, hI', hcount'⟩
  · rw [visit_append_of_some hvisit]
    refine ⟨x, Fueled.yields_loop_inr ?_, hstop.inv, hstop.res, hstop.blockIx, hstop.luEntry⟩
    unfold visitBlock
    dsimp only
    rw [if_pos hcount, hpages]
  · rw [visit_append_of_none hvisit]
    have hturn := hrest a' s' hI' hcount'
    by_cases hlast : cfg.blockCount ≤ b + 1 ∧ flags.noWrap = true
    · rw [if_pos hlast] at hturn
      rw [hturn]
      refine ⟨(visEnd, s'), Fueled.yields_loop_inr ?_, hI', rfl⟩
      unfold visitBlock
      dsimp only
      rw [if_pos hcount, hpages]
      dsimp only
      rw [hnext, if_pos hlast]
    · rw [if_neg hlast] at hturn
      obtain ⟨x, hx, hgood⟩ := hturn
      refine ⟨x, Fueled.yields_loop_inl ?_ hx, hgood⟩
      unfold visitBlock
      dsimp only
      rw [if_pos hcount, hpages]
      dsimp only
      rw [hnext, if_neg hlast, if_pos rfl]
      rfl

/-- So many blocks, round and round. -/
def walk (cfg : SpiffsConfig) : ℕ → ℕ → List (ℕ × ℕ)
  | 0, _ => []
  | k + 1, b => segment b 0 cfg.objLookupMaxEntries ++ walk cfg k (nextBlock cfg b)

/-- So many blocks. -/
def walkOn (cfg : SpiffsConfig) : ℕ → ℕ → List (ℕ × ℕ)
  | 0, _ => []
  | k + 1, b => segment b 0 cfg.objLookupMaxEntries ++ walkOn cfg k (b + 1)

/-- The loop goes round as long as there are entries to count. -/
theorem ends_walk (hrd : Loads rd cfg flash I) (hv : Visits v cfg flash flags objId I w)
    (hcfg : cfg.HasEntries) (hwrap : flags.noWrap = false)
    (hI : I cfg.entriesPerPage s.fs a) (hb : b < cfg.blockCount) {k : ℕ}
    (hlow : ((k : ℤ) - 1) * cfg.objLookupMaxEntries < s.entryCount)
    (hhigh : s.entryCount ≤ (k : ℤ) * cfg.objLookupMaxEntries) :
    Ends (I cfg.entriesPerPage) (visit cfg flash flags objId w (walk cfg k b) a)
      (visitBlocks rd cfg flags objId v (b, 0, s)) := by
  induction k generalizing b s a with
  | zero =>
    refine ends_of_le hI ?_
    simpa using hhigh
  | succ k ih =>
    have hsucc : ((k + 1 : ℕ) : ℤ) - 1 = k := by
      push_cast
      omega
    rw [hsucc] at hlow
    have hmul : ((k + 1 : ℕ) : ℤ) * cfg.objLookupMaxEntries =
        k * cfg.objLookupMaxEntries + cfg.objLookupMaxEntries := by
      rw [Nat.cast_succ, Int.add_mul, Int.one_mul]
    have hpred : ((k : ℤ) - 1) * cfg.objLookupMaxEntries =
        k * cfg.objLookupMaxEntries - cfg.objLookupMaxEntries := by
      rw [Int.sub_mul, Int.one_mul]
    have hpos : (0 : ℤ) ≤ k * cfg.objLookupMaxEntries :=
      Int.mul_nonneg (Int.natCast_nonneg _) (Int.natCast_nonneg _)
    rw [walk]
    refine ends_of_block hrd hv hcfg hI hb (by omega) fun a' s' hI' hcount => ?_
    rw [if_neg (by rw [hwrap]; simp)]
    rw [Nat.sub_zero] at hcount
    exact ih hI' (nextBlock_lt hb) (by omega) (by omega)

/-- With `SPIFFS_VIS_NO_WRAP`, it goes to the last block. -/
theorem ends_walkOn (hrd : Loads rd cfg flash I) (hv : Visits v cfg flash flags objId I w)
    (hcfg : cfg.HasEntries) (hwrap : flags.noWrap = true)
    (hI : I cfg.entriesPerPage s.fs a) {k : ℕ} (hk : b + (k + 1) = cfg.blockCount)
    (hcount : ((k + 1 : ℕ) : ℤ) * cfg.objLookupMaxEntries ≤ s.entryCount) :
    Ends (I cfg.entriesPerPage) (visit cfg flash flags objId w (walkOn cfg (k + 1) b) a)
      (visitBlocks rd cfg flags objId v (b, 0, s)) := by
  have hentries : (0 : ℤ) < cfg.objLookupMaxEntries := Int.natCast_pos.mpr hcfg.pos
  induction k generalizing b s a with
  | zero =>
    refine ends_of_block hrd hv hcfg hI (by omega) (by omega) fun a' s' hI' hcount' => ?_
    rw [if_pos ⟨by omega, hwrap⟩]
    rfl
  | succ k ih =>
    have hmul : ((k + 1 + 1 : ℕ) : ℤ) * cfg.objLookupMaxEntries =
        ((k + 1 : ℕ) : ℤ) * cfg.objLookupMaxEntries + cfg.objLookupMaxEntries := by
      rw [Nat.cast_succ, Int.add_mul, Int.one_mul]
    have hpos : (0 : ℤ) ≤ ((k + 1 : ℕ) : ℤ) * cfg.objLookupMaxEntries :=
      Int.mul_nonneg (Int.natCast_nonneg _) (Int.natCast_nonneg _)
    rw [walkOn]
    refine ends_of_block hrd hv hcfg hI (by omega) (by omega) fun a' s' hI' hcount' => ?_
    have hmore : ¬ cfg.blockCount ≤ b + 1 := by omega
    rw [if_neg fun h => hmore h.1, nextBlock, if_neg hmore]
    rw [Nat.sub_zero] at hcount'
    exact ih hI' (by omega) (by omega)

/-- **The entries that a search visits.** The last entry of a block is not a start. -/
def visited (cfg : SpiffsConfig) (noWrap : Bool) (b e : ℕ) : List (ℕ × ℕ) :=
  if cfg.objLookupMaxEntries ≤ e + 1 then
    if noWrap then walkOn cfg (cfg.blockCount - (b + 1)) (b + 1)
    else walk cfg cfg.blockCount (nextBlock cfg b)
  else
    segment b e cfg.objLookupMaxEntries ++
      if noWrap then walkOn cfg (cfg.blockCount - (b + 1)) (b + 1)
      else walk cfg (if e = 0 then cfg.blockCount - 1 else cfg.blockCount) (nextBlock cfg b)

/-- **`spiffs_obj_lu_find_entry_visitor` visits these entries.** -/
theorem ends_findEntryVisitor (hrd : Loads rd cfg flash I)
    (hv : Visits v cfg flash flags objId I w)
    (hcfg : cfg.HasEntries) {fs : τ} (hI : I cfg.entriesPerPage fs a)
    (hb : b < cfg.blockCount) :
    Ends (I cfg.entriesPerPage) (visit cfg flash flags objId w (visited cfg flags.noWrap b e) a)
      (findEntryVisitor rd cfg flags objId v b e fs) := by
  have hentries := hcfg.pos
  have hnext : (b + 1) % 2 ^ 16 = b + 1 := by
    have hlt := cfg.blockCount_lt
    exact Nat.mod_eq_of_lt (by omega)
  have htotal : ∀ k ≤ cfg.blockCount, (k : ℤ) * cfg.objLookupMaxEntries ≤
      cfg.blockCount * cfg.objLookupMaxEntries := fun k hk =>
    Int.mul_le_mul_of_nonneg_right (by omega) (by omega)
  have hpred : ((cfg.blockCount : ℤ) - 1) * cfg.objLookupMaxEntries =
      cfg.blockCount * cfg.objLookupMaxEntries - cfg.objLookupMaxEntries := by
    rw [Int.sub_mul, Int.one_mul]
  unfold findEntryVisitor visited
  dsimp only
  rw [hnext]
  by_cases hstart : cfg.objLookupMaxEntries ≤ e + 1
  · rw [if_pos hstart, if_pos hstart]
    cases hwrap : flags.noWrap with
    | true =>
      rw [if_pos rfl]
      by_cases hlast : cfg.blockCount ≤ b + 1
      · rw [if_pos hlast, if_pos rfl, Nat.sub_eq_zero_of_le hlast]
        exact ⟨_, Fueled.yields_pure _, hI, rfl⟩
      · rw [if_neg hlast]
        obtain ⟨k, hk⟩ : ∃ k, cfg.blockCount - (b + 1) = k + 1 :=
          ⟨cfg.blockCount - (b + 1) - 1, by omega⟩
        rw [hk]
        exact ends_walkOn hrd hv hcfg hwrap hI (by omega) (htotal _ (by omega))
    | false =>
      have hends := ends_walk hrd hv hcfg hwrap (s := ⟨fs, [], 0, 0,
        cfg.blockCount * cfg.objLookupMaxEntries⟩) (a := a) hI (nextBlock_lt hb)
        (k := cfg.blockCount) (by dsimp only; omega) (Int.le_refl _)
      unfold nextBlock at hends ⊢
      by_cases hlast : cfg.blockCount ≤ b + 1
      · simp only [if_pos hlast, Bool.false_eq_true, if_false] at hends ⊢
        exact hends
      · simp only [if_neg hlast, Bool.false_eq_true, if_false] at hends ⊢
        exact hends
  · rw [if_neg hstart, if_neg hstart]
    have hpos := htotal 1 (by omega)
    refine ends_of_block hrd hv hcfg hI hb (by dsimp only; omega) fun a' s' hI' hcount => ?_
    dsimp only at hcount
    cases hwrap : flags.noWrap with
    | true =>
      by_cases hlast : cfg.blockCount ≤ b + 1
      · rw [if_pos ⟨hlast, rfl⟩, if_pos rfl, Nat.sub_eq_zero_of_le hlast]
        rfl
      · obtain ⟨k, hk⟩ : ∃ k, cfg.blockCount - (b + 1) = k + 1 :=
          ⟨cfg.blockCount - (b + 1) - 1, by omega⟩
        rw [if_neg fun h => hlast h.1, if_pos rfl, hk, nextBlock, if_neg hlast]
        refine ends_walkOn hrd hv hcfg hwrap hI' (by omega) ?_
        have hrest := htotal (k + 1 + 1) (by omega)
        rw [Nat.cast_succ, Int.add_mul, Int.one_mul] at hrest
        omega
    | false =>
      rw [if_neg (by simp), if_neg (by simp)]
      by_cases he : e = 0
      · rw [if_pos he]
        have hcast : ((cfg.blockCount - 1 : ℕ) : ℤ) = (cfg.blockCount : ℤ) - 1 := by omega
        have hpred' : ((cfg.blockCount : ℤ) - 1 - 1) * cfg.objLookupMaxEntries =
            cfg.blockCount * cfg.objLookupMaxEntries - cfg.objLookupMaxEntries -
              cfg.objLookupMaxEntries := by
          rw [Int.sub_mul, hpred, Int.one_mul]
        exact ends_walk hrd hv hcfg hwrap hI' (nextBlock_lt hb) (by rw [hcast]; omega)
          (by rw [hcast]; omega)
      · rw [if_neg he]
        exact ends_walk hrd hv hcfg hwrap hI' (nextBlock_lt hb) (by omega) (by omega)

/-! ## Which entries these are -/

theorem nextBlock_eq (hb : b < cfg.blockCount) :
    nextBlock cfg b = (b + 1) % cfg.blockCount := by
  unfold nextBlock
  by_cases hlast : cfg.blockCount ≤ b + 1
  · rw [if_pos hlast, show b + 1 = cfg.blockCount by omega, Nat.mod_self]
  · rw [if_neg hlast, Nat.mod_eq_of_lt (by omega)]

theorem mem_walk (hb : b < cfg.blockCount) {k : ℕ} {x : ℕ × ℕ} :
    x ∈ walk cfg k b ↔
      x.2 < cfg.objLookupMaxEntries ∧ ∃ i < k, x.1 = (b + i) % cfg.blockCount := by
  induction k generalizing b with
  | zero => simp [walk]
  | succ k ih =>
    rw [walk, List.mem_append, mem_segment, ih (nextBlock_lt hb), nextBlock_eq hb]
    constructor
    · rintro (⟨hx, -, hlt⟩ | ⟨hlt, i, hi, hx⟩)
      · exact ⟨hlt, 0, Nat.succ_pos k, by rw [hx, Nat.add_zero, Nat.mod_eq_of_lt hb]⟩
      · refine ⟨hlt, i + 1, by omega, ?_⟩
        rw [hx, Nat.mod_add_mod, Nat.add_assoc, Nat.add_comm 1 i]
    · rintro ⟨hlt, i, hi, hx⟩
      cases i with
      | zero =>
        rw [Nat.add_zero, Nat.mod_eq_of_lt hb] at hx
        exact Or.inl ⟨hx, Nat.zero_le _, hlt⟩
      | succ i =>
        refine Or.inr ⟨hlt, i, by omega, ?_⟩
        rw [hx, Nat.mod_add_mod, Nat.add_assoc, Nat.add_comm 1 i]

theorem mem_walkOn {k : ℕ} {x : ℕ × ℕ} :
    x ∈ walkOn cfg k b ↔ x.2 < cfg.objLookupMaxEntries ∧ b ≤ x.1 ∧ x.1 < b + k := by
  induction k generalizing b with
  | zero =>
    simp only [walkOn, List.not_mem_nil, false_iff]
    omega
  | succ k ih =>
    rw [walkOn, List.mem_append, mem_segment, ih]
    omega

/-- **Without `SPIFFS_VIS_NO_WRAP`, all entries are visited.** -/
theorem mem_visited (hb : b < cfg.blockCount) {x : ℕ × ℕ} :
    x ∈ visited cfg false b e ↔ x.1 < cfg.blockCount ∧ x.2 < cfg.objLookupMaxEntries := by
  have hpos : 0 < cfg.blockCount := by omega
  -- From any block, each other one is so many blocks away.
  have hreach : ∀ c < cfg.blockCount, ∀ d < cfg.blockCount,
      c = (d + (c + cfg.blockCount - d) % cfg.blockCount) % cfg.blockCount := by
    intro c hc d hd
    rw [Nat.add_mod_mod, show d + (c + cfg.blockCount - d) = c + cfg.blockCount by omega,
      Nat.add_mod_right, Nat.mod_eq_of_lt hc]
  have hwalk : ∀ y : ℕ × ℕ, y ∈ walk cfg cfg.blockCount (nextBlock cfg b) ↔
      y.1 < cfg.blockCount ∧ y.2 < cfg.objLookupMaxEntries := by
    intro y
    rw [mem_walk (nextBlock_lt hb)]
    constructor
    · rintro ⟨hlt, i, -, hy⟩
      exact ⟨hy ▸ Nat.mod_lt _ hpos, hlt⟩
    · rintro ⟨hy, hlt⟩
      exact ⟨hlt, _, Nat.mod_lt _ hpos, hreach y.1 hy _ (nextBlock_lt hb)⟩
  unfold visited
  by_cases hstart : cfg.objLookupMaxEntries ≤ e + 1
  · rw [if_pos hstart, if_neg (by simp)]
    exact hwalk x
  · rw [if_neg hstart, if_neg (by simp), List.mem_append, mem_segment]
    by_cases he : e = 0
    · rw [if_pos he, mem_walk (nextBlock_lt hb), nextBlock_eq hb]
      constructor
      · rintro (⟨hx, -, hlt⟩ | ⟨hlt, i, -, hx⟩)
        · exact ⟨hx ▸ hb, hlt⟩
        · exact ⟨hx ▸ Nat.mod_lt _ hpos, hlt⟩
      · rintro ⟨hx, hlt⟩
        by_cases hxb : x.1 = b
        · exact Or.inl ⟨hxb, by omega, hlt⟩
        · refine Or.inr ⟨hlt, (x.1 + cfg.blockCount - (b + 1)) % cfg.blockCount, ?_, ?_⟩
          · rcases Nat.lt_or_gt_of_ne hxb with hless | hmore
            · rw [Nat.mod_eq_of_lt (by omega)]
              omega
            · rw [show x.1 + cfg.blockCount - (b + 1) = x.1 - (b + 1) + cfg.blockCount by omega,
                Nat.add_mod_right, Nat.mod_eq_of_lt (by omega)]
              omega
          · rw [Nat.mod_add_mod, Nat.add_mod_mod,
              show b + 1 + (x.1 + cfg.blockCount - (b + 1)) = x.1 + cfg.blockCount by omega,
              Nat.add_mod_right, Nat.mod_eq_of_lt hx]
    · rw [if_neg he, hwalk]
      constructor
      · rintro (⟨hx, -, hlt⟩ | hmem)
        · exact ⟨hx ▸ hb, hlt⟩
        · exact hmem
      · exact Or.inr

/-- **A visitor that stops where it accepts**, stops at the first entry that it accepts. -/
theorem visit_eq_find? {accept : ℕ × ℕ → Bool} {f : ℕ × ℕ → α → α} {l : List (ℕ × ℕ)}
    (hone : ∀ x ∈ l, ∀ a, visitOne cfg flash flags objId w a x =
      if accept x then (some spiffsOk, f x a) else (none, a)) :
    visit cfg flash flags objId w l a =
      (l.find? accept).elim (none, a) fun x => (some (spiffsOk, x), f x a) := by
  induction l with
  | nil => rfl
  | cons x l ih =>
    rw [visit, hone x List.mem_cons_self, List.find?_cons]
    cases haccept : accept x with
    | true => rfl
    | false => exact ih fun y hy => hone y (List.mem_cons_of_mem _ hy)

end SpiffsLookup
