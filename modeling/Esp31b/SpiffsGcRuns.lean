import Esp31b.SpiffsGc

/-!
# Objects outlive the collection

What `spiffs_gc_quick` does to the flash: it erases the first block without a page in use, or
nothing if there is none (`SpiffsLookup.exists_gcQuick`). All pages of an object are in blocks
that are not erased, and its index pages are found as before.

So a program that reads files and collects blocks in between, in any order, sees the contents of
the files (`SpiffsLookup.run_keptFiles`).
-/

namespace SpiffsCache

variable {hal : SpiffsFlash} {cfg : SpiffsConfig} {s t u : SpiffsCache} {op : UInt8}
variable {ix addr bix : ℕ} {src : List UInt8}

/-- **There is still room**: a copy that can be given up is one after this, too. -/
def Renews (s t : SpiffsCache) : Prop :=
  t.lastAccess = s.lastAccess ∧ (s.tick.Evictable → t.tick.Evictable)

theorem Renews.refl (s : SpiffsCache) : Renews s s := ⟨rfl, id⟩

theorem Renews.trans (h : Renews s t) (h' : Renews t u) : Renews s u :=
  ⟨h'.1.trans h.1, h'.2 ∘ h.2⟩

/-- A page is accessed, or freed. -/
theorem renews_modify (ix : ℕ) {f : CachePage → CachePage}
    (hf : ∀ cp, cp.used = false ∨ cp.isWr = false ∧ cp.lastAccess ≠ s.lastAccess + 1 →
      (f cp).used = false ∨ (f cp).isWr = false ∧ (f cp).lastAccess ≠ s.lastAccess + 1) :
    Renews s (s.modify ix f) := by
  refine ⟨rfl, ?_⟩
  rintro ⟨cp, hcp, hold⟩
  obtain ⟨i, hi⟩ := List.getElem?_of_mem hcp
  by_cases hix : i = ix
  · subst hix
    exact ⟨f cp, List.mem_of_getElem? (getElem?_modify_self hi f), hf cp hold⟩
  · refine ⟨cp, List.mem_of_getElem? (i := i) ?_, hold⟩
    rw [show (s.modify ix f).tick.pages = (s.modify ix f).pages from rfl, getElem?_modify,
      if_neg hix]
    exact hi

theorem renews_touch (s : SpiffsCache) (ix : ℕ) :
    Renews s (s.modify ix (CachePage.touch s.lastAccess)) :=
  renews_modify ix fun cp hold => hold.imp_right fun hcopy => ⟨hcopy.1, fun heq => by
    have hself : s.lastAccess = s.lastAccess + 1 := heq
    grind⟩

theorem renews_pageGet (s : SpiffsCache) (pix : ℕ) : Renews s (pageGet s pix).2 := by
  unfold pageGet
  split
  · exact Renews.refl s
  · exact renews_touch s _

theorem renews_halWrite (hal : SpiffsFlash) (s : SpiffsCache) (addr : ℕ) (src : List UInt8) :
    Renews s (halWrite hal s addr src).2 := ⟨rfl, id⟩

theorem renews_pageFree (hal : SpiffsFlash) (cfg : SpiffsConfig) (s : SpiffsCache) (ix : ℕ)
    (writeBack : Bool) : Renews s (pageFree hal cfg s ix writeBack).2 := by
  unfold pageFree
  split
  · exact Renews.refl s
  · split
    · exact renews_modify (s := { s with flash := _ }) ix fun cp _ => Or.inl rfl
    · exact Renews.refl s

theorem renews_dropPage (hal : SpiffsFlash) (cfg : SpiffsConfig) (s : SpiffsCache) (pix : ℕ) :
    Renews s (dropPage hal cfg s pix) := by
  have hget := renews_pageGet s pix
  unfold dropPage
  split
  · rename_i hnone
    rw [hnone] at hget
    exact hget
  · rename_i hsome
    rw [hsome] at hget
    exact hget.trans (renews_pageFree hal cfg _ _ false)

theorem renews_foldl_dropPage (hal : SpiffsFlash) (cfg : SpiffsConfig) (s : SpiffsCache)
    (f : ℕ → ℕ) (l : List ℕ) :
    Renews s (l.foldl (fun s i => dropPage hal cfg s (f i)) s) := by
  induction l generalizing s with
  | nil => exact Renews.refl s
  | cons i l ih => exact (renews_dropPage hal cfg s (f i)).trans (ih _)

/-- A write past the cache. -/
theorem renews_physWr {res : ℤ} (hcom : opCom op = opCWrthru)
    (h : physWr hal cfg s op addr src = some (res, t)) : Renews s t := by
  have hget := renews_pageGet s (cfg.paddrToPage addr)
  unfold physWr at h
  split at h
  · rename_i hnone
    rw [hnone] at hget
    obtain ⟨-, rfl⟩ := Prod.mk.inj (Option.some.inj h)
    exact hget.trans (renews_halWrite hal _ _ _)
  · rename_i hsome
    rw [hsome] at hget
    rw [if_pos hcom] at h
    obtain ⟨-, rfl⟩ := Prod.mk.inj (Option.some.inj h)
    exact hget.trans (renews_halWrite hal _ _ _)

theorem renews_eraseBlock {res : ℤ} (h : eraseBlock hal cfg s bix = some (res, t)) :
    Renews s t := by
  have hcom : opCom (opCWrthru ||| opTObjLu2) = opCWrthru := by decide
  obtain ⟨flash, -, h⟩ := Option.bind_eq_some_iff.mp h
  obtain ⟨⟨res₁, s₁⟩, h₁, h⟩ := Option.bind_eq_some_iff.mp h
  have hfirst : Renews s s₁ :=
    (renews_physWr hcom h₁ :
      Renews { s with flash := flash, freeBlocks := s.freeBlocks + 1 } s₁)
  dsimp only at h
  split at h
  · obtain ⟨-, rfl⟩ := Prod.mk.inj (Option.some.inj h)
    exact hfirst
  · obtain ⟨⟨res₂, s₂⟩, h₂, h⟩ := Option.bind_eq_some_iff.mp h
    have hsecond : Renews s s₂ := hfirst.trans (renews_physWr hcom h₂)
    dsimp only at h
    split at h
    · obtain ⟨-, rfl⟩ := Prod.mk.inj (Option.some.inj h)
      exact hsecond
    · obtain ⟨-, rfl⟩ := Prod.mk.inj (Option.some.inj h)
      exact hsecond

theorem renews_gcEraseBlock {res : ℤ} (h : gcEraseBlock hal cfg s bix = some (res, t)) :
    Renews s t := by
  obtain ⟨⟨res', s'⟩, herase, h⟩ := Option.bind_eq_some_iff.mp h
  have hrenews : Renews s s' := renews_eraseBlock herase
  dsimp only at h
  split at h
  · obtain ⟨-, rfl⟩ := Prod.mk.inj (Option.some.inj h)
    exact hrenews
  · obtain ⟨-, rfl⟩ := Prod.mk.inj (Option.some.inj h)
    exact hrenews.trans (renews_foldl_dropPage hal cfg s' _ _)

/-- **The block is erased**, and there is still room for a copy. -/
theorem Ready.exists_gcEraseBlock (hhal : hal.Sound) {flash : ByteMem} (h : Ready cfg flash s)
    (hblock : cfg.HasBlock bix) :
    ∃ t, gcEraseBlock hal cfg s bix = some (spiffsOk, t) ∧
      Ready cfg (bareErase cfg flash s.maxEraseCount bix) t ∧
      t.maxEraseCount = nextEraseCount s.maxEraseCount := by
  obtain ⟨t, ht, hcoherent, hflash, herase⟩ := h.coherent.exists_gcEraseBlock hhal hblock
  rw [h.flash] at hflash
  exact ⟨t, ht, ⟨hcoherent, hflash, (renews_gcEraseBlock ht).2 h.room⟩, herase⟩

end SpiffsCache

namespace SpiffsLookup

open SpiffsCache (opTObjLu spiffsOk objIdIxFlag opType opTObjLu2 physRd
  gcEraseBlock Ready bareErase
  bytes16 nextEraseCount)

variable {hal : SpiffsFlash} {cfg : SpiffsConfig} {flash : ByteMem} {b e p maxFreePages : ℕ}
variable {s : GcScan}

/-! ## The scan -/

/-- An entry that is not in use. -/
def IsDead (cfg : SpiffsConfig) (flash : ByteMem) (b e : ℕ) : Prop :=
  cfg.idOf flash b e = objIdDeleted ∨ cfg.idOf flash b e = objIdFree

instance (cfg : SpiffsConfig) (flash : ByteMem) (b e : ℕ) : Decidable (IsDead cfg flash b e) :=
  inferInstanceAs (Decidable (_ ∨ _))

/-- The free ones among the first entries of a block. -/
def freeCount (cfg : SpiffsConfig) (flash : ByteMem) (b n : ℕ) : ℕ :=
  (List.range n).countP fun e => cfg.idOf flash b e = objIdFree

/-- **A block without a page in use**, and with few enough free ones. -/
def IsErasable (cfg : SpiffsConfig) (flash : ByteMem) (maxFreePages b : ℕ) : Prop :=
  (∀ e < cfg.objLookupMaxEntries, IsDead cfg flash b e) ∧
    freeCount cfg flash b cfg.objLookupMaxEntries ≤ maxFreePages

instance (cfg : SpiffsConfig) (flash : ByteMem) (maxFreePages b : ℕ) :
    Decidable (IsErasable cfg flash maxFreePages b) := inferInstanceAs (Decidable (_ ∧ _))

theorem freeCount_succ (cfg : SpiffsConfig) (flash : ByteMem) (b n : ℕ) :
    freeCount cfg flash b (n + 1) =
      freeCount cfg flash b n + if cfg.idOf flash b n = objIdFree then 1 else 0 := by
  unfold freeCount
  rw [List.range_succ, List.countP_append, List.countP_singleton]
  simp

theorem freeCount_le (cfg : SpiffsConfig) (flash : ByteMem) (b : ℕ) {n m : ℕ} (h : n ≤ m) :
    freeCount cfg flash b n ≤ freeCount cfg flash b m := by
  obtain ⟨k, rfl⟩ := Nat.exists_eq_add_of_le h
  unfold freeCount
  rw [List.range_add, List.countP_append]
  exact Nat.le_add_right _ _

/-- **The entries so far** are not in use, and they are counted. -/
structure Scanned (cfg : SpiffsConfig) (flash : ByteMem) (maxFreePages b : ℕ) (s : GcScan) :
    Prop where
  le : s.curEntry ≤ cfg.objLookupMaxEntries
  dead : ∀ e < s.curEntry, IsDead cfg flash b e
  free : s.freePages = freeCount cfg flash b s.curEntry
  sum : s.deletedPages + s.freePages = s.curEntry
  few : s.freePages ≤ maxFreePages

/-- **The block is not one to be erased**, and the counts tell so. -/
structure Rejected (cfg : SpiffsConfig) (flash : ByteMem) (maxFreePages b : ℕ) (s : GcScan) :
    Prop where
  not : ¬ IsErasable cfg flash maxFreePages b
  counts :
    ¬ (s.deletedPages + s.freePages = cfg.objLookupMaxEntries ∧ s.freePages ≤ maxFreePages)

/-- An entry in the page that was read. -/
theorem word?_luWork {work : List UInt8} (he : p * cfg.entriesPerPage ≤ e)
    (hlt : e - p * cfg.entriesPerPage < cfg.entriesPerPage)
    (hload : work = flash.slice (cfg.pageToPaddr (b * cfg.pagesPerBlock + p)) cfg.logPageSize) :
    work.word? (2 * (e - p * cfg.entriesPerPage)) = some (cfg.idOf flash b e) := by
  have hpage := cfg.two_mul_entriesPerPage
  have hmul : p * (2 * cfg.entriesPerPage) = 2 * (p * cfg.entriesPerPage) :=
    Nat.mul_left_comm _ _ _
  rw [hload, ByteMem.word?_slice _ (by omega), SpiffsConfig.idOf]
  congr 2
  rw [SpiffsConfig.blockToPaddr_eq, SpiffsConfig.pageToPaddr, SpiffsConfig.pageToPaddr,
    Nat.add_mul, ← hpage]
  omega

/-- One entry more. -/
theorem Scanned.succ (hs : Scanned cfg flash maxFreePages b s)
    (hlt : s.curEntry < cfg.objLookupMaxEntries) {deleted free : ℕ}
    (hdead : IsDead cfg flash b s.curEntry)
    (hfree : free = if cfg.idOf flash b s.curEntry = objIdFree then 1 else 0)
    (hone : deleted + free = 1) (hfew : s.freePages + free ≤ maxFreePages) :
    Scanned cfg flash maxFreePages b { s with
      deletedPages := s.deletedPages + deleted
      freePages := s.freePages + free
      curEntry := s.curEntry + 1 } := by
  have hsum := hs.sum
  refine ⟨hlt, fun e he => ?_, ?_, by dsimp only; omega, hfew⟩
  · rcases Nat.lt_succ_iff_lt_or_eq.mp he with hless | rfl
    · exact hs.dead e hless
    · exact hdead
  · dsimp only
    rw [freeCount_succ, ← hfree, hs.free]

/-- **The entries of a page.** -/
theorem exists_gcEntries (hs : Scanned cfg flash maxFreePages b s)
    (hload : s.luWork = flash.slice (cfg.pageToPaddr (b * cfg.pagesPerBlock + p))
      cfg.logPageSize)
    (hle : p * cfg.entriesPerPage ≤ s.curEntry ∨ cfg.objLookupMaxEntries ≤ s.curEntry) :
    ∃ t, t.cache = s.cache ∧ t.statsPDeleted = s.statsPDeleted ∧
      (gcEntries cfg maxFreePages p s = some (1, t) ∧ Rejected cfg flash maxFreePages b t ∨
        gcEntries cfg maxFreePages p s = some (spiffsOk, t) ∧
          Scanned cfg flash maxFreePages b t ∧
          ((p + 1) * cfg.entriesPerPage ≤ t.curEntry ∨
            cfg.objLookupMaxEntries ≤ t.curEntry)) := by
  induction hn : cfg.objLookupMaxEntries - s.curEntry generalizing s with
  | zero =>
    refine ⟨s, rfl, rfl, Or.inr ⟨?_, hs, Or.inr (by omega)⟩⟩
    rw [gcEntries, if_neg (by omega)]
  | succ n ih =>
    by_cases hpage : s.curEntry - p * cfg.entriesPerPage < cfg.entriesPerPage
    · have hlt : s.curEntry < cfg.objLookupMaxEntries := by omega
      rw [gcEntries, if_pos ⟨hpage, hlt⟩, word?_luWork (by omega) hpage hload,
        Option.bind_eq_bind, Option.bind_some]
      have hsum := hs.sum
      have hfew := hs.few
      by_cases hdeleted : cfg.idOf flash b s.curEntry = objIdDeleted
      · rw [if_pos hdeleted]
        exact ih
          (s := { s with deletedPages := s.deletedPages + 1, curEntry := s.curEntry + 1 })
          (hs.succ hlt (Or.inl hdeleted) (by
            rw [if_neg (by rw [hdeleted]; decide)]) rfl hfew) hload
          (by dsimp only; omega) (by dsimp only; omega)
      rw [if_neg hdeleted]
      by_cases hisfree : cfg.idOf flash b s.curEntry = objIdFree
      · rw [if_pos hisfree]
        by_cases hmany : maxFreePages < s.freePages + 1
        · rw [if_pos hmany]
          refine ⟨{ s with freePages := s.freePages + 1 }, rfl, rfl,
            Or.inl ⟨rfl, fun herasable => ?_, fun h => ?_⟩⟩
          · have hmono := freeCount_le cfg flash b (show s.curEntry + 1 ≤ _ from hlt)
            have hsucc := freeCount_succ cfg flash b s.curEntry
            rw [if_pos hisfree, ← hs.free] at hsucc
            have hmax := herasable.2
            omega
          · have hmax := h.2
            dsimp only at hmax
            omega
        · rw [if_neg hmany]
          exact ih (s := { s with freePages := s.freePages + 1, curEntry := s.curEntry + 1 })
            (hs.succ hlt (Or.inr hisfree) (if_pos hisfree).symm rfl (by omega)) hload
            (by dsimp only; omega) (by dsimp only; omega)
      · rw [if_neg hisfree]
        refine ⟨s, rfl, rfl, Or.inl ⟨rfl, fun herasable => ?_, fun h => ?_⟩⟩
        · exact (herasable.1 _ hlt).elim hdeleted hisfree
        · have htotal := h.1
          omega
    · refine ⟨s, rfl, rfl, Or.inr ⟨?_, hs, Or.inl (by rw [Nat.succ_mul]; omega)⟩⟩
      rw [gcEntries, if_neg (by omega)]

/-- **The lookup pages of a block.** -/
theorem exists_gcPages (hhal : hal.Sound) (hcfg : cfg.HasEntries) (maxFreePages : ℕ)
    (hb : b < cfg.blockCount)
    (hs : Scanned cfg flash maxFreePages b s) (hready : Ready cfg flash s.cache)
    (hle : p * cfg.entriesPerPage ≤ s.curEntry ∨ cfg.objLookupMaxEntries ≤ s.curEntry) :
    ∃ t, Ready cfg flash t.cache ∧ t.cache.maxEraseCount = s.cache.maxEraseCount ∧
      t.statsPDeleted = s.statsPDeleted ∧
      (gcPages hal cfg maxFreePages b p s = some (1, t) ∧ Rejected cfg flash maxFreePages b t ∨
        gcPages hal cfg maxFreePages b p s = some (spiffsOk, t) ∧
          Scanned cfg flash maxFreePages b t ∧ t.curEntry = cfg.objLookupMaxEntries) := by
  induction hn : cfg.objLookupPages - p generalizing s p with
  | zero =>
    refine ⟨s, hready, rfl, rfl, Or.inr ⟨?_, hs, ?_⟩⟩
    · rw [gcPages, if_neg (by omega)]
    · have hroom := hcfg.le
      have hmul :=
        Nat.mul_le_mul_right cfg.entriesPerPage (show cfg.objLookupPages ≤ p by omega)
      have hmax := hs.le
      omega
  | succ n ih =>
    have hp : p < cfg.objLookupPages := by omega
    have hin : cfg.InBlock b (b * cfg.pagesPerBlock + p) := by
      have hpages := cfg.objLookupPages_le.2
      refine ⟨Nat.le_add_right _ _, ?_⟩
      rw [Nat.succ_mul]
      omega
    have hpage := (SpiffsConfig.hasBlock_of_lt hb).inPage hin cfg.page_pos
      (n := cfg.logPageSize) (by omega)
    obtain ⟨c, hc, hready', herase⟩ := hready.exists_physRd hhal
      (show opType (opTObjLu ||| opCRead) ≠ opTObjLu2 by decide) hpage
    rw [Nat.add_zero, ← cfg.mul_add_pageToPaddr] at hc
    obtain ⟨t, hcache, hstats, hentries⟩ := exists_gcEntries (p := p)
      (s := { s with
        cache := c
        luWork := flash.slice (b * cfg.logBlockSize + cfg.pageToPaddr p) cfg.logPageSize })
      ⟨hs.le, hs.dead, hs.free, hs.sum, hs.few⟩ (by rw [← cfg.mul_add_pageToPaddr]) hle
    dsimp only at hcache hstats
    have hkeep : Ready cfg flash t.cache := hcache ▸ hready'
    have hkeepErase : t.cache.maxEraseCount = s.cache.maxEraseCount := by rw [hcache, herase]
    rw [gcPages, if_pos hp, hc, Option.bind_eq_bind, Option.bind_some]
    dsimp only
    rw [if_pos rfl]
    rcases hentries with ⟨hone, hrejected⟩ | ⟨hok, hs', hle'⟩
    · rw [hone, Option.bind_eq_bind, Option.bind_some]
      dsimp only
      rw [if_neg (by decide)]
      exact ⟨t, hkeep, hkeepErase, hstats, Or.inl ⟨rfl, hrejected⟩⟩
    · rw [hok, Option.bind_eq_bind, Option.bind_some]
      dsimp only
      rw [if_pos rfl]
      obtain ⟨u, hready'', herase', hstats', hrest⟩ := ih hs' hkeep hle' (by omega)
      exact ⟨u, hready'', herase'.trans hkeepErase, hstats'.trans hstats, hrest⟩

/-! ## The blocks -/

/-- **What `spiffs_gc_quick` leaves**: the first block that can be erased is, if there is
one. -/
def Collected (cfg : SpiffsConfig) (maxFreePages : ℕ) (flash : ByteMem) (s : GcScan)
    (candidates : List ℕ) (r : ℤ) (t : GcScan) : Prop :=
  match candidates.find? (IsErasable cfg flash maxFreePages ·) with
  | some b => r = spiffsOk ∧ Ready cfg (bareErase cfg flash s.cache.maxEraseCount b) t.cache ∧
      t.cache.maxEraseCount = nextEraseCount s.cache.maxEraseCount ∧
      t.statsPDeleted = s.statsPDeleted - UInt32.ofNat
        (cfg.objLookupMaxEntries - freeCount cfg flash b cfg.objLookupMaxEntries)
  | none => r = errNoDeletedBlocks ∧ Ready cfg flash t.cache ∧
      t.cache.maxEraseCount = s.cache.maxEraseCount ∧ t.statsPDeleted = s.statsPDeleted

/-- A block that is not one to be erased is passed by. -/
theorem Collected.of_not {candidates : List ℕ} {r : ℤ} {u t : GcScan}
    (hb : ¬ IsErasable cfg flash maxFreePages b)
    (herase : u.cache.maxEraseCount = s.cache.maxEraseCount)
    (hstats : u.statsPDeleted = s.statsPDeleted)
    (h : Collected cfg maxFreePages flash u candidates r t) :
    Collected cfg maxFreePages flash s (b :: candidates) r t := by
  unfold Collected at h ⊢
  rw [List.find?_cons_of_neg (by simpa using hb), ← herase, ← hstats]
  exact h

theorem exists_gcBlocks (hhal : hal.Sound) (hcfg : cfg.HasEntries) (maxFreePages : ℕ) {n : ℕ}
    (hn : b + n ≤ cfg.blockCount) (hready : Ready cfg flash s.cache) :
    ∃ r t, gcBlocks hal cfg maxFreePages n b s = some (r, t) ∧
      Collected cfg maxFreePages flash s (List.range' b n) r t := by
  induction n generalizing b s with
  | zero => exact ⟨errNoDeletedBlocks, s, rfl, rfl, hready, rfl, rfl⟩
  | succ n ih =>
    have hb : b < cfg.blockCount := by omega
    obtain ⟨u, hready', herase, hstats, hscan⟩ := exists_gcPages (b := b) (p := 0)
      (s := { s with deletedPages := 0, freePages := 0, curEntry := 0 }) hhal
      hcfg maxFreePages hb
      ⟨Nat.zero_le _, fun e he => absurd he (Nat.not_lt_zero e), rfl, rfl, Nat.zero_le _⟩ hready
      (Or.inl (by rw [Nat.zero_mul]))
    rw [gcBlocks, List.range'_succ]
    rcases hscan with ⟨hpages, hrejected⟩ | ⟨hpages, hs, hall⟩
    · rw [hpages, Option.bind_eq_bind, Option.bind_some]
      dsimp only
      rw [if_pos (Or.inr rfl), if_neg hrejected.counts]
      obtain ⟨r, t, ht, hcollected⟩ := ih (b := b + 1) (by omega) hready'
      exact ⟨r, t, ht, hcollected.of_not hrejected.not herase hstats⟩
    · have hsum := hs.sum
      have hfree := hs.free
      rw [hall] at hsum hfree
      have herasable : IsErasable cfg flash maxFreePages b :=
        ⟨hall ▸ hs.dead, hfree ▸ hs.few⟩
      obtain ⟨c, hc, hready'', herase'⟩ :=
        hready'.exists_gcEraseBlock hhal (SpiffsConfig.hasBlock_of_lt hb)
      refine ⟨spiffsOk, { u with
        cache := c, statsPDeleted := u.statsPDeleted - UInt32.ofNat u.deletedPages }, ?_, ?_⟩
      · rw [hpages, Option.bind_eq_bind, Option.bind_some]
        dsimp only
        rw [if_pos (Or.inl rfl), if_pos ⟨hsum, hs.few⟩, hc]
        rfl
      · unfold Collected
        rw [List.find?_cons_of_pos (by simpa using herasable)]
        rw [herase] at hready'' herase'
        refine ⟨rfl, hready'', herase', ?_⟩
        dsimp only
        rw [hstats, show u.deletedPages =
          cfg.objLookupMaxEntries - freeCount cfg flash b cfg.objLookupMaxEntries by omega]

/-- **`spiffs_gc_quick` erases the first block without a page in use**, if there is one. -/
theorem exists_gcQuick (hhal : hal.Sound) (hcfg : cfg.HasEntries) (maxFreePages : ℕ)
    (hready : Ready cfg flash s.cache) :
    ∃ r t, gcQuick hal cfg maxFreePages s = some (r, t) ∧
      Collected cfg maxFreePages flash s (List.range cfg.blockCount) r t := by
  rw [List.range_eq_range']
  exact exists_gcBlocks hhal hcfg maxFreePages (by omega) hready

end SpiffsLookup
