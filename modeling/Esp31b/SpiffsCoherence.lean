import Esp31b.SpiffsCache

/-!
# Copies that are what the flash holds

The pool is right as long as writes do what a flash does: clear bits. A write that is to set one
leaves the copy different from the flash, and the writes that pass the cache by
(`SPIFFS_OP_C_WRTHRU`) leave it stale; `spiffs_gc_erase_block` drops the pages of the block
afterwards. `SpiffsCache.CoherentBut` says of which pages the copies may be stale, and there is
a lemma for each of the functions.
-/

namespace SpiffsCache

variable {hal : SpiffsFlash} {cfg : SpiffsConfig} {s t u : SpiffsCache} {cp cq : CachePage}
variable {i j ix pix addr len : ℕ} {op : UInt8} {src : List UInt8}

/-! ## Copies -/

/-- **The copies are what the flash holds**, but for those of some pages, and there is one of a
page at most. -/
structure CoherentBut (cfg : SpiffsConfig) (stale : ℕ → Prop) (s : SpiffsCache) : Prop where
  room : ∀ (i : ℕ) (cp : CachePage), s.pages[i]? = some cp → cp.mem.length = cfg.logPageSize
  flags : ∀ (i : ℕ) (cp : CachePage), s.pages[i]? = some cp → cp.isCopy = true →
    cp.flags = flagWrthru
  copy : ∀ (i : ℕ) (cp : CachePage), s.pages[i]? = some cp → cp.isCopy = true → ¬ stale cp.pix →
    cp.mem = s.flash.slice (cfg.pageToPaddr cp.pix) cfg.logPageSize
  apart : ∀ (i j : ℕ) (cp cq : CachePage), s.pages[i]? = some cp → s.pages[j]? = some cq →
    cp.isCopy = true → cq.isCopy = true → cp.pix = cq.pix → i = j

/-- **All copies are what the flash holds.** -/
abbrev Coherent (cfg : SpiffsConfig) (s : SpiffsCache) : Prop :=
  CoherentBut cfg (fun _ => False) s

variable {stale : ℕ → Prop}

/-- A page of the pool is changed, to one that is no copy, or the only one of its page. -/
theorem CoherentBut.modify (h : CoherentBut cfg stale s) {f : CachePage → CachePage}
    (hf : ∀ cp, s.pages[ix]? = some cp → (f cp).mem.length = cfg.logPageSize ∧
      ((f cp).isCopy = true → (f cp).flags = flagWrthru ∧
        (¬ stale (f cp).pix →
          (f cp).mem = s.flash.slice (cfg.pageToPaddr (f cp).pix) cfg.logPageSize) ∧
        ∀ (j : ℕ) (cq : CachePage), j ≠ ix → s.pages[j]? = some cq → cq.isCopy = true →
          cq.pix ≠ (f cp).pix)) :
    CoherentBut cfg stale (s.modify ix f) := by
  -- A page of the new pool is the changed one or one of the old pool.
  have hpage : ∀ (i : ℕ) (cp : CachePage), (s.modify ix f).pages[i]? = some cp →
      (i = ix ∧ ∃ cp', s.pages[ix]? = some cp' ∧ f cp' = cp) ∨
      (i ≠ ix ∧ s.pages[i]? = some cp) := by
    intro i cp hcp
    rw [getElem?_modify] at hcp
    split at hcp
    · rename_i hi
      obtain ⟨cp', hcp', rfl⟩ := Option.map_eq_some_iff.mp hcp
      exact Or.inl ⟨hi, cp', hi ▸ hcp', rfl⟩
    · rename_i hi
      exact Or.inr ⟨hi, hcp⟩
  refine ⟨fun i cp hcp => ?_, fun i cp hcp hcopy => ?_, fun i cp hcp hcopy => ?_,
    fun i j cp cq hcp hcq hcopy hcopy' heq => ?_⟩
  · rcases hpage i cp hcp with ⟨-, cp', hcp', rfl⟩ | ⟨-, hold⟩
    · exact (hf cp' hcp').1
    · exact h.room i cp hold
  · rcases hpage i cp hcp with ⟨-, cp', hcp', rfl⟩ | ⟨-, hold⟩
    · exact ((hf cp' hcp').2 hcopy).1
    · exact h.flags i cp hold hcopy
  · rcases hpage i cp hcp with ⟨-, cp', hcp', rfl⟩ | ⟨-, hold⟩
    · exact ((hf cp' hcp').2 hcopy).2.1
    · exact h.copy i cp hold hcopy
  · rcases hpage i cp hcp with ⟨rfl, cp', hcp', rfl⟩ | ⟨hi, hold⟩
    · rcases hpage j cq hcq with ⟨hj, -⟩ | ⟨hj, hold'⟩
      · exact hj.symm
      · exact absurd heq.symm (((hf cp' hcp').2 hcopy).2.2 j cq hj hold' hcopy')
    · rcases hpage j cq hcq with ⟨rfl, cq', hcq', rfl⟩ | ⟨hj, hold'⟩
      · exact absurd heq (((hf cq' hcq').2 hcopy').2.2 i cp hi hold hcopy)
      · exact h.apart i j cp cq hold hold' hcopy hcopy' heq

/-- A page may be accessed. -/
theorem CoherentBut.touch (h : CoherentBut cfg stale s) (ix : ℕ) (lastAccess : UInt32) :
    CoherentBut cfg stale (s.modify ix (CachePage.touch lastAccess)) :=
  h.modify fun cp hcp => ⟨h.room ix cp hcp, fun hcopy =>
    ⟨h.flags ix cp hcp hcopy, h.copy ix cp hcp hcopy, fun j cq hj hcq hcopy' heq =>
      hj (h.apart j ix cq cp hcq hcp hcopy' hcopy heq)⟩⟩

/-- It may be accessed twice. -/
theorem CoherentBut.touch_touch (h : CoherentBut cfg stale s) (ix : ℕ) (x y : UInt32) :
    CoherentBut cfg stale (s.modify ix (CachePage.touch x ∘ CachePage.touch y)) := by
  rw [← modify_modify]
  exact (h.touch ix y).touch ix x

theorem CoherentBut.tick (h : CoherentBut cfg stale s) : CoherentBut cfg stale s.tick :=
  ⟨h.room, h.flags, h.copy, h.apart⟩

/-- A page may become one that is no copy. -/
theorem CoherentBut.modify_of_not (h : CoherentBut cfg stale s) {f : CachePage → CachePage}
    (hf : ∀ cp, s.pages[ix]? = some cp → (f cp).mem.length = cfg.logPageSize ∧
      (f cp).isCopy = false) : CoherentBut cfg stale (s.modify ix f) :=
  h.modify fun cp hcp => ⟨(hf cp hcp).1, fun hcopy => by
    rw [(hf cp hcp).2] at hcopy
    cases hcopy⟩

/-- A page may be freed. -/
theorem CoherentBut.free (h : CoherentBut cfg stale s) (ix : ℕ) :
    CoherentBut cfg stale (s.modify ix CachePage.free) :=
  h.modify_of_not fun cp hcp => ⟨h.room ix cp hcp, rfl⟩

/-- The flash may be changed where there is no copy of it. -/
theorem CoherentBut.flash (h : CoherentBut cfg stale s) {flash : ByteMem}
    (hf : ∀ (i : ℕ) (cp : CachePage), s.pages[i]? = some cp →
      cp.isCopy = true → ¬ stale cp.pix →
      flash.slice (cfg.pageToPaddr cp.pix) cfg.logPageSize =
        s.flash.slice (cfg.pageToPaddr cp.pix) cfg.logPageSize) :
    CoherentBut cfg stale { s with flash := flash } :=
  ⟨h.room, h.flags, fun i cp hcp hcopy hstale =>
    (h.copy i cp hcp hcopy hstale).trans (hf i cp hcp hcopy hstale).symm, h.apart⟩

theorem isCopyOf_iff : cp.isCopyOf pix = true ↔ cp.isCopy = true ∧ cp.pix = pix := by
  simp [CachePage.isCopyOf]

theorem isCopy_iff : cp.isCopy = true ↔ cp.used = true ∧ cp.isWr = false := by
  simp [CachePage.isCopy]

/-- A copy that is freed is not written back: none is dirty. -/
theorem CoherentBut.pageFree_eq (h : CoherentBut cfg stale s) (hcp : s.pages[ix]? = some cp)
    (hcopy : cp.isCopy = true) (writeBack : Bool) :
    pageFree hal cfg s ix writeBack = (spiffsOk, s.modify ix CachePage.free) := by
  have hclean : (cp.flags &&& flagDirty != 0) = false := by
    rw [h.flags ix cp hcp hcopy]
    rfl
  unfold pageFree
  rw [hcp]
  dsimp only
  rw [if_pos (isCopy_iff.mp hcopy).1, hclean, Bool.and_false, if_neg (by simp)]

/-- **What `spiffs_cache_page_remove_oldest` does to copies.** -/
theorem CoherentBut.exists_removed (h : CoherentBut cfg stale s) (hal : SpiffsFlash) :
    ∃ t, pageRemoveOldest hal cfg s flagTypeWr 0 = (spiffsOk, t) ∧ CoherentBut cfg stale t ∧
      t.flash = s.flash ∧ t.lastAccess = s.lastAccess ∧ t.maxEraseCount = s.maxEraseCount ∧
      (∀ pix, (∀ (i : ℕ) (cp : CachePage), s.pages[i]? = some cp → cp.isCopyOf pix = false) →
        ∀ (i : ℕ) (cp : CachePage), t.pages[i]? = some cp → cp.isCopyOf pix = false) ∧
      (s.Evictable → ∃ cp ∈ t.pages, cp.used = false) := by
  rcases pageRemoveOldest_cases hal cfg s with ⟨hnone, hfree⟩ | ⟨ix, cp, hcp, hcopy, -, hsome⟩
  · exact ⟨s, hnone, h, rfl, rfl, rfl, fun _ h => h, hfree⟩
  · rw [h.pageFree_eq hcp hcopy] at hsome
    refine ⟨_, hsome, h.free ix, rfl, rfl, rfl, fun pix hpix i cq hcq => ?_, fun _ =>
      ⟨cp.free, List.mem_of_getElem? (getElem?_modify_self hcp _), rfl⟩⟩
    rw [getElem?_modify] at hcq
    split at hcq
    · obtain ⟨cp', -, rfl⟩ := Option.map_eq_some_iff.mp hcq
      rfl
    · exact hpix i cq hcq

/-- What is copied out of a copy of its page. -/
theorem copyOut_eq (hin : cfg.InPage addr len) (hcp : s.pages[ix]? = some cp)
    (hmem : cp.mem = s.flash.slice (cfg.pageToPaddr (cfg.paddrToPage addr)) cfg.logPageSize) :
    copyOut cfg s ix addr len = some (s.flash.slice addr len) := by
  rw [copyOut, hcp, Option.bind_eq_bind, Option.bind_some, hmem,
    ByteMem.read_slice _ hin.inside, hin.pageToPaddr_add]

/-- The page becomes a copy. -/
theorem makeCopy_eq (hhal : hal.Sound) (hin : cfg.InPage addr len) (s : SpiffsCache) (ix : ℕ)
    (lastAccess : UInt32) :
    ∃ f : CachePage → CachePage, (∀ cp, (f cp).flags = flagWrthru ∧
        (f cp).pix = cfg.paddrToPage addr ∧
        (f cp).mem = s.flash.slice (cfg.pageToPaddr (cfg.paddrToPage addr)) cfg.logPageSize) ∧
      makeCopy hal cfg (s.modify ix (CachePage.take lastAccess)) ix addr =
        (spiffsOk, s.modify ix f) := by
  have hread : hal.read s.flash (addr - cfg.paddrToPageOffset addr) cfg.logPageSize =
      (0, s.flash.slice (cfg.pageToPaddr (cfg.paddrToPage addr)) cfg.logPageSize) := by
    rw [hin.sub_offset]
    exact hhal.read _ _ _ (cfg.four_dvd_pageToPaddr _) hin.page_fits
  refine ⟨fun cp => { cp.take lastAccess with
    flags := flagWrthru
    pix := cfg.paddrToPage addr
    mem := s.flash.slice (cfg.pageToPaddr (cfg.paddrToPage addr)) cfg.logPageSize },
    fun cp => ⟨rfl, rfl, rfl⟩, ?_⟩
  simp only [makeCopy, modify_modify, flash_modify, hread]
  rfl

/-- **A read is served**: its page has a copy, or it needs none and is of whole words, or there
is a page to make a copy in. -/
def Served (cfg : SpiffsConfig) (s : SpiffsCache) (op : UInt8) (addr : ℕ) : Prop :=
  (∃ cp ∈ s.pages, cp.isCopyOf (cfg.paddrToPage addr) = true) ∨
  if opType op = opTObjLu2 then 4 ∣ addr else s.tick.Evictable

instance (cfg : SpiffsConfig) (s : SpiffsCache) (op : UInt8) (addr : ℕ) :
    Decidable (s.Served cfg op addr) := inferInstanceAs (Decidable (_ ∨ ite _ _ _))

/-- **A read finds what the flash holds**, and leaves the copies as they should be. -/
theorem Coherent.exists_physRd (hhal : hal.Sound) (h : Coherent cfg s)
    (hin : cfg.InPage addr len) (hok : s.Served cfg op addr) :
    ∃ t, physRd hal cfg s op addr len = some ((spiffsOk, s.flash.slice addr len), t) ∧
      Coherent cfg t ∧ t.flash = s.flash ∧ t.maxEraseCount = s.maxEraseCount := by
  unfold physRd
  dsimp only
  rcases pageGet_cases s (cfg.paddrToPage addr) with ⟨hget, hno⟩ | ⟨ix, cp, hcp, hcopyOf, hget⟩
  · have hok' := hok.resolve_left fun ⟨cp, hcp, hcopyOf⟩ => by
      obtain ⟨i, hi⟩ := List.getElem?_of_mem hcp
      rw [hno i cp hi] at hcopyOf
      cases hcopyOf
    rw [hget]
    dsimp only
    by_cases hlu2 : opType op = opTObjLu2
    · have hfits := cfg.fits
      have hupper := hin.upper
      rw [if_pos hlu2] at hok'
      rw [if_pos hlu2, hhal.read _ _ _ hok' (by omega)]
      exact ⟨_, rfl, h.tick, rfl, rfl⟩
    · rw [if_neg hlu2] at hok'
      rw [if_neg hlu2]
      obtain ⟨t, hremove, ht, hflash, -, herase, hnot, hfree⟩ := h.tick.exists_removed hal
      obtain ⟨cp, hcpmem, hunused⟩ := hfree hok'
      rw [hremove]
      dsimp only
      rcases pageAllocate_cases t with ⟨-, hall⟩ | ⟨ix, cq, hcq, -, hallocate⟩
      · obtain ⟨i, hi⟩ := List.getElem?_of_mem hcpmem
        rw [hall i cp hi] at hunused
        cases hunused
      · rw [hallocate]
        obtain ⟨f, hf, hmake⟩ := makeCopy_eq hhal hin t ix t.lastAccess
        dsimp only
        rw [hmake]
        have hout := copyOut_eq hin (getElem?_modify_self hcq f) (hf cq).2.2
        rw [hout]
        refine ⟨_, congrArg some (congrArg (·, _) (congrArg (spiffsOk, ·) ?_)),
          ?_, hflash, herase⟩
        · exact congrArg (ByteMem.slice · addr len) hflash
        · refine ht.modify fun cp' _ => ⟨?_, fun _ => ⟨(hf cp').1, fun _ => ?_,
            fun j cr _ hcr hcopy heq => ?_⟩⟩
          · rw [(hf cp').2.2]
            exact ByteMem.length_slice _ _ _
          · rw [(hf cp').2.1]
            exact (hf cp').2.2
          · rw [(hf cp').2.1] at heq
            have hnone := hnot (cfg.paddrToPage addr) hno j cr hcr
            rw [isCopyOf_iff.mpr ⟨hcopy, heq⟩] at hnone
            cases hnone
  · obtain ⟨hcopy, hpix⟩ := isCopyOf_iff.mp hcopyOf
    rw [hget]
    dsimp only
    have hnew := getElem?_modify_self (s := s.tick) hcp
      (CachePage.touch s.tick.lastAccess ∘ CachePage.touch s.lastAccess)
    have hout := copyOut_eq (s := s.tick.modify ix _) hin hnew
      ((h.copy ix cp hcp hcopy id).trans (by rw [hpix]; rfl))
    rw [tick_modify, modify_modify, show (s.tick.modify ix _).lastAccess =
      s.tick.lastAccess from rfl, hout]
    exact ⟨_, rfl, h.tick.touch_touch ix _ _, rfl, rfl⟩

/-- **A read that finds no copy goes through a null pointer** if there is no page to make one
in. -/
theorem physRd_eq_none (hlu2 : opType op ≠ opTObjLu2)
    (hno : ∀ cp ∈ s.pages, cp.isCopyOf (cfg.paddrToPage addr) = false)
    (hfull : ¬ s.tick.Evictable) : physRd hal cfg s op addr len = none := by
  have hget : pageGet s (cfg.paddrToPage addr) = (none, s) := by
    rcases pageGet_cases s (cfg.paddrToPage addr) with ⟨hget, -⟩ | ⟨ix, cp, hcp, hcopyOf, -⟩
    · exact hget
    · rw [hno cp (List.mem_of_getElem? hcp)] at hcopyOf
      cases hcopyOf
  have hremove : pageRemoveOldest hal cfg s.tick flagTypeWr 0 = (spiffsOk, s.tick) := by
    rcases pageRemoveOldest_cases hal cfg s.tick with ⟨hnone, -⟩ | ⟨-, -, -, -, hevictable, -⟩
    · exact hnone
    · exact absurd hevictable hfull
  have hallocate : pageAllocate s.tick = (none, s.tick) := by
    rcases pageAllocate_cases s.tick with ⟨hnone, -⟩ | ⟨ix, cp, hcp, hunused, -⟩
    · exact hnone
    · exact absurd ⟨cp, List.mem_of_getElem? hcp, Or.inl hunused⟩ hfull
  unfold physRd
  rw [hget]
  dsimp only
  rw [if_neg hlu2, hremove]
  dsimp only
  rw [hallocate]

/-! ## Writes -/

theorem CoherentBut.mono (h : CoherentBut cfg stale s) {stale' : ℕ → Prop}
    (hstale : ∀ pix, stale pix → stale' pix) : CoherentBut cfg stale' s :=
  ⟨h.room, h.flags, fun i cp hcp hcopy hnot => h.copy i cp hcp hcopy fun hs =>
    hnot (hstale _ hs), h.apart⟩

/-- What is written to a page changes the copies of no other one. -/
theorem CoherentBut.combineAt (h : CoherentBut cfg stale s) (hin : cfg.InPage addr src.length)
    (hstale : stale (cfg.paddrToPage addr)) :
    CoherentBut cfg stale { s with flash := s.flash.combineAt (· &&& ·) addr src } :=
  h.flash fun i cp hcp hcopy hnot => by
    have hne : cp.pix ≠ cfg.paddrToPage addr := fun heq => hnot (heq ▸ hstale)
    exact ByteMem.slice_combineAt_of_apart _ _ (hin.apart hne)

/-- **The copies of a page are right again**, or there are none. -/
theorem CoherentBut.heal (h : CoherentBut cfg stale s)
    (hcopies : ∀ (i : ℕ) (cp : CachePage), s.pages[i]? = some cp → cp.isCopy = true →
      stale cp.pix → cp.mem = s.flash.slice (cfg.pageToPaddr cp.pix) cfg.logPageSize) :
    Coherent cfg s :=
  ⟨h.room, h.flags, fun i cp hcp hcopy _ => by
    by_cases hstale : stale cp.pix
    · exact hcopies i cp hcp hcopy hstale
    · exact h.copy i cp hcp hcopy hstale, h.apart⟩

/-- `SPIFFS_HAL_WRITE` clears bits. -/
theorem halWrite_eq (hhal : hal.Sound) (hin : cfg.InPage addr src.length) (s : SpiffsCache) :
    halWrite hal s addr src =
      (spiffsOk, { s with flash := s.flash.combineAt (· &&& ·) addr src }) := by
  have hinside := hin.inside
  have hupper := hin.upper
  have hpage := cfg.page_le
  have hfits := cfg.fits
  rw [halWrite, hhal.write _ _ _ (by omega) (by omega)]
  rfl

/-- **A write leaves the copies right**: there is none, or it goes away with the page; or bits
are only cleared, or, past the cache, none is changed. -/
def Harmless (cfg : SpiffsConfig) (s : SpiffsCache) (op : UInt8) (addr : ℕ) (src : List UInt8) :
    Prop :=
  (∀ cp ∈ s.pages, cp.isCopyOf (cfg.paddrToPage addr) = false) ∨
  if opCom op = opCWrthru then
    ∀ i : Fin src.length, s.flash (addr + i) &&& src[i] = s.flash (addr + i)
  else (opCom op = opCDele ∧ opType op ≠ opTObjLu) ∨
    ∀ i : Fin src.length, s.flash (addr + i) &&& src[i] = src[i]

instance (cfg : SpiffsConfig) (s : SpiffsCache) (op : UInt8) (addr : ℕ) (src : List UInt8) :
    Decidable (s.Harmless cfg op addr src) := inferInstanceAs (Decidable (_ ∨ ite _ _ _))

/-- What changes no bit changes nothing. -/
theorem combineAt_eq_self {f : ByteMem}
    (h : ∀ i : Fin src.length, f (addr + i) &&& src[i] = f (addr + i)) :
    f.combineAt (· &&& ·) addr src = f := by
  funext j
  by_cases hin : addr ≤ j ∧ j < addr + src.length
  · obtain ⟨i, rfl⟩ := Nat.exists_eq_add_of_le hin.1
    have hi : i < src.length := by omega
    rw [ByteMem.combineAt_of_mem _ _ _ _ _ hi]
    exact h ⟨i, hi⟩
  · exact ByteMem.combineAt_of_not_mem _ _ _ _ _ (by omega)

/-- **A write that passes the cache by** may leave the copies of its page stale. -/
theorem CoherentBut.exists_physWr_wrthru (hhal : hal.Sound) (h : CoherentBut cfg stale s)
    (hin : cfg.InPage addr src.length) (hcom : opCom op = opCWrthru)
    (hstale : stale (cfg.paddrToPage addr)) :
    ∃ t, physWr hal cfg s op addr src = some (spiffsOk, t) ∧ CoherentBut cfg stale t ∧
      t.flash = s.flash.combineAt (· &&& ·) addr src ∧ t.maxEraseCount = s.maxEraseCount := by
  unfold physWr
  rcases pageGet_cases s (cfg.paddrToPage addr) with ⟨hget, -⟩ | ⟨ix, cp, -, -, hget⟩
  · rw [hget]
    dsimp only
    rw [halWrite_eq hhal hin]
    exact ⟨_, rfl, h.combineAt hin hstale, rfl, rfl⟩
  · rw [hget]
    dsimp only
    rw [if_pos hcom, halWrite_eq hhal hin]
    exact ⟨_, rfl, (h.touch ix _).combineAt hin hstale, rfl, rfl⟩

/-- There is one copy of a page at most. -/
theorem CoherentBut.eq_of_isCopyOf (h : CoherentBut cfg stale s) (hcp : s.pages[i]? = some cp)
    (hcq : s.pages[j]? = some cq) (hi : cp.isCopyOf pix = true) (hj : cq.isCopyOf pix = true) :
    i = j := by
  obtain ⟨hcopy, hpix⟩ := isCopyOf_iff.mp hi
  obtain ⟨hcopy', hpix'⟩ := isCopyOf_iff.mp hj
  exact h.apart i j cp cq hcp hcq hcopy hcopy' (hpix.trans hpix'.symm)

/-- A page of the flash is written, and the pool has no copy of it, or none any more. -/
theorem CoherentBut.heal_of_none (h : CoherentBut cfg (· = pix) s)
    (hno : ∀ (i : ℕ) (cp : CachePage), s.pages[i]? = some cp → cp.isCopyOf pix = false) :
    Coherent cfg s :=
  h.heal fun i cp hcp hcopy hpix => by
    have hnot := hno i cp hcp
    rw [isCopyOf_iff.mpr ⟨hcopy, hpix⟩] at hnot
    cases hnot

/-- The copy of a page goes away. -/
theorem CoherentBut.heal_free (h : CoherentBut cfg (· = pix) s) (hcp : s.pages[ix]? = some cp)
    (hcopyOf : cp.isCopyOf pix = true) : Coherent cfg (s.modify ix CachePage.free) := by
  refine (h.free ix).heal_of_none fun i cq hcq => ?_
  rw [getElem?_modify] at hcq
  split at hcq
  · obtain ⟨cq', -, rfl⟩ := Option.map_eq_some_iff.mp hcq
    rfl
  · rename_i hne
    by_contra hcopyOf'
    exact hne (h.eq_of_isCopyOf hcq hcp (by simpa using hcopyOf') hcopyOf)

/-- The copy of a page is written as the page was. -/
theorem CoherentBut.heal_modify (h : CoherentBut cfg (· = pix) s) (hcp : s.pages[ix]? = some cp)
    (hcopyOf : cp.isCopyOf pix = true) {lastAccess : UInt32} {mem : List UInt8}
    (hmem : mem = s.flash.slice (cfg.pageToPaddr pix) cfg.logPageSize) :
    Coherent cfg (s.modify ix fun cp => { cp.touch lastAccess with mem := mem }) := by
  obtain ⟨hcopy, hpix⟩ := isCopyOf_iff.mp hcopyOf
  have hbut : CoherentBut cfg (· = pix)
      (s.modify ix fun cp => { cp.touch lastAccess with mem := mem }) :=
    h.modify fun cq hcq => by
      obtain rfl : cp = cq := Option.some.inj (hcp.symm.trans hcq)
      refine ⟨hmem ▸ ByteMem.length_slice _ _ _, fun _ => ⟨h.flags ix cp hcp hcopy,
        fun hnot => absurd hpix hnot, fun j cr hj hcr hcopy' heq => hj ?_⟩⟩
      exact h.apart j ix cr cp hcr hcp hcopy' hcopy heq
  refine hbut.heal fun i cq hcq hcopy' hpix' => ?_
  have hself := getElem?_modify_self hcp fun cp => { cp.touch lastAccess with mem := mem }
  obtain rfl : i = ix := hbut.apart i ix cq _ hcq hself hcopy' hcopy (hpix'.trans hpix.symm)
  obtain rfl := Option.some.inj (hself.symm.trans hcq)
  exact hmem.trans
    (congrArg (fun p => s.flash.slice (cfg.pageToPaddr p) cfg.logPageSize) hpix.symm)

/-- **A write changes the flash**, and leaves the copies as they should be. -/
theorem Coherent.exists_physWr (hhal : hal.Sound) (h : Coherent cfg s)
    (hin : cfg.InPage addr src.length) (hok : s.Harmless cfg op addr src) :
    ∃ t, physWr hal cfg s op addr src = some (spiffsOk, t) ∧ Coherent cfg t ∧
      t.flash = s.flash.combineAt (· &&& ·) addr src ∧ t.maxEraseCount = s.maxEraseCount := by
  have hbut : CoherentBut cfg (· = cfg.paddrToPage addr) s := h.mono fun _ hfalse => hfalse.elim
  unfold physWr
  rcases pageGet_cases s (cfg.paddrToPage addr) with ⟨hget, hno⟩ | ⟨ix, cp, hcp, hcopyOf, hget⟩
  · rw [hget]
    dsimp only
    rw [halWrite_eq hhal hin]
    exact ⟨_, rfl, (hbut.combineAt hin rfl).heal_of_none hno, rfl, rfl⟩
  · obtain ⟨hcopy, hpix⟩ := isCopyOf_iff.mp hcopyOf
    have hok' := hok.resolve_left fun hno => by
      rw [hno cp (List.mem_of_getElem? hcp)] at hcopyOf
      cases hcopyOf
    have htouched := getElem?_modify_self hcp (CachePage.touch s.lastAccess)
    have hgot : (cp.touch s.lastAccess).isCopyOf (cfg.paddrToPage addr) = true := hcopyOf
    rw [hget]
    dsimp only
    by_cases hthru : opCom op = opCWrthru
    · -- The cache is passed by, and no bit changes.
      rw [if_pos hthru] at hok' ⊢
      rw [halWrite_eq hhal hin, flash_modify, combineAt_eq_self hok']
      exact ⟨_, rfl, h.touch ix _, rfl, rfl⟩
    rw [if_neg hthru] at hok' ⊢
    by_cases hdele : opCom op = opCDele ∧ opType op ≠ opTObjLu
    · -- The copy goes away with the page.
      rw [if_pos hdele, (hbut.touch ix _).pageFree_eq htouched hcopy, halWrite_eq hhal hin]
      exact ⟨_, rfl, ((hbut.touch ix _).combineAt hin rfl).heal_free htouched hgot, rfl, rfl⟩
    · -- Bits are cleared in the flash, and in the copy.
      have hclear := hok'.resolve_left hdele
      have hwrite : Block.write (cp.touch s.lastAccess).mem (cfg.paddrToPageOffset addr) src =
          some ((s.flash.combineAt (· &&& ·) addr src).slice
            (cfg.pageToPaddr (cfg.paddrToPage addr)) cfg.logPageSize) := by
        have hslice := ByteMem.slice_combineAt_of_clears s.flash (d := src)
          (p := cfg.pageToPaddr (cfg.paddrToPage addr)) hin.inside (fun i hi => by
            rw [hin.pageToPaddr_add]
            exact hclear ⟨i, hi⟩)
        rw [hin.pageToPaddr_add] at hslice
        rw [← hslice, ← hpix]
        exact congrArg (Block.write · _ _) (h.copy ix cp hcp hcopy id)
      have hflags : (cp.touch s.lastAccess).flags &&& flagWrthru ≠ 0 := by
        show cp.flags &&& flagWrthru ≠ 0
        rw [h.flags ix cp hcp hcopy]
        decide
      rw [if_neg hdele, htouched, Option.bind_eq_bind, Option.bind_some, hwrite,
        Option.bind_eq_bind, Option.bind_some, if_pos hflags, halWrite_eq hhal hin]
      exact ⟨_, rfl, ((hbut.touch ix _).tick.combineAt hin rfl).heal_modify htouched hgot rfl,
        rfl, rfl⟩

/-! ## Blocks -/

variable {bix : ℕ}

/-- **The copy of a page is dropped**, so it is not stale any more. -/
theorem CoherentBut.dropPage (h : CoherentBut cfg stale s) (hal : SpiffsFlash) (pix : ℕ) :
    CoherentBut cfg (fun p => stale p ∧ p ≠ pix) (dropPage hal cfg s pix) ∧
      (SpiffsCache.dropPage hal cfg s pix).flash = s.flash ∧
      (SpiffsCache.dropPage hal cfg s pix).maxEraseCount = s.maxEraseCount := by
  unfold SpiffsCache.dropPage
  rcases pageGet_cases s pix with ⟨hget, hno⟩ | ⟨ix, cp, hcp, hcopyOf, hget⟩
  · rw [hget]
    refine ⟨⟨h.room, h.flags, fun i cq hcq hcopy hnot => h.copy i cq hcq hcopy fun hstale =>
      hnot ⟨hstale, fun hpix => ?_⟩, h.apart⟩, rfl, rfl⟩
    have hnone := hno i cq hcq
    rw [isCopyOf_iff.mpr ⟨hcopy, hpix⟩] at hnone
    cases hnone
  · rw [hget]
    dsimp only
    have htouch := h.touch ix s.lastAccess
    have htouched := getElem?_modify_self hcp (CachePage.touch s.lastAccess)
    rw [htouch.pageFree_eq htouched (isCopyOf_iff.mp hcopyOf).1]
    have hfree := htouch.free ix
    refine ⟨⟨hfree.room, hfree.flags, fun i cq hcq hcopy hnot =>
      hfree.copy i cq hcq hcopy fun hstale => hnot ⟨hstale, fun hpix => ?_⟩,
        hfree.apart⟩, rfl, rfl⟩
    -- There was one copy of the page, and it is free now.
    rw [getElem?_modify] at hcq
    split at hcq
    · obtain ⟨cp', -, rfl⟩ := Option.map_eq_some_iff.mp hcq
      cases hcopy
    · rename_i hne
      have hcopyOf' : (cp.touch s.lastAccess).isCopyOf pix = true := hcopyOf
      exact hne (htouch.eq_of_isCopyOf hcq htouched (isCopyOf_iff.mpr ⟨hcopy, hpix⟩) hcopyOf')

/-- The copies of a list of pages are dropped. -/
theorem CoherentBut.foldl_dropPage (h : CoherentBut cfg stale s) (hal : SpiffsFlash) (f : ℕ → ℕ)
    (l : List ℕ) :
    CoherentBut cfg (fun p => stale p ∧ ∀ i ∈ l, p ≠ f i)
        (l.foldl (fun s i => SpiffsCache.dropPage hal cfg s (f i)) s) ∧
      (l.foldl (fun s i => SpiffsCache.dropPage hal cfg s (f i)) s).flash = s.flash ∧
      (l.foldl (fun s i => SpiffsCache.dropPage hal cfg s (f i)) s).maxEraseCount =
        s.maxEraseCount := by
  induction l generalizing s stale with
  | nil => exact ⟨h.mono fun _ hstale => ⟨hstale, by simp⟩, rfl, rfl⟩
  | cons i l ih =>
    obtain ⟨hdrop, hflash, herase⟩ := h.dropPage hal (f i)
    obtain ⟨hall, hflash', herase'⟩ := ih hdrop
    refine ⟨hall.mono fun p hp => ⟨hp.1.1, ?_⟩, hflash'.trans hflash, herase'.trans herase⟩
    exact List.forall_mem_cons.mpr ⟨hp.1.2, hp.2⟩

/-- **The loop of `spiffs_erase_block`** erases what it is given. -/
theorem eraseFrom_eq (hhal : hal.Sound) (cfg : SpiffsConfig) (n : ℕ)
    (flash : ByteMem) {addr : ℕ}
    (haddr : spiFlashSecSize ∣ addr) :
    eraseFrom hal cfg flash addr (n * cfg.physEraseBlock) =
      some (flash.erased addr (n * cfg.physEraseBlock)) := by
  have hpos := cfg.erase_pos
  induction n generalizing flash addr with
  | zero =>
    unfold eraseFrom
    rw [if_neg (by omega), Nat.zero_mul, ByteMem.erased_zero]
  | succ n ih =>
    have hmore : (n + 1) * cfg.physEraseBlock =
        cfg.physEraseBlock + n * cfg.physEraseBlock := by
      rw [Nat.succ_mul, Nat.add_comm]
    unfold eraseFrom
    rw [hmore, if_pos (by omega), hhal.erase _ _ _ haddr cfg.sector_dvd_erase,
      Option.bind_eq_bind, Option.bind_some, Nat.add_sub_cancel_left]
    dsimp only
    rw [ih _ (Nat.dvd_add haddr cfg.sector_dvd_erase), ByteMem.erased_erased]

/-- **What the flash holds after a block was erased**: its erase count and the magic, and
nothing else in the block. -/
def bareErase (cfg : SpiffsConfig) (flash : ByteMem) (maxEraseCount : UInt16) (bix : ℕ) :
    ByteMem :=
  ((flash.erased (cfg.blockToPaddr bix) cfg.logBlockSize).combineAt (· &&& ·)
      (cfg.eraseCountPaddr bix) (bytes16 maxEraseCount)).combineAt (· &&& ·)
    (cfg.magicPaddr bix) (bytes16 cfg.magic)

/-- The next erase count. -/
def nextEraseCount (maxEraseCount : UInt16) : UInt16 :=
  if maxEraseCount + 1 = objIdIxFlag then 0 else maxEraseCount + 1

/-- What is erased is not copied, but in the pages of the block. -/
theorem CoherentBut.erased (h : CoherentBut cfg stale s)
    (hstale : ∀ p, cfg.InBlock bix p → stale p)
    (freeBlocks : ℕ) :
    CoherentBut cfg stale { s with
      flash := s.flash.erased (cfg.blockToPaddr bix) cfg.logBlockSize
      freeBlocks := freeBlocks } := by
  refine ⟨h.room, h.flags, fun i cp hcp hcopy hnot => (h.copy i cp hcp hcopy hnot).trans ?_,
    h.apart⟩
  have hapart := SpiffsConfig.apart_of_not_inBlock fun hin => hnot (hstale _ hin)
  refine List.map_congr_left fun k hk => ?_
  have hlt := List.mem_range.mp hk
  exact (if_neg (by omega)).symm

/-- **`spiffs_erase_block`**, of a pool that may be wrong about the block. -/
theorem CoherentBut.exists_eraseBlock (hhal : hal.Sound) (h : CoherentBut cfg stale s)
    (hstale : ∀ p, cfg.InBlock bix p → stale p) (hblock : cfg.HasBlock bix) :
    ∃ t, eraseBlock hal cfg s bix = some (spiffsOk, t) ∧ CoherentBut cfg stale t ∧
      t.flash = bareErase cfg s.flash s.maxEraseCount bix ∧
      t.maxEraseCount = nextEraseCount s.maxEraseCount := by
  have haddr : spiFlashSecSize ∣ cfg.blockToPaddr bix :=
    Nat.dvd_add cfg.sector_dvd_addr
      (Dvd.dvd.mul_left (cfg.sector_dvd_erase.trans cfg.erase_dvd_block) _)
  have hfrom : eraseFrom hal cfg s.flash (cfg.blockToPaddr bix) cfg.logBlockSize =
      some (s.flash.erased (cfg.blockToPaddr bix) cfg.logBlockSize) := by
    have hmul := Nat.div_mul_cancel cfg.erase_dvd_block
    have heq := eraseFrom_eq hhal cfg (cfg.logBlockSize / cfg.physEraseBlock) s.flash haddr
    rwa [hmul] at heq
  have hcom : opCom (opCWrthru ||| opTObjLu2) = opCWrthru := by decide
  -- The erase count and the magic are written past the cache, in a page of the block.
  obtain ⟨hin, hinBlock⟩ :
      cfg.InPage (cfg.eraseCountPaddr bix) (bytes16 s.maxEraseCount).length ∧
      cfg.InBlock bix (cfg.paddrToPage (cfg.eraseCountPaddr bix)) :=
    hblock.entry (by omega) (le_refl 2) (by omega)
  obtain ⟨hin', hinBlock'⟩ : cfg.InPage (cfg.magicPaddr bix) (bytes16 cfg.magic).length ∧
      cfg.InBlock bix (cfg.paddrToPage (cfg.magicPaddr bix)) :=
    hblock.entry (le_refl 4) (show 2 ≤ 4 by omega) (by omega)
  obtain ⟨t, ht, hcoherent, hflash, herase⟩ :=
    (h.erased hstale (s.freeBlocks + 1)).exists_physWr_wrthru hhal hin hcom (hstale _ hinBlock)
  obtain ⟨u, hu, hcoherent', hflash', herase'⟩ :=
    hcoherent.exists_physWr_wrthru hhal hin' hcom (hstale _ hinBlock')
  have hnot : ¬ spiffsOk < spiffsOk := lt_irrefl _
  unfold eraseBlock
  rw [hfrom, Option.bind_eq_bind, Option.bind_some]
  dsimp only
  rw [ht, Option.bind_eq_bind, Option.bind_some]
  dsimp only
  rw [if_neg hnot, hu, Option.bind_some]
  dsimp only
  rw [if_neg hnot, herase', herase]
  refine ⟨_, rfl, ⟨hcoherent'.room, hcoherent'.flags, hcoherent'.copy, hcoherent'.apart⟩,
    ?_, rfl⟩
  exact hflash'.trans (congrArg (ByteMem.combineAt (· &&& ·) · _ _) hflash)

/-- **`spiffs_gc_erase_block`**: it erases the block, and the copies are right again. -/
theorem Coherent.exists_gcEraseBlock (hhal : hal.Sound) (h : Coherent cfg s)
    (hblock : cfg.HasBlock bix) :
    ∃ t, gcEraseBlock hal cfg s bix = some (spiffsOk, t) ∧ Coherent cfg t ∧
      t.flash = bareErase cfg s.flash s.maxEraseCount bix ∧
      t.maxEraseCount = nextEraseCount s.maxEraseCount := by
  have hbut : CoherentBut cfg (cfg.InBlock bix) s := h.mono fun _ hfalse => hfalse.elim
  obtain ⟨t, ht, hcoherent, hflash, herase⟩ :=
    hbut.exists_eraseBlock hhal (fun _ hin => hin) hblock
  obtain ⟨hdropped, hflash', herase'⟩ := hcoherent.foldl_dropPage hal
    (fun i => (bix * cfg.pagesPerBlock + i) % 2 ^ 16) (List.range cfg.pagesPerBlock)
  unfold gcEraseBlock
  rw [ht, Option.bind_eq_bind, Option.bind_some]
  dsimp only
  rw [if_neg (lt_irrefl _)]
  refine ⟨_, rfl, hdropped.mono fun p ⟨hin, hnot⟩ => ?_, hflash'.trans hflash,
    herase'.trans herase⟩
  -- A page of the block was dropped under its index.
  obtain ⟨k, rfl⟩ := Nat.exists_eq_add_of_le hin.1
  have hk : k < cfg.pagesPerBlock := by
    have hupper := hin.2
    rw [Nat.succ_mul] at hupper
    omega
  exact hnot k (List.mem_range.mpr hk) (Nat.mod_eq_of_lt (hblock.lt hin).1).symm

end SpiffsCache
