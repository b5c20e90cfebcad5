import Esp31b.SpiffsCoherence
import Esp31b.Transducer

/-!
# Runs of the page cache

The cache as a component: what the rest of SPIFFS calls, from the mount on. Where the writes
clear bits and the reads find room, every run answers as the flash alone would
(`SpiffsCache.run_transparent`), over the functions of this system, which are not right for
every address. And nothing but its owner takes a page that keeps data of a file
(`SpiffsCache.run_keeps`), whatever is called in between.

What there may not be is a pool of such pages alone: a read that finds no page to make its copy
in goes through a null pointer, and the system stops (`SpiffsCache.run_eq_none_of_full`).
-/

namespace SpiffsCache

variable {hal : SpiffsFlash} {cfg : SpiffsConfig} {s t u : SpiffsCache} {cp cq : CachePage}
variable {i j ix pix addr len bix : ℕ} {op : UInt8} {src : List UInt8} {stale : ℕ → Prop}

/-! ## Runs -/

/-- What is called, from the rest of SPIFFS. -/
inductive Call where
  | physRd (op : UInt8) (addr len : ℕ)
  | physWr (op : UInt8) (addr : ℕ) (src : List UInt8)
  | dropPage (pix : ℕ)
  | pageAllocateByFd (objId : ℕ)
  | fill (ix offset size at' : ℕ) (buf : List UInt8)
  | fdRelease (ix : ℕ)
  | gcEraseBlock (bix : ℕ)
  deriving DecidableEq

/-- **The flash behind the cache.** The answer to a call is its result and what was read. -/
def cached (hal : SpiffsFlash) (cfg : SpiffsConfig) :
    Transducer SpiffsCache Call (ℤ × List UInt8) where
  step s
    | .physRd op addr len => physRd hal cfg s op addr len
    | .physWr op addr src => (physWr hal cfg s op addr src).map fun r => ((r.1, []), r.2)
    | .dropPage pix => some ((spiffsOk, []), dropPage hal cfg s pix)
    | .pageAllocateByFd objId => some ((spiffsOk, []), (pageAllocateByFd hal cfg s objId).2)
    | .fill ix offset size at' buf => (fill s ix offset size at' buf).map ((spiffsOk, []), ·)
    | .fdRelease ix => some ((spiffsOk, []), fdRelease hal cfg s ix)
    | .gcEraseBlock bix => (gcEraseBlock hal cfg s bix).map fun r => ((r.1, []), r.2)

/-- **The flash alone**, and the erase count: what is read is what it holds, a write clears
bits, and a block is erased. -/
def bare (cfg : SpiffsConfig) : Transducer (ByteMem × UInt16) Call (ℤ × List UInt8) where
  step q
    | .physRd _ addr len => some ((spiffsOk, q.1.slice addr len), q)
    | .physWr _ addr src => some ((spiffsOk, []), (q.1.combineAt (· &&& ·) addr src, q.2))
    | .gcEraseBlock bix =>
        some ((spiffsOk, []), (bareErase cfg q.1 q.2 bix, nextEraseCount q.2))
    | _ => some ((spiffsOk, []), q)

/-- **What a call has to meet.** -/
def Admissible (cfg : SpiffsConfig) (s : SpiffsCache) : Call → Prop
  | .physRd op addr len => cfg.InPage addr len ∧ s.Served cfg op addr
  | .physWr op addr src => cfg.InPage addr src.length ∧ s.Harmless cfg op addr src
  | .fill ix _ _ at' buf => ∃ cp ∈ s.pages[ix]?, cp.isWr = true ∧
      at' + buf.length ≤ cfg.logPageSize
  | .gcEraseBlock bix => cfg.HasBlock bix
  | _ => True

instance (cfg : SpiffsConfig) (s : SpiffsCache) : (c : Call) → Decidable (Admissible cfg s c)
  | .physRd .. | .physWr .. => inferInstanceAs (Decidable (_ ∧ _))
  | .fill ix _ _ at' buf =>
    match h : s.pages[ix]? with
    | none => isFalse fun ⟨cp, hcp, _⟩ => by
      rw [h] at hcp
      cases hcp
    | some cp =>
      decidable_of_iff (cp.isWr = true ∧ at' + buf.length ≤ cfg.logPageSize)
        (by simp [Admissible, h])
  | .gcEraseBlock bix => inferInstanceAs (Decidable (cfg.HasBlock bix))
  | .dropPage _ | .pageAllocateByFd _ | .fdRelease _ => inferInstanceAs (Decidable True)

/-- The cache after `spiffs_cache_init`, with so many pages. -/
def init (cfg : SpiffsConfig) (cpageCount : ℕ) (flash : ByteMem) (freeBlocks : ℕ)
    (maxEraseCount : UInt16) : SpiffsCache where
  lastAccess := 0
  pages := List.replicate cpageCount
    { used := false, flags := 0, lastAccess := 0, pix := 0, offset := 0, size := 0
      mem := List.replicate cfg.logPageSize 0 }
  flash := flash
  freeBlocks := freeBlocks
  maxEraseCount := maxEraseCount

/-- A page becomes one that keeps data of a file. -/
theorem CoherentBut.pageAllocateByFd (h : CoherentBut cfg stale s) (hal : SpiffsFlash)
    (objId : ℕ) :
    CoherentBut cfg stale (pageAllocateByFd hal cfg s objId).2 ∧
      (SpiffsCache.pageAllocateByFd hal cfg s objId).2.flash = s.flash ∧
      (SpiffsCache.pageAllocateByFd hal cfg s objId).2.maxEraseCount = s.maxEraseCount := by
  obtain ⟨t, hremove, ht, hflash, -, herase, -, -⟩ := h.exists_removed hal
  unfold SpiffsCache.pageAllocateByFd
  rw [hremove]
  rcases pageAllocate_cases t with ⟨hnone, -⟩ | ⟨ix, cp, -, -, hsome⟩
  · rw [hnone]
    exact ⟨ht, hflash, herase⟩
  · rw [hsome]
    dsimp only
    rw [modify_modify]
    exact ⟨ht.modify_of_not fun cp hcp => ⟨ht.room ix cp hcp, by
      simp [CachePage.isCopy, CachePage.isWr, flagTypeWr]⟩, hflash, herase⟩

/-- **`spiffs_cache_fd_release`** of any page. -/
theorem CoherentBut.fdRelease (h : CoherentBut cfg stale s) (hal : SpiffsFlash) (ix : ℕ) :
    CoherentBut cfg stale (fdRelease hal cfg s ix) ∧
      (SpiffsCache.fdRelease hal cfg s ix).flash = s.flash ∧
      (SpiffsCache.fdRelease hal cfg s ix).maxEraseCount = s.maxEraseCount := by
  unfold SpiffsCache.fdRelease pageFree
  cases hcp : s.pages[ix]? with
  | none =>
    refine ⟨h.modify_of_not fun cp hcp' => ?_, rfl, rfl⟩
    rw [hcp] at hcp'
    cases hcp'
  | some cp =>
    dsimp only
    by_cases hused : cp.used = true
    · rw [if_pos hused, Bool.false_and, Bool.false_and, if_neg (by simp)]
      dsimp only
      rw [modify_modify]
      exact ⟨h.modify_of_not fun cp' hcp' => ⟨h.room ix cp' hcp', rfl⟩, rfl, rfl⟩
    · rw [if_neg hused]
      refine ⟨h.modify_of_not fun cp' hcp' => ⟨h.room ix cp' hcp', ?_⟩, rfl, rfl⟩
      obtain rfl := Option.some.inj (hcp.symm.trans hcp')
      simp [CachePage.isCopy, hused]

/-- Data of a file is kept. -/
theorem CoherentBut.exists_fill (h : CoherentBut cfg stale s) {at' : ℕ} {buf : List UInt8}
    (hcp : s.pages[ix]? = some cp) (hwr : cp.isWr = true)
    (hfits : at' + buf.length ≤ cfg.logPageSize) (offset size : ℕ) :
    ∃ t, fill s ix offset size at' buf = some t ∧ CoherentBut cfg stale t ∧ t.flash = s.flash ∧
      t.maxEraseCount = s.maxEraseCount := by
  have hroom := h.room ix cp hcp
  obtain ⟨mem, hmem⟩ : ∃ mem, Block.write cp.mem at' buf = some mem :=
    ⟨_, Block.write_eq (by rw [hroom]; exact hfits)⟩
  unfold fill
  rw [hcp, Option.bind_eq_bind, Option.bind_some, hmem, Option.bind_eq_bind, Option.bind_some]
  refine ⟨_, rfl, h.modify_of_not fun cp' hcp' => ?_, rfl, rfl⟩
  obtain rfl := Option.some.inj (hcp.symm.trans hcp')
  refine ⟨(Block.length_of_write hmem).trans hroom, ?_⟩
  show (cp.used && !cp.isWr) = false
  rw [hwr, Bool.not_true, Bool.and_false]

/-- **One call**: the cache answers as the flash alone. -/
theorem Coherent.exists_step (hhal : hal.Sound) (h : Coherent cfg s) {c : Call}
    (hc : Admissible cfg s c) :
    ∃ o t, (cached hal cfg).step s c = some (o, t) ∧
      (bare cfg).step (s.flash, s.maxEraseCount) c = some (o, (t.flash, t.maxEraseCount)) ∧
      Coherent cfg t := by
  cases c with
  | physRd op addr len =>
    obtain ⟨t, ht, hcoherent, hflash, herase⟩ := h.exists_physRd hhal hc.1 hc.2
    refine ⟨_, t, ht, ?_, hcoherent⟩
    rw [hflash, herase]
    rfl
  | physWr op addr src =>
    obtain ⟨t, ht, hcoherent, hflash, herase⟩ := h.exists_physWr hhal hc.1 hc.2
    refine ⟨(spiffsOk, []), t, congrArg (Option.map _) ht, ?_, hcoherent⟩
    rw [hflash, herase]
    rfl
  | dropPage pix =>
    obtain ⟨hcoherent, hflash, herase⟩ := h.dropPage hal pix
    refine ⟨(spiffsOk, []), _, rfl, ?_, hcoherent.mono fun _ hstale => hstale.1⟩
    rw [hflash, herase]
    rfl
  | pageAllocateByFd objId =>
    obtain ⟨hcoherent, hflash, herase⟩ := h.pageAllocateByFd hal objId
    refine ⟨(spiffsOk, []), _, rfl, ?_, hcoherent⟩
    rw [hflash, herase]
    rfl
  | fill ix offset size at' buf =>
    obtain ⟨cp, hcp, hwr, hfits⟩ := hc
    obtain ⟨t, ht, hcoherent, hflash, herase⟩ := h.exists_fill hcp hwr hfits offset size
    refine ⟨(spiffsOk, []), t, congrArg (Option.map _) ht, ?_, hcoherent⟩
    rw [hflash, herase]
    rfl
  | fdRelease ix =>
    obtain ⟨hcoherent, hflash, herase⟩ := h.fdRelease hal ix
    refine ⟨(spiffsOk, []), _, rfl, ?_, hcoherent⟩
    rw [hflash, herase]
    rfl
  | gcEraseBlock bix =>
    obtain ⟨t, ht, hcoherent, hflash, herase⟩ := h.exists_gcEraseBlock hhal hc
    refine ⟨(spiffsOk, []), t, congrArg (Option.map _) ht, ?_, hcoherent⟩
    rw [hflash, herase]
    rfl

/-- A free page is no copy. -/
theorem coherent_init (cfg : SpiffsConfig) (cpageCount : ℕ) (flash : ByteMem) (freeBlocks : ℕ)
    (maxEraseCount : UInt16) :
    Coherent cfg (init cfg cpageCount flash freeBlocks maxEraseCount) := by
  have hpage : ∀ (i : ℕ) (cp : CachePage),
      (init cfg cpageCount flash freeBlocks maxEraseCount).pages[i]? = some cp →
      cp.mem.length = cfg.logPageSize ∧ cp.isCopy = false := by
    intro i cp hcp
    obtain ⟨-, rfl⟩ := List.mem_replicate.mp (List.mem_of_getElem? hcp)
    exact ⟨List.length_replicate, rfl⟩
  have hnot : ∀ {i : ℕ} {cp : CachePage} {p : Prop},
      (init cfg cpageCount flash freeBlocks maxEraseCount).pages[i]? = some cp →
      cp.isCopy = true → p := by
    intro i cp p hcp hcopy
    rw [(hpage i cp hcp).2] at hcopy
    cases hcopy
  exact ⟨fun i cp hcp => (hpage i cp hcp).1, fun i cp hcp hcopy => hnot hcp hcopy,
    fun i cp hcp hcopy _ => hnot hcp hcopy, fun i j cp cq hcp _ hcopy _ _ => hnot hcp hcopy⟩

/-- **The cache cannot be told from the flash.** From the mount on, over the functions of this
system, every run of calls that meet their conditions has the answers and leaves the flash of
the same calls without a cache. -/
theorem run_transparent {sdkRead : SpiFlashRead} {sdkWrite : SpiFlashWrite}
    {sdkErase : SpiFlashEraseSector} (hread : sdkRead.Copies) (hwrite : sdkWrite.Clears)
    (herase : sdkErase.Erases) (readers writers : SpiffsCallers) (cfg : SpiffsConfig)
    (cpageCount : ℕ) (flash : ByteMem) (freeBlocks : ℕ) (maxEraseCount : UInt16)
    (calls : List Call)
    (hcalls : (cached (spiffsHal sdkRead sdkWrite sdkErase readers writers) cfg).Along
      (Admissible cfg) (init cfg cpageCount flash freeBlocks maxEraseCount) calls) :
    ∃ answers t, (cached (spiffsHal sdkRead sdkWrite sdkErase readers writers) cfg).run
        (init cfg cpageCount flash freeBlocks maxEraseCount) calls = some (answers, t) ∧
      (bare cfg).run (flash, maxEraseCount) calls =
        some (answers, (t.flash, t.maxEraseCount)) := by
  have hhal := sound_spiffsHal hread hwrite herase readers writers
  obtain ⟨answers, t, q, hrun, hbare, -, rfl⟩ := Transducer.run_refines
    (R := fun s q => Coherent cfg s ∧ q = (s.flash, s.maxEraseCount)) (fun s q c hR hc => by
      obtain ⟨hcoherent, rfl⟩ := hR
      obtain ⟨o, t, ht, hbare, hcoherent'⟩ := hcoherent.exists_step hhal hc
      exact ⟨o, t, _, ht, hbare, hcoherent', rfl⟩)
    ⟨coherent_init cfg cpageCount flash freeBlocks maxEraseCount, rfl⟩ hcalls
  exact ⟨answers, t, hrun, hbare⟩

/-! ## Pages with data of files -/

/-- A pool over an erased flash. -/
def smallPool (cpageCount : ℕ) : SpiffsCache := init .small cpageCount (fun _ => 0xFF) 0 1

/-- A page is read, written, and read again from its copy; then another one. -/
theorem run_transparent_rewrite :
    ∃ answers t, (cached documentedHal .small).run (smallPool 2)
          [.physRd 23 512 4, .physWr 7 513 [0x12, 0x34], .physRd 23 513 2, .physRd 23 1024 1] =
        some (answers, t) ∧
      (bare .small).run (fun _ => 0xFF, 1)
          [.physRd 23 512 4, .physWr 7 513 [0x12, 0x34], .physRd 23 513 2, .physRd 23 1024 1] =
        some (answers, (t.flash, t.maxEraseCount)) :=
  run_transparent SpiffsHal.copies_copyingFlash SpiffsHal.clears_clearingFlash
    erases_erasingFlash
    (callersAt 100) (callersAt 200) _ _ _ _ _ _ (by decide)

end SpiffsCache

namespace CachePage

/-- The page has data of a file. -/
def isData (cp : CachePage) : Bool := cp.used && cp.isWr

theorem isData_eq_false {cp : CachePage} (h : cp.isCopy = true ∨ cp.used = false) :
    cp.isData = false := by
  rcases h with hcopy | hunused
  · rw [isData, (SpiffsCache.isCopy_iff.mp hcopy).2, Bool.and_false]
  · rw [isData, hunused, Bool.false_and]

end CachePage

namespace SpiffsCache

/-- **Pages that have data of files are as they were**, among the given ones. -/
def Keeps (p : ℕ → Prop) (s t : SpiffsCache) : Prop :=
  t.pages.length = s.pages.length ∧ ∀ (i : ℕ) (cp : CachePage), p i → s.pages[i]? = some cp →
    cp.isData = true → t.pages[i]? = some cp

variable {p : ℕ → Prop}

theorem Keeps.refl (p : ℕ → Prop) (s : SpiffsCache) : Keeps p s s := ⟨rfl, fun _ _ _ h _ => h⟩

theorem Keeps.trans (h : Keeps p s t) (h' : Keeps p t u) : Keeps p s u :=
  ⟨h'.1.trans h.1, fun i cp hi hcp hdata => h'.2 i cp hi (h.2 i cp hi hcp hdata) hdata⟩

/-- Another page is changed, or one that has no data. -/
theorem keeps_modify (hnot : p ix → ∀ cp, s.pages[ix]? = some cp → cp.isData = false)
    (f : CachePage → CachePage) : Keeps p s (s.modify ix f) := by
  refine ⟨List.length_modify _ _ _, fun i cp hi hcp hdata => ?_⟩
  rw [getElem?_modify]
  split
  · rename_i hix
    subst hix
    rw [hnot hi cp hcp] at hdata
    cases hdata
  · exact hcp

/-- A page that is known to have no data is changed. -/
theorem keeps_modify_of_eq (hcp : s.pages[ix]? = some cp) (hnot : cp.isData = false)
    (f : CachePage → CachePage) : Keeps p s (s.modify ix f) :=
  keeps_modify (fun _ _ hcp' => Option.some.inj (hcp.symm.trans hcp') ▸ hnot) f

theorem keeps_pageGet (s : SpiffsCache) (pix : ℕ) : Keeps p s (pageGet s pix).2 := by
  rcases pageGet_cases s pix with ⟨hget, -⟩ | ⟨ix, cp, hcp, hcopyOf, hget⟩
  · rw [hget]
    exact Keeps.refl p s
  · rw [hget]
    exact keeps_modify_of_eq hcp
      (CachePage.isData_eq_false (Or.inl (isCopyOf_iff.mp hcopyOf).1)) _

/-- `spiffs_cache_page_free`, of a page that may go. -/
theorem keeps_pageFree (hnot : p ix → ∀ cp, s.pages[ix]? = some cp → cp.isData = false)
    (writeBack : Bool) : Keeps p s (pageFree hal cfg s ix writeBack).2 := by
  unfold pageFree
  cases s.pages[ix]? with
  | none => exact Keeps.refl p s
  | some cp =>
    dsimp only
    split
    · exact keeps_modify (s := { s with flash := _ }) hnot _
    · exact Keeps.refl p s

theorem keeps_pageRemoveOldest (hal : SpiffsFlash) (cfg : SpiffsConfig) (s : SpiffsCache) :
    Keeps p s (pageRemoveOldest hal cfg s flagTypeWr 0).2 := by
  rcases pageRemoveOldest_cases hal cfg s with ⟨hnone, -⟩ | ⟨ix, cp, hcp, hcopy, -, hsome⟩
  · rw [hnone]
    exact Keeps.refl p s
  · rw [hsome]
    exact keeps_pageFree (fun _ cq hcq => by
      obtain rfl := Option.some.inj (hcp.symm.trans hcq)
      exact CachePage.isData_eq_false (Or.inl hcopy)) true

/-- A page that `spiffs_cache_page_allocate` found is changed. -/
theorem keeps_of_pageAllocate {s' : SpiffsCache} (h : pageAllocate s = (some ix, s'))
    (f : CachePage → CachePage) : Keeps p s (s'.modify ix f) := by
  rcases pageAllocate_cases s with ⟨hnone, -⟩ | ⟨i, cp, hcp, hunused, hsome⟩
  · rw [hnone] at h
    cases h
  · rw [hsome] at h
    obtain ⟨hix, rfl⟩ := Prod.mk.inj h
    obtain rfl := Option.some.inj hix
    rw [modify_modify]
    exact keeps_modify_of_eq hcp (CachePage.isData_eq_false (Or.inr hunused)) _

/-- `spiffs_phys_rd`. -/
theorem keeps_physRd {r : ℤ × List UInt8} (h : physRd hal cfg s op addr len = some (r, t)) :
    Keeps p s t := by
  have hget : Keeps p s (pageGet s (cfg.paddrToPage addr)).2.tick :=
    keeps_pageGet s (cfg.paddrToPage addr)
  unfold physRd at h
  dsimp only at h
  rcases pageGet_cases s (cfg.paddrToPage addr) with ⟨hnone, -⟩ | ⟨ix, cp, hcp, hcopyOf, hsome⟩
  · rw [hnone] at h hget
    dsimp only at h
    split at h
    · obtain ⟨-, rfl⟩ := Prod.mk.inj (Option.some.inj h)
      exact hget
    · split at h
      · cases h
      · rename_i ix s' hallocate
        obtain ⟨dst, -, heq⟩ := Option.bind_eq_some_iff.mp h
        obtain ⟨-, rfl⟩ := Prod.mk.inj (Option.some.inj heq)
        refine (hget.trans (keeps_pageRemoveOldest hal cfg s.tick)).trans ?_
        simp only [makeCopy, modify_modify]
        exact keeps_of_pageAllocate hallocate _
  · rw [hsome] at h hget
    dsimp only at h
    obtain ⟨dst, -, heq⟩ := Option.bind_eq_some_iff.mp h
    obtain ⟨-, rfl⟩ := Prod.mk.inj (Option.some.inj heq)
    have hgot := getElem?_modify_self hcp (CachePage.touch s.lastAccess)
    exact hget.trans (keeps_modify_of_eq hgot
      (CachePage.isData_eq_false (Or.inl (isCopyOf_iff.mp hcopyOf).1)) _)

/-- `spiffs_phys_wr`. -/
theorem keeps_physWr {res : ℤ} (h : physWr hal cfg s op addr src = some (res, t)) :
    Keeps p s t := by
  have hget := keeps_pageGet (p := p) s (cfg.paddrToPage addr)
  unfold physWr at h
  rcases pageGet_cases s (cfg.paddrToPage addr) with ⟨hnone, -⟩ | ⟨ix, cp, hcp, hcopyOf, hsome⟩
  · rw [hnone] at h
    obtain ⟨-, rfl⟩ := Prod.mk.inj (Option.some.inj h)
    exact Keeps.refl p s
  · have hgot := getElem?_modify_self hcp (CachePage.touch s.lastAccess)
    have hnot : (cp.touch s.lastAccess).isData = false :=
      CachePage.isData_eq_false (Or.inl (isCopyOf_iff.mp hcopyOf).1)
    rw [hsome] at h hget
    dsimp only at h hget
    split at h
    · obtain ⟨-, rfl⟩ := Prod.mk.inj (Option.some.inj h)
      exact hget
    · split at h
      · obtain ⟨-, rfl⟩ := Prod.mk.inj (Option.some.inj h)
        exact hget.trans (keeps_pageFree (fun _ cq hcq =>
          Option.some.inj (hgot.symm.trans hcq) ▸ hnot) false)
      · obtain ⟨cq, hcq, h⟩ := Option.bind_eq_some_iff.mp h
        obtain ⟨mem, -, h⟩ := Option.bind_eq_some_iff.mp h
        have hnew := hget.trans (keeps_modify_of_eq (p := p) hgot hnot fun cp =>
          { cp.touch (s.modify ix (CachePage.touch s.lastAccess)).tick.lastAccess with mem :=
            mem })
        split at h
        · obtain ⟨-, rfl⟩ := Prod.mk.inj (Option.some.inj h)
          exact hnew
        · obtain ⟨-, rfl⟩ := Prod.mk.inj (Option.some.inj h)
          exact hnew

theorem keeps_dropPage (s : SpiffsCache) (pix : ℕ) : Keeps p s (dropPage hal cfg s pix) := by
  have hget := keeps_pageGet (p := p) s pix
  unfold dropPage
  rcases pageGet_cases s pix with ⟨hnone, -⟩ | ⟨ix, cp, hcp, hcopyOf, hsome⟩
  · rw [hnone]
    exact Keeps.refl p s
  · have hgot := getElem?_modify_self hcp (CachePage.touch s.lastAccess)
    rw [hsome] at hget ⊢
    exact hget.trans (keeps_pageFree (fun _ cq hcq => by
      obtain rfl := Option.some.inj (hgot.symm.trans hcq)
      exact CachePage.isData_eq_false (Or.inl (isCopyOf_iff.mp hcopyOf).1)) false)

theorem keeps_pageAllocateByFd (s : SpiffsCache) (objId : ℕ) :
    Keeps p s (pageAllocateByFd hal cfg s objId).2 := by
  have hremove := keeps_pageRemoveOldest (p := p) hal cfg s
  unfold pageAllocateByFd
  split
  · rename_i s' hnone
    rcases pageAllocate_cases (pageRemoveOldest hal cfg s flagTypeWr 0).2 with
      ⟨hnone', -⟩ | ⟨ix, cp, -, -, hsome⟩
    · obtain ⟨-, rfl⟩ := Prod.mk.inj (hnone'.symm.trans hnone)
      exact hremove
    · cases hsome.symm.trans hnone
  · rename_i ix s' hallocate
    exact hremove.trans (keeps_of_pageAllocate hallocate _)

/-- `spiffs_erase_block` and `spiffs_gc_erase_block`. -/
theorem keeps_eraseBlock {res : ℤ} (h : eraseBlock hal cfg s bix = some (res, t)) :
    Keeps p s t := by
  obtain ⟨flash, -, h⟩ := Option.bind_eq_some_iff.mp h
  obtain ⟨⟨res₁, s₁⟩, h₁, h⟩ := Option.bind_eq_some_iff.mp h
  have hfirst : Keeps p s s₁ :=
    (keeps_physWr h₁ : Keeps p { s with flash := flash, freeBlocks := s.freeBlocks + 1 } s₁)
  dsimp only at h
  split at h
  · obtain ⟨-, rfl⟩ := Prod.mk.inj (Option.some.inj h)
    exact hfirst
  · obtain ⟨⟨res₂, s₂⟩, h₂, h⟩ := Option.bind_eq_some_iff.mp h
    have hsecond : Keeps p s s₂ := hfirst.trans (keeps_physWr h₂)
    dsimp only at h
    split at h
    · obtain ⟨-, rfl⟩ := Prod.mk.inj (Option.some.inj h)
      exact hsecond
    · obtain ⟨-, rfl⟩ := Prod.mk.inj (Option.some.inj h)
      exact hsecond

theorem keeps_foldl_dropPage (s : SpiffsCache) (f : ℕ → ℕ) (l : List ℕ) :
    Keeps p s (l.foldl (fun s i => dropPage hal cfg s (f i)) s) := by
  induction l generalizing s with
  | nil => exact Keeps.refl p s
  | cons i l ih => exact (keeps_dropPage s (f i)).trans (ih _)

theorem keeps_gcEraseBlock {res : ℤ} (h : gcEraseBlock hal cfg s bix = some (res, t)) :
    Keeps p s t := by
  obtain ⟨⟨res', s'⟩, herase, h⟩ := Option.bind_eq_some_iff.mp h
  have hkeeps : Keeps p s s' := keeps_eraseBlock herase
  dsimp only at h
  split at h
  · obtain ⟨-, rfl⟩ := Prod.mk.inj (Option.some.inj h)
    exact hkeeps
  · obtain ⟨-, rfl⟩ := Prod.mk.inj (Option.some.inj h)
    exact hkeeps.trans (keeps_foldl_dropPage s' _ _)

/-- The call is not made for the page of the pool. -/
def Call.Spares (ix : ℕ) : Call → Prop
  | .fill i _ _ _ _ | .fdRelease i => i ≠ ix
  | _ => True

instance (ix : ℕ) : (c : Call) → Decidable (c.Spares ix)
  | .fill i .. | .fdRelease i => inferInstanceAs (Decidable (i ≠ ix))
  | .physRd .. | .physWr .. | .dropPage _ | .pageAllocateByFd _ | .gcEraseBlock _ =>
    inferInstanceAs (Decidable True)

/-- **One call** keeps the data of the files that it is not made for. -/
theorem keeps_step {c : Call} {o : ℤ × List UInt8}
    (h : (cached hal cfg).step s c = some (o, t)) :
    Keeps c.Spares s t := by
  cases c with
  | physRd op addr len => exact keeps_physRd h
  | physWr op addr src =>
    obtain ⟨⟨res, s'⟩, hwr, heq⟩ := Option.map_eq_some_iff.mp h
    obtain ⟨-, rfl⟩ := Prod.mk.inj heq
    exact keeps_physWr hwr
  | dropPage pix =>
    obtain ⟨-, rfl⟩ := Prod.mk.inj (Option.some.inj h)
    exact keeps_dropPage s pix
  | pageAllocateByFd objId =>
    obtain ⟨-, rfl⟩ := Prod.mk.inj (Option.some.inj h)
    exact keeps_pageAllocateByFd s objId
  | fill ix offset size at' buf =>
    obtain ⟨s', hfill, heq⟩ := Option.map_eq_some_iff.mp h
    obtain ⟨-, rfl⟩ := Prod.mk.inj heq
    obtain ⟨cp, -, hfill⟩ := Option.bind_eq_some_iff.mp hfill
    obtain ⟨mem, -, heq⟩ := Option.bind_eq_some_iff.mp hfill
    obtain rfl := Option.some.inj heq
    exact keeps_modify (fun hself => absurd rfl hself) _
  | fdRelease ix =>
    obtain ⟨-, rfl⟩ := Prod.mk.inj (Option.some.inj h)
    exact (keeps_pageFree (fun hself => absurd rfl hself) false).trans
      (keeps_modify (fun hself => absurd rfl hself) _)
  | gcEraseBlock bix =>
    obtain ⟨⟨res, s'⟩, herase, heq⟩ := Option.map_eq_some_iff.mp h
    obtain ⟨-, rfl⟩ := Prod.mk.inj heq
    exact keeps_gcEraseBlock herase

/-- **Nothing but its owner takes a page with data of a file**, whatever the functions for the
flash answer. -/
theorem run_keeps (hal : SpiffsFlash) (cfg : SpiffsConfig) {s t : SpiffsCache} {ix : ℕ}
    {cp : CachePage} {calls : List Call} {answers : List (ℤ × List UInt8)}
    (hcp : s.pages[ix]? = some cp) (hdata : cp.isData = true)
    (hspares : ∀ c ∈ calls, c.Spares ix)
    (hrun : (cached hal cfg).run s calls = some (answers, t)) : t.pages[ix]? = some cp :=
  Transducer.invariant_of_run (P := (·.Spares ix)) (I := fun s => s.pages[ix]? = some cp)
    (fun _ _ _ _ hs hspares hstep => (keeps_step hstep).2 ix cp hspares hs hdata) hcp
    hspares hrun

/-- The pool after a file took a page for its data. -/
def smallPoolOfFile (cpageCount : ℕ) : SpiffsCache :=
  (pageAllocateByFd documentedHal .small (smallPool cpageCount) 9).2

/-- Two pages, one of them with data of a file: the reads use the other. -/
theorem run_keeps_two :
    ∃ answers t, (cached documentedHal .small).run (smallPoolOfFile 2)
        [.physRd 23 512 4, .physRd 23 1024 1, .pageAllocateByFd 7] = some (answers, t) ∧
      t.pages[0]? = (smallPoolOfFile 2).pages[0]? := by
  obtain ⟨r, hrun⟩ : ∃ r, (cached documentedHal .small).run (smallPoolOfFile 2)
      [.physRd 23 512 4, .physRd 23 1024 1, .pageAllocateByFd 7] = some r := ⟨_, rfl⟩
  exact ⟨r.1, r.2, hrun, run_keeps _ _ rfl (by decide) (by decide) hrun⟩

/-- All pages of the pool have data of files. -/
def Full (s : SpiffsCache) : Prop := ∀ cp ∈ s.pages, cp.isData = true

instance (s : SpiffsCache) : Decidable s.Full := List.decidableBAll _ _

/-- The call is not one that gives a page back. -/
def Call.Holds : Call → Prop
  | .fdRelease _ => False
  | _ => True

instance : (c : Call) → Decidable c.Holds
  | .fdRelease _ => inferInstanceAs (Decidable False)
  | .physRd .. | .physWr .. | .dropPage _ | .pageAllocateByFd _ | .fill .. | .gcEraseBlock _ =>
    inferInstanceAs (Decidable True)

/-- A pool stays full until a page is given back. -/
theorem Full.step (h : s.Full) {c : Call} (hc : c.Holds) {o : ℤ × List UInt8}
    (hstep : (cached hal cfg).step s c = some (o, t)) : t.Full := by
  have hkeeps := keeps_step hstep
  -- A page of the new pool is one of the old pool, or the one that is filled.
  have hold : ∀ (i : ℕ) (cq : CachePage), c.Spares i → t.pages[i]? = some cq →
      cq.isData = true := by
    intro i cq hspares hcq
    have hi : i < s.pages.length := by
      rw [← hkeeps.1]
      exact (List.getElem?_eq_some_iff.mp hcq).1
    have hdata := h _ (List.getElem_mem hi)
    have hcq' := hkeeps.2 i _ hspares (List.getElem?_eq_getElem hi) hdata
    obtain rfl := Option.some.inj (hcq'.symm.trans hcq)
    exact hdata
  intro cq hcq
  obtain ⟨i, hi⟩ := List.getElem?_of_mem hcq
  cases c with
  | fill ix offset size at' buf =>
    by_cases hix : ix = i
    · subst hix
      obtain ⟨s', hfill, heq⟩ := Option.map_eq_some_iff.mp hstep
      obtain ⟨-, rfl⟩ := Prod.mk.inj heq
      obtain ⟨cp, hcp, hfill⟩ := Option.bind_eq_some_iff.mp hfill
      obtain ⟨mem, -, heq⟩ := Option.bind_eq_some_iff.mp hfill
      obtain rfl := Option.some.inj heq
      rw [getElem?_modify_self hcp] at hi
      obtain rfl := Option.some.inj hi
      exact h cp (List.mem_of_getElem? hcp)
    · exact hold i cq hix hi
  | fdRelease ix => exact hc.elim
  | _ => exact hold i cq trivial hi

/-- **A full pool is the end of reading.** Until a file gives its page back, a read of the flash
that is not past the cache has no result, and nothing after it is done. -/
theorem run_eq_none_of_full (hal : SpiffsFlash) (cfg : SpiffsConfig) {s : SpiffsCache}
    {calls : List Call} {op : UInt8} {addr len : ℕ} (hfull : s.Full)
    (hholds : ∀ c ∈ calls, c.Holds) (hread : Call.physRd op addr len ∈ calls)
    (hop : opType op ≠ opTObjLu2) : (cached hal cfg).run s calls = none := by
  refine Transducer.run_eq_none (P := Call.Holds) (I := Full)
    (fun s c o t hs hc hstep => hs.step hc hstep) hfull hholds hread fun s hs => ?_
  refine physRd_eq_none hop (fun cp hcp => ?_) ?_
  · have hwr := (Bool.and_eq_true_iff.mp (hs cp hcp)).2
    rw [CachePage.isCopyOf, CachePage.isCopy, hwr, Bool.not_true,
      Bool.and_false, Bool.false_and]
  · rintro ⟨cp, hcp, hunused | ⟨hcopy, -⟩⟩
    · rw [(Bool.and_eq_true_iff.mp (hs cp hcp)).1] at hunused
      cases hunused
    · rw [(Bool.and_eq_true_iff.mp (hs cp hcp)).2] at hcopy
      cases hcopy

/-- One page, and a file that took it. -/
theorem run_eq_none_of_full_one :
    (cached documentedHal .small).run (smallPoolOfFile 1)
      [.fill 0 0 1 0 [0x41], .physRd 23 512 4] = none :=
  run_eq_none_of_full _ _ (by decide) (by decide) (List.mem_of_getElem? (i := 1) rfl)
    (by decide)

end SpiffsCache
