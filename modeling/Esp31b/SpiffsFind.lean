import Esp31b.SpiffsCacheRuns
import Esp31b.SpiffsLookupRuns

/-!
# The page that is looked for

`spiffs_obj_lu_find_id_and_span` starts where the last lookup ended, and takes the first entry
of its page from there on, round all blocks. So it finds a page if there is one
(`SpiffsLookup.exists_findIdAndSpan`), wherever it starts.

It reads the flash through the cache. A copy that was just made or accessed can be given up at
the next read, so one read leaves a page for the next one, and a lookup that finds one page to
make its copies in is right (`SpiffsLookup.findIdAndSpan_cached`), whatever else is in the
cache.
-/

namespace SpiffsCache

variable {hal : SpiffsFlash} {cfg : SpiffsConfig} {s t : SpiffsCache}
  {op : UInt8} {addr len : ℕ}

/-- So many ticks. -/
def ticks (s : SpiffsCache) (n : ℕ) : SpiffsCache :=
  { s with lastAccess := s.lastAccess + UInt32.ofNat n }

theorem ticks_one (s : SpiffsCache) : s.ticks 1 = s.tick := rfl

/-- **A copy was accessed now.** -/
def Accessed (s : SpiffsCache) : Prop :=
  ∃ cp ∈ s.pages, cp.isWr = false ∧ cp.lastAccess = s.lastAccess

/-- It can be given up after some ticks, until the time comes round. -/
theorem Accessed.evictable {n : ℕ} (h : s.Accessed) (hpos : 0 < n) (hlt : n < 2 ^ 32) :
    (s.ticks n).Evictable := by
  obtain ⟨cp, hmem, hwr, haccess⟩ := h
  refine ⟨cp, hmem, Or.inr ⟨hwr, fun hsame => ?_⟩⟩
  have hself := congrArg UInt32.toNat (haccess.symm.trans hsame)
  have hbound := s.lastAccess.toNat_lt
  unfold ticks at hself
  rw [UInt32.toNat_add, UInt32.toNat_ofNat'] at hself
  omega

/-- A copy that is found is accessed. -/
theorem accessed_of_hit {ix : ℕ} {cp : CachePage} (hcp : s.pages[ix]? = some cp)
    (hcopyOf : cp.isCopyOf (cfg.paddrToPage addr) = true)
    (hget : pageGet s (cfg.paddrToPage addr) =
      (some ix, s.modify ix (CachePage.touch s.lastAccess)))
    {r : ℤ × List UInt8} (hrd : physRd hal cfg s op addr len = some (r, t)) : t.Accessed := by
  unfold physRd at hrd
  dsimp only at hrd
  rw [hget] at hrd
  dsimp only at hrd
  obtain ⟨dst, -, heq⟩ := Option.bind_eq_some_iff.mp hrd
  obtain ⟨-, rfl⟩ := Prod.mk.inj (Option.some.inj heq)
  have hgot := getElem?_modify_self hcp (CachePage.touch s.lastAccess)
  have hcopy := (isCopy_iff.mp (isCopyOf_iff.mp hcopyOf).1).2
  exact ⟨_, List.mem_of_getElem? (getElem?_modify_self
    (s := (s.modify ix (CachePage.touch s.lastAccess)).tick) hgot _), hcopy, rfl⟩

/-- **A read accesses a copy**, unless it goes past the cache. -/
theorem Coherent.accessed_of_physRd (h : Coherent cfg s) (hlu2 : opType op ≠ opTObjLu2)
    {r : ℤ × List UInt8} (hrd : physRd hal cfg s op addr len = some (r, t)) : t.Accessed := by
  rcases pageGet_cases s (cfg.paddrToPage addr) with ⟨hget, -⟩ | ⟨ix, cp, hcp, hcopyOf, hget⟩
  · unfold physRd at hrd
    dsimp only at hrd
    rw [hget] at hrd
    dsimp only at hrd
    rw [if_neg hlu2] at hrd
    obtain ⟨u, hremove, -⟩ := h.tick.exists_removed hal
    rw [hremove] at hrd
    dsimp only at hrd
    rcases pageAllocate_cases u with ⟨hallocate, -⟩ | ⟨ix, cp, hcp, -, hallocate⟩
    · rw [hallocate] at hrd
      cases hrd
    · rw [hallocate] at hrd
      obtain ⟨dst, -, heq⟩ := Option.bind_eq_some_iff.mp hrd
      obtain ⟨-, rfl⟩ := Prod.mk.inj (Option.some.inj heq)
      simp only [makeCopy, modify_modify]
      have hwr : (flagWrthru &&& flagTypeWr != 0) = false := by decide
      exact ⟨_, List.mem_of_getElem? (getElem?_modify_self hcp _), hwr, rfl⟩
  · exact accessed_of_hit hcp hcopyOf hget hrd

/-- One that does finds a copy, too, or takes its time. -/
theorem accessed_or_eq_tick (hlu2 : opType op = opTObjLu2) {r : ℤ × List UInt8}
    (hrd : physRd hal cfg s op addr len = some (r, t)) : t.Accessed ∨ t = s.tick := by
  rcases pageGet_cases s (cfg.paddrToPage addr) with ⟨hget, -⟩ | ⟨ix, cp, hcp, hcopyOf, hget⟩
  · unfold physRd at hrd
    dsimp only at hrd
    rw [hget] at hrd
    dsimp only at hrd
    rw [if_pos hlu2] at hrd
    obtain ⟨-, rfl⟩ := Prod.mk.inj (Option.some.inj hrd)
    exact Or.inr rfl
  · exact Or.inl (accessed_of_hit hcp hcopyOf hget hrd)

/-- **The copies are right, and there is room for another one.** -/
structure Ready (cfg : SpiffsConfig) (flash : ByteMem) (s : SpiffsCache) : Prop where
  coherent : Coherent cfg s
  flash : s.flash = flash
  room : s.tick.Evictable

/-- A read leaves it so. -/
theorem Ready.exists_physRd (hhal : hal.Sound) {flash : ByteMem} (h : Ready cfg flash s)
    (hop : opType op ≠ opTObjLu2) (hin : cfg.InPage addr len) :
    ∃ t, physRd hal cfg s op addr len = some ((spiffsOk, flash.slice addr len), t) ∧
      Ready cfg flash t ∧ t.maxEraseCount = s.maxEraseCount := by
  obtain ⟨t, ht, hcoherent, hflash, herase⟩ := h.coherent.exists_physRd hhal hin
    (Or.inr (by rw [if_neg hop]; exact h.room))
  rw [h.flash] at ht hflash
  have hroom := (h.coherent.accessed_of_physRd hop ht).evictable Nat.one_pos (by decide)
  exact ⟨t, ht, ⟨hcoherent, hflash, ticks_one t ▸ hroom⟩, herase⟩

/-- **There is room after so many reads that go past the cache**, too. -/
structure ReadyFor (cfg : SpiffsConfig) (flash : ByteMem) (n : ℕ) (s : SpiffsCache) : Prop where
  coherent : Coherent cfg s
  flash : s.flash = flash
  room : ∀ k ≤ n, (s.ticks (k + 1)).Evictable

section ReadyFor

variable {flash : ByteMem} {m n : ℕ}

theorem ReadyFor.ready (h : ReadyFor cfg flash n s) : Ready cfg flash s :=
  ⟨h.coherent, h.flash, h.room 0 (Nat.zero_le n)⟩

theorem Ready.readyFor (h : Ready cfg flash s) : ReadyFor cfg flash 0 s :=
  ⟨h.coherent, h.flash, fun k hk => by
    rw [Nat.le_zero.mp hk]
    exact h.room⟩

theorem ReadyFor.of_le (h : ReadyFor cfg flash n s) (hle : m ≤ n) : ReadyFor cfg flash m s :=
  ⟨h.coherent, h.flash, fun k hk => h.room k (hk.trans hle)⟩

theorem Coherent.readyFor (h : Coherent cfg s) (hflash : s.flash = flash)
    (haccessed : s.Accessed)
    (hn : n + 1 < 2 ^ 32) : ReadyFor cfg flash n s :=
  ⟨h, hflash, fun k hk => haccessed.evictable (Nat.succ_pos k) (by omega)⟩

/-- A read through the cache. -/
theorem ReadyFor.exists_physRd (hhal : hal.Sound) (h : ReadyFor cfg flash n s)
    (hop : opType op ≠ opTObjLu2) (hin : cfg.InPage addr len) (hm : m + 1 < 2 ^ 32) :
    ∃ t, physRd hal cfg s op addr len = some ((spiffsOk, flash.slice addr len), t) ∧
      ReadyFor cfg flash m t := by
  obtain ⟨t, ht, hready, -⟩ := h.ready.exists_physRd hhal hop hin
  have haccessed := h.coherent.accessed_of_physRd hop ht
  exact ⟨t, ht, hready.coherent.readyFor hready.flash haccessed hm⟩

/-- A read of whole words that goes past it. -/
theorem ReadyFor.exists_physRd_past (hhal : hal.Sound) (h : ReadyFor cfg flash (n + 1) s)
    (hop : opType op = opTObjLu2) (hfour : 4 ∣ addr) (hin : cfg.InPage addr len)
    (hn : n + 1 < 2 ^ 32) :
    ∃ t, physRd hal cfg s op addr len = some ((spiffsOk, flash.slice addr len), t) ∧
      ReadyFor cfg flash n t := by
  obtain ⟨t, ht, hcoherent, hflash, -⟩ := h.coherent.exists_physRd hhal hin
    (Or.inr (by rw [if_pos hop]; exact hfour))
  rw [h.flash] at ht hflash
  refine ⟨t, ht, ?_⟩
  rcases accessed_or_eq_tick hop ht with haccessed | rfl
  · exact hcoherent.readyFor hflash haccessed hn
  · refine ⟨hcoherent, hflash, fun k hk => ?_⟩
    have hticks : s.tick.ticks (k + 1) = s.ticks (k + 1 + 1) := by
      unfold tick ticks
      rw [UInt32.add_assoc, UInt32.add_comm 1, UInt32.ofNat_add (k + 1) 1]
      rfl
    rw [hticks]
    exact h.room (k + 1) (Nat.succ_le_succ hk)

end ReadyFor

end SpiffsCache

namespace SpiffsLookup

open SpiffsCache (opTObjLu opTObjLu2 spiffsOk objIdIxFlag opType physRd Ready)

variable {τ α : Type} {rd : Reader τ} {cfg : SpiffsConfig} {flags : VisFlags} {objId : UInt16}
variable {flash : ByteMem} {ops : UInt8 → Prop} {I : τ → α → Prop}
variable {w : α → UInt16 → ℕ → ℕ → ℤ × α} {a : α}

/-- **The cache is read like the flash**, by the operations that do not go past it. -/
theorem reads_cached {hal : SpiffsFlash} (hhal : hal.Sound) (cfg : SpiffsConfig)
    (flash : ByteMem) :
    Reads (physRd hal cfg) cfg flash (opType · ≠ opTObjLu2) fun s (_ : α) =>
      Ready cfg flash s := by
  intro s _ op addr len hready hop hin
  obtain ⟨t, ht, hready', -⟩ := hready.exists_physRd hhal hop hin
  exact ⟨t, ht, hready'⟩

/-- An entry is that of the page that is looked for. -/
def IsEntryOf (cfg : SpiffsConfig) (flash : ByteMem) (objId spix : UInt16) (exclusionPix : ℕ)
    (x : ℕ × ℕ) : Prop :=
  cfg.idOf flash x.1 x.2 = objId ∧
    Sought objId spix exclusionPix (cfg.objLookupEntryToPix x.1 x.2)
      (cfg.headerOf flash (cfg.objLookupEntryToPix x.1 x.2))

instance (flash : ByteMem) (spix : UInt16) (exclusionPix : ℕ) (x : ℕ × ℕ) :
    Decidable (IsEntryOf cfg flash objId spix exclusionPix x) :=
  inferInstanceAs (Decidable (_ ∧ _))

/-- What `spiffs_obj_lu_find_id_and_span_v` says of an entry. -/
theorem visits_findIdAndSpanV (hrd : Reads rd cfg flash ops I) (hop : ops 0)
    (hcfg : cfg.HasEntries) (spix : UInt16) (exclusionPix : ℕ) :
    Visits (some (findIdAndSpanV rd cfg spix exclusionPix)) cfg flash flags objId (fun _ => I)
      fun a id b e =>
      (if Sought id spix exclusionPix (cfg.objLookupEntryToPix b e)
        (cfg.headerOf flash (cfg.objLookupEntryToPix b e)) then spiffsOk
        else visContinue, a) := by
  intro _ _ t a b e hI hb he
  have hblock := SpiffsConfig.hasBlock_of_lt hb
  have hpage := hblock.inPage (hblock.entryToPix he).2 cfg.page_pos
    (show 0 + PageHeader.size ≤ cfg.logPageSize from (Nat.zero_add _).symm ▸ hcfg.header)
  obtain ⟨t', ht, hI'⟩ := hrd t a 0 _ _ hI hop hpage
  rw [Nat.add_zero] at ht
  refine ⟨t', ?_, hI'⟩
  rw [findIdAndSpanV, ht, Option.bind_eq_bind, Option.bind_some]
  dsimp only
  rw [if_neg (lt_irrefl _), cfg.ofBytes_slice flash _ (Nat.le_refl _)]
  rfl

/-- **`spiffs_obj_lu_find_id_and_span` finds a page if there is one**: the first one from where
the last lookup ended, round all blocks. The lookup stays there if there is none. -/
theorem exists_findIdAndSpan (hrd : Reads rd cfg flash ops I) (hlu : ops (opTObjLu ||| opCRead))
    (hop : ops 0) (hcfg : cfg.HasEntries) {fs : Fs τ} (hI : I fs.device a)
    (hcursor : fs.cursorBlockIx < cfg.blockCount) (objId spix : UInt16) (exclusionPix : ℕ) :
    ∃ r fs', (findIdAndSpan rd cfg objId fs spix exclusionPix).Yields (some (r, fs')) ∧
      I fs'.device a ∧
      ((∃ b < cfg.blockCount, ∃ e < cfg.objLookupMaxEntries,
          IsEntryOf cfg flash objId spix exclusionPix (b, e) ∧
          (visited cfg false fs.cursorBlockIx fs.cursorObjLuEntry).find?
            (IsEntryOf cfg flash objId spix exclusionPix ·) = some (b, e) ∧
          r = (spiffsOk, cfg.objLookupEntryToPix b e) ∧ fs'.cursorBlockIx = b ∧
          fs'.cursorObjLuEntry = e) ∨
        (∀ b < cfg.blockCount, ∀ e < cfg.objLookupMaxEntries,
          ¬ IsEntryOf cfg flash objId spix exclusionPix (b, e)) ∧
          r = (errNotFound, 0) ∧ fs'.cursorBlockIx = fs.cursorBlockIx ∧
          fs'.cursorObjLuEntry = fs.cursorObjLuEntry) := by
  have hv : Visits (some (findIdAndSpanV rd cfg spix exclusionPix)) cfg flash
      ⟨true, false, false⟩
      objId (fun _ => I) _ := visits_findIdAndSpanV hrd hop hcfg spix exclusionPix
  obtain ⟨⟨res, s⟩, hyields, hI', hend⟩ :=
    ends_findEntryVisitor (e := fs.cursorObjLuEntry) (hrd.loads hlu) hv hcfg hI hcursor
  have hfind : ∀ (l : List (ℕ × ℕ)) (a : α), visit cfg flash ⟨true, false, false⟩ objId
      (fun (a : α) id b e => (if Sought id spix exclusionPix (cfg.objLookupEntryToPix b e)
        (cfg.headerOf flash (cfg.objLookupEntryToPix b e)) then spiffsOk
        else visContinue, a)) l a =
      (l.find? (IsEntryOf cfg flash objId spix exclusionPix ·)).elim (none, a)
        fun x => (some (spiffsOk, x), a) := by
    intro l a
    refine visit_eq_find? (f := fun _ a => a) fun x _ a => ?_
    unfold visitOne
    dsimp only
    by_cases hid : cfg.idOf flash x.1 x.2 = objId
    · have hvisited : visitedId cfg flash ⟨true, false, false⟩ objId x.1 x.2 = objId := hid
      rw [if_pos (Or.inr hid), hvisited]
      by_cases hsought : Sought objId spix exclusionPix (cfg.objLookupEntryToPix x.1 x.2)
          (cfg.headerOf flash (cfg.objLookupEntryToPix x.1 x.2))
      · rw [if_pos hsought, if_neg (by decide), if_pos (decide_eq_true ⟨hid, hsought⟩)]
      · rw [if_neg hsought, if_pos (Or.inl rfl), if_neg fun h =>
          hsought (of_decide_eq_true h).2]
    · rw [if_neg fun h => hid (h.resolve_left (by decide)),
        if_neg fun h => hid (of_decide_eq_true h).1]
  unfold findIdAndSpan
  cases hfound : (visited cfg false fs.cursorBlockIx fs.cursorObjLuEntry).find?
      (IsEntryOf cfg flash objId spix exclusionPix ·) with
  | some x =>
    rw [hfind, hfound] at hI' hend
    obtain ⟨hres, hblock, hentry⟩ := hend
    dsimp only at hres hblock hentry
    obtain ⟨hb, he⟩ := (mem_visited hcursor).mp (List.mem_of_find?_eq_some hfound)
    have haccept := List.find?_some (p := fun y =>
      decide (IsEntryOf cfg flash objId spix exclusionPix y)) hfound
    have hx := of_decide_eq_true haccept
    refine ⟨_, _, hyields.bind (Fueled.yields_pure _), ?_,
      Or.inl ⟨x.1, hb, x.2, he, hx, rfl, ?_⟩⟩
    · rw [hres]
      exact hI'
    · rw [hres, hblock, hentry]
      exact ⟨rfl, rfl, rfl⟩
  | none =>
    rw [hfind, hfound] at hI' hend
    have hres : res = visEnd := hend
    have hnone := List.find?_eq_none.mp hfound
    refine ⟨_, _, hyields.bind (Fueled.yields_pure _), ?_, Or.inr ⟨fun b hb e he hx =>
      hnone (b, e) ((mem_visited hcursor).mpr ⟨hb, he⟩) (decide_eq_true hx), ?_⟩⟩
    · rw [hres]
      exact hI'
    · rw [hres]
      exact ⟨rfl, rfl, rfl⟩

/-- **A lookup through the cache finds a page if there is one.** Over the functions of this
system, from any state of the cache with room for a copy: it ends, it writes nothing, and it
leaves room. -/
theorem findIdAndSpan_cached {sdkRead : SpiFlashRead} {sdkWrite : SpiFlashWrite}
    {sdkErase : SpiFlashEraseSector} (hread : sdkRead.Copies) (hwrite : sdkWrite.Clears)
    (herase : sdkErase.Erases) (readers writers : SpiffsCallers) {cfg : SpiffsConfig}
    (hcfg : cfg.HasEntries) {flash : ByteMem} (fs : Fs SpiffsCache)
    (hready : Ready cfg flash fs.device) (hcursor : fs.cursorBlockIx < cfg.blockCount)
    (objId spix : UInt16) (exclusionPix : ℕ) :
    ∃ r fs', (findIdAndSpan (physRd (spiffsHal sdkRead sdkWrite sdkErase readers writers) cfg)
        cfg objId fs spix exclusionPix).Yields (some (r, fs')) ∧
      Ready cfg flash fs'.device ∧
      ((∃ b < cfg.blockCount, ∃ e < cfg.objLookupMaxEntries,
          IsEntryOf cfg flash objId spix exclusionPix (b, e) ∧
          (visited cfg false fs.cursorBlockIx fs.cursorObjLuEntry).find?
            (IsEntryOf cfg flash objId spix exclusionPix ·) = some (b, e) ∧
          r = (spiffsOk, cfg.objLookupEntryToPix b e) ∧ fs'.cursorBlockIx = b ∧
          fs'.cursorObjLuEntry = e) ∨
        (∀ b < cfg.blockCount, ∀ e < cfg.objLookupMaxEntries,
          ¬ IsEntryOf cfg flash objId spix exclusionPix (b, e)) ∧
          r = (errNotFound, 0) ∧ fs'.cursorBlockIx = fs.cursorBlockIx ∧
          fs'.cursorObjLuEntry = fs.cursorObjLuEntry) :=
  exists_findIdAndSpan (a := ())
    (reads_cached (sound_spiffsHal hread hwrite herase readers writers) cfg flash) (by decide)
    (by decide) hcfg hready hcursor objId spix exclusionPix

end SpiffsLookup

theorem SpiffsConfig.hasEntries_paged : SpiffsConfig.paged.HasEntries :=
  ⟨by decide, by decide, by decide⟩

/-- A page of an object, and its entry. -/
def ByteMem.storePage (f : ByteMem) (cfg : SpiffsConfig) (b e : ℕ) (ph : PageHeader)
    (content : List UInt8) : ByteMem :=
  (f.store (cfg.blockToPaddr b + 2 * e) (SpiffsCache.bytes16 ph.objId)).store
    (cfg.pageToPaddr (cfg.objLookupEntryToPix b e))
    (SpiffsCache.bytes16 ph.objId ++ SpiffsCache.bytes16 ph.spanIx ++ ph.flags :: content)

namespace SpiffsLookup

/-- A page of an object in the second block of an erased flash. -/
def flashOfPage : ByteMem :=
  ByteMem.storePage (fun _ => 0xFF) .paged 1 5 ⟨1, 0, 0xFC⟩ [0x68, 0x69]

/-- It is found from the first block on. -/
theorem findIdAndSpan_cached_flashOfPage :
    ∃ fs', (findIdAndSpan (SpiffsCache.physRd documentedHal .paged) .paged 1
      ⟨SpiffsCache.init .paged 2 flashOfPage 0 1, 0, 7⟩ 0 0).Yields
        (some ((SpiffsCache.spiffsOk, 71), fs')) := by
  obtain ⟨r, fs', hyields, -, hfound⟩ := findIdAndSpan_cached SpiffsHal.copies_copyingFlash
    SpiffsHal.clears_clearingFlash erases_erasingFlash (callersAt 100) (callersAt 200)
    SpiffsConfig.hasEntries_paged ⟨SpiffsCache.init .paged 2 flashOfPage 0 1, 0, 7⟩
    ⟨SpiffsCache.coherent_init .paged 2 flashOfPage 0 1, rfl, by decide⟩ (by decide) 1 0 0
  rcases hfound with ⟨b, -, e, -, -, hfind, rfl, -⟩ | ⟨hnone, -⟩
  · have hentry : (visited .paged false 0 7).find? (IsEntryOf .paged flashOfPage 1 0 0 ·) =
        some (1, 5) := by decide
    obtain ⟨rfl, rfl⟩ := Prod.mk.inj (Option.some.inj (hfind.symm.trans hentry))
    exact ⟨fs', hyields⟩
  · exact absurd (by decide) (hnone 1 (by decide) 5 (by decide))

end SpiffsLookup
