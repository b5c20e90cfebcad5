import Esp31b.SpiffsSurvivors
import Esp31b.Transducer

/-!
# Files are read while blocks are collected

A program opens files by their names, or objects by their ids, reads them, has blocks collected,
and looks for free entries, which may start a collection, too. In whatever order it does so, it
reads the contents of the objects, as from plain files (`SpiffsLookup.run_keptFiles`). What
changes under it are the flash, the cache and where the lookups start.
-/

namespace SpiffsLookup

open SpiffsCache (opTObjLu spiffsOk objIdIxFlag opType opTObjLu2 physRd Ready ReadyFor)

variable {hal : SpiffsFlash} {cfg : SpiffsConfig} {flash : ByteMem}
variable {disk : UInt16 → Option (List UInt8)} {names : List UInt8 → Option UInt16}

/-- What is called. -/
inductive GcCall where
  | spiffsOpen (path : List UInt8) (flags : UInt16)
  | openById (objId flags : UInt16)
  | read (i offset len : ℕ)
  | gcQuick (maxFreePages : ℕ)
  | findFree
  deriving DecidableEq

/-- The calls that may collect a block. -/
def GcCall.collects : GcCall → Bool
  | .spiffsOpen .. | .openById .. | .read .. => false
  | .gcQuick _ | .findFree => true

/-- `spiffs`, and the descriptors that the program has. -/
structure GcSystem where
  fs : Fs SpiffsCache
  luWork : List UInt8
  work : List UInt8
  statsPDeleted : UInt32
  freeCursorBlockIx : ℕ
  freeCursorObjLuEntry : ℕ
  fds : List ObjectFd

namespace GcSystem

variable (s : GcSystem)

/-- What a collection works on. -/
def scan : GcScan := ⟨s.fs.device, s.luWork, s.statsPDeleted, 0, 0, 0⟩

/-- And what it leaves. -/
def afterScan (t : GcScan) : GcSystem :=
  { s with
    fs := { s.fs with device := t.cache }, luWork := t.luWork, statsPDeleted :=
      t.statsPDeleted }

/-- A call: the result, and what is read. -/
def call (hal : SpiffsFlash) (cfg : SpiffsConfig) :
    GcCall → Fueled (Option ((ℤ × List UInt8) × GcSystem))
  | .spiffsOpen path flags => do
    match ← spiffsOpen (physRd hal cfg) cfg s.fs path ⟨0, 0, 0, 0, 0, 0, 0⟩ flags with
    | none => pure none
    | some ((res, fd), fs) => pure (some ((res, []), { s with fs := fs, fds := s.fds ++ [fd] }))
  | .openById objId flags => do
    match ← openById (physRd hal cfg) cfg s.fs objId ⟨0, 0, 0, 0, 0, 0, 0⟩ flags with
    | none => pure none
    | some ((res, fd), fs) => pure (some ((res, []), { s with fs := fs, fds := s.fds ++ [fd] }))
  | .read i offset len =>
    match s.fds[i]? with
    | none => pure none
    | some fd => do
      match ← objectRead (physRd hal cfg) cfg s.fs s.work fd offset len with
      | none => pure none
      | some r =>
        pure (some ((r.res, r.dst),
          { s with fs := r.fs, work := r.work, fds := s.fds.set i r.fd }))
  | .gcQuick maxFreePages =>
    pure ((gcQuick hal cfg maxFreePages s.scan).map fun (res, t) => ((res, []), s.afterScan t))
  | .findFree => do
    match ← findFree hal cfg false s.freeCursorBlockIx s.freeCursorObjLuEntry
      ⟨s.scan, s.freeCursorBlockIx, s.freeCursorObjLuEntry⟩ with
    | none => pure none
    | some ((res, _), t) =>
      pure (some ((res, []), { s.afterScan t.scan with
        freeCursorBlockIx := t.freeCursorBlockIx, freeCursorObjLuEntry :=
          t.freeCursorObjLuEntry }))

/-- Calls, one after the other. -/
def run (hal : SpiffsFlash) (cfg : SpiffsConfig) :
    List GcCall → GcSystem → Fueled (Option (List (ℤ × List UInt8) × GcSystem))
  | [], s => pure (some ([], s))
  | c :: calls, s => do
    match ← s.call hal cfg c with
    | none => pure none
    | some (r, s) => do
      let rest ← run hal cfg calls s
      pure (rest.map fun rest => (r :: rest.1, rest.2))

end GcSystem

/-- **Plain files**: those that are open, and the calls that they can be asked. -/
def keptFiles (disk : UInt16 → Option (List UInt8)) (names : List UInt8 → Option UInt16) :
    Transducer (List (List UInt8)) GcCall (List UInt8) where
  step opened
    | .spiffsOpen path _ => do
      let content ← disk (← names path)
      some ([], opened ++ [content])
    | .openById objId _ => (disk objId).map fun content => ([], opened ++ [content])
    | .read i offset len => do
      let content ← opened[i]?
      if offset + len ≤ content.length then some ((content.drop offset).take len, opened)
        else none
    | .gcQuick _ | .findFree => some ([], opened)

/-- **The files are those of the flash**, and the descriptors are theirs. -/
structure Keeping (cfg : SpiffsConfig) (disk : UInt16 → Option (List UInt8))
    (names : List UInt8 → Option UInt16) (flash : ByteMem) (s : GcSystem)
    (opened : List (List UInt8)) : Prop where
  ready : Ready cfg flash s.fs.device
  cursor : s.fs.cursorBlockIx < cfg.blockCount
  freeCursor : s.freeCursorBlockIx < cfg.blockCount
  stored : ∀ objId content, disk objId = some content → IsStored cfg flash objId content
  hasNames : HasNames cfg flash
  path : ∀ path objId content, names path = some objId → disk objId = some content →
    HasPath cfg flash path objId
  length : s.fds.length = opened.length
  fds : ∀ (i : ℕ) content, opened[i]? = some content → ∃ fd objId,
    s.fds[i]? = some fd ∧ disk objId = some content ∧ IsOpen cfg flash objId content fd

/-- A collection keeps it so. -/
theorem Keeping.keeps {s t : GcSystem} {opened : List (List UInt8)} {flash' : ByteMem}
    (h : Keeping cfg disk names flash s opened) (hkeeps : Keeps cfg flash flash')
    (hready : Ready cfg flash' t.fs.device) (hcursor : t.fs.cursorBlockIx = s.fs.cursorBlockIx)
    (hfreeCursor : t.freeCursorBlockIx < cfg.blockCount) (hfds : t.fds = s.fds) :
    Keeping cfg disk names flash' t opened := by
  refine ⟨hready, hcursor ▸ h.cursor, hfreeCursor,
    fun objId content hdisk => hkeeps.stored objId content (h.stored objId content hdisk),
    hkeeps.names h.hasNames, fun path objId content hname hdisk =>
      hkeeps.path path objId content (h.stored objId content hdisk)
        (h.path path objId content hname hdisk),
    hfds ▸ h.length, fun i content hopened => ?_⟩
  obtain ⟨fd, objId, hfd, hdisk, hopen⟩ := h.fds i content hopened
  exact ⟨fd, objId, hfds ▸ hfd, hdisk,
    hkeeps.isOpen objId content fd (h.stored objId content hdisk) hopen⟩

/-- Another object is open. -/
theorem Keeping.concat {s : GcSystem} {opened : List (List UInt8)} {fs : Fs SpiffsCache}
    {fd : ObjectFd} {objId : UInt16} {content : List UInt8}
    (h : Keeping cfg disk names flash s opened) (hready : Ready cfg flash fs.device)
    (hcursor : fs.cursorBlockIx < cfg.blockCount) (hdisk : disk objId = some content)
    (hopen : IsOpen cfg flash objId content fd) :
    Keeping cfg disk names flash { s with fs := fs, fds := s.fds ++ [fd] }
      (opened ++ [content]) := by
  refine ⟨hready, hcursor, h.freeCursor, h.stored, h.hasNames, h.path, ?_,
    fun i content' hopened => ?_⟩
  · rw [List.length_append, List.length_append, h.length]
    rfl
  · dsimp only
    rcases Nat.lt_or_ge i opened.length with hlt | hge
    · rw [List.getElem?_append_left hlt] at hopened
      rw [List.getElem?_append_left (h.length ▸ hlt)]
      exact h.fds i content' hopened
    · rw [List.getElem?_append_right hge] at hopened
      rw [List.getElem?_append_right (h.length ▸ hge), h.length]
      obtain ⟨hzero, rfl⟩ : i - opened.length = 0 ∧ content' = content := by
        rcases List.getElem?_eq_some_iff.mp hopened with ⟨hlt, hval⟩
        rw [List.length_singleton] at hlt
        exact ⟨by omega, by simpa using hval.symm⟩
      exact ⟨fd, objId, by rw [hzero]; rfl, hdisk, hopen⟩

/-- The reads behind a lookup leave room, too. -/
theorem reads_readyFor (hhal : hal.Sound) (cfg : SpiffsConfig) (flash : ByteMem) {n : ℕ}
    (hn : n + 1 < 2 ^ 32) :
    Reads (physRd hal cfg) cfg flash (opType · ≠ opTObjLu2)
      fun s (_ : Unit) => ReadyFor cfg flash n s :=
  fun _ _ _ _ _ h hop hin => h.exists_physRd hhal hop hin hn

/-- **A call is answered as by plain files.** -/
theorem Keeping.exists_call (hhal : hal.Sound) (hcfg : cfg.HasObjects) {s : GcSystem}
    {opened opened' : List (List UInt8)} (h : Keeping cfg disk names flash s opened)
    {c : GcCall}
    {data : List UInt8} (hplain : (keptFiles disk names).step opened c = some (data, opened')) :
    ∃ r t flash', (s.call hal cfg c).Yields (some (r, t)) ∧ r.2 = data ∧
      (c.collects = false → r.1 = spiffsOk) ∧ Keeping cfg disk names flash' t opened' := by
  have hrd := reads_cached (α := Unit) hhal cfg flash
  have hops : HasOps (opType · ≠ opTObjLu2) := ⟨by decide, by decide, by decide, by decide⟩
  cases c with
  | spiffsOpen path flags =>
    obtain ⟨objId, hname, heq⟩ := Option.bind_eq_some_iff.mp hplain
    obtain ⟨content, hdisk, heq⟩ := Option.bind_eq_some_iff.mp heq
    obtain ⟨rfl, rfl⟩ := Prod.mk.inj (Option.some.inj heq)
    have hI : ReadyFor cfg flash (cfg.entriesPerPage - cfg.entriesPerPage) s.fs.device := by
      rw [Nat.sub_self]
      exact h.ready.readyFor
    obtain ⟨fd, fs, hyields, hI', hcursor, hopen⟩ := exists_spiffsOpen (a := ())
      (loads_cached hhal cfg flash) (peeks_cached hhal cfg flash)
      (reads_readyFor hhal cfg flash (by omega)) hops hcfg h.hasNames
      (h.stored objId content hdisk).stores (h.path path objId content hname hdisk) hI h.cursor
      ⟨0, 0, 0, 0, 0, 0, 0⟩ flags
    exact ⟨_, _, flash, hyields.bind (Fueled.yields_pure _), rfl, fun _ => rfl,
      h.concat hI'.ready hcursor hdisk hopen⟩
  | openById objId flags =>
    obtain ⟨content, hdisk, heq⟩ := Option.map_eq_some_iff.mp hplain
    obtain ⟨rfl, rfl⟩ := Prod.mk.inj heq
    obtain ⟨fd, fs, hyields, hready, hcursor, hopen⟩ := exists_openById (a := ()) hrd hops hcfg
      (h.stored objId content hdisk).stores h.ready h.cursor ⟨0, 0, 0, 0, 0, 0, 0⟩ flags
    exact ⟨_, _, flash, hyields.bind (Fueled.yields_pure _), rfl, fun _ => rfl,
      h.concat hready hcursor hdisk hopen⟩
  | read i offset len =>
    obtain ⟨content, hopened, heq⟩ := Option.bind_eq_some_iff.mp hplain
    obtain ⟨hle, heq⟩ := Option.ite_none_right_eq_some.mp heq
    obtain ⟨rfl, rfl⟩ := Prod.mk.inj (Option.some.inj heq)
    obtain ⟨fd, objId, hfd, hdisk, hopen⟩ := h.fds i content hopened
    obtain ⟨r, hyields, hres, hdst, hready, hcursor, hopen'⟩ :=
      exists_objectRead (a := ()) hrd hops
      hcfg (h.stored objId content hdisk).stores h.ready h.cursor hopen hle s.work
    have hi := (List.getElem?_eq_some_iff.mp hfd).1
    refine ⟨(r.res, r.dst), { s with fs := r.fs, work := r.work, fds := s.fds.set i r.fd },
      flash, ?_, hdst, fun _ => hres, hready, hcursor, h.freeCursor, h.stored,
      h.hasNames, h.path, ?_,
      fun j content' hopened' => ?_⟩
    · unfold GcSystem.call
      dsimp only
      rw [hfd]
      exact hyields.bind (Fueled.yields_pure _)
    · rw [List.length_set, h.length]
    · dsimp only
      by_cases hij : i = j
      · subst hij
        obtain rfl := Option.some.inj (hopened.symm.trans hopened')
        exact ⟨r.fd, objId, List.getElem?_set_self hi, hdisk, hopen'⟩
      · rw [List.getElem?_set_ne hij]
        exact h.fds j content' hopened'
  | gcQuick maxFreePages =>
    obtain ⟨rfl, rfl⟩ := Prod.mk.inj (Option.some.inj hplain)
    obtain ⟨r, t, flash', hgc, -, hready, hkeeps⟩ :=
      exists_gcQuick_keeps hhal hcfg maxFreePages (s := s.scan) h.ready
    refine ⟨(r, []), s.afterScan t, flash', ?_, rfl, ?_, ?_⟩
    · unfold GcSystem.call
      dsimp only
      rw [hgc]
      exact Fueled.yields_pure _
    · intro hcollects
      cases hcollects
    · exact Keeping.keeps (t := s.afterScan t) h hkeeps hready rfl h.freeCursor rfl
  | findFree =>
    obtain ⟨rfl, rfl⟩ := Prod.mk.inj (Option.some.inj hplain)
    obtain ⟨r, t, flash', hyields, hready, hkeeps, hfound⟩ := exists_findFree hhal hcfg false
      (s := ⟨s.scan, s.freeCursorBlockIx, s.freeCursorObjLuEntry⟩) (e := s.freeCursorObjLuEntry)
      h.ready h.freeCursor
    have hblock : t.freeCursorBlockIx < cfg.blockCount := by
      rcases hfound with ⟨-, hb, -, -, hblock, -⟩ | ⟨-, hblock, -⟩
      · rw [hblock]
        exact hb
      · rw [hblock]
        exact h.freeCursor
    refine ⟨_, _, flash', hyields.bind (Fueled.yields_pure _), rfl, ?_, ?_⟩
    · intro hcollects
      cases hcollects
    · exact Keeping.keeps (s := s) h hkeeps hready rfl hblock rfl

theorem Keeping.exists_run (hhal : hal.Sound) (hcfg : cfg.HasObjects) {s : GcSystem}
    {opened opened' : List (List UInt8)} (h : Keeping cfg disk names flash s opened)
    {calls : List GcCall} {data : List (List UInt8)}
    (hplain : (keptFiles disk names).run opened calls = some (data, opened')) :
    ∃ answers t flash', (GcSystem.run hal cfg calls s).Yields (some (answers, t)) ∧
      answers.map Prod.snd = data ∧
      List.Forall₂ (fun c r => GcCall.collects c = false → r.1 = spiffsOk) calls answers ∧
      Keeping cfg disk names flash' t opened' := by
  induction calls generalizing flash s opened data with
  | nil =>
    obtain ⟨rfl, rfl⟩ := Prod.mk.inj (Option.some.inj hplain)
    exact ⟨[], s, flash, Fueled.yields_pure _, rfl, .nil, h⟩
  | cons c calls ih =>
    obtain ⟨⟨d, opened₁⟩, hstep, hrest⟩ := Option.bind_eq_some_iff.mp hplain
    obtain ⟨⟨ds, opened₂⟩, hrun, heq⟩ := Option.map_eq_some_iff.mp hrest
    obtain ⟨rfl, rfl⟩ := Prod.mk.inj heq
    obtain ⟨r, t, flash₁, hcall, rfl, hok, hkeeping⟩ := h.exists_call hhal hcfg hstep
    obtain ⟨answers, u, flash₂, hyields, rfl, hoks, hkeeping'⟩ := ih hkeeping hrun
    exact ⟨r :: answers, u, flash₂, hcall.bind (hyields.bind (Fueled.yields_pure _)), rfl,
      .cons hok hoks, hkeeping'⟩

/-- **Files outlive the collection of blocks.** Over the functions of this system, from any
state of the cache with room for a copy: whatever files of the flash are opened by their names,
and objects by their ids, whatever is read of them and however often blocks are collected in
between, each read returns the contents, and the flash has all objects and names after it. -/
theorem run_keptFiles {sdkRead : SpiFlashRead} {sdkWrite : SpiFlashWrite}
    {sdkErase : SpiFlashEraseSector} (hread : sdkRead.Copies) (hwrite : sdkWrite.Clears)
    (herase : sdkErase.Erases) (readers writers : SpiffsCallers) {cfg : SpiffsConfig}
    (hcfg : cfg.HasObjects) {flash : ByteMem} {disk : UInt16 → Option (List UInt8)}
    {names : List UInt8 → Option UInt16}
    (hdisk : ∀ objId content, disk objId = some content → IsStored cfg flash objId content)
    (hnames : HasNames cfg flash)
    (hpath : ∀ path objId content, names path = some objId → disk objId = some content →
      HasPath cfg flash path objId)
    {s : GcSystem} (hready : Ready cfg flash s.fs.device)
    (hcursor : s.fs.cursorBlockIx < cfg.blockCount)
    (hfree : s.freeCursorBlockIx < cfg.blockCount)
    (hfds : s.fds = []) {calls : List GcCall} {data opened : List (List UInt8)}
    (hplain : (keptFiles disk names).run [] calls = some (data, opened)) :
    ∃ answers t flash', (GcSystem.run (spiffsHal sdkRead sdkWrite sdkErase readers writers) cfg
        calls s).Yields (some (answers, t)) ∧
      answers.map Prod.snd = data ∧
      List.Forall₂ (fun c r => GcCall.collects c = false → r.1 = spiffsOk) calls answers ∧
      Ready cfg flash' t.fs.device ∧ HasNames cfg flash' ∧
      (∀ objId content, disk objId = some content → IsStored cfg flash' objId content) ∧
      ∀ path objId content, names path = some objId → disk objId = some content →
        HasPath cfg flash' path objId := by
  obtain ⟨answers, t, flash', hyields, hdata, hok, hkeeping⟩ := Keeping.exists_run
    (sound_spiffsHal hread hwrite herase readers writers) hcfg
    ⟨hready, hcursor, hfree, hdisk, hnames, hpath, by rw [hfds]; rfl,
    fun i content h => by cases h⟩
    hplain
  exact ⟨answers, t, flash', hyields, hdata, hok, hkeeping.ready, hkeeping.hasNames,
    hkeeping.stored, hkeeping.path⟩

/-- A file in the first block of `SpiffsConfig.paged`. The other one has deleted pages only. -/
def flashToCollect : ByteMem :=
  ((ByteMem.storePage (fun _ => 0xFF) .paged 0 3 ⟨0x8001, 0, 0xF8⟩
    ([0xFF, 0xFF, 0xFF, 2, 0, 0, 0, 1, 0x2F, 0x61] ++ List.replicate 31 0 ++ [7, 0])).storePage
      .paged
      0 5 ⟨1, 0, 0xFC⟩ [0x68, 0x69]).store 4096 (List.replicate 124 0)

theorem isStored_flashToCollect : IsStored .paged flashToCollect 1 [0x68, 0x69] := by
  have honly : ∀ {spix b e : ℕ}, IsIndexOf .paged flashToCollect 1 spix (b, e) →
      b = 0 ∧ e = 3 := by
    rintro spix b e ⟨hb, he, hid, -⟩
    exact (by decide : ∀ b < SpiffsConfig.paged.blockCount,
      ∀ e < SpiffsConfig.paged.objLookupMaxEntries,
        SpiffsConfig.paged.idOf flashToCollect b e = 1 ||| objIdIxFlag → b = 0 ∧ e = 3)
      b hb e he hid
  have hheader : IsIndexOf .paged flashToCollect 1 0 (0, 3) :=
    ⟨by decide, by decide, by decide⟩
  have hspan : ∀ k, k * SpiffsConfig.paged.dataPageSize < 2 → k = 0 := by
    intro k hk
    change k * 59 < 2 at hk
    omega
  refine ⟨⟨by decide, ⟨_, hheader⟩, fun b e hx => ?_, fun k hk => ?_, fun spix b e hx => ?_,
    fun k hk b e hx => ?_⟩, by decide, fun k hk b e hx => ?_⟩
  · obtain ⟨rfl, rfl⟩ := honly hx
    decide
  · obtain rfl := hspan k hk
    exact ⟨_, hheader⟩
  · obtain ⟨rfl, rfl⟩ := honly hx
    decide
  · obtain ⟨rfl, rfl⟩ := honly hx
    obtain rfl := hspan k hk
    exact ⟨by decide, by decide, by decide, by decide⟩
  · obtain ⟨rfl, rfl⟩ := honly hx
    obtain rfl := hspan k hk
    decide

/-- The other block is collected while the file is open. -/
theorem run_keptFiles_flashToCollect :
    ∃ answers t, (GcSystem.run documentedHal .paged
        [.spiffsOpen [0x2F, 0x61] 0, .gcQuick 0, .read 0 0 2, .findFree,
          .openById 1 0, .read 1 1 1]
        ⟨⟨SpiffsCache.init .paged 2 flashToCollect 0 1, 0, 7⟩, [], [], 0, 0, 0, []⟩).Yields
      (some (answers, t)) ∧ answers.map Prod.snd = [[], [], [0x68, 0x69], [], [], [0x69]] := by
  have hcfg : SpiffsConfig.paged.HasObjects := ⟨SpiffsConfig.hasEntries_paged, by decide⟩
  have hdisk : ∀ objId content, (if objId = 1 then some [0x68, 0x69] else none) = some content →
      IsStored .paged flashToCollect objId content := by
    intro objId content h
    obtain ⟨rfl, heq⟩ := Option.ite_none_right_eq_some.mp h
    obtain rfl := Option.some.inj heq
    exact isStored_flashToCollect
  have hpath : ∀ path objId (content : List UInt8),
      (if path = [0x2F, 0x61] then some (1 : UInt16) else none) = some objId →
      (if objId = 1 then some [0x68, 0x69] else none) = some content →
      HasPath .paged flashToCollect path objId := by
    intro path objId content h _
    obtain ⟨rfl, heq⟩ := Option.ite_none_right_eq_some.mp h
    obtain rfl := Option.some.inj heq
    refine ⟨⟨0, by decide, 3, by decide, by decide⟩, fun b hb e he hnamed => ?_⟩
    obtain ⟨rfl, rfl⟩ := (by decide : ∀ b < SpiffsConfig.paged.blockCount,
      ∀ e < SpiffsConfig.paged.objLookupMaxEntries,
        IsNamed .paged flashToCollect [0x2F, 0x61] (b, e) → b = 0 ∧ e = 3) b hb e he hnamed
    exact ⟨by decide, by decide, by decide⟩
  have hplain : (keptFiles (fun objId => if objId = 1 then some [0x68, 0x69] else none)
      fun path => if path = [0x2F, 0x61] then some 1 else none).run []
      [.spiffsOpen [0x2F, 0x61] 0, .gcQuick 0, .read 0 0 2, .findFree,
      .openById 1 0, .read 1 1 1] =
      some ([[], [], [0x68, 0x69], [], [], [0x69]], [[0x68, 0x69], [0x68, 0x69]]) := by decide
  obtain ⟨answers, t, -, hyields, hdata, -⟩ := run_keptFiles SpiffsHal.copies_copyingFlash
    SpiffsHal.clears_clearingFlash erases_erasingFlash (callersAt 100) (callersAt 200) hcfg
    hdisk (by decide) hpath
    (s := ⟨⟨SpiffsCache.init .paged 2 flashToCollect 0 1, 0, 7⟩, [], [], 0, 0, 0, []⟩)
    ⟨SpiffsCache.coherent_init .paged 2 flashToCollect 0 1, rfl, by decide⟩
    (by decide) (by decide)
    rfl hplain
  exact ⟨answers, t, hyields, hdata⟩

end SpiffsLookup
