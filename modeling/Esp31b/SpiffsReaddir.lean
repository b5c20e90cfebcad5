import Esp31b.SpiffsContent

/-!
# The files of a directory

`SPIFFS_readdir` goes on from where it stopped, through the entries of all blocks, to the next
one that is of the index header of a file. `SPIFFSDirImpl::next` asks it for the next file until
one has a name that starts with the pattern.

Where it goes on is the entry behind the last file. But a lookup that starts at the last entry
of a block starts in the next one, so a file there is not found, if the entry in front of it is
one of a file, too (`SpiffsLookup.Passed`). All other files are listed, in the order of their
entries, and none of them twice (`SpiffsLookup.nexts_opendir`).
-/

/-- **`spiffs_dirent`**. -/
structure SpiffsDirent where
  objId : UInt16
  name : List UInt8
  type : UInt8
  size : ℕ
  pix : ℕ
  deriving DecidableEq

/-- What `SPIFFS_readdir` works on: two fields of `spiffs`, the `spiffs_DIR` and its
`spiffs_dirent`. -/
structure SpiffsDir (τ : Type) where
  fs : τ
  mounted : Bool
  errCode : ℤ
  block : ℕ
  entry : ℕ
  dirent : SpiffsDirent

/-- **`SPIFFSDirImpl`**. -/
structure SpiffsDirImpl (τ : Type) where
  pattern : List UInt8
  dir : SpiffsDir τ
  valid : Bool

/-- `strncmp` finds no difference. -/
def strncmpEq (a b : List UInt8) (n : ℕ) : Bool := (cstr a).take n == (cstr b).take n

namespace SpiffsLookup

open SpiffsCache (opTObjLu opTObjLu2 spiffsOk objIdIxFlag physRd Ready ReadyFor)
open SpiffsConfig (objectIxHeaderSize)

/-- `SPIFFS_ERR_NOT_MOUNTED`. -/
def errNotMounted : ℤ := -10000

variable {τ β : Type} (rd : Reader τ) (cfg : SpiffsConfig)

/-- The flash is read, and something else is left alone. -/
def Reader.beside (rd : Reader τ) : Reader (τ × β) := fun s op addr len =>
  (rd s.1 op addr len).map fun r => (r.1, (r.2, s.2))

/-- The header is that of an index header that is not deleted. -/
def IsIndexHeader (ph : PageHeader) : Prop :=
  ph.spanIx = 0 ∧
    ph.flags &&& (PageHeader.flagDelet ||| PageHeader.flagFinal ||| PageHeader.flagIxdele) =
      PageHeader.flagDelet ||| PageHeader.flagIxdele

instance (ph : PageHeader) : Decidable (IsIndexHeader ph) := inferInstanceAs (Decidable (_ ∧ _))

/-- `spiffs_read_dir_v`. There is none if the name does not end. -/
def readDirV : Visitor (τ × SpiffsDirent) := fun (fs, e) objId bix ixEntry =>
  if objId = objIdFree ∨ objId = objIdDeleted ∨ objId &&& objIdIxFlag = 0 then
    some (visContinue, fs, e)
  else do
    let pix := cfg.objLookupEntryToPix bix ixEntry
    let ((res, buf), fs) ← rd fs (opTObjLu2 ||| opCRead)
        (cfg.pageToPaddr pix) objectIxHeaderSize
    if res ≠ spiffsOk then return (res, fs, e)
    let objixHdr ← ObjectIxHeader.ofBytes buf
    if objId &&& objIdIxFlag ≠ 0 ∧ IsIndexHeader objixHdr.pHdr then
      if 0 ∈ objixHdr.name then
        let size := objixHdr.size.toNat
        some (spiffsOk, fs, ⟨objId, cstr objixHdr.name, objixHdr.type,
          if size = SpiffsObject.undefinedLen then 0 else size, pix⟩)
      else none
    else return (visContinue, fs, e)

/-- `SPIFFS_opendir`, of a file system that is mounted. -/
def opendir (fs : τ) (errCode : ℤ) (dirent : SpiffsDirent) : SpiffsDir τ :=
  ⟨fs, true, errCode, 0, 0, dirent⟩

/-- **`SPIFFS_readdir`**: there is a next file, or a null pointer. -/
def readdir (d : SpiffsDir τ) : Fueled (Option (Bool × SpiffsDir τ)) :=
  if d.mounted = false then pure (some (false, { d with errCode := errNotMounted }))
  else do
    let found ← findEntryVisitor rd.beside cfg ⟨false, false, true⟩ 0 (some (readDirV rd cfg))
      d.block d.entry (d.fs, d.dirent)
    return found.map fun (res, s) =>
      let d := { d with fs := s.fs.1, dirent := s.fs.2 }
      if res = spiffsOk then (true, { d with block := s.blockIx, entry := s.luEntry + 1 })
      else (false, { d with errCode := res })

/-- A turn of the loop of `SPIFFSDirImpl::next`. -/
def nextTurn (s : SpiffsDirImpl τ) : Fueled (SpiffsDirImpl τ ⊕ Option (SpiffsDirImpl τ)) := do
  let result ← readdir rd cfg s.dir
  match result with
  | none => return .inr none
  | some (found, dir) =>
    let s := { s with dir := dir, valid := found }
    if s.valid ∧ strncmpEq dir.dirent.name s.pattern s.pattern.length = false then return .inl s
    else return .inr (some s)

/-- **`SPIFFSDirImpl::next`**, with the result in `_valid`. -/
def next (s : SpiffsDirImpl τ) : Fueled (Option (SpiffsDirImpl τ)) :=
  Fueled.loop (nextTurn rd cfg) s

/-- So many calls of it, each with the file that it has found. -/
def nexts : ℕ → SpiffsDirImpl τ → Fueled (Option (List (Option SpiffsDirent) × SpiffsDirImpl τ))
  | 0, s => pure (some ([], s))
  | n + 1, s => do
    match ← next rd cfg s with
    | none => pure none
    | some s => do
      let rest ← nexts n s
      pure (rest.map fun r => ((if s.valid then some s.dir.dirent else none) :: r.1, r.2))

/-! ## Going on -/

variable {rd cfg} {α : Type} {flash : ByteMem} {I : ℕ → τ → α → Prop} {a : α}
variable {accept : ℕ × ℕ → Bool} {b e k : ℕ}

/-- An entry that is passed over: the last one of a block, behind one that is accepted. -/
def Passed (cfg : SpiffsConfig) (accept : ℕ × ℕ → Bool) (x : ℕ × ℕ) : Prop :=
  x.2 + 1 = cfg.objLookupMaxEntries ∧ accept (x.1, x.2 - 1) = true

instance (x : ℕ × ℕ) : Decidable (Passed cfg accept x) := inferInstanceAs (Decidable (_ ∧ _))

/-- The entries that are accepted and not passed over. -/
def listed (cfg : SpiffsConfig) (accept : ℕ × ℕ → Bool) (l : List (ℕ × ℕ)) : List (ℕ × ℕ) :=
  l.filter fun x => accept x && !decide (Passed cfg accept x)

theorem listed_cons_of_false {x : ℕ × ℕ} (hx : accept x = false) (l : List (ℕ × ℕ)) :
    listed cfg accept (x :: l) = listed cfg accept l :=
  List.filter_cons_of_neg (by rw [hx]; simp)

theorem listed_cons_of_passed {x : ℕ × ℕ} (hx : Passed cfg accept x) (l : List (ℕ × ℕ)) :
    listed cfg accept (x :: l) = listed cfg accept l :=
  List.filter_cons_of_neg (by rw [decide_eq_true hx]; simp)

theorem listed_cons_of_true {x : ℕ × ℕ} (hx : accept x = true) (hnot : ¬ Passed cfg accept x)
    (l : List (ℕ × ℕ)) : listed cfg accept (x :: l) = x :: listed cfg accept l :=
  List.filter_cons_of_pos (by rw [hx, decide_eq_false hnot]; rfl)

/-- **What is listed is found**: the first of the entries, and the others from behind it on. -/
def Resumes (cfg : SpiffsConfig) (accept : ℕ × ℕ → Bool) (l : List (ℕ × ℕ)) : Prop :=
  match l.find? accept with
  | none => listed cfg accept l = []
  | some x => listed cfg accept l = x :: listed cfg accept (visited cfg true x.1 (x.2 + 1))

/-- The rest of a block, from an entry that is not passed over. -/
theorem resumes_segment
    (htail : Resumes cfg accept (walkOn cfg (cfg.blockCount - (b + 1)) (b + 1)))
    (hnot : ¬ Passed cfg accept (b, e)) :
    Resumes cfg accept (segment b e cfg.objLookupMaxEntries ++
      walkOn cfg (cfg.blockCount - (b + 1)) (b + 1)) := by
  induction hn : cfg.objLookupMaxEntries - e generalizing e with
  | zero =>
    rw [segment_of_le (by omega), List.nil_append]
    exact htail
  | succ n ih =>
    rw [segment_of_lt (by omega), List.cons_append]
    unfold Resumes
    cases haccept : accept (b, e) with
    | true =>
      rw [List.find?_cons_of_pos haccept, listed_cons_of_true haccept hnot]
      refine congrArg _ ?_
      unfold visited
      by_cases hlast : cfg.objLookupMaxEntries ≤ e + 1 + 1
      · rw [if_pos hlast, if_pos rfl]
        by_cases hend : e + 1 = cfg.objLookupMaxEntries
        · rw [segment_of_le (by omega), List.nil_append]
        · -- The last entry of the block is the next one.
          rw [segment_of_lt (by omega), segment_of_le (by omega)]
          exact listed_cons_of_passed ⟨by dsimp only; omega, haccept⟩ _
      · rw [if_neg hlast, if_pos rfl]
    | false =>
      rw [List.find?_cons_of_neg (by rw [haccept]; simp), listed_cons_of_false haccept]
      refine ih (fun hpassed => ?_) (by omega)
      have htrue : accept (b, e) = true := hpassed.2
      rw [haccept] at htrue
      cases htrue

theorem resumes_walkOn (hM : 2 ≤ cfg.objLookupMaxEntries) (hk : b + k = cfg.blockCount) :
    Resumes cfg accept (walkOn cfg k b) := by
  induction k generalizing b with
  | zero => exact rfl
  | succ k ih =>
    rw [walkOn, show k = cfg.blockCount - (b + 1) by omega]
    refine resumes_segment ?_ fun hpassed => ?_
    · rw [← show k = cfg.blockCount - (b + 1) by omega]
      exact ih (by omega)
    · have hfirst : 0 + 1 = cfg.objLookupMaxEntries := hpassed.1
      omega

/-- **The entries of every start resume.** -/
theorem resumes_visited (hM : 2 ≤ cfg.objLookupMaxEntries) (hb : b < cfg.blockCount) :
    Resumes cfg accept (visited cfg true b e) := by
  have htail : Resumes cfg accept (walkOn cfg (cfg.blockCount - (b + 1)) (b + 1)) :=
    resumes_walkOn hM (by omega)
  unfold visited
  by_cases hlast : cfg.objLookupMaxEntries ≤ e + 1
  · rw [if_pos hlast, if_pos rfl]
    exact htail
  · rw [if_neg hlast, if_pos rfl]
    refine resumes_segment htail fun hpassed => ?_
    have hend : e + 1 = cfg.objLookupMaxEntries := hpassed.1
    omega

theorem mem_visited_noWrap (hb : b < cfg.blockCount) {x : ℕ × ℕ}
    (hx : x ∈ visited cfg true b e) :
    x.1 < cfg.blockCount ∧ x.2 < cfg.objLookupMaxEntries := by
  unfold visited at hx
  by_cases hlast : cfg.objLookupMaxEntries ≤ e + 1
  · rw [if_pos hlast, if_pos rfl, mem_walkOn] at hx
    omega
  · rw [if_neg hlast, if_pos rfl, List.mem_append, mem_segment, mem_walkOn] at hx
    omega

/-! ## The files -/

/-- **An entry of a file**: that of its index header. -/
def IsFile (cfg : SpiffsConfig) (flash : ByteMem) (x : ℕ × ℕ) : Prop :=
  cfg.idOf flash x.1 x.2 ≠ objIdFree ∧ cfg.idOf flash x.1 x.2 &&& objIdIxFlag ≠ 0 ∧
    IsIndexHeader (cfg.headerOf flash (cfg.objLookupEntryToPix x.1 x.2))

instance (cfg : SpiffsConfig) (flash : ByteMem) (x : ℕ × ℕ) : Decidable (IsFile cfg flash x) :=
  inferInstanceAs (Decidable (_ ∧ _))

/-- What is looked at of an entry and of the header of its page. -/
theorem isFile_iff : IsFile cfg flash (b, e) ↔
    ¬ (cfg.idOf flash b e = objIdFree ∨ cfg.idOf flash b e = objIdDeleted ∨
        cfg.idOf flash b e &&& objIdIxFlag = 0) ∧
      IsIndexHeader (cfg.headerOf flash (cfg.objLookupEntryToPix b e)) := by
  unfold IsFile
  dsimp only
  constructor
  · rintro ⟨hfree, hix, hheader⟩
    refine ⟨?_, hheader⟩
    rintro (hid | hid | hid)
    · exact hfree hid
    · rw [hid] at hix
      exact hix rfl
    · exact hix hid
  · rintro ⟨hid, hheader⟩
    exact ⟨fun h => hid (Or.inl h), fun h => hid (Or.inr (Or.inr h)), hheader⟩

/-- The bytes of the name in an index header. -/
def nameOf (cfg : SpiffsConfig) (flash : ByteMem) (pix : ℕ) : List UInt8 :=
  flash.slice (cfg.pageToPaddr pix + 13) ObjectIxHeader.objNameLen

/-- What `SPIFFS_readdir` says of a file. -/
def direntOf (cfg : SpiffsConfig) (flash : ByteMem) (x : ℕ × ℕ) : SpiffsDirent :=
  let pix := cfg.objLookupEntryToPix x.1 x.2
  let size := (flash.long (cfg.pageToPaddr pix + 8)).toNat
  { objId := cfg.idOf flash x.1 x.2
    name := cstr (nameOf cfg flash pix)
    type := flash (cfg.pageToPaddr pix + 12)
    size := if size = SpiffsObject.undefinedLen then 0 else size
    pix := pix }

/-- **The names of the files end.** -/
def HasNames (cfg : SpiffsConfig) (flash : ByteMem) : Prop :=
  ∀ b < cfg.blockCount, ∀ e < cfg.objLookupMaxEntries, IsFile cfg flash (b, e) →
    0 ∈ nameOf cfg flash (cfg.objLookupEntryToPix b e)

instance (cfg : SpiffsConfig) (flash : ByteMem) : Decidable (HasNames cfg flash) :=
  inferInstanceAs (Decidable (∀ b < _, ∀ e < _, _))

/-- What `spiffs_read_dir_v` makes of an entry. -/
def seeFile (cfg : SpiffsConfig) (flash : ByteMem) (d : SpiffsDirent) (_ : UInt16) (b e : ℕ) :
    ℤ × SpiffsDirent :=
  if IsFile cfg flash (b, e) then (spiffsOk, direntOf cfg flash (b, e)) else (visContinue, d)

/-- **The headers of pages are read**, each after less entries than are in a lookup page. -/
def Peeks (rd : Reader τ) (cfg : SpiffsConfig) (flash : ByteMem) (I : ℕ → τ → α → Prop) :
    Prop :=
  ∀ k < cfg.entriesPerPage, ∀ t a addr len, I k t a → 4 ∣ addr → cfg.InPage addr len →
    ∃ t', rd t (opTObjLu2 ||| opCRead) addr len = some ((spiffsOk, flash.slice addr len), t') ∧
      I (k + 1) t' a

/-- The header behind an entry is one. -/
theorem Peeks.exists_header (hpeeks : Peeks rd cfg flash I) (hcfg : cfg.HasObjects)
    (hk : k < cfg.entriesPerPage) {t : τ} (hI : I k t a) (hb : b < cfg.blockCount)
    (he : e < cfg.objLookupMaxEntries) :
    ∃ t', rd t (opTObjLu2 ||| opCRead) (cfg.pageToPaddr (cfg.objLookupEntryToPix b e))
        objectIxHeaderSize =
      some ((spiffsOk, flash.slice (cfg.pageToPaddr (cfg.objLookupEntryToPix b e))
        objectIxHeaderSize), t') ∧ I (k + 1) t' a := by
  have hpage := hcfg.2
  have hlt := ((SpiffsConfig.hasBlock_of_lt hb).entryForPage he).1
  have hin := SpiffsConfig.inPage_of_lt (k := 0) (n := objectIxHeaderSize) hlt cfg.page_pos
    (by omega)
  rw [Nat.add_zero] at hin
  exact hpeeks k hk _ _ _ _ hI (cfg.four_dvd_pageToPaddr _) hin

theorem visits_readDirV (hload : Loads rd cfg flash I) (hpeeks : Peeks rd cfg flash I)
    (hcfg : cfg.HasObjects) (hnames : HasNames cfg flash) (objId : UInt16) (a : α) :
    Visits (some (readDirV rd cfg)) cfg flash ⟨false, false, true⟩ objId
      (fun k t d => I k t.1 a ∧ t.2 = d) (seeFile cfg flash) := by
  rintro k hk ⟨t, d⟩ d' b e ⟨hI, rfl⟩ hb he
  obtain ⟨t', ht, hI'⟩ := hpeeks.exists_header hcfg hk hI hb he
  have hskip := hload.mono (Nat.le_succ k) hI
  have hvisited : visitedId cfg flash ⟨false, false, true⟩ objId b e = cfg.idOf flash b e := rfl
  rw [hvisited]
  unfold readDirV seeFile
  dsimp only
  by_cases hid : cfg.idOf flash b e = objIdFree ∨ cfg.idOf flash b e = objIdDeleted ∨
      cfg.idOf flash b e &&& objIdIxFlag = 0
  · rw [if_pos hid, if_neg fun hfile => (isFile_iff.mp hfile).1 hid]
    exact ⟨_, rfl, hskip, rfl⟩
  · have hix : cfg.idOf flash b e &&& objIdIxFlag ≠ 0 := fun h => hid (Or.inr (Or.inr h))
    rw [if_neg hid, ht, Option.bind_eq_bind, Option.bind_some]
    dsimp only
    rw [if_neg (by simp), objectIxHeader_ofBytes_slice, Option.bind_eq_bind, Option.bind_some]
    dsimp only
    by_cases hheader : IsIndexHeader (cfg.headerOf flash (cfg.objLookupEntryToPix b e))
    · have hfile : IsFile cfg flash (b, e) := isFile_iff.mpr ⟨hid, hheader⟩
      have hname : 0 ∈ flash.slice (cfg.pageToPaddr (cfg.objLookupEntryToPix b e) + 13)
        ObjectIxHeader.objNameLen := hnames b hb e he hfile
      rw [if_pos ⟨hix, hheader⟩, if_pos hname, if_pos hfile]
      exact ⟨_, rfl, hI', rfl⟩
    · rw [if_neg fun h => hheader h.2, if_neg fun hfile => hheader hfile.2.2]
      exact ⟨_, rfl, hI', rfl⟩

/-- **The next file** is the first one of the entries that are left. -/
theorem exists_readdir (hload : Loads rd cfg flash I) (hpeeks : Peeks rd cfg flash I)
    (hcfg : cfg.HasObjects) (hM : 2 ≤ cfg.objLookupMaxEntries) (hnames : HasNames cfg flash)
    {d : SpiffsDir τ} (hI : I cfg.entriesPerPage d.fs a) (hmounted : d.mounted = true)
    (hb : d.block < cfg.blockCount) :
    ∃ d', I cfg.entriesPerPage d'.fs a ∧ d'.mounted = true ∧ d'.block < cfg.blockCount ∧
      match listed cfg (IsFile cfg flash ·) (visited cfg true d.block d.entry) with
      | [] => (readdir rd cfg d).Yields (some (false, d')) ∧
        listed cfg (IsFile cfg flash ·) (visited cfg true d'.block d'.entry) = []
      | x :: l => (readdir rd cfg d).Yields (some (true, d')) ∧
          d'.dirent = direntOf cfg flash x ∧
        listed cfg (IsFile cfg flash ·) (visited cfg true d'.block d'.entry) = l := by
  have hbeside : Loads rd.beside cfg flash
      (fun k (t : τ × SpiffsDirent) d => I k t.1 a ∧ t.2 = d) := by
    refine ⟨fun hle h => ⟨hload.mono hle h.1, h.2⟩, ?_⟩
    rintro ⟨t, e⟩ e' addr len ⟨hI, rfl⟩ hin
    obtain ⟨t', ht, hI'⟩ := hload.load t a addr len hI hin
    exact ⟨(t', e), by rw [Reader.beside, ht]; rfl, hI', rfl⟩
  obtain ⟨⟨res, s⟩, hyields, hend⟩ := ends_findEntryVisitor (e := d.entry) hbeside
    (visits_readDirV hload hpeeks hcfg hnames 0 a) hcfg.1
    (show I cfg.entriesPerPage (d.fs, d.dirent).1 a ∧ (d.fs, d.dirent).2 = d.dirent from
      ⟨hI, rfl⟩) hb
  have hvisit : visit cfg flash ⟨false, false, true⟩ 0 (seeFile cfg flash)
      (visited cfg true d.block d.entry) d.dirent =
      ((visited cfg true d.block d.entry).find? (IsFile cfg flash ·)).elim (none, d.dirent)
        fun x => (some (spiffsOk, x), direntOf cfg flash x) := by
    refine visit_eq_find? (f := fun x _ => direntOf cfg flash x) fun x _ d => ?_
    unfold visitOne seeFile
    rw [if_pos (Or.inl rfl)]
    by_cases hfile : IsFile cfg flash x
    · rw [if_pos hfile, if_pos (decide_eq_true hfile)]
      rfl
    · rw [if_neg hfile, if_neg fun h => hfile (of_decide_eq_true h)]
      rfl
  have hresumes : Resumes cfg (IsFile cfg flash ·) (visited cfg true d.block d.entry) :=
    resumes_visited hM hb
  rw [hvisit] at hend
  unfold Resumes at hresumes
  unfold readdir
  rw [if_neg (by rw [hmounted]; simp)]
  cases hfound : (visited cfg true d.block d.entry).find? (IsFile cfg flash ·) with
  | none =>
    rw [hfound] at hend hresumes
    obtain ⟨⟨hI', -⟩, hres⟩ := hend
    have hres : res = visEnd := hres
    refine ⟨{ d with fs := s.fs.1, dirent := s.fs.2, errCode := visEnd }, hI', hmounted, hb, ?_⟩
    dsimp only at hresumes
    rw [hresumes]
    refine ⟨hyields.bind ?_, rfl⟩
    rw [hres]
    exact Fueled.yields_pure _
  | some x =>
    rw [hfound] at hend hresumes
    obtain ⟨⟨hI', hdirent⟩, hres, hblock, hentry⟩ := hend
    have hmem := mem_visited_noWrap hb (List.mem_of_find?_eq_some hfound)
    dsimp only at hres hblock hentry hresumes
    refine ⟨{ d with
      fs := s.fs.1, dirent := s.fs.2, block := s.blockIx, entry := s.luEntry + 1 }, hI',
      hmounted, by rw [hblock]; exact hmem.1, ?_⟩
    rw [hresumes]
    refine ⟨hyields.bind ?_, hdirent, by rw [hblock, hentry]⟩
    rw [hres]
    exact Fueled.yields_pure _

/-- **A directory that has these files left.** -/
structure HasLeft (I : τ → α → Prop) (a : α) (cfg : SpiffsConfig) (flash : ByteMem)
    (d : SpiffsDir τ) (l : List (ℕ × ℕ)) : Prop where
  inv : I d.fs a
  mounted : d.mounted = true
  block : d.block < cfg.blockCount
  left : listed cfg (IsFile cfg flash ·) (visited cfg true d.block d.entry) = l

/-- The name of a file starts with the pattern. -/
def Matches (cfg : SpiffsConfig) (flash : ByteMem) (pattern : List UInt8) (x : ℕ × ℕ) : Bool :=
  strncmpEq (direntOf cfg flash x).name pattern pattern.length

variable {l : List (ℕ × ℕ)}

/-- **`next` finds the next file that matches.** -/
theorem exists_next (hload : Loads rd cfg flash I) (hpeeks : Peeks rd cfg flash I)
    (hcfg : cfg.HasObjects) (hM : 2 ≤ cfg.objLookupMaxEntries) (hnames : HasNames cfg flash)
    {s : SpiffsDirImpl τ} (hs : HasLeft (I cfg.entriesPerPage) a cfg flash s.dir l) :
    ∃ s', (next rd cfg s).Yields (some s') ∧ s'.pattern = s.pattern ∧
      match l.filter (Matches cfg flash s.pattern) with
      | [] => s'.valid = false ∧ HasLeft (I cfg.entriesPerPage) a cfg flash s'.dir []
      | x :: files => s'.valid = true ∧ s'.dir.dirent = direntOf cfg flash x ∧
        ∃ l', l'.filter (Matches cfg flash s.pattern) = files ∧
          HasLeft (I cfg.entriesPerPage) a cfg flash s'.dir l' := by
  induction l generalizing s with
  | nil =>
    obtain ⟨d, hI, hmounted, hblock, hread⟩ :=
      exists_readdir hload hpeeks hcfg hM hnames hs.inv hs.mounted hs.block
    rw [hs.left] at hread
    refine ⟨{ s with dir := d, valid := false },
      Fueled.yields_loop_leave (hread.1.bind ?_), rfl, rfl, hI, hmounted, hblock, hread.2⟩
    dsimp only
    rw [if_neg fun h => absurd h.1 (by decide)]
    exact Fueled.yields_pure _
  | cons x l ih =>
    obtain ⟨d, hI, hmounted, hblock, hread⟩ :=
      exists_readdir hload hpeeks hcfg hM hnames hs.inv hs.mounted hs.block
    rw [hs.left] at hread
    obtain ⟨hyields, hdirent, hleft⟩ := hread
    have hd : HasLeft (I cfg.entriesPerPage) a cfg flash d l := ⟨hI, hmounted, hblock, hleft⟩
    cases hmatch : Matches cfg flash s.pattern x with
    | true =>
      rw [List.filter_cons_of_pos hmatch]
      refine ⟨{ s with dir := d, valid := true },
        Fueled.yields_loop_leave (hyields.bind ?_), rfl, rfl, hdirent, l, rfl, hd⟩
      dsimp only
      rw [hdirent, if_neg fun h => absurd (hmatch.symm.trans h.2) (by decide)]
      exact Fueled.yields_pure _
    | false =>
      rw [List.filter_cons_of_neg (by rw [hmatch]; decide)]
      obtain ⟨s', hnext, hpattern, hrest⟩ := ih (s := { s with dir := d, valid := true }) hd
      refine ⟨s', Fueled.yields_loop_again (hyields.bind ?_) hnext, hpattern, hrest⟩
      dsimp only
      rw [hdirent, if_pos ⟨rfl, hmatch⟩]
      exact Fueled.yields_pure _

/-- **The files of a directory are listed in order**, those whose names start with the pattern,
and then there is none any more. -/
theorem exists_nexts (hload : Loads rd cfg flash I) (hpeeks : Peeks rd cfg flash I)
    (hcfg : cfg.HasObjects) (hM : 2 ≤ cfg.objLookupMaxEntries)
    (hnames : HasNames cfg flash) (n : ℕ)
    {s : SpiffsDirImpl τ} (hs : HasLeft (I cfg.entriesPerPage) a cfg flash s.dir l) :
    ∃ s', (nexts rd cfg n s).Yields (some ((List.range n).map fun i =>
        (l.filter (Matches cfg flash s.pattern))[i]?.map (direntOf cfg flash), s')) ∧
      I cfg.entriesPerPage s'.dir.fs a := by
  induction n generalizing s l with
  | zero => exact ⟨s, Fueled.yields_pure _, hs.inv⟩
  | succ n ih =>
    obtain ⟨s₁, hyields, hpattern, hnext⟩ := exists_next hload hpeeks hcfg hM hnames hs
    rw [← hpattern] at hnext ⊢
    rw [List.range_succ_eq_map, List.map_cons, List.map_map]
    cases hfiles : l.filter (Matches cfg flash s₁.pattern) with
    | nil =>
      rw [hfiles] at hnext
      obtain ⟨hvalid, hleft⟩ := hnext
      obtain ⟨s₂, hrest, hI⟩ := ih hleft
      refine ⟨s₂, hyields.bind (hrest.bind ?_), hI⟩
      rw [hvalid]
      exact Fueled.yields_pure _
    | cons x files =>
      rw [hfiles] at hnext
      obtain ⟨hvalid, hdirent, l', rfl, hleft⟩ := hnext
      obtain ⟨s₂, hrest, hI⟩ := ih hleft
      refine ⟨s₂, hyields.bind (hrest.bind ?_), hI⟩
      rw [hvalid, hdirent]
      exact Fueled.yields_pure _

/-- All entries, in order. -/
def allEntries (cfg : SpiffsConfig) : List (ℕ × ℕ) :=
  (List.range cfg.blockCount).flatMap fun b => (List.range cfg.objLookupMaxEntries).map (b, ·)

theorem walkOn_eq (cfg : SpiffsConfig) (k b : ℕ) :
    walkOn cfg k b =
      (List.range' b k).flatMap fun b => (List.range cfg.objLookupMaxEntries).map (b, ·) := by
  induction k generalizing b with
  | zero => rfl
  | succ k ih =>
    rw [walkOn, ih, List.range'_succ, List.flatMap_cons, segment, List.range_eq_range',
      Nat.sub_zero]

/-- **The files are listed**, whatever reads the flash. -/
theorem exists_nexts_opendir (hload : Loads rd cfg flash I) (hpeeks : Peeks rd cfg flash I)
    (hcfg : cfg.HasObjects) (hM : 2 ≤ cfg.objLookupMaxEntries) (hnames : HasNames cfg flash)
    {fs : τ} (hI : I cfg.entriesPerPage fs a) (hblocks : 0 < cfg.blockCount)
    (pattern : List UInt8)
    (errCode : ℤ) (dirent : SpiffsDirent) (n : ℕ) :
    ∃ s, (nexts rd cfg n ⟨pattern, opendir fs errCode dirent, false⟩).Yields
        (some ((List.range n).map fun i => ((allEntries cfg).filter fun x =>
          IsFile cfg flash x ∧ ¬ Passed cfg (IsFile cfg flash ·) x ∧
            Matches cfg flash pattern x)[i]?.map (direntOf cfg flash), s)) ∧
      I cfg.entriesPerPage s.dir.fs a := by
  have hall : visited cfg true 0 0 = allEntries cfg := by
    obtain ⟨k, hk⟩ : ∃ k, cfg.blockCount = k + 1 := ⟨cfg.blockCount - 1, by omega⟩
    have hwalk := walkOn_eq cfg cfg.blockCount 0
    rw [← List.range_eq_range'] at hwalk
    rw [visited, if_neg (by omega), if_pos rfl, allEntries, ← hwalk, hk]
    rfl
  obtain ⟨s, hyields, hI'⟩ := exists_nexts hload hpeeks hcfg hM hnames n
    (s := ⟨pattern, opendir fs errCode dirent, false⟩) ⟨hI, rfl, hblocks, rfl⟩
  refine ⟨s, ?_, hI'⟩
  have hfiles : (listed cfg (IsFile cfg flash ·) (visited cfg true 0 0)).filter
      (Matches cfg flash pattern) = (allEntries cfg).filter fun x =>
        IsFile cfg flash x ∧ ¬ Passed cfg (IsFile cfg flash ·) x ∧
          Matches cfg flash pattern x := by
    rw [hall, listed, List.filter_filter]
    refine List.filter_congr fun x _ => ?_
    by_cases hfile : IsFile cfg flash x <;> by_cases hpassed :
      Passed cfg (IsFile cfg flash ·) x <;>
      simp [hfile, hpassed]
  rw [← hfiles]
  exact hyields

/-! ## Through the cache -/

/-- A lookup page gets a copy, which leaves room for the headers of its entries and another
one. -/
theorem loads_cached {hal : SpiffsFlash} (hhal : hal.Sound) (cfg : SpiffsConfig)
    (flash : ByteMem) :
    Loads (physRd hal cfg) cfg flash
      fun k s (_ : α) => ReadyFor cfg flash (cfg.entriesPerPage - k) s where
  mono hle h := h.of_le (Nat.sub_le_sub_left hle _)
  load s _ addr len h hin := by
    have hpage := cfg.page_le
    have htwo := cfg.two_mul_entriesPerPage
    exact h.exists_physRd hhal (by decide) hin (by omega)

/-- The headers go past the cache. -/
theorem peeks_cached {hal : SpiffsFlash} (hhal : hal.Sound) (cfg : SpiffsConfig)
    (flash : ByteMem) :
    Peeks (physRd hal cfg) cfg flash
      fun k s (_ : α) => ReadyFor cfg flash (cfg.entriesPerPage - k) s := by
  intro k hk s _ addr len h hfour hin
  have hpage := cfg.page_le
  have htwo := cfg.two_mul_entriesPerPage
  have hnext : cfg.entriesPerPage - k = cfg.entriesPerPage - (k + 1) + 1 := by omega
  rw [hnext] at h
  exact h.exists_physRd_past hhal (by decide) hfour hin (by omega)

/-- **What a program sees of a directory.** Over the functions of this system, from any state of
the cache with room for a copy, the calls of `next` find the files whose names start with the
pattern, in the order of their entries, but for those in the last entry of a block behind
another file; and then there is none any more. Nothing is written. -/
theorem nexts_opendir {sdkRead : SpiFlashRead} {sdkWrite : SpiFlashWrite}
    {sdkErase : SpiFlashEraseSector} (hread : sdkRead.Copies) (hwrite : sdkWrite.Clears)
    (herase : sdkErase.Erases) (readers writers : SpiffsCallers) {cfg : SpiffsConfig}
    (hcfg : cfg.HasObjects) (hM : 2 ≤ cfg.objLookupMaxEntries) (hblocks : 0 < cfg.blockCount)
    {flash : ByteMem} (hnames : HasNames cfg flash) {fs : SpiffsCache}
    (hready : Ready cfg flash fs) (pattern : List UInt8) (errCode : ℤ) (dirent : SpiffsDirent)
    (n : ℕ) :
    ∃ s, (nexts (physRd (spiffsHal sdkRead sdkWrite sdkErase readers writers) cfg) cfg n
        ⟨pattern, opendir fs errCode dirent, false⟩).Yields
        (some ((List.range n).map fun i => ((allEntries cfg).filter fun x =>
          IsFile cfg flash x ∧ ¬ Passed cfg (IsFile cfg flash ·) x ∧
            Matches cfg flash pattern x)[i]?.map (direntOf cfg flash), s)) ∧
      Ready cfg flash s.dir.fs := by
  have hhal := sound_spiffsHal hread hwrite herase readers writers
  have hI : ReadyFor cfg flash (cfg.entriesPerPage - cfg.entriesPerPage) fs := by
    rw [Nat.sub_self]
    exact hready.readyFor
  obtain ⟨s, hyields, hI'⟩ := exists_nexts_opendir (a := ()) (loads_cached hhal cfg flash)
    (peeks_cached hhal cfg flash) hcfg hM hnames hI hblocks pattern errCode dirent n
  exact ⟨s, hyields, hI'.ready⟩

/-- Three files, at the end of a block and behind it. -/
def flashOfFiles : ByteMem :=
  ((ByteMem.storePage (fun _ => 0xFF) .paged 0 60 ⟨0x8001, 0, 0xF8⟩
    ([0xFF, 0xFF, 0xFF, 0, 1, 0, 0, 1, 0x2F, 0x61] ++ List.replicate 31 0)).storePage .paged
      0 61 ⟨0x8002, 0, 0xF8⟩ ([0xFF, 0xFF, 0xFF, 0, 2, 0, 0, 1, 0x2F, 0x62] ++
        List.replicate 31 0)).storePage .paged
      1 0 ⟨0x8003, 0, 0xF8⟩ ([0xFF, 0xFF, 0xFF, 0xFF, 0xFF, 0xFF, 0xFF, 1, 0x2F, 0x63] ++
        List.replicate 31 0)

/-- The second one is passed over. -/
theorem nexts_opendir_flashOfFiles :
    ∃ s, (nexts (physRd documentedHal .paged) .paged 3
        ⟨[0x2F], opendir (SpiffsCache.init .paged 2 flashOfFiles 0 1) 0 ⟨0, [], 0, 0, 0⟩,
          false⟩).Yields
      (some ([some ⟨0x8001, [0x2F, 0x61], 1, 256, 62⟩,
        some ⟨0x8003, [0x2F, 0x63], 1, 0, 66⟩, none], s)) := by
  obtain ⟨s, hyields, -⟩ := nexts_opendir SpiffsHal.copies_copyingFlash
    SpiffsHal.clears_clearingFlash erases_erasingFlash (callersAt 100) (callersAt 200)
    ⟨SpiffsConfig.hasEntries_paged, by decide⟩ (by decide) (by decide)
    (show HasNames .paged flashOfFiles by decide)
    ⟨SpiffsCache.coherent_init .paged 2 flashOfFiles 0 1, rfl, by decide⟩ [0x2F] 0
    ⟨0, [], 0, 0, 0⟩ 3
  have hlisted : (List.range 3).map (fun i => ((allEntries .paged).filter fun x =>
      IsFile .paged flashOfFiles x ∧ ¬ Passed .paged (IsFile .paged flashOfFiles ·) x ∧
        Matches .paged flashOfFiles [0x2F] x)[i]?.map (direntOf .paged flashOfFiles)) =
      [some ⟨0x8001, [0x2F, 0x61], 1, 256, 62⟩, some ⟨0x8003, [0x2F, 0x63], 1, 0, 66⟩,
      none] := by
    decide
  rw [hlisted] at hyields
  exact ⟨s, hyields⟩

end SpiffsLookup
