import Esp31b.SpiffsReaddir

/-!
# Files are opened by their names

`SPIFFS_open` looks for the index header with the name, from where the last lookup ended and
round all blocks, and opens its page. So a file is opened if its name is there, and its only one
(`SpiffsLookup.exists_spiffsOpen`). The headers go past the cache, as they do when a directory
is listed.
-/

/-- `strcmp` finds no difference between a path and a name. There is no answer if it goes past
the name. -/
def strcmpEq (path name : List UInt8) : Option Bool :=
  if 0 ∈ name then some (cstr path == cstr name)
  else if name.isPrefixOf (cstr path) then none
  else some false

namespace SpiffsLookup

open SpiffsCache (opTObjLu2 spiffsOk objIdIxFlag)
open SpiffsConfig (objectIxHeaderSize)

variable {τ : Type} (rd : Reader τ) (cfg : SpiffsConfig)

/-- `spiffs_object_find_object_index_header_by_name_v`. -/
def findObjectIndexHeaderByNameV (path : List UInt8) : Visitor τ := fun fs objId bix ixEntry =>
  if objId = objIdFree ∨ objId = objIdDeleted ∨ objId &&& objIdIxFlag = 0 then
    some (visContinue, fs)
  else do
    let ((res, buf), fs) ← rd fs (opTObjLu2 ||| opCRead)
      (cfg.pageToPaddr (cfg.objLookupEntryToPix bix ixEntry)) objectIxHeaderSize
    if res < spiffsOk then return (res, fs)
    let objixHdr ← ObjectIxHeader.ofBytes buf
    if IsIndexHeader objixHdr.pHdr then
      let same ← strcmpEq path objixHdr.name
      return (if same then spiffsOk else visContinue, fs)
    else return (visContinue, fs)

/-- **`spiffs_object_find_object_index_header_by_name`**: the result, and `*pix`. -/
def findObjectIndexHeaderByName (fs : Fs τ) (path : List UInt8) :
    Fueled (Option ((ℤ × ℕ) × Fs τ)) := do
  let found ← findEntryVisitor rd cfg ⟨false, false, false⟩ 0
    (some (findObjectIndexHeaderByNameV rd cfg path)) fs.cursorBlockIx
    fs.cursorObjLuEntry fs.device
  return found.map fun (res, s) =>
    let res := if res = visEnd then errNotFound else res
    if res < spiffsOk then ((res, 0), { fs with device := s.fs })
    else ((res, cfg.objLookupEntryToPix s.blockIx s.luEntry), ⟨s.fs, s.blockIx, s.luEntry⟩)

/-- **`SPIFFS_open`** without `SPIFFS_CREAT` and `SPIFFS_TRUNC`: the result, and the descriptor
that was found for it. -/
def spiffsOpen (fs : Fs τ) (path : List UInt8) (fd : ObjectFd) (flags : UInt16) :
    Fueled (Option ((ℤ × ObjectFd) × Fs τ)) := do
  let found ← findObjectIndexHeaderByName rd cfg fs path
  return do
    let ((res, pix), fs) ← found
    if res < spiffsOk then return ((res, fd), fs)
    let (opened, device) ← openByPage rd cfg fs.device pix fd flags
    return (opened, { fs with device := device })

/-! ## The file with a name -/

variable {rd cfg} {α : Type} {flash : ByteMem} {I : ℕ → τ → α → Prop} {a : α}
  {ops : UInt8 → Prop}
variable {path content : List UInt8} {objId : UInt16}

/-- **An entry of a file with this name.** -/
def IsNamed (cfg : SpiffsConfig) (flash : ByteMem) (path : List UInt8) (x : ℕ × ℕ) : Prop :=
  IsFile cfg flash x ∧ cstr path = cstr (nameOf cfg flash (cfg.objLookupEntryToPix x.1 x.2))

instance (cfg : SpiffsConfig) (flash : ByteMem) (x : ℕ × ℕ) :
    Decidable (IsNamed cfg flash path x) := inferInstanceAs (Decidable (_ ∧ _))

/-- **The object has the name**, and no other one has it. -/
structure HasPath (cfg : SpiffsConfig) (flash : ByteMem) (path : List UInt8) (objId : UInt16) :
    Prop where
  found : ∃ b < cfg.blockCount, ∃ e < cfg.objLookupMaxEntries, IsNamed cfg flash path (b, e)
  only : ∀ b < cfg.blockCount, ∀ e < cfg.objLookupMaxEntries, IsNamed cfg flash path (b, e) →
    IsIndexOf cfg flash objId 0 (b, e)

/-- What the visitor says of an entry. -/
theorem visits_findObjectIndexHeaderByNameV (hload : Loads rd cfg flash I)
    (hpeeks : Peeks rd cfg flash I) (hcfg : cfg.HasObjects) (hnames : HasNames cfg flash)
    (objId : UInt16) (path : List UInt8) :
    Visits (some (findObjectIndexHeaderByNameV rd cfg path)) cfg flash
      ⟨false, false, false⟩ objId I
      fun a _ b e => (if IsNamed cfg flash path (b, e) then spiffsOk else visContinue, a) := by
  intro k hk t a b e hI hb he
  obtain ⟨t', ht, hI'⟩ := hpeeks.exists_header hcfg hk hI hb he
  have hskip := hload.mono (Nat.le_succ k) hI
  have hvisited : visitedId cfg flash ⟨false, false, false⟩ objId b e = cfg.idOf flash b e :=
    rfl
  rw [hvisited]
  unfold findObjectIndexHeaderByNameV
  dsimp only
  by_cases hid : cfg.idOf flash b e = objIdFree ∨ cfg.idOf flash b e = objIdDeleted ∨
      cfg.idOf flash b e &&& objIdIxFlag = 0
  · rw [if_pos hid, if_neg fun h => (isFile_iff.mp h.1).1 hid]
    exact ⟨_, rfl, hskip⟩
  · rw [if_neg hid, ht, Option.bind_eq_bind, Option.bind_some]
    dsimp only
    rw [if_neg (lt_irrefl _), objectIxHeader_ofBytes_slice, Option.bind_eq_bind,
      Option.bind_some]
    dsimp only
    by_cases hheader : IsIndexHeader (cfg.headerOf flash (cfg.objLookupEntryToPix b e))
    · have hfile : IsFile cfg flash (b, e) := isFile_iff.mpr ⟨hid, hheader⟩
      have hname : 0 ∈ flash.slice (cfg.pageToPaddr (cfg.objLookupEntryToPix b e) + 13)
        ObjectIxHeader.objNameLen := hnames b hb e he hfile
      rw [if_pos hheader, strcmpEq, if_pos hname, Option.bind_eq_bind, Option.bind_some]
      refine ⟨t', congrArg some (congrArg (·, t') ?_), hI'⟩
      by_cases hsame : cstr path = cstr (nameOf cfg flash (cfg.objLookupEntryToPix b e))
      · have hnamed : IsNamed cfg flash path (b, e) := ⟨hfile, hsame⟩
        exact (if_pos (beq_iff_eq.mpr hsame)).trans (if_pos hnamed).symm
      · have hnot : ¬ IsNamed cfg flash path (b, e) := fun h => hsame h.2
        exact (if_neg fun h => hsame (beq_iff_eq.mp h)).trans (if_neg hnot).symm
    · rw [if_neg hheader, if_neg fun h => hheader h.1.2.2]
      exact ⟨_, rfl, hI'⟩

/-- **The file with a name is found**, wherever the lookup starts. -/
theorem exists_findObjectIndexHeaderByName (hload : Loads rd cfg flash I)
    (hpeeks : Peeks rd cfg flash I) (hcfg : cfg.HasObjects) (hnames : HasNames cfg flash)
    {fs : Fs τ} (hI : I cfg.entriesPerPage fs.device a)
    (hcursor : fs.cursorBlockIx < cfg.blockCount) (path : List UInt8) :
    ∃ r fs', (findObjectIndexHeaderByName rd cfg fs path).Yields (some (r, fs')) ∧
      I cfg.entriesPerPage fs'.device a ∧ fs'.cursorBlockIx < cfg.blockCount ∧
      ((∃ b < cfg.blockCount, ∃ e < cfg.objLookupMaxEntries, IsNamed cfg flash path (b, e) ∧
          r = (spiffsOk, cfg.objLookupEntryToPix b e)) ∨
        (∀ b < cfg.blockCount, ∀ e < cfg.objLookupMaxEntries, ¬ IsNamed cfg flash path (b, e)) ∧
          r = (errNotFound, 0)) := by
  obtain ⟨⟨res, s⟩, hyields, hI', hend⟩ :=
    ends_findEntryVisitor (e := fs.cursorObjLuEntry) hload
    (visits_findObjectIndexHeaderByNameV hload hpeeks hcfg hnames 0 path) hcfg.1 hI hcursor
  have hvisit : visit cfg flash ⟨false, false, false⟩ 0
      (fun (a : α) _ b e =>
      (if IsNamed cfg flash path (b, e) then spiffsOk else visContinue, a))
      (visited cfg false fs.cursorBlockIx fs.cursorObjLuEntry) a =
      ((visited cfg false fs.cursorBlockIx fs.cursorObjLuEntry).find?
        (IsNamed cfg flash path ·)).elim (none, a) fun x => (some (spiffsOk, x), a) := by
    refine visit_eq_find? (f := fun _ a => a) fun x _ a => ?_
    obtain ⟨b, e⟩ := x
    unfold visitOne
    rw [if_pos (Or.inl rfl)]
    dsimp only
    by_cases hnamed : IsNamed cfg flash path (b, e)
    · rw [if_pos hnamed, if_pos (decide_eq_true hnamed)]
      rfl
    · rw [if_neg hnamed, if_neg fun h => hnamed (of_decide_eq_true h)]
      rfl
  unfold findObjectIndexHeaderByName
  cases hfound : (visited cfg false fs.cursorBlockIx fs.cursorObjLuEntry).find?
      (IsNamed cfg flash path ·) with
  | some x =>
    rw [hvisit, hfound] at hI' hend
    obtain ⟨hres, hblock, hentry⟩ := hend
    dsimp only at hres hblock hentry
    obtain ⟨hb, he⟩ := (mem_visited hcursor).mp (List.mem_of_find?_eq_some hfound)
    have haccept := List.find?_some (p := fun y => decide (IsNamed cfg flash path y)) hfound
    have hx := of_decide_eq_true haccept
    subst hres
    refine ⟨_, _, hyields.bind (Fueled.yields_pure _), hI', ?_,
      Or.inl ⟨x.1, hb, x.2, he, hx, ?_⟩⟩
    · change s.blockIx < cfg.blockCount
      rw [hblock]
      exact hb
    · rw [hblock, hentry]
      rfl
  | none =>
    rw [hvisit, hfound] at hI' hend
    have hres : res = visEnd := hend
    subst hres
    have hnone := List.find?_eq_none.mp hfound
    exact ⟨_, _, hyields.bind (Fueled.yields_pure _), hI', hcursor, Or.inr ⟨fun b hb e he hx =>
      hnone (b, e) ((mem_visited hcursor).mpr ⟨hb, he⟩) (decide_eq_true hx), rfl⟩⟩

/-- **The file is opened by its name.** -/
theorem exists_spiffsOpen (hload : Loads rd cfg flash I) (hpeeks : Peeks rd cfg flash I)
    (hrd : Reads rd cfg flash ops (I cfg.entriesPerPage)) (hops : HasOps ops)
    (hcfg : cfg.HasObjects) (hnames : HasNames cfg flash)
    (hstores : Stores cfg flash objId content)
    (hpath : HasPath cfg flash path objId) {fs : Fs τ} (hI : I cfg.entriesPerPage fs.device a)
    (hcursor : fs.cursorBlockIx < cfg.blockCount) (fd : ObjectFd) (flags : UInt16) :
    ∃ fd' fs', (spiffsOpen rd cfg fs path fd flags).Yields (some ((spiffsOk, fd'), fs')) ∧
      I cfg.entriesPerPage fs'.device a ∧ fs'.cursorBlockIx < cfg.blockCount ∧
      IsOpen cfg flash objId content fd' := by
  obtain ⟨r, fs₁, hyields, hI₁, hcursor₁, hfound⟩ :=
    exists_findObjectIndexHeaderByName hload hpeeks hcfg hnames hI hcursor path
  rcases hfound with ⟨b, hb, e, he, hnamed, rfl⟩ | ⟨hnone, -⟩
  · obtain ⟨t, ht, hI'⟩ := exists_openByPage hrd hops hcfg hI₁ hb he fd flags
    obtain ⟨hres, hopen⟩ := hstores.openedBy (hpath.only b hb e he hnamed) flags
    refine ⟨(openedBy cfg flash b e flags).2, { fs₁ with device := t }, hyields.bind ?_, hI',
      hcursor₁, hopen⟩
    rw [Option.bind_eq_bind, Option.bind_some]
    dsimp only
    rw [if_neg (lt_irrefl _), ht, ← hres]
    exact Fueled.yields_pure _
  · obtain ⟨b, hb, e, he, hnamed⟩ := hpath.found
    exact absurd hnamed (hnone b hb e he)

end SpiffsLookup
