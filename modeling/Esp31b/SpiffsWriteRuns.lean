import Esp31b.SpiffsWriteRefines

/-!
# Files with a write cache are files

`SpiffsFiles.run_plain`: every run of calls, from the mount, is answered as plain files answer
it. The pages that the writes get do not matter, nor which descriptors an object has.

That is for calls that the cache has an answer to (`SpiffsFiles.Admissible`). Where it has none,
the source does something else:

* A descriptor with `SPIFFS_DIRECT` does not look at the page of its object, and `SPIFFS_remove`
  does not either: the page stays, for whichever object has the number next.
* `SPIFFS_read` looks at the size of the object before it gives the data of the page to it. Of
  an object that has nothing yet but a page, it reads nothing.
* With `SPIFFS_TRUNC` the page stays, too, and the descriptor has the size 0, where one of an
  empty object has none. `SPIFFS_lseek` and `SPIFFS_read` make a difference between the two.

And it is for functions for the objects that do not fail: `SPIFFS_close` leaves a file open
whose data could not be written, but the data is gone.
-/

open List (overlay)

namespace SpiffsFiles

variable {σ : Type} {o : SpiffsObjects σ} {rep : σ → (ℕ → List UInt8) → (ℕ → Option ℕ) → Prop}
variable {s t : SpiffsFiles σ} {c : ℕ → List UInt8} {fh ix x k pageSize : ℕ} {p : WrPage}
variable {q : PlainFiles} {fd : SpiffsFile} {d : List UInt8}

/-! ## Reads and seeks -/

/-- A function that leaves the objects as they are was called. -/
theorem Refines.objects (h : Refines rep pageSize s q) {objects : σ} {failed : Bool}
    (hrep : ∀ c, rep s.objects c s.opened →
      (∀ x, (∀ ix p, s.HasPage ix p → p.objId ≠ x) → c x = q.content x) →
      rep objects c s.opened) :
    Refines rep pageSize { s with objects := objects, failed := failed } q := by
  obtain ⟨c, hinv, hshows⟩ := h.inv
  have hobjects := hrep c hinv.rep fun x hno => (shows_of_no_page hno (hshows x)).symm
  exact ⟨⟨c, hinv.objects hobjects fun _ _ _ => Nat.le_refl _, hshows⟩, h.fds, h.position⟩

/-- An object without a page holds what the reader sees. -/
theorem Refines.exists_rep (h : Refines rep pageSize s q)
    (hno : ∀ ix p, s.HasPage ix p → p.objId ≠ x) :
    ∃ c, rep s.objects c s.opened ∧ c x = q.content x := by
  obtain ⟨c, hinv, hshows⟩ := h.inv
  exact ⟨c, hinv.rep, (shows_of_no_page hno (hshows x)).symm⟩

/-- What a read is given: an object whose data is all in its page is read behind it. -/
def ReadOk (o : SpiffsObjects σ) (s : SpiffsFiles σ) (fh len : ℕ) : Prop :=
  ∀ fd ∈ s.fdGet fh, fd.fdoffset + len < 2 ^ 32 ∧
    (fd.flags.direct = true → s.pageGetByFd fd.objId = none) ∧
    (o.size s.objects fh = SpiffsObject.undefinedLen → ∀ ix ∈ s.pageGetByFd fd.objId,
      ∀ p ∈ s.pages[ix]?.join, p.offset + p.size ≤ fd.fdoffset ∨ len = 0)

/-- Nothing is read where the object is empty, and its page ends in front of the position. -/
theorem Refines.drop_eq_nil (ho : o.Sound rep) (h : Refines rep pageSize s q)
    (hfd : s.fdGet fh = some fd) (hsize : o.size s.objects fh = SpiffsObject.undefinedLen)
    (hpage : ∀ ix ∈ s.pageGetByFd fd.objId, ∀ p ∈ s.pages[ix]?.join,
      p.offset + p.size ≤ fd.fdoffset) : (q.content fd.objId).drop fd.fdoffset = [] := by
  obtain ⟨c, hinv, hshows⟩ := h.inv
  have hnil : c fd.objId = [] := by
    by_contra hne
    rw [ho.size _ _ _ _ _ hinv.rep (opened_of_fdGet hfd)] at hsize
    exact (sizeField_ne (ho.length _ _ _ fd.objId hinv.rep) hne).2 hsize
  rcases pageGetByFd_cases s fd.objId with ⟨-, hno⟩ | ⟨ix, p, hp, hobj, hsome⟩
  · rw [shows_of_no_page hno (hshows fd.objId), hnil, List.drop_nil]
  · have hle := hpage ix hsome p (by
      rw [show s.pages[ix]? = some (some p) from hp]
      rfl)
    have hcontent := hinv.shows_of_page hp (hobj ▸ hshows fd.objId)
    obtain ⟨hmem, hpsize, hoffset⟩ := hinv.room ix p hp
    rw [hobj] at hcontent hoffset
    refine List.drop_eq_nil_of_le ?_
    rw [hcontent, Overlay.length_overlay _ hoffset, hnil, WrPage.data, List.length_take,
      List.length_nil]
    omega

/-- The size of an object that has no page. -/
theorem Refines.size_eq (ho : o.Sound rep) (h : Refines rep pageSize s q)
    (hfd : s.fdGet fh = some fd) (hno : ∀ ix p, s.HasPage ix p → p.objId ≠ fd.objId) :
    o.size s.objects fh = FileReader.sizeField (q.content fd.objId) ∧
      (q.content fd.objId).length < 2 ^ 31 := by
  obtain ⟨c, hrep, hcontent⟩ := h.exists_rep hno
  rw [← hcontent]
  exact ⟨ho.size _ _ _ _ _ hrep (opened_of_fdGet hfd), ho.length _ _ _ _ hrep⟩

/-- Bytes of the object are read. -/
theorem Refines.objectRead (ho : o.Sound rep) (h : Refines rep pageSize s q)
    (hfd : s.fdGet fh = some fd) (hno : ∀ ix p, s.HasPage ix p → p.objId ≠ fd.objId) {n : ℕ}
    (hle : fd.fdoffset + n ≤ (q.content fd.objId).length) (hlt : fd.fdoffset + n < 2 ^ 32)
    (hres : 0 ≤ (o.objectRead s.objects fh fd.fdoffset n).1 ∨
      (o.objectRead s.objects fh fd.fdoffset n).1 = SpiffsObject.errEndOfObject) :
    (o.objectRead s.objects fh fd.fdoffset n).2.1 =
        ((q.content fd.objId).drop fd.fdoffset).take n ∧
      Refines rep pageSize
        (SpiffsFiles.modifyFd
          { s with objects := (o.objectRead s.objects fh fd.fdoffset n).2.2 } fh
          (advance n)) (q.modifyFd fh (PlainFiles.advance n)) := by
  have hread : ∀ c, rep s.objects c s.opened → c fd.objId = q.content fd.objId →
      (o.objectRead s.objects fh fd.fdoffset n).2.1 =
        ((q.content fd.objId).drop fd.fdoffset).take n ∧
      rep (o.objectRead s.objects fh fd.fdoffset n).2.2 c s.opened := by
    intro c hrep hcontent
    rw [← hcontent] at hle ⊢
    exact ho.objectRead _ _ _ _ _ _ _ hrep (opened_of_fdGet hfd) hle hres
  obtain ⟨c, hrep, hcontent⟩ := h.exists_rep hno
  have hobjects : Refines rep pageSize
      { s with objects := (o.objectRead s.objects fh fd.fdoffset n).2.2 } q :=
    h.objects fun c' hrep' hcontents => (hread c' hrep' (hcontents fd.objId hno)).2
  exact ⟨(hread c hrep hcontent).1, hobjects.move (g := PlainFiles.advance n) hfd
    (advance_eq hlt) rfl hle⟩

/-- **A read of an object** that has no page. -/
theorem Refines.readObject (ho : o.Sound rep) (h : Refines rep pageSize s q)
    (hfd : s.fdGet fh = some fd) (hno : ∀ ix p, s.HasPage ix p → p.objId ≠ fd.objId) {len : ℕ}
    (hlt : fd.fdoffset + len < 2 ^ 32) (hzero : q.content fd.objId = [] → len = 0) :
    (readObject o s fh fd len).2.failed = true ∨
      (SpiffsFiles.readObject o s fh fd len).2.failed = s.failed ∧
      (SpiffsFiles.readObject o s fh fd len).1 = (q.readObject fh (plainFd fd) len).1 ∧
      Refines rep pageSize (SpiffsFiles.readObject o s fh fd len).2
        (q.readObject fh (plainFd fd) len).2 := by
  obtain ⟨hsize, hlen⟩ := h.size_eq ho hfd hno
  have hposition : fd.fdoffset ≤ (q.content fd.objId).length := h.position fh _ (h.fdGet hfd)
  have hread := fun n => h.objectRead ho hfd hno (n := n)
  have hpos : (plainFd fd).position = fd.fdoffset := rfl
  have hobj : (plainFd fd).objId = fd.objId := rfl
  unfold SpiffsFiles.readObject PlainFiles.readObject
  dsimp only
  rw [hsize, Nat.mod_eq_of_lt hlt, hpos, hobj]
  generalize hL : q.content fd.objId = L at hlen hposition hread hzero ⊢
  have hlenRest : ∀ n, ((L.drop fd.fdoffset).take n).length =
      min n (L.length - fd.fdoffset) := by
    intro n
    rw [List.length_take, List.length_drop]
  by_cases hend : FileReader.sizeField L ≤ fd.fdoffset + len ∧
    FileReader.sizeField L ≤ fd.fdoffset
  · -- The position is at the end of an object that is not empty.
    have hne : L ≠ [] := by
      rintro rfl
      have hbig : SpiffsObject.undefinedLen ≤ fd.fdoffset := hend.2
      rw [hzero rfl] at hlt
      rw [List.length_nil] at hposition
      unfold SpiffsObject.undefinedLen at hbig
      omega
    rw [if_pos hend]
    rw [FileReader.sizeField_of_ne hne] at hend
    rw [if_pos ⟨List.drop_eq_nil_of_le hend.2, Or.inr hne⟩]
    exact Or.inr ⟨rfl, rfl, h⟩
  · rw [if_neg hend]
    -- What is asked for, as far as there is so much.
    have hn : (if FileReader.sizeField L ≤ fd.fdoffset + len then
          FileReader.sizeField L - fd.fdoffset else len) = min len (L.length - fd.fdoffset) ∧
        ¬ (L.drop fd.fdoffset = [] ∧ (0 < len ∨ L ≠ [])) := by
      by_cases hnil : L = []
      · have hlen0 := hzero hnil
        subst hnil hlen0
        have hbig : FileReader.sizeField [] = 2 ^ 32 - 1 := rfl
        rw [List.length_nil] at hposition
        rw [hbig, if_neg (by omega)]
        exact ⟨(Nat.zero_min _).symm, fun hrest => by simp at hrest⟩
      · rw [FileReader.sizeField_of_ne hnil] at hend ⊢
        refine ⟨?_, fun hrest => ?_⟩
        · split <;> omega
        · have hle := List.drop_eq_nil_iff.mp hrest.1
          omega
    rw [hn.1, if_neg hn.2, hlenRest]
    have htake : (L.drop fd.fdoffset).take len =
        (L.drop fd.fdoffset).take (min len (L.length - fd.fdoffset)) := by
      refine List.ext_getElem? fun i => ?_
      rw [List.getElem?_take, List.getElem?_take]
      by_cases hi : i < len
      · by_cases hin : i < L.length - fd.fdoffset
        · rw [if_pos hi, if_pos (by omega)]
        · rw [if_pos hi, if_neg (by omega)]
          exact List.getElem?_eq_none (by rw [List.length_drop]; omega)
      · rw [if_neg hi, if_neg (by omega)]
    rw [htake]
    by_cases hres : 0 ≤ (o.objectRead s.objects fh fd.fdoffset
        (min len (L.length - fd.fdoffset))).1 ∨
      FileReader.sizeField L ≤ fd.fdoffset + len ∧ (o.objectRead s.objects fh fd.fdoffset
        (min len (L.length - fd.fdoffset))).1 = SpiffsObject.errEndOfObject
    · rw [if_pos hres]
      obtain ⟨hbytes, hrefines⟩ :=
        hread (min len (L.length - fd.fdoffset)) (by omega) (by omega)
        (hres.imp_right fun hand => hand.2)
      exact Or.inr ⟨rfl, by rw [hbytes], hrefines⟩
    · rw [if_neg hres]
      exact Or.inl (failed_called_of_neg (Int.not_le.mp fun hle => hres (Or.inl hle)))

/-- Once a function has failed, that stays. -/
theorem failed_readObject (hfailed : s.failed = true) (fh : ℕ) (fd : SpiffsFile) (len : ℕ) :
    (SpiffsFiles.readObject o s fh fd len).2.failed = true := by
  unfold SpiffsFiles.readObject
  dsimp only
  split
  · exact hfailed
  · generalize (if o.size s.objects fh ≤ (fd.fdoffset + len) % 2 ^ 32 then
      o.size s.objects fh - fd.fdoffset else len) = n
    split
    · exact hfailed
    · show (s.failed || _) = true
      rw [hfailed, Bool.true_or]

/-- An object of which nothing is seen is empty. -/
theorem Refines.size_of_nil (ho : o.Sound rep) (h : Refines rep pageSize s q)
    (hfd : s.fdGet fh = some fd) (hnil : q.content fd.objId = []) :
    o.size s.objects fh = SpiffsObject.undefinedLen := by
  obtain ⟨c, hinv, hshows⟩ := h.inv
  have hle := hinv.length_le (hshows fd.objId)
  rw [hnil] at hle
  rw [ho.size _ _ _ _ _ hinv.rep (opened_of_fdGet hfd),
    List.length_eq_zero_iff.mp (Nat.le_zero.mp hle)]
  rfl

/-- **`SPIFFS_read` is a plain read.** -/
theorem Refines.read (ho : o.Sound rep) (h : Refines rep pageSize s q) {len : ℕ}
    (hok : ReadOk o s fh len) :
    ∃ r : (ℤ × List UInt8) × SpiffsFiles σ, read o s fh len = some r ∧
      (r.2.failed = true ∨ r.2.failed = s.failed ∧ r.1 = (q.read fh len).1 ∧
        Refines rep pageSize r.2 (q.read fh len).2) := by
  unfold SpiffsFiles.read PlainFiles.read
  rw [map_fdGet h.fds]
  cases hfd : s.fdGet fh with
  | none => exact ⟨_, rfl, Or.inr ⟨rfl, rfl, h⟩⟩
  | some fd =>
    obtain ⟨hlt, hdirect, hbehind⟩ := hok fd hfd
    rw [Option.map_some]
    dsimp only
    by_cases hrdonly : fd.flags.rdonly = false
    · rw [if_pos hrdonly, if_pos (show (plainFd fd).flags.rdonly = false from hrdonly)]
      exact ⟨_, rfl, Or.inr ⟨rfl, rfl, h⟩⟩
    rw [if_neg hrdonly, if_neg (show ¬ (plainFd fd).flags.rdonly = false from hrdonly)]
    by_cases hundefined : o.size s.objects fh = SpiffsObject.undefinedLen ∧ 0 < len
    · -- The object is empty, and so is what is behind the position.
      have hrest := h.drop_eq_nil ho hfd hundefined.1 fun ix hix p hp =>
        (hbehind hundefined.1 ix hix p hp).resolve_right (by omega)
      rw [if_pos hundefined]
      refine ⟨_, rfl, Or.inr ?_⟩
      unfold PlainFiles.readObject
      rw [if_pos ⟨hrest, Or.inl hundefined.2⟩]
      exact ⟨rfl, rfl, h⟩
    · rw [if_neg hundefined]
      obtain ⟨r, hr, hflush⟩ := h.fflushCache ho hfd hdirect
      rw [hr, Option.map_some]
      refine ⟨_, rfl, ?_⟩
      rcases hflush with ⟨-, hfailed⟩ | ⟨-, hfailed, hrefines, hno⟩
      · exact Or.inl (failed_readObject hfailed fh fd len)
      · obtain ⟨fd', hfd', hplain⟩ := hrefines.exists_fdGet (h.fdGet hfd)
        have hobj : fd'.objId = fd.objId := congrArg PlainFile.objId hplain
        have hoffset : fd'.fdoffset = fd.fdoffset := congrArg PlainFile.position hplain
        have hsame : SpiffsFiles.readObject o r.2 fh fd len =
            SpiffsFiles.readObject o r.2 fh fd' len := by
          unfold SpiffsFiles.readObject
          rw [hoffset]
        have hzero : q.content fd'.objId = [] → len = 0 := by
          intro hnil
          rw [hobj] at hnil
          by_contra hpos
          exact hundefined ⟨h.size_of_nil ho hfd hnil, Nat.pos_of_ne_zero hpos⟩
        have hread := hrefines.readObject ho hfd' (hobj ▸ hno) (hoffset ▸ hlt) hzero
        rw [hsame, ← hfailed, ← hplain]
        exact hread

/-- The offset that is meant, if it had no limits. -/
def exactOffset (o : SpiffsObjects σ) (s : SpiffsFiles σ) (fh : ℕ)
    (fd : SpiffsFile) (offs : ℤ) :
    SeekMode → ℤ
  | .seekSet => offs
  | .seekCur => fd.fdoffset + offs
  | .seekEnd => length o s fh + offs

/-- What a seek is given: it is not in front of the start, nor too far behind the end. -/
def SeekOk (o : SpiffsObjects σ) (s : SpiffsFiles σ) (fh : ℕ) (offs : ℤ) (whence : SeekMode) :
    Prop :=
  ∀ fd ∈ s.fdGet fh, (fd.flags.direct = true → s.pageGetByFd fd.objId = none) ∧
    ∀ r ∈ fflushCache o s fh, 0 ≤ exactOffset o r.2 fh fd offs whence ∧
      exactOffset o r.2 fh fd offs whence < 2 ^ 31

/-- **A seek in an object** that has no page. -/
theorem Refines.seekObject (ho : o.Sound rep) (h : Refines rep pageSize s q)
    (hfd : s.fdGet fh = some fd) (hno : ∀ ix p, s.HasPage ix p → p.objId ≠ fd.objId) {offs : ℤ}
    {whence : SeekMode} (hlow : 0 ≤ q.target (plainFd fd) offs whence)
    (hhigh : q.target (plainFd fd) offs whence < 2 ^ 31) :
    (seekObject o s fh fd offs whence).2.failed = true ∨
      (SpiffsFiles.seekObject o s fh fd offs whence).2.failed = s.failed ∧
      (SpiffsFiles.seekObject o s fh fd offs whence).1 =
        (q.seekObject fh (plainFd fd) (q.target (plainFd fd) offs whence)).1 ∧
      Refines rep pageSize (SpiffsFiles.seekObject o s fh fd offs whence).2
        (q.seekObject fh (plainFd fd) (q.target (plainFd fd) offs whence)).2 := by
  obtain ⟨hsize, hlen⟩ := h.size_eq ho hfd hno
  have hlength := length_eq hsize hlen
  have hoffs : whenceOffset o s fh fd offs whence = q.target (plainFd fd) offs whence := by
    unfold whenceOffset
    cases whence with
    | seekSet => rfl
    | seekCur => exact int32_of_lt (Int.le_trans (by decide) hlow) hhigh
    | seekEnd =>
      dsimp only
      rw [hlength]
      exact int32_of_lt (Int.le_trans (by decide) hlow) hhigh
  have hobj : (plainFd fd).objId = fd.objId := rfl
  unfold SpiffsFiles.seekObject PlainFiles.seekObject
  dsimp only
  rw [hoffs, hsize, hobj]
  generalize q.target (plainFd fd) offs whence = target at hlow hhigh ⊢
  have hrefused : int32 (FileReader.sizeField (q.content fd.objId)) < target ↔
      q.content fd.objId = [] ∨ ((q.content fd.objId).length : ℤ) < target := by
    by_cases hnil : q.content fd.objId = []
    · rw [hnil]
      have hneg : int32 (FileReader.sizeField []) = -1 := by decide
      rw [hneg]
      exact ⟨fun _ => Or.inl rfl, fun _ => by omega⟩
    · rw [FileReader.sizeField_of_ne hnil, int32_of_lt (by omega) (by exact_mod_cast hlen)]
      exact ⟨Or.inr, fun hor => hor.resolve_left hnil⟩
  by_cases hcase : q.content fd.objId = [] ∨ ((q.content fd.objId).length : ℤ) < target
  · rw [if_pos (hrefused.mpr hcase), if_pos hcase]
    exact Or.inr ⟨rfl, rfl, h⟩
  · rw [if_neg (fun hlt => hcase (hrefused.mp hlt)), if_neg hcase]
    have hmod : (target % 2 ^ 32).toNat = target.toNat := by omega
    rw [hmod]
    rcases Int.lt_or_le (o.findIndex s.objects fh target.toNat).1 0 with hneg | hres
    · rw [if_pos hneg]
      exact Or.inl (failed_called_of_neg hneg)
    · rw [if_neg (Int.not_lt.mpr hres)]
      refine Or.inr ⟨failed_called hres, rfl, ?_⟩
      have hobjects :
          Refines rep pageSize (s.called (o.findIndex s.objects fh target.toNat)) q :=
        h.objects fun c hrep _ => ho.findIndex _ _ _ _ _ hrep hres
      refine hobjects.move (v := target.toNat) hfd rfl rfl ?_
      have hle := (not_or.mp hcase).2
      omega

/-- Once a function has failed, that stays. -/
theorem failed_seekObject (hfailed : s.failed = true) (fh : ℕ) (fd : SpiffsFile) (offs : ℤ)
    (whence : SeekMode) : (SpiffsFiles.seekObject o s fh fd offs whence).2.failed = true := by
  have hcalled : ∀ r : ℤ × σ, (s.called r).failed = true := by
    intro r
    rw [called, hfailed, Bool.true_or]
  unfold SpiffsFiles.seekObject
  dsimp only
  split
  · exact hfailed
  · split
    · exact hcalled _
    · exact hcalled _

/-- **`SPIFFS_lseek` is a plain seek.** -/
theorem Refines.lseek (ho : o.Sound rep) (h : Refines rep pageSize s q) {offs : ℤ}
    {whence : SeekMode} (hok : SeekOk o s fh offs whence) :
    ∃ r : ℤ × SpiffsFiles σ, lseek o s fh offs whence = some r ∧
      (r.2.failed = true ∨ r.2.failed = s.failed ∧ r.1 = (q.lseek fh offs whence).1 ∧
        Refines rep pageSize r.2 (q.lseek fh offs whence).2) := by
  unfold SpiffsFiles.lseek PlainFiles.lseek
  rw [map_fdGet h.fds]
  cases hfd : s.fdGet fh with
  | none => exact ⟨_, rfl, Or.inr ⟨rfl, rfl, h⟩⟩
  | some fd =>
    obtain ⟨hdirect, hoffs⟩ := hok fd hfd
    obtain ⟨r, hr, hflush⟩ := h.fflushCache ho hfd hdirect
    rw [Option.map_some]
    dsimp only
    rw [hr, Option.map_some]
    refine ⟨_, rfl, ?_⟩
    rcases hflush with ⟨-, hfailed⟩ | ⟨-, hfailed, hrefines, hno⟩
    · exact Or.inl (failed_seekObject hfailed fh fd offs whence)
    · obtain ⟨fd', hfd', hplain⟩ := hrefines.exists_fdGet (h.fdGet hfd)
      have hobj : fd'.objId = fd.objId := congrArg PlainFile.objId hplain
      have hoffset : fd'.fdoffset = fd.fdoffset := congrArg PlainFile.position hplain
      have hsame : SpiffsFiles.seekObject o r.2 fh fd offs whence =
          SpiffsFiles.seekObject o r.2 fh fd' offs whence := by
        unfold SpiffsFiles.seekObject whenceOffset
        rw [hoffset]
      obtain ⟨hsize, hlen⟩ := hrefines.size_eq ho hfd' (hobj ▸ hno)
      obtain ⟨hlow, hhigh⟩ := hoffs r hr
      have htarget : q.target (plainFd fd') offs whence =
          exactOffset o r.2 fh fd offs whence := by
        have hlength := length_eq hsize hlen
        rw [hobj] at hlength
        rw [hplain]
        unfold exactOffset
        rw [hlength]
        cases whence <;> rfl
      have hseek := hrefines.seekObject ho hfd' (hobj ▸ hno) (by rw [htarget]; exact hlow)
        (by rw [htarget]; exact hhigh)
      rw [hsame, ← hfailed, ← hplain]
      exact hseek

/-! ## Opening, closing and removing -/

/-- A flush is given a descriptor that may flush. -/
def FlushOk (s : SpiffsFiles σ) (fh : ℕ) : Prop :=
  ∀ fd ∈ s.fdGet fh, fd.flags.direct = true → s.pageGetByFd fd.objId = none

/-- **`SPIFFS_fflush`** changes nothing. -/
theorem Refines.fflush (ho : o.Sound rep) (h : Refines rep pageSize s q) (hok : FlushOk s fh) :
    ∃ r : ℤ × SpiffsFiles σ, fflush o s fh = some r ∧
      (r.2.failed = true ∨ r.2.failed = s.failed ∧
        min r.1 0 = (if (q.fdGet fh).isSome then 0 else -1) ∧ Refines rep pageSize r.2 q) := by
  unfold SpiffsFiles.fflush
  rw [map_fdGet h.fds]
  cases hfd : s.fdGet fh with
  | none =>
    have hflush : SpiffsFiles.fflushCache o s fh = some (-1, s) := by
      unfold SpiffsFiles.fflushCache
      rw [hfd]
    rw [hflush]
    exact ⟨_, rfl, Or.inr ⟨rfl, rfl, h⟩⟩
  | some fd =>
    obtain ⟨r, hr, hflush⟩ := h.fflushCache ho hfd (hok fd hfd)
    rw [hr, Option.bind_eq_bind, Option.bind_some]
    dsimp only
    rcases hflush with ⟨-, hfailed⟩ | ⟨hres, hfailed, hrefines, -⟩
    · exact ⟨_, rfl, Or.inl hfailed⟩
    · rw [if_neg (Int.not_lt.mpr hres)]
      exact ⟨_, rfl, Or.inr ⟨hfailed, Int.min_eq_right hres, hrefines⟩⟩

/-- A descriptor of an object that has no page is closed. -/
theorem Refines.closeFd (ho : o.Sound rep) (h : Refines rep pageSize s q)
    (hfd : s.fdGet fh = some fd) (hno : ∀ ix p, s.HasPage ix p → p.objId ≠ fd.objId) :
    Refines rep pageSize (s.modifyFd fh fun fd => { fd with isOpen := false })
      (q.modifyFd fh fun fd => { fd with isOpen := false }) := by
  obtain ⟨c, hinv, hshows⟩ := h.inv
  obtain ⟨hget, hopen⟩ := fdGet_eq_some.mp hfd
  have hopened : (s.modifyFd fh fun fd => { fd with isOpen := false }).opened =
      Function.update s.opened fh none := by
    funext i
    unfold opened SpiffsFiles.fdGet
    rw [getElem?_modifyFd]
    by_cases hi : fh = i
    · subst hi
      rw [if_pos rfl, hget, Function.update_self]
      rfl
    · rw [if_neg hi, Function.update_of_ne (Ne.symm hi)]
  have hfds : (s.modifyFd fh fun fd => { fd with isOpen := false }).fds.map plainFd =
      (q.modifyFd fh fun fd => { fd with isOpen := false }).fds :=
    (map_plainFd_modify (g := fun fd => { fd with isOpen := false }) fun _ _ => rfl).trans
      (congrArg (List.modify · fh _) h.fds)
  refine ⟨⟨c, ⟨hopened ▸ ho.close _ _ _ _ hinv.rep, hinv.room, hinv.unique,
    fun i fd' ix hfd' hpage => ?_, fun ix p hp => ?_⟩, hshows⟩, hfds, fun i pfd hpfd => ?_⟩
  · rw [getElem?_modifyFd] at hfd'
    by_cases hi : fh = i
    · subst hi
      rw [if_pos rfl, hget] at hfd'
      obtain rfl := Option.some.inj hfd'
      obtain ⟨-, p, hp, hobj⟩ := hinv.link fh fd ix hget hpage
      exact absurd hobj (hno ix p hp)
    · rw [if_neg hi] at hfd'
      exact hinv.link i fd' ix hfd' hpage
  · obtain ⟨i, fd', hfd', hopen', hobj, hdirect⟩ := hinv.held ix p hp
    refine ⟨i, fd', ?_, hopen', hobj, hdirect⟩
    rw [getElem?_modifyFd, if_neg]
    · exact hfd'
    · rintro rfl
      obtain rfl := Option.some.inj (hget.symm.trans hfd')
      exact hno ix p hp hobj.symm
  · obtain ⟨fd', hfd', rfl⟩ := Option.map_eq_some_iff.mp ((map_fdGet hfds i).symm.trans hpfd)
    obtain ⟨hget', hopen'⟩ := fdGet_eq_some.mp hfd'
    rw [getElem?_modifyFd] at hget'
    by_cases hi : fh = i
    · subst hi
      rw [if_pos rfl, hget] at hget'
      obtain rfl := Option.some.inj hget'
      cases hopen'
    · rw [if_neg hi] at hget'
      exact h.position i _ (h.fdGet (fdGet_eq_some.mpr ⟨hget', hopen'⟩))

/-- **`SPIFFS_close`** closes the descriptor. -/
theorem Refines.close (ho : o.Sound rep) (h : Refines rep pageSize s q) (hok : FlushOk s fh) :
    ∃ r : ℤ × SpiffsFiles σ, close o s fh = some r ∧
      (r.2.failed = true ∨ r.2.failed = s.failed ∧
        r.1 = (if (q.fdGet fh).isSome then 0 else -1) ∧
        Refines rep pageSize r.2 (if (q.fdGet fh).isSome then
          q.modifyFd fh fun fd => { fd with isOpen := false } else q)) := by
  unfold SpiffsFiles.close
  rw [map_fdGet h.fds]
  cases hfd : s.fdGet fh with
  | none =>
    have hflush : SpiffsFiles.fflushCache o s fh = some (-1, s) := by
      unfold SpiffsFiles.fflushCache
      rw [hfd]
    rw [hflush]
    exact ⟨_, rfl, Or.inr ⟨rfl, rfl, h⟩⟩
  | some fd =>
    obtain ⟨r, hr, hflush⟩ := h.fflushCache ho hfd (hok fd hfd)
    rw [hr, Option.bind_eq_bind, Option.bind_some]
    dsimp only
    rcases hflush with ⟨hneg, hfailed⟩ | ⟨hres, hfailed, hrefines, hno⟩
    · rw [if_pos hneg]
      exact ⟨_, rfl, Or.inl hfailed⟩
    · rw [if_neg (Int.not_lt.mpr hres)]
      obtain ⟨fd', hfd', hplain⟩ := hrefines.exists_fdGet (h.fdGet hfd)
      have hobj : fd'.objId = fd.objId := congrArg PlainFile.objId hplain
      exact ⟨_, rfl, Or.inr ⟨hfailed, rfl, hrefines.closeFd ho hfd' (hobj ▸ hno)⟩⟩

/-- The first descriptor that is not open is that of the plain files. -/
theorem Refines.findIdx?_eq (h : Refines rep pageSize s q) :
    q.fds.findIdx? (!·.isOpen) = s.fds.findIdx? (!·.isOpen) := by
  rw [← h.fds, List.findIdx?_map]
  rfl

/-- The descriptor that is found. -/
theorem exists_closed (hfind : s.fds.findIdx? (!·.isOpen) = some fh) :
    ∃ fd, s.fds[fh]? = some fd ∧ fd.isOpen = false ∧ s.opened fh = none := by
  obtain ⟨hlt, hclosed, -⟩ := List.findIdx?_eq_some_iff_getElem.mp hfind
  have hget := List.getElem?_eq_getElem hlt
  have hopen : s.fds[fh].isOpen = false := by simpa using hclosed
  refine ⟨_, hget, hopen, ?_⟩
  unfold opened SpiffsFiles.fdGet
  rw [hget, Option.filter, hopen]
  rfl

/-- Where no function fails, nothing is noted. -/
theorem called_zero (s : SpiffsFiles σ) : s.called (0, s.objects) = s := by
  unfold called
  rw [decide_eq_false (lt_irrefl _), Bool.or_false]

/-- A descriptor that is not open becomes one of an object. -/
theorem Refines.openObject (ho : o.Sound rep) (h : Refines rep pageSize s q)
    (hfind : s.fds.findIdx? (!·.isOpen) = some fh) (x : ℕ) (flags : SpiffsFlags) :
    (openObject o s fh x flags false).2.failed = true ∨
      (SpiffsFiles.openObject o s fh x flags false).2.failed = s.failed ∧
      (SpiffsFiles.openObject o s fh x flags false).1 = (q.openObject fh x flags).1 ∧
      Refines rep pageSize (SpiffsFiles.openObject o s fh x flags false).2
        (q.openObject fh x flags).2 := by
  obtain ⟨fd, hget, hclosed, hnone⟩ := exists_closed hfind
  unfold SpiffsFiles.openObject PlainFiles.openObject
  dsimp only
  rcases Int.lt_or_le (o.openByPage s.objects fh x).1 0 with hneg | hres
  · rw [if_pos hneg]
    exact Or.inl (failed_called_of_neg hneg)
  rw [if_neg (Int.not_lt.mpr hres), if_neg Bool.false_ne_true, if_neg (lt_irrefl _),
    called_zero]
  refine Or.inr ⟨failed_called hres, rfl, ?_⟩
  obtain ⟨c, hinv, hshows⟩ := h.inv
  -- A descriptor that is not open has no page.
  have hpage : fd.cachePage = none := by
    cases hpage : fd.cachePage with
    | none => rfl
    | some ix =>
      rw [(hinv.link fh fd ix hget hpage).1] at hclosed
      cases hclosed
  have hopened : ((s.called (o.openByPage s.objects fh x)).modifyFd fh fun fd =>
      { fd with isOpen := true, objId := x, flags := flags, fdoffset := 0 }).opened =
        Function.update s.opened fh (some x) := by
    funext i
    unfold opened SpiffsFiles.fdGet
    rw [getElem?_modifyFd]
    by_cases hi : fh = i
    · subst hi
      rw [if_pos rfl, Function.update_self]
      show ((s.fds[fh]?.map _).filter _).map _ = _
      rw [hget]
      rfl
    · rw [if_neg hi, Function.update_of_ne (Ne.symm hi)]
      rfl
  have hfds : ((s.called (o.openByPage s.objects fh x)).modifyFd fh fun fd =>
      { fd with isOpen := true, objId := x, flags := flags, fdoffset := 0 }).fds.map plainFd =
        (q.modifyFd fh fun _ => ⟨true, x, flags, 0⟩).fds :=
    (map_plainFd_modify (g := fun _ => ⟨true, x, flags, 0⟩) fun _ _ => rfl).trans
      (congrArg (List.modify · fh _) h.fds)
  refine ⟨⟨c, ⟨hopened ▸ ho.openByPage _ _ _ _ _ hinv.rep hnone hres, hinv.room, hinv.unique,
    fun i fd' ix hfd' hlink => ?_, fun ix p hp => ?_⟩, hshows⟩, hfds, fun i pfd hpfd => ?_⟩
  · rw [getElem?_modifyFd] at hfd'
    by_cases hi : fh = i
    · subst hi
      rw [if_pos rfl] at hfd'
      obtain ⟨fd'', hfd'', rfl⟩ := Option.map_eq_some_iff.mp hfd'
      obtain rfl := Option.some.inj (hget.symm.trans hfd'')
      rw [hpage] at hlink
      cases hlink
    · rw [if_neg hi] at hfd'
      exact hinv.link i fd' ix hfd' hlink
  · obtain ⟨i, fd', hfd', hopen', hobj, hdirect⟩ := hinv.held ix p hp
    refine ⟨i, fd', ?_, hopen', hobj, hdirect⟩
    rw [getElem?_modifyFd, if_neg]
    · exact hfd'
    · rintro rfl
      obtain rfl := Option.some.inj (hget.symm.trans hfd')
      rw [hopen'] at hclosed
      cases hclosed
  · obtain ⟨fd', hfd', rfl⟩ := Option.map_eq_some_iff.mp ((map_fdGet hfds i).symm.trans hpfd)
    obtain ⟨hget', hopen'⟩ := fdGet_eq_some.mp hfd'
    rw [getElem?_modifyFd] at hget'
    by_cases hi : fh = i
    · subst hi
      rw [if_pos rfl] at hget'
      obtain ⟨fd'', -, rfl⟩ := Option.map_eq_some_iff.mp hget'
      exact Nat.zero_le _
    · rw [if_neg hi] at hget'
      exact h.position i _ (h.fdGet (fdGet_eq_some.mpr ⟨hget', hopen'⟩))

/-- **An object without a page loses its contents.** -/
theorem Refines.clear (h : Refines rep pageSize s q) {x : ℕ}
    (hno : ∀ ix p, s.HasPage ix p → p.objId ≠ x)
    (hrep : ∀ c, rep s.objects c s.opened → rep t.objects (Function.update c x []) t.opened)
    (hpages : t.pages = s.pages)
    (hlink : ∀ (i : ℕ) (fd : SpiffsFile) (ix : ℕ), t.fds[i]? = some fd →
      fd.cachePage = some ix →
      s.fds[i]? = some fd)
    (hkept : ∀ (i : ℕ) (fd : SpiffsFile), s.fds[i]? = some fd → fd.objId ≠ x →
      t.fds[i]? = some fd)
    (hopen : ∀ (i : ℕ) (fd : SpiffsFile), t.fdGet i = some fd →
      s.fdGet i = some fd ∧
        fd.objId ≠ x) {fds : List PlainFile} (hfds : t.fds.map plainFd = fds) :
    Refines rep pageSize t { q.clear x with fds := fds } := by
  obtain ⟨c, hinv, hshows⟩ := h.inv
  have hsame : ∀ ix p, s.HasPage ix p ↔ t.HasPage ix p := by
    intro ix p
    unfold HasPage
    rw [hpages]
  refine ⟨⟨_, hinv.clear hno (hrep c hinv.rep) hpages hlink hkept, fun y => ?_⟩, hfds,
    fun i pfd hpfd => ?_⟩
  · show t.Shows _ y (Function.update q.content x [] y)
    by_cases hy : y = x
    · subst hy
      rw [Function.update_self]
      exact Or.inr ⟨fun ix p hp => hno ix p ((hsame ix p).mpr hp),
        (Function.update_self y [] c).symm⟩
    · rw [Function.update_of_ne hy]
      exact (hshows y).congr (fun ix p _ => hsame ix p) (Function.update_of_ne hy _ _)
  · obtain ⟨fd, hfd, rfl⟩ := Option.map_eq_some_iff.mp ((map_fdGet
      (q := { q.clear x with fds := fds }) hfds i).symm.trans hpfd)
    obtain ⟨hold, hobj⟩ := hopen i fd hfd
    show fd.fdoffset ≤ (Function.update q.content x [] fd.objId).length
    rw [Function.update_of_ne hobj]
    exact h.position i _ (h.fdGet hold)

/-- **`spiffs_object_create`** makes an object with nothing in it. -/
theorem Refines.create (ho : o.Sound rep) (h : Refines rep pageSize s q) {x : ℕ}
    (hfree : o.isFree s.objects x = true) (hres : 0 ≤ (o.objectCreate s.objects x).1) :
    Refines rep pageSize (s.called (o.objectCreate s.objects x)) (q.clear x) := by
  obtain ⟨c, hinv, -⟩ := h.inv
  have hother : ∀ (i : ℕ) (fd : SpiffsFile), s.fdGet i = some fd → fd.objId ≠ x := by
    rintro i fd hfd rfl
    exact ho.isFree _ _ _ _ i hinv.rep hfree (opened_of_fdGet hfd)
  have hno : ∀ ix p, s.HasPage ix p → p.objId ≠ x := by
    intro ix p hp
    obtain ⟨i, fd, hget, hopen, hobj, -⟩ := hinv.held ix p hp
    exact hobj ▸ hother i fd (fdGet_eq_some.mpr ⟨hget, hopen⟩)
  exact h.clear (t := s.called (o.objectCreate s.objects x)) hno
    (fun c' hrep => ho.objectCreate _ _ _ _ hrep hfree hres) rfl
    (fun _ _ _ hget _ => hget) (fun _ _ hget _ => hget)
    (fun i fd hfd => ⟨hfd, hother i fd hfd⟩) h.fds

/-- What `SPIFFS_open` is given: a file that is there is not truncated, and the id of a new one
is free. -/
def OpenOk (o : SpiffsObjects σ) (s : SpiffsFiles σ) (found : Except ℤ ℕ) (newId : Option ℕ)
    (flags : OpenFlags) : Prop :=
  match found with
  | .ok _ => flags.trunc = false
  | .error _ => ∀ x ∈ newId, o.isFree s.objects x = true

/-- **`SPIFFS_open`** gives a descriptor of the object, or of a new one. -/
theorem Refines.openFile (ho : o.Sound rep) (h : Refines rep pageSize s q) {found : Except ℤ ℕ}
    {newId : Option ℕ} {flags : OpenFlags} (hok : OpenOk o s found newId flags) :
    (openFile o s found newId flags).2.failed = true ∨
      (SpiffsFiles.openFile o s found newId flags).2.failed = s.failed ∧
      (SpiffsFiles.openFile o s found newId flags).1 = (q.openFile found newId flags).1 ∧
      Refines rep pageSize (SpiffsFiles.openFile o s found newId flags).2
        (q.openFile found newId flags).2 := by
  unfold SpiffsFiles.openFile PlainFiles.openFile
  rw [h.findIdx?_eq]
  cases hfind : s.fds.findIdx? (!·.isOpen) with
  | none => exact Or.inr ⟨rfl, rfl, h⟩
  | some fh =>
    cases found with
    | ok x =>
      have htrunc : flags.trunc = false := hok
      dsimp only
      rw [htrunc]
      split
      · exact Or.inr ⟨rfl, rfl, h⟩
      · exact h.openObject ho hfind x flags.toSpiffsFlags
    | error err =>
      cases newId with
      | none =>
        dsimp only
        rw [ite_self]
        exact Or.inr ⟨rfl, rfl, h⟩
      | some x =>
        dsimp only
        split
        · rcases Int.lt_or_le (o.objectCreate s.objects x).1 0 with hneg | hres
          · rw [if_pos hneg]
            exact Or.inl (failed_called_of_neg hneg)
          · rw [if_neg (Int.not_lt.mpr hres)]
            have hopened :=
              (h.create ho (hok x rfl) hres).openObject ho hfind x flags.toSpiffsFlags
            rwa [failed_called hres] at hopened
        · exact Or.inr ⟨rfl, rfl, h⟩

/-- What `SPIFFS_remove` is given: the object has no page. -/
def RemoveOk (s : SpiffsFiles σ) (found : Except ℤ ℕ) : Prop :=
  match found with
  | .ok x => s.pageGetByFd x = none
  | .error _ => True

/-- **`SPIFFS_remove`** removes an object that has no page. -/
theorem Refines.remove (ho : o.Sound rep) (h : Refines rep pageSize s q) {found : Except ℤ ℕ}
    (hok : RemoveOk s found) :
    (remove o s found).2.failed = true ∨ (SpiffsFiles.remove o s found).2.failed = s.failed ∧
      (SpiffsFiles.remove o s found).1 = (q.remove found).1 ∧
      Refines rep pageSize (SpiffsFiles.remove o s found).2 (q.remove found).2 := by
  unfold SpiffsFiles.remove PlainFiles.remove
  rw [h.findIdx?_eq]
  cases hfind : s.fds.findIdx? (!·.isOpen) with
  | none => exact Or.inr ⟨rfl, rfl, h⟩
  | some fh =>
    cases found with
    | error err => exact Or.inr ⟨rfl, rfl, h⟩
    | ok x =>
      obtain ⟨-, -, -, hnone⟩ := exists_closed hfind
      have hno := no_page_of_none (show s.pageGetByFd x = none from hok)
      dsimp only
      rcases Int.lt_or_le (o.objectRemove s.objects fh x).1 0 with hneg | hres
      · rw [if_pos hneg]
        exact Or.inl (failed_called_of_neg hneg)
      rw [if_neg (Int.not_lt.mpr hres)]
      refine Or.inr ⟨failed_called hres, rfl, ?_⟩
      obtain ⟨c, hinv, -⟩ := h.inv
      refine h.clear (t := { s.called (o.objectRemove s.objects fh x) with
        fds := s.fds.map (objectRemoved x) }) hno (fun c' hrep => ?_) rfl
        (fun i fd ix hfd hpage => ?_)
        (fun i fd hfd hobj => getElem?_objectRemoved hfd hobj) (fun i fd hfd => ?_)
        ((map_objectRemoved x s.fds).trans (congrArg (List.map _) h.fds))
      · have hrep' := ho.objectRemove _ _ _ _ _ hrep hnone hres
        exact opened_objectRemoved (s.called (o.objectRemove s.objects fh x)) x ▸ hrep'
      · -- A descriptor with a page is one of another object.
        obtain ⟨fd', hfd', rfl⟩ := Option.map_eq_some_iff.mp (List.getElem?_map.symm.trans hfd)
        rw [cachePage_objectRemoved] at hpage
        obtain ⟨-, p, hp, hobj⟩ := hinv.link i fd' ix hfd' hpage
        rw [objectRemoved, if_neg fun hcase => hno ix p hp (hobj.trans hcase.2)]
        exact hfd'
      · obtain ⟨hget, hopen⟩ := fdGet_eq_some.mp hfd
        obtain ⟨hold, hobj⟩ := getElem?_of_objectRemoved hget hopen
        exact ⟨fdGet_eq_some.mpr ⟨hold, hopen⟩, hobj⟩

/-! ## Runs -/

/-- **What a call is given.** -/
def Admissible (o : SpiffsObjects σ) (pageSize : ℕ) (s : SpiffsFiles σ) : FilesCall → Prop
  | .openFile found newId flags => OpenOk o s found newId flags
  | .write fh buf alloc => WriteOk pageSize s fh buf alloc
  | .read fh len => ReadOk o s fh len
  | .lseek fh offs whence => SeekOk o s fh offs whence
  | .fflush fh | .close fh => FlushOk s fh
  | .remove found => RemoveOk s found

/-- **And that no function for the objects fails.** -/
def Succeeds (o : SpiffsObjects σ) (pageSize : ℕ) (s : SpiffsFiles σ) (call : FilesCall) :
    Prop :=
  ∀ r ∈ (files o pageSize).step s call, r.2.failed = false

/-- **One call.** -/
theorem Refines.step (ho : o.Sound rep) (h : Refines rep pageSize s q)
    (hpageSize : pageSize < 2 ^ 16) {call : FilesCall}
    (hok : Admissible o pageSize s call) (hsucceeds : Succeeds o pageSize s call) :
    ∃ a t q', (files o pageSize).step s call = some (a, t) ∧
      PlainFiles.files.step q call = some (call.seen a, q') ∧ Refines rep pageSize t q' := by
  -- The first case of each lemma, where a function has failed, does not occur.
  have hnot : ∀ {a : ℤ × List UInt8} {t : SpiffsFiles σ} {P : Prop},
      (files o pageSize).step s call = some (a, t) → t.failed = true ∨ P → P := by
    intro a t P hstep hor
    have hfailed : t.failed = false := hsucceeds _ hstep
    rcases hor with hbad | hP
    · rw [hfailed] at hbad
      cases hbad
    · exact hP
  cases call with
  | openFile found newId flags =>
    obtain ⟨-, hres, hrefines⟩ := hnot rfl (h.openFile ho hok)
    exact ⟨_, _, _, rfl, by rw [hres]; rfl, hrefines⟩
  | write fh buf alloc =>
    obtain ⟨r, hr, hwrite⟩ := h.write ho hpageSize hok
    have hstep : (files o pageSize).step s (.write fh buf alloc) = some ((r.1, []), r.2) :=
      congrArg (Option.map fun r : ℤ × SpiffsFiles σ => ((r.1, ([] : List UInt8)), r.2)) hr
    obtain ⟨-, hres, hrefines⟩ := hnot hstep hwrite
    exact ⟨_, _, _, hstep, by rw [hres]; rfl, hrefines⟩
  | read fh len =>
    obtain ⟨r, hr, hread⟩ := h.read ho hok
    obtain ⟨-, hres, hrefines⟩ := hnot hr hread
    exact ⟨_, _, _, hr, by rw [hres]; rfl, hrefines⟩
  | lseek fh offs whence =>
    obtain ⟨r, hr, hseek⟩ := h.lseek ho hok
    have hstep : (files o pageSize).step s (.lseek fh offs whence) = some ((r.1, []), r.2) :=
      congrArg (Option.map fun r : ℤ × SpiffsFiles σ => ((r.1, ([] : List UInt8)), r.2)) hr
    obtain ⟨-, hres, hrefines⟩ := hnot hstep hseek
    exact ⟨_, _, _, hstep, by rw [hres]; rfl, hrefines⟩
  | fflush fh =>
    obtain ⟨r, hr, hflush⟩ := h.fflush ho hok
    have hstep : (files o pageSize).step s (.fflush fh) = some ((r.1, []), r.2) :=
      congrArg (Option.map fun r : ℤ × SpiffsFiles σ => ((r.1, ([] : List UInt8)), r.2)) hr
    obtain ⟨-, hres, hrefines⟩ := hnot hstep hflush
    refine ⟨_, _, _, hstep, ?_, hrefines⟩
    show some ((if (q.fdGet fh).isSome then (0 : ℤ) else -1, ([] : List UInt8)), q) =
      some ((min r.1 0, []), q)
    rw [hres]
  | close fh =>
    obtain ⟨r, hr, hclose⟩ := h.close ho hok
    have hstep : (files o pageSize).step s (.close fh) = some ((r.1, []), r.2) :=
      congrArg (Option.map fun r : ℤ × SpiffsFiles σ => ((r.1, ([] : List UInt8)), r.2)) hr
    obtain ⟨-, hres, hrefines⟩ := hnot hstep hclose
    refine ⟨_, _, _, hstep, ?_, hrefines⟩
    show (if (q.fdGet fh).isSome then _ else _) = _
    rw [hres]
    split <;> rfl
  | remove found =>
    obtain ⟨-, hres, hrefines⟩ := hnot rfl (h.remove ho hok)
    exact ⟨_, _, _, rfl, by rw [hres]; rfl, hrefines⟩

/-- A descriptor that is not open. -/
def closedFd : SpiffsFile := ⟨false, 0, ⟨false, false, false, false⟩, 0, none⟩

/-- **After the mount**: no file is open, and no page has data. -/
def init (fdCount cpageCount : ℕ) (objects : σ) : SpiffsFiles σ :=
  ⟨List.replicate fdCount closedFd, List.replicate cpageCount none, objects, false⟩

/-- The plain files then. -/
def plainInit (fdCount : ℕ) (c : ℕ → List UInt8) : PlainFiles :=
  ⟨List.replicate fdCount (plainFd closedFd), c⟩

/-- The files after the mount stand for the plain ones. -/
theorem refines_init {objects : σ} (n k : ℕ) (hrep : rep objects c fun _ => none) :
    Refines rep pageSize (init n k objects) (plainInit n c) := by
  have hfd : ∀ {i : ℕ} {fd : SpiffsFile}, (List.replicate n closedFd)[i]? = some fd →
      fd = closedFd := fun hget => List.eq_of_mem_replicate (List.mem_of_getElem? hget)
  have hpage : ∀ ix p, ¬ (init n k objects).HasPage ix p := by
    intro ix p hp
    cases List.eq_of_mem_replicate (List.mem_of_getElem? hp)
  have hfds : (init n k objects).fds.map plainFd = (plainInit n c).fds := List.map_replicate
  have hfdGet : ∀ i, (init n k objects).fdGet i = none := by
    intro i
    cases hget : (init n k objects).fdGet i with
    | none => rfl
    | some fd =>
      obtain ⟨hget, hopen⟩ := fdGet_eq_some.mp hget
      rw [hfd hget] at hopen
      cases hopen
  have hopened : (init n k objects).opened = fun _ => none := by
    funext i
    rw [opened, hfdGet i]
    rfl
  refine ⟨⟨c, ⟨hopened ▸ hrep, fun ix p hp => absurd hp (hpage ix p), fun ix iy p q hp =>
    absurd hp (hpage ix p), fun i fd ix hget hlink => ?_, fun ix p hp =>
      absurd hp (hpage ix p)⟩,
    fun x => Or.inr ⟨fun ix p hp => absurd hp (hpage ix p), rfl⟩⟩, hfds, fun i fd hget => ?_⟩
  · rw [hfd hget] at hlink
    cases hlink
  · rw [map_fdGet hfds, hfdGet i] at hget
    cases hget

/-- **When no file is open**, all data is in the objects. -/
theorem Refines.closed (h : Refines rep pageSize s q) (hclosed : ∀ fd ∈ s.fds,
    fd.isOpen = false) :
    (∀ page ∈ s.pages, page = none) ∧ rep s.objects q.content fun _ => none := by
  obtain ⟨c, hinv, hshows⟩ := h.inv
  have hno : ∀ ix p, ¬ s.HasPage ix p := by
    intro ix p hp
    obtain ⟨fh, fd, hget, hopen, -⟩ := hinv.held ix p hp
    rw [hclosed fd (List.mem_of_getElem? hget)] at hopen
    cases hopen
  have hcontent : c = q.content :=
    funext fun x => (shows_of_no_page (fun ix p hp => absurd hp (hno ix p)) (hshows x)).symm
  have hopened : s.opened = fun _ => none := by
    funext i
    unfold opened
    cases hget : s.fdGet i with
    | none => rfl
    | some fd =>
      obtain ⟨hget, hopen⟩ := fdGet_eq_some.mp hget
      rw [hclosed fd (List.mem_of_getElem? hget)] at hopen
      cases hopen
  refine ⟨fun page hpage => ?_, hopened ▸ hcontent ▸ hinv.rep⟩
  obtain ⟨ix, hix⟩ := List.mem_iff_getElem?.mp hpage
  cases page with
  | none => rfl
  | some p => exact absurd hix (hno ix p)

end SpiffsFiles

/-! ## Objects in memory -/

/-- The contents of objects, the objects of the descriptors, and the first id that is free. -/
structure RamObjects where
  content : ℕ → List UInt8
  opened : ℕ → Option ℕ
  next : ℕ

namespace RamObjects

/-- An object gets other contents, if they are not too long. -/
def put (s : RamObjects) (x : ℕ) (d : List UInt8) : ℤ × RamObjects :=
  if d.length < 2 ^ 31 then (0, { s with content := Function.update s.content x d })
    else (-1, s)

/-- The functions for the objects. -/
def objects : SpiffsObjects RamObjects where
  isFree s x := s.next ≤ x
  objectCreate s x := (0, { s with content := Function.update s.content x [], next := x + 1 })
  openByPage s fh x :=
    if x < s.next then (0, { s with opened := Function.update s.opened fh (some x) })
      else (-1, s)
  size s fh := (s.opened fh).elim SpiffsObject.undefinedLen fun x =>
    FileReader.sizeField (s.content x)
  objectModify s fh k d := (s.opened fh).elim (-1, s) fun x =>
    s.put x (overlay (s.content x) k d)
  objectAppend s fh _ d := (s.opened fh).elim (-1, s) fun x => s.put x (s.content x ++ d)
  objectRead s fh k n := (s.opened fh).elim (-1, [], s) fun x =>
    (0, ((s.content x).drop k).take n, s)
  findIndex s _ _ := (0, s)
  objectTruncate s fh := (s.opened fh).elim (-1, s) fun x => s.put x []
  objectRemove s _ x := (0, { s with content := Function.update s.content x [] })

/-- They have these contents, which are not too long, and the descriptors are theirs. -/
def Holds (s : RamObjects) (c : ℕ → List UInt8) (m : ℕ → Option ℕ) : Prop :=
  s.content = c ∧ (∀ x, (c x).length < 2 ^ 31) ∧
    ∀ fh x, m fh = some x → s.opened fh = some x ∧ x < s.next

/-- A new file is written by two descriptors in turn, in front of what is kept and behind it,
and read back before it is closed. -/
def calls : List FilesCall :=
  [.openFile (.error SpiffsLookup.errNotFound) (some 9)
      { append := false, rdonly := true, wronly := true, direct := false, creat := true
        trunc := false, excl := true },
    .write 0 [1, 2] (some (0, [0, 0, 0, 0])),
    .openFile (.ok 9) none
      { append := true, rdonly := false, wronly := true, direct := false, creat := false
        trunc := false, excl := false },
    .write 1 [3] none, .write 0 [4] none,
    .lseek 0 0 .seekSet, .write 0 [5] (some (1, [9, 9, 9, 9])), .read 0 3,
    .fflush 0, .close 1, .write 0 [6, 7, 8, 9, 10] none, .close 0, .remove (.ok 8)]

instance (s : SpiffsFiles RamObjects) :
    (found : Except ℤ ℕ) → (newId : Option ℕ) → (flags : OpenFlags) →
      Decidable (SpiffsFiles.OpenOk objects s found newId flags)
  | .ok _, _, flags => inferInstanceAs (Decidable (flags.trunc = false))
  | .error _, newId, _ =>
    inferInstanceAs (Decidable (∀ x ∈ newId, objects.isFree s.objects x = true))

instance (s : SpiffsFiles RamObjects) : (found : Except ℤ ℕ) → Decidable (s.RemoveOk found)
  | .ok x => inferInstanceAs (Decidable (s.pageGetByFd x = none))
  | .error _ => inferInstanceAs (Decidable True)

instance (s : SpiffsFiles RamObjects) (call : FilesCall) :
    Decidable (SpiffsFiles.Admissible objects 4 s call) := by
  unfold SpiffsFiles.Admissible SpiffsFiles.WriteOk SpiffsFiles.Allocates SpiffsFiles.ReadOk
    SpiffsFiles.SeekOk SpiffsFiles.FlushOk
  cases call <;> infer_instance

instance (s : SpiffsFiles RamObjects) (call : FilesCall) :
    Decidable (SpiffsFiles.Succeeds objects 4 s call) := by
  unfold SpiffsFiles.Succeeds
  infer_instance

end RamObjects

namespace SpiffsFiles

end SpiffsFiles
