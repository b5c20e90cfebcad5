import Esp31b.SpiffsWriteInvariant

/-!
# Writes that are kept

A write to a file with a write cache is a plain write (`SpiffsFiles.Refines.write`), whether its
data goes to the page of the object, to a new page or to the object itself; and giving the data
of a page to its object is nothing that a reader sees (`SpiffsFiles.Refines.fflushCache`).

A big write to an object that has a page is done twice by the source. The second one writes the
same bytes over the first, `Overlay.overlay_overlay_self`.
-/

open List (overlay)

namespace SpiffsFiles

variable {σ : Type} {o : SpiffsObjects σ} {rep : σ → (ℕ → List UInt8) → (ℕ → Option ℕ) → Prop}
variable {s t : SpiffsFiles σ} {c : ℕ → List UInt8} {fh ix x k pageSize : ℕ} {p : WrPage}
variable {q : PlainFiles} {fd : SpiffsFile} {d : List UInt8}

/-! ## What keeps the files plain -/

/-- A plain descriptor of an open one. -/
theorem Refines.fdGet (h : Refines rep pageSize s q) (hfd : s.fdGet fh = some fd) :
    q.fdGet fh = some (plainFd fd) := by
  rw [map_fdGet h.fds, hfd]
  rfl

/-- An open descriptor of a plain one. -/
theorem Refines.exists_fdGet (h : Refines rep pageSize s q) {pfd : PlainFile}
    (hfd : q.fdGet fh = some pfd) : ∃ fd, s.fdGet fh = some fd ∧ plainFd fd = pfd := by
  rw [map_fdGet h.fds] at hfd
  exact Option.map_eq_some_iff.mp hfd

/-- The object of an open descriptor. -/
theorem opened_of_fdGet (hfd : s.fdGet fh = some fd) : s.opened fh = some fd.objId := by
  rw [opened, hfd]
  rfl

/-- A descriptor gets the page of its object. -/
theorem Refines.attach (h : Refines rep pageSize s q) (hfd : s.fdGet fh = some fd)
    (hp : s.HasPage ix p) (hobj : p.objId = fd.objId) :
    Refines rep pageSize (s.modifyFd fh fun fd => { fd with cachePage := some ix }) q := by
  obtain ⟨c, hinv, hshows⟩ := h.inv
  obtain ⟨hget, hopen⟩ := fdGet_eq_some.mp hfd
  refine ⟨⟨c, hinv.modifyFd fun fd' hfd' => ⟨rfl, rfl, rfl, fun iy hpage => ?_⟩, hshows⟩, ?_,
    h.position⟩
  · obtain rfl := Option.some.inj (hget.symm.trans hfd')
    obtain rfl := Option.some.inj hpage
    exact ⟨hopen, p, hp, hobj⟩
  · have hsame : (s.fds.modify fh fun fd => { fd with cachePage := some ix }).map plainFd =
        (s.fds.map plainFd).modify fh id := map_plainFd_modify fun _ _ => rfl
    rw [List.modify_id] at hsame
    exact hsame.trans h.fds

/-- A descriptor moves inside of its object. -/
theorem Refines.move (h : Refines rep pageSize s q) (hfd : s.fdGet fh = some fd)
    {f : SpiffsFile → SpiffsFile} {g : PlainFile → PlainFile} {v : ℕ}
    (hf : f fd = { fd with fdoffset := v })
    (hg : g (plainFd fd) = { plainFd fd with position := v })
    (hle : v ≤ (q.content fd.objId).length) :
    Refines rep pageSize (s.modifyFd fh f) (q.modifyFd fh g) := by
  obtain ⟨c, hinv, hshows⟩ := h.inv
  obtain ⟨hget, hopen⟩ := fdGet_eq_some.mp hfd
  have hplain : ∀ fd', s.fds[fh]? = some fd' → plainFd (f fd') = g (plainFd fd') := by
    intro fd' hfd'
    obtain rfl := Option.some.inj (hget.symm.trans hfd')
    rw [hf, hg]
    rfl
  have hfds : (s.modifyFd fh f).fds.map plainFd = (q.modifyFd fh g).fds :=
    (map_plainFd_modify hplain).trans (congrArg (List.modify · fh g) h.fds)
  refine ⟨⟨c, hinv.modifyFd fun fd' hfd' => ?_, hshows⟩, hfds, fun i pfd hpfd => ?_⟩
  · obtain rfl := Option.some.inj (hget.symm.trans hfd')
    rw [hf]
    exact ⟨rfl, rfl, rfl, fun ix hpage => hinv.link fh fd ix hget hpage⟩
  · rw [map_fdGet hfds] at hpfd
    obtain ⟨fd', hfd', rfl⟩ := Option.map_eq_some_iff.mp hpfd
    obtain ⟨hget', hopen'⟩ := fdGet_eq_some.mp hfd'
    rw [getElem?_modifyFd] at hget'
    split at hget'
    · rw [‹fh = i›.symm, hget] at hget'
      obtain rfl := Option.some.inj hget'
      rw [hf]
      exact hle
    · exact h.position i _ (h.fdGet (fdGet_eq_some.mpr ⟨hget', hopen'⟩))

/-- **The contents of an object grow**, for the readers as for its object. -/
theorem Refines.update (h : Refines rep pageSize s q) {x : ℕ}
    (hinv : ∃ c, Inv rep pageSize c t ∧ t.Shows c x d ∧
      ∀ y, y ≠ x → t.Shows c y (q.content y))
    (hfds : t.fds.map plainFd = s.fds.map plainFd) (hle : (q.content x).length ≤ d.length) :
    Refines rep pageSize t { q with content := Function.update q.content x d } := by
  obtain ⟨c, hinv, hd, hothers⟩ := hinv
  refine ⟨⟨c, hinv, fun y => ?_⟩, hfds.trans h.fds, fun i pfd hpfd =>
    (h.position i pfd hpfd).trans ?_⟩
  · by_cases hy : y = x
    · subst hy
      dsimp only
      rw [Function.update_self]
      exact hd
    · dsimp only
      rw [Function.update_of_ne hy]
      exact hothers y hy
  · by_cases hy : pfd.objId = x
    · dsimp only
      rw [hy, Function.update_self]
      exact hle
    · dsimp only
      rw [Function.update_of_ne hy]

/-- An object is written over. -/
def overwrite (q : PlainFiles) (x k : ℕ) (buf : List UInt8) : PlainFiles :=
  { q with content := Function.update q.content x (overlay (q.content x) k buf) }

theorem content_overwrite_self (q : PlainFiles) (x k : ℕ) (buf : List UInt8) :
    (overwrite q x k buf).content x = overlay (q.content x) k buf := Function.update_self _ _ _

/-- What is shown of an object has no less than the object. -/
theorem Inv.length_le (h : Inv rep pageSize c s) (hd : s.Shows c x d) :
    (c x).length ≤ d.length := by
  rcases hd with ⟨ix, p, hp, rfl, rfl⟩ | ⟨-, rfl⟩
  · rw [Overlay.length_overlay _ (h.room ix p hp).2.2]
    exact Nat.le_max_left _ _
  · exact Nat.le_refl _

/-- A function that failed is noted. -/
theorem failed_called_of_neg {r : ℤ × σ} (h : r.1 < 0) : (s.called r).failed = true := by
  rw [called, decide_eq_true h, Bool.or_true]

/-- And one that did not fail is not. -/
theorem failed_called {r : ℤ × σ} (h : 0 ≤ r.1) : (s.called r).failed = s.failed := by
  rw [called, decide_eq_false (Int.not_lt.mpr h), Bool.or_false]

/-- **Data goes to an object that has no page.** -/
theorem Refines.hydroWrite (ho : o.Sound rep) (h : Refines rep pageSize s q)
    (hfd : s.fdGet fh = some fd) (hno : ∀ ix p, s.HasPage ix p → p.objId ≠ fd.objId)
    (hk : k ≤ (q.content fd.objId).length) (hok : 0 ≤ (hydroWrite o s.objects fh d k).1) :
    (SpiffsFiles.hydroWrite o s.objects fh d k).1 = d.length ∧
      Refines rep pageSize (s.called (SpiffsFiles.hydroWrite o s.objects fh d k))
        (overwrite q fd.objId k d) := by
  obtain ⟨c, hinv, hshows⟩ := h.inv
  have hcontent := shows_of_no_page hno (hshows fd.objId)
  unfold overwrite
  rw [hcontent] at hk ⊢
  obtain ⟨hres, hrep⟩ := rep_hydroWrite ho hinv.rep (opened_of_fdGet hfd) hk hok
  have hlen := Overlay.length_overlay d hk
  refine ⟨hres, h.update ⟨_, hinv.objects hrep fun ix p hp => ?_, Or.inr ⟨hno, ?_⟩, fun y hy =>
    (hshows y).congr (fun _ _ _ => Iff.rfl) (Function.update_of_ne hy _ _)⟩ rfl ?_⟩
  · rw [Function.update_of_ne (hno ix p hp)]
  · rw [Function.update_self]
  · rw [hcontent, hlen]
    exact Nat.le_max_left _ _

/-- **The page of a descriptor goes to its object**, and for a reader nothing changes. -/
theorem Refines.dump (ho : o.Sound rep) (h : Refines rep pageSize s q)
    (hfd : s.fdGet fh = some fd) (hp : s.HasPage ix p) (hobj : p.objId = fd.objId) :
    ∃ r : ℤ × SpiffsFiles σ, dump o s fh ix = some r ∧
      (r.1 < 0 ∧ r.2.failed = true ∨ 0 ≤ r.1 ∧ r.2.failed = s.failed ∧
        Refines rep pageSize r.2 q ∧ (∀ j p, r.2.HasPage j p → p.objId ≠ fd.objId) ∧
          ∀ j : ℕ, s.pages[j]? = some none → r.2.pages[j]? = some none) := by
  obtain ⟨c, hinv, hshows⟩ := h.inv
  have hpage : s.pages[ix]?.join = some p := by
    rw [show s.pages[ix]? = some (some p) from hp]
    rfl
  unfold SpiffsFiles.dump
  rw [hpage, Option.bind_eq_bind, Option.bind_some]
  refine ⟨_, rfl, ?_⟩
  rcases Int.lt_or_le (SpiffsFiles.hydroWrite o s.objects fh p.data p.offset).1 0 with hneg |
      hres
  · exact Or.inl ⟨hneg, failed_called_of_neg (s := s) hneg⟩
  refine Or.inr ⟨hres, failed_called (s := s) hres, ?_⟩
  have hroom := (hinv.room ix p hp).2.2
  rw [hobj] at hroom
  obtain ⟨-, hrep⟩ := rep_hydroWrite ho hinv.rep (opened_of_fdGet hfd) hroom hres
  have hlen := Overlay.length_overlay p.data hroom
  have hwritten :
      Inv rep pageSize _ (s.called (SpiffsFiles.hydroWrite o s.objects fh p.data p.offset)) :=
    hinv.objects hrep fun j q hq => by
      by_cases hqobj : q.objId = fd.objId
      · rw [hqobj, Function.update_self, hlen]
        exact Nat.le_max_left _ _
      · rw [Function.update_of_ne hqobj]
  obtain ⟨hreleased, hfds, hpages⟩ := hwritten.fdRelease hp.lt
  -- It was the page of the object.
  have hno :
      ∀ j p', ((s.called (SpiffsFiles.hydroWrite o s.objects fh p.data p.offset)).fdRelease
      ix).HasPage j p' → p'.objId ≠ fd.objId := by
    intro j p' hp' hobj'
    obtain ⟨hj, hp''⟩ := (hpages j p').mp hp'
    exact hj (hinv.unique j ix p' p hp'' hp (hobj'.trans hobj.symm))
  refine ⟨⟨⟨_, hreleased, fun x => ?_⟩, hfds.trans h.fds, h.position⟩, hno, fun j hj => ?_⟩
  · by_cases hx : x = fd.objId
    · subst hx
      refine Or.inr ⟨hno, ?_⟩
      rw [Function.update_self]
      have hshown := hinv.shows_of_page hp (hobj ▸ hshows fd.objId)
      rwa [hobj] at hshown
    · refine (hshows x).congr (fun j p' hp' => ?_) (Function.update_of_ne hx _ _)
      refine Iff.trans ?_ (hpages j p').symm
      refine ⟨fun hhas => ⟨fun hj => hx ?_, hhas⟩, fun hhas => hhas.2⟩
      subst hj
      rw [← hp', HasPage.eq hhas hp, hobj]
  · show (s.pages.set ix none)[j]? = some none
    rw [List.getElem?_set]
    split
    · rw [if_pos hp.lt]
    · exact hj

/-- **A flush**: the object has no page afterwards, and for a reader nothing changes. -/
theorem Refines.fflushCache (ho : o.Sound rep) (h : Refines rep pageSize s q)
    (hfd : s.fdGet fh = some fd)
    (hdirect : fd.flags.direct = true → s.pageGetByFd fd.objId = none) :
    ∃ r : ℤ × SpiffsFiles σ, fflushCache o s fh = some r ∧
      (r.1 < 0 ∧ r.2.failed = true ∨ 0 ≤ r.1 ∧ r.2.failed = s.failed ∧
        Refines rep pageSize r.2 q ∧ ∀ j p, r.2.HasPage j p → p.objId ≠ fd.objId) := by
  obtain ⟨c, hinv, -⟩ := h.inv
  obtain ⟨hget, -⟩ := fdGet_eq_some.mp hfd
  unfold SpiffsFiles.fflushCache
  rw [hfd]
  dsimp only
  by_cases hd : fd.flags.direct = true
  · rw [if_pos hd]
    exact ⟨_, rfl, Or.inr ⟨Int.le_refl _, rfl, h, no_page_of_none (hdirect hd)⟩⟩
  · rw [if_neg hd]
    rcases hinv.cachePage_cases hget with ⟨hnone, hnopage⟩ | ⟨ix, p, hp, hobj, hsome⟩
    · rw [hnone]
      exact ⟨_, rfl, Or.inr ⟨Int.le_refl _, rfl, h, hnopage⟩⟩
    · rw [hsome]
      have hattach := h.attach hfd hp hobj
      obtain ⟨fd', hfd', hplain⟩ := hattach.exists_fdGet (h.fdGet hfd)
      have hobj' : fd'.objId = fd.objId := congrArg PlainFile.objId hplain
      obtain ⟨r, hr, hok⟩ := hattach.dump ho hfd' hp (hobj.trans hobj'.symm)
      refine ⟨r, hr, hok.imp_right fun ⟨hres, hfailed, hrefines, hnopage, _⟩ => ?_⟩
      exact ⟨hres, hfailed, hrefines, hobj' ▸ hnopage⟩

/-! ## Writes -/

/-- A plain write. -/
def plainWrite (q : PlainFiles) (fh x k : ℕ) (buf : List UInt8) : PlainFiles :=
  (overwrite q x k buf).modifyFd fh (PlainFiles.advance buf.length)

/-- **What a write does to its object**, where it goes to and what it leaves open. -/
structure Fits (q : PlainFiles) (fd : PlainFile) (k n : ℕ) : Prop where
  le : k ≤ (q.content fd.objId).length
  position : fd.position ≤ k
  lt : fd.position + n < 2 ^ 32

/-- The position after a write. -/
theorem advance_eq (hlt : fd.fdoffset + k < 2 ^ 32) :
    advance k fd = { fd with fdoffset := fd.fdoffset + k } := by
  rw [advance, Nat.mod_eq_of_lt hlt]

/-- After a write to its object, the descriptor moves on. -/
theorem Refines.advance_write (hfd : s.fdGet fh = some fd) {buf : List UInt8}
    (hfits : Fits q (plainFd fd) k buf.length)
    (h : Refines rep pageSize s (overwrite q fd.objId k buf)) :
    Refines rep pageSize (s.modifyFd fh (advance buf.length))
      (plainWrite q fh fd.objId k buf) := by
  refine h.move hfd (advance_eq hfits.lt) rfl ?_
  have hposition := hfits.position
  have hle : k ≤ (q.content fd.objId).length := hfits.le
  rw [content_overwrite_self, Overlay.length_overlay _ hle]
  exact (Nat.add_le_add_right hposition _).trans (Nat.le_max_right _ _)

/-- Data that is not kept. -/
theorem Refines.writeThrough (ho : o.Sound rep) (h : Refines rep pageSize s q)
    (hfd : s.fdGet fh = some fd) (hno : ∀ ix p, s.HasPage ix p → p.objId ≠ fd.objId)
    {buf : List UInt8} (hfits : Fits q (plainFd fd) k buf.length) :
    (writeThrough o s fh buf k).2.failed = true ∨
      (SpiffsFiles.writeThrough o s fh buf k).2.failed = s.failed ∧
      (SpiffsFiles.writeThrough o s fh buf k).1 = buf.length ∧
      Refines rep pageSize (SpiffsFiles.writeThrough o s fh buf k).2
        (plainWrite q fh fd.objId k buf) := by
  unfold SpiffsFiles.writeThrough
  dsimp only
  rcases Int.lt_or_le (SpiffsFiles.hydroWrite o s.objects fh buf k).1 0 with hneg | hres
  · rw [if_pos hneg]
    exact Or.inl (failed_called_of_neg hneg)
  · rw [if_neg (Int.not_lt.mpr hres)]
    obtain ⟨hlen, hrefines⟩ := h.hydroWrite ho hfd hno hfits.le hres
    have hfd' : (s.called (SpiffsFiles.hydroWrite o s.objects fh buf k)).fdGet fh = some fd :=
      hfd
    exact Or.inr ⟨failed_called hres, hlen, Refines.advance_write hfd' hfits hrefines⟩

/-- Data that is written twice. -/
theorem Refines.writeTwice (ho : o.Sound rep) (h : Refines rep pageSize s q)
    (hfd : s.fdGet fh = some fd) (hno : ∀ ix p, s.HasPage ix p → p.objId ≠ fd.objId)
    {buf : List UInt8} (hfits : Fits q (plainFd fd) k buf.length) :
    ∃ r : ℤ × SpiffsFiles σ,
      (if (SpiffsFiles.hydroWrite o s.objects fh buf k).1 < 0 then
        some (-1, s.called (SpiffsFiles.hydroWrite o s.objects fh buf k))
      else some (SpiffsFiles.writeThrough o
        (s.called (SpiffsFiles.hydroWrite o s.objects fh buf k)) fh buf k)) = some r ∧
      (r.2.failed = true ∨ r.2.failed = s.failed ∧ r.1 = buf.length ∧
        Refines rep pageSize r.2 (plainWrite q fh fd.objId k buf)) := by
  rcases Int.lt_or_le (SpiffsFiles.hydroWrite o s.objects fh buf k).1 0 with hneg | hres
  · rw [if_pos hneg]
    exact ⟨_, rfl, Or.inl (failed_called_of_neg hneg)⟩
  · rw [if_neg (Int.not_lt.mpr hres)]
    have hle : k ≤ (q.content fd.objId).length := hfits.le
    obtain ⟨-, hrefines⟩ := h.hydroWrite ho hfd hno hle hres
    -- The second time, nothing changes.
    have hagain : Fits (overwrite q fd.objId k buf) (plainFd fd) k buf.length := by
      refine ⟨?_, hfits.position, hfits.lt⟩
      show k ≤ ((overwrite q fd.objId k buf).content fd.objId).length
      rw [content_overwrite_self, Overlay.length_overlay _ hle]
      exact hle.trans (Nat.le_max_left _ _)
    have hsame : plainWrite (overwrite q fd.objId k buf) fh fd.objId k buf =
        plainWrite q fh fd.objId k buf := by
      unfold plainWrite overwrite
      dsimp only
      rw [Function.update_self, Function.update_idem, Overlay.overlay_overlay_self _ hle]
    have hwritten := hrefines.writeThrough ho (k := k) hfd hno hagain
    rw [hsame, failed_called hres] at hwritten
    exact ⟨_, rfl, hwritten⟩

/-- **Data goes to the page of the object.** -/
theorem Refines.writePage (h : Refines rep pageSize s q) (hsmall : pageSize < 2 ^ 16)
    (hfd : s.fdGet fh = some fd)
    (hp : s.HasPage ix p) (hobj : p.objId = fd.objId) {buf : List UInt8}
    (hfits : Fits q (plainFd fd) k buf.length) (hlow : p.offset ≤ k)
    (hhigh : k ≤ p.offset + p.size)
    (hroom : k + buf.length ≤ p.offset + pageSize) :
    ∃ r : ℤ × SpiffsFiles σ, writePage s fh ix buf k = some r ∧ r.1 = buf.length ∧
      r.2.failed = s.failed ∧ Refines rep pageSize r.2 (plainWrite q fh fd.objId k buf) := by
  obtain ⟨c, hinv, hshows⟩ := h.inv
  obtain ⟨hmem, hsize, hoffset⟩ := hinv.room ix p hp
  obtain ⟨j, rfl⟩ := Nat.exists_eq_add_of_le hlow
  have hwrite : Block.write p.mem (p.offset + j - p.offset) buf =
      some (overlay p.mem j buf) := by
    rw [Nat.add_sub_cancel_left]
    exact Overlay.write_eq_overlay (by omega)
  have hpage : s.pages[ix]?.join = some p := by
    rw [show s.pages[ix]? = some (some p) from hp]
    rfl
  unfold SpiffsFiles.writePage
  rw [hpage, Option.bind_eq_bind, Option.bind_some]
  dsimp only
  rw [hwrite, Option.bind_eq_bind, Option.bind_some, Nat.add_sub_cancel_left,
    Nat.mod_eq_of_lt (show max p.size (j + buf.length) < 2 ^ 16 by omega)]
  refine ⟨_, rfl, rfl, rfl, Refines.advance_write ?_ hfits ?_⟩
  · exact hfd
  -- The data of the page is the old one, with the new one over it.
  have hdata : (overlay p.mem j buf).take (max p.size (j + buf.length)) =
      overlay p.data j buf :=
    Overlay.take_overlay buf (by omega) (by omega)
  have hdatalen : p.data.length = p.size := by
    rw [WrPage.data, List.length_take]
    omega
  have hcontent := hinv.shows_of_page hp (hobj ▸ hshows fd.objId)
  rw [hobj] at hcontent hoffset
  have hover : overlay (q.content fd.objId) (p.offset + j) buf =
      overlay (c fd.objId) p.offset (overlay p.data j buf) := by
    rw [hcontent]
    exact Overlay.overlay_overlay buf hoffset (by omega)
  refine h.update ⟨c, hinv.setPage hp.lt ⟨?_, ?_, ?_⟩ (Or.inl ⟨p, hp, rfl⟩), Or.inl ⟨ix,
    { p with mem := overlay p.mem j buf, size := max p.size (j + buf.length) },
    (hasPage_set hp.lt).mpr (by rw [if_pos rfl]), hobj, ?_⟩, fun y hy => ?_⟩ rfl ?_
  · dsimp only
    rw [Overlay.length_overlay _ (by omega)]
    omega
  · dsimp only
    omega
  · dsimp only
    rw [hobj]
    exact hoffset
  · rw [hover]
    exact congrArg (overlay (c fd.objId) p.offset) hdata.symm
  · refine (hshows y).congr (fun i p' hp' => ?_) rfl
    rw [hasPage_set hp.lt]
    by_cases hi : i = ix
    · subst hi
      rw [if_pos rfl]
      constructor
      · intro hhas
        rw [hp.eq hhas] at hobj
        exact absurd (hp'.symm.trans hobj) hy
      · intro heq
        rw [← Option.some.inj heq] at hp'
        exact absurd (hp'.symm.trans hobj) hy
    · rw [if_neg hi]
  · have hle : p.offset + j ≤ (q.content fd.objId).length := hfits.le
    rw [Overlay.length_overlay _ hle]
    exact Nat.le_max_left _ _

/-- What `spiffs_cache_page_allocate_by_fd` may find. -/
def Allocates (pageSize : ℕ) (s : SpiffsFiles σ) (alloc : Option (ℕ × List UInt8)) : Prop :=
  ∀ a ∈ alloc, s.pages[a.1]? = some none ∧ a.2.length = pageSize

/-- A free page becomes one of an object that has none. -/
theorem Refines.setNew (h : Refines rep pageSize s q) (hfd : s.fdGet fh = some fd)
    (hno : ∀ ix p, s.HasPage ix p → p.objId ≠ fd.objId) (hdirect : fd.flags.direct = false)
    (hfree : s.pages[ix]? = some none) (hobj : p.objId = fd.objId) (hsize : p.size = 0)
    (hmem : p.mem.length = pageSize) (hle : p.offset ≤ (q.content fd.objId).length) :
    Refines rep pageSize { s with pages := s.pages.set ix (some p) } q := by
  obtain ⟨c, hinv, hshows⟩ := h.inv
  obtain ⟨hget, hopen⟩ := fdGet_eq_some.mp hfd
  have hix : ix < s.pages.length := (List.getElem?_eq_some_iff.mp hfree).1
  have hcontent := shows_of_no_page hno (hshows fd.objId)
  have hempty : ∀ p, ¬ s.HasPage ix p := by
    intro p hp
    rw [HasPage, hfree] at hp
    cases Option.some.inj hp
  rw [hcontent] at hle
  refine ⟨⟨c, hinv.setPage hix ⟨hmem, hsize ▸ Nat.zero_le _, hobj ▸ hle⟩ (Or.inr ⟨hempty,
    hobj ▸ hno, fh, fd, hget, hopen, hobj.symm, hdirect⟩), fun x => ?_⟩, h.fds, h.position⟩
  by_cases hx : x = fd.objId
  · -- The page has no data yet.
    subst hx
    refine Or.inl ⟨ix, p, (hasPage_set hix).mpr (by rw [if_pos rfl]), hobj, ?_⟩
    rw [WrPage.data, hsize, List.take_zero, Overlay.overlay_nil]
    exact hcontent
  · refine (hshows x).congr (fun j p' hp' => ?_) rfl
    rw [hasPage_set hix]
    by_cases hj : j = ix
    · subst hj
      rw [if_pos rfl]
      refine ⟨fun hhas => absurd hhas (hempty p'), fun heq => ?_⟩
      rw [← Option.some.inj heq] at hp'
      exact absurd (hp'.symm.trans hobj) hx
    · rw [if_neg hj]

/-- **Data that gets a page of its own**, or goes to the object if there is none. -/
theorem Refines.writeNew (ho : o.Sound rep) (h : Refines rep pageSize s q)
    (hpageSize : pageSize < 2 ^ 16) (hfd : s.fdGet fh = some fd)
    (hno : ∀ ix p, s.HasPage ix p → p.objId ≠ fd.objId)
    (hdirect : fd.flags.direct = false) {fd' : SpiffsFile} (hobj : fd'.objId = fd.objId)
    {buf : List UInt8} (hfits : Fits q (plainFd fd) k buf.length)
    (hsmall : buf.length < pageSize)
    {alloc : Option (ℕ × List UInt8)} (halloc : Allocates pageSize s alloc) :
    ∃ r : ℤ × SpiffsFiles σ, writeNew o s fh fd' buf k alloc = some r ∧
      (r.2.failed = true ∨ r.2.failed = s.failed ∧ r.1 = buf.length ∧
        Refines rep pageSize r.2 (plainWrite q fh fd.objId k buf)) := by
  cases alloc with
  | none => exact ⟨_, rfl, h.writeThrough ho hfd hno hfits⟩
  | some a =>
    obtain ⟨ix, mem⟩ := a
    obtain ⟨hfree, hmem⟩ := halloc (ix, mem) rfl
    dsimp only at hfree hmem
    unfold SpiffsFiles.writeNew
    dsimp only
    generalize hpage : ({ objId := fd'.objId, offset := k, size := 0, mem := mem } : WrPage) = p
    have hpobj : p.objId = fd.objId := hpage ▸ hobj
    have hoffset : p.offset = k := hpage ▸ rfl
    have hset := h.setNew hfd hno hdirect hfree hpobj (hpage ▸ rfl) (hpage ▸ hmem)
      (hoffset ▸ hfits.le)
    have hhas : SpiffsFiles.HasPage { s with pages := s.pages.set ix (some p) } ix p :=
      (hasPage_set (List.getElem?_eq_some_iff.mp hfree).1).mpr (by rw [if_pos rfl])
    have hget : SpiffsFiles.fdGet { s with pages := s.pages.set ix (some p) } fh = some fd :=
      hfd
    have hattach := hset.attach hget hhas hpobj
    obtain ⟨fd₁, hfd₁, hplain⟩ := hattach.exists_fdGet (hset.fdGet hfd)
    have hobj₁ : fd₁.objId = fd.objId := congrArg PlainFile.objId hplain
    obtain ⟨r, hr, hres, hfailed, hrefines⟩ := hattach.writePage hpageSize hfd₁ hhas
      (hpobj.trans hobj₁.symm) (hplain ▸ hfits) hoffset.le (hoffset ▸ Nat.le_add_right _ _)
      (hoffset ▸ Nat.add_le_add_left hsmall.le _)
    exact ⟨r, hr, Or.inr ⟨hfailed, hres, hobj₁ ▸ hrefines⟩⟩

/-- The size of an object that is not empty. -/
theorem sizeField_ne (hlen : d.length < 2 ^ 31) (hne : d ≠ []) :
    FileReader.sizeField d = d.length ∧ FileReader.sizeField d ≠ SpiffsObject.undefinedLen := by
  rw [FileReader.sizeField_of_ne hne]
  refine ⟨rfl, ?_⟩
  unfold SpiffsObject.undefinedLen
  omega

/-- The length of an object. -/
theorem length_eq (hsize : o.size s.objects fh = FileReader.sizeField d)
    (hlen : d.length < 2 ^ 31) : length o s fh = d.length := by
  unfold length
  rw [hsize]
  by_cases hnil : d = []
  · rw [hnil]
    rfl
  · obtain ⟨hfield, hdef⟩ := sizeField_ne hlen hnil
    dsimp only
    rw [if_neg hdef, hfield]

/-- **Where a write goes to** is where a plain one goes to. -/
theorem Refines.writeOffset (ho : o.Sound rep) (h : Refines rep pageSize s q)
    (hfd : s.fdGet fh = some fd) {page : Option WrPage}
    (hpage : (page = none ∧ ∀ ix p, s.HasPage ix p → p.objId ≠ fd.objId) ∨
      ∃ ix p, page = some p ∧ s.HasPage ix p ∧ p.objId = fd.objId) :
    writeOffset o s fh fd page =
      if fd.flags.append then (q.content fd.objId).length else fd.fdoffset := by
  obtain ⟨c, hinv, hshows⟩ := h.inv
  have hsize := ho.size _ _ _ _ _ hinv.rep (opened_of_fdGet hfd)
  have hlen := ho.length _ _ _ fd.objId hinv.rep
  unfold SpiffsFiles.writeOffset
  by_cases happend : fd.flags.append = true
  · rw [if_pos happend, if_pos happend, length_eq hsize hlen]
    rcases hpage with ⟨rfl, hno⟩ | ⟨ix, p, rfl, hp, hobj⟩
    · rw [shows_of_no_page hno (hshows fd.objId)]
      rfl
    · have hcontent := hinv.shows_of_page hp (hobj ▸ hshows fd.objId)
      obtain ⟨hmem, hpsize, hoffset⟩ := hinv.room ix p hp
      have hdatalen : p.data.length = p.size := by
        rw [WrPage.data, List.length_take]
        omega
      rw [hobj] at hcontent hoffset
      rw [hcontent, Overlay.length_overlay _ hoffset, hdatalen]
      rfl
  · rw [if_neg happend, if_neg happend]

/-- The room for a write. -/
theorem Refines.fits (h : Refines rep pageSize s q) (hfd : s.fdGet fh = some fd) {n : ℕ}
    (hlt : fd.fdoffset + n < 2 ^ 32) :
    Fits q (plainFd fd)
      (if fd.flags.append then (q.content fd.objId).length else fd.fdoffset) n := by
  have hposition : fd.fdoffset ≤ (q.content fd.objId).length :=
    h.position fh _ (h.fdGet hfd)
  refine ⟨?_, ?_, hlt⟩
  · split
    · exact Nat.le_refl _
    · exact hposition
  · split
    · exact hposition
    · exact Nat.le_refl _

/-- What a write is given. -/
def WriteOk (pageSize : ℕ) (s : SpiffsFiles σ) (fh : ℕ) (buf : List UInt8)
    (alloc : Option (ℕ × List UInt8)) : Prop :=
  Allocates pageSize s alloc ∧ ∀ fd ∈ s.fdGet fh, fd.fdoffset + buf.length < 2 ^ 32 ∧
    (fd.flags.direct = true → s.pageGetByFd fd.objId = none)

/-- **`SPIFFS_write` is a plain write.** -/
theorem Refines.write (ho : o.Sound rep) (h : Refines rep pageSize s q)
    (hpageSize : pageSize < 2 ^ 16) {buf : List UInt8}
    {alloc : Option (ℕ × List UInt8)} (hok : WriteOk pageSize s fh buf alloc) :
    ∃ r : ℤ × SpiffsFiles σ, write o pageSize s fh buf alloc = some r ∧
      (r.2.failed = true ∨ r.2.failed = s.failed ∧ r.1 = (q.write fh buf).1 ∧
        Refines rep pageSize r.2 (q.write fh buf).2) := by
  unfold SpiffsFiles.write PlainFiles.write
  rw [map_fdGet h.fds]
  cases hfd : s.fdGet fh with
  | none => exact ⟨_, rfl, Or.inr ⟨rfl, rfl, h⟩⟩
  | some fd =>
    obtain ⟨hlt, hdirect⟩ := hok.2 fd hfd
    rw [Option.map_some]
    dsimp only
    by_cases hwronly : fd.flags.wronly = false
    · rw [if_pos hwronly, if_pos (show (plainFd fd).flags.wronly = false from hwronly)]
      exact ⟨_, rfl, Or.inr ⟨rfl, rfl, h⟩⟩
    rw [if_neg hwronly, if_neg (show ¬ (plainFd fd).flags.wronly = false from hwronly)]
    have hfits := h.fits hfd hlt
    obtain ⟨c, hinv, -⟩ := h.inv
    rcases hinv.cachePage_cases (fdGet_eq_some.mp hfd).1 with
      ⟨hnone, hno⟩ | ⟨ix, p, hp, hobj, hsome⟩
    · -- The object has no page.
      rw [hnone]
      dsimp only
      rw [h.writeOffset ho hfd (Or.inl ⟨rfl, hno⟩)]
      by_cases hsmall : fd.flags.direct = false ∧ buf.length < pageSize
      · rw [if_pos hsmall]
        exact h.writeNew ho hpageSize hfd hno hsmall.1 rfl hfits hsmall.2 hok.1
      · rw [if_neg hsmall]
        exact ⟨_, rfl, h.writeThrough ho hfd hno hfits⟩
    · have hnotdirect : ¬ fd.flags.direct = true := fun hd =>
        no_page_of_none (hdirect hd) ix p hp hobj
      have hpage : s.pages[ix]?.join = some p := by
        rw [show s.pages[ix]? = some (some p) from hp]
        rfl
      have hattach := h.attach hfd hp hobj
      obtain ⟨fd₁, hfd₁, hplain⟩ := hattach.exists_fdGet (h.fdGet hfd)
      have hobj₁ : fd₁.objId = fd.objId := congrArg PlainFile.objId hplain
      have hdirect₁ : fd₁.flags.direct = false := by
        rw [show fd₁.flags = fd.flags from congrArg PlainFile.flags hplain]
        simpa using hnotdirect
      rw [← hplain] at hfits
      rw [hsome]
      dsimp only
      rw [hpage, Option.bind_eq_bind, Option.bind_some, h.writeOffset ho hfd
        (Or.inr ⟨ix, p, rfl, hp, hobj⟩), if_neg hnotdirect]
      show ∃ r : ℤ × SpiffsFiles σ, _ = some r ∧ (r.2.failed = true ∨ r.2.failed = s.failed ∧
        r.1 = buf.length ∧ Refines rep pageSize r.2 (plainWrite q fh fd.objId
          (if fd.flags.append then (q.content fd.objId).length else fd.fdoffset) buf))
      generalize (if fd.flags.append then (q.content fd.objId).length else fd.fdoffset) = k
        at hfits ⊢
      -- What is in the page goes to the object first, or the data fits in it.
      obtain ⟨r, hr, hdump⟩ := hattach.dump ho hfd₁ hp (hobj.trans hobj₁.symm)
      by_cases hsmall : buf.length < pageSize
      · rw [if_pos hsmall]
        by_cases hboundary : k < p.offset ∨ p.offset + p.size < k ∨
            p.offset + pageSize < k + buf.length
        · rw [if_pos hboundary, hr, Option.bind_eq_bind, Option.bind_some]
          rcases hdump with ⟨hneg, hfailed⟩ | ⟨hres, hfailed, hrefines, hno, hfree⟩
          · rw [if_pos hneg]
            exact ⟨_, rfl, Or.inl hfailed⟩
          · rw [if_neg (Int.not_lt.mpr hres)]
            obtain ⟨fd₂, hfd₂, hplain₂⟩ := hrefines.exists_fdGet (hattach.fdGet hfd₁)
            have hobj₂ : fd₂.objId = fd₁.objId := congrArg PlainFile.objId hplain₂
            have hdirect₂ : fd₂.flags.direct = false := by
              rw [show fd₂.flags = fd₁.flags from congrArg PlainFile.flags hplain₂]
              exact hdirect₁
            rw [← hplain₂] at hfits
            obtain ⟨r', hr', hwritten⟩ :=
              hrefines.writeNew ho hpageSize hfd₂ (hobj₂ ▸ hno) hdirect₂
              (hobj₁.symm.trans hobj₂.symm) hfits hsmall (fun a ha =>
                ⟨hfree _ (hok.1 a ha).1, (hok.1 a ha).2⟩)
            rw [hobj₂, hobj₁, hfailed] at hwritten
            exact ⟨r', hr', hwritten⟩
        · rw [if_neg hboundary]
          obtain ⟨hlow, hhigh, hroom⟩ : p.offset ≤ k ∧ k ≤ p.offset + p.size ∧
              k + buf.length ≤ p.offset + pageSize := by omega
          obtain ⟨r', hr', hres, hfailed, hrefines⟩ := hattach.writePage hpageSize hfd₁ hp
            (hobj.trans hobj₁.symm) hfits hlow hhigh hroom
          rw [hobj₁] at hrefines
          exact ⟨r', hr', Or.inr ⟨hfailed, hres, hrefines⟩⟩
      · rw [if_neg hsmall, hr, Option.bind_eq_bind, Option.bind_some]
        rcases hdump with ⟨hneg, hfailed⟩ | ⟨hres, hfailed, hrefines, hno, -⟩
        · rw [if_pos hneg]
          exact ⟨_, rfl, Or.inl hfailed⟩
        · rw [if_neg (Int.not_lt.mpr hres)]
          obtain ⟨fd₂, hfd₂, hplain₂⟩ := hrefines.exists_fdGet (hattach.fdGet hfd₁)
          have hobj₂ : fd₂.objId = fd₁.objId := congrArg PlainFile.objId hplain₂
          rw [← hplain₂] at hfits
          obtain ⟨r', hr', hwritten⟩ := hrefines.writeTwice ho hfd₂ (hobj₂ ▸ hno) hfits
          rw [hobj₂, hobj₁, hfailed] at hwritten
          exact ⟨r', hr', hwritten⟩

end SpiffsFiles
