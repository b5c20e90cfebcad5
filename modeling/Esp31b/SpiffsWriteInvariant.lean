import Esp31b.SpiffsWriteCache
import Esp31b.Transducer
import Mathlib.Logic.Function.Basic

/-!
# Plain files, and the invariant of the write cache

A user of the files does not want to know of their write cache: each object has contents, a
descriptor has a position in them, a write is done at once (`PlainFiles`). The files with the
cache stand for plain ones (`SpiffsFiles.Refines`) if what an object holds, with the data of its
page over it, is what the plain object holds.

What the functions for the objects on the flash have to do for that is `SpiffsObjects.Sound`,
the pages and the descriptors keep `SpiffsFiles.Inv`. Here is what keeps the invariant: a
descriptor that moves, contents that grow, a page that is set and one that is released.
-/

open List (overlay)

/-- **What the functions for the objects do**, unless they fail: `rep` says that the objects
have these contents, and which of them the descriptors are for. A write is to the object, or to
its end. -/
structure SpiffsObjects.Sound {σ : Type} (o : SpiffsObjects σ)
    (rep : σ → (ℕ → List UInt8) → (ℕ → Option ℕ) → Prop) : Prop where
  size : ∀ s c m fh x, rep s c m → m fh = some x → o.size s fh = FileReader.sizeField (c x)
  length : ∀ s c m x, rep s c m → (c x).length < 2 ^ 31
  isFree : ∀ s c m x fh, rep s c m → o.isFree s x = true → m fh ≠ some x
  objectCreate : ∀ s c m x, rep s c m → o.isFree s x = true → 0 ≤ (o.objectCreate s x).1 →
    rep (o.objectCreate s x).2 (Function.update c x []) m
  openByPage : ∀ s c m fh x, rep s c m → m fh = none → 0 ≤ (o.openByPage s fh x).1 →
    rep (o.openByPage s fh x).2 c (Function.update m fh (some x))
  close : ∀ s c m fh, rep s c m → rep s c (Function.update m fh none)
  objectModify : ∀ s c m fh x k d, rep s c m → m fh = some x → k + d.length ≤ (c x).length →
    0 ≤ (o.objectModify s fh k d).1 →
    rep (o.objectModify s fh k d).2 (Function.update c x (overlay (c x) k d)) m
  objectAppend : ∀ s c m fh x d, rep s c m → m fh = some x →
    0 ≤ (o.objectAppend s fh (c x).length d).1 →
    rep (o.objectAppend s fh (c x).length d).2 (Function.update c x (c x ++ d)) m
  objectRead : ∀ s c m fh x k n, rep s c m → m fh = some x → k + n ≤ (c x).length →
    0 ≤ (o.objectRead s fh k n).1 ∨ (o.objectRead s fh k n).1 = SpiffsObject.errEndOfObject →
    (o.objectRead s fh k n).2.1 = ((c x).drop k).take n ∧ rep (o.objectRead s fh k n).2.2 c m
  findIndex : ∀ s c m fh k, rep s c m → 0 ≤ (o.findIndex s fh k).1 →
    rep (o.findIndex s fh k).2 c m
  objectRemove : ∀ s c m fh x, rep s c m → m fh = none → 0 ≤ (o.objectRemove s fh x).1 →
    rep (o.objectRemove s fh x).2 (Function.update c x []) fun i =>
      if m i = some x then none else m i

namespace SpiffsFiles

variable {σ : Type} {o : SpiffsObjects σ} {rep : σ → (ℕ → List UInt8) → (ℕ → Option ℕ) → Prop}
variable {objects : σ} {c : ℕ → List UInt8} {m : ℕ → Option ℕ} {fh x k : ℕ} {d : List UInt8}

/-- The rest goes to the end of the object. -/
theorem rep_hydroAppend (ho : o.Sound rep) (hrep : rep objects c m) (hm : m fh = some x)
    (n : ℕ) (hok : 0 ≤ (hydroAppend o objects fh n d (c x).length).1) :
    (hydroAppend o objects fh n d (c x).length).1 = n ∧
      rep (hydroAppend o objects fh n d (c x).length).2 (Function.update c x (c x ++ d)) m := by
  unfold hydroAppend at hok ⊢
  by_cases hpos : 0 < d.length
  · rw [if_pos hpos] at hok ⊢
    dsimp only at hok ⊢
    have hres : ¬ (o.objectAppend objects fh (c x).length d).1 < 0 := by
      intro hneg
      rw [if_pos hneg] at hok
      omega
    rw [if_neg hres]
    exact ⟨rfl, ho.objectAppend _ _ _ _ _ _ hrep hm (Int.not_lt.mp hres)⟩
  · have hnil : d = [] := List.length_eq_zero_iff.mp (by omega)
    rw [if_neg hpos, hnil, List.append_nil, Function.update_eq_self]
    exact ⟨rfl, hrep⟩

/-- **`spiffs_hydro_write` writes over the object.** -/
theorem rep_hydroWrite (ho : o.Sound rep) (hrep : rep objects c m) (hm : m fh = some x)
    (hk : k ≤ (c x).length) (hok : 0 ≤ (hydroWrite o objects fh d k).1) :
    (hydroWrite o objects fh d k).1 = d.length ∧
      rep (hydroWrite o objects fh d k).2 (Function.update c x (overlay (c x) k d)) m := by
  have hsize := ho.size _ _ _ _ _ hrep hm
  have hlen := ho.length _ _ _ x hrep
  unfold hydroWrite at hok ⊢
  dsimp only at hok ⊢
  rw [hsize] at hok ⊢
  by_cases hlt : k < (c x).length
  · -- What is in the object is modified, and the rest is appended.
    have hne : c x ≠ [] := List.ne_nil_of_length_pos (by omega)
    rw [FileReader.sizeField_of_ne hne] at hok ⊢
    have hdef : (c x).length ≠ SpiffsObject.undefinedLen ∧ k < (c x).length := by
      refine ⟨?_, hlt⟩
      unfold SpiffsObject.undefinedLen
      omega
    rw [if_pos hdef] at hok ⊢
    generalize hmLen : min ((c x).length - k) d.length = mLen at hok ⊢
    have htake : (d.take mLen).length = mLen := by
      rw [List.length_take]
      omega
    have hres : ¬ (o.objectModify objects fh k (d.take mLen)).1 < 0 := by
      intro hneg
      rw [if_pos hneg] at hok
      omega
    rw [if_neg hres] at hok ⊢
    have hmodify := ho.objectModify _ _ _ _ _ _ _ hrep hm (by rw [htake]; omega)
      (Int.not_lt.mp hres)
    have hover := Overlay.overlay_append (d.take mLen) (d.drop mLen) hlt.le
    rw [List.take_append_drop, htake] at hover
    by_cases hrest : mLen = d.length
    · have hdrop : d.drop mLen = [] := List.drop_eq_nil_of_le (by omega)
      rw [hdrop, Overlay.overlay_nil] at hover
      rw [hdrop, hover]
      exact ⟨rfl, hmodify⟩
    · have hend : k + mLen = (overlay (c x) k (d.take mLen)).length := by
        rw [Overlay.length_overlay _ hlt.le, htake]
        omega
      have hself : Function.update c x (overlay (c x) k (d.take mLen)) x =
          overlay (c x) k (d.take mLen) := Function.update_self _ _ _
      rw [hend, ← hself] at hok ⊢
      have happend := rep_hydroAppend ho hmodify hm d.length hok
      rw [hself, Function.update_idem, ← Overlay.overlay_length, ← hend, ← hover, hend,
        ← hself] at happend
      exact happend
  · obtain rfl : k = (c x).length := by omega
    have hdef : ¬ (FileReader.sizeField (c x) ≠ SpiffsObject.undefinedLen ∧
        (c x).length < FileReader.sizeField (c x)) := by
      by_cases hnil : c x = []
      · rw [hnil]
        exact fun h => h.1 rfl
      · rw [FileReader.sizeField_of_ne hnil]
        exact fun h => lt_irrefl _ h.2
    rw [if_neg hdef] at hok ⊢
    rw [Overlay.overlay_length]
    exact rep_hydroAppend ho hrep hm d.length hok

end SpiffsFiles

/-! ## Plain files -/

/-- The calls. What is found under a name, the id that a new object may get and the page that a
write may get are part of them. -/
inductive FilesCall where
  | openFile (found : Except ℤ ℕ) (newId : Option ℕ) (flags : OpenFlags)
  | write (fh : ℕ) (buf : List UInt8) (alloc : Option (ℕ × List UInt8))
  | read (fh len : ℕ)
  | lseek (fh : ℕ) (offs : ℤ) (whence : SeekMode)
  | fflush (fh : ℕ)
  | close (fh : ℕ)
  | remove (found : Except ℤ ℕ)

/-- **What a user sees of an answer**: of `SPIFFS_fflush` whether it has failed. How much it has
written is a matter of the cache. -/
def FilesCall.seen : FilesCall → ℤ × List UInt8 → ℤ × List UInt8
  | .fflush _, (res, data) => (min res 0, data)
  | _, answer => answer

/-- **The files with their write cache.** -/
def SpiffsFiles.files {σ : Type} (o : SpiffsObjects σ) (pageSize : ℕ) :
    Transducer (SpiffsFiles σ) FilesCall (ℤ × List UInt8) where
  step s
    | .openFile found newId flags =>
      let r := openFile o s found newId flags
      some ((r.1, []), r.2)
    | .write fh buf alloc => (write o pageSize s fh buf alloc).map fun r => ((r.1, []), r.2)
    | .read fh len => read o s fh len
    | .lseek fh offs whence => (lseek o s fh offs whence).map fun r => ((r.1, []), r.2)
    | .fflush fh => (fflush o s fh).map fun r => ((r.1, []), r.2)
    | .close fh => (close o s fh).map fun r => ((r.1, []), r.2)
    | .remove found =>
      let r := remove o s found
      some ((r.1, []), r.2)

/-- A descriptor of a plain file. -/
structure PlainFile where
  isOpen : Bool
  objId : ℕ
  flags : SpiffsFlags
  position : ℕ

/-- **Plain files**: each object has contents, and a descriptor has a position in them. -/
structure PlainFiles where
  fds : List PlainFile
  content : ℕ → List UInt8

namespace PlainFiles

/-- A descriptor that is open. -/
def fdGet (q : PlainFiles) (fh : ℕ) : Option PlainFile := q.fds[fh]?.filter (·.isOpen)

/-- A descriptor is changed. -/
def modifyFd (q : PlainFiles) (fh : ℕ) (f : PlainFile → PlainFile) : PlainFiles :=
  { q with fds := q.fds.modify fh f }

/-- The position goes on. -/
def advance (len : ℕ) (fd : PlainFile) : PlainFile := { fd with position := fd.position + len }

/-- A write is done at once, at the position or the end. -/
def write (q : PlainFiles) (fh : ℕ) (buf : List UInt8) : ℤ × PlainFiles :=
  match q.fdGet fh with
  | none => (-1, q)
  | some fd =>
    if fd.flags.wronly = false then (-1, q)
    else
      let offset := if fd.flags.append then (q.content fd.objId).length else fd.position
      let content :=
        Function.update q.content fd.objId (overlay (q.content fd.objId) offset buf)
      (buf.length, { q with content := content }.modifyFd fh (advance buf.length))

/-- A read gets what there is; behind the end it fails, but for nothing of nothing. -/
def readObject (q : PlainFiles) (fh : ℕ) (fd : PlainFile) (len : ℕ) :
    (ℤ × List UInt8) × PlainFiles :=
  let rest := (q.content fd.objId).drop fd.position
  if rest = [] ∧ (0 < len ∨ q.content fd.objId ≠ []) then ((-1, []), q)
  else (((rest.take len).length, rest.take len), q.modifyFd fh (advance (rest.take len).length))

/-- A read, of a file that may be read. -/
def read (q : PlainFiles) (fh len : ℕ) : (ℤ × List UInt8) × PlainFiles :=
  match q.fdGet fh with
  | none => ((-1, []), q)
  | some fd => if fd.flags.rdonly = false then ((-1, []), q) else q.readObject fh fd len

/-- The offset that a seek is to. -/
def target (q : PlainFiles) (fd : PlainFile) (offs : ℤ) : SeekMode → ℤ
  | .seekSet => offs
  | .seekCur => fd.position + offs
  | .seekEnd => (q.content fd.objId).length + offs

/-- A seek stays in the contents; an empty file refuses it. -/
def seekObject (q : PlainFiles) (fh : ℕ) (fd : PlainFile) (target : ℤ) : ℤ × PlainFiles :=
  if q.content fd.objId = [] ∨ (q.content fd.objId).length < target then (-1, q)
  else (target, q.modifyFd fh fun fd => { fd with position := target.toNat })

/-- A seek. -/
def lseek (q : PlainFiles) (fh : ℕ) (offs : ℤ) (whence : SeekMode) : ℤ × PlainFiles :=
  match q.fdGet fh with
  | none => (-1, q)
  | some fd => q.seekObject fh fd (q.target fd offs whence)

/-- A descriptor becomes one of an object. -/
def openObject (q : PlainFiles) (fh objId : ℕ) (flags : SpiffsFlags) : ℤ × PlainFiles :=
  (fh + 1, q.modifyFd fh fun _ => ⟨true, objId, flags, 0⟩)

/-- An object has no contents any more. -/
def clear (q : PlainFiles) (objId : ℕ) : PlainFiles :=
  { q with content := Function.update q.content objId [] }

/-- The first descriptor that is not open becomes one of the object that was found, or of a new
one. -/
def openFile (q : PlainFiles) (found : Except ℤ ℕ) (newId : Option ℕ) (flags : OpenFlags) :
    ℤ × PlainFiles :=
  match q.fds.findIdx? (!·.isOpen) with
  | none => (-1, q)
  | some fh =>
    match found, newId with
    | .ok objId, _ =>
      if flags.creat ∧ flags.excl then (-1, q)
      else (if flags.trunc then q.clear objId else q).openObject fh objId flags.toSpiffsFlags
    | .error err, some objId =>
      if flags.creat ∧ err = SpiffsLookup.errNotFound then
        (q.clear objId).openObject fh objId flags.toSpiffsFlags
      else (-1, q)
    | .error _, none => (-1, q)

/-- The descriptors of an object that is removed are not open any more. -/
def objectRemoved (objId : ℕ) (fd : PlainFile) : PlainFile :=
  if fd.isOpen ∧ fd.objId = objId then { fd with isOpen := false, objId := 0 } else fd

/-- The object that was found has no contents any more, and no descriptors. -/
def remove (q : PlainFiles) (found : Except ℤ ℕ) : ℤ × PlainFiles :=
  match q.fds.findIdx? (!·.isOpen), found with
  | some _, .ok objId => (0, { q.clear objId with fds := q.fds.map (objectRemoved objId) })
  | _, _ => (-1, q)

/-- **The system without a cache.** -/
def files : Transducer PlainFiles FilesCall (ℤ × List UInt8) where
  step q
    | .openFile found newId flags =>
      let r := q.openFile found newId flags
      some ((r.1, []), r.2)
    | .write fh buf _ =>
      let r := q.write fh buf
      some ((r.1, []), r.2)
    | .read fh len => some (q.read fh len)
    | .lseek fh offs whence =>
      let r := q.lseek fh offs whence
      some ((r.1, []), r.2)
    | .fflush fh => some ((if (q.fdGet fh).isSome then 0 else -1, []), q)
    | .close fh =>
      if (q.fdGet fh).isSome then
        some ((0, []), q.modifyFd fh fun fd => { fd with isOpen := false })
      else some ((-1, []), q)
    | .remove found =>
      let r := q.remove found
      some ((r.1, []), r.2)

end PlainFiles

namespace SpiffsFiles

variable {σ : Type} {o : SpiffsObjects σ} {rep : σ → (ℕ → List UInt8) → (ℕ → Option ℕ) → Prop}
variable {s t : SpiffsFiles σ} {c : ℕ → List UInt8} {fh ix x k pageSize : ℕ} {p : WrPage}

/-! ## Pages and what they stand for -/

/-- The page has data. -/
def HasPage (s : SpiffsFiles σ) (ix : ℕ) (p : WrPage) : Prop := s.pages[ix]? = some (some p)

/-- **What an object holds for a reader**: its contents, with the data of its page over them. -/
def Shows (s : SpiffsFiles σ) (c : ℕ → List UInt8) (x : ℕ) (d : List UInt8) : Prop :=
  (∃ ix p, s.HasPage ix p ∧ p.objId = x ∧ d = overlay (c x) p.offset p.data) ∨
  (∀ ix p, s.HasPage ix p → p.objId ≠ x) ∧ d = c x

/-- The object of each descriptor that is open. -/
def opened (s : SpiffsFiles σ) (fh : ℕ) : Option ℕ := (s.fdGet fh).map (·.objId)

/-- **The invariant.** The pages are inside the memory and leave no gap, there is one for an
object at most, a descriptor points to that of its object, and a page has an open file. -/
structure Inv (rep : σ → (ℕ → List UInt8) → (ℕ → Option ℕ) → Prop) (pageSize : ℕ)
    (c : ℕ → List UInt8) (s : SpiffsFiles σ) : Prop where
  rep : rep s.objects c s.opened
  room : ∀ ix p, s.HasPage ix p →
    p.mem.length = pageSize ∧ p.size ≤ pageSize ∧ p.offset ≤ (c p.objId).length
  unique : ∀ ix iy p q, s.HasPage ix p → s.HasPage iy q → p.objId = q.objId → ix = iy
  link : ∀ (fh : ℕ) (fd : SpiffsFile) (ix : ℕ), s.fds[fh]? = some fd → fd.cachePage = some ix →
    fd.isOpen = true ∧ ∃ p, s.HasPage ix p ∧ p.objId = fd.objId
  held : ∀ ix p, s.HasPage ix p → ∃ (fh : ℕ) (fd : SpiffsFile), s.fds[fh]? = some fd ∧
    fd.isOpen = true ∧ fd.objId = p.objId ∧ fd.flags.direct = false

/-- A descriptor, without its page. -/
def plainFd (fd : SpiffsFile) : PlainFile := ⟨fd.isOpen, fd.objId, fd.flags, fd.fdoffset⟩

/-- **The files stand for plain ones.** -/
structure Refines (rep : σ → (ℕ → List UInt8) → (ℕ → Option ℕ) → Prop) (pageSize : ℕ)
    (s : SpiffsFiles σ) (q : PlainFiles) : Prop where
  inv : ∃ c, Inv rep pageSize c s ∧ ∀ x, s.Shows c x (q.content x)
  fds : s.fds.map plainFd = q.fds
  position : ∀ (fh : ℕ) (fd : PlainFile), q.fdGet fh = some fd →
    fd.position ≤ (q.content fd.objId).length

theorem HasPage.eq {p' : WrPage} (h : s.HasPage ix p) (h' : s.HasPage ix p') : p = p' :=
  Option.some.inj (Option.some.inj (h.symm.trans h'))

/-- `spiffs_cache_page_get_by_fd` finds the page of an object, or there is none. -/
theorem pageGetByFd_cases (s : SpiffsFiles σ) (x : ℕ) :
    (s.pageGetByFd x = none ∧ ∀ ix p, s.HasPage ix p → p.objId ≠ x) ∨
    ∃ ix p, s.HasPage ix p ∧ p.objId = x ∧ s.pageGetByFd x = some ix := by
  unfold pageGetByFd
  cases hfind : s.pages.findIdx? (Option.any (·.objId == x)) with
  | none =>
    refine Or.inl ⟨rfl, fun ix p hp heq => ?_⟩
    have hnot := List.findIdx?_eq_none_iff.mp hfind _ (List.mem_of_getElem? hp)
    simp [heq] at hnot
  | some ix =>
    obtain ⟨hlt, hany, -⟩ := List.findIdx?_eq_some_iff_getElem.mp hfind
    cases hp : s.pages[ix] with
    | none =>
      rw [hp] at hany
      cases hany
    | some p =>
      refine Or.inr ⟨ix, p, ?_, ?_, rfl⟩
      · exact (List.getElem?_eq_getElem hlt).trans (congrArg some hp)
      · rw [hp] at hany
        simpa using hany

/-- An object without a page. -/
theorem no_page_of_none (h : s.pageGetByFd x = none) (ix : ℕ) (p : WrPage)
    (hp : s.HasPage ix p) :
    p.objId ≠ x := by
  rcases pageGetByFd_cases s x with ⟨-, hno⟩ | ⟨iy, p', -, -, hsome⟩
  · exact hno ix p hp
  · rw [h] at hsome
    cases hsome

/-- A descriptor's page is that of its object. -/
theorem Inv.cachePage_cases (h : Inv rep pageSize c s) {fd : SpiffsFile}
    (hfd : s.fds[fh]? = some fd) :
    (s.cachePage fd = none ∧ ∀ ix p, s.HasPage ix p → p.objId ≠ fd.objId) ∨
    ∃ ix p, s.HasPage ix p ∧ p.objId = fd.objId ∧ s.cachePage fd = some ix := by
  unfold cachePage
  cases hpage : fd.cachePage with
  | some ix =>
    obtain ⟨-, p, hp, hobj⟩ := h.link fh fd ix hfd hpage
    exact Or.inr ⟨ix, p, hp, hobj, rfl⟩
  | none => exact pageGetByFd_cases s fd.objId

/-- What is shown of an object that has a page. -/
theorem Inv.shows_of_page (h : Inv rep pageSize c s) (hp : s.HasPage ix p) {d : List UInt8}
    (hd : s.Shows c p.objId d) : d = overlay (c p.objId) p.offset p.data := by
  rcases hd with ⟨iy, q, hq, hobj, rfl⟩ | ⟨hno, -⟩
  · obtain rfl := h.unique ix iy p q hp hq hobj.symm
    rw [hp.eq hq]
  · exact absurd rfl (hno ix p hp)

/-- And of one that has none. -/
theorem shows_of_no_page (hno : ∀ ix p, s.HasPage ix p → p.objId ≠ x) {d : List UInt8}
    (hd : s.Shows c x d) : d = c x := by
  rcases hd with ⟨ix, p, hp, hobj, -⟩ | ⟨-, rfl⟩
  · exact absurd hobj (hno ix p hp)
  · rfl

/-- What is shown depends on the page of the object and its contents. -/
theorem Shows.congr {c' : ℕ → List UInt8} {d : List UInt8} (hd : s.Shows c x d)
    (hpages : ∀ ix p, p.objId = x → (s.HasPage ix p ↔ t.HasPage ix p)) (hc : c' x = c x) :
    t.Shows c' x d := by
  rcases hd with ⟨ix, p, hp, hobj, rfl⟩ | ⟨hno, rfl⟩
  · exact Or.inl ⟨ix, p, (hpages ix p hobj).mp hp, hobj, by rw [hc]⟩
  · exact Or.inr ⟨fun ix p hp hobj => hno ix p ((hpages ix p hobj).mpr hp) hobj, hc.symm⟩

/-! ## Descriptors -/

theorem fdGet_eq_some {fd : SpiffsFile} :
    s.fdGet fh = some fd ↔ s.fds[fh]? = some fd ∧ fd.isOpen = true := by
  rw [fdGet, Option.filter_eq_some_iff]

/-- A plain descriptor is one without its page. -/
theorem map_fdGet {q : PlainFiles} (h : s.fds.map plainFd = q.fds) (fh : ℕ) :
    q.fdGet fh = (s.fdGet fh).map plainFd := by
  unfold PlainFiles.fdGet fdGet
  rw [← h, List.getElem?_map]
  cases s.fds[fh]? with
  | none => rfl
  | some fd => cases hopen : fd.isOpen <;> simp [Option.filter, plainFd, hopen]

theorem opened_congr (h : s.fds.map plainFd = t.fds.map plainFd) : s.opened = t.opened := by
  funext fh
  have hs := map_fdGet (q := ⟨s.fds.map plainFd, fun _ => []⟩) rfl fh
  have ht := map_fdGet (s := t) (q := ⟨s.fds.map plainFd, fun _ => []⟩) h.symm fh
  have heq := congrArg (Option.map PlainFile.objId) (hs.symm.trans ht)
  rwa [Option.map_map, Option.map_map] at heq

theorem map_plainFd_modify {f : SpiffsFile → SpiffsFile} {g : PlainFile → PlainFile}
    {fds : List SpiffsFile} (h : ∀ fd, fds[fh]? = some fd → plainFd (f fd) = g (plainFd fd)) :
    (fds.modify fh f).map plainFd = (fds.map plainFd).modify fh g := by
  refine List.ext_getElem? fun i => ?_
  rw [List.getElem?_map, List.getElem?_modify, List.getElem?_modify, List.getElem?_map]
  cases hfd : fds[i]? with
  | none => rfl
  | some fd =>
    by_cases hi : fh = i
    · subst hi
      simp [h fd hfd]
    · simp [hi]

theorem getElem?_modifyFd (s : SpiffsFiles σ) (fh : ℕ) (f : SpiffsFile → SpiffsFile) (i : ℕ) :
    (s.modifyFd fh f).fds[i]? = if fh = i then s.fds[i]?.map f else s.fds[i]? := by
  show (s.fds.modify fh f)[i]? = _
  rw [List.getElem?_modify]
  cases s.fds[i]? <;> split <;> rfl

/-- A page of the pool is set. -/
theorem hasPage_set {v : Option WrPage} (hix : ix < s.pages.length) {j : ℕ} :
    SpiffsFiles.HasPage { s with pages := s.pages.set ix v } j p ↔
      if j = ix then v = some p else s.HasPage j p := by
  unfold HasPage
  rw [List.getElem?_set]
  by_cases hj : j = ix
  · rw [if_pos hj, if_pos hj.symm, if_pos hix]
    exact ⟨Option.some.inj, congrArg some⟩
  · rw [if_neg hj, if_neg (Ne.symm hj)]

theorem HasPage.lt (h : s.HasPage ix p) : ix < s.pages.length :=
  (List.getElem?_eq_some_iff.mp h).1

/-! ## What keeps the invariant -/

/-- A descriptor is changed in its position or its page. -/
theorem Inv.modifyFd (h : Inv rep pageSize c s) {f : SpiffsFile → SpiffsFile}
    (hf : ∀ fd, s.fds[fh]? = some fd → (f fd).isOpen = fd.isOpen ∧ (f fd).objId = fd.objId ∧
      (f fd).flags = fd.flags ∧ ∀ ix, (f fd).cachePage = some ix →
        fd.isOpen = true ∧ ∃ p, s.HasPage ix p ∧ p.objId = fd.objId) :
    Inv rep pageSize c (s.modifyFd fh f) := by
  have hopened : (s.modifyFd fh f).opened = s.opened := by
    funext i
    unfold opened fdGet
    rw [getElem?_modifyFd]
    split
    · rename_i hi
      subst hi
      cases hfd : s.fds[fh]? with
      | none => rfl
      | some fd =>
        obtain ⟨hopen, hobj, -, -⟩ := hf fd hfd
        cases hcase : fd.isOpen <;> simp [Option.filter, hopen, hobj, hcase]
    · rfl
  refine ⟨hopened ▸ h.rep, h.room, h.unique, fun i fd ix hfd hpage => ?_, fun ix p hp => ?_⟩
  · rw [getElem?_modifyFd] at hfd
    split at hfd
    · rename_i hi
      subst hi
      obtain ⟨fd', hfd', rfl⟩ := Option.map_eq_some_iff.mp hfd
      obtain ⟨hopen, hobj, -, hlink⟩ := hf fd' hfd'
      rw [hopen, hobj]
      exact hlink ix hpage
    · exact h.link i fd ix hfd hpage
  · obtain ⟨i, fd, hfd, hopen, hobj, hdirect⟩ := h.held ix p hp
    by_cases hi : fh = i
    · subst hi
      obtain ⟨hopen', hobj', hflags, -⟩ := hf fd hfd
      exact ⟨fh, f fd, by rw [getElem?_modifyFd, if_pos rfl, hfd]; rfl, hopen'.trans hopen,
        hobj'.trans hobj, by rw [hflags]; exact hdirect⟩
    · exact ⟨i, fd, by rw [getElem?_modifyFd, if_neg hi]; exact hfd, hopen, hobj, hdirect⟩

/-- The contents change, and none that has a page gets shorter. -/
theorem Inv.objects (h : Inv rep pageSize c s) {objects : σ} {c' : ℕ →
    List UInt8} {failed : Bool}
    (hrep : rep objects c' s.opened)
    (hle : ∀ ix p, s.HasPage ix p → (c p.objId).length ≤ (c' p.objId).length) :
    Inv rep pageSize c' { s with objects := objects, failed := failed } :=
  ⟨hrep, fun ix p hp => ⟨(h.room ix p hp).1, (h.room ix p hp).2.1,
    (h.room ix p hp).2.2.trans (hle ix p hp)⟩, h.unique, h.link, h.held⟩

/-- A page is released, and its pointers with it. -/
theorem Inv.fdRelease (h : Inv rep pageSize c s) (hix : ix < s.pages.length) :
    Inv rep pageSize c (s.fdRelease ix) ∧ (s.fdRelease ix).fds.map plainFd = s.fds.map plainFd ∧
      ∀ j p, (s.fdRelease ix).HasPage j p ↔ j ≠ ix ∧ s.HasPage j p := by
  have hpages : ∀ j p, (s.fdRelease ix).HasPage j p ↔ j ≠ ix ∧ s.HasPage j p := by
    intro j p
    have hset := hasPage_set (s := s) (v := none) (p := p) hix (j := j)
    refine Iff.trans (Iff.rfl : (s.fdRelease ix).HasPage j p ↔ _) (hset.trans ?_)
    by_cases hj : j = ix
    · simp [hj]
    · simp [hj]
  have hfds : (s.fdRelease ix).fds.map plainFd = s.fds.map plainFd := by
    refine (List.map_map).trans (List.map_congr_left fun fd _ => ?_)
    show plainFd (ite _ _ _) = plainFd fd
    split <;> rfl
  refine ⟨⟨opened_congr hfds ▸ h.rep, fun j p hp => h.room j p ((hpages j p).mp hp).2,
    fun j k p q hp hq => h.unique j k p q ((hpages j p).mp hp).2 ((hpages k q).mp hq).2,
    fun i fd j hfd hpage => ?_, fun j p hp => ?_⟩, hfds, hpages⟩
  · obtain ⟨fd', hfd', hmap⟩ := Option.map_eq_some_iff.mp (List.getElem?_map.symm.trans hfd)
    split at hmap
    · rw [← hmap] at hpage
      cases hpage
    · rename_i hnot
      subst hmap
      obtain ⟨hopen, p, hp, hobj⟩ := h.link i fd' j hfd' hpage
      have hj : j ≠ ix := fun heq => hnot ⟨hopen, heq ▸ hpage⟩
      exact ⟨hopen, p, (hpages j p).mpr ⟨hj, hp⟩, hobj⟩
  · obtain ⟨i, fd, hfd, hopen, hobj, hdirect⟩ := h.held j p ((hpages j p).mp hp).2
    refine ⟨i, _, (List.getElem?_map.trans (congrArg (Option.map _) hfd)), ?_⟩
    dsimp only
    split
    · exact ⟨hopen, hobj, hdirect⟩
    · exact ⟨hopen, hobj, hdirect⟩

/-- A page gets data: it had some of the object, or it is free and the object has no page. -/
theorem Inv.setPage (h : Inv rep pageSize c s) (hix : ix < s.pages.length)
    (hroom : p.mem.length = pageSize ∧ p.size ≤ pageSize ∧ p.offset ≤ (c p.objId).length)
    (hold : (∃ q, s.HasPage ix q ∧ q.objId = p.objId) ∨
      (∀ q, ¬ s.HasPage ix q) ∧ (∀ j q, s.HasPage j q → q.objId ≠ p.objId) ∧
        ∃ (fh : ℕ) (fd : SpiffsFile), s.fds[fh]? = some fd ∧ fd.isOpen = true ∧
          fd.objId = p.objId ∧ fd.flags.direct = false) :
    Inv rep pageSize c { s with pages := s.pages.set ix (some p) } := by
  have hpages : ∀ {j q}, SpiffsFiles.HasPage { s with pages := s.pages.set ix (some p) } j q →
      j = ix ∧ q = p ∨ j ≠ ix ∧ s.HasPage j q := by
    intro j q hq
    rw [hasPage_set hix] at hq
    split at hq
    · rename_i hj
      exact Or.inl ⟨hj, (Option.some.inj hq).symm⟩
    · rename_i hj
      exact Or.inr ⟨hj, hq⟩
  -- The object has no page but this one.
  have honly : ∀ {j q}, j ≠ ix → s.HasPage j q → q.objId ≠ p.objId := by
    intro j q hj hq hobj
    rcases hold with ⟨q', hq', hobj'⟩ | ⟨-, hno, -⟩
    · exact hj (h.unique j ix q q' hq hq' (hobj.trans hobj'.symm))
    · exact hno j q hq hobj
  refine ⟨h.rep, fun j q hq => ?_, fun j k q r hq hr hobj => ?_, fun i fd j hfd hpage => ?_,
    fun j q hq => ?_⟩
  · rcases hpages hq with ⟨-, rfl⟩ | ⟨-, hq⟩
    · exact hroom
    · exact h.room j q hq
  · rcases hpages hq with ⟨hj, rfl⟩ | ⟨hj, hq'⟩
    · rcases hpages hr with ⟨hk, -⟩ | ⟨hk, hr'⟩
      · exact hj.trans hk.symm
      · exact absurd hobj.symm (honly hk hr')
    · rcases hpages hr with ⟨-, rfl⟩ | ⟨-, hr'⟩
      · exact absurd hobj (honly hj hq')
      · exact h.unique j k q r hq' hr' hobj
  · obtain ⟨hopen, q, hq, hobj⟩ := h.link i fd j hfd hpage
    by_cases hj : j = ix
    · subst hj
      refine ⟨hopen, p, (hasPage_set hix).mpr (by rw [if_pos rfl]), ?_⟩
      rcases hold with ⟨q', hq', hobj'⟩ | ⟨hfree, -, -⟩
      · rw [← hobj', hq'.eq hq, hobj]
      · exact absurd hq (hfree q)
    · exact ⟨hopen, q, (hasPage_set hix).mpr (by rw [if_neg hj]; exact hq), hobj⟩
  · rcases hpages hq with ⟨rfl, rfl⟩ | ⟨-, hq⟩
    · rcases hold with ⟨q', hq', hobj'⟩ | ⟨-, -, hfd⟩
      · rw [← hobj']
        exact h.held j q' hq'
      · exact hfd
    · exact h.held j q hq

/-! ## An object loses its contents -/

/-- **An object without a page loses its contents**, and maybe its descriptors. -/
theorem Inv.clear (h : Inv rep pageSize c s) (hno : ∀ ix p, s.HasPage ix p → p.objId ≠ x)
    (hrep : rep t.objects (Function.update c x []) t.opened) (hpages : t.pages = s.pages)
    (hlink : ∀ (i : ℕ) (fd : SpiffsFile) (ix : ℕ), t.fds[i]? = some fd →
      fd.cachePage = some ix →
      s.fds[i]? = some fd)
    (hkept : ∀ (i : ℕ) (fd : SpiffsFile), s.fds[i]? = some fd → fd.objId ≠ x →
      t.fds[i]? = some fd) :
    Inv rep pageSize (Function.update c x []) t := by
  have hsame : ∀ ix p, t.HasPage ix p → s.HasPage ix p := by
    intro ix p hp
    unfold HasPage at hp
    rwa [hpages] at hp
  have hsame' : ∀ ix p, s.HasPage ix p → t.HasPage ix p := by
    intro ix p hp
    unfold HasPage
    rwa [hpages]
  refine ⟨hrep, fun ix p hp => ?_, fun ix iy p q hp hq => h.unique ix iy p q (hsame ix p hp)
    (hsame iy q hq), fun i fd ix hfd hpage => ?_, fun ix p hp => ?_⟩
  · rw [Function.update_of_ne (hno ix p (hsame ix p hp))]
    exact h.room ix p (hsame ix p hp)
  · obtain ⟨hopen, p, hp, hobj⟩ := h.link i fd ix (hlink i fd ix hfd hpage) hpage
    exact ⟨hopen, p, hsame' ix p hp, hobj⟩
  · obtain ⟨i, fd, hfd, hopen, hobj, hdirect⟩ := h.held ix p (hsame ix p hp)
    exact ⟨i, fd, hkept i fd hfd (hobj ▸ hno ix p (hsame ix p hp)), hopen, hobj, hdirect⟩

/-! What `objectRemoved` does to the descriptors. -/

theorem plainFd_objectRemoved (x : ℕ) (fd : SpiffsFile) :
    plainFd (objectRemoved x fd) = PlainFiles.objectRemoved x (plainFd fd) := by
  unfold objectRemoved PlainFiles.objectRemoved
  by_cases hcase : fd.isOpen = true ∧ fd.objId = x
  · rw [if_pos hcase, if_pos (show (plainFd fd).isOpen = true ∧
      (plainFd fd).objId = x from hcase)]
    rfl
  · rw [if_neg hcase,
      if_neg (show ¬ ((plainFd fd).isOpen = true ∧ (plainFd fd).objId = x) from hcase)]

theorem map_objectRemoved (x : ℕ) (fds : List SpiffsFile) :
    (fds.map (objectRemoved x)).map plainFd = (fds.map plainFd).map
    (PlainFiles.objectRemoved x) := by
  rw [List.map_map, List.map_map]
  exact List.map_congr_left fun fd _ => plainFd_objectRemoved x fd

/-- What is open afterwards was there before. -/
theorem getElem?_of_objectRemoved {fds : List SpiffsFile} {i : ℕ} {fd : SpiffsFile}
    (hfd : (fds.map (objectRemoved x))[i]? = some fd) (hopen : fd.isOpen = true) :
    fds[i]? = some fd ∧ fd.objId ≠ x := by
  obtain ⟨fd', hfd', rfl⟩ := Option.map_eq_some_iff.mp (List.getElem?_map.symm.trans hfd)
  unfold objectRemoved at hopen ⊢
  split at hopen
  · cases hopen
  · rename_i hcase
    rw [if_neg hcase]
    exact ⟨hfd', fun hobj => hcase ⟨hopen, hobj⟩⟩

/-- The descriptors of other objects stay. -/
theorem getElem?_objectRemoved {fds : List SpiffsFile} {i : ℕ} {fd : SpiffsFile}
    (hfd : fds[i]? = some fd) (hobj : fd.objId ≠ x) :
    (fds.map (objectRemoved x))[i]? = some fd := by
  rw [List.getElem?_map, hfd, Option.map_some, objectRemoved, if_neg fun hcase => hobj hcase.2]

theorem cachePage_objectRemoved (x : ℕ) (fd : SpiffsFile) :
    (objectRemoved x fd).cachePage = fd.cachePage := by
  unfold objectRemoved
  split <;> rfl

theorem opened_objectRemoved (s : SpiffsFiles σ) (x : ℕ) :
    opened { s with fds := s.fds.map (objectRemoved x) } =
      fun i => if s.opened i = some x then none else s.opened i := by
  funext i
  unfold opened fdGet
  dsimp only
  rw [List.getElem?_map]
  cases hfd : s.fds[i]? with
  | none => rfl
  | some fd =>
    rw [Option.map_some, objectRemoved]
    cases hopen : fd.isOpen <;> by_cases hobj : fd.objId = x <;>
      simp [Option.filter, hopen, hobj]

end SpiffsFiles
